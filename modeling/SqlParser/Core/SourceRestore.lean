import SqlParser.Core.SourceEdits
import SqlParser.Library.Splice

/-! # Restoring a text through its edits

`sqlparser_surface.c` writes the text that a list of edits makes: first a pass longer the edits that
measures the new text against the output limit, then a pass that copies.
-/

namespace SqlParser.Core

open SqlParser.Library.Splice

/-! ## The two functions -/

/-- `-` on `size_t` -/
def sizeSub (left right : Nat) : Nat :=
  (left + (sizeMax + 1 - right)) % (sizeMax + 1)

/-- `+` on `size_t` -/
def sizeAdd (left right : Nat) : Nat :=
  (left + right) % (sizeMax + 1)

/-- One edit as both functions read it; `none` is a text that its own check refuses. -/
structure Replacing where
  start : Nat
  stop : Nat
  content : Option Text

def outputLimitError : Error :=
  ⟨.resourceLimit, "deparse output exceeds configured byte limit"⟩

/-- The texts of the internal errors of one of the two functions. -/
structure RestoreMessages where
  interval : String
  outputLength : String

/-- What a call returns, and the text that its caller holds then. -/
structure RestoreOutcome where
  result : Except Error Unit
  stored : Text

/-- The measuring loop: the length of the new text while the edits up to a cursor are taken in. -/
def measureEdits (limit length : Nat) (messages : RestoreMessages) (cursor final : Nat) : List Replacing → Except Error Nat
  | [] => .ok final
  | edit :: edits =>
    match edit.content with
    | none => .error ⟨.internalError, messages.interval⟩
    | some content =>
      if edit.start < cursor ∨ edit.stop < edit.start ∨ edit.stop > length then .error ⟨.internalError, messages.interval⟩
      else if edit.stop - edit.start > final then .error ⟨.internalError, messages.interval⟩
      else
        let kept := final - (edit.stop - edit.start)
        if content.length > sizeSub limit kept then .error outputLimitError
        else measureEdits limit length messages edit.stop (sizeAdd kept content.length) edits

/-- The copying loop and the copy of the rest behind it. -/
def copyEdits (text : Text) (cursor : Nat) : List Replacing → Text
  | [] => text.drop cursor
  | edit :: edits =>
    (text.drop cursor).take (edit.start - cursor) ++ edit.content.getD [] ++ copyEdits text edit.stop edits

/-- What the two functions have in common; `refuses` is the test of the measured length. -/
def restoreText (memory : Bool) (limit : Nat) (text stored : Text) (messages : RestoreMessages) (refuses : Nat → Bool)
    (edits : List Replacing) : RestoreOutcome :=
  if text.length > limit then ⟨.error outputLimitError, stored⟩
  else
    match measureEdits limit text.length messages 0 text.length edits with
    | .error error => ⟨.error error, stored⟩
    | .ok final =>
      if refuses final then ⟨.error outputLimitError, stored⟩
      else if !memory then ⟨.error outOfMemory, stored⟩
      else
        let written := copyEdits text 0 edits
        if written.length ≠ final then ⟨.error ⟨.internalError, messages.outputLength⟩, stored⟩
        else ⟨.ok (), written⟩

def SourceEdit.replacing (edit : SourceEdit) : Replacing :=
  ⟨edit.sourceStart, edit.sourceEnd, edit.replacement⟩

/-- `sqlparser_surface_restore_source_edits` -/
def restoreSourceEdits (memory : Bool) (limit : Nat) (sql stored : Text) (edits : List SourceEdit) : RestoreOutcome :=
  restoreText memory limit sql stored ⟨"source edit interval is invalid", "source edit output length is invalid"⟩
    (fun final => final > limit || final = sizeMax) (edits.map SourceEdit.replacing)

/-- `sqlparser_surface_edit_t`; the length of the source is its own. -/
structure SurfaceEdit where
  outputStart : Nat
  outputEnd : Nat
  source : Option Text
  sourceStart : Nat
  sourceEnd : Nat

def SurfaceEdit.replacing (edit : SurfaceEdit) : Replacing where
  start := edit.outputStart
  stop := edit.outputEnd
  content := edit.source.bind fun source =>
    if edit.sourceStart > source.length ∨ edit.sourceEnd < edit.sourceStart ∨ edit.sourceEnd > source.length then none
    else some ((source.drop edit.sourceStart).take (edit.sourceEnd - edit.sourceStart))

/-- `sqlparser_surface_apply_edits` -/
def surfaceApplyEdits (memory : Bool) (limit : Nat) (stored : Text) (edits : List SurfaceEdit) : RestoreOutcome :=
  if edits = [] then ⟨.ok (), stored⟩
  else
    restoreText memory limit stored stored ⟨"surface edit interval is invalid", "surface edit output length is invalid"⟩
      (fun final => final = sizeMax) (edits.map SurfaceEdit.replacing)

/-! ## Valid edits -/

namespace Replacing

def edit (replacing : Replacing) : Edit UInt8 :=
  ⟨replacing.start, replacing.stop, replacing.content.getD []⟩

end Replacing

/-- Every edit has a text, and the intervals stand in order inside the old text. -/
structure ValidEdits (length cursor : Nat) (edits : List Replacing) : Prop where
  present : ∀ edit ∈ edits, edit.content.isSome
  ordered : Ordered cursor (edits.map Replacing.edit)
  within : ∀ edit ∈ edits, edit.stop ≤ length

/-- The text that the edits make. -/
def restored (text : Text) (edits : List Replacing) : Text :=
  splice text 0 (edits.map Replacing.edit)

def growth (edits : List Replacing) : Int :=
  (edits.map fun edit => edit.edit.delta).sum

theorem ValidEdits.tail {length cursor : Nat} {edit : Replacing} {edits : List Replacing}
    (valid : ValidEdits length cursor (edit :: edits)) : ValidEdits length edit.stop edits where
  present other member := valid.present other (List.mem_cons_of_mem _ member)
  ordered := valid.ordered.2.2
  within other member := valid.within other (List.mem_cons_of_mem _ member)

theorem ValidEdits.front {length cursor : Nat} {front edits : List Replacing} (valid : ValidEdits length cursor edits)
    (isFront : front <+: edits) : ValidEdits length cursor front := by
  obtain ⟨behind, rfl⟩ := isFront
  refine ⟨fun edit member => valid.present edit (List.mem_append_left _ member), ?_,
    fun edit member => valid.within edit (List.mem_append_left _ member)⟩
  induction front generalizing cursor with
  | nil => trivial
  | cons edit front inductionHypothesis =>
    exact ⟨valid.ordered.1, valid.ordered.2.1, inductionHypothesis valid.tail⟩

theorem growth_cons (edit : Replacing) (edits : List Replacing) :
    growth (edit :: edits) = edit.edit.delta + growth edits := by
  rw [growth, List.map_cons, List.sum_cons]
  rfl

theorem restored_length {text : Text} {edits : List Replacing} (valid : ValidEdits text.length 0 edits) :
    ((restored text edits).length : Int) = text.length + growth edits := by
  rw [restored, splice_length text valid.ordered (Nat.zero_le _), List.map_map]
  · rw [Nat.cast_zero, sub_zero]
    rfl
  · intro edit listed
    obtain ⟨replacing, member, rfl⟩ := List.mem_map.mp listed
    exact valid.within replacing member

/-! ## The two passes -/

theorem sizeSub_eq {left right : Nat} (less : right ≤ left) (fits : left ≤ sizeMax) : sizeSub left right = left - right := by
  unfold sizeSub
  rw [show left + (sizeMax + 1 - right) = left - right + (sizeMax + 1) by omega, Nat.add_mod_right,
    Nat.mod_eq_of_lt (by omega)]

theorem sizeAdd_eq {left right : Nat} (fits : left + right ≤ sizeMax) : sizeAdd left right = left + right :=
  Nat.mod_eq_of_lt (by omega)

/-- No length on the way, from the first edit on, is above the limit. -/
def StaysBelow (limit final : Nat) (edits : List Replacing) : Prop :=
  ∀ front, front <+: edits → (final : Int) + growth front ≤ limit

theorem staysBelow_cons {limit final : Nat} {edit : Replacing} {edits : List Replacing} {next : Nat}
    (isNext : (next : Int) = final + edit.edit.delta) (here : final ≤ limit) :
    StaysBelow limit final (edit :: edits) ↔ StaysBelow limit next edits := by
  constructor
  · intro stays front isFront
    have below := stays (edit :: front) ((List.prefix_cons_inj edit).mpr isFront)
    rw [growth_cons] at below
    omega
  · intro stays front isFront
    rcases List.prefix_cons_iff.mp isFront with rfl | ⟨rest, rfl, isRest⟩
    · rw [growth, List.map_nil, List.sum_nil]
      omega
    · have below := stays rest isRest
      rw [growth_cons]
      omega

/-- The measuring pass finds the length of the new text, or an intermediate length above the limit. -/
theorem measureEdits_eq {limit length cursor final : Nat} (messages : RestoreMessages) {edits : List Replacing}
    (valid : ValidEdits length cursor edits) (fits : limit ≤ sizeMax) (below : final ≤ limit) (left : length ≤ final + cursor)
    (inside : cursor ≤ length) :
    (StaysBelow limit final edits → ∃ total : Nat, measureEdits limit length messages cursor final edits = .ok total ∧
        (total : Int) = final + growth edits) ∧
      (¬StaysBelow limit final edits → measureEdits limit length messages cursor final edits = .error outputLimitError) := by
  induction edits generalizing cursor final with
  | nil =>
    have stays : StaysBelow limit final [] := by
      intro front isFront
      rw [List.prefix_nil.mp isFront, growth, List.map_nil, List.sum_nil]
      omega
    exact ⟨fun _ => ⟨final, rfl, by rw [growth, List.map_nil, List.sum_nil, add_zero]⟩, fun above => absurd stays above⟩
  | cons edit edits inductionHypothesis =>
    obtain ⟨content, isContent⟩ := Option.isSome_iff_exists.mp (valid.present edit List.mem_cons_self)
    have delta : edit.edit.delta = (content.length : Int) - (edit.stop - edit.start) := by
      rw [Edit.delta, Replacing.edit, isContent, Option.getD_some]
    have cursorStart : cursor ≤ edit.start := valid.ordered.1
    have startStop : edit.start ≤ edit.stop := valid.ordered.2.1
    have stopLength := valid.within edit List.mem_cons_self
    rw [measureEdits, isContent]
    dsimp only
    rw [if_neg (by omega), if_neg (by omega)]
    have kept : final - (edit.stop - edit.start) ≤ limit := by omega
    rw [sizeSub_eq kept fits]
    split
    next longer =>
      -- the text with this edit as its last one is too long
      refine ⟨fun stays => ?_, fun _ => rfl⟩
      have above := stays [edit] ((List.prefix_cons_inj edit).mpr List.nil_prefix)
      rw [growth_cons, growth, List.map_nil, List.sum_nil, delta] at above
      omega
    next room =>
      rw [sizeAdd_eq (by omega)]
      have isNext : ((final - (edit.stop - edit.start) + content.length : Nat) : Int) = final + edit.edit.delta := by
        rw [delta]
        omega
      obtain ⟨measured, refused⟩ := @inductionHypothesis edit.stop
        (final - (edit.stop - edit.start) + content.length) valid.tail
        (by omega) (by omega) stopLength
      rw [staysBelow_cons isNext below, growth_cons, ← add_assoc, ← isNext]
      exact ⟨measured, refused⟩

/-- The copying pass writes the spliced text. -/
theorem copyEdits_eq (text : Text) (cursor : Nat) (edits : List Replacing) :
    copyEdits text cursor edits = splice text cursor (edits.map Replacing.edit) := by
  induction edits generalizing cursor with
  | nil => rfl
  | cons edit edits inductionHypothesis =>
    rw [copyEdits, inductionHypothesis, List.map_cons, splice, List.drop_take]
    rfl

/-! ## The output limit -/

/-- Only the length of the new text decides between the limit and success, and a call that fails keeps the old text. -/
structure ExactLimit (limit : Nat) (stored spliced : Text) (call : Bool → RestoreOutcome) : Prop where
  limited : ∀ memory, (∃ message, (call memory).result = .error ⟨.resourceLimit, message⟩) ↔ limit < spliced.length
  succeeds : spliced.length ≤ limit → call true = ⟨.ok (), spliced⟩
  noInternal : ∀ memory error, (call memory).result = .error error → error.code ≠ .internalError
  kept : ∀ memory, (call memory).result ≠ .ok () → (call memory).stored = stored

/-- The texts that the first edits make, from none of them to all, stay within the limit. -/
def StaysWithin (limit : Nat) (text : Text) (edits : List Replacing) : Prop :=
  ∀ front, front <+: edits → (restored text front).length ≤ limit

theorem staysWithin_iff {limit : Nat} {text : Text} {edits : List Replacing} (valid : ValidEdits text.length 0 edits) :
    StaysWithin limit text edits ↔ StaysBelow limit text.length edits := by
  refine forall_congr' fun front => forall_congr' fun isFront => ?_
  have length := restored_length (valid.front isFront)
  omega

theorem StaysWithin.all {limit : Nat} {text : Text} {edits : List Replacing} (stays : StaysWithin limit text edits) :
    (restored text edits).length ≤ limit :=
  stays edits (List.prefix_refl edits)

theorem StaysWithin.none {limit : Nat} {text : Text} {edits : List Replacing} (stays : StaysWithin limit text edits) :
    text.length ≤ limit := by
  have within := stays [] List.nil_prefix
  rwa [restored, List.map_nil, splice, List.drop_zero] at within

section restore

variable {limit : Nat} {text : Text} (stored : Text) (messages : RestoreMessages) (refuses : Nat → Bool)
  {edits : List Replacing}

/-- Where some text on the way is too long, the limit is reported. -/
theorem restoreText_limited (valid : ValidEdits text.length 0 edits) (fits : limit ≤ sizeMax)
    (above : ¬StaysWithin limit text edits) (memory : Bool) :
    restoreText memory limit text stored messages refuses edits = ⟨.error outputLimitError, stored⟩ := by
  unfold restoreText
  split
  · rfl
  next within =>
    have refused := (measureEdits_eq messages valid fits (not_lt.mp within) le_rfl (Nat.zero_le _)).2
      (mt (staysWithin_iff valid).mpr above)
    rw [refused]

/-- Elsewhere the measured length is that of the new text. -/
theorem restoreText_measured (valid : ValidEdits text.length 0 edits) (fits : limit ≤ sizeMax)
    (stays : StaysWithin limit text edits) (memory : Bool) :
    restoreText memory limit text stored messages refuses edits =
      if refuses (restored text edits).length then ⟨.error outputLimitError, stored⟩
      else if !memory then ⟨.error outOfMemory, stored⟩ else ⟨.ok (), restored text edits⟩ := by
  have within := stays.none
  obtain ⟨total, measured, isTotal⟩ := (measureEdits_eq messages valid fits within le_rfl (Nat.zero_le _)).1
    ((staysWithin_iff valid).mp stays)
  have isLength : total = (restored text edits).length := by
    have := restored_length valid
    omega
  have isCopy : copyEdits text 0 edits = restored text edits := copyEdits_eq text 0 edits
  unfold restoreText
  rw [if_neg (not_lt.mpr within), measured, isLength]
  dsimp only
  rw [isCopy, if_neg (not_not.mpr rfl)]

theorem restoreText_exact_iff (valid : ValidEdits text.length 0 edits) (fits : limit ≤ sizeMax)
    (tested : ∀ length, length ≤ limit → (refuses length = true ↔ length = sizeMax)) :
    ExactLimit limit stored (restored text edits) (fun memory =>
      restoreText memory limit text stored messages refuses edits) ↔
      limit < (restored text edits).length ∨ (StaysWithin limit text edits ∧ (restored text edits).length ≠ sizeMax) := by
  by_cases stays : StaysWithin limit text edits
  · have within := stays.all
    have calls := fun memory => restoreText_measured stored messages refuses valid fits stays memory
    by_cases full : (restored text edits).length = sizeMax
    · have refused := (tested _ within).mpr full
      refine ⟨fun exact => ?_, fun holds => ?_⟩
      · have limited := (exact.limited true).mp ⟨_, by rw [calls, if_pos refused]; rfl⟩
        exact .inl limited
      · rcases holds with longer | ⟨-, other⟩
        · exact absurd within (not_le.mpr longer)
        · exact absurd full other
    · have accepted := mt (tested _ within).mp full
      refine ⟨fun _ => .inr ⟨stays, full⟩, fun _ => ⟨fun memory => ?_, fun _ => ?_, fun memory error => ?_, fun memory => ?_⟩⟩
      · rw [calls, if_neg accepted]
        refine ⟨?_, fun longer => absurd within (not_le.mpr longer)⟩
        rintro ⟨message, failed⟩
        cases memory <;> cases failed
      · rw [calls, if_neg accepted]
        rfl
      · rw [calls, if_neg accepted]
        intro failed
        cases memory <;> cases failed
        nofun
      · rw [calls, if_neg accepted]
        cases memory
        · exact fun _ => rfl
        · exact fun failed => absurd rfl failed
  · have calls := fun memory => restoreText_limited stored messages refuses valid fits stays memory
    refine ⟨fun exact => ?_, fun holds => ?_⟩
    · exact .inl ((exact.limited true).mp ⟨_, by rw [calls]; rfl⟩)
    · have longer := holds.resolve_right fun within => stays within.1
      refine ⟨fun memory => ?_, fun within => absurd longer (not_lt.mpr within), fun memory error => ?_, fun memory _ => ?_⟩
      · rw [calls]
        exact ⟨fun _ => longer, fun _ => ⟨_, rfl⟩⟩
      · rw [calls]
        intro failed
        cases failed
        nofun
      · rw [calls]

end restore

/-- Both functions judge the new text by its length alone exactly where the first edits never make a text longer than the
limit, or all the edits together make one. -/
theorem output_limit_exact_iff {limit : Nat} (fits : limit ≤ sizeMax) (text stored : Text) :
    (∀ edits : List SourceEdit, ValidEdits text.length 0 (edits.map SourceEdit.replacing) →
      (ExactLimit limit stored (restored text (edits.map SourceEdit.replacing))
          (fun memory => restoreSourceEdits memory limit text stored edits) ↔
        limit < (restored text (edits.map SourceEdit.replacing)).length ∨
          (StaysWithin limit text (edits.map SourceEdit.replacing) ∧
            (restored text (edits.map SourceEdit.replacing)).length ≠ sizeMax))) ∧
      ∀ edits : List SurfaceEdit, ValidEdits stored.length 0 (edits.map SurfaceEdit.replacing) →
        (ExactLimit limit stored (restored stored (edits.map SurfaceEdit.replacing))
            (fun memory => surfaceApplyEdits memory limit stored edits) ↔
          if edits = [] then stored.length ≤ limit
          else limit < (restored stored (edits.map SurfaceEdit.replacing)).length ∨
            (StaysWithin limit stored (edits.map SurfaceEdit.replacing) ∧
              (restored stored (edits.map SurfaceEdit.replacing)).length ≠ sizeMax)) := by
  constructor
  · intro edits valid
    refine restoreText_exact_iff stored _ _ valid fits fun length within => ?_
    rw [Bool.or_eq_true, decide_eq_true_eq, decide_eq_true_eq]
    omega
  · intro edits valid
    unfold surfaceApplyEdits
    split
    next none =>
      subst none
      have same : restored stored (([] : List SurfaceEdit).map SurfaceEdit.replacing) = stored := List.drop_zero
      rw [same]
      refine ⟨fun exact => not_lt.mp fun longer => ?_, fun within =>
        ⟨fun memory => ?_, fun _ => rfl, nofun, fun memory failed => rfl⟩⟩
      · obtain ⟨message, failed⟩ := (exact.limited true).mpr longer
        cases failed
      · exact ⟨nofun, fun longer => absurd within (not_le.mpr longer)⟩
    next => exact restoreText_exact_iff stored _ _ valid fits fun length _ => decide_eq_true_iff

/-- An edit that grows a column in front of one that shrinks. -/
def growThenShrink : List SourceEdit :=
  [⟨7, 8, some (ascii "aaa")⟩, ⟨10, 13, some (ascii "b")⟩]

theorem growThenShrink_valid : ValidEdits 13 0 (growThenShrink.map SourceEdit.replacing) where
  present := by decide +kernel
  ordered := by
    refine ⟨?_, ?_, ?_, ?_, trivial⟩ <;> decide
  within := by decide +kernel

theorem output_limit_exact_grow_shrink :
    ExactLimit 15 [] (restored (ascii "SELECT a, bbb") (growThenShrink.map SourceEdit.replacing))
        (fun memory => restoreSourceEdits memory 15 (ascii "SELECT a, bbb") [] growThenShrink) ↔
      15 < (restored (ascii "SELECT a, bbb") (growThenShrink.map SourceEdit.replacing)).length ∨
        (StaysWithin 15 (ascii "SELECT a, bbb") (growThenShrink.map SourceEdit.replacing) ∧
          (restored (ascii "SELECT a, bbb") (growThenShrink.map SourceEdit.replacing)).length ≠ sizeMax) :=
  (output_limit_exact_iff (by decide) (ascii "SELECT a, bbb") []).1 growThenShrink growThenShrink_valid

/-- The new text is as long as the old one, and the call fails because the first edit alone makes a longer one. -/
theorem output_limit_grow_shrink :
    (restored (ascii "SELECT a, bbb") (growThenShrink.map SourceEdit.replacing)).length = 13 ∧
      (restoreSourceEdits true 13 (ascii "SELECT a, bbb") [] growThenShrink).result = .error outputLimitError ∧
      ¬ExactLimit 13 [] (restored (ascii "SELECT a, bbb") (growThenShrink.map SourceEdit.replacing))
        (fun memory => restoreSourceEdits memory 13 (ascii "SELECT a, bbb") [] growThenShrink) := by
  have length : (restored (ascii "SELECT a, bbb") (growThenShrink.map SourceEdit.replacing)).length = 13 := rfl
  have failed : (restoreSourceEdits true 13 (ascii "SELECT a, bbb") [] growThenShrink).result = .error outputLimitError := rfl
  refine ⟨length, failed, fun exact => ?_⟩
  have longer := (exact.limited true).mp ⟨_, failed⟩
  rw [length] at longer
  exact absurd longer (lt_irrefl 13)

end SqlParser.Core
