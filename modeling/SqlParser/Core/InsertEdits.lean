import SqlParser.Core.AstRebase
import SqlParser.Library.LowerBound

/-! # Edits of the strings of an INSERT

What `sqlparser_patch_certify_insert_edits` checks of the edits before the strings are replaced in
place, and the index of the first edit that ends behind a location.
-/

namespace SqlParser.Core

open SqlParser.Library.Splice
open SqlParser.Library.LowerBound

/-! ## The check -/

/-- The bytes of a buffer up to its NUL. -/
def cString (buffer : Text) : Text :=
  buffer.takeWhile fun byte => byte ≠ 0

def isPlainStringByte (byte : UInt8) : Bool :=
  0x20 ≤ byte && byte ≤ 0x7e && byte ≠ 39 && byte ≠ 92

/-- `sqlparser_patch_plain_ascii_string_sql`, whose loop reads eight bytes at a time. -/
def plainAsciiString : Text → Bool
  | [] => false
  | quote :: rest => quote = 39 && rest.getLast? = some 39 && rest.dropLast.all isPlainStringByte

/-- The content of a replacement, without its quotes. -/
def replacementContent (replacement : Text) : Text :=
  (replacement.drop 1).take (replacement.length - 2)

/-- What the check reads of the handle. -/
structure InsertHandle where
  failed : Bool
  hasControl : Bool
  patchBatchFlags : Nat
  surfaceEditCount : Nat
  hasSurfaceEdits : Bool
  identifierMutationCount : Nat
  hasIdentifierMutations : Bool
  identifierMutationCapacity : Nat
  identifierSpellingCount : Nat
  hasIdentifierSpellings : Bool
  identifierSpellingCapacity : Nat
  identifierSpellingStatus : Status
  /-- `sqlparser_dialect_state_is_plain_insert_strings` -/
  stateIsPlainInsertStrings : Nat → Bool
  sqlLength : Nat

/-- The loop over the edits: the sum of their deltas, if no edit is refused. -/
def certifyEditsFrom (sqlLength : Nat) (allRawPlain : Bool) : Nat → Int → List SourceEdit → Option Int
  | _, delta, [] => some delta
  | sourceEnd, delta, edit :: edits =>
    if edit.sourceStart < sourceEnd ∨ edit.sourceEnd ≤ edit.sourceStart ∨ edit.sourceEnd > sqlLength then none
    else if edit.sourceStart + delta < 0 ∨ edit.sourceStart + delta > int32Max then none
    else if edit.replacement = none ∨ edit.replacementLength < 2 ∨ edit.replacementLength > int32Max then none
    else if !allRawPlain ∧ (!plainAsciiString (cString (edit.replacement.getD [])) ∨
        (cString (edit.replacement.getD [])).length ≠ edit.replacementLength) then none
    else
      let delta := delta + rebaseEditDelta edit
      if sqlLength + delta < 0 ∨ sqlLength + delta > int32Max then none
      else certifyEditsFrom sqlLength allRawPlain edit.sourceEnd delta edits

/-- `sqlparser_patch_certify_insert_edits` -/
def certifyInsertEdits (handle : InsertHandle) (edits : List SourceEdit) (stringCount : Nat) (allRawPlain : Bool)
    (rawLength : Nat) : Bool :=
  if handle.failed ∨ handle.hasControl ∨ handle.patchBatchFlags ≠ 0 ∨ handle.surfaceEditCount ≠ 0 ∨
      handle.hasSurfaceEdits ∨ handle.identifierMutationCount ≠ 0 ∨ handle.hasIdentifierMutations ∨
      handle.identifierMutationCapacity ≠ 0 ∨ handle.identifierSpellingCount ≠ 0 ∨ handle.hasIdentifierSpellings ∨
      handle.identifierSpellingCapacity ≠ 0 ∨ handle.identifierSpellingStatus ≠ .ok ∨ edits = [] ∨
      !handle.stateIsPlainInsertStrings stringCount then false
  else
    match certifyEditsFrom handle.sqlLength allRawPlain 0 0 edits with
    | none => false
    | some delta => rawLength = 0 || ((rawLength : Int) + delta > 0 && (rawLength : Int) + delta ≤ int32Max)

/-! ## What the check certifies -/

/-- The total delta of the edits before an index. -/
def deltaBefore (edits : List SourceEdit) (index : Nat) : Int :=
  ((edits.take index).map rebaseEditDelta).sum

structure CertifiedInsertEdits (edits : List SourceEdit) (sqlLength : Nat) : Prop where
  ordered : Ordered 0 (edits.map SourceEdit.spliceEdit)
  proper : ∀ edit ∈ edits, edit.sourceStart < edit.sourceEnd
  within : ∀ edit ∈ edits, edit.sourceEnd ≤ sqlLength
  given : ∀ edit ∈ edits, ∃ text, edit.replacement = some text ∧ 2 ≤ text.length
  starts : ∀ index edit, edits[index]? = some edit → 0 ≤ edit.sourceStart + deltaBefore edits index
  lengths : ∀ index, 0 < index → index ≤ edits.length →
    0 ≤ sqlLength + deltaBefore edits index ∧ sqlLength + deltaBefore edits index ≤ int32Max

theorem deltaBefore_zero (edits : List SourceEdit) : deltaBefore edits 0 = 0 := rfl

theorem deltaBefore_cons (edit : SourceEdit) (edits : List SourceEdit) (index : Nat) :
    deltaBefore (edit :: edits) (index + 1) = rebaseEditDelta edit + deltaBefore edits index := by
  simp only [deltaBefore, List.take_succ_cons, List.map_cons, List.sum_cons]

theorem deltaBefore_succ {edits : List SourceEdit} {index : Nat} {edit : SourceEdit} (found : edits[index]? = some edit) :
    deltaBefore edits (index + 1) = deltaBefore edits index + rebaseEditDelta edit := by
  obtain ⟨bound, rfl⟩ := List.getElem?_eq_some_iff.mp found
  rw [deltaBefore, deltaBefore, List.take_succ_eq_append_getElem bound, List.map_append, List.sum_append, List.map_singleton,
    List.sum_singleton]

theorem certifyEditsFrom_certified {sqlLength sourceEnd : Nat} {allRawPlain : Bool} {delta final : Int}
    {edits : List SourceEdit} (accepted : certifyEditsFrom sqlLength allRawPlain sourceEnd delta edits = some final) :
    Ordered sourceEnd (edits.map SourceEdit.spliceEdit) ∧
      (∀ edit ∈ edits, edit.sourceStart < edit.sourceEnd ∧ edit.sourceEnd ≤ sqlLength ∧
        (∃ text, edit.replacement = some text ∧ 2 ≤ text.length) ∧
        (allRawPlain = false → plainAsciiString (edit.replacement.getD []) = true)) ∧
      (∀ index edit, edits[index]? = some edit → 0 ≤ edit.sourceStart + (delta + deltaBefore edits index)) ∧
      (∀ index, 0 < index → index ≤ edits.length →
        0 ≤ sqlLength + (delta + deltaBefore edits index) ∧
          sqlLength + (delta + deltaBefore edits index) ≤ int32Max) ∧
      final = delta + deltaBefore edits edits.length := by
  induction edits generalizing sourceEnd delta with
  | nil =>
    cases accepted
    refine ⟨trivial, by simp, by simp, ?_, by simp [deltaBefore]⟩
    intro index positive bound
    simp only [List.length_nil] at bound
    omega
  | cons edit edits inductionHypothesis =>
    simp only [certifyEditsFrom] at accepted
    split_ifs at accepted with order start replacement plain length
    simp only [not_or, not_lt, not_le, gt_iff_lt] at order start replacement length
    obtain ⟨ordered, each, starts, lengths, total⟩ := inductionHypothesis accepted
    obtain ⟨text, given⟩ := Option.ne_none_iff_exists'.mp replacement.1
    have textLength : edit.replacementLength = text.length := by rw [SourceEdit.replacementLength, given]; rfl
    refine ⟨⟨order.1, order.2.1.le, ordered⟩, ?_, ?_, ?_, ?_⟩
    · intro other member
      cases member with
      | head =>
        refine ⟨order.2.1, order.2.2, ⟨text, given, by omega⟩, fun raw => ?_⟩
        simp only [raw, Bool.not_false, true_and, not_or, not_not, Bool.not_eq_true', Bool.not_eq_false] at plain
        have whole : cString text = text := by
          have prefixed : cString text <+: text := List.takeWhile_prefix _
          rw [given, textLength] at plain
          exact prefixed.eq_of_length plain.2
        rw [given, Option.getD_some] at plain ⊢
        rw [whole] at plain
        exact plain.1
      | tail _ member => exact each other member
    · intro index other found
      cases index with
      | zero =>
        cases found
        rw [deltaBefore_zero]
        omega
      | succ index =>
        have := starts index other found
        rw [deltaBefore_cons]
        omega
    · intro index positive bound
      cases index with
      | zero => omega
      | succ index =>
        rw [deltaBefore_cons]
        by_cases first : index = 0
        · rw [first, deltaBefore_zero]
          omega
        · have := lengths index (by omega) (by simpa using bound)
          omega
    · rw [total, List.length_cons, deltaBefore_cons]
      omega

theorem certifyInsertEdits_certified {handle : InsertHandle} {edits : List SourceEdit} {stringCount rawLength : Nat}
    {allRawPlain : Bool} (accepted : certifyInsertEdits handle edits stringCount allRawPlain rawLength = true) :
    CertifiedInsertEdits edits handle.sqlLength := by
  simp only [certifyInsertEdits] at accepted
  split_ifs at accepted
  split at accepted
  next => cases accepted
  next final loop =>
    obtain ⟨ordered, each, starts, lengths, -⟩ := certifyEditsFrom_certified loop
    simp only [zero_add] at starts lengths
    exact ⟨ordered, fun edit member => (each edit member).1, fun edit member => (each edit member).2.1,
      fun edit member => (each edit member).2.2.1, starts, lengths⟩

/-- A check that accepts sees at least one edit, and looks at each replacement unless it is promised to be plain. -/
theorem certifyInsertEdits_plain {handle : InsertHandle} {edits : List SourceEdit} {stringCount rawLength : Nat}
    {allRawPlain : Bool} (accepted : certifyInsertEdits handle edits stringCount allRawPlain rawLength = true) :
    edits ≠ [] ∧ (allRawPlain = false → ∀ edit ∈ edits, plainAsciiString (edit.replacement.getD []) = true) := by
  simp only [certifyInsertEdits] at accepted
  split_ifs at accepted with refused
  simp only [not_or] at refused
  split at accepted
  next => cases accepted
  next final loop =>
    obtain ⟨_, each, _⟩ := certifyEditsFrom_certified loop
    exact ⟨refused.2.2.2.2.2.2.2.2.2.2.2.2.1, fun raw edit member => (each edit member).2.2.2 raw⟩

theorem plainAsciiString_content {text : Text} (plain : plainAsciiString text = true) :
    ∃ content, text = 39 :: content ++ [39] ∧ ∀ byte ∈ content, isPlainStringByte byte = true := by
  cases text with
  | nil => cases plain
  | cons quote rest =>
    simp only [plainAsciiString, Bool.and_eq_true, decide_eq_true_eq] at plain
    obtain ⟨⟨rfl, last⟩, all⟩ := plain
    refine ⟨rest.dropLast, ?_, List.all_eq_true.mp all⟩
    rw [List.cons_append, List.dropLast_append_getLast? 39 last]

/-! ## The edits before a location -/

/-- `sqlparser_patch_edit_before` -/
def editBefore (edits : List SourceEdit) (location : Nat) : Nat :=
  lowerBound (fun index => (edits[index]?).any fun edit => edit.sourceEnd ≤ location) 0 edits.length

/-- How many edits end at or before a location. -/
def endedEdits (edits : List SourceEdit) (location : Nat) : Nat :=
  (edits.takeWhile fun edit => edit.sourceEnd ≤ location).length

section Ordered

variable {edits : List SourceEdit}

/-- The edits end one after the other. -/
theorem ordered_ends {cursor : Nat} (ordered : Ordered cursor (edits.map SourceEdit.spliceEdit)) :
    edits.Pairwise fun left right => left.sourceEnd ≤ right.sourceStart ∧ left.sourceEnd ≤ right.sourceEnd := by
  induction edits generalizing cursor with
  | nil => exact .nil
  | cons edit edits inductionHypothesis =>
    apply List.pairwise_cons.mpr ⟨_, inductionHypothesis ordered.2.2⟩
    intro other member
    have mapped := List.mem_map_of_mem (f := SourceEdit.spliceEdit) member
    exact ⟨ordered.2.2.le_start mapped, (ordered.2.2.le_start mapped).trans (ordered.2.2.le_stop mapped)⟩

theorem endedEdits_le (edits : List SourceEdit) (location : Nat) : endedEdits edits location ≤ edits.length :=
  (List.takeWhile_prefix _).length_le

theorem endedEdits_front (location : Nat) {index : Nat} {edit : SourceEdit} (found : edits[index]? = some edit)
    (before : index < endedEdits edits location) : edit.sourceEnd ≤ location := by
  have member : edit ∈ edits.takeWhile fun edit => edit.sourceEnd ≤ location := by
    obtain ⟨rest, split⟩ : (edits.takeWhile fun edit => edit.sourceEnd ≤ location) <+: edits := List.takeWhile_prefix _
    rw [← split, List.getElem?_append_left before] at found
    exact List.mem_of_getElem? found
  simpa using List.mem_takeWhile_imp member

theorem endedEdits_back {cursor location index : Nat} (ordered : Ordered cursor (edits.map SourceEdit.spliceEdit))
    {edit : SourceEdit} (found : edits[index]? = some edit) (behind : endedEdits edits location ≤ index) :
    location < edit.sourceEnd := by
  induction edits generalizing index cursor with
  | nil => cases found
  | cons head edits inductionHypothesis =>
    rw [endedEdits, List.takeWhile_cons] at behind
    split at behind
    next ended =>
      cases index with
      | zero => simp at behind
      | succ index => exact inductionHypothesis ordered.2.2 found (by simpa [endedEdits] using behind)
    next later =>
      have later : location < head.sourceEnd := by simpa using later
      cases index with
      | zero =>
        cases found
        exact later
      | succ index =>
        have ends := (List.pairwise_cons.mp (ordered_ends ordered)).1 edit (List.mem_of_getElem? found)
        omega

/-- The binary search counts the edits that end at or before the location. -/
theorem editBefore_eq {cursor : Nat} (ordered : Ordered cursor (edits.map SourceEdit.spliceEdit)) (location : Nat) :
    editBefore edits location = endedEdits edits location := by
  apply lowerBound_eq (Nat.zero_le _) (endedEdits_le edits location)
  · intro index before
    have bound := before.trans_le (endedEdits_le edits location)
    have found := List.getElem?_eq_getElem bound
    rw [found]
    simpa using endedEdits_front _ found before
  · intro index behind
    cases found : edits[index]? with
    | none => rfl
    | some edit => simpa using endedEdits_back ordered found behind

/-- A location of the text stays in the range of its type. -/
theorem moved_range {sqlLength location : Nat} (certified : CertifiedInsertEdits edits sqlLength)
    (short : sqlLength ≤ int32Max) (bound : location ≤ sqlLength) :
    0 ≤ (location : Int) + deltaBefore edits (endedEdits edits location) ∧
      (location : Int) + deltaBefore edits (endedEdits edits location) ≤ int32Max := by
  have indexBound := endedEdits_le edits location
  cases counted : endedEdits edits location with
  | zero =>
    rw [deltaBefore_zero]
    omega
  | succ index =>
    rw [counted] at indexBound
    have lengths := certified.lengths (index + 1) (Nat.succ_pos _) indexBound
    have found := List.getElem?_eq_getElem (show index < edits.length by omega)
    have ended := endedEdits_front location found (by omega)
    have starts := certified.starts index _ found
    rw [deltaBefore_succ found, rebaseEditDelta] at lengths ⊢
    have proper := certified.proper _ (List.mem_of_getElem? found)
    omega

end Ordered

end SqlParser.Core
