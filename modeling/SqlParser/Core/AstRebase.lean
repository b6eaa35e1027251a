import SqlParser.Core.SourceEdits
import SqlParser.Library.Splice

/-! # Rebasing AST locations after source edits

`sqlparser_ast_rebase.c` moves the source locations of an owned AST across a
list of edits.  A mutable prefix cursor walks the edits in both directions, so
that the usual source-order walk is linear.  The result is the position map of
the simultaneous splice, whatever the order of the queries.
-/

namespace SqlParser.Core

open SqlParser.Library.Splice

/-! ## The certified edit list -/

/-- The loop of `sqlparser_ast_rebase_edits_valid`: the final cursors, if no edit is refused. -/
def editsValidFrom (oldLength newLength : Nat) : Nat → Nat → List SourceEdit → Option (Nat × Nat)
  | oldCursor, newCursor, [] => some (oldCursor, newCursor)
  | oldCursor, newCursor, edit :: edits =>
    if edit.sourceStart < oldCursor ∨ edit.sourceStart ≥ edit.sourceEnd ∨
        edit.sourceEnd > oldLength ∨ edit.replacement = none ∨ edit.replacementLength = 0 then none
    else if edit.sourceStart - oldCursor > newLength - newCursor then none
    else
      let newCursor := newCursor + (edit.sourceStart - oldCursor)
      if edit.replacementLength > newLength - newCursor then none
      else editsValidFrom oldLength newLength edit.sourceEnd (newCursor + edit.replacementLength) edits

def astRebaseEditsValid (edits : Option SourceEdits) (oldLength newLength : Nat) : Bool :=
  match edits with
  | none => false
  | some edits =>
    if edits.items.length = 0 ∨ edits.items.length > sizeMax / sizeofSourceEdit ∨
        oldLength > int32Max ∨ newLength > int32Max then false
    else
      match editsValidFrom oldLength newLength 0 0 edits.items with
      | none => false
      | some (oldCursor, newCursor) => oldLength - oldCursor == newLength - newCursor

/-! ## The prefix cursor -/

/-- The part of `sqlparser_rebase_context_t` that the coordinate map uses. -/
structure RebaseContext where
  edits : List SourceEdit
  oldLength : Nat
  newLength : Nat
  prefixCount : Nat
  prefixDelta : Int

def rebaseEditDelta (edit : SourceEdit) : Int :=
  (edit.replacementLength : Int) - ((edit.sourceEnd - edit.sourceStart : Nat) : Int)

/-- The first loop of `sqlparser_rebase_point`, which moves the cursor backwards. -/
def rebaseRetreat (edits : List SourceEdit) (point : Nat) : Nat → Int → Nat × Int
  | 0, prefixDelta => (0, prefixDelta)
  | count + 1, prefixDelta =>
    match edits[count]? with
    | some edit =>
      if edit.sourceEnd > point then
        rebaseRetreat edits point count (prefixDelta - rebaseEditDelta edit)
      else (count + 1, prefixDelta)
    | none => (count + 1, prefixDelta)

/-- The second loop, over the edits that follow the cursor. -/
def rebaseAdvance (point : Nat) : List SourceEdit → Nat → Int → Nat × Int
  | [], prefixCount, prefixDelta => (prefixCount, prefixDelta)
  | edit :: edits, prefixCount, prefixDelta =>
    if edit.sourceEnd ≤ point then
      rebaseAdvance point edits (prefixCount + 1) (prefixDelta + rebaseEditDelta edit)
    else (prefixCount, prefixDelta)

/-- `sqlparser_rebase_point`: the context after the query, and `*mapped` if it accepts. -/
def rebasePoint (context : RebaseContext) (point : Nat) : RebaseContext × Option Int :=
  if point > context.oldLength then (context, none)
  else
    let (count, delta) := rebaseRetreat context.edits point context.prefixCount context.prefixDelta
    let (count, delta) := rebaseAdvance point (context.edits.drop count) count delta
    let context := { context with prefixCount := count, prefixDelta := delta }
    match context.edits[count]? with
    | some edit =>
      if edit.sourceStart < point then (context, none) else rebaseResult context point
    | none => rebaseResult context point
where
  /-- The range check on the sum, which is computed in `int64_t`. -/
  rebaseResult (context : RebaseContext) (point : Nat) : RebaseContext × Option Int :=
    let result := (point : Int) + context.prefixDelta
    if result < 0 ∨ result > int32Max ∨ result > context.newLength then (context, none)
    else (context, some result)

/-- The answers to a sequence of queries through one context. -/
def rebasePoints (context : RebaseContext) : List Nat → List (Option Int)
  | [] => []
  | point :: points =>
    (rebasePoint context point).2 :: rebasePoints (rebasePoint context point).1 points

/-! ## The edits as a splice -/

def SourceEdit.spliceEdit (edit : SourceEdit) : Edit UInt8 :=
  ⟨edit.sourceStart, edit.sourceEnd, edit.replacement.getD []⟩

@[simp] theorem spliceEdit_start (edit : SourceEdit) : edit.spliceEdit.start = edit.sourceStart := rfl

@[simp] theorem spliceEdit_stop (edit : SourceEdit) : edit.spliceEdit.stop = edit.sourceEnd := rfl

/-- The old text with every edit interval replaced. -/
def splicedText (text : Text) (edits : List SourceEdit) : Text :=
  splice text 0 (edits.map SourceEdit.spliceEdit)

/-- What the validity check certifies. -/
structure CertifiedEdits (edits : List SourceEdit) (oldLength newLength : Nat) : Prop where
  ordered : Ordered 0 (edits.map SourceEdit.spliceEdit)
  proper : ∀ edit ∈ edits, edit.sourceStart < edit.sourceEnd
  within : ∀ edit ∈ edits, edit.sourceEnd ≤ oldLength
  nonempty : ∀ edit ∈ edits, edit.replacement.getD [] ≠ []
  lengths : (newLength : Int) = oldLength + (edits.map rebaseEditDelta).sum
  bound : newLength ≤ int32Max

theorem rebaseEditDelta_eq {edit : SourceEdit} (proper : edit.sourceStart ≤ edit.sourceEnd) :
    rebaseEditDelta edit = edit.spliceEdit.delta := by
  simp only [rebaseEditDelta, Edit.delta, SourceEdit.spliceEdit, SourceEdit.replacementLength]
  omega

theorem rebaseEditDelta_map {edits : List SourceEdit}
    (proper : ∀ edit ∈ edits, edit.sourceStart < edit.sourceEnd) :
    edits.map rebaseEditDelta = (edits.map SourceEdit.spliceEdit).map Edit.delta := by
  rw [List.map_map]
  exact List.map_congr_left fun edit member => rebaseEditDelta_eq (proper edit member).le

theorem CertifiedEdits.splicedText_length {edits : List SourceEdit} {oldLength newLength : Nat}
    (certified : CertifiedEdits edits oldLength newLength) {text : Text}
    (length : text.length = oldLength) : (splicedText text edits).length = newLength := by
  have spliced := splice_length text certified.ordered (Nat.zero_le _)
    (by simpa [length] using certified.within)
  have lengths := certified.lengths
  rw [rebaseEditDelta_map certified.proper] at lengths
  rw [splicedText]
  omega

theorem editsValidFrom_certified {oldLength newLength oldCursor newCursor : Nat}
    {edits : List SourceEdit} {final : Nat × Nat} (newBound : newCursor ≤ newLength)
    (accepted : editsValidFrom oldLength newLength oldCursor newCursor edits = some final) :
    Ordered oldCursor (edits.map SourceEdit.spliceEdit) ∧
      (∀ edit ∈ edits, edit.sourceStart < edit.sourceEnd ∧ edit.sourceEnd ≤ oldLength ∧
        edit.replacement.getD [] ≠ []) ∧
      final.2 ≤ newLength ∧ (oldCursor ≤ oldLength → final.1 ≤ oldLength) ∧
      (final.2 : Int) - final.1 = newCursor - oldCursor + (edits.map rebaseEditDelta).sum := by
  induction edits generalizing oldCursor newCursor with
  | nil =>
    cases accepted
    exact ⟨trivial, by simp, newBound, id, by simp⟩
  | cons edit edits inductionHypothesis =>
    simp only [editsValidFrom] at accepted
    split_ifs at accepted with refused gapTooLong replacementTooLong
    simp only [not_or, not_lt, ge_iff_le, not_le, gt_iff_lt] at refused gapTooLong replacementTooLong
    obtain ⟨afterCursor, proper, within, -, nonempty⟩ := refused
    obtain ⟨ordered, rest, finalNew, finalOld, lengths⟩ := inductionHypothesis (by omega) accepted
    refine ⟨⟨afterCursor, proper.le, ordered⟩, ?_, finalNew, fun _ => finalOld within, ?_⟩
    · intro other member
      cases member with
      | head => exact ⟨proper, within, fun empty => nonempty (by simp [SourceEdit.replacementLength, empty])⟩
      | tail _ member => exact rest other member
    · rw [List.map_cons, List.sum_cons, lengths, rebaseEditDelta]
      push_cast
      omega

theorem editsValid_certified {edits : SourceEdits} {oldLength newLength : Nat}
    (valid : astRebaseEditsValid (some edits) oldLength newLength = true) :
    CertifiedEdits edits.items oldLength newLength := by
  simp only [astRebaseEditsValid] at valid
  split_ifs at valid with refused
  split at valid
  next => cases valid
  next oldCursor newCursor accepted =>
    simp only [not_or, not_lt] at refused
    obtain ⟨ordered, each, finalNew, finalOld, lengths⟩ := editsValidFrom_certified (Nat.zero_le _) accepted
    have finalOld := finalOld (Nat.zero_le _)
    rw [beq_iff_eq] at valid
    refine ⟨ordered, fun edit member => (each edit member).1, fun edit member => (each edit member).2.1,
      fun edit member => (each edit member).2.2, ?_, refused.2.2.2⟩
    simp only at finalNew finalOld lengths
    omega

/-! ## The cursor invariant -/

/-- The cursor counts a prefix of the edits and carries its total delta. -/
structure RebaseContext.Cursor (context : RebaseContext) : Prop where
  count : context.prefixCount ≤ context.edits.length
  delta : context.prefixDelta = ((context.edits.take context.prefixCount).map rebaseEditDelta).sum

theorem rebaseRetreat_spec {edits : List SourceEdit} (point : Nat) {count : Nat} {delta : Int}
    (bound : count ≤ edits.length) (total : delta = ((edits.take count).map rebaseEditDelta).sum) :
    ∃ left right, edits = left ++ right ∧
      rebaseRetreat edits point count delta = (left.length, (left.map rebaseEditDelta).sum) ∧
      ∀ last ∈ left.getLast?, last.sourceEnd ≤ point := by
  induction count generalizing delta with
  | zero => exact ⟨[], edits, rfl, by simpa [rebaseRetreat] using total, by simp⟩
  | succ count inductionHypothesis =>
    have present : edits[count]? = some edits[count] := List.getElem?_eq_getElem bound
    have prefixStep : edits.take (count + 1) = edits.take count ++ [edits[count]] :=
      List.take_succ_eq_append_getElem bound
    simp only [rebaseRetreat, present]
    split
    next later =>
      apply inductionHypothesis (by omega)
      rw [total, prefixStep, List.map_append, List.sum_append]
      simp
    next ended =>
      refine ⟨edits.take (count + 1), edits.drop (count + 1), (List.take_append_drop _ _).symm, ?_, ?_⟩
      · rw [List.length_take, min_eq_left bound, total]
      · intro last isLast
        rw [prefixStep, List.getLast?_concat] at isLast
        cases isLast
        exact not_lt.mp ended

theorem rebaseAdvance_spec (point : Nat) (edits : List SourceEdit) (count : Nat) (delta : Int) :
    ∃ passed rest, edits = passed ++ rest ∧
      rebaseAdvance point edits count delta =
        (count + passed.length, delta + (passed.map rebaseEditDelta).sum) ∧
      (∀ edit ∈ passed, edit.sourceEnd ≤ point) ∧ ∀ next ∈ rest.head?, point < next.sourceEnd := by
  induction edits generalizing count delta with
  | nil => exact ⟨[], [], rfl, by simp [rebaseAdvance], by simp, by simp⟩
  | cons edit edits inductionHypothesis =>
    rw [rebaseAdvance]
    split
    next ended =>
      obtain ⟨passed, rest, equal, result, passedEnded, restLater⟩ :=
        inductionHypothesis (count + 1) (delta + rebaseEditDelta edit)
      refine ⟨edit :: passed, rest, by rw [equal, List.cons_append], ?_, ?_, restLater⟩
      · rw [result, List.length_cons, List.map_cons, List.sum_cons]
        exact Prod.ext (by simp only; omega) (by simp only; omega)
      · simpa using ⟨ended, passedEnded⟩
    next later => exact ⟨[], edit :: edits, rfl, by simp, by simp, by simpa using later⟩

section Query

variable {edits : List SourceEdit} {oldLength newLength : Nat}

/-- The edits end one after the other. -/
theorem CertifiedEdits.ends (certified : CertifiedEdits edits oldLength newLength) :
    edits.Pairwise (fun left right => left.sourceEnd ≤ right.sourceStart) := by
  have ordered := certified.ordered
  clear certified
  generalize 0 = cursor at ordered
  induction edits generalizing cursor with
  | nil => exact .nil
  | cons edit edits inductionHypothesis =>
    refine List.pairwise_cons.mpr ⟨fun other member => ?_, inductionHypothesis _ ordered.2.2⟩
    exact ordered.2.2.le_start (List.mem_map_of_mem member)

theorem CertifiedEdits.left_ended (certified : CertifiedEdits edits oldLength newLength)
    {left right : List SourceEdit} {point : Nat} (equal : edits = left ++ right)
    (lastEnded : ∀ last ∈ left.getLast?, last.sourceEnd ≤ point) :
    ∀ edit ∈ left, edit.sourceEnd ≤ point := by
  intro edit member
  obtain rfl | ⟨front, last, rfl⟩ := List.eq_nil_or_concat left
  · cases member
  · have lastBound := lastEnded last (by simp)
    have ends := certified.ends
    have proper := certified.proper last (by simp [equal])
    rw [equal, List.concat_eq_append, List.append_assoc, List.pairwise_append] at ends
    rw [List.concat_eq_append, List.mem_append, List.mem_singleton] at member
    cases member with
    | inl member =>
      have := ends.2.2 edit member last (by simp)
      omega
    | inr isLast => exact isLast ▸ lastBound

theorem CertifiedEdits.right_later (certified : CertifiedEdits edits oldLength newLength)
    {left right : List SourceEdit} {point : Nat} (equal : edits = left ++ right)
    (nextLater : ∀ next ∈ right.head?, point < next.sourceEnd) :
    ∀ edit ∈ right, point < edit.sourceEnd ∧
      (edit.sourceStart < point → right.head? = some edit) := by
  intro edit member
  cases right with
  | nil => cases member
  | cons next rest =>
    have nextBound := nextLater next (by simp)
    cases member with
    | head => exact ⟨nextBound, fun _ => rfl⟩
    | tail _ member =>
      have ends := certified.ends
      have proper := certified.proper edit
        (equal ▸ List.mem_append_right _ (List.mem_cons_of_mem _ member))
      rw [equal, List.pairwise_append, List.pairwise_cons] at ends
      have := ends.2.1.1 edit member
      exact ⟨by omega, fun early => by omega⟩

/-- The cursor of a query stands between the edits that end at or before the point and the rest. -/
theorem cursor_split (certified : CertifiedEdits edits oldLength newLength) {left right : List SourceEdit}
    {point : Nat} (equal : edits = left ++ right)
    (leftEnded : ∀ edit ∈ left, edit.sourceEnd ≤ point)
    (nextLater : ∀ next ∈ right.head?, point < next.sourceEnd) :
    shift (edits.map SourceEdit.spliceEdit) point = (left.map rebaseEditDelta).sum ∧
      (Inside (edits.map SourceEdit.spliceEdit) point ↔
        ∃ next ∈ right.head?, next.sourceStart < point) := by
  have rightLater := certified.right_later equal nextLater
  constructor
  · have leftProper : ∀ edit ∈ left, edit.sourceStart < edit.sourceEnd := fun edit member =>
      certified.proper edit (equal ▸ List.mem_append_left _ member)
    rw [equal, List.map_append, shift_append, shift_eq_sum (by simpa using leftEnded),
      shift_eq_zero (by simpa using fun edit member => (rightLater edit member).1), add_zero,
      rebaseEditDelta_map leftProper]
  · constructor
    · rintro ⟨_, mapped, start, stop⟩
      obtain ⟨edit, member, rfl⟩ := List.mem_map.mp mapped
      rw [equal, List.mem_append] at member
      cases member with
      | inl member =>
        exact absurd stop (not_lt.mpr (leftEnded edit member))
      | inr member => exact ⟨edit, (rightLater edit member).2 start, start⟩
    · rintro ⟨next, isNext, start⟩
      refine ⟨next.spliceEdit, List.mem_map_of_mem ?_, start, nextLater next isNext⟩
      rw [equal]
      exact List.mem_append_right _ (List.mem_of_mem_head? isNext)

end Query

/-! ## One query and a sequence of queries -/

/-- The position map of the splice: no image inside an edit or behind the text. -/
def rebasedPoint (edits : List SourceEdit) (oldLength point : Nat) : Option Int :=
  if point ≤ oldLength ∧ ∀ edit ∈ edits, ¬ (edit.sourceStart < point ∧ point < edit.sourceEnd) then
    some (point + ((edits.filter (fun edit => edit.sourceEnd ≤ point)).map rebaseEditDelta).sum)
  else none

theorem rebaseEditDelta_sum {edits : List SourceEdit}
    (proper : ∀ edit ∈ edits, edit.sourceStart < edit.sourceEnd) (point : Nat) :
    ((edits.filter (fun edit => edit.sourceEnd ≤ point)).map rebaseEditDelta).sum =
      shift (edits.map SourceEdit.spliceEdit) point := by
  induction edits with
  | nil => rfl
  | cons edit edits inductionHypothesis =>
    have rest := inductionHypothesis (fun other member => proper other (List.mem_cons_of_mem _ member))
    have delta := rebaseEditDelta_eq (proper edit List.mem_cons_self).le
    rw [List.map_cons, shift_cons, ← rest, List.filter_cons]
    split
    next ended =>
      rw [if_pos (by simpa using ended), List.map_cons, List.sum_cons, delta]
    next later => rw [if_neg (by simpa using later), zero_add]

theorem not_inside_iff {edits : List SourceEdit} {point : Nat} :
    (∀ edit ∈ edits, ¬ (edit.sourceStart < point ∧ point < edit.sourceEnd)) ↔
      ¬ Inside (edits.map SourceEdit.spliceEdit) point := by
  constructor
  · rintro outside ⟨_, mapped, inside⟩
    obtain ⟨edit, member, rfl⟩ := List.mem_map.mp mapped
    exact outside edit member inside
  · intro outside edit member inside
    exact outside ⟨edit.spliceEdit, List.mem_map_of_mem member, inside⟩

theorem rebasedPoint_eq_none {edits : List SourceEdit} {oldLength point : Nat}
    (refused : oldLength < point ∨ Inside (edits.map SourceEdit.spliceEdit) point) :
    rebasedPoint edits oldLength point = none := by
  apply if_neg
  rintro ⟨bound, outside⟩
  obtain beyond | inside := refused
  · exact absurd bound (not_le.mpr beyond)
  · exact not_inside_iff.mp outside inside

theorem rebasedPoint_eq_some {edits : List SourceEdit} {oldLength point : Nat}
    (proper : ∀ edit ∈ edits, edit.sourceStart < edit.sourceEnd) (bound : point ≤ oldLength)
    (outside : ¬ Inside (edits.map SourceEdit.spliceEdit) point) :
    rebasedPoint edits oldLength point =
      some (point + shift (edits.map SourceEdit.spliceEdit) point) := by
  rw [rebasedPoint, if_pos ⟨bound, not_inside_iff.mpr outside⟩, rebaseEditDelta_sum proper]

section Run

variable {context : RebaseContext}

theorem shifted_bounds (certified : CertifiedEdits context.edits context.oldLength context.newLength)
    {point : Nat} (bound : point ≤ context.oldLength)
    (outside : ¬ Inside (context.edits.map SourceEdit.spliceEdit) point) :
    0 ≤ point + shift (context.edits.map SourceEdit.spliceEdit) point ∧
      point + shift (context.edits.map SourceEdit.spliceEdit) point ≤ context.newLength := by
  let text : Text := List.replicate context.oldLength 0
  have textLength : text.length = context.oldLength := List.length_replicate
  have lower := cursor_le_shifted certified.ordered (Nat.zero_le point) outside
  have upper := shifted_le_length text certified.ordered
    (by simpa [textLength] using certified.within) (by rwa [textLength]) outside
  have length : (splice text 0 (context.edits.map SourceEdit.spliceEdit)).length = context.newLength :=
    certified.splicedText_length textLength
  omega

theorem rebaseResult_spec (certified : CertifiedEdits context.edits context.oldLength context.newLength)
    {point : Nat} (bound : point ≤ context.oldLength)
    (outside : ¬ Inside (context.edits.map SourceEdit.spliceEdit) point)
    (delta : context.prefixDelta = shift (context.edits.map SourceEdit.spliceEdit) point) :
    rebasePoint.rebaseResult context point =
      (context, some (point + shift (context.edits.map SourceEdit.spliceEdit) point)) := by
  have bounds := shifted_bounds certified bound outside
  have limit := certified.bound
  simp only [rebasePoint.rebaseResult, delta]
  rw [if_neg (by omega)]

theorem rebasePoint_of_loops {point : Nat} (bound : point ≤ context.oldLength)
    {left passed rest : List SourceEdit} (equal : context.edits = left ++ (passed ++ rest))
    (retreat : rebaseRetreat context.edits point context.prefixCount context.prefixDelta =
      (left.length, (left.map rebaseEditDelta).sum))
    (advance : rebaseAdvance point (passed ++ rest) left.length (left.map rebaseEditDelta).sum =
      (left.length + passed.length,
        (left.map rebaseEditDelta).sum + (passed.map rebaseEditDelta).sum)) :
    rebasePoint context point =
      let final := { context with
        prefixCount := left.length + passed.length
        prefixDelta := (left.map rebaseEditDelta).sum + (passed.map rebaseEditDelta).sum }
      match rest.head? with
      | some edit =>
        if edit.sourceStart < point then (final, none) else rebasePoint.rebaseResult final point
      | none => rebasePoint.rebaseResult final point := by
  have dropped : context.edits.drop left.length = passed ++ rest := by rw [equal, List.drop_left]
  have next : context.edits[left.length + passed.length]? = rest.head? := by
    rw [equal, ← List.append_assoc, ← List.length_append, List.getElem?_append_right le_rfl,
      Nat.sub_self, List.head?_eq_getElem?]
  rw [rebasePoint, if_neg (not_lt.mpr bound), retreat]
  dsimp only
  rw [dropped, advance]
  dsimp only
  rw [next]

/-- One query answers the position map and keeps the cursor, whatever came before it. -/
theorem rebasePoint_spec (certified : CertifiedEdits context.edits context.oldLength context.newLength)
    (cursor : context.Cursor) (point : Nat) :
    (rebasePoint context point).2 = rebasedPoint context.edits context.oldLength point ∧
      ∃ count delta, (rebasePoint context point).1 =
          { context with prefixCount := count, prefixDelta := delta } ∧
        (rebasePoint context point).1.Cursor := by
  by_cases bound : point ≤ context.oldLength
  · obtain ⟨left, right, equal, retreat, lastEnded⟩ :=
      rebaseRetreat_spec point cursor.count cursor.delta
    obtain ⟨passed, rest, rfl, advance, passedEnded, nextLater⟩ :=
      rebaseAdvance_spec point right left.length (left.map rebaseEditDelta).sum
    have split : context.edits = (left ++ passed) ++ rest := by rw [equal, List.append_assoc]
    have ended : ∀ edit ∈ left ++ passed, edit.sourceEnd ≤ point := by
      intro edit member
      cases List.mem_append.mp member with
      | inl member => exact certified.left_ended equal lastEnded edit member
      | inr member => exact passedEnded edit member
    obtain ⟨delta, inside⟩ := cursor_split certified split ended nextLater
    rw [List.map_append, List.sum_append] at delta
    -- The context that every exit of the query leaves behind.
    let final : RebaseContext := { context with
      prefixCount := left.length + passed.length
      prefixDelta := (left.map rebaseEditDelta).sum + (passed.map rebaseEditDelta).sum }
    have finalCursor : final.Cursor := by
      refine ⟨?_, ?_⟩
      · simp only [final, split, List.length_append]
        omega
      · simp only [final, split, ← List.length_append, List.take_left, List.map_append, List.sum_append]
    have accepted (outside : ¬ Inside (context.edits.map SourceEdit.spliceEdit) point) :
        rebasePoint.rebaseResult final point =
          (final, rebasedPoint context.edits context.oldLength point) := by
      rw [rebasedPoint_eq_some certified.proper bound outside]
      exact @rebaseResult_spec final certified point bound outside delta.symm
    cases rest with
    | nil =>
      have outside := inside.not.mpr (by simp)
      have result : rebasePoint context point =
          (final, rebasedPoint context.edits context.oldLength point) := by
        rw [rebasePoint_of_loops bound equal retreat advance]
        exact accepted outside
      rw [result]
      exact ⟨rfl, _, _, rfl, finalCursor⟩
    | cons edit rest =>
      have result : rebasePoint context point =
          (final, rebasedPoint context.edits context.oldLength point) := by
        rw [rebasePoint_of_loops bound equal retreat advance]
        simp only [List.head?_cons]
        split
        next early => rw [rebasedPoint_eq_none (.inr (inside.mpr ⟨edit, rfl, early⟩))]
        next late => exact accepted (inside.not.mpr (by simpa using late))
      rw [result]
      exact ⟨rfl, _, _, rfl, finalCursor⟩
  · have result : rebasePoint context point = (context, none) := if_pos (not_le.mp bound)
    rw [result, rebasedPoint_eq_none (.inl (not_le.mp bound))]
    exact ⟨rfl, _, _, rfl, cursor⟩

end Run

theorem rebasePoints_eq_map {context : RebaseContext}
    (certified : CertifiedEdits context.edits context.oldLength context.newLength)
    (cursor : context.Cursor) (points : List Nat) :
    rebasePoints context points = points.map (rebasedPoint context.edits context.oldLength) := by
  induction points generalizing context with
  | nil => rfl
  | cons point points inductionHypothesis =>
    obtain ⟨answer, count, delta, after, afterCursor⟩ := rebasePoint_spec certified cursor point
    rw [after] at afterCursor
    rw [rebasePoints, List.map_cons, answer, after]
    congr 1
    exact @inductionHypothesis { context with prefixCount := count, prefixDelta := delta }
      certified afterCursor

/-! ## Agreement with splicing -/

/-- `sqlparser_rebase_context_t` as `sqlparser_ast_rebase_plan_build` starts it. -/
def rebaseContext (edits : SourceEdits) (oldLength newLength : Nat) : RebaseContext :=
  ⟨edits.items, oldLength, newLength, 0, 0⟩

theorem rebasedPoint_eq_some_iff {edits : List SourceEdit} {oldLength point : Nat} {value : Int}
    (proper : ∀ edit ∈ edits, edit.sourceStart < edit.sourceEnd) :
    rebasedPoint edits oldLength point = some value ↔
      point ≤ oldLength ∧ ¬ Inside (edits.map SourceEdit.spliceEdit) point ∧
        value = point + shift (edits.map SourceEdit.spliceEdit) point := by
  by_cases bound : point ≤ oldLength
  · by_cases inside : Inside (edits.map SourceEdit.spliceEdit) point
    · simp [rebasedPoint_eq_none (.inr inside), inside]
    · simp [rebasedPoint_eq_some proper bound inside, bound, inside, eq_comm]
  · simp [rebasedPoint_eq_none (.inl (not_le.mp bound)), bound]

/-- Every query order gives the same answers: a point is accepted exactly when it
lies in the text and not inside an edit, its image is shifted by the edits that
end at or before it, stays within the new text, is strictly monotone, and finds
the same byte in the spliced text. -/
theorem rebase_agrees_with_splice (edits : SourceEdits) (oldLength newLength : Nat)
    (valid : astRebaseEditsValid (some edits) oldLength newLength = true) :
    ∃ image : Nat → Option Int,
      (∀ points, rebasePoints (rebaseContext edits oldLength newLength) points = points.map image) ∧
      (∀ point, (image point).isSome ↔ point ≤ oldLength ∧
        ∀ edit ∈ edits.items, ¬ (edit.sourceStart < point ∧ point < edit.sourceEnd)) ∧
      (∀ point value, image point = some value →
        value = point + ((edits.items.filter (fun edit => edit.sourceEnd ≤ point)).map
          (fun edit => (edit.replacementLength : Int) - (edit.sourceEnd - edit.sourceStart))).sum ∧
        0 ≤ value ∧ value ≤ newLength) ∧
      (∀ left right leftValue rightValue, left < right → image left = some leftValue →
        image right = some rightValue → leftValue < rightValue) ∧
      (∀ text : Text, text.length = oldLength →
        (splicedText text edits.items).length = newLength ∧
        ∀ point value, image point = some value → point < oldLength →
          (∀ edit ∈ edits.items, edit.sourceStart ≠ point) →
          (splicedText text edits.items)[value.toNat]? = text[point]?) := by
  have certified := editsValid_certified valid
  have imageEq (point : Nat) (value : Int) :=
    @rebasedPoint_eq_some_iff edits.items oldLength point value certified.proper
  refine ⟨rebasedPoint edits.items oldLength, ?_, ?_, ?_, ?_, ?_⟩
  · intro points
    exact @rebasePoints_eq_map (rebaseContext edits oldLength newLength) certified
      ⟨Nat.zero_le _, by simp [rebaseContext]⟩ points
  · intro point
    rw [not_inside_iff, Option.isSome_iff_exists]
    simp only [imageEq]
    exact ⟨fun ⟨_, bound, outside, _⟩ => ⟨bound, outside⟩,
      fun ⟨bound, outside⟩ => ⟨_, bound, outside, rfl⟩⟩
  · intro point value accepted
    obtain ⟨bound, outside, equal⟩ := (imageEq point value).mp accepted
    have bounds := @shifted_bounds (rebaseContext edits oldLength newLength) certified point bound outside
    refine ⟨?_, equal ▸ bounds⟩
    rw [equal, ← rebaseEditDelta_sum certified.proper]
    congr 2
    apply List.map_congr_left
    intro edit member
    have := certified.proper edit (List.mem_of_mem_filter member)
    rw [rebaseEditDelta]
    omega
  · intro left right leftValue rightValue less leftAccepted rightAccepted
    obtain ⟨-, leftOutside, rfl⟩ := (imageEq _ _).mp leftAccepted
    obtain ⟨-, rightOutside, rfl⟩ := (imageEq _ _).mp rightAccepted
    exact shifted_lt_shifted certified.ordered (by simpa [SourceEdit.spliceEdit] using certified.nonempty)
      less (Nat.zero_le _) leftOutside rightOutside
  · intro text length
    refine ⟨certified.splicedText_length length, ?_⟩
    intro point value accepted bound notStart
    obtain ⟨-, outside, rfl⟩ := (imageEq _ _).mp accepted
    apply splice_getElem?_shifted text certified.ordered (by rwa [length])
    intro _ mapped
    obtain ⟨edit, member, rfl⟩ := List.mem_map.mp mapped
    have separate := not_inside_iff.mpr outside edit member
    have different := notStart edit member
    simp only [spliceEdit_start, spliceEdit_stop]
    omega

/-- Two touching edits of the text `abcdef`, queried backwards and again. -/
theorem rebase_agrees_with_splice_touching :
    let edits : SourceEdits := ⟨[⟨1, 2, some [120, 121, 122]⟩, ⟨2, 5, some [119]⟩], 4, by decide, by decide⟩
    ∃ image : Nat → Option Int,
      rebasePoints (rebaseContext edits 6 6) [5, 2, 3, 5] = [5, 2, 3, 5].map image := by
  intro edits
  obtain ⟨image, answers, -⟩ := rebase_agrees_with_splice edits 6 6 (by decide)
  exact ⟨image, answers _⟩

end SqlParser.Core
