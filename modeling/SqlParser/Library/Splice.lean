import Mathlib

/-! # Simultaneous splicing of a list

A text is rewritten by an ordered list of edits, each of which replaces one
interval of the old text.  The module relates the three views of such a
rewrite: the spliced text itself, its length, and the map that carries a
position of the old text to the new text.
-/

namespace SqlParser.Library.Splice

variable {α : Type*}

/-- Replace the interval `[start, stop)` of the old text by `replacement`. -/
structure Edit (α : Type*) where
  start : Nat
  stop : Nat
  replacement : List α

namespace Edit

/-- What the edit adds to every later position. -/
def delta (edit : Edit α) : Int :=
  edit.replacement.length - (edit.stop - edit.start)

end Edit

/-- The edits stand in text order from `cursor` on and do not overlap. -/
def Ordered : Nat → List (Edit α) → Prop
  | _, [] => True
  | cursor, edit :: edits => cursor ≤ edit.start ∧ edit.start ≤ edit.stop ∧ Ordered edit.stop edits

/-- The rest of the spliced text once the old text is consumed up to `cursor`. -/
def splice (text : List α) : Nat → List (Edit α) → List α
  | cursor, [] => text.drop cursor
  | cursor, edit :: edits =>
    (text.take edit.start).drop cursor ++ edit.replacement ++ splice text edit.stop edits

/-- The total delta of the edits that end at or before `point`. -/
def shift (edits : List (Edit α)) (point : Nat) : Int :=
  ((edits.filter (fun edit => edit.stop ≤ point)).map Edit.delta).sum

/-- The point has no image: it lies properly inside a replaced interval. -/
def Inside (edits : List (Edit α)) (point : Nat) : Prop :=
  ∃ edit ∈ edits, edit.start < point ∧ point < edit.stop

/-! ## Order -/

theorem Ordered.weaken {lower cursor : Nat} {edits : List (Edit α)} (bound : lower ≤ cursor)
    (ordered : Ordered cursor edits) : Ordered lower edits := by
  cases edits with
  | nil => trivial
  | cons edit edits => exact ⟨bound.trans ordered.1, ordered.2⟩

theorem Ordered.le_start {cursor : Nat} {edits : List (Edit α)} (ordered : Ordered cursor edits)
    {edit : Edit α} (member : edit ∈ edits) : cursor ≤ edit.start := by
  induction edits generalizing cursor with
  | nil => cases member
  | cons head tail inductionHypothesis =>
    obtain ⟨first, second, rest⟩ := ordered
    cases member with
    | head => exact first
    | tail _ member => exact (first.trans second).trans (inductionHypothesis rest member)

theorem Ordered.le_stop {cursor : Nat} {edits : List (Edit α)} (ordered : Ordered cursor edits)
    {edit : Edit α} (member : edit ∈ edits) : edit.start ≤ edit.stop := by
  induction edits generalizing cursor with
  | nil => cases member
  | cons head tail inductionHypothesis =>
    cases member with
    | head => exact ordered.2.1
    | tail _ member => exact inductionHypothesis ordered.2.2 member

/-! ## The position map -/

@[simp] theorem shift_nil (point : Nat) : shift ([] : List (Edit α)) point = 0 := rfl

theorem shift_cons (edit : Edit α) (edits : List (Edit α)) (point : Nat) :
    shift (edit :: edits) point =
      (if edit.stop ≤ point then edit.delta else 0) + shift edits point := by
  simp only [shift, List.filter_cons]
  split <;> simp_all

theorem shift_append (left right : List (Edit α)) (point : Nat) :
    shift (left ++ right) point = shift left point + shift right point := by
  simp [shift]

theorem shift_eq_sum {edits : List (Edit α)} {point : Nat}
    (ended : ∀ edit ∈ edits, edit.stop ≤ point) :
    shift edits point = (edits.map Edit.delta).sum := by
  rw [shift, List.filter_eq_self.mpr (by simpa using ended)]

theorem shift_eq_zero {edits : List (Edit α)} {point : Nat}
    (later : ∀ edit ∈ edits, point < edit.stop) : shift edits point = 0 := by
  rw [shift, List.filter_eq_nil_iff.mpr]
  · rfl
  · intro edit member
    have := later edit member
    simpa using this

theorem not_inside_cons {edit : Edit α} {edits : List (Edit α)} {point : Nat}
    (outside : ¬ Inside (edit :: edits) point) :
    (point ≤ edit.start ∨ edit.stop ≤ point) ∧ ¬ Inside edits point := by
  constructor
  · by_contra inside
    simp only [not_or, not_le] at inside
    exact outside ⟨edit, List.mem_cons_self, inside⟩
  · rintro ⟨other, member, bounds⟩
    exact outside ⟨other, List.mem_cons_of_mem _ member, bounds⟩

/-- A point never moves before the start of the text that is still to be copied. -/
theorem cursor_le_shifted {cursor point : Nat} {edits : List (Edit α)}
    (ordered : Ordered cursor edits) (bound : cursor ≤ point) (outside : ¬ Inside edits point) :
    (cursor : Int) ≤ point + shift edits point := by
  induction edits generalizing cursor with
  | nil => simp only [shift_nil]; omega
  | cons edit edits inductionHypothesis =>
    obtain ⟨first, second, rest⟩ := ordered
    obtain ⟨side, outside⟩ := not_inside_cons outside
    rw [shift_cons]
    by_cases ended : edit.stop ≤ point
    · have image := inductionHypothesis rest ended outside
      rw [if_pos ended, Edit.delta]
      omega
    · have later : ∀ other ∈ edits, point < other.stop := by
        intro other member
        have := rest.le_start member
        have := rest.le_stop member
        omega
      rw [if_neg ended, shift_eq_zero later]
      omega

/-- The position map is strictly monotone when no edit deletes its whole interval. -/
theorem shifted_lt_shifted {cursor left right : Nat} {edits : List (Edit α)}
    (ordered : Ordered cursor edits) (nonempty : ∀ edit ∈ edits, edit.replacement ≠ [])
    (less : left < right) (leftBound : cursor ≤ left) (leftOutside : ¬ Inside edits left)
    (rightOutside : ¬ Inside edits right) :
    left + shift edits left < right + shift edits right := by
  induction edits generalizing cursor with
  | nil => simp only [shift_nil]; omega
  | cons edit edits inductionHypothesis =>
    obtain ⟨first, second, rest⟩ := ordered
    obtain ⟨leftSide, leftOutside⟩ := not_inside_cons leftOutside
    obtain ⟨rightSide, rightOutside⟩ := not_inside_cons rightOutside
    simp only [shift_cons]
    by_cases leftEnded : edit.stop ≤ left
    · have images := inductionHypothesis rest
        (fun other member => nonempty other (List.mem_cons_of_mem _ member))
        leftEnded leftOutside rightOutside
      rw [if_pos leftEnded, if_pos (leftEnded.trans less.le)]
      omega
    · have leftZero : shift edits left = 0 := by
        apply shift_eq_zero
        intro other member
        have := rest.le_start member
        have := rest.le_stop member
        omega
      rw [if_neg leftEnded, leftZero]
      by_cases rightEnded : edit.stop ≤ right
      · -- The edit lies between the two points, so its replacement separates the images.
        have image := cursor_le_shifted rest rightEnded rightOutside
        have length := List.length_pos_iff.mpr (nonempty edit List.mem_cons_self)
        rw [if_pos rightEnded, Edit.delta]
        omega
      · have rightZero : shift edits right = 0 := by
          apply shift_eq_zero
          intro other member
          have := rest.le_start member
          have := rest.le_stop member
          omega
        rw [if_neg rightEnded, rightZero]
        omega

/-! ## The spliced text -/

theorem splice_length (text : List α) {cursor : Nat} {edits : List (Edit α)}
    (ordered : Ordered cursor edits) (bound : cursor ≤ text.length)
    (within : ∀ edit ∈ edits, edit.stop ≤ text.length) :
    ((splice text cursor edits).length : Int) =
      text.length - cursor + (edits.map Edit.delta).sum := by
  induction edits generalizing cursor with
  | nil => simp [splice]; omega
  | cons edit edits inductionHypothesis =>
    obtain ⟨first, second, rest⟩ := ordered
    have stopBound := within edit List.mem_cons_self
    have tailLength := inductionHypothesis rest stopBound
      (fun other member => within other (List.mem_cons_of_mem _ member))
    simp only [splice, List.length_append, List.length_drop, List.length_take, List.map_cons,
      List.sum_cons, Nat.cast_add, tailLength, Edit.delta]
    omega

/-- Splicing may stop at any point between two groups of edits and start again there. -/
theorem splice_append (text : List α) {cursor point : Nat} {left right : List (Edit α)}
    (ordered : Ordered cursor left) (bound : cursor ≤ point)
    (ended : ∀ edit ∈ left, edit.stop ≤ point) (later : ∀ edit ∈ right, point ≤ edit.start) :
    splice text cursor (left ++ right) =
      splice (text.take point) cursor left ++ splice text point right := by
  induction left generalizing cursor with
  | nil =>
    cases right with
    | nil =>
      simp only [List.append_nil, splice, List.drop_take]
      rw [show text.drop point = (text.drop cursor).drop (point - cursor) by
        rw [List.drop_drop]; congr 1; omega]
      exact (List.take_append_drop _ _).symm
    | cons edit right =>
      have gap := later edit List.mem_cons_self
      simp only [List.nil_append, splice, ← List.append_assoc]
      congr 2
      rw [List.drop_take, List.drop_take, List.drop_take,
        show text.drop point = (text.drop cursor).drop (point - cursor) by
          rw [List.drop_drop]; congr 1; omega,
        show edit.start - cursor = (point - cursor) + (edit.start - point) by omega,
        List.take_add]
  | cons edit left inductionHypothesis =>
    obtain ⟨first, second, rest⟩ := ordered
    have stopBound := ended edit List.mem_cons_self
    rw [List.cons_append, splice, splice, inductionHypothesis rest stopBound
      (fun other member => ended other (List.mem_cons_of_mem _ member)), List.take_take,
      min_eq_left (second.trans stopBound)]
    simp only [List.append_assoc]

/-- Every edit list splits at a point that lies inside none of its intervals. -/
theorem exists_split {cursor point : Nat} {edits : List (Edit α)} (ordered : Ordered cursor edits)
    (outside : ¬ Inside edits point) :
    ∃ left right, edits = left ++ right ∧ Ordered cursor left ∧
      (∀ edit ∈ left, edit.stop ≤ point) ∧
      (∀ edit ∈ right, point ≤ edit.start ∧ point < edit.stop) := by
  induction edits generalizing cursor with
  | nil => exact ⟨[], [], rfl, trivial, by simp, by simp⟩
  | cons edit edits inductionHypothesis =>
    obtain ⟨first, second, rest⟩ := ordered
    obtain ⟨side, outside⟩ := not_inside_cons outside
    by_cases ended : edit.stop ≤ point
    · obtain ⟨left, right, equal, leftOrdered, leftEnded, rightLater⟩ :=
        inductionHypothesis rest outside
      refine ⟨edit :: left, right, by rw [equal, List.cons_append],
        ⟨first, second, leftOrdered⟩, ?_, rightLater⟩
      simpa using ⟨ended, leftEnded⟩
    · refine ⟨[], edit :: edits, rfl, trivial, by simp, ?_⟩
      intro other member
      cases member with
      | head => omega
      | tail _ member =>
        have := rest.le_start member
        have := rest.le_stop member
        omega

theorem shift_split {left right : List (Edit α)} {point : Nat}
    (ended : ∀ edit ∈ left, edit.stop ≤ point)
    (later : ∀ edit ∈ right, point ≤ edit.start ∧ point < edit.stop) :
    shift (left ++ right) point = (left.map Edit.delta).sum := by
  rw [shift_append, shift_eq_sum ended, shift_eq_zero (fun edit member => (later edit member).2),
    add_zero]

/-- The image of a point lies inside the new text. -/
theorem shifted_le_length (text : List α) {point : Nat} {edits : List (Edit α)}
    (ordered : Ordered 0 edits) (within : ∀ edit ∈ edits, edit.stop ≤ text.length)
    (bound : point ≤ text.length) (outside : ¬ Inside edits point) :
    point + shift edits point ≤ (splice text 0 edits).length := by
  obtain ⟨left, right, rfl, leftOrdered, ended, later⟩ := exists_split ordered outside
  rw [shift_split ended later,
    splice_append text leftOrdered (Nat.zero_le _) ended (fun edit member => (later edit member).1),
    List.length_append, Nat.cast_add, splice_length (text.take point) leftOrdered (Nat.zero_le _)
      (fun edit member => by rw [List.length_take]; have := ended edit member; omega),
    List.length_take]
  omega

/-- A byte that no edit replaces is found again at the image of its position. -/
theorem splice_getElem?_shifted (text : List α) {point : Nat} {edits : List (Edit α)}
    (ordered : Ordered 0 edits) (bound : point < text.length)
    (outside : ∀ edit ∈ edits, point < edit.start ∨ edit.stop ≤ point) :
    (splice text 0 edits)[((point : Int) + shift edits point).toNat]? = text[point]? := by
  have notInside : ¬ Inside edits point := by
    rintro ⟨edit, member, bounds⟩
    have := outside edit member
    omega
  obtain ⟨left, right, rfl, leftOrdered, ended, later⟩ := exists_split ordered notInside
  have length := splice_length (text.take point) leftOrdered (Nat.zero_le _)
    (fun edit member => by rw [List.length_take]; have := ended edit member; omega)
  rw [shift_split ended later,
    splice_append text leftOrdered (Nat.zero_le _) ended (fun edit member => (later edit member).1),
    List.getElem?_append_right (by rw [List.length_take] at length; omega),
    show ((point : Int) + (left.map Edit.delta).sum).toNat - _ = 0 by
      rw [List.length_take] at length; omega]
  cases right with
  | nil => simp [splice]
  | cons edit right =>
    have strict : point < edit.start := by
      have := outside edit (by simp)
      have := later edit List.mem_cons_self
      omega
    simp only [splice]
    rw [List.append_assoc, List.getElem?_append_left
      (by rw [List.length_drop, List.length_take]; omega)]
    simp [strict]

/-! ## Slices -/

/-- A text between two points of which none is inside an edit is found again, with the edits that
stand in it, between the images of the points. -/
theorem splice_slice (text : List α) {start stop : Nat} {edits : List (Edit α)} (ordered : Ordered 0 edits)
    (proper : ∀ edit ∈ edits, edit.start < edit.stop) (less : start ≤ stop) (bound : stop ≤ text.length)
    (startOutside : ¬ Inside edits start) (stopOutside : ¬ Inside edits stop) :
    ((splice text 0 edits).take (stop + shift edits stop).toNat).drop (start + shift edits start).toNat =
      splice (text.take stop) start (edits.filter fun edit => start ≤ edit.start ∧ edit.stop ≤ stop) := by
  obtain ⟨upto, behind, rfl, uptoOrdered, uptoEnded, behindLater⟩ := exists_split ordered stopOutside
  have uptoOutside : ¬ Inside upto start := by
    rintro ⟨edit, member, bounds⟩
    exact startOutside ⟨edit, List.mem_append_left _ member, bounds⟩
  obtain ⟨before, own, rfl, beforeOrdered, beforeEnded, ownLater⟩ := exists_split uptoOrdered uptoOutside
  have filtered : (before ++ own ++ behind).filter (fun edit => start ≤ edit.start ∧ edit.stop ≤ stop) = own := by
    rw [List.filter_append, List.filter_append, List.filter_eq_nil_iff.mpr, List.filter_eq_self.mpr,
      List.filter_eq_nil_iff.mpr, List.nil_append, List.append_nil]
    · intro edit member
      have := behindLater edit member
      simp only [decide_eq_true_eq]
      omega
    · intro edit member
      have inside := uptoEnded edit (List.mem_append_right _ member)
      have later := ownLater edit member
      simpa using ⟨later.1, inside⟩
    · intro edit member
      have ended := beforeEnded edit member
      have proper := proper edit (by simp [member])
      simp only [decide_eq_true_eq]
      omega
  have startLater : ∀ edit ∈ own ++ behind, start ≤ edit.start ∧ start < edit.stop := by
    intro edit member
    cases List.mem_append.mp member with
    | inl member => exact ownLater edit member
    | inr member =>
      have := behindLater edit member
      omega
  have startShift : shift (before ++ own ++ behind) start = (before.map Edit.delta).sum := by
    rw [List.append_assoc]
    exact shift_split beforeEnded startLater
  have uptoLength := splice_length (text.take stop) uptoOrdered (Nat.zero_le _)
    (fun edit member => by rw [List.length_take]; have := uptoEnded edit member; omega)
  have beforeLength := splice_length ((text.take stop).take start) beforeOrdered (Nat.zero_le _)
    (fun edit member => by
      rw [List.length_take, List.length_take]
      have := beforeEnded edit member
      omega)
  rw [List.length_take] at uptoLength
  rw [List.length_take, List.length_take] at beforeLength
  rw [filtered, startShift, shift_split uptoEnded behindLater,
    splice_append text uptoOrdered (Nat.zero_le _) uptoEnded (fun edit member => (behindLater edit member).1),
    List.take_left' (by omega),
    splice_append (text.take stop) beforeOrdered (Nat.zero_le _) beforeEnded
      (fun edit member => (ownLater edit member).1), List.drop_left' (by omega)]

end SqlParser.Library.Splice
