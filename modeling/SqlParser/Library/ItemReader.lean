import Mathlib

/-! # Readers of items

A reader moves over positions.  At every position it either finds an item and
goes on behind it, or it goes on at the next position.  Two readers that open
items at the same positions find the same items exactly when they end every
item at the same place, up to a relation of ends behind which the one reader
goes on like from the end of the other.
-/

namespace SqlParser.Library.ItemReader

structure Item where
  start : Nat
  stop : Nat
  deriving DecidableEq, Repr

def Item.Covers (item : Item) (position : Nat) : Prop :=
  item.start ≤ position ∧ position < item.stop

/-- No item covers the position. -/
def Outside (found : List Item) (position : Nat) : Prop :=
  ∀ item ∈ found, ¬ item.Covers position

instance (item : Item) (position : Nat) : Decidable (item.Covers position) :=
  inferInstanceAs (Decidable (_ ∧ _))

instance (found : List Item) (position : Nat) : Decidable (Outside found position) :=
  inferInstanceAs (Decidable (∀ item ∈ found, ¬ item.Covers position))

/-- The items that begin before `stop`, for a reader that is given as its skipping function. -/
def items (skip : Nat → Nat) (stop index : Nat) : List Item :=
  if index < stop then
    if index < skip index then ⟨index, skip index⟩ :: items skip stop (skip index)
    else items skip stop (index + 1)
  else []
termination_by stop - index

section items

variable {skip : Nat → Nat} {stop index : Nat}

theorem items_done (done : stop ≤ index) : items skip stop index = [] := by
  rw [items, if_neg (Nat.not_lt.mpr done)]

theorem items_item (inside : index < stop) (opens : index < skip index) :
    items skip stop index = ⟨index, skip index⟩ :: items skip stop (skip index) := by
  rw [items, if_pos inside, if_pos opens]

theorem items_plain (plain : skip index ≤ index) : items skip stop index = items skip stop (index + 1) := by
  by_cases inside : index < stop
  case pos => rw [items, if_pos inside, if_neg (Nat.not_lt.mpr plain)]
  case neg => rw [items_done (by omega), items_done (by omega)]

theorem items_le_start : ∀ item ∈ items skip stop index, index ≤ item.start := by
  fun_induction items skip stop index with
  | case1 index inside opens inductionHypothesis =>
    intro item listed
    cases listed with
    | head => exact le_rfl
    | tail _ listed => exact opens.le.trans (inductionHypothesis item listed)
  | case2 index inside plain inductionHypothesis =>
    exact fun item listed => (Nat.le_succ index).trans (inductionHypothesis item listed)
  | case3 => exact fun _ listed => nomatch listed

end items

/-! ## Passages -/

/-- The passage of a reader from one position to another, with the items that it passes. -/
inductive Passage (plain : Nat → Prop) (passes : Nat → Nat → Prop) : Nat → List Item → Nat → Prop where
  | done (position : Nat) : Passage plain passes position [] position
  | plain {start stop : Nat} {passed : List Item} (code : plain start)
      (rest : Passage plain passes (start + 1) passed stop) : Passage plain passes start passed stop
  | item {start next stop : Nat} {passed : List Item} (forward : start < next) (found : passes start next)
      (rest : Passage plain passes next passed stop) : Passage plain passes start (⟨start, next⟩ :: passed) stop

section Passage

variable {plain : Nat → Prop} {passes : Nat → Nat → Prop}

theorem Passage.append {start middle stop : Nat} {first second : List Item}
    (front : Passage plain passes start first middle) (back : Passage plain passes middle second stop) :
    Passage plain passes start (first ++ second) stop := by
  induction front with
  | done => exact back
  | plain code _ inductionHypothesis => exact .plain code (inductionHypothesis back)
  | item forward found _ inductionHypothesis => exact .item forward found (inductionHypothesis back)

theorem Passage.le {start stop : Nat} {passed : List Item} (passage : Passage plain passes start passed stop) :
    start ≤ stop := by
  induction passage with
  | done => exact le_rfl
  | plain _ _ inductionHypothesis => omega
  | item forward _ _ inductionHypothesis => omega

/-- A run of plain positions. -/
theorem Passage.range {start stop : Nat} (order : start ≤ stop)
    (code : ∀ position, start ≤ position → position < stop → plain position) :
    Passage plain passes start [] stop := by
  induction order using Nat.decreasingInduction with
  | self => exact .done stop
  | of_succ start below inductionHypothesis =>
    apply Passage.plain (code start le_rfl below)
    exact inductionHypothesis fun position begins ends => code position (by omega) ends

theorem Passage.items_mem {start stop : Nat} {passed : List Item} (passage : Passage plain passes start passed stop) :
    ∀ item ∈ passed, passes item.start item.stop := by
  induction passage with
  | done => exact fun _ listed => nomatch listed
  | plain _ _ inductionHypothesis => exact inductionHypothesis
  | item _ found _ inductionHypothesis =>
    intro item listed
    cases listed with
    | head => exact found
    | tail _ listed => exact inductionHypothesis item listed

/-! ## Two readers -/

variable {skip : Nat → Nat} {same : Item → Item → Prop}

/-- The items that a skipping function finds along a passage are those of the passage exactly when
it ends every item of the passage at the same place. -/
theorem Passage.agree_iff {start stop : Nat} {passed : List Item} (passage : Passage plain passes start passed stop)
    (closed : ∀ position, plain position → skip position ≤ position)
    (starts : ∀ left right, same left right → left.start = right.start)
    (opens : ∀ position next, passes position next → same ⟨position, skip position⟩ ⟨position, next⟩ →
      position < skip position)
    (resumes : ∀ position next, passes position next → next ≤ stop → same ⟨position, skip position⟩ ⟨position, next⟩ →
      items skip stop (skip position) = items skip stop next) :
    List.Forall₂ same (items skip stop start) passed ↔
      ∀ item ∈ passed, same ⟨item.start, skip item.start⟩ item := by
  induction passage with
  | done => simp [items_done]
  | plain code _ inductionHypothesis =>
    rw [items_plain (closed _ code)]
    exact inductionHypothesis resumes
  | @item start next stop passed forward found rest inductionHypothesis =>
    have inside := rest.le
    rw [List.forall_mem_cons]
    by_cases opened : start < skip start
    case pos =>
      rw [items_item (by omega) opened, List.forall₂_cons]
      apply and_congr_right
      intro ends
      rw [resumes _ _ found inside ends]
      exact inductionHypothesis resumes
    case neg =>
      -- the skipping function does not open the item, so its next item begins behind it
      have never : ¬ same ⟨start, skip start⟩ ⟨start, next⟩ := fun ends => opened (opens _ _ found ends)
      constructor
      · intro agree
        exfalso
        rw [items_plain (Nat.le_of_not_lt opened)] at agree
        have later := @items_le_start skip stop (start + 1)
        cases read : items skip stop (start + 1) with
        | nil =>
          rw [read] at agree
          cases agree
        | cons first others =>
          rw [read, List.forall₂_cons] at agree
          have bound : start + 1 ≤ first.start := later first (by rw [read]; exact .head _)
          have begins : first.start = start := starts _ _ agree.1
          omega
      · intro ends
        exact absurd ends.1 never

end Passage

end SqlParser.Library.ItemReader
