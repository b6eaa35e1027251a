import Mathlib

/-! # Binary search for a lower bound

The half-open search that keeps everything below the target to its left, and the
lookup in a list that is strictly sorted by a key.
-/

namespace SqlParser.Library.LowerBound

def lowerBound (below : Nat → Bool) (left right : Nat) : Nat :=
  if left < right then
    let middle := left + (right - left) / 2
    if below middle then lowerBound below (middle + 1) right else lowerBound below left middle
  else left
termination_by right - left
decreasing_by all_goals omega

/-- Everything before the bound is below the target and nothing from it on is. -/
theorem lowerBound_spec {below : Nat → Bool} (downward : ∀ small large, small ≤ large → below large → below small)
    {left right : Nat} (order : left ≤ right) :
    left ≤ lowerBound below left right ∧ lowerBound below left right ≤ right ∧
      (∀ index, left ≤ index → index < lowerBound below left right → below index) ∧
      ∀ index, lowerBound below left right ≤ index → index < right → below index = false := by
  fun_induction lowerBound below left right with
  | case1 left right inside middle isBelow inductionHypothesis =>
    obtain ⟨lower, upper, front, back⟩ := inductionHypothesis (by omega)
    refine ⟨by omega, upper, fun index starts before => ?_, back⟩
    by_cases early : index ≤ middle
    · exact downward index middle early isBelow
    · exact front index (by omega) before
  | case2 left right inside middle above inductionHypothesis =>
    obtain ⟨lower, upper, front, back⟩ := inductionHypothesis (by omega)
    refine ⟨lower, by omega, front, fun index starts before => ?_⟩
    by_cases early : index < middle
    · exact back index starts early
    · rw [← Bool.not_eq_true]
      exact fun isBelow => above (downward middle index (by omega) isBelow)
  | case3 left right outside =>
    exact ⟨le_rfl, order, fun index starts before => absurd before (by omega), fun index starts before => by omega⟩

/-- The bound is where the target is reached. -/
theorem lowerBound_eq {below : Nat → Bool} {left right bound : Nat} (lower : left ≤ bound) (upper : bound ≤ right)
    (front : ∀ index, index < bound → below index) (back : ∀ index, bound ≤ index → below index = false) :
    lowerBound below left right = bound := by
  have downward (small large : Nat) (order : small ≤ large) (isBelow : below large) : below small := by
    apply front
    by_contra late
    rw [back large (by omega)] at isBelow
    cases isBelow
  obtain ⟨above, within, before, behind⟩ := lowerBound_spec downward (lower.trans upper)
  apply Nat.le_antisymm
  · by_contra late
    have := before bound lower (by omega)
    rw [back bound le_rfl] at this
    cases this
  · by_contra early
    have := behind _ le_rfl (by omega)
    rw [front _ (by omega)] at this
    cases this

section lookup

variable {α : Type*}

/-- The lookup of a key among the items of a list. -/
def lookup (key : α → Nat) (items : List α) (target : Nat) : Option α :=
  let below := fun index => (items[index]?).any fun item => key item < target
  match items[lowerBound below 0 items.length]? with
  | some item => if key item = target then some item else none
  | none => none

theorem lookup_mem {key : α → Nat} {items : List α} {target : Nat} {item : α}
    (found : lookup key items target = some item) : item ∈ items ∧ key item = target := by
  simp only [lookup] at found
  split at found
  next other here =>
    split at found
    next same =>
      cases found
      exact ⟨List.mem_of_getElem? here, same⟩
    next => cases found
  next => cases found

theorem lookup_eq_some_iff {key : α → Nat} {items : List α} (sorted : items.Pairwise fun left right => key left < key right)
    {target : Nat} {item : α} : lookup key items target = some item ↔ item ∈ items ∧ key item = target := by
  refine ⟨lookup_mem, ?_⟩
  rintro ⟨listed, same⟩
  obtain ⟨index, inside, rfl⟩ := List.getElem_of_mem listed
  have monotone (small large : Nat) (order : small < large) (bound : large < items.length) :
      key items[small] < key items[large] :=
    (List.pairwise_iff_getElem.mp sorted) small large (by omega) bound order
  generalize isBelow : (fun index : Nat => (items[index]?).any fun item => decide (key item < target)) = below
  have at' (position : Nat) (bound : position < items.length) : below position = decide (key items[position] < target) := by
    rw [← isBelow]
    simp [bound]
  have beyond (position : Nat) (outside : items.length ≤ position) : below position = false := by
    rw [← isBelow]
    simp [outside]
  have downward (small large : Nat) (order : small ≤ large) (large_below : below large) : below small := by
    by_cases bound : large < items.length
    · rw [at' large bound, decide_eq_true_eq] at large_below
      rw [at' small (by omega), decide_eq_true_eq]
      obtain rfl | less := Nat.eq_or_lt_of_le order
      · exact large_below
      · exact (monotone small large less bound).trans large_below
    · rw [beyond large (Nat.le_of_not_lt bound)] at large_below
      cases large_below
  obtain ⟨-, upper, front, back⟩ := lowerBound_spec downward (Nat.zero_le items.length)
  have bound : lowerBound below 0 items.length = index := by
    apply Nat.le_antisymm
    · by_contra late
      have := front index (Nat.zero_le _) (by omega)
      rw [at' index inside, decide_eq_true_eq] at this
      omega
    · by_contra early
      have := back _ le_rfl (by omega)
      rw [at' _ (by omega), decide_eq_false_iff_not] at this
      have := monotone (lowerBound below 0 items.length) index (by omega) inside
      omega
  simp only [lookup]
  rw [isBelow, bound, List.getElem?_eq_getElem inside]
  simp [same]

end lookup

end SqlParser.Library.LowerBound
