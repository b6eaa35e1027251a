import Mathlib.Data.List.Sort
import SqlParser.Library.LowerBound

/-! # A unique match by binary search

A list that is sorted by a comparison is searched for the one item that is equal to a target. The
order of equal items, which a sort need not keep, does not matter.
-/

namespace SqlParser.Library.UniqueMatch

open SqlParser.Library.LowerBound

variable {α : Type*}

/-- The first item that is not below the target, if it is equal to it and the next one is not. -/
def search (position : α → Ordering) (items : List α) : Option α :=
  let first := lowerBound (fun index => items[index]?.any fun item => position item = .lt) 0 items.length
  items[first]?.filter fun item =>
    position item = .eq && !items[first + 1]?.any fun next => position next = .eq

/-- A sort by a comparison, in whatever order it leaves equal items. -/
structure Sorts (compare : α → α → Ordering) (qsort : List α → List α) : Prop where
  perm : ∀ items, (qsort items).Perm items
  ordered : ∀ items, (qsort items).Pairwise fun left right => (compare left right).isLE = true

section trans

variable {compare : α → α → Ordering} [Std.TransCmp compare]

/-- Comparing what stands for an item keeps the order. -/
theorem trans_on {β : Type*} (value : β → α) : Std.TransCmp fun left right => compare (value left) (value right) where
  eq_swap := Std.OrientedCmp.eq_swap
  isLE_trans := Std.TransCmp.isLE_trans

theorem insertionSort_sorts :
    Sorts compare fun items => items.insertionSort fun left right => (compare left right).isLE = true where
  perm items := List.perm_insertionSort _ items
  ordered items := by
    have total : Std.Total fun left right : α => (compare left right).isLE = true := by
      constructor
      intro left right
      rw [@Std.OrientedCmp.eq_swap α compare _ left right]
      cases compare right left <;> simp
    have trans : IsTrans α fun left right => (compare left right).isLE = true := ⟨fun _ _ _ => Std.TransCmp.isLE_trans⟩
    exact List.pairwise_insertionSort _ items

/-- From the first item on that is not below the target, the items that are equal to it come first. -/
theorem filter_eq {items : List α} {target : α} (ordered : items.Pairwise fun left right => (compare left right).isLE = true)
    (notBelow : ∀ item ∈ items, compare item target ≠ .lt) :
    items.filter (fun item => compare item target = .eq) = items.takeWhile fun item => compare item target = .eq := by
  induction items with
  | nil => rfl
  | cons item rest inductionHypothesis =>
    obtain ⟨above, ordered⟩ := List.pairwise_cons.mp ordered
    by_cases same : compare item target = .eq
    · rw [List.filter_cons_of_pos (by simpa using same), List.takeWhile_cons_of_pos (by simpa using same),
        inductionHypothesis ordered fun other listed => notBelow other (List.mem_cons_of_mem _ listed)]
    · rw [List.takeWhile_cons_of_neg (by simpa using same), List.filter_eq_nil_iff]
      intro other listed
      rw [decide_eq_true_eq]
      intro isEqual
      rcases List.mem_cons.mp listed with rfl | listed
      · exact same isEqual
      · have lower : (compare item target).isLE = true :=
          Std.TransCmp.isLE_trans (above other listed) (by rw [isEqual]; rfl)
        cases position : compare item target with
        | lt => exact notBelow item List.mem_cons_self position
        | eq => exact same position
        | gt =>
          rw [position] at lower
          cases lower

/-- The items below the target stand in front. -/
theorem below_downward {items : List α} (target : α) (ordered : items.Pairwise fun left right => (compare left right).isLE = true)
    (small large : Nat) (order : small ≤ large)
    (below : (items[large]?.any fun item => compare item target = .lt) = true) :
    (items[small]?.any fun item => compare item target = .lt) = true := by
  obtain ⟨item, isItem, below⟩ := (Option.any_eq_true _ _).mp below
  obtain ⟨inside, rfl⟩ := List.getElem?_eq_some_iff.mp isItem
  have smallInside : small < items.length := by omega
  rw [List.getElem?_eq_getElem smallInside, Option.any_some, decide_eq_true_eq]
  rcases Nat.eq_or_lt_of_le order with rfl | less
  · exact of_decide_eq_true below
  · exact Std.TransCmp.lt_of_isLE_of_lt (List.pairwise_iff_getElem.mp ordered small large (by omega) inside less)
      (of_decide_eq_true below)

theorem search_sorted {items : List α} (ordered : items.Pairwise fun left right => (compare left right).isLE = true) (target item : α) :
    search (compare · target) items = some item ↔ items.filter (fun other => compare other target = .eq) = [item] := by
  obtain ⟨-, -, front, back⟩ := lowerBound_spec (below_downward target ordered) (Nat.zero_le items.length)
  unfold search
  dsimp only
  generalize lowerBound (fun index => items[index]?.any fun item => compare item target = .lt) 0 items.length = first at front back ⊢
  have head (offset : Nat) : items[first + offset]? = (items.drop first)[offset]? := by rw [List.getElem?_drop]
  have taken : (items.take first).filter (fun other => compare other target = .eq) = [] := by
    rw [List.filter_eq_nil_iff]
    intro other listed
    obtain ⟨index, inside, rfl⟩ := List.getElem_of_mem listed
    rw [List.length_take] at inside
    have below := front index (Nat.zero_le index) (by omega)
    rw [List.getElem?_eq_getElem (by omega), Option.any_some, decide_eq_true_eq] at below
    rw [List.getElem_take, below]
    exact Bool.false_ne_true
  have dropped : (items.drop first).filter (fun other => compare other target = .eq) =
      (items.drop first).takeWhile fun other => compare other target = .eq := by
    refine filter_eq (ordered.sublist (List.drop_sublist first items)) fun other listed isBelow => ?_
    obtain ⟨index, inside, rfl⟩ := List.getElem_of_mem listed
    rw [List.length_drop] at inside
    have notBelow := back (first + index) (Nat.le_add_right _ _) (by omega)
    rw [List.getElem?_eq_getElem (by omega), Option.any_some, decide_eq_false_iff_not] at notBelow
    rw [List.getElem_drop] at isBelow
    exact notBelow isBelow
  have isHead := head 0
  rw [Nat.add_zero] at isHead
  have split : items.filter (fun other => compare other target = .eq) =
      (items.drop first).takeWhile fun other => compare other target = .eq := by
    rw [← dropped]
    conv_lhs => rw [← List.take_append_drop first items, List.filter_append, taken, List.nil_append]
  rw [split, isHead, head 1]
  cases items.drop first with
  | nil => simp
  | cons found rest =>
    by_cases same : compare found target = .eq
    · cases rest with
      | nil => simp [Option.filter, same]
      | cons next rest =>
        by_cases again : compare next target = .eq
        · simp [Option.filter, same, again]
        · simp [Option.filter, same, again]
    · simp [Option.filter, same]

/-- Whatever sort is used, the search finds the one item that is equal to the target, if there is no other. -/
theorem search_iff {qsort : List α → List α} (sorts : Sorts compare qsort) (items : List α) (target item : α) :
    search (compare · target) (qsort items) = some item ↔ items.filter (fun other => compare other target = .eq) = [item] := by
  rw [search_sorted (sorts.ordered items)]
  have perm := (sorts.perm items).filter fun other => compare other target = .eq
  constructor
  · intro single
    rw [single] at perm
    exact List.singleton_perm.mp perm |>.symm
  · intro single
    rw [single] at perm
    exact List.perm_singleton.mp perm

end trans

end SqlParser.Library.UniqueMatch
