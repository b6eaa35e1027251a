import SqlParser.Core.SurfaceRecords

/-! # A clone of owners that fails

The records are sorted by their owners before the clones are recorded.  When memory runs out or the
clone has another shape, the clones recorded so far are taken back.
-/

namespace SqlParser.Core

open SqlParser.Library.LowerBound SqlParser.Library.OwnedRecords

/-! ## The walk of two trees -/

def Children.count (field : Field) : Children → Nat
  | .nil => 0
  | .cons other _ rest => (if other = field then 1 else 0) + rest.count field

mutual

/-- `sqlparser_dialect_ast_surface_clone`: the calls of the visitor, and whether the walk gets to the end. -/
def cloneWalk : Message → Message → List CloneEvent × Bool
  | .node address descriptor children, .node cloneAddress cloneDescriptor cloneChildren =>
    if descriptor.same cloneDescriptor then
      let below := cloneWalkFields children cloneChildren
      (cloneEvents address descriptor children cloneAddress ++ below.1, below.2)
    else ([], false)

/-- The messages of a repeated field are counted before they are walked. -/
def cloneWalkFields : Children → Children → List CloneEvent × Bool
  | .nil, .nil => ([], true)
  | .cons field child rest, .cons cloneField clone cloneRest =>
    if field = cloneField ∧ rest.count field = cloneRest.count field then
      let first := cloneWalk child clone
      if first.2 then
        let others := cloneWalkFields rest cloneRest
        (first.1 ++ others.1, others.2)
      else first
    else ([], false)
  | _, _ => ([], false)

end

theorem surfaceCloneFields_count {field : Field} : ∀ {children clones : Children} {events : List CloneEvent},
    surfaceCloneFields children clones = some events → children.count field = clones.count field
  | .nil, .nil, _, _ => rfl
  | .cons own child rest, .cons cloneField clone cloneRest, _, walked => by
    rw [surfaceCloneFields] at walked
    split_ifs at walked with same
    split at walked
    next below _ =>
      obtain ⟨others, walked', -⟩ := Option.map_eq_some_iff.mp walked
      rw [Children.count, Children.count, same, surfaceCloneFields_count walked']
    next => cases walked
  | .nil, .cons _ _ _, _, walked => by cases walked
  | .cons _ _ _, .nil, _, walked => by cases walked

mutual

/-- The walk gets to the end of two trees of one shape. -/
theorem surfaceClone_eq_some_iff : ∀ {source clone : Message} {events : List CloneEvent},
    surfaceClone source clone = some events ↔ cloneWalk source clone = (events, true)
  | .node address descriptor children, .node cloneAddress cloneDescriptor cloneChildren, events => by
    rw [surfaceClone, cloneWalk]
    split
    next same =>
      have below := @surfaceCloneFields_eq_some_iff children cloneChildren
      constructor
      · intro walked
        obtain ⟨others, walked', rfl⟩ := Option.map_eq_some_iff.mp walked
        rw [below.mp walked']
      · intro walked
        simp only [Prod.mk.injEq] at walked
        obtain ⟨rfl, complete⟩ := walked
        rw [below.mpr (Prod.ext rfl complete)]
        rfl
    next => simp

theorem surfaceCloneFields_eq_some_iff : ∀ {children clones : Children} {events : List CloneEvent},
    surfaceCloneFields children clones = some events ↔ cloneWalkFields children clones = (events, true)
  | .nil, .nil, events => by simp [surfaceCloneFields, cloneWalkFields, eq_comm]
  | .cons field child rest, .cons cloneField clone cloneRest, events => by
    have first := @surfaceClone_eq_some_iff child clone
    have others := @surfaceCloneFields_eq_some_iff rest cloneRest
    rw [surfaceCloneFields, cloneWalkFields]
    constructor
    · intro walked
      split_ifs at walked with same
      split at walked
      next below walkedChild =>
        obtain ⟨tail, walkedRest, rfl⟩ := Option.map_eq_some_iff.mp walked
        rw [if_pos ⟨same, surfaceCloneFields_count walkedRest⟩, first.mp walkedChild, others.mp walkedRest]
        rfl
      next => cases walked
    · intro walked
      split at walked
      next same =>
        dsimp only at walked
        split at walked
        next complete =>
          obtain ⟨rfl, restComplete⟩ := Prod.mk.inj walked
          rw [if_pos same.1, first.mpr (Prod.ext rfl complete)]
          simp only [others.mpr (Prod.ext rfl restComplete), Option.map_some]
        next incomplete =>
          rw [walked] at incomplete
          exact absurd rfl incomplete
      next => cases walked
  | .nil, .cons _ _ _, events => by simp [surfaceCloneFields, cloneWalkFields]
  | .cons _ _ _, .nil, events => by simp [surfaceCloneFields, cloneWalkFields]

end

/-! ## Taking the clones back -/

theorem pairwise_of_short {α : Type} {relation : α → α → Prop} {items : List α} (short : ¬ items.length > 1) :
    items.Pairwise relation := by
  cases items with
  | nil => exact .nil
  | cons record rest =>
    cases rest with
    | nil => exact List.pairwise_singleton _ _
    | cons other rest => simp at short

section Records

variable {R : Type} [OwnedRecord R] {memory : Nat → Bool} {unplaced : Nat}

/-- The calls of the clone visitors: whether memory suffices, and the records with the clones so far.  The owners are
searched among the first `count` records, and the allocator answers for each record that is appended. -/
def cloneAppends (memory : Nat → Bool) (unplaced count : Nat) : Nat → List (Nat × Nat) → List R → Bool × List R
  | _, [], items => (true, items)
  | made, (source, clone) :: pairs, items =>
    match (search address (items.take count) source 0 count).bind fun index => items[index]? with
    | some record =>
      if memory made then
        cloneAppends memory unplaced count (made + 1) pairs
          (items ++ [OwnedRecord.own (some clone) (OwnedRecord.place unplaced record)])
      else (false, items)
    | none => cloneAppends memory unplaced count made pairs items

/-- The searched records stay in front. -/
theorem cloneAppends_take (sorted extra : List R) (made : Nat) (pairs : List (Nat × Nat)) :
    (cloneAppends memory unplaced sorted.length made pairs (sorted ++ extra)).2.take sorted.length = sorted := by
  induction pairs generalizing extra made with
  | nil => exact List.take_left' rfl
  | cons pair pairs inductionHypothesis =>
    obtain ⟨source, clone⟩ := pair
    rw [cloneAppends]
    split
    next record _ =>
      split
      next =>
        rw [List.append_assoc]
        exact inductionHypothesis _ _
      next => exact List.take_left' rfl
    next => exact inductionHypothesis _ _

/-- A record is found for every owner that is there, in whatever order equal owners stand. -/
theorem found_iff {sorted : List R} (ordered : sorted.Pairwise fun left right => address left ≤ address right)
    (extra : List R) (source : Nat) :
    ((search address ((sorted ++ extra).take sorted.length) source 0 sorted.length).bind
      fun index => (sorted ++ extra)[index]?).isSome ↔ ∃ record ∈ sorted, address record = source := by
  rw [List.take_left' rfl]
  constructor
  · intro found
    obtain ⟨record, found⟩ := Option.isSome_iff_exists.mp found
    obtain ⟨index, searched, -⟩ := Option.bind_eq_some_iff.mp found
    obtain ⟨item, here, same⟩ := search_some address searched
    exact ⟨item, List.mem_of_getElem? here, same⟩
  · rintro ⟨record, listed, same⟩
    obtain ⟨index, here⟩ := List.mem_iff_getElem?.mp listed
    obtain ⟨inside, -⟩ := List.getElem?_eq_some_iff.mp here
    have some := search_isSome address ordered here same (Nat.zero_le _) inside le_rfl
    obtain ⟨found, searched⟩ := Option.isSome_iff_exists.mp some
    obtain ⟨item, there, -⟩ := search_some address searched
    rw [searched, Option.bind_some, List.getElem?_append_left (List.getElem?_eq_some_iff.mp there).1, there]
    rfl

theorem cloneAppends_enough (count made : Nat) (pairs : List (Nat × Nat)) (items : List R) :
    cloneAppends (fun _ => true) unplaced count made pairs items =
      (true, pairs.foldl (fun cloned (source, clone) => cloneOwner unplaced count cloned source clone) items) := by
  induction pairs generalizing made items with
  | nil => rfl
  | cons pair pairs inductionHypothesis =>
    obtain ⟨source, clone⟩ := pair
    rw [cloneAppends, List.foldl_cons]
    dsimp only
    rw [cloneOwner]
    cases (search address (items.take count) source 0 count).bind fun index => items[index]? with
    | none => exact inductionHypothesis _ _
    | some record => exact inductionHypothesis _ _

/-- Whether memory suffices does not depend on how records with equal owners are sorted. -/
theorem cloneAppends_congr {first second : List R} (same : first.Perm second)
    (firstOrdered : first.Pairwise fun left right => address left ≤ address right)
    (secondOrdered : second.Pairwise fun left right => address left ≤ address right)
    (made : Nat) (pairs : List (Nat × Nat)) (firstExtra secondExtra : List R) :
    (cloneAppends memory unplaced first.length made pairs (first ++ firstExtra)).1 =
      (cloneAppends memory unplaced second.length made pairs (second ++ secondExtra)).1 := by
  induction pairs generalizing made firstExtra secondExtra with
  | nil => rfl
  | cons pair pairs inductionHypothesis =>
    obtain ⟨source, clone⟩ := pair
    have found : (∃ record ∈ first, address record = source) ↔ ∃ record ∈ second, address record = source := by
      simp only [same.mem_iff]
    rw [← found_iff firstOrdered firstExtra, ← found_iff secondOrdered secondExtra] at found
    rw [cloneAppends, cloneAppends]
    split
    next record here =>
      rw [here] at found
      obtain ⟨other, there⟩ := Option.isSome_iff_exists.mp (found.mp rfl)
      rw [there]
      dsimp only
      split
      next =>
        rw [List.append_assoc, List.append_assoc]
        exact inductionHypothesis _ _ _
      next => rfl
    next missing =>
      rw [missing] at found
      rw [Option.not_isSome_iff_eq_none.mp fun isSome => Bool.false_ne_true (found.mpr isSome)]
      exact inductionHypothesis _ _ _

end Records

namespace SurfaceRecords

variable {S R : Type} [OwnedRecord R] [SurfaceRecords S R]

/-- The records in order of their owners, if there are two or more. -/
def ownerOrder (qsort : List R → List R) (items : List R) : List R :=
  if items.length > 1 then qsort items else items

/-- Cloning the owners: the status and the records, which are cut to their old number on an error. -/
def cloneOwnersState (qsort : List R → List R) (memory : Nat → Bool) (records : S) (sourceRoot cloneRoot : Option Message) :
    Except Error Unit × S :=
  match sourceRoot, cloneRoot with
  | some source, some clone =>
    if (items records).isEmpty then (.ok (), records)
    else
      let sorted := ownerOrder qsort (items records)
      let walk := cloneWalk source clone
      let cloned := cloneAppends memory sizeMax sorted.length 0 (countedPairs (kind S) walk.1) sorted
      if !cloned.1 then (.error outOfMemory, withItems records (cloned.2.take sorted.length))
      else if !walk.2 then
        (.error ⟨.internalError, shapeInconsistent S⟩, withItems records (cloned.2.take sorted.length))
      else (.ok (), withItems records cloned.2)
  | _, _ => (.ok (), records)

/-- The call returns an error. -/
def CloneFails (qsort : List R → List R) (memory : Nat → Bool) (records : S) (sourceRoot cloneRoot : Option Message) :
    Prop :=
  ∃ error, (cloneOwnersState qsort memory records sourceRoot cloneRoot).1 = .error error

variable {qsort : List R → List R} {memory : Nat → Bool} {records : S} {sourceRoot cloneRoot : Option Message}

/-- A failed call leaves the records in the order of their owners. -/
theorem cloneOwnersState_of_fails (fails : CloneFails qsort memory records sourceRoot cloneRoot) :
    (cloneOwnersState qsort memory records sourceRoot cloneRoot).2 =
      withItems records (ownerOrder qsort (items records)) := by
  obtain ⟨error, failed⟩ := fails
  have kept := fun pairs => @cloneAppends_take R _ memory sizeMax (ownerOrder qsort (items records)) [] 0 pairs
  simp only [List.append_nil] at kept
  rw [cloneOwnersState.eq_def] at failed ⊢
  split at failed
  next source clone =>
    dsimp only at failed ⊢
    split_ifs at failed ⊢
    · rw [kept]
    · rw [kept]
  next => cases failed

/-- A clone of another shape makes the call fail. -/
theorem cloneFails_of_shape {source clone : Message} (recorded : items records ≠ [])
    (shapes : (cloneWalk source clone).2 = false) : CloneFails qsort memory records (some source) (some clone) := by
  rw [CloneFails, cloneOwnersState]
  simp only [List.isEmpty_iff, recorded, if_false, shapes]
  split
  next => exact ⟨_, rfl⟩
  next => exact ⟨_, rfl⟩

theorem ownerOrder_sorts (sorts : Sorts address qsort) : Sorts address (ownerOrder qsort) where
  perm items := by
    rw [ownerOrder]
    split
    · exact sorts.perm items
    · exact .refl items
  ordered items := by
    rw [ownerOrder]
    split
    next => exact sorts.ordered items
    next short => exact pairwise_of_short short

/-- Whether the call fails does not depend on the sort. -/
theorem CloneFails.congr {other : List R → List R} (sorts : Sorts address qsort) (otherSorts : Sorts address other)
    (fails : CloneFails qsort memory records sourceRoot cloneRoot) :
    CloneFails other memory records sourceRoot cloneRoot := by
  have first := ownerOrder_sorts sorts
  have second := ownerOrder_sorts otherSorts
  have enough (pairs : List (Nat × Nat)) := @cloneAppends_congr R _ memory sizeMax _ _
    ((first.perm (items records)).trans (second.perm (items records)).symm) (first.ordered _) (second.ordered _) 0 pairs [] []
  simp only [List.append_nil] at enough
  obtain ⟨error, failed⟩ := fails
  refine ⟨error, ?_⟩
  rw [cloneOwnersState.eq_def] at failed ⊢
  split at failed
  next source clone =>
    dsimp only at failed ⊢
    rw [← enough]
    split_ifs at failed ⊢ <;> exact failed
  next => cases failed

/-- A sort that turns the records of one owner around. -/
def turnedSort (items : List R) : List R :=
  items.mergeSort fun left right => decide (address left < address right ∨
    address left = address right ∧ OwnedRecord.ordinal right ≤ OwnedRecord.ordinal left)

theorem turnedSort_ordered (items : List R) : (turnedSort items).Pairwise fun left right =>
    address left < address right ∨ address left = address right ∧ OwnedRecord.ordinal right ≤ OwnedRecord.ordinal left := by
  have sorted := @List.pairwise_mergeSort R (fun left right => decide (address left < address right ∨
      address left = address right ∧ OwnedRecord.ordinal right ≤ OwnedRecord.ordinal left))
    (by intro first second third; simp only [decide_eq_true_eq]; omega)
    (by intro first second; simp only [Bool.or_eq_true, decide_eq_true_eq]; omega) items
  simpa only [turnedSort, decide_eq_true_eq] using sorted

theorem turnedSort_sorts : Sorts (address (R := R)) turnedSort where
  perm items := List.mergeSort_perm items _
  ordered items := (turnedSort_ordered items).imp fun order => by omega

/-- After a failed call the records are the old ones, whatever the sort does with equal owners, exactly when the owners of
the records stand in order. -/
theorem failed_clone_restores_iff
    (byOrdinal : (items records).Pairwise fun left right => OwnedRecord.ordinal left < OwnedRecord.ordinal right)
    (sorts : Sorts address qsort) (fails : CloneFails qsort memory records sourceRoot cloneRoot) :
    (∀ sort, Sorts address sort → (cloneOwnersState sort memory records sourceRoot cloneRoot).2 = records) ↔
      (items records).Pairwise fun left right => address left < address right := by
  constructor
  · intro restored
    have same := restored turnedSort turnedSort_sorts
    rw [cloneOwnersState_of_fails (fails.congr sorts turnedSort_sorts)] at same
    have turned : ownerOrder turnedSort (items records) = items records := by
      have := congrArg items same
      rwa [items_withItems] at this
    rw [ownerOrder] at turned
    split at turned
    next =>
      have ordered := turnedSort_ordered (items records)
      rw [turned] at ordered
      exact ordered.imp₂ (fun left right order ordinals => by omega) byOrdinal
    next short => exact pairwise_of_short short
  · intro strict sort sortSorts
    rw [cloneOwnersState_of_fails (fails.congr sorts sortSorts), (ownerOrder_sorts sortSorts).eq_of_perm address (.refl _) strict,
      withItems_self]

/-- Without a lack of memory the call is the one that answers for the record list alone. -/
theorem cloneOwnersState_eq_ok (records after : S) (sourceRoot cloneRoot : Option Message) :
    cloneOwners records sourceRoot cloneRoot = .ok after ↔
      cloneOwnersState (sortBy address) (fun _ => true) records sourceRoot cloneRoot = (.ok (), after) := by
  have sorted : ownerOrder (sortBy address) (items records) = sortBy address (items records) := by
    rw [ownerOrder]
    split
    next => rfl
    next short => exact (List.mergeSort_of_pairwise (pairwise_of_short short)).symm
  rw [cloneOwners.eq_def, cloneOwnersState.eq_def]
  cases sourceRoot with
  | none => simp
  | some source =>
    cases cloneRoot with
    | none => simp
    | some clone =>
      dsimp only
      split
      next => simp
      next =>
        rw [sorted, cloneAppends_enough]
        cases walked : surfaceClone source clone with
        | some events =>
          simp [surfaceClone_eq_some_iff.mp walked, cloneItems, (sortBy_perm address (items records)).length_eq]
        | none =>
          have incomplete : (cloneWalk source clone).2 = false := by
            by_contra complete
            have := surfaceClone_eq_some_iff.mpr (Prod.ext rfl (Bool.not_eq_false _ ▸ complete : (cloneWalk source clone).2 = true))
            rw [walked] at this
            cases this
          simp [incomplete]

end SurfaceRecords

open SurfaceRecords

/-- `sqlparser_dialect_national_literals_clone_owners`, with what it leaves of the records on an error. -/
def NationalLiterals.cloneOwnersState (qsort : List NationalLiteral → List NationalLiteral) (memory : Nat → Bool)
    (literals : NationalLiterals) (sourceRoot cloneRoot : Option Message) : Except Error Unit × NationalLiterals :=
  SurfaceRecords.cloneOwnersState qsort memory literals sourceRoot cloneRoot

/-- `sqlparser_dialect_minuses_clone_owners`, with what it leaves of the records on an error. -/
def Minuses.cloneOwnersState (qsort : List Minus → List Minus) (memory : Nat → Bool) (minuses : Minuses)
    (sourceRoot cloneRoot : Option Message) : Except Error Unit × Minuses :=
  SurfaceRecords.cloneOwnersState qsort memory minuses sourceRoot cloneRoot

/-- A failed call of either function leaves the records as they were, whatever `qsort` does with equal owners, exactly
when the records stand in the order of their owners too. -/
theorem failed_clone_owners_restore_iff (memory : Nat → Bool) (sourceRoot cloneRoot : Option Message) :
    (∀ (qsort : List NationalLiteral → List NationalLiteral) (literals : NationalLiterals),
      literals.items.Pairwise (fun left right => left.ordinal < right.ordinal) → Sorts address qsort →
      (∃ error, (literals.cloneOwnersState qsort memory sourceRoot cloneRoot).1 = .error error) →
      ((∀ sort, Sorts address sort → (literals.cloneOwnersState sort memory sourceRoot cloneRoot).2 = literals) ↔
        literals.items.Pairwise fun left right => address left < address right)) ∧
    ∀ (qsort : List Minus → List Minus) (minuses : Minuses),
      minuses.items.Pairwise (fun left right => left.ordinal < right.ordinal) → Sorts address qsort →
      (∃ error, (minuses.cloneOwnersState qsort memory sourceRoot cloneRoot).1 = .error error) →
      ((∀ sort, Sorts address sort → (minuses.cloneOwnersState sort memory sourceRoot cloneRoot).2 = minuses) ↔
        minuses.items.Pairwise fun left right => address left < address right) := by
  constructor
  · intro qsort literals byOrdinal sorts fails
    exact failed_clone_restores_iff byOrdinal sorts fails
  · intro qsort minuses byOrdinal sorts fails
    exact failed_clone_restores_iff byOrdinal sorts fails

/-- An EXCEPT operation whose left operand the clone lacks. -/
def exceptWithOperand : Message :=
  .node 1 (.selectStmt .except .default) (.cons .larg (.node 2 (.selectStmt .none .default) .nil) .nil)

def exceptWithoutOperand : Message :=
  .node 3 (.selectStmt .except .default) .nil

theorem failed_clone_owners_restore_ordered (sort : List Minus → List Minus) :
    Sorts address sort → (Minuses.cloneOwnersState sort (fun _ => true) ⟨[⟨0, some 1⟩, ⟨1, some 5⟩], 2, 0, 0⟩
      (some exceptWithOperand) (some exceptWithoutOperand)).2 = ⟨[⟨0, some 1⟩, ⟨1, some 5⟩], 2, 0, 0⟩ :=
  ((failed_clone_owners_restore_iff (fun _ => true) (some exceptWithOperand) (some exceptWithoutOperand)).2
    (sortBy address) ⟨[⟨0, some 1⟩, ⟨1, some 5⟩], 2, 0, 0⟩ (by decide) (sortBy_sorts address)
    (cloneFails_of_shape (List.cons_ne_nil _ _) rfl)).mpr (by decide) sort

/-- Two records whose owners stand the other way around in memory lose their order, and the first one is not found. -/
theorem failed_clone_owners_reorder :
    ∃ minuses : Minuses, minuses.items.Pairwise (fun left right => left.ordinal < right.ordinal) ∧
      (∃ error, (minuses.cloneOwnersState (sortBy address) (fun _ => true) (some exceptWithOperand)
        (some exceptWithoutOperand)).1 = .error error) ∧
      (minuses.cloneOwnersState (sortBy address) (fun _ => true) (some exceptWithOperand)
        (some exceptWithoutOperand)).2 ≠ minuses ∧
      minuses.matches' 0 = true ∧
      (minuses.cloneOwnersState (sortBy address) (fun _ => true) (some exceptWithOperand)
        (some exceptWithoutOperand)).2.matches' 0 = false := by
  have fails : CloneFails (sortBy address) (fun _ => true) (Minuses.mk [⟨0, some 5⟩, ⟨1, some 1⟩] 2 0 0)
      (some exceptWithOperand) (some exceptWithoutOperand) := cloneFails_of_shape (List.cons_ne_nil _ _) rfl
  have turned : ownerOrder (sortBy address) [Minus.mk 0 (some 5), Minus.mk 1 (some 1)] =
      [Minus.mk 1 (some 1), Minus.mk 0 (some 5)] :=
    (ownerOrder_sorts (sortBy_sorts address)).eq_of_perm address (.swap _ _ _) (by decide)
  have after : (Minuses.cloneOwnersState (sortBy address) (fun _ => true) (Minuses.mk [⟨0, some 5⟩, ⟨1, some 1⟩] 2 0 0)
      (some exceptWithOperand) (some exceptWithoutOperand)).2 = ⟨[⟨1, some 1⟩, ⟨0, some 5⟩], 2, 0, 0⟩ :=
    (cloneOwnersState_of_fails fails).trans (congrArg (withItems _) turned)
  refine ⟨⟨[⟨0, some 5⟩, ⟨1, some 1⟩], 2, 0, 0⟩, by decide, fails, ?_, by decide +kernel, ?_⟩
  · rw [after]
    decide
  · rw [after]
    decide +kernel

end SqlParser.Core
