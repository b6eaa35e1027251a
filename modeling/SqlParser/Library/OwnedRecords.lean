import SqlParser.Library.LowerBound

/-! # Records that follow the nodes they are about

A record has an ordinal and an owner. The ordinal is the place of the owner in a traversal,
the owner is the address of a node. The records are bound to a traversal by their ordinals,
and after an edit their ordinals are read off a traversal by their owners.
-/

namespace SqlParser.Library.OwnedRecords

open SqlParser.Library.LowerBound

/-! ## Sorting and searching by a key -/

section keys

variable {α : Type*} (key : α → Nat)

def sortBy (items : List α) : List α :=
  items.mergeSort fun left right => decide (key left ≤ key right)

theorem sortBy_perm (items : List α) : (sortBy key items).Perm items :=
  List.mergeSort_perm items _

@[simp] theorem mem_sortBy {items : List α} {item : α} : item ∈ sortBy key items ↔ item ∈ items :=
  (sortBy_perm key items).mem_iff

theorem sortBy_ordered (items : List α) : (sortBy key items).Pairwise fun left right => key left ≤ key right := by
  have sorted := @List.pairwise_mergeSort _ (fun left right => decide (key left ≤ key right))
    (by intro first second third; simp only [decide_eq_true_eq]; exact Nat.le_trans)
    (by intro first second; simp only [Bool.or_eq_true, decide_eq_true_eq]; exact Nat.le_total _ _) items
  simpa only [sortBy, decide_eq_true_eq] using sorted

/-- Items with different keys are strictly in order when they are sorted. -/
theorem sortBy_strict {items : List α} (distinct : items.Pairwise fun left right => key left ≠ key right) :
    (sortBy key items).Pairwise fun left right => key left < key right := by
  have different : (sortBy key items).Pairwise fun left right => key left ≠ key right :=
    (sortBy_perm key items).symm.pairwise distinct fun {_ _} => Ne.symm
  exact (sortBy_ordered key items).imp₂ (fun _ _ order apart => Nat.lt_of_le_of_ne order apart) different

/-- A list in strict order of the keys is what its rearrangements are sorted to. -/
theorem sortBy_eq {items sorted : List α} (perm : items.Perm sorted)
    (increasing : sorted.Pairwise fun left right => key left < key right) : sortBy key items = sorted := by
  have distinct : items.Pairwise fun left right => key left ≠ key right :=
    perm.symm.pairwise (increasing.imp fun order => order.ne) fun {_ _} => Ne.symm
  have strict := sortBy_strict key distinct
  exact ((sortBy_perm key items).trans perm).eq_of_pairwise
    (fun _ _ _ _ before after => absurd (before.trans after) (lt_irrefl _)) strict increasing

/-- The halving search that stops at a key equal to the target. -/
def search (items : List α) (target left right : Nat) : Option Nat :=
  if left < right then
    let middle := (left + right) / 2
    match items[middle]? with
    | none => none
    | some item =>
      if target < key item then search items target left middle
      else if key item < target then search items target (middle + 1) right
      else some middle
  else none
termination_by right - left
decreasing_by all_goals omega

theorem search_some {items : List α} {target left right index : Nat}
    (found : search key items target left right = some index) : ∃ item, items[index]? = some item ∧ key item = target := by
  fun_induction search key items target left right with
  | case1 left right inside middle missing => cases found
  | case2 left right inside middle item here below inductionHypothesis => exact inductionHypothesis found
  | case3 left right inside middle item here notBelow above inductionHypothesis => exact inductionHypothesis found
  | case4 left right inside middle item here notBelow notAbove =>
    obtain rfl := Option.some.inj found
    exact ⟨item, here, by omega⟩
  | case5 left right outside => cases found

/-- In strict order the search finds every item between its bounds. -/
theorem search_complete {items : List α} (sorted : items.Pairwise fun left right => key left < key right)
    {target left right index : Nat} {item : α} (here : items[index]? = some item) (same : key item = target)
    (starts : left ≤ index) (before : index < right) (fits : right ≤ items.length) :
    search key items target left right = some index := by
  have strict {small large : Nat} {first second : α} (order : small < large) (at_small : items[small]? = some first)
      (at_large : items[large]? = some second) : key first < key second := by
    obtain ⟨inside, rfl⟩ := List.getElem?_eq_some_iff.mp at_small
    obtain ⟨bound, rfl⟩ := List.getElem?_eq_some_iff.mp at_large
    exact List.pairwise_iff_getElem.mp sorted small large inside bound order
  fun_induction search key items target left right with
  | case1 left right between middle missing =>
    have := List.getElem?_eq_none_iff.mp missing
    omega
  | case2 left right between middle found at_middle below inductionHypothesis =>
    apply inductionHypothesis starts _ (by omega)
    obtain early | rfl | late := Nat.lt_trichotomy index middle
    · exact early
    · rw [here] at at_middle
      cases at_middle
      omega
    · have := strict late at_middle here
      omega
  | case3 left right between middle found at_middle notBelow above inductionHypothesis =>
    apply inductionHypothesis _ before fits
    obtain early | rfl | late := Nat.lt_trichotomy index middle
    · have := strict early here at_middle
      omega
    · rw [here] at at_middle
      cases at_middle
      omega
    · exact late
  | case4 left right between middle found at_middle notBelow notAbove =>
    obtain early | same_place | late := Nat.lt_trichotomy index middle
    · have := strict early here at_middle
      omega
    · rw [same_place]
    · have := strict late at_middle here
      omega
  | case5 left right outside => omega

/-- In weak order the search still finds some item with a key that is there. -/
theorem search_isSome {items : List α} (ordered : items.Pairwise fun left right => key left ≤ key right)
    {target left right index : Nat} {item : α} (here : items[index]? = some item) (same : key item = target)
    (starts : left ≤ index) (before : index < right) (fits : right ≤ items.length) :
    (search key items target left right).isSome := by
  have weak {small large : Nat} {first second : α} (order : small < large) (at_small : items[small]? = some first)
      (at_large : items[large]? = some second) : key first ≤ key second := by
    obtain ⟨inside, rfl⟩ := List.getElem?_eq_some_iff.mp at_small
    obtain ⟨bound, rfl⟩ := List.getElem?_eq_some_iff.mp at_large
    exact List.pairwise_iff_getElem.mp ordered small large inside bound order
  fun_induction search key items target left right with
  | case1 left right between middle missing =>
    have := List.getElem?_eq_none_iff.mp missing
    omega
  | case2 left right between middle found at_middle below inductionHypothesis =>
    apply inductionHypothesis starts _ (by omega)
    obtain early | rfl | late := Nat.lt_trichotomy index middle
    · exact early
    · rw [here] at at_middle
      cases at_middle
      omega
    · have := weak late at_middle here
      omega
  | case3 left right between middle found at_middle notBelow above inductionHypothesis =>
    apply inductionHypothesis _ before fits
    obtain early | rfl | late := Nat.lt_trichotomy index middle
    · have := weak early here at_middle
      omega
    · rw [here] at at_middle
      cases at_middle
      omega
    · exact late
  | case4 left right between middle found at_middle notBelow notAbove => rfl
  | case5 left right outside => omega

/-- What `qsort` promises: the same items in weak order; items with equal keys stand in any order. -/
structure Sorts (qsort : List α → List α) : Prop where
  perm : ∀ items, (qsort items).Perm items
  ordered : ∀ items, (qsort items).Pairwise fun left right => key left ≤ key right

theorem sortBy_sorts : Sorts key (sortBy key) :=
  ⟨sortBy_perm key, sortBy_ordered key⟩

/-- Items with different keys can be sorted in one way only. -/
theorem Sorts.eq_of_perm {qsort : List α → List α} (sorts : Sorts key qsort) {items other : List α}
    (perm : items.Perm other) (strict : other.Pairwise fun left right => key left < key right) : qsort items = other := by
  have distinct : (other.map key).Nodup := List.pairwise_map.mpr (strict.imp Nat.ne_of_lt)
  have same := (sorts.perm items).trans perm
  apply List.Perm.eq_of_pairwise _ (sorts.ordered items) (strict.imp Nat.le_of_lt) same
  intro left right leftListed rightListed less more
  exact List.inj_on_of_nodup_map distinct (same.mem_iff.mp leftListed) rightListed (Nat.le_antisymm less more)

end keys

/-! ## Records -/

/-- A record with an ordinal and an owner, which can be set without touching the rest of it. -/
class OwnedRecord (R : Type*) where
  ordinal : R → Nat
  owner : R → Option Nat
  place : Nat → R → R
  own : Option Nat → R → R
  ordinal_place (position : Nat) (record : R) : ordinal (place position record) = position
  owner_place (position : Nat) (record : R) : owner (place position record) = owner record
  place_place (first second : Nat) (record : R) : place second (place first record) = place second record
  ordinal_own (address : Option Nat) (record : R) : ordinal (own address record) = ordinal record
  owner_own (address : Option Nat) (record : R) : owner (own address record) = address
  own_owner (record : R) : own (owner record) record = record
  own_own (first second : Option Nat) (record : R) : own second (own first record) = own second record

attribute [simp] OwnedRecord.ordinal_place OwnedRecord.owner_place OwnedRecord.place_place OwnedRecord.ordinal_own
  OwnedRecord.owner_own OwnedRecord.own_owner OwnedRecord.own_own

open OwnedRecord

section records

variable {R : Type*} [OwnedRecord R] {unplaced : Nat}

/-- The address of an owner, which is zero for none. -/
def address (record : R) : Nat :=
  (owner record).getD 0

@[simp] theorem address_place (position : Nat) (record : R) : address (place position record) = address record := by
  simp [address]

@[simp] theorem address_own (node : Nat) (record : R) : address (own (some node) record) = node := by
  simp [address]

/-! ## Binding by ordinals -/

/-- The owners of the records from `records` on for the nodes visited from an ordinal on: the
records that the visit has passed, and the ones that it has not reached. -/
def bindRecords : Nat → List Nat → List R → List R × List R
  | _, [], records => ([], records)
  | ordinal, node :: visited, records =>
    let passed := records.takeWhile fun record => OwnedRecord.ordinal record < ordinal
    match records.dropWhile fun record => OwnedRecord.ordinal record < ordinal with
    | [] => (passed, [])
    | record :: rest =>
      if OwnedRecord.ordinal record = ordinal then
        let (bound, missing) := bindRecords (ordinal + 1) visited rest
        (passed ++ own (some node) record :: bound, missing)
      else
        let (bound, missing) := bindRecords (ordinal + 1) visited (record :: rest)
        (passed ++ bound, missing)

/-- The owner that a visit from an ordinal on gives to a record. -/
def visitedOwner (base : Nat) (visited : List Nat) (record : R) : R :=
  own visited[ordinal record - base]? record

theorem visitedOwner_succ {base node : Nat} {visited : List Nat} {record : R} (later : base < ordinal record) :
    visitedOwner base (node :: visited) record = visitedOwner (base + 1) visited record := by
  have split : ordinal record - base = ordinal record - (base + 1) + 1 := by omega
  simp only [visitedOwner, split, List.getElem?_cons_succ]

theorem visitedOwner_map_succ {base node : Nat} {visited : List Nat} {records : List R}
    (later : ∀ record ∈ records, base < ordinal record) :
    records.map (visitedOwner base (node :: visited)) = records.map (visitedOwner (base + 1) visited) :=
  List.map_congr_left fun record listed => visitedOwner_succ (later record listed)

/-- A visit binds the records in strict order from its base on that it reaches. -/
theorem bindRecords_eq {base : Nat} {visited : List Nat} {records : List R}
    (sorted : records.Pairwise fun left right => ordinal left < ordinal right)
    (starts : ∀ record ∈ records, base ≤ ordinal record) :
    bindRecords base visited records =
      ((records.takeWhile fun record => ordinal record < base + visited.length).map (visitedOwner base visited),
        records.dropWhile fun record => ordinal record < base + visited.length) := by
  have none_below {bound : Nat} {rest : List R} (from_bound : ∀ record ∈ rest, bound ≤ ordinal record) :
      (rest.takeWhile fun record => ordinal record < bound) = [] ∧
        (rest.dropWhile fun record => ordinal record < bound) = rest := by
    cases rest with
    | nil => simp
    | cons record rest =>
      have := from_bound record List.mem_cons_self
      simp [Nat.not_lt.mpr this]
  induction visited generalizing base records with
  | nil =>
    obtain ⟨none_taken, all_left⟩ := none_below starts
    simp only [bindRecords, List.length_nil, Nat.add_zero, none_taken, all_left, List.map_nil]
  | cons node visited inductionHypothesis =>
    obtain ⟨none_taken, all_left⟩ := none_below starts
    simp only [bindRecords, none_taken, all_left, List.nil_append]
    have shift : base + (node :: visited).length = base + 1 + visited.length := by
      simp only [List.length_cons]
      omega
    rw [shift]
    cases records with
    | nil => simp
    | cons record rest =>
      obtain ⟨first, sorted'⟩ := List.pairwise_cons.mp sorted
      have lower := starts record List.mem_cons_self
      have later (other : R) (listed : other ∈ rest) : base < ordinal other := lower.trans_lt (first other listed)
      by_cases same : ordinal record = base
      · have taken : ordinal record < base + 1 + visited.length := by omega
        simp only [same, if_true, inductionHypothesis sorted' later]
        rw [List.takeWhile_cons_of_pos (by simpa using taken), List.dropWhile_cons_of_pos (by simpa using taken),
          List.map_cons, visitedOwner_map_succ fun other listed => later other ((List.takeWhile_prefix _).subset listed)]
        simp [visitedOwner, same]
      · have all_later (other : R) (listed : other ∈ record :: rest) : base < ordinal other := by
          obtain rfl | listed := List.mem_cons.mp listed
          · omega
          · exact later other listed
        simp only [same, if_false, inductionHypothesis sorted all_later]
        rw [visitedOwner_map_succ fun other listed => all_later other ((List.takeWhile_prefix _).subset listed)]

/-- The binding of a range of records to the nodes visited, which fails when one is not reached. -/
def bindRoots {E : Type*} (error : E) (base : Nat) (visited : List Nat) (records : List R) : Except E (List R) :=
  if records.isEmpty then .ok records
  else
    match bindRecords base visited records with
    | (bound, []) => .ok bound
    | (_, _ :: _) => .error error

theorem bindRoots_eq_ok_iff {E : Type*} {error : E} {base : Nat} {visited : List Nat} {records bound : List R}
    (sorted : records.Pairwise fun left right => ordinal left < ordinal right)
    (starts : ∀ record ∈ records, base ≤ ordinal record) :
    bindRoots error base visited records = .ok bound ↔
      (∀ record ∈ records, ordinal record < base + visited.length) ∧ bound = records.map (visitedOwner base visited) := by
  rw [bindRoots]
  cases records with
  | nil => simp [eq_comm]
  | cons record rest =>
    simp only [List.isEmpty_cons, Bool.false_eq_true, if_false, bindRecords_eq sorted starts]
    by_cases reached : ∀ other ∈ record :: rest, ordinal other < base + visited.length
    · rw [List.dropWhile_eq_nil_iff.mpr (by simpa using reached), List.takeWhile_eq_self_iff.mpr (by simpa using reached)]
      simp only [Except.ok.injEq]
      exact ⟨fun same => ⟨reached, same.symm⟩, fun bound_eq => bound_eq.2.symm⟩
    · split
      next bound' all_bound =>
        simp only [Prod.mk.injEq, List.dropWhile_eq_nil_iff, decide_eq_true_eq] at all_bound
        exact absurd all_bound.2 reached
      next => exact ⟨(nomatch ·), fun bound_eq => absurd bound_eq.1 reached⟩

/-! ## What records follow -/

/-- The records own exactly the recorded nodes, each one of its own. -/
structure Owned (recorded : Set Nat) (items : List R) : Prop where
  distinct : items.Pairwise fun left right => address left ≠ address right
  owned : ∀ record ∈ items, owner record = some (address record)
  recorded_iff : ∀ node, node ∈ recorded ↔ ∃ record ∈ items, address record = node

/-- The records are in strict order of their ordinals, which are the places of their owners in a visit. -/
structure Placed (visited : List Nat) (items : List R) : Prop where
  sorted : items.Pairwise fun left right => ordinal left < ordinal right
  visits : ∀ record ∈ items, visited[ordinal record]? = owner record
  owned : ∀ record ∈ items, owner record = some (address record)

theorem Placed.visited_address {visited : List Nat} {items : List R} (placed : Placed visited items) {record : R}
    (listed : record ∈ items) : visited[ordinal record]? = some (address record) := by
  rw [placed.visits record listed, placed.owned record listed]

/-- Records at places of a visit without repetitions own different nodes. -/
theorem Placed.to_owned {visited : List Nat} {items : List R} (placed : Placed visited items) (nodup : visited.Nodup) :
    Owned {node | ∃ record ∈ items, address record = node} items where
  distinct := by
    refine placed.sorted.imp_of_mem fun {left right} listed_left listed_right order same => ?_
    have at_left := placed.visited_address listed_left
    have at_right := placed.visited_address listed_right
    rw [← same, ← at_left] at at_right
    obtain ⟨inside, -⟩ := List.getElem?_eq_some_iff.mp at_left
    have := (List.getElem?_inj inside nodup).mp at_right.symm
    omega
  owned := placed.owned
  recorded_iff _ := Iff.rfl

/-! ## Reading the ordinals off a visit -/

/-- The place of the record that owns a node, which is searched among the records in order of their owners. -/
def placeOwner (items : List R) (node position : Nat) : List R :=
  match search address items node 0 items.length with
  | some index => items.modify index (place position)
  | none => items

/-- The records after a visit: the ones it does not reach, whose ordinals stay unplaced, are dropped and
the others put in order. -/
def reconcileItems (unplaced : Nat) (visited : List Nat) (items : List R) : List R :=
  let sorted := (sortBy address items).map (place unplaced)
  let placed := visited.zipIdx.foldl (fun items (node, position) => placeOwner items node position) sorted
  sortBy ordinal (placed.filter fun record => ordinal record ≠ unplaced)

def placeIf (node position : Nat) (record : R) : R :=
  if address record = node then place position record else record

@[simp] theorem address_placeIf (node position : Nat) (record : R) :
  address (placeIf node position record) = address record := by
  rw [placeIf]
  split
  · exact address_place position record
  · rfl

theorem placeOwner_eq {items : List R} (sorted : items.Pairwise fun left right => address left < address right)
    (node position : Nat) : placeOwner items node position = items.map (placeIf node position) := by
  apply List.ext_getElem?
  intro index
  rw [placeOwner, List.getElem?_map]
  split
  next found here =>
    obtain ⟨record, at_found, same⟩ := search_some address here
    rw [List.getElem?_modify]
    cases at_index : items[index]? with
    | none => simp
    | some other =>
      have only : address other = node ↔ found = index := by
        constructor
        · intro same'
          obtain ⟨inside, -⟩ := List.getElem?_eq_some_iff.mp at_index
          rw [search_complete address sorted at_index same' (Nat.zero_le _) inside le_rfl] at here
          exact (Option.some.inj here).symm
        · rintro rfl
          rw [at_index] at at_found
          cases at_found
          exact same
      by_cases equal : found = index
      · simp [placeIf, only.mpr equal, equal]
      · simp [placeIf, mt only.mp equal, equal]
  next missing =>
    cases at_index : items[index]? with
    | none => rfl
    | some other =>
      have apart : address other ≠ node := by
        intro same
        obtain ⟨inside, -⟩ := List.getElem?_eq_some_iff.mp at_index
        rw [search_complete address sorted at_index same (Nat.zero_le _) inside le_rfl] at missing
        cases missing
      simp [placeIf, apart]

/-- The visit from a position on gives each record the position of its owner. -/
def placeFrom (visited : List Nat) (position : Nat) (record : R) : R :=
  (visited.zipIdx position).foldl (fun record (node, position) => placeIf node position record) record

theorem foldl_placeOwner {visited : List Nat} {position : Nat} {items : List R}
    (sorted : items.Pairwise fun left right => address left < address right) :
    (visited.zipIdx position).foldl (fun items (node, position) => placeOwner items node position) items =
      items.map (placeFrom visited position) := by
  induction visited generalizing position items with
  | nil =>
    simp only [List.zipIdx_nil, List.foldl_nil]
    exact (List.map_id' items).symm
  | cons node visited inductionHypothesis =>
    simp only [List.zipIdx_cons, List.foldl_cons, placeOwner_eq sorted]
    rw [inductionHypothesis (by simpa [List.pairwise_map] using sorted), List.map_map]
    rfl

theorem placeFrom_of_not_mem {visited : List Nat} {position : Nat} {record : R} (missing : address record ∉ visited) :
    placeFrom visited position record = record := by
  induction visited generalizing position with
  | nil => rfl
  | cons node visited inductionHypothesis =>
    obtain ⟨apart, rest⟩ := not_or.mp (mt List.mem_cons.mpr missing)
    have skipped : placeIf node position record = record := by simp [placeIf, apart]
    simp only [placeFrom, List.zipIdx_cons, List.foldl_cons, skipped]
    exact inductionHypothesis rest

theorem placeFrom_of_getElem? {visited : List Nat} (nodup : visited.Nodup) {position index : Nat} {record : R}
    (here : visited[index]? = some (address record)) : placeFrom visited position record = place (position + index)
    record := by
  induction visited generalizing position index record with
  | nil => cases here
  | cons node visited inductionHypothesis =>
    obtain ⟨fresh, nodup'⟩ := List.nodup_cons.mp nodup
    simp only [placeFrom, List.zipIdx_cons, List.foldl_cons]
    cases index with
    | zero =>
      obtain rfl := Option.some.inj here
      have placed : placeIf (address record) position record = place position record := by simp [placeIf]
      rw [placed]
      exact placeFrom_of_not_mem (by simpa using fresh)
    | succ index =>
      have skipped : placeIf node position record = record := by
        rw [placeIf, if_neg]
        exact fun same => fresh (same ▸ List.mem_of_getElem? here)
      rw [skipped, Nat.add_comm index 1, ← Nat.add_assoc]
      exact inductionHypothesis nodup' here

section reconcile

variable {visited : List Nat} {items : List R}

theorem reconcileItems_eq (distinct : items.Pairwise fun left right => address left ≠ address right) :
    reconcileItems unplaced visited items =
      sortBy ordinal ((((sortBy address items).map (place unplaced)).map (placeFrom visited 0)).filter
        fun record => ordinal record ≠ unplaced) := by
  have sorted : ((sortBy address items).map (place unplaced)).Pairwise fun left right => address left < address right := by
    simpa [List.pairwise_map] using sortBy_strict address distinct
  rw [reconcileItems, foldl_placeOwner sorted]

/-- Records in strict order of their ordinals that rearrange what is placed are the reconciled ones. -/
theorem reconcileItems_of_perm {placed : List R} (distinct : items.Pairwise fun left right => address left ≠ address right)
    (perm : (((items.map (place unplaced)).map (placeFrom visited 0)).filter
      fun record => ordinal record ≠ unplaced).Perm placed)
    (strict : placed.Pairwise fun left right => ordinal left < ordinal right) :
    reconcileItems unplaced visited items = placed := by
  rw [reconcileItems_eq distinct]
  have byOwner := (((sortBy_perm address items).map (place unplaced)).map (placeFrom visited 0)).filter
    fun record => decide (ordinal record ≠ unplaced)
  exact sortBy_eq ordinal (byOwner.trans perm) strict

/-- The records that stay are the ones whose owners are visited, each at the place of its owner. -/
theorem mem_reconcileItems (distinct : items.Pairwise fun left right => address left ≠ address right)
    (nodup : visited.Nodup) (fits : visited.length ≤ unplaced) {record : R} :
    record ∈ reconcileItems unplaced visited items ↔
      ∃ before ∈ items, ∃ index, visited[index]? = some (address before) ∧ record = place index before := by
  rw [reconcileItems_eq distinct]
  simp only [mem_sortBy, List.mem_filter, List.map_map, List.mem_map, Function.comp_apply, decide_not,
    Bool.not_eq_true', decide_eq_false_iff_not]
  constructor
  · rintro ⟨⟨before, listed, rfl⟩, kept⟩
    refine ⟨before, listed, ?_⟩
    by_cases reached : address before ∈ visited
    · obtain ⟨index, here⟩ := List.mem_iff_getElem?.mp reached
      refine ⟨index, here, ?_⟩
      rw [placeFrom_of_getElem? nodup (by simpa using here), place_place, Nat.zero_add]
    · rw [placeFrom_of_not_mem (by simpa using reached), ordinal_place] at kept
      exact absurd rfl kept
  · rintro ⟨before, listed, index, here, rfl⟩
    obtain ⟨inside, -⟩ := List.getElem?_eq_some_iff.mp here
    refine ⟨⟨before, listed, ?_⟩, ?_⟩
    · rw [placeFrom_of_getElem? nodup (by simpa using here), place_place, Nat.zero_add]
    · rw [ordinal_place]
      omega

/-- After a visit the records are placed, and they own the recorded nodes that were visited. -/
theorem reconcileItems_placed {recorded : Set Nat} (owned : Owned recorded items) (nodup : visited.Nodup)
    (fits : visited.length ≤ unplaced) :
    Placed visited (reconcileItems unplaced visited items) ∧
      Owned (recorded ∩ {node | node ∈ visited}) (reconcileItems unplaced visited items) := by
  have members {record : R} := @mem_reconcileItems R _ unplaced visited items owned.distinct nodup fits record
  have owns (record : R) (listed : record ∈ reconcileItems unplaced visited items) :
    owner record = some (address record) := by
    obtain ⟨before, listed', index, here, rfl⟩ := members.mp listed
    rw [owner_place, address_place]
    exact owned.owned before listed'
  have visits (record : R) (listed : record ∈ reconcileItems unplaced visited items) :
    visited[ordinal record]? = owner record := by
    obtain ⟨before, listed', index, here, rfl⟩ := members.mp listed
    rw [ordinal_place, owner_place, owned.owned before listed', here]
  have distinct : (reconcileItems unplaced visited items).Pairwise fun left right => address left ≠ address right := by
    rw [reconcileItems_eq owned.distinct]
    apply (sortBy_perm ordinal _).symm.pairwise _ fun {_ _} => Ne.symm
    apply List.Pairwise.filter
    have apart := (sortBy_perm address items).symm.pairwise owned.distinct fun {_ _} => Ne.symm
    rw [List.map_map, List.pairwise_map]
    have same_address (record : R) : address (placeFrom visited 0 (place unplaced record)) = address record := by
      by_cases reached : address record ∈ visited
      · obtain ⟨index, here⟩ := List.mem_iff_getElem?.mp reached
        rw [placeFrom_of_getElem? nodup (by simpa using here), address_place, address_place]
      · rw [placeFrom_of_not_mem (by simpa using reached), address_place]
    simpa only [Function.comp_apply, same_address] using apart
  have sorted : (reconcileItems unplaced visited items).Pairwise fun left right => ordinal left < ordinal right := by
    have ordered : (reconcileItems unplaced visited items).Pairwise fun left right => ordinal left ≤ ordinal right :=
      sortBy_ordered ordinal _
    refine (ordered.and distinct).imp_of_mem fun {left right} listed_left listed_right both => ?_
    apply Nat.lt_of_le_of_ne both.1
    intro same
    have at_left := visits left listed_left
    rw [same, visits right listed_right, owns left listed_left, owns right listed_right] at at_left
    exact both.2 (Option.some.inj at_left).symm
  refine ⟨⟨sorted, visits, owns⟩, distinct, owns, fun node => ?_⟩
  constructor
  · rintro ⟨isRecorded, reached⟩
    obtain ⟨before, listed, rfl⟩ := (owned.recorded_iff node).mp isRecorded
    obtain ⟨index, here⟩ := List.mem_iff_getElem?.mp reached
    exact ⟨place index before, members.mpr ⟨before, listed, index, here, rfl⟩, address_place index before⟩
  · rintro ⟨record, listed, rfl⟩
    obtain ⟨before, listed', index, here, rfl⟩ := members.mp listed
    rw [address_place]
    exact ⟨(owned.recorded_iff _).mpr ⟨before, listed', rfl⟩, List.mem_of_getElem? here⟩

end reconcile

/-! ## Cloning the owners -/

/-- The records with one more for each clone of an owner; the owners are searched among the first
`count` records, which are in order of their owners. -/
def cloneOwner (unplaced count : Nat) (items : List R) (source clone : Nat) : List R :=
  match (search address (items.take count) source 0 count).bind fun index => items[index]? with
  | some record => items ++ [own (some clone) (place unplaced record)]
  | none => items

def cloneItems (unplaced : Nat) (pairs : List (Nat × Nat)) (items : List R) : List R :=
  pairs.foldl (fun cloned (source, clone) => cloneOwner unplaced items.length cloned source clone) (sortBy address items)

section clone

variable {items : List R} {pairs : List (Nat × Nat)}

/-- The record of a clone, when its source has one. -/
def cloneRecord (unplaced : Nat) (items : List R) (source clone : Nat) : Option R :=
  ((search address items source 0 items.length).bind fun index => items[index]?).map
    fun record => own (some clone) (place unplaced record)

theorem cloneRecord_eq_some_iff (sorted : items.Pairwise fun left right => address left < address right)
    {source clone : Nat} {record : R} :
    cloneRecord unplaced items source clone = some record ↔
      ∃ before ∈ items, address before = source ∧ record = own (some clone) (place unplaced before) := by
  simp only [cloneRecord, Option.map_eq_some_iff, Option.bind_eq_some_iff]
  constructor
  · rintro ⟨before, ⟨index, found, here⟩, rfl⟩
    obtain ⟨other, there, same⟩ := search_some address found
    rw [here] at there
    cases there
    exact ⟨before, List.mem_of_getElem? here, same, rfl⟩
  · rintro ⟨before, listed, same, rfl⟩
    obtain ⟨index, here⟩ := List.mem_iff_getElem?.mp listed
    obtain ⟨inside, -⟩ := List.getElem?_eq_some_iff.mp here
    exact ⟨before, ⟨index, search_complete address sorted here same (Nat.zero_le _) inside le_rfl, here⟩, rfl⟩

/-- What a clone appends leaves the searched records alone. -/
theorem cloneOwner_append (sorted extra : List R) (source clone : Nat) :
    cloneOwner unplaced sorted.length (sorted ++ extra) source clone =
      sorted ++ (extra ++ (cloneRecord unplaced sorted source clone).toList) := by
  have same_record : ((search address sorted source 0 sorted.length).bind fun index => (sorted ++ extra)[index]?) =
      (search address sorted source 0 sorted.length).bind fun index => sorted[index]? := by
    cases found : search address sorted source 0 sorted.length with
    | none => rfl
    | some index =>
      obtain ⟨record, here, -⟩ := search_some address found
      obtain ⟨inside, -⟩ := List.getElem?_eq_some_iff.mp here
      simp only [Option.bind_some]
      exact List.getElem?_append_left inside
  rw [cloneOwner, List.take_left', same_record, cloneRecord]
  · cases (search address sorted source 0 sorted.length).bind fun index => sorted[index]? <;> simp
  · rfl

theorem cloneItems_eq : cloneItems unplaced pairs items =
    sortBy address items ++ pairs.filterMap fun (source, clone) =>
      cloneRecord unplaced (sortBy address items) source clone := by
  have run (sorted extra : List R) :
      pairs.foldl (fun cloned (source, clone) => cloneOwner unplaced sorted.length cloned source clone) (sorted ++ extra) =
        sorted ++ (extra ++ pairs.filterMap fun (source, clone) => cloneRecord unplaced sorted source clone) := by
    induction pairs generalizing extra with
    | nil => simp
    | cons pair pairs inductionHypothesis =>
      obtain ⟨source, clone⟩ := pair
      simp only [List.foldl_cons, cloneOwner_append, inductionHypothesis]
      cases made : cloneRecord unplaced sorted source clone <;> simp [made]
  have whole := run (sortBy address items) []
  rw [List.append_nil, List.nil_append, (sortBy_perm address items).length_eq] at whole
  exact whole

theorem cloneItems_nil : cloneItems unplaced pairs ([] : List R) = [] := by
  have none_made (source clone : Nat) : cloneRecord unplaced ([] : List R) source clone = none := by
    simp [cloneRecord]
  have nothing : sortBy address ([] : List R) = [] := List.mergeSort_nil
  simp [cloneItems_eq, nothing, none_made]

/-- Cloning adds the clones of the recorded nodes to them. -/
theorem cloneItems_owned {recorded : Set Nat} (owned : Owned recorded items) (nodup : (pairs.map Prod.snd).Nodup)
    (fresh : ∀ pair ∈ pairs, pair.2 ∉ recorded) :
    Owned (recorded ∪ {clone | ∃ source ∈ recorded, (source, clone) ∈ pairs}) (cloneItems unplaced pairs items) := by
  have sorted := sortBy_strict address owned.distinct
  have made_iff {source clone : Nat} {record : R} := @cloneRecord_eq_some_iff R _ unplaced _ sorted source clone record
  rw [cloneItems_eq]
  refine ⟨?_, ?_, ?_⟩
  · rw [List.pairwise_append]
    refine ⟨(sortBy_perm address items).symm.pairwise owned.distinct fun {_ _} => Ne.symm, ?_, ?_⟩
    · rw [List.pairwise_filterMap]
      apply (List.pairwise_map.mp nodup).imp
      intro first second apart left made_left right made_right
      obtain ⟨_, -, -, rfl⟩ := made_iff.mp made_left
      obtain ⟨_, -, -, rfl⟩ := made_iff.mp made_right
      simpa using apart
    · intro left listed right made
      obtain ⟨pair, paired, made⟩ := List.mem_filterMap.mp made
      obtain ⟨_, -, -, rfl⟩ := made_iff.mp made
      rw [address_own]
      intro same
      exact fresh pair paired ((owned.recorded_iff _).mpr ⟨left, (mem_sortBy address).mp listed, same⟩)
  · intro record listed
    obtain listed | made := List.mem_append.mp listed
    · exact owned.owned record ((mem_sortBy address).mp listed)
    · obtain ⟨pair, -, made⟩ := List.mem_filterMap.mp made
      obtain ⟨_, -, -, rfl⟩ := made_iff.mp made
      rw [owner_own, address_own]
  · intro node
    simp only [Set.mem_union, Set.mem_ofPred_eq, List.mem_append, mem_sortBy, List.mem_filterMap]
    constructor
    · rintro (isRecorded | ⟨source, isRecorded, paired⟩)
      · obtain ⟨record, listed, same⟩ := (owned.recorded_iff node).mp isRecorded
        exact ⟨record, Or.inl listed, same⟩
      · obtain ⟨record, listed, same⟩ := (owned.recorded_iff source).mp isRecorded
        refine ⟨own (some node) (place unplaced record), Or.inr ⟨_, paired, ?_⟩, address_own _ _⟩
        exact made_iff.mpr ⟨record, (mem_sortBy address).mpr listed, same, rfl⟩
    · rintro ⟨record, listed | ⟨pair, paired, made⟩, rfl⟩
      · exact Or.inl ((owned.recorded_iff _).mpr ⟨record, listed, rfl⟩)
      · obtain ⟨before, listed, same, rfl⟩ := made_iff.mp made
        rw [address_own]
        exact Or.inr ⟨pair.1, (owned.recorded_iff _).mpr ⟨before, (mem_sortBy address).mp listed, same⟩, paired⟩

end clone

/-! ## Binding a fragment -/

/-- The placed records stay as they are when a visit binds them again. -/
theorem Placed.map_visitedOwner {visited : List Nat} {items : List R} (placed : Placed visited items) :
    items.map (visitedOwner 0 visited) = items := by
  conv_rhs => rw [← List.map_id items]
  apply List.map_congr_left
  intro record listed
  rw [visitedOwner, Nat.sub_zero, placed.visits record listed, own_owner, id]

theorem Placed.ordinal_lt {visited : List Nat} {items : List R} (placed : Placed visited items) {record : R}
    (listed : record ∈ items) : ordinal record < visited.length :=
  (List.getElem?_eq_some_iff.mp (placed.visited_address listed)).1

/-- Records whose ordinals a visit reaches are placed in it once it has bound them. -/
theorem placed_of_visited {visited : List Nat} {items : List R}
    (sorted : items.Pairwise fun left right => ordinal left < ordinal right)
    (inside : ∀ record ∈ items, ordinal record < visited.length) : Placed visited (items.map (visitedOwner 0 visited)) where
  sorted := by
    simpa [List.pairwise_map, visitedOwner] using sorted
  visits := by
    simp [visitedOwner]
  owned := by
    simp only [List.mem_map]
    rintro _ ⟨record, listed, rfl⟩
    rw [visitedOwner, Nat.sub_zero, List.getElem?_eq_getElem (inside record listed), owner_own, address_own]

/-- Bound again to the visit they are placed in, records do not change. -/
theorem Placed.bindRoots_eq {visited : List Nat} {items : List R} (placed : Placed visited items) {E : Type*} (error : E) :
    bindRoots error 0 visited items = .ok items := by
  rw [bindRoots_eq_ok_iff placed.sorted fun _ _ => Nat.zero_le _]
  refine ⟨fun record listed => ?_, placed.map_visitedOwner.symm⟩
  rw [Nat.zero_add]
  exact placed.ordinal_lt listed

/-- Records bound from a base on are placed in the visit once the base is taken off. -/
theorem bound_owned {base : Nat} {visited : List Nat} {records : List R}
    (sorted : records.Pairwise fun left right => ordinal left < ordinal right) (nodup : visited.Nodup)
    (starts : ∀ record ∈ records, base ≤ ordinal record) (inside :
    ∀ record ∈ records, ordinal record < base + visited.length) :
    Owned {node | ∃ record ∈ records, visited[ordinal record - base]? = some node}
      (records.map (visitedOwner base visited)) := by
  have at_place (record : R) (listed : record ∈ records) :
      visited[ordinal record - base]? = some (address (visitedOwner base visited record)) := by
    have lower := starts record listed
    have upper := inside record listed
    rw [visitedOwner, List.getElem?_eq_getElem (by omega), address_own]
  refine ⟨?_, ?_, ?_⟩
  · rw [List.pairwise_map]
    refine sorted.imp_of_mem fun {left right} listed_left listed_right order same => ?_
    have at_left := at_place left listed_left
    rw [same, ← at_place right listed_right] at at_left
    have lower := starts left listed_left
    have upper := inside left listed_left
    have := (List.getElem?_inj (by omega) nodup).mp at_left
    omega
  · simp only [List.mem_map]
    rintro _ ⟨record, listed, rfl⟩
    rw [← at_place record listed, visitedOwner, owner_own]
  · intro node
    simp only [Set.mem_ofPred_eq, List.mem_map]
    constructor
    · rintro ⟨record, listed, here⟩
      rw [at_place record listed] at here
      exact ⟨_, ⟨record, listed, rfl⟩, Option.some.inj here⟩
    · rintro ⟨_, ⟨record, listed, rfl⟩, rfl⟩
      exact ⟨record, listed, at_place record listed⟩

theorem Owned.append {first second : Set Nat} {left right : List R} (owned_left : Owned first left)
    (owned_right : Owned second right) (disjoint : ∀ node ∈ first, node ∉ second) :
    Owned (first ∪ second) (left ++ right) where
  distinct := by
    refine List.pairwise_append.mpr ⟨owned_left.distinct, owned_right.distinct, fun record listed other listed' same => ?_⟩
    apply disjoint (address record) ((owned_left.recorded_iff _).mpr ⟨record, listed, rfl⟩)
    exact (owned_right.recorded_iff _).mpr ⟨other, listed', same.symm⟩
  owned record listed := (List.mem_append.mp listed).elim (owned_left.owned record) (owned_right.owned record)
  recorded_iff node := by
    simp only [Set.mem_union, owned_left.recorded_iff, owned_right.recorded_iff, List.mem_append, or_and_right, exists_or]

end records

end SqlParser.Library.OwnedRecords
