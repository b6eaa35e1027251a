import SqlParser.Core.SurfaceRecords

/-! # Records through a history of edits

An editor deletes, moves, inserts and clones subtrees of a bound AST, and reconciles the
records with the AST after each edit. The state keeps, beside the AST and the records, which
nodes are recorded.
-/

namespace SqlParser.Core

open SqlParser.Library.LowerBound SqlParser.Library.OwnedRecords SurfaceRecords

/-! ## Live trees -/

/-- Messages that are live together have different addresses, and none is NULL. -/
structure Live (addresses : List Nat) : Prop where
  distinct : addresses.Nodup
  pointers : ∀ address ∈ addresses, 0 < address ∧ address ≤ sizeMax

/-- A parse result whose messages are live together. -/
structure Ast where
  result : ParseResult
  live : Live result.message.addresses

def Ast.addresses (ast : Ast) : List Nat :=
  ast.result.message.addresses

theorem Live.length_le {addresses nodes : List Nat} (live : Live addresses) (nodup : nodes.Nodup) (inside : nodes ⊆ addresses) :
    nodes.length ≤ sizeMax := by
  have bounded : nodes.toFinset ⊆ Finset.Icc 1 sizeMax := by
    intro node listed
    have pointer := live.pointers node (inside (List.mem_toFinset.mp listed))
    exact Finset.mem_Icc.mpr pointer
  have card := Finset.card_le_card bounded
  rwa [List.toFinset_card_of_nodup nodup, Nat.card_Icc, Nat.add_sub_cancel] at card

section runs

variable {S R : Type} [OwnedRecord R] [SurfaceRecords S R]

/-- The nodes of the AST that the records of `S` are about, in traversal order. -/
def Ast.visited (S : Type) {R : Type} [OwnedRecord R] [SurfaceRecords S R] (ast : Ast) : List Nat :=
  SurfaceRecords.visited S (surfaceVisit ast.result)

theorem Ast.visited_eq (ast : Ast) : ast.visited S = counted (kind S) (visitRoots [ast.result.message]) := by
  rw [Ast.visited, SurfaceRecords.visited, visitRoots_message]

theorem addressesOf_singleton (message : Message) : addressesOf [message] = message.addresses := by
  simp [addressesOf, messagesOf, Message.addresses]

theorem Ast.visited_nodup (ast : Ast) : (ast.visited S).Nodup := by
  rw [ast.visited_eq]
  apply counted_nodup
  rw [addressesOf_singleton]
  exact ast.live.distinct

theorem Ast.visited_subset (ast : Ast) : ast.visited S ⊆ ast.addresses := by
  rw [ast.visited_eq, Ast.addresses, ← addressesOf_singleton]
  exact counted_subset

theorem Ast.visited_length_le (ast : Ast) : (ast.visited S).length ≤ sizeMax :=
  ast.live.length_le ast.visited_nodup ast.visited_subset

/-! ## Edits -/

/-- The AST and its records, and the nodes that are recorded. -/
structure EditState (S : Type) where
  ast : Ast
  records : S
  recorded : Set Nat

/-- The state behind an edit, whose records are reconciled with the new AST. -/
def EditState.reconciled (ast : Ast) (records : S) (recorded : Set Nat) : EditState S where
  ast := ast
  records := reconcile records (some ast.result)
  recorded := recorded ∩ {node | node ∈ ast.visited S}

/-- A parsed fragment: its roots are new, and its records are at ordinals of its own nodes, which
are counted on from the count of the state. -/
structure Fragment (before : EditState S) where
  roots : List Message
  added : List R
  count : Nat
  live : Live (before.ast.addresses ++ addressesOf roots)
  unowned : ∀ record ∈ added, OwnedRecord.owner record = none
  sorted : added.Pairwise fun left right => OwnedRecord.ordinal left < OwnedRecord.ordinal right
  starts : ∀ record ∈ added, SurfaceRecords.count before.records ≤ OwnedRecord.ordinal record
  inside : ∀ record ∈ added, OwnedRecord.ordinal record <
    SurfaceRecords.count before.records + (SurfaceRecords.visited S (visitRoots roots)).length

namespace Fragment

variable {before : EditState S} (fragment : Fragment before)

/-- The records with those of the fragment behind a checkpoint. -/
def appended : S :=
  setCount (fragment.added.foldl appendRecord (beginFragment before.records)) fragment.count

def bind : Except Error S :=
  bindFragment fragment.appended (some before.ast.result) fragment.roots

/-- The nodes of the fragment that its records are about. -/
def recorded : Set Nat :=
  {node | ∃ record ∈ fragment.added, (SurfaceRecords.visited S (visitRoots fragment.roots))[
    OwnedRecord.ordinal record - SurfaceRecords.count before.records]? = some node}

end Fragment

/-- A deep copy of a part of the AST. -/
structure CloneOf (before : EditState S) where
  source : Message
  fresh : Nat → Nat
  part : source ∈ before.ast.result.message.messages
  live : Live (before.ast.addresses ++ (source.copy fresh).addresses)

namespace CloneOf

variable {before : EditState S} (clone : CloneOf before)

def cloneOwners : Except Error S :=
  SurfaceRecords.cloneOwners before.records (some clone.source) (some (clone.source.copy clone.fresh))

/-- The clones of recorded nodes. -/
def recorded : Set Nat :=
  {node | ∃ source ∈ before.recorded, source ∈ clone.source.addresses ∧ clone.fresh source = node}

end CloneOf

/-- An edit of the AST and the reconciliation behind it. -/
inductive EditStep : EditState S → EditState S → Prop where
  /-- Subtrees are deleted or moved: no message is new. -/
  | rearrange (before : EditState S) (ast : Ast) (kept : ast.addresses ⊆ before.ast.addresses) :
    EditStep before (.reconciled ast before.records before.recorded)
  /-- A fragment is bound and inserted. -/
  | insertFragment (before : EditState S) (fragment : Fragment before) (bound : S) (binds : fragment.bind = .ok bound)
      (ast : Ast) (kept : ast.addresses ⊆ before.ast.addresses ++ addressesOf fragment.roots) :
    EditStep before (.reconciled ast bound (before.recorded ∪ fragment.recorded))
  /-- A subtree is cloned and the clone inserted. -/
  | insertClone (before : EditState S) (clone : CloneOf before) (cloned : S) (clones : clone.cloneOwners = .ok cloned)
      (ast : Ast) (kept : ast.addresses ⊆ before.ast.addresses ++ (clone.source.copy clone.fresh).addresses) :
    EditStep before (.reconciled ast cloned (before.recorded ∪ clone.recorded))

/-- The state behind the first binding of records in strict order of their ordinals. -/
inductive Bound : EditState S → Prop where
  | intro (ast : Ast) (records bound : S)
      (sorted : (items records).Pairwise fun left right => OwnedRecord.ordinal left < OwnedRecord.ordinal right)
      (binds : bindAst records (some ast.result) = .ok bound) :
    Bound ⟨ast, bound, {node | ∃ record ∈ items bound, OwnedRecord.owner record = some node}⟩

/-- A history of edits from a bound state. -/
def History (initial state : EditState S) : Prop :=
  Bound initial ∧ Relation.ReflTransGen EditStep initial state

/-! ## What a history keeps -/

/-- The records are placed in the traversal of the AST and own the recorded nodes. -/
structure Tracks (state : EditState S) : Prop where
  placed : Placed (state.ast.visited S) (items state.records)
  owned : Owned state.recorded (items state.records)

theorem Tracks.recorded_visited {state : EditState S} (tracks : Tracks state) {node : Nat} (isRecorded : node ∈ state.recorded) :
    node ∈ state.ast.visited S := by
  obtain ⟨record, listed, rfl⟩ := (tracks.owned.recorded_iff node).mp isRecorded
  exact List.mem_of_getElem? (tracks.placed.visited_address listed)

theorem Tracks.recorded_address {state : EditState S} (tracks : Tracks state) {node : Nat} (isRecorded : node ∈ state.recorded) :
    node ∈ state.ast.addresses :=
  state.ast.visited_subset (tracks.recorded_visited isRecorded)

/-- Records that own what is recorded are tracked after they are reconciled. -/
theorem reconciled_tracks {records : S} {recorded : Set Nat} (owned : Owned recorded (items records)) (ast : Ast) :
    Tracks (EditState.reconciled ast records recorded) := by
  have placed := reconcileItems_placed owned (@Ast.visited_nodup S _ _ _ ast) ast.visited_length_le
  have same : items (EditState.reconciled ast records recorded).records =
      reconcileItems sizeMax (ast.visited S) (items records) :=
    items_make _ _ _ _
  exact ⟨same ▸ placed.1, same ▸ placed.2⟩

/-- A first binding that succeeds finds the owner of every record. -/
theorem Bound.tracks {state : EditState S} (bound : Bound state) : Tracks state := by
  obtain ⟨ast, records, bound, sorted, binds⟩ := bound
  obtain ⟨inside, made⟩ := (bindAst_eq_ok_iff sorted).mp binds
  have placed : Placed (ast.visited S) (items bound) := by
    rw [made, items_withItems]
    exact placed_of_visited sorted inside
  have owned := placed.to_owned ast.visited_nodup
  refine ⟨placed, owned.distinct, owned.owned, fun node => ?_⟩
  constructor
  · rintro ⟨record, listed, own⟩
    rw [placed.owned record listed] at own
    exact ⟨record, listed, Option.some.inj own⟩
  · rintro ⟨record, listed, rfl⟩
    exact ⟨record, listed, placed.owned record listed⟩

section fragment

variable {before : EditState S} (fragment : Fragment before)

theorem items_foldl_appendRecord (records : S) (added : List R) :
    items (added.foldl appendRecord records) = items records ++ added ∧
      fragmentStart (added.foldl appendRecord records) = fragmentStart records ∧
      fragmentBase (added.foldl appendRecord records) = fragmentBase records := by
  induction added generalizing records with
  | nil => simp
  | cons record added inductionHypothesis =>
    obtain ⟨same_items, same_start, same_base⟩ := inductionHypothesis (appendRecord records record)
    simp only [List.foldl_cons, same_items, same_start, same_base]
    simp [appendRecord]

/-- The binding of a fragment succeeds, and records the nodes of the fragment. -/
theorem Tracks.bind_fragment (tracks : Tracks before) :
    ∃ bound : S, fragment.bind = .ok bound ∧ Owned (before.recorded ∪ fragment.recorded) (items bound) := by
  obtain ⟨same_items, same_start, same_base⟩ := items_foldl_appendRecord (beginFragment before.records) fragment.added
  have appended_items : items fragment.appended = items before.records ++ fragment.added := by
    rw [Fragment.appended, items_setCount, same_items, items_beginFragment]
  have appended_start : fragmentStart fragment.appended = (items before.records).length := by
    rw [Fragment.appended, fragmentStart_setCount, same_start, fragmentStart_beginFragment]
  have appended_base : fragmentBase fragment.appended = SurfaceRecords.count before.records := by
    rw [Fragment.appended, fragmentBase_setCount, same_base, fragmentBase_beginFragment]
  have nodup : (SurfaceRecords.visited S (visitRoots fragment.roots)).Nodup :=
    counted_nodup (List.nodup_append.mp fragment.live.distinct).2.1
  have made := bound_owned fragment.sorted nodup fragment.starts fragment.inside
  refine ⟨_, bindFragment_eq_ok appended_items appended_start tracks.placed fragment.sorted ?_ ?_, ?_⟩
  · rw [appended_base]
    exact fragment.starts
  · rw [appended_base]
    exact fragment.inside
  · rw [items_withItems, appended_base]
    refine tracks.owned.append made fun node isRecorded => ?_
    rintro ⟨record, listed, here⟩
    -- The nodes of a fragment are new, so none of them is recorded before it.
    have inFragment : node ∈ addressesOf fragment.roots := counted_subset (List.mem_of_getElem? here)
    exact (List.nodup_append.mp fragment.live.distinct).2.2 _ (tracks.recorded_address isRecorded) _ inFragment rfl

end fragment

/-- The owners of a clone are recorded. -/
theorem Tracks.clone_owners {before : EditState S} (tracks : Tracks before) (clone : CloneOf before) :
    ∃ cloned : S, clone.cloneOwners = .ok cloned ∧ Owned (before.recorded ∪ clone.recorded) (items cloned) := by
  refine ⟨_, cloneOwners_copy before.records clone.source clone.fresh, ?_⟩
  rw [items_withItems]
  have copied := Message.addresses_copy clone.fresh clone.source
  obtain ⟨-, copy_distinct, apart⟩ := List.nodup_append.mp clone.live.distinct
  rw [copied] at copy_distinct apart
  have owners := ownersOf_sublist (kind S) clone.source.messages
  have pairs_snd : (((ownersOf (kind S) clone.source.messages).map fun node => (node, clone.fresh node)).map Prod.snd) =
      (ownersOf (kind S) clone.source.messages).map clone.fresh := by
    simp
  have same : before.recorded ∪ clone.recorded = before.recorded ∪ {node | ∃ source ∈ before.recorded,
      (source, node) ∈ (ownersOf (kind S) clone.source.messages).map fun node => (node, clone.fresh node)} := by
    congr 1
    ext node
    simp only [CloneOf.recorded, Set.mem_ofPred_eq, List.mem_map, Prod.mk.injEq]
    constructor
    · rintro ⟨source, isRecorded, inside, rfl⟩
      have reached := tracks.recorded_visited isRecorded
      rw [Ast.visited_eq] at reached
      have owner := mem_ownersOf_of_counted reached
      rw [messagesOf, List.flatMap_singleton] at owner
      exact ⟨source, isRecorded, source, mem_ownersOf_part before.ast.live.distinct clone.part owner inside, rfl, rfl⟩
    · rintro ⟨source, isRecorded, _, owner, rfl, rfl⟩
      exact ⟨_, isRecorded, owners.subset owner, rfl⟩
  rw [same]
  refine cloneItems_owned tracks.owned ?_ ?_
  · rw [pairs_snd]
    exact copy_distinct.sublist (owners.map _)
  · rintro pair paired isRecorded
    obtain ⟨node, owner, rfl⟩ := List.mem_map.mp paired
    exact apart _ (tracks.recorded_address isRecorded) _ (List.mem_map_of_mem (owners.subset owner)) rfl

theorem EditStep.tracks {before after : EditState S} (step : EditStep before after) (tracks : Tracks before) : Tracks after := by
  cases step with
  | rearrange ast kept => exact reconciled_tracks tracks.owned ast
  | insertFragment fragment bound binds ast kept =>
    obtain ⟨bound', binds', owned⟩ := tracks.bind_fragment fragment
    rw [binds] at binds'
    cases binds'
    exact reconciled_tracks owned ast
  | insertClone clone cloned clones ast kept =>
    obtain ⟨cloned', clones', owned⟩ := tracks.clone_owners clone
    rw [clones] at clones'
    cases clones'
    exact reconciled_tracks owned ast

theorem History.tracks {initial state : EditState S} (history : History initial state) : Tracks state := by
  obtain ⟨bound, steps⟩ := history
  induction steps with
  | refl => exact bound.tracks
  | tail _ step inductionHypothesis => exact step.tracks inductionHypothesis

/-! ## The records of a state -/

/-- The records are in strict order at the positions of their owners, own the recorded nodes, are found
at their positions only, and can be bound and cloned again. -/
structure Follows (state : EditState S) : Prop where
  sorted : (items state.records).Pairwise fun left right => OwnedRecord.ordinal left < OwnedRecord.ordinal right
  position : ∀ record ∈ items state.records, ∃ node, OwnedRecord.owner record = some node ∧
    (state.ast.visited S)[OwnedRecord.ordinal record]? = some node
  owners : ∀ node, (∃ record ∈ items state.records, OwnedRecord.owner record = some node) ↔ node ∈ state.recorded
  found : ∀ ordinal, (lookup OwnedRecord.ordinal (items state.records) ordinal).isSome ↔
    ∃ node ∈ state.recorded, (state.ast.visited S)[ordinal]? = some node
  binds : bindAst state.records (some state.ast.result) = .ok state.records
  bindsFragment : ∀ fragment : Fragment state, ∃ bound : S, fragment.bind = .ok bound
  clonesOwners : ∀ clone : CloneOf state, ∃ cloned : S, clone.cloneOwners = .ok cloned

theorem Tracks.found {state : EditState S} (tracks : Tracks state) (ordinal : Nat) :
    (lookup OwnedRecord.ordinal (items state.records) ordinal).isSome ↔
      ∃ node ∈ state.recorded, (state.ast.visited S)[ordinal]? = some node := by
  rw [Option.isSome_iff_exists]
  simp only [lookup_eq_some_iff tracks.placed.sorted]
  constructor
  · rintro ⟨record, listed, rfl⟩
    exact ⟨address record, (tracks.owned.recorded_iff _).mpr ⟨record, listed, rfl⟩, tracks.placed.visited_address listed⟩
  · rintro ⟨node, isRecorded, here⟩
    obtain ⟨record, listed, rfl⟩ := (tracks.owned.recorded_iff node).mp isRecorded
    have there := tracks.placed.visited_address listed
    obtain ⟨inside, -⟩ := List.getElem?_eq_some_iff.mp there
    rw [← here] at there
    exact ⟨record, listed, (List.getElem?_inj inside state.ast.visited_nodup).mp there⟩

theorem Tracks.follows {state : EditState S} (tracks : Tracks state) : Follows state where
  sorted := tracks.placed.sorted
  position record listed := ⟨address record, tracks.placed.owned record listed, tracks.placed.visited_address listed⟩
  owners node := by
    rw [tracks.owned.recorded_iff]
    apply exists_congr
    intro record
    apply and_congr_right
    intro listed
    rw [tracks.placed.owned record listed, Option.some.injEq]
  found := tracks.found
  binds := bindAst_placed tracks.placed
  bindsFragment fragment := by
    obtain ⟨bound, binds, -⟩ := tracks.bind_fragment fragment
    exact ⟨bound, binds⟩
  clonesOwners clone := by
    obtain ⟨cloned, clones, -⟩ := tracks.clone_owners clone
    exact ⟨cloned, clones⟩

end runs

/-- An owned record answers for its ordinal whatever the bytes of the text are. -/
theorem NationalLiterals.matches_of_owned {literals : NationalLiterals} (owned : ∀ literal ∈ literals.items, literal.owner ≠ none)
    {ordinal start stop : Nat} {sql : Text} (nonempty : start < stop) :
    literals.matches' ordinal sql start stop = (lookup NationalLiteral.ordinal literals.items ordinal).isSome := by
  rw [matches', find, if_neg (Nat.not_le.mpr nonempty)]
  cases found : lookup NationalLiteral.ordinal literals.items ordinal with
  | none => rfl
  | some literal =>
    have own := owned literal (lookup_mem found).1
    simp [own]

/-- Through any history of edits the records of national literals and of MINUS operators follow their nodes,
and a match answers yes exactly at the positions of the recorded nodes. -/
theorem records_follow_nodes :
    (∀ initial state : EditState NationalLiterals, History initial state →
      Follows state ∧ ∀ (ordinal : Nat) (sql : Text) (start stop : Nat), start < stop →
        (state.records.matches' ordinal sql start stop ↔
          ∃ node ∈ state.recorded, (state.ast.visited NationalLiterals)[ordinal]? = some node)) ∧
    ∀ initial state : EditState Minuses, History initial state →
      Follows state ∧ ∀ ordinal : Nat,
        (state.records.matches' ordinal ↔ ∃ node ∈ state.recorded, (state.ast.visited Minuses)[ordinal]? = some node) := by
  constructor
  · intro initial state history
    have follows := history.tracks.follows
    refine ⟨follows, fun ordinal sql start stop nonempty => ?_⟩
    rw [NationalLiterals.matches_of_owned _ nonempty]
    · exact follows.found ordinal
    · intro literal listed
      obtain ⟨node, own, -⟩ := follows.position literal listed
      exact fun missing => Option.some_ne_none node (own.symm.trans missing)
  · intro initial state history
    have follows := history.tracks.follows
    exact ⟨follows, follows.found⟩

/-- A string literal at an address, with its value behind it. -/
def literalAt (address : Nat) : Message :=
  .node address .aConst (.cons .sval (.node (address + 1) (.other 0) .nil) .nil)

def targetsAt : List Nat → Children
  | [] => .nil
  | address :: addresses => .cons .targetList (literalAt address) (targetsAt addresses)

/-- The SELECT of string literals at the addresses. -/
def selectAt (addresses : List Nat) : ParseResult :=
  ⟨1, [⟨2, some (.node 3 (.selectStmt .none .default) (targetsAt addresses))⟩]⟩

/-- `SELECT N'a', 'p', N'b'`, bound -/
def boundSelect : EditState NationalLiterals where
  ast := ⟨selectAt [4, 6, 8], by decide, by decide⟩
  records := ⟨[⟨ascii "'a'", none, 0, some 4⟩, ⟨ascii "'b'", none, 2, some 8⟩], 3, 0, 0⟩
  recorded := {node | ∃ record ∈ [NationalLiteral.mk (ascii "'a'") none 0 (some 4), ⟨ascii "'b'", none, 2, some 8⟩],
    record.owner = some node}

/-- `SELECT N'b', 'p', N'a'` -/
def swappedSelect : EditState NationalLiterals :=
  .reconciled ⟨selectAt [8, 6, 4], by decide, by decide⟩ boundSelect.records boundSelect.recorded

/-- `N'c'` -/
def nationalFragment : Fragment swappedSelect where
  roots := [literalAt 20]
  added := [⟨ascii "'c'", none, 3, none⟩]
  count := 4
  live := ⟨by decide, by decide⟩
  unowned := by decide
  sorted := by decide
  starts := by decide
  inside := by decide

def boundFragment : NationalLiterals where
  items := [⟨ascii "'b'", none, 0, some 8⟩, ⟨ascii "'a'", none, 2, some 4⟩, ⟨ascii "'c'", none, 3, some 20⟩]
  literalCount := 4
  fragmentStart := 2
  fragmentLiteralBase := 3

/-- `SELECT N'c', N'b', 'p', N'a'` -/
def insertedSelect : EditState NationalLiterals :=
  .reconciled ⟨selectAt [20, 8, 6, 4], by decide, by decide⟩ boundFragment
    (swappedSelect.recorded ∪ nationalFragment.recorded)

/-- The literal `N'b'`, copied a hundred addresses on. -/
def literalClone : CloneOf insertedSelect where
  source := literalAt 8
  fresh node := node + 100
  part := List.mem_of_getElem? (show _[5]? = some (literalAt 8) from rfl)
  live := ⟨by decide, by decide⟩

def clonedLiteral : NationalLiterals where
  items := [⟨ascii "'a'", none, 3, some 4⟩, ⟨ascii "'b'", none, 1, some 8⟩, ⟨ascii "'c'", none, 0, some 20⟩,
    ⟨ascii "'b'", none, sizeMax, some 108⟩]
  literalCount := 4
  fragmentStart := 3
  fragmentLiteralBase := 4

/-- `SELECT N'c', N'b', 'p', N'a', N'b'` -/
def grownSelect : EditState NationalLiterals :=
  .reconciled ⟨selectAt [20, 8, 6, 4, 108], by decide, by decide⟩ clonedLiteral
    (insertedSelect.recorded ∪ literalClone.recorded)

theorem swapped_records : swappedSelect.records =
    ⟨[⟨ascii "'b'", none, 0, some 8⟩, ⟨ascii "'a'", none, 2, some 4⟩], 3, 2, 3⟩ :=
  congrArg (fun items => NationalLiterals.mk items 3 items.length 3)
    (reconcileItems_of_perm (by decide) (by decide) (by decide))

theorem inserted_records : insertedSelect.records =
    ⟨[⟨ascii "'c'", none, 0, some 20⟩, ⟨ascii "'b'", none, 1, some 8⟩, ⟨ascii "'a'", none, 3, some 4⟩], 4, 3, 4⟩ :=
  congrArg (fun items => NationalLiterals.mk items 4 items.length 4)
    (reconcileItems_of_perm (by decide) (by decide) (by decide))

theorem grown_records : grownSelect.records =
    ⟨[⟨ascii "'c'", none, 0, some 20⟩, ⟨ascii "'b'", none, 1, some 8⟩, ⟨ascii "'a'", none, 3, some 4⟩,
      ⟨ascii "'b'", none, 4, some 108⟩], 5, 4, 5⟩ :=
  congrArg (fun items => NationalLiterals.mk items 5 items.length 5)
    (reconcileItems_of_perm (by decide) (by decide) (by decide))

theorem nationalFragment_bind : nationalFragment.bind = .ok boundFragment := by
  rw [Fragment.bind, Fragment.appended, swapped_records]
  rfl

theorem literalClone_cloneOwners : literalClone.cloneOwners = .ok clonedLiteral := by
  have byOwner : sortBy address insertedSelect.records.items =
      [⟨ascii "'a'", none, 3, some 4⟩, ⟨ascii "'b'", none, 1, some 8⟩, ⟨ascii "'c'", none, 0, some 20⟩] := by
    rw [inserted_records]
    exact sortBy_eq address (by decide) (by decide)
  have cloned : cloneItems sizeMax [(8, 108)] insertedSelect.records.items = clonedLiteral.items := by
    rw [cloneItems, byOwner, inserted_records]
    decide +kernel
  rw [CloneOf.cloneOwners]
  refine (cloneOwners_copy insertedSelect.records (literalAt 8) (· + 100)).trans (congrArg Except.ok ?_)
  rw [inserted_records] at cloned ⊢
  exact congrArg (fun items => NationalLiterals.mk items 4 3 4) cloned

/-- Two literals are swapped, a third is inserted before them and one of them is cloned. -/
theorem records_follow_nodes_select :
    Follows grownSelect ∧ (items grownSelect.records).map (fun literal => (literal.ordinal, literal.owner)) =
      [(0, some 20), (1, some 8), (3, some 4), (4, some 108)] := by
  have bound : Bound boundSelect :=
    .intro _ (NationalLiterals.mk [⟨ascii "'a'", none, 0, none⟩, ⟨ascii "'b'", none, 2, none⟩] 3 0 0) _ (by decide) rfl
  have swapped : EditStep boundSelect swappedSelect := .rearrange _ _ (by decide)
  have inserted : EditStep swappedSelect insertedSelect :=
    .insertFragment _ nationalFragment _ nationalFragment_bind _ (by decide)
  have grown : EditStep insertedSelect grownSelect :=
    .insertClone _ literalClone _ literalClone_cloneOwners _ (by decide)
  have history : History boundSelect grownSelect := ⟨bound, .tail (.tail (.single swapped) inserted) grown⟩
  refine ⟨(records_follow_nodes.1 boundSelect grownSelect history).1, ?_⟩
  rw [grown_records]
  rfl

end SqlParser.Core
