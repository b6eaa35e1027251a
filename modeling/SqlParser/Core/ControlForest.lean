import SqlParser.Core.ControlState

/-! # Control-flow forests

The validation of a control-flow state accepts exactly the forests: what its walk marks is the
unfolding of the arrays from the roots.
-/

namespace SqlParser.Core

open SqlParser.Library.Unfolding

/-! ## Forests -/

def ControlKey.isNode : ControlKey → Bool
  | .node _ => true
  | _ => false

/-- The first branch of a node has a condition, and no other one has. -/
def ControlState.branchFits (state : ControlState) (branch : Nat × Nat) : Bool :=
  match state.branches[branch.1]? with
  | some found => found.hasCondition = (branch.2 = 0 : Bool)
  | none => false

/-- The keys that stand below a well-formed key. -/
def ControlState.below (state : ControlState) : ControlKey → Option (List ControlKey)
  | .unit index => if index < state.units.length then some [] else none
  | .item index =>
    match state.items[index]? with
    | some ⟨.statement, unit⟩ => if state.unitKind unit = some .statement then some [.unit unit] else none
    | some ⟨.node, node⟩ => some [.node node]
    | _ => none
  | .branch index =>
    match state.branches[index]? with
    | some branch =>
      if branch.items.count ≠ 0 ∧ state.spanIsValid branch.items ∧
          (branch.hasCondition → state.unitKind branch.conditionStatementIndex = some .condition) then
        some ((if branch.hasCondition then [.unit branch.conditionStatementIndex] else []) ++
          (state.pooled branch.items).map .item)
      else none
    | none => none
  | .node index =>
    match state.nodes[index]? with
    | some node =>
      if node.kind = .ifNode ∧ (node.branches.count = 1 ∨ node.branches.count = 2) ∧ state.spanIsValid node.branches ∧
          ∀ branch ∈ (state.pooled node.branches).zipIdx, state.branchFits branch then
        some ((state.pooled node.branches).map .branch)
      else none
    | none => none

/-- All keys of the arrays. -/
def ControlState.keys (state : ControlState) : List ControlKey :=
  (List.range state.nodes.length).map .node ++ (List.range state.branches.length).map .branch ++
    (List.range state.items.length).map .item ++ (List.range state.units.length).map .unit

/-- Every key is reached from the roots exactly once, through at most `controlMaxDepth` nodes. -/
def ControlState.EncodesForest (state : ControlState) : Prop :=
  state.spanIsValid state.roots ∧
    ∃ visits, Unfolds state.below ControlKey.isNode controlMaxDepth ((state.pooled state.roots).map .item) visits ∧
      visits.Perm state.keys

def ControlUnit.stop (unit : ControlUnit) : Nat :=
  unit.sourceOffset + unit.sourceLength

/-- The spans of the units are sorted and apart in the source, and the units stand for the statements one by one. -/
structure UnitsMapped (statementCount sqlLength : Nat) (units : List ControlUnit) : Prop where
  kinds : ∀ unit ∈ units, unit.kind = .statement ∨ unit.kind = .condition
  inside : ∀ unit ∈ units, 0 < unit.sourceLength ∧ unit.stop ≤ sqlLength
  sorted : units.Pairwise fun left right => left.stop ≤ right.sourceOffset
  onto : (units.map ControlUnit.astStatementIndex).Perm (List.range statementCount)

/-! ## What the walk visits -/

section walk

variable {state : ControlState} {levels : Nat}

abbrev ControlState.Reaches (state : ControlState) (levels : Nat) (keys visits : List ControlKey) : Prop :=
  Unfolds state.below ControlKey.isNode levels keys visits

theorem validateUnit_walks (kind : ControlUnitKind) (failure : Error) (index levels : Nat) :
    Walks (validateUnit state kind failure index)
      fun visits => state.unitKind index = some kind ∧ state.Reaches levels [.unit index] visits := by
  by_cases fits : state.unitKind index = some kind
  · have walk : validateUnit state kind failure index = mark failure (ControlKey.unit index) := by
      funext seen
      exact if_pos fits
    have inside : index < state.units.length := by
      obtain ⟨unit, found, -⟩ := Option.map_eq_some_iff.mp fits
      exact (List.getElem?_eq_some_iff.mp found).1
    rw [walk]
    refine (walks_mark failure (ControlKey.unit index)).congr fun visits => ?_
    rw [and_iff_right fits, ControlState.Reaches, Unfolds.singleton_iff]
    constructor
    · rintro rfl
      exact ⟨[], [], if_pos inside, Nat.zero_le _, .nil, rfl⟩
    · rintro ⟨children, inner, found, -, unfolds, rfl⟩
      rw [ControlState.below, if_pos inside] at found
      cases found
      cases unfolds
      rfl
  · apply walks_failure
    · intro seen marked succeeds
      rw [validateUnit, if_neg fits] at succeeds
      cases succeeds
    · exact fun visits visited => fits visited.1

theorem validateItem_walks {visitNode : Nat → Marks → Except Error Marks}
    (nodes : ∀ index, Walks (visitNode index) (state.Reaches levels [.node index])) (index : Nat) :
    Walks (validateItem state visitNode index) (state.Reaches levels [.item index]) := by
  unfold validateItem
  cases found : state.items[index]? with
  | none =>
    apply walks_failure
    · exact fun seen marked succeeds => nomatch succeeds
    · intro visits unfolds
      obtain ⟨children, -, known, -⟩ := Unfolds.singleton_iff.mp unfolds
      rw [ControlState.below, found] at known
      cases known
  | some item =>
    obtain ⟨kind, target⟩ := item
    cases kind with
    | statement =>
      have unit := @validateUnit_walks state .statement (invalidState "control statement unit is invalid") target levels
      by_cases fits : state.unitKind target = some .statement
      · have children : state.below (.item index) = some [.unit target] := by
          rw [ControlState.below, found]
          exact if_pos fits
        exact Walks.visit _ children (Nat.zero_le _) (unit.congr fun visits => and_iff_right fits)
      · apply Walks.refuse
        · intro children known
          rw [ControlState.below, found] at known
          simp only [if_neg fits] at known
          cases known
        · intro seen marked succeeds
          obtain ⟨visits, visited, -⟩ := (unit seen marked).mp succeeds
          exact fits visited.1
    | node =>
      have children : state.below (.item index) = some [.node target] := by rw [ControlState.below, found]
      exact Walks.visit _ children (Nat.zero_le _) (nodes target)
    | other value =>
      apply Walks.refuse
      · intro children known
        rw [ControlState.below, found] at known
        cases known
      · exact fun seen marked succeeds => nomatch succeeds

theorem validateBranch_walks {visitItem : Nat → Marks → Except Error Marks}
    (items : ∀ index, Walks (visitItem index) (state.Reaches levels [.item index])) (ordinal index : Nat) :
    Walks (validateBranch state visitItem ordinal index)
      fun visits => state.branchFits (index, ordinal) ∧ state.Reaches levels [.branch index] visits := by
  unfold validateBranch
  cases found : state.branches[index]? with
  | none =>
    apply walks_failure
    · exact fun seen marked succeeds => nomatch succeeds
    · rintro visits ⟨fits, -⟩
      rw [ControlState.branchFits, found] at fits
      cases fits
  | some branch =>
    dsimp only
    have fitsIff : state.branchFits (index, ordinal) ↔ branch.hasCondition = decide (ordinal = 0) := by
      rw [ControlState.branchFits, found, decide_eq_true_eq]
    -- the shape is checked before anything below the branch is visited
    by_cases invalid : (ordinal = 0 ∧ !branch.hasCondition) ∨ (ordinal > 0 ∧ branch.hasCondition) ∨ branch.items.count = 0 ∨
        !state.spanIsValid branch.items
    · apply walks_failure
      · intro seen marked succeeds
        simp only [if_pos invalid] at succeeds
        cases between : mark (invalidState "control branch topology is invalid") (ControlKey.branch index) seen <;>
          rw [between] at succeeds <;> cases succeeds
      · rintro visits ⟨fits, unfolds⟩
        obtain ⟨children, -, known, -⟩ := Unfolds.singleton_iff.mp unfolds
        rw [ControlState.below, found] at known
        dsimp only at known
        split at known
        next shape =>
          have condition := fitsIff.mp fits
          obtain ⟨first, lacks⟩ | ⟨later, has⟩ | empty | outside := invalid
          · simp [condition, first] at lacks
          · simp [condition] at has
            omega
          · exact shape.1 empty
          · simp [shape.2.1] at outside
        next => cases known
    · simp only [if_neg invalid]
      simp only [not_or, not_and] at invalid
      obtain ⟨needed, unneeded, present, valid⟩ := invalid
      have fits : state.branchFits (index, ordinal) := by
        rw [fitsIff]
        cases has : branch.hasCondition with
        | false =>
          symm
          rw [decide_eq_false_iff_not]
          intro first
          simp [has] at needed
          exact needed first
        | true =>
          symm
          rw [decide_eq_true_eq]
          by_contra later
          exact unneeded (Nat.pos_of_ne_zero later) has
      have walkItems : Walks (fun seen => (state.pooled branch.items).foldlM (fun marked item => visitItem item marked) seen)
          (state.Reaches levels ((state.pooled branch.items).map .item)) := by
        have each := @walks_each ControlKey Nat Error _ state.below ControlKey.isNode levels visitItem .item (fun _ => True)
          (state.pooled branch.items) fun item _ => (items item).congr fun visits => (and_iff_right trivial).symm
        exact each.congr fun visits => by simp
      -- the condition is visited in front of the items, where there is one
      refine Walks.congr ?_ fun visits => (and_iff_right fits).symm
      cases has : branch.hasCondition with
      | false =>
        have children : state.below (.branch index) = some ([] ++ (state.pooled branch.items).map .item) := by
          rw [ControlState.below, found]
          simpa [has] using ⟨present, by simpa using valid⟩
        refine Walks.visit _ children (Nat.zero_le _) ?_
        exact walkItems
      | true =>
        have unit := @validateUnit_walks state .condition (invalidState "control condition unit is invalid")
          branch.conditionStatementIndex levels
        by_cases isCondition : state.unitKind branch.conditionStatementIndex = some .condition
        · have children : state.below (.branch index) =
              some ([.unit branch.conditionStatementIndex] ++ (state.pooled branch.items).map .item) := by
            rw [ControlState.below, found]
            simpa [has, isCondition] using ⟨present, by simpa using valid⟩
          refine Walks.visit _ children (Nat.zero_le _) ?_
          refine ((unit.congr fun visits => and_iff_right isCondition).bind walkItems).congr fun visits => ?_
          exact Unfolds.append_iff.symm
        · apply Walks.refuse
          · intro children known
            rw [ControlState.below, found] at known
            simp [has, isCondition] at known
          · intro seen marked succeeds
            obtain ⟨visits, ⟨front, back, visited, -⟩, -⟩ := (unit.bind walkItems seen marked).mp succeeds
            exact isCondition visited.1

theorem validateNode_walks (levels index : Nat) :
    Walks (validateNode state levels index) (state.Reaches levels [.node index]) := by
  -- the levels that are left bound the recursion
  induction levels generalizing index with
  | zero =>
    change Walks (fun seen => validateNode state 0 index seen) _
    unfold validateNode
    cases found : state.nodes[index]? with
    | none =>
      apply walks_failure
      · exact fun seen marked succeeds => nomatch succeeds
      · intro visits unfolds
        obtain ⟨children, -, -, room, -⟩ := Unfolds.singleton_iff.mp unfolds
        exact absurd room (Nat.not_succ_le_zero 0)
    | some node =>
      apply Walks.refuse
      · exact fun children _ => Nat.zero_lt_one
      · exact fun seen marked succeeds => nomatch succeeds
  | succ levels inductionHypothesis =>
    change Walks (fun seen => validateNode state (levels + 1) index seen) _
    unfold validateNode
    cases found : state.nodes[index]? with
    | none =>
      apply walks_failure
      · exact fun seen marked succeeds => nomatch succeeds
      · intro visits unfolds
        obtain ⟨children, -, known, -⟩ := Unfolds.singleton_iff.mp unfolds
        rw [ControlState.below, found] at known
        cases known
    | some node =>
      dsimp only
      by_cases invalid : node.kind ≠ .ifNode ∨ (node.branches.count ≠ 1 ∧ node.branches.count ≠ 2) ∨
          !state.spanIsValid node.branches
      · simp only [if_pos invalid]
        apply Walks.refuse
        · intro children known
          rw [ControlState.below, found] at known
          dsimp only at known
          split at known
          next shape =>
            obtain kind | ⟨notOne, notTwo⟩ | outside := invalid
            · exact absurd shape.1 kind
            · exact absurd shape.2.1 (by omega)
            · simp [shape.2.2.1] at outside
          next => cases known
        · exact fun seen marked succeeds => nomatch succeeds
      · simp only [if_neg invalid]
        have walkBranches := @walks_each ControlKey (Nat × Nat) Error _ state.below ControlKey.isNode levels
          (fun branch => validateBranch state (validateItem state (validateNode state levels)) branch.2 branch.1)
          (fun branch => .branch branch.1) (fun branch => state.branchFits branch) (state.pooled node.branches).zipIdx
          fun branch _ => validateBranch_walks (validateItem_walks inductionHypothesis) branch.2 branch.1
        have keys : (state.pooled node.branches).zipIdx.map (fun branch => ControlKey.branch branch.1) =
            (state.pooled node.branches).map .branch := by
          have composed := @List.map_map _ _ _ ControlKey.branch Prod.fst (state.pooled node.branches).zipIdx
          rw [List.zipIdx_map_fst] at composed
          exact composed.symm
        rw [keys] at walkBranches
        by_cases fit : ∀ branch ∈ (state.pooled node.branches).zipIdx, state.branchFits branch
        · have children : state.below (.node index) = some ((state.pooled node.branches).map .branch) := by
            rw [ControlState.below, found]
            refine if_pos ⟨?_, ?_, ?_, fit⟩
            · by_contra kind
              exact invalid (.inl kind)
            · by_contra count
              exact invalid (.inr (.inl (by omega)))
            · by_contra outside
              exact invalid (.inr (.inr (by simpa using outside)))
          refine Walks.visit _ children (Nat.succ_le_succ (Nat.zero_le levels)) ?_
          exact walkBranches.congr fun visits => and_iff_right fit
        · apply Walks.refuse
          · intro children known
            rw [ControlState.below, found] at known
            dsimp only at known
            rw [if_neg fun shape => fit shape.2.2.2] at known
            cases known
          · intro seen marked succeeds
            obtain ⟨visits, visited, -⟩ := (walkBranches seen marked).mp succeeds
            exact fit visited.1

/-- The walk over the roots succeeds where the unfolding of the state lists no key twice. -/
theorem validateRoots_walks :
    Walks (fun seen => (state.pooled state.roots).foldlM
        (fun seen item => validateItem state (validateNode state controlMaxDepth) item seen) seen)
      (state.Reaches controlMaxDepth ((state.pooled state.roots).map .item)) := by
  have each := @walks_each ControlKey Nat Error _ state.below ControlKey.isNode controlMaxDepth
    (validateItem state (validateNode state controlMaxDepth)) .item (fun _ => True) (state.pooled state.roots)
    fun item _ => (validateItem_walks (validateNode_walks controlMaxDepth) item).congr fun visits =>
      (and_iff_right trivial).symm
  exact each.congr fun visits => by simp

end walk

/-! ## Keys -/

section keys

variable {state : ControlState}

theorem mem_keys {key : ControlKey} :
    key ∈ state.keys ↔
      match key with
      | .node index => index < state.nodes.length
      | .branch index => index < state.branches.length
      | .item index => index < state.items.length
      | .unit index => index < state.units.length := by
  cases key <;> simp [ControlState.keys]

theorem keys_nodup : state.keys.Nodup := by
  have injective {key : Nat → ControlKey} (apart : ∀ left right, key left = key right → left = right) (count : Nat) :
      ((List.range count).map key).Nodup := List.nodup_range.map fun left right => apart left right
  simp only [ControlState.keys, List.nodup_append']
  refine ⟨⟨⟨injective (by simp) _, injective (by simp) _, ?_⟩, injective (by simp) _, ?_⟩, injective (by simp) _, ?_⟩ <;>
    · intro key left right
      simp only [List.mem_append, List.mem_map] at left right
      grind

/-- A well-formed key is one of the arrays. -/
theorem mem_keys_of_below {key : ControlKey} {children : List ControlKey} (found : state.below key = some children) :
    key ∈ state.keys := by
  rw [mem_keys]
  cases key with
  | unit index =>
    rw [ControlState.below] at found
    split at found
    next inside => exact inside
    next => cases found
  | node index | branch index | item index =>
    by_contra outside
    have none := List.getElem?_eq_none (Nat.le_of_not_lt outside)
    rw [ControlState.below, none] at found
    cases found

/-- The unfolding lists every key once if and only if it lists each, and none twice. -/
theorem visits_perm_iff {levels : Nat} {roots visits : List ControlKey} (unfolds : state.Reaches levels roots visits) :
    visits.Perm state.keys ↔ visits.Nodup ∧ state.keys ⊆ visits := by
  constructor
  · exact fun perm => ⟨perm.nodup_iff.mpr keys_nodup, perm.symm.subset⟩
  · rintro ⟨nodup, covers⟩
    rw [List.perm_ext_iff_of_nodup nodup keys_nodup]
    intro key
    constructor
    · intro member
      obtain ⟨children, found, -⟩ := unfolds.closed.2 key member
      exact mem_keys_of_below found
    · exact fun member => covers member

theorem keys_subset_iff {seen : Marks} :
    state.keys ⊆ seen ↔
      (∀ index < state.nodes.length, .node index ∈ seen) ∧ (∀ index < state.branches.length, .branch index ∈ seen) ∧
        (∀ index < state.items.length, .item index ∈ seen) ∧ ∀ index < state.units.length, .unit index ∈ seen := by
  constructor
  · intro covers
    exact ⟨fun index inside => covers (mem_keys.mpr inside), fun index inside => covers (mem_keys.mpr inside),
      fun index inside => covers (mem_keys.mpr inside), fun index inside => covers (mem_keys.mpr inside)⟩
  · rintro ⟨nodes, branches, items, units⟩ key member
    rw [mem_keys] at member
    cases key with
    | node index => exact nodes index member
    | branch index => exact branches index member
    | item index => exact items index member
    | unit index => exact units index member

end keys

/-! ## The index pool -/

section pool

variable {state : ControlState}

theorem pooled_length {span : IndexSpan} (valid : state.spanIsValid span) : (state.pooled span).length = span.count := by
  simp only [ControlState.spanIsValid, Bool.and_eq_true, decide_eq_true_eq] at valid
  rw [ControlState.pooled, List.length_take, List.length_drop]
  omega

def isBranch : ControlKey → Bool
  | .branch _ => true
  | _ => false

def isItem : ControlKey → Bool
  | .item _ => true
  | _ => false

theorem map_range_getElem? {α : Type} (items : List α) (measure : α → Nat) :
    (List.range items.length).map (fun index => (items[index]?).elim 0 measure) = items.map measure := by
  apply List.ext_getElem (by simp)
  intro index left right
  simp only [List.length_map] at right
  simp [right]

/-- The counts of the kinds of keys. -/
theorem countP_keys :
    state.keys.countP isBranch = state.branches.length ∧ state.keys.countP isItem = state.items.length := by
  have none {key : Nat → ControlKey} {isKind : ControlKey → Bool} (other : ∀ index, isKind (key index) = false)
    (count : Nat) :
      ((List.range count).map key).countP isKind = 0 := by
    rw [List.countP_eq_zero]
    intro listed member
    obtain ⟨index, -, rfl⟩ := List.mem_map.mp member
    rw [other index]
    decide
  have all {key : Nat → ControlKey} {isKind : ControlKey → Bool} (same : ∀ index, isKind (key index) = true) (count : Nat) :
      ((List.range count).map key).countP isKind = count := by
    rw [List.countP_eq_length.mpr, List.length_map, List.length_range]
    intro listed member
    obtain ⟨index, -, rfl⟩ := List.mem_map.mp member
    exact same index
  constructor <;> simp only [ControlState.keys, List.countP_append]
  · rw [none fun _ => rfl, all fun _ => rfl, none fun _ => rfl, none fun _ => rfl]
    omega
  · rw [none fun _ => rfl, none fun _ => rfl, all fun _ => rfl, none fun _ => rfl]
    omega

theorem countP_map_key {key : Nat → ControlKey} {isKind : ControlKey → Bool} (value : Bool)
    (same : ∀ index, isKind (key index) = value)
    (indexes : List Nat) : (indexes.map key).countP isKind = if value then indexes.length else 0 := by
  cases value with
  | false =>
    rw [if_neg (by decide), List.countP_eq_zero]
    intro listed member
    obtain ⟨index, -, rfl⟩ := List.mem_map.mp member
    rw [same index]
    decide
  | true =>
    rw [if_pos rfl, List.countP_eq_length.mpr, List.length_map]
    intro listed member
    obtain ⟨index, -, rfl⟩ := List.mem_map.mp member
    exact same index

/-- The number of branches below a key. -/
def ControlState.branchCount (state : ControlState) : ControlKey → Nat
  | .node index => (state.nodes[index]?).elim 0 fun node => node.branches.count
  | _ => 0

/-- The number of items below a key. -/
def ControlState.itemCount (state : ControlState) : ControlKey → Nat
  | .branch index => (state.branches[index]?).elim 0 fun branch => branch.items.count
  | _ => 0

theorem countBelow_key {key : ControlKey} {children : List ControlKey} (found : state.below key = some children) :
    countBelow state.below isBranch key = state.branchCount key ∧
      countBelow state.below isItem key = state.itemCount key := by
  simp only [countBelow, found, Option.getD_some]
  cases key with
  | unit index =>
    rw [ControlState.below] at found
    split at found
    next => cases found; exact ⟨rfl, rfl⟩
    next => cases found
  | item index =>
    rw [ControlState.below] at found
    split at found
    next =>
      split at found
      next => cases found; exact ⟨rfl, rfl⟩
      next => cases found
    next => cases found; exact ⟨rfl, rfl⟩
    next => cases found
  | branch index =>
    rw [ControlState.below] at found
    split at found
    next branch known =>
      split at found
      next shape =>
        cases found
        rw [ControlState.itemCount, known, List.countP_append, List.countP_append, countP_map_key false fun _ => rfl,
          countP_map_key true fun _ => rfl, pooled_length shape.2.1]
        cases branch.hasCondition <;> simp [isBranch, isItem, ControlState.branchCount]
      next => cases found
    next => cases found
  | node index =>
    rw [ControlState.below] at found
    split at found
    next node known =>
      split at found
      next shape =>
        cases found
        rw [ControlState.branchCount, known, countP_map_key true fun _ => rfl, countP_map_key false fun _ => rfl,
          pooled_length shape.2.2.1]
        exact ⟨rfl, rfl⟩
      next => cases found
    next => cases found

theorem sum_keys {measure : ControlKey → Nat} (noItem : ∀ index, measure (.item index) = 0)
    (noUnit : ∀ index, measure (.unit index) = 0) :
    (state.keys.map measure).sum = ((List.range state.nodes.length).map fun index => measure (.node index)).sum +
      ((List.range state.branches.length).map fun index => measure (.branch index)).sum := by
  have none {key : Nat → ControlKey} (zero : ∀ index, measure (key index) = 0) (count : Nat) :
      (((List.range count).map key).map measure).sum = 0 := by
    rw [List.map_map]
    apply List.sum_eq_zero
    intro value member
    obtain ⟨index, -, rfl⟩ := List.mem_map.mp member
    exact zero index
  rw [ControlState.keys, List.map_append, List.map_append, List.map_append, List.sum_append, List.sum_append, List.sum_append,
    none noItem, none noUnit, List.map_map, List.map_map]
  rfl

theorem sum_branchCount : (state.keys.map state.branchCount).sum = (state.nodes.map fun node => node.branches.count).sum := by
  rw [sum_keys (fun _ => rfl) fun _ => rfl, ← map_range_getElem? state.nodes fun node => node.branches.count]
  simp [ControlState.branchCount]

theorem sum_itemCount : (state.keys.map state.itemCount).sum = (state.branches.map fun branch => branch.items.count).sum := by
  rw [sum_keys (fun _ => rfl) fun _ => rfl, ← map_range_getElem? state.branches fun branch => branch.items.count]
  simp [ControlState.itemCount]

/-- In a forest the counts of the spans are those of the arrays. -/
theorem forest_counts {levels : Nat} {visits : List ControlKey} (valid : state.spanIsValid state.roots)
    (unfolds : state.Reaches levels ((state.pooled state.roots).map .item) visits) (perm : visits.Perm state.keys) :
    (state.nodes.map fun node => node.branches.count).sum = state.branches.length ∧
      state.roots.count + (state.branches.map fun branch => branch.items.count).sum = state.items.length := by
  have below {key : ControlKey} (member : key ∈ visits) : countBelow state.below isBranch key = state.branchCount key ∧
      countBelow state.below isItem key = state.itemCount key := by
    obtain ⟨children, found, -⟩ := unfolds.closed.2 key member
    exact countBelow_key found
  have branches := unfolds.count isBranch
  have items := unfolds.count isItem
  rw [List.map_congr_left fun key member => (below member).1, (perm.map _).sum_eq, sum_branchCount,
    perm.countP_eq, countP_keys.1, countP_map_key false fun _ => rfl] at branches
  rw [List.map_congr_left fun key member => (below member).2, (perm.map _).sum_eq, sum_itemCount,
    perm.countP_eq, countP_keys.2, countP_map_key true fun _ => rfl, if_pos rfl, pooled_length valid] at items
  rw [if_neg (by decide)] at branches
  omega

theorem countReferences_of {spans : List IndexSpan} {start : Nat} (failure : Error)
    (valid : ∀ span ∈ spans, state.spanIsValid span) (fits : start + (spans.map IndexSpan.count).sum ≤ sizeMax) :
    countReferences state failure spans start = .ok (start + (spans.map IndexSpan.count).sum) := by
  induction spans generalizing start with
  | nil => rfl
  | cons span spans inductionHypothesis =>
    rw [List.map_cons, List.sum_cons] at fits ⊢
    have first := valid span List.mem_cons_self
    rw [countReferences, if_neg, inductionHypothesis (fun other member =>
      valid other (List.mem_cons_of_mem _ member)) (by omega),
      Nat.add_assoc]
    rintro (outside | large)
    · simp [first] at outside
    · omega

end pool

/-! ## Units -/

section units

variable {stmts : List (Option ControlRawStmt)} {sqlLength : Nat}

/-- What the loop over the units checks of one unit. -/
structure UnitFits (stmts : List (Option ControlRawStmt)) (sqlLength : Nat) (unit : ControlUnit) : Prop where
  kind : unit.kind = .statement ∨ unit.kind = .condition
  known : unit.astStatementIndex < stmts.length
  present : 0 < unit.sourceLength
  inside : unit.stop ≤ sqlLength
  ast : unitAstFits unit (stmts[unit.astStatementIndex]?).join

theorem validateUnits_iff {units : List ControlUnit} {seenAst : List Nat} {previousEnd : Nat} :
    validateUnits stmts sqlLength units seenAst previousEnd = .ok () ↔
      (∀ unit ∈ units, UnitFits stmts sqlLength unit) ∧ (∀ unit ∈ units, previousEnd ≤ unit.sourceOffset) ∧
        units.Pairwise (fun left right => left.stop ≤ right.sourceOffset) ∧
        (units.map ControlUnit.astStatementIndex).Nodup ∧ (units.map ControlUnit.astStatementIndex).Disjoint seenAst := by
  induction units generalizing seenAst previousEnd with
  | nil => simp [validateUnits]
  | cons unit units inductionHypothesis =>
    rw [validateUnits]
    constructor
    · intro accepted
      split at accepted
      next => cases accepted
      next mapped =>
        split at accepted
        next => cases accepted
        next ast =>
          obtain ⟨fits, ordered, sorted, nodup, apart⟩ := inductionHypothesis.mp accepted
          simp only [not_or, not_and, not_not, ge_iff_le, gt_iff_lt, Nat.not_le, Nat.not_lt] at mapped
          obtain ⟨kind, known, fresh, present, offset, length, order⟩ := mapped
          have here : UnitFits stmts sqlLength unit := by
            refine ⟨?_, known, Nat.pos_of_ne_zero present, ?_, by simpa using ast⟩
            · by_cases statement : unit.kind = .statement
              · exact .inl statement
              · exact .inr (kind statement)
            · rw [ControlUnit.stop]
              omega
          rw [List.disjoint_append_right] at apart
          refine ⟨List.forall_mem_cons.mpr ⟨here, fits⟩, List.forall_mem_cons.mpr ⟨order, fun other member => ?_⟩,
            List.pairwise_cons.mpr ⟨ordered, sorted⟩, ?_, ?_⟩
          · exact (order.trans (Nat.le_add_right _ _)).trans (ordered other member)
          · rw [List.map_cons, List.nodup_cons]
            exact ⟨fun again => apart.2 again (List.mem_singleton.mpr rfl), nodup⟩
          · rw [List.map_cons, List.disjoint_cons_left]
            exact ⟨fresh, apart.1⟩
    · rintro ⟨fits, ordered, sorted, nodup, apart⟩
      obtain ⟨here, fits⟩ := List.forall_mem_cons.mp fits
      obtain ⟨order, -⟩ := List.forall_mem_cons.mp ordered
      obtain ⟨behind, sorted⟩ := List.pairwise_cons.mp sorted
      rw [List.map_cons, List.nodup_cons] at nodup
      rw [List.map_cons, List.disjoint_cons_left] at apart
      have inside := here.inside
      have present := here.present
      have kind := here.kind
      have known := here.known
      rw [ControlUnit.stop] at inside
      rw [if_neg, if_neg (by simpa using here.ast)]
      · refine inductionHypothesis.mpr ⟨fits, behind, sorted, nodup.2, List.disjoint_append_right.mpr ⟨apart.2, ?_⟩⟩
        rw [List.disjoint_singleton]
        exact nodup.1
      · rintro (⟨notStatement, notCondition⟩ | unknown | again | empty | beyond | long | early)
        · exact kind.elim notStatement notCondition
        · omega
        · exact apart.1 again
        · omega
        · omega
        · omega
        · omega

/-- The units and the statements of an accepted state. -/
theorem validateUnits_mapped {units : List ControlUnit} (sameCount : stmts.length = units.length) :
    validateUnits stmts sqlLength units [] 0 = .ok () ↔
      UnitsMapped stmts.length sqlLength units ∧ ∀ unit ∈ units, unitAstFits unit (stmts[unit.astStatementIndex]?).join := by
  rw [validateUnits_iff]
  constructor
  · rintro ⟨fits, -, sorted, nodup, -⟩
    refine ⟨⟨fun unit member => (fits unit member).kind, fun unit member =>
      ⟨(fits unit member).present, (fits unit member).inside⟩,
      sorted, ?_⟩, fun unit member => (fits unit member).ast⟩
    have within : units.map ControlUnit.astStatementIndex ⊆ List.range stmts.length := by
      intro index member
      obtain ⟨unit, isUnit, rfl⟩ := List.mem_map.mp member
      exact List.mem_range.mpr (fits unit isUnit).known
    apply (nodup.subperm within).perm_of_length_le
    rw [List.length_range, List.length_map, sameCount]
  · rintro ⟨mapped, ast⟩
    refine ⟨fun unit member => ⟨mapped.kinds unit member, ?_, (mapped.inside unit member).1,
      (mapped.inside unit member).2, ast unit member⟩,
      fun _ _ => Nat.zero_le _, mapped.sorted, mapped.onto.nodup_iff.mpr List.nodup_range, List.disjoint_nil_right _⟩
    exact List.mem_range.mp (mapped.onto.subset (List.mem_map_of_mem member))

end units

/-! ## Acceptance -/

section acceptance

variable {state : ControlState}

theorem guard_eq_ok {α : Type} {condition : Prop} [Decidable condition] {failure : Error} {rest : Except Error α}
    {value : α} :
    (if condition then .error failure else rest) = .ok value ↔ ¬ condition ∧ rest = .ok value := by
  split
  next holds => exact ⟨fun other => (nomatch other), fun rest => absurd holds rest.1⟩
  next fails => exact ⟨fun rest => ⟨fails, rest⟩, fun rest => rest.2⟩

theorem bind_eq_ok {α β : Type} {first : Except Error α} {rest : α → Except Error β} {value : β} :
    (first >>= rest) = .ok value ↔ ∃ middle, first = .ok middle ∧ rest middle = .ok value := by
  cases first with
  | error failure => exact ⟨fun other => (nomatch other), fun ⟨_, other, _⟩ => (nomatch other)⟩
  | ok middle => exact ⟨fun rest => ⟨middle, rfl, rest⟩, fun ⟨_, same, rest⟩ => by cases same; exact rest⟩

theorem checkReached_iff {key : Nat → ControlKey} {count : Nat} {failure : Error} {seen : Marks} {value : Unit} :
    checkReached key count failure seen = .ok value ↔ ∀ index < count, key index ∈ seen := by
  rw [checkReached]
  constructor
  · intro reached
    split at reached
    next all => simpa using all
    next => cases reached
  · intro reached
    rw [if_pos (by simpa using reached)]

/-- The walk and the checks behind it accept exactly the forests. -/
theorem walk_iff (valid : state.spanIsValid state.roots) :
    (∃ seen, (state.pooled state.roots).foldlM
        (fun seen item => validateItem state (validateNode state controlMaxDepth) item seen) [] = .ok seen ∧
          state.keys ⊆ seen) ↔
      state.EncodesForest := by
  rw [ControlState.EncodesForest, and_iff_right valid]
  constructor
  · rintro ⟨seen, walked, covers⟩
    obtain ⟨visits, unfolds, nodup, -, same⟩ := (validateRoots_walks [] seen).mp walked
    rw [same, List.nil_append] at covers
    exact ⟨visits, unfolds, (visits_perm_iff unfolds).mpr ⟨nodup, covers⟩⟩
  · rintro ⟨visits, unfolds, perm⟩
    obtain ⟨nodup, covers⟩ := (visits_perm_iff unfolds).mp perm
    exact ⟨visits, (validateRoots_walks [] visits).mpr ⟨visits, unfolds, nodup, List.disjoint_nil_right _, rfl⟩, covers⟩

/-- In a forest every key is well formed. -/
theorem EncodesForest.below {key : ControlKey} (forest : state.EncodesForest) (member : key ∈ state.keys) :
    ∃ children, state.below key = some children ∧ children ⊆ state.keys := by
  obtain ⟨-, visits, unfolds, perm⟩ := forest
  obtain ⟨children, found, listed⟩ := unfolds.closed.2 key (perm.symm.subset member)
  exact ⟨children, found, fun child isChild => perm.subset (listed isChild)⟩

/-- A forest with a node has roots, branches, items and units. -/
theorem EncodesForest.complete (forest : state.EncodesForest) (node : state.nodes.length ≠ 0) :
    state.roots.count ≠ 0 ∧ state.branches.length ≠ 0 ∧ state.items.length ≠ 0 ∧ state.units.length ≠ 0 := by
  have firstNode : ControlKey.node 0 ∈ state.keys := mem_keys.mpr (Nat.pos_of_ne_zero node)
  obtain ⟨children, found, listed⟩ := EncodesForest.below forest firstNode
  rw [ControlState.below] at found
  split at found
  next known _ =>
    split at found
    next shape =>
      cases found
      -- the first branch of the node has a condition and an item
      have length := pooled_length shape.2.2.1
      have some : 0 < (state.pooled known.branches).length := by omega
      have fits := shape.2.2.2 ((state.pooled known.branches)[0], 0) (by
        rw [List.mem_zipIdx_iff_getElem?]
        exact List.getElem?_eq_getElem some)
      have isKey := listed (List.mem_map_of_mem (List.getElem_mem some))
      obtain ⟨below, foundBelow, listedBelow⟩ := EncodesForest.below forest isKey
      rw [ControlState.below] at foundBelow
      rw [ControlState.branchFits] at fits
      split at foundBelow
      next branch isBranch =>
        dsimp only at fits
        rw [isBranch] at fits
        have has : branch.hasCondition = true := by simpa using fits
        split at foundBelow
        next shapeBelow =>
          cases foundBelow
          have lengthBelow := pooled_length shapeBelow.2.1
          have someBelow : 0 < (state.pooled branch.items).length := by omega
          have item := listedBelow (List.mem_append_right _ (List.mem_map_of_mem (List.getElem_mem someBelow)))
          have unit : ControlKey.unit branch.conditionStatementIndex ∈ state.keys := by
            apply listedBelow
            exact List.mem_append_left _ (List.mem_singleton.mpr rfl)
          rw [mem_keys] at isKey item unit
          dsimp only at isKey item unit
          refine ⟨fun none => ?_, by omega, by omega, by omega⟩
          obtain ⟨valid, visits, unfolds, perm⟩ := forest
          rw [List.eq_nil_of_length_eq_zero ((pooled_length valid).trans none)] at unfolds
          cases unfolds
          cases perm.symm.subset firstNode
        next => cases foundBelow
      next => cases foundBelow
    next => cases found
  next => cases found

theorem EncodesForest.spans (forest : state.EncodesForest) :
    (∀ node ∈ state.nodes, state.spanIsValid node.branches) ∧ ∀ branch ∈ state.branches, state.spanIsValid branch.items := by
  constructor
  · intro node member
    obtain ⟨index, inside, rfl⟩ := List.getElem_of_mem member
    have isKey : ControlKey.node index ∈ state.keys := mem_keys.mpr inside
    obtain ⟨children, found, -⟩ := EncodesForest.below forest isKey
    rw [ControlState.below, List.getElem?_eq_getElem inside] at found
    dsimp only at found
    split at found
    next shape => exact shape.2.2.1
    next => cases found
  · intro branch member
    obtain ⟨index, inside, rfl⟩ := List.getElem_of_mem member
    have isKey : ControlKey.branch index ∈ state.keys := mem_keys.mpr inside
    obtain ⟨children, found, -⟩ := EncodesForest.below forest isKey
    rw [ControlState.below, List.getElem?_eq_getElem inside] at found
    dsimp only at found
    split at found
    next shape => exact shape.2.1
    next => cases found

/-- The checks of the validation, one by one. -/
theorem validateState_iff {ast : Except Error (List (Option ControlRawStmt))} {sqlLength : Nat} :
    validateState ast sqlLength state = .ok () ↔
      ¬ (state.roots.count = 0 ∨ state.nodes.length = 0 ∨ state.branches.length = 0 ∨ state.items.length = 0 ∨
        state.units.length = 0 ∨ !state.spanIsValid state.roots) ∧
      ∃ stmts, ast = .ok stmts ∧ ¬ stmts.length ≠ state.units.length ∧
      ∃ branchRefs, countReferences state (invalidState "control branch span is invalid")
        (state.nodes.map ControlNode.branches) 0 = .ok branchRefs ∧
      ∃ itemRefs, countReferences state (invalidState "control item span is invalid")
        (state.branches.map ControlBranch.items) state.roots.count = .ok itemRefs ∧
      ¬ (branchRefs ≠ state.branches.length ∨ itemRefs ≠ state.items.length ∨ branchRefs + itemRefs > sizeMax ∨
          branchRefs + itemRefs ≠ state.indexPool.length) ∧
      ¬ scratchCount state > sizeMax ∧
      validateUnits stmts sqlLength state.units [] 0 = .ok () ∧
      ∃ seen, (state.pooled state.roots).foldlM
        (fun seen item => validateItem state (validateNode state controlMaxDepth) item seen) [] = .ok seen ∧
        state.keys ⊆ seen := by
  simp only [validateState, guard_eq_ok, bind_eq_ok, checkReached_iff, keys_subset_iff, Unique.exists_iff]

end acceptance

/-- The validation accepts exactly the forests whose units are mapped to the statements, where there is a node, the
index pool holds the references and nothing else, the marks can be sized, and the conditions are queries. -/
theorem control_state_valid_iff (ast : Except Error (List (Option ControlRawStmt))) (sqlLength : Nat) (state : ControlState) :
    validateState ast sqlLength state = .ok () ↔
      state.EncodesForest ∧
        (∃ stmts, ast = .ok stmts ∧ UnitsMapped stmts.length sqlLength state.units ∧
          ∀ unit ∈ state.units, unitAstFits unit (stmts[unit.astStatementIndex]?).join) ∧
        state.nodes ≠ [] ∧ state.indexPool.length = state.branches.length + state.items.length ∧
        scratchCount state ≤ sizeMax := by
  rw [validateState_iff]
  constructor
  · rintro ⟨complete, stmts, parsed, sameCount, branchRefs, branches, itemRefs, items, pool, scratch, units, walked⟩
    simp only [not_or, Bool.not_eq_true', Bool.not_eq_false] at complete pool
    obtain ⟨-, node, -, -, -, valid⟩ := complete
    have forest := (walk_iff valid).mp walked
    refine ⟨forest, ⟨stmts, parsed, (validateUnits_mapped (Decidable.not_not.mp sameCount)).mp units⟩, ?_, by omega, by omega⟩
    rintro empty
    exact node (by rw [empty]; rfl)
  · rintro ⟨forest, ⟨stmts, parsed, mapped, ast⟩, node, pool, scratch⟩
    have node : state.nodes.length ≠ 0 := fun empty => node (List.eq_nil_of_length_eq_zero empty)
    have complete := EncodesForest.complete forest node
    obtain ⟨branchesValid, itemsValid⟩ := EncodesForest.spans forest
    have counts : (state.nodes.map fun node => node.branches.count).sum = state.branches.length ∧
        state.roots.count + (state.branches.map fun branch => branch.items.count).sum = state.items.length := by
      obtain ⟨valid, visits, unfolds, perm⟩ := forest
      exact forest_counts valid unfolds perm
    have sameCount : stmts.length = state.units.length := by
      have lengths := mapped.onto.length_eq
      rw [List.length_map, List.length_range] at lengths
      exact lengths.symm
    have branches := @countReferences_of state (state.nodes.map ControlNode.branches) 0
      (invalidState "control branch span is invalid") (List.forall_mem_map.mpr branchesValid)
    have items := @countReferences_of state (state.branches.map ControlBranch.items) state.roots.count
      (invalidState "control item span is invalid") (List.forall_mem_map.mpr itemsValid)
    simp only [List.map_map, Function.comp_def, counts.1, counts.2, Nat.zero_add] at branches items
    unfold scratchCount at scratch
    refine ⟨?_, stmts, parsed, not_not.mpr sameCount, state.branches.length, ?_, state.items.length, ?_, ?_, ?_,
      (validateUnits_mapped sameCount).mpr ⟨mapped, ast⟩, (walk_iff forest.1).mpr forest⟩
    · simp only [not_or]
      exact ⟨complete.1, node, complete.2.1, complete.2.2.1, complete.2.2.2, by simpa using forest.1⟩
    · exact branches (by omega)
    · exact items (by omega)
    · simp only [not_or, not_not]
      exact ⟨trivial, trivial, by omega, by omega⟩
    · rw [scratchCount]
      omega

/-- An IF with one statement, and an entry of the pool that nothing refers to. -/
def unusedEntry : ControlState where
  roots := ⟨0, 1⟩
  nodes := [⟨.ifNode, ⟨1, 1⟩⟩]
  branches := [⟨0, true, ⟨2, 1⟩⟩]
  items := [⟨.node, 0⟩, ⟨.statement, 1⟩]
  indexPool := [0, 0, 1, 0]
  units := [⟨.condition, 0, 3, 5⟩, ⟨.statement, 1, 9, 8⟩]

/-- A forest is refused where its index pool has an entry too many. -/
theorem control_state_unused_entry :
    unusedEntry.EncodesForest ∧ UnitsMapped 2 17 unusedEntry.units ∧
      validateState (.ok [some ⟨some (.selectStmt (some true))⟩, some ⟨some .other⟩]) 17 unusedEntry ≠ .ok () := by
  have walked : (unusedEntry.pooled unusedEntry.roots).foldlM
      (fun seen item => validateItem unusedEntry (validateNode unusedEntry controlMaxDepth) item seen) [] =
      .ok [.item 0, .node 0, .branch 0, .unit 0, .item 1, .unit 1] := rfl
  have refused : validateState (.ok [some ⟨some (.selectStmt (some true))⟩, some ⟨some .other⟩]) 17 unusedEntry =
      .error (invalidState "control index pool is inconsistent") := rfl
  refine ⟨(walk_iff rfl).mp ⟨_, walked, by decide⟩, ⟨by decide, by decide, by decide, by decide⟩, ?_⟩
  rw [refused]
  exact fun accepted => nomatch accepted

end SqlParser.Core
