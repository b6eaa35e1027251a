import SqlParser.Sqlserver.ControlParse

/-! # The parser builds forests

What the passes store encodes the trees that they have read: every index is reached from the roots
exactly once, the units stand in the order of the text, and the validation accepts the state.
-/

namespace SqlParser.Sqlserver

open SqlParser.Core
open SqlParser.Library.Unfolding

/-! ## Keys of a tree -/

/-- How often a key is one of so many entries from some slots on. -/
def keyCount (slots size : Tally) : ControlKey → Nat
  | .node index => within slots.node size.node index
  | .branch index => within slots.branch size.branch index
  | .item index => within slots.item size.item index
  | .unit index => within slots.unit size.unit index

theorem keyCount_add (slots left right : Tally) (key : ControlKey) :
    keyCount slots (left + right) key = keyCount slots left key + keyCount (slots + left) right key := by
  cases key <;> simp [keyCount, within_add]

theorem keyCount_zero (slots : Tally) (key : ControlKey) : keyCount slots {} key = 0 := by
  cases key <;> simp [keyCount]

def ControlTree.key (slots : Tally) : ControlTree → ControlKey
  | .statement _ _ => .unit slots.unit
  | _ => .node slots.node

/-- Everything that a progress stores is in the state. -/
def Progress.Held (state : ControlState) (progress : Progress) : Prop :=
  ∀ write ∈ progress.laid ++ progress.filled, write.Holds state

/-- Some keys unfold into the entries from some slots on, each of them once. -/
def Unfolded (state : ControlState) (levels : Nat) (slots size : Tally) (keys : List ControlKey) : Prop :=
  ∃ visits, state.Reaches levels keys visits ∧ ∀ key, visits.count key = keyCount slots size key

section forests

variable {state : ControlState} {levels : Nat} {slots left right : Tally} {keys others children : List ControlKey}
  {key : ControlKey} {first second : Progress}

theorem held_append : (first ++ second).Held state ↔ first.Held state ∧ second.Held state := by
  simp only [Progress.Held, Progress.append_laid, Progress.append_filled, List.mem_append]
  constructor
  · intro held
    exact ⟨fun write listed => held write (listed.imp Or.inl Or.inl), fun write listed => held write (listed.imp Or.inr Or.inr)⟩
  · rintro ⟨front, back⟩ write ((listed | listed) | (listed | listed))
    · exact front write (.inl listed)
    · exact back write (.inl listed)
    · exact front write (.inr listed)
    · exact back write (.inr listed)

theorem Unfolded.nil : Unfolded state levels slots {} [] :=
  ⟨[], .nil, fun key => (keyCount_zero slots key).symm⟩

theorem Unfolded.append (front : Unfolded state levels slots left keys)
    (back : Unfolded state levels (slots + left) right others) : Unfolded state levels slots (left + right) (keys ++ others) := by
  obtain ⟨visits, unfolds, counts⟩ := front
  obtain ⟨behind, unfoldsBehind, countsBehind⟩ := back
  refine ⟨visits ++ behind, Unfolds.append_iff.mpr ⟨visits, behind, unfolds, unfoldsBehind, rfl⟩, fun key => ?_⟩
  rw [List.count_append, counts, countsBehind, keyCount_add]

/-- A key stands in front of what is below it. -/
theorem Unfolded.above (found : state.below key = some children) (room : key.isNode.toNat ≤ levels)
    (below : Unfolded state (levels - key.isNode.toNat) (slots + left) right children)
    (own : ∀ other, [key].count other = keyCount slots left other) :
    Unfolded state levels slots (left + right) [key] := by
  obtain ⟨visits, unfolds, counts⟩ := below
  refine ⟨key :: visits, Unfolds.singleton_iff.mpr ⟨children, visits, found, room, unfolds, rfl⟩, fun other => ?_⟩
  rw [← List.singleton_append, List.count_append, own, counts, keyCount_add]

theorem below_unit {index : Nat} {unit : ControlUnit} (found : state.units[index]? = some unit) :
    state.below (.unit index) = some [] ∧ state.unitKind index = some unit.kind := by
  obtain ⟨inside, -⟩ := List.getElem?_eq_some_iff.mp found
  exact ⟨if_pos inside, congrArg (Option.map ControlUnit.kind) found⟩

theorem Unfolded.unit {index : Nat} {unit : ControlUnit} (found : state.units[index]? = some unit) (isUnit : slots.unit = index) :
    Unfolded state levels slots ⟨0, 0, 0, 1⟩ [.unit index] := by
  refine ⟨[.unit index], Unfolds.singleton_iff.mpr ⟨[], [], (below_unit found).1, Nat.zero_le _, .nil, rfl⟩, fun key => ?_⟩
  cases key <;> simp [keyCount, within_one, isUnit, List.count_cons]

/-- The references of a sequence are one behind the other in the pool. -/
theorem pooled_cons {offset count value : Nat} (found : state.indexPool[offset]? = some value) :
    state.pooled ⟨offset, count + 1⟩ = value :: state.pooled ⟨offset + 1, count⟩ := by
  obtain ⟨inside, rfl⟩ := List.getElem?_eq_some_iff.mp found
  rw [ControlState.pooled, ControlState.pooled, List.drop_eq_getElem_cons inside, List.take_succ_cons]

@[simp]
theorem pooled_zero (offset : Nat) : state.pooled ⟨offset, 0⟩ = [] := by
  rw [ControlState.pooled, List.take_zero]

/-- The items of a branch, as far as they are written. -/
structure BodyHeld (state : ControlState) (levels : Nat) (slots : Tally) (trees : ControlTrees) (offset : Nat) : Prop where
  items : Unfolded state levels slots trees.size ((state.pooled ⟨offset, trees.count⟩).map .item)
  references : ∀ index < trees.count, offset + index < state.indexPool.length

theorem BodyHeld.valid {trees : ControlTrees} {offset : Nat} (body : BodyHeld state levels slots trees offset) (full : trees.isEmpty = false) :
    trees.count ≠ 0 ∧ state.spanIsValid ⟨offset, trees.count⟩ := by
  have positive := ControlTrees.count_pos full
  have last := body.references (trees.count - 1) (by omega)
  refine ⟨Nat.ne_of_gt positive, ?_⟩
  simp only [ControlState.spanIsValid, Bool.and_eq_true, decide_eq_true_eq]
  omega

/-- What is below a branch with a condition, and below one without. -/
theorem below_branch {index offset count : Nat} {branch : ControlBranch} (found : state.branches[index]? = some branch)
    (items : branch.items = ⟨offset, count⟩) (full : count ≠ 0) (valid : state.spanIsValid ⟨offset, count⟩) :
    (branch.hasCondition = true → state.unitKind branch.conditionStatementIndex = some .condition →
      state.below (.branch index) =
        some (.unit branch.conditionStatementIndex :: (state.pooled ⟨offset, count⟩).map .item)) ∧
    (branch.hasCondition = false → state.below (.branch index) = some ((state.pooled ⟨offset, count⟩).map .item)) := by
  rw [ControlState.below, found]
  constructor
  · intro has kind
    simp [items, full, valid, has, kind]
  · intro has
    simp [items, full, valid, has]

end forests

/-! ## The stores of a tree -/

section stores

variable {state : ControlState} {tokens : List Token} {levels : Nat} {cursors : Cursors} {trees : ControlTrees}

theorem held_items {branch : Nat} (held : (trees.bodyProgress tokens branch cursors).Held state) :
    (∃ found, state.branches[branch]? = some found ∧ found.items = ⟨cursors.itemRef, trees.count⟩) ∧
      (trees.progress tokens cursors.itemRef (cursors.past (takesItems branch trees.count cursors))).Held state := by
  unfold ControlTrees.bodyProgress at held
  dsimp only at held
  rw [held_append, held_append] at held
  obtain ⟨⟨offset, inside⟩, count⟩ := held
  obtain ⟨found, known, isOffset⟩ := offset (.branchOffset branch cursors.itemRef) List.mem_cons_self
  obtain ⟨same, knownSame, isCount⟩ := count (.branchCount branch trees.count) List.mem_cons_self
  rw [known] at knownSame
  cases knownSame
  refine ⟨⟨found, known, ?_⟩, inside⟩
  rw [← isOffset, ← isCount]

/-- What is stored from an IF to its first branch. -/
structure HeadHeld (state : ControlState) (cursors : Cursors) : Prop where
  node : ∃ node, state.nodes[cursors.slots.node]? = some node ∧ node.kind = .ifNode ∧
    node.branches.offset = cursors.branchRef
  unit : ∃ unit, state.units[cursors.slots.unit]? = some unit ∧ unit.kind = .condition
  reference : state.indexPool[cursors.branchRef]? = some cursors.slots.branch
  branch : ∃ branch, state.branches[cursors.slots.branch]? = some branch ∧
    branch.conditionStatementIndex = cursors.slots.unit ∧ branch.hasCondition = true

theorem held_head {branches start stop : Nat} (held : (takesHead tokens branches start stop cursors).Held state) :
    HeadHeld state cursors := by
  unfold takesHead at held
  dsimp only at held
  rw [held_append, held_append] at held
  obtain ⟨⟨node, unit⟩, branch⟩ := held
  refine ⟨?_, ⟨_, unit (.unit _ _) List.mem_cons_self, rfl⟩, ?_, ?_⟩
  · exact node (.nodeOffset _ _) List.mem_cons_self
  · exact branch (.reference _ _) List.mem_cons_self
  · exact branch (.condition _ _) (List.mem_cons_of_mem _ List.mem_cons_self)

/-- A branch unfolds into itself, its condition where there is one, and its items. -/
theorem first_unfolded {branch : ControlBranch} {offset : Nat} (head : HeadHeld state cursors)
    (found : state.branches[cursors.slots.branch]? = some branch) (items : branch.items = ⟨offset, trees.count⟩)
    (full : trees.isEmpty = false)
    (body : BodyHeld state levels (cursors.slots + ⟨1, 1, 0, 1⟩) trees offset) :
    Unfolded state levels (cursors.slots + ⟨1, 0, 0, 0⟩) (⟨0, 1, 0, 1⟩ + trees.size) [.branch cursors.slots.branch] := by
  obtain ⟨some, valid⟩ := body.valid full
  obtain ⟨unit, unitFound, kind⟩ := head.unit
  obtain ⟨same, sameFound, condition, has⟩ := head.branch
  rw [found] at sameFound
  cases sameFound
  have isCondition := (below_unit unitFound).2.trans (congrArg Option.some kind)
  rw [← condition] at isCondition
  have below := (below_branch found items some valid).1 has isCondition
  rw [condition] at below
  have parts : (⟨0, 1, 0, 1⟩ : Tally) + trees.size = ⟨0, 1, 0, 0⟩ + (⟨0, 0, 0, 1⟩ + trees.size) := by
    ext <;> simp
  rw [parts]
  refine Unfolded.above below (Nat.zero_le _) ?_ fun key => by
    cases key <;> simp [keyCount, within_one, List.count_cons]
  have unitUnfolded : Unfolded state levels (cursors.slots + ⟨1, 1, 0, 0⟩) ⟨0, 0, 0, 1⟩ [.unit cursors.slots.unit] :=
    Unfolded.unit unitFound rfl
  exact unitUnfolded.append body.items

theorem second_unfolded {branch : ControlBranch} {offset : Nat} (found : state.branches[cursors.slots.branch]? = some branch)
    (items : branch.items = ⟨offset, trees.count⟩) (lacks : branch.hasCondition = false) (full : trees.isEmpty = false)
    (body : BodyHeld state levels (cursors.slots + ⟨0, 1, 0, 0⟩) trees offset) :
    Unfolded state levels cursors.slots (⟨0, 1, 0, 0⟩ + trees.size) [.branch cursors.slots.branch] := by
  obtain ⟨some, valid⟩ := body.valid full
  refine Unfolded.above ((below_branch found items some valid).2 lacks) (Nat.zero_le _) ?_ fun key => by
    cases key <;> simp [keyCount, within_one, List.count_cons]
  exact body.items

/-- What is below a node with its branches. -/
theorem below_node {branches : List Nat}
    (counted : ControlWrite.Holds state (.nodeCount cursors.slots.node branches.length)) (head : HeadHeld state cursors)
    (length : branches.length = 1 ∨ branches.length = 2)
    (inside : cursors.branchRef + branches.length ≤ state.indexPool.length)
    (pooled : state.pooled ⟨cursors.branchRef, branches.length⟩ = branches)
    (fit : ∀ branch ∈ branches.zipIdx, state.branchFits branch) :
    state.below (.node cursors.slots.node) = some (branches.map .branch) := by
  obtain ⟨node, found, kind, offset⟩ := head.node
  obtain ⟨same, sameFound, count⟩ := counted
  rw [found] at sameFound
  cases sameFound
  have span : node.branches = ⟨cursors.branchRef, branches.length⟩ := by rw [← offset, ← count]
  have valid : state.spanIsValid ⟨cursors.branchRef, branches.length⟩ := by
    simp only [ControlState.spanIsValid, Bool.and_eq_true, decide_eq_true_eq]
    omega
  rw [ControlState.below, found]
  dsimp only
  rw [span, pooled]
  exact if_pos ⟨kind, length, valid, fit⟩

theorem HeadHeld.first_fits (head : HeadHeld state cursors) : state.branchFits (cursors.slots.branch, 0) := by
  obtain ⟨branch, found, -, has⟩ := head.branch
  simp [ControlState.branchFits, found, has]

/-- What is below a node with one branch. -/
theorem below_then (head : HeadHeld state cursors) (counted : ControlWrite.Holds state (.nodeCount cursors.slots.node 1)) :
    state.below (.node cursors.slots.node) = some [.branch cursors.slots.branch] := by
  obtain ⟨inside, -⟩ := List.getElem?_eq_some_iff.mp head.reference
  refine @below_node state cursors [cursors.slots.branch] counted head (.inl rfl) inside ?_ fun branch listed => ?_
  · exact (pooled_cons head.reference).trans (congrArg _ (pooled_zero _))
  · obtain rfl := List.mem_singleton.mp listed
    exact head.first_fits

/-- What is below a node with two branches. -/
theorem below_else {second : Nat} {branch : ControlBranch} (head : HeadHeld state cursors)
    (counted : ControlWrite.Holds state (.nodeCount cursors.slots.node 2))
    (reference : state.indexPool[cursors.branchRef + 1]? = some second) (found : state.branches[second]? = some branch)
    (lacks : branch.hasCondition = false) :
    state.below (.node cursors.slots.node) = some [.branch cursors.slots.branch, .branch second] := by
  obtain ⟨inside, -⟩ := List.getElem?_eq_some_iff.mp reference
  refine @below_node state cursors [cursors.slots.branch, second] counted head (.inr rfl) inside ?_ fun other listed => ?_
  · have later := (@pooled_cons state _ 0 _ reference).trans (congrArg _ (pooled_zero _))
    exact (pooled_cons head.reference).trans (congrArg _ later)
  · rw [List.zipIdx_cons, List.zipIdx_cons, List.mem_cons, List.mem_cons] at listed
    obtain rfl | rfl | nothing := listed
    · exact head.first_fits
    · simp [ControlState.branchFits, found, lacks]
    · cases nothing

theorem node_unfolded {size : Tally} {children : List ControlKey} {slots : Tally}
    (below : state.below (.node slots.node) = some children) (room : 0 < levels)
    (inside : Unfolded state (levels - 1) (slots + ⟨1, 0, 0, 0⟩) size children) :
    Unfolded state levels slots (⟨1, 0, 0, 0⟩ + size) [.node slots.node] := by
  refine Unfolded.above below room inside fun key => ?_
  cases key <;> simp [keyCount, within_one, List.count_cons]

theorem below_item {index : Nat} {slots : Tally} {tree : ControlTree}
    (found : state.items[index]? = some ⟨tree.kind, tree.index slots⟩)
    (kind : tree.kind = .statement → state.unitKind slots.unit = some .statement) :
    state.below (.item index) = some [tree.key slots] := by
  rw [ControlState.below, found]
  cases tree with
  | statement start stop => exact if_pos (kind rfl)
  | ifThen start stop first => rfl
  | ifElse start stop first second => rfl

end stores

/-! ## Trees unfold -/

section unfolds

variable (state : ControlState) (tokens : List Token)

theorem itemProgress_held {tree : ControlTree} {cursors : Cursors} (held : (tree.itemProgress tokens cursors).Held state) :
    (tree.progress tokens (cursors.past { size := .one .item })).Held state ∧
      state.items[cursors.slots.item]? = some ⟨tree.kind, tree.index (cursors.past { size := .one .item }).slots⟩ := by
  unfold ControlTree.itemProgress at held
  dsimp only at held
  rw [held_append, held_append] at held
  exact ⟨held.1.2, held.2 (.item _ _) List.mem_cons_self⟩

mutual

theorem ControlTree.unfolded (tree : ControlTree) (levels : Nat) (cursors : Cursors) (proper : tree.Proper levels)
    (held : (tree.progress tokens cursors).Held state) :
    Unfolded state levels cursors.slots tree.size [tree.key cursors.slots] ∧
      (tree.kind = .statement → state.unitKind cursors.slots.unit = some .statement) := by
  cases tree with
  | statement start stop =>
    rw [ControlTree.progress] at held
    have found : state.units[cursors.slots.unit]? = _ := held (.unit _ _) List.mem_cons_self
    rw [ControlTree.size]
    exact ⟨Unfolded.unit found rfl, fun _ => (below_unit found).2⟩
  | ifThen start stop first =>
    rw [ControlTree.Proper] at proper
    obtain ⟨room, full, inner⟩ := proper
    rw [ControlTree.progress_ifThen] at held
    dsimp only at held
    rw [held_append, held_append] at held
    obtain ⟨⟨heads, bodies⟩, count⟩ := held
    have head := held_head heads
    obtain ⟨⟨branch, isBranch, items⟩, inside⟩ := held_items bodies
    have body : BodyHeld state (levels - 1) (cursors.slots + ⟨1, 1, 0, 1⟩) first _ := first.unfolded (levels - 1) _ _ inner inside
    have branches := first_unfolded head isBranch items full body
    have below := below_then head (count (.nodeCount cursors.slots.node 1) List.mem_cons_self)
    have parts : (⟨1, 1, 0, 1⟩ : Tally) + first.size = ⟨1, 0, 0, 0⟩ + (⟨0, 1, 0, 1⟩ + first.size) := by
      ext <;> simp
    rw [ControlTree.size, parts]
    exact ⟨node_unfolded below room branches, fun kind => by cases kind⟩
  | ifElse start stop first second =>
    rw [ControlTree.Proper] at proper
    obtain ⟨room, ⟨firstFull, firstInner⟩, secondFull, secondInner⟩ := proper
    have head := takesHead_spans tokens 2 start stop cursors
    have bodySpans := head.append (ControlTrees.bodyProgress_spans tokens (first.progress_spans tokens) cursors.slots.branch
      (cursors.past (takesHead tokens 2 start stop cursors)))
    rw [ControlTree.progress_ifElse] at held
    dsimp only at held
    rw [held_append, held_append, held_append, held_append] at held
    obtain ⟨⟨⟨⟨heads, firstBodies⟩, others⟩, secondBodies⟩, count⟩ := held
    have head := held_head heads
    obtain ⟨⟨firstBranch, isFirst, firstItems⟩, firstInside⟩ := held_items firstBodies
    have firstBody : BodyHeld state (levels - 1) (cursors.slots + ⟨1, 1, 0, 1⟩) first _ :=
      first.unfolded (levels - 1) _ _ firstInner firstInside
    have firstUnfolded := first_unfolded head isFirst firstItems firstFull firstBody
    generalize takesHead tokens 2 start stop cursors ++ first.bodyProgress tokens cursors.slots.branch
      (cursors.past (takesHead tokens 2 start stop cursors)) = bodied at *
    -- the branch behind ELSE begins behind everything of the first one
    have slots : (cursors.past bodied).slots = cursors.slots + ⟨1, 0, 0, 0⟩ + (⟨0, 1, 0, 1⟩ + first.size) := by
      rw [past_slots, bodySpans.size]
      ext <;> simp <;> omega
    obtain ⟨⟨secondBranch, isSecond, secondItems⟩, secondInside⟩ := held_items secondBodies
    obtain ⟨same, sameFound, lacks⟩ := others (.otherwise _) (List.mem_cons_of_mem _ List.mem_cons_self)
    rw [isSecond] at sameFound
    cases sameFound
    have secondBody : BodyHeld state (levels - 1) ((cursors.past bodied).slots + ⟨0, 1, 0, 0⟩) second _ :=
      second.unfolded (levels - 1) _ _ secondInner secondInside
    have secondUnfolded := second_unfolded isSecond secondItems lacks secondFull secondBody
    have below := below_else head (count (.nodeCount cursors.slots.node 2) List.mem_cons_self)
      (others (.reference _ _) List.mem_cons_self) isSecond lacks
    rw [slots] at secondUnfolded
    have parts : (⟨1, 1, 0, 1⟩ : Tally) + first.size + (⟨0, 1, 0, 0⟩ + second.size) =
        ⟨1, 0, 0, 0⟩ + ((⟨0, 1, 0, 1⟩ + first.size) + (⟨0, 1, 0, 0⟩ + second.size)) := by
      ext <;> simp <;> omega
    rw [ControlTree.size, parts]
    refine ⟨node_unfolded below room ?_, fun kind => by cases kind⟩
    rw [slots]
    exact firstUnfolded.append secondUnfolded
termination_by sizeOf tree

theorem ControlTrees.unfolded (trees : ControlTrees) (levels refOffset : Nat) (cursors : Cursors)
    (proper : trees.Proper levels) (held : (trees.progress tokens refOffset cursors).Held state) :
    BodyHeld state levels cursors.slots trees refOffset := by
  cases trees with
  | nil =>
    refine ⟨?_, fun index inside => absurd inside (Nat.not_lt_zero index)⟩
    rw [ControlTrees.count, ControlTrees.size, pooled_zero]
    exact .nil
  | cons head rest =>
    rw [ControlTrees.Proper] at proper
    rw [ControlTrees.progress_cons] at held
    dsimp only at held
    rw [held_append, held_append] at held
    obtain ⟨⟨item, reference⟩, later⟩ := held
    have isReference : state.indexPool[refOffset]? = some cursors.slots.item :=
      reference (.reference _ _) List.mem_cons_self
    obtain ⟨target, isItem⟩ := itemProgress_held state tokens item
    obtain ⟨inside, isStatement⟩ := head.unfolded levels _ proper.1 target
    have behind := rest.unfolded levels (refOffset + 1) _ proper.2 later
    have spans := head.progress_spans tokens (cursors.past { size := .one .item })
    have slots : (cursors.past (head.itemProgress tokens cursors ++
        { filled := [.reference refOffset cursors.slots.item] })).slots = cursors.slots + (⟨0, 0, 1, 0⟩ + head.size) := by
      unfold ControlTree.itemProgress
      dsimp only
      rw [past_slots, Progress.append_size, Progress.append_size, Progress.append_size, spans.size]
      rfl
    have own : Unfolded state levels cursors.slots (⟨0, 0, 1, 0⟩ + head.size) [.item cursors.slots.item] := by
      refine Unfolded.above (below_item isItem isStatement) (Nat.zero_le _) inside fun key => ?_
      cases key <;> simp [keyCount, within_one, List.count_cons]
    obtain ⟨items, references⟩ := behind
    rw [slots] at items
    refine ⟨?_, fun index before => ?_⟩
    · rw [ControlTrees.size, ControlTrees.count, pooled_cons isReference, List.map_cons, ← List.singleton_append]
      exact own.append items
    · cases index with
      | zero => exact (List.getElem?_eq_some_iff.mp isReference).1
      | succ index =>
        have := references index (Nat.lt_of_succ_lt_succ before)
        omega
termination_by sizeOf trees

end

end unfolds

/-! ## Units -/

/-- Some units stand in the array from an index on, numbered by their places. -/
def Stored (state : ControlState) (tokens : List Token) (offset : Nat) (units : List UnitSpan) : Prop :=
  ∀ index unit, units[index]? = some unit →
    state.units[offset + index]? = some (unitOf tokens unit.kind (offset + index) unit.start unit.stop)

section units

variable (state : ControlState) (tokens : List Token)

variable {state tokens} in
theorem Stored.append {offset next : Nat} {left right : List UnitSpan} (front : Stored state tokens offset left)
    (length : next = offset + left.length) (back : Stored state tokens next right) :
    Stored state tokens offset (left ++ right) := by
  intro index unit found
  by_cases inside : index < left.length
  · rw [List.getElem?_append_left inside] at found
    exact front index unit found
  · rw [List.getElem?_append_right (Nat.le_of_not_lt inside)] at found
    have stored := back _ unit found
    have place : next + (index - left.length) = offset + index := by omega
    rw [place] at stored
    exact stored

variable {state tokens} in
theorem stored_single {offset start stop : Nat} {kind : ControlUnitKind}
    (found : state.units[offset]? = some (unitOf tokens kind offset start stop)) :
    Stored state tokens offset [⟨kind, start, stop⟩] := by
  intro index unit known
  cases index with
  | zero =>
    cases known
    exact found
  | succ index => cases known

theorem takesHead_stored {branches start stop : Nat} {cursors : Cursors}
    (held : (takesHead tokens branches start stop cursors).Held state) :
    Stored state tokens cursors.slots.unit [⟨.condition, start, stop⟩] := by
  unfold takesHead at held
  dsimp only at held
  rw [held_append, held_append] at held
  exact stored_single (held.1.2 (.unit _ _) List.mem_cons_self)

mutual

theorem ControlTree.units_stored (tree : ControlTree) (cursors : Cursors) (held : (tree.progress tokens cursors).Held state) :
    Stored state tokens cursors.slots.unit tree.units := by
  cases tree with
  | statement start stop =>
    rw [ControlTree.progress] at held
    rw [ControlTree.units]
    exact stored_single (held (.unit _ _) List.mem_cons_self)
  | ifThen start stop first =>
    rw [ControlTree.progress_ifThen] at held
    dsimp only at held
    rw [held_append, held_append] at held
    have inside := first.units_stored _ _ (held_items held.1.2).2
    rw [ControlTree.units, ← List.singleton_append]
    exact (takesHead_stored state tokens held.1.1).append rfl inside
  | ifElse start stop first second =>
    have spans := (takesHead_spans tokens 2 start stop cursors).append (ControlTrees.bodyProgress_spans tokens
      (first.progress_spans tokens) cursors.slots.branch (cursors.past (takesHead tokens 2 start stop cursors)))
    rw [ControlTree.progress_ifElse] at held
    dsimp only at held
    rw [held_append, held_append, held_append, held_append] at held
    have inside := first.units_stored _ _ (held_items held.1.1.1.2).2
    have others := second.units_stored _ _ (held_items held.1.2).2
    rw [ControlTree.units, ← List.singleton_append, ← List.append_assoc]
    refine ((takesHead_stored state tokens held.1.1.1.1).append rfl inside).append ?_ others
    rw [past_slots, past_slots, Progress.append_size, spans.size, List.length_append, first.units_length]
    simp [takesItems, takesSecond, Tally.one, Tally.bump]
termination_by sizeOf tree

theorem ControlTrees.units_stored (trees : ControlTrees) (refOffset : Nat) (cursors : Cursors)
    (held : (trees.progress tokens refOffset cursors).Held state) : Stored state tokens cursors.slots.unit trees.units := by
  cases trees with
  | nil =>
    rw [ControlTrees.units]
    exact fun index unit found => by cases found
  | cons head rest =>
    have spans := head.progress_spans tokens (cursors.past { size := .one .item })
    rw [ControlTrees.progress_cons] at held
    dsimp only at held
    rw [held_append, held_append] at held
    have here := head.units_stored _ (itemProgress_held state tokens held.1.1).1
    have later := rest.units_stored _ _ held.2
    rw [ControlTrees.units]
    refine here.append ?_ later
    unfold ControlTree.itemProgress
    dsimp only
    rw [past_slots, past_slots, Progress.append_size, Progress.append_size, Progress.append_size, spans.size,
      head.units_length]
    simp
    omega
termination_by sizeOf trees

end

end units

/-! ## The index pool -/

def IndexSpan.covers (span : IndexSpan) (place : Nat) : Bool :=
  span.offset ≤ place && place < span.offset + span.count

/-- Some spans stand one behind the other, whatever their order, and fill so many places from a first one on. -/
def Tiles (spans : List IndexSpan) (first size : Nat) : Prop :=
  ∀ place, spans.countP (IndexSpan.covers · place) = within first size place

section pool

variable {state : ControlState} {tokens : List Token}

theorem Tiles.nil (first : Nat) : Tiles [] first 0 :=
  fun place => (within_zero first place).symm

theorem Tiles.single (offset count : Nat) : Tiles [⟨offset, count⟩] offset count := by
  intro place
  rw [List.countP_singleton]
  simp [IndexSpan.covers, within]

theorem Tiles.append {left right : List IndexSpan} {first next leftSize rightSize : Nat} (front : Tiles left first leftSize)
    (place : next = first + leftSize) (back : Tiles right next rightSize) :
    Tiles (left ++ right) first (leftSize + rightSize) := by
  intro index
  rw [List.countP_append, front, back, place, within_add]

/-- The entries of an array from an index on. -/
def entries {Entry : Type} (array : List Entry) (start count : Nat) : List Entry :=
  (array.drop start).take count

theorem entries_add {Entry : Type} (array : List Entry) (start left right : Nat) :
    entries array start (left + right) = entries array start left ++ entries array (start + left) right := by
  rw [entries, List.take_add, List.drop_drop]
  rfl

theorem entries_one {Entry : Type} {array : List Entry} {start : Nat} {entry : Entry} (found : array[start]? = some entry) :
    entries array start 1 = [entry] := by
  obtain ⟨inside, rfl⟩ := List.getElem?_eq_some_iff.mp found
  rw [entries, List.drop_eq_getElem_cons inside, List.take_succ_cons, List.take_zero]

/-- The spans of the nodes and branches that a progress takes fill the references that it takes. -/
structure SpansHeld (state : ControlState) (cursors : Cursors) (progress : Progress) : Prop where
  nodes : Tiles ((entries state.nodes cursors.slots.node progress.size.node).map ControlNode.branches) cursors.branchRef
    progress.branchRefs
  branches : Tiles ((entries state.branches cursors.slots.branch progress.size.branch).map ControlBranch.items)
    cursors.itemRef progress.itemRefs

variable {cursors : Cursors} {first second progress : Progress}

theorem SpansHeld.append (front : SpansHeld state cursors first) (back : SpansHeld state (cursors.past first) second) :
    SpansHeld state cursors (first ++ second) := by
  constructor
  · rw [Progress.append_size, Tally.add_node, entries_add, List.map_append]
    exact front.nodes.append rfl back.nodes
  · rw [Progress.append_size, Tally.add_branch, entries_add, List.map_append]
    exact front.branches.append rfl back.branches

/-- What takes no node, branch or reference. -/
theorem spans_quiet (node : progress.size.node = 0) (branch : progress.size.branch = 0)
    (branchRefs : progress.branchRefs = 0) (itemRefs : progress.itemRefs = 0) : SpansHeld state cursors progress := by
  constructor
  · rw [node, branchRefs]
    exact .nil _
  · rw [branch, itemRefs]
    exact .nil _

/-- The first branch with the node in front of it. -/
theorem spans_head {branches start stop count : Nat} {node : ControlNode} {branch : ControlBranch}
    (isNode : state.nodes[cursors.slots.node]? = some node) (nodeSpan : node.branches = ⟨cursors.branchRef, branches⟩)
    (isBranch : state.branches[cursors.slots.branch]? = some branch) (branchSpan : branch.items = ⟨cursors.itemRef, count⟩) :
    SpansHeld state cursors (takesHead tokens branches start stop cursors ++
      takesItems cursors.slots.branch count (cursors.past (takesHead tokens branches start stop cursors))) := by
  have spans := takesHead_spans tokens branches start stop cursors
  constructor
  · rw [Progress.append_size, Progress.append_branchRefs, spans.size, spans.branchRefs]
    have one : entries state.nodes cursors.slots.node 1 = [node] := entries_one isNode
    have tiles := Tiles.single cursors.branchRef branches
    rw [← nodeSpan] at tiles
    exact (congrArg (fun nodes => Tiles (nodes.map ControlNode.branches) cursors.branchRef branches) one).mpr tiles
  · rw [Progress.append_size, Progress.append_itemRefs, spans.size, spans.itemRefs]
    have one : entries state.branches cursors.slots.branch 1 = [branch] := entries_one isBranch
    have tiles := Tiles.single cursors.itemRef count
    rw [← branchSpan] at tiles
    rw [Nat.zero_add]
    exact (congrArg (fun branches => Tiles (branches.map ControlBranch.items) cursors.itemRef count) one).mpr tiles

theorem spans_second {refOffset count : Nat} {branch : ControlBranch}
    (isBranch : state.branches[cursors.slots.branch]? = some branch) (branchSpan : branch.items = ⟨cursors.itemRef, count⟩) :
    SpansHeld state cursors (takesSecond refOffset cursors ++
      takesItems cursors.slots.branch count (cursors.past (takesSecond refOffset cursors))) := by
  constructor
  · exact .nil _
  · have one : entries state.branches cursors.slots.branch 1 = [branch] := entries_one isBranch
    have tiles := Tiles.single cursors.itemRef count
    rw [← branchSpan] at tiles
    rw [Progress.append_itemRefs]
    exact (congrArg (fun branches => Tiles (branches.map ControlBranch.items) cursors.itemRef (0 + count)) one).mpr
      (by rw [Nat.zero_add]; exact tiles)

theorem past_past : (cursors.past first).past second = cursors.past (first ++ second) := by
  simp only [Cursors.past, Progress.append_size, Progress.append_branchRefs, Progress.append_itemRefs, Tally.add_assoc,
    Nat.add_assoc]

/-- The body of a branch behind the branch itself. -/
theorem SpansHeld.body {opening : Progress} {branch : Nat} {trees : ControlTrees}
    (own : SpansHeld state cursors (opening ++ takesItems branch trees.count (cursors.past opening)))
    (inside : SpansHeld state ((cursors.past opening).past (takesItems branch trees.count (cursors.past opening)))
      (trees.progress tokens (cursors.past opening).itemRef
        ((cursors.past opening).past (takesItems branch trees.count (cursors.past opening))))) :
    SpansHeld state cursors (opening ++ trees.bodyProgress tokens branch (cursors.past opening)) := by
  have both := own.append (by rw [← past_past]; exact inside)
  unfold ControlTrees.bodyProgress
  dsimp only
  rw [← Progress.append_assoc, ← Progress.append_assoc]
  exact both.append (spans_quiet rfl rfl rfl rfl)

mutual

theorem ControlTree.spans_held (tree : ControlTree) (cursors : Cursors) (held : (tree.progress tokens cursors).Held state) :
    SpansHeld state cursors (tree.progress tokens cursors) := by
  cases tree with
  | statement start stop =>
    rw [ControlTree.progress]
    exact spans_quiet rfl rfl rfl rfl
  | ifThen start stop first =>
    rw [ControlTree.progress_ifThen] at held ⊢
    dsimp only at held ⊢
    rw [held_append, held_append] at held
    obtain ⟨⟨heads, bodies⟩, count⟩ := held
    obtain ⟨⟨branch, isBranch, items⟩, inside⟩ := held_items bodies
    obtain ⟨node, isNode, -, offset⟩ := (held_head heads).node
    obtain ⟨same, sameNode, branches⟩ := count (.nodeCount cursors.slots.node 1) List.mem_cons_self
    rw [isNode] at sameNode
    cases sameNode
    have nodeSpan : node.branches = ⟨cursors.branchRef, 1⟩ := by rw [← offset, ← branches]
    have body := first.spans_held _ _ inside
    exact ((spans_head isNode nodeSpan isBranch items).body body).append (spans_quiet rfl rfl rfl rfl)
  | ifElse start stop first second =>
    rw [ControlTree.progress_ifElse] at held ⊢
    dsimp only at held ⊢
    rw [held_append, held_append, held_append, held_append] at held
    obtain ⟨⟨⟨⟨heads, firstBodies⟩, others⟩, secondBodies⟩, count⟩ := held
    obtain ⟨⟨firstBranch, isFirst, firstItems⟩, firstInside⟩ := held_items firstBodies
    obtain ⟨⟨secondBranch, isSecond, secondItems⟩, secondInside⟩ := held_items secondBodies
    obtain ⟨node, isNode, -, offset⟩ := (held_head heads).node
    obtain ⟨same, sameNode, branches⟩ := count (.nodeCount cursors.slots.node 2) List.mem_cons_self
    rw [isNode] at sameNode
    cases sameNode
    have nodeSpan : node.branches = ⟨cursors.branchRef, 2⟩ := by rw [← offset, ← branches]
    have firstBody := first.spans_held _ _ firstInside
    have secondBody := second.spans_held _ _ secondInside
    have bodied := (spans_head isNode nodeSpan isFirst firstItems).body firstBody
    generalize takesHead tokens 2 start stop cursors ++ first.bodyProgress tokens cursors.slots.branch
      (cursors.past (takesHead tokens 2 start stop cursors)) = front at *
    rw [← past_past] at secondBody secondItems
    have other := (@spans_second state (cursors.past front) (cursors.branchRef + 1) _ _ isSecond secondItems).body secondBody
    rw [Progress.append_assoc front, ← past_past]
    exact (bodied.append other).append (spans_quiet rfl rfl rfl rfl)
termination_by sizeOf tree

theorem ControlTrees.spans_held (trees : ControlTrees) (refOffset : Nat) (cursors : Cursors)
    (held : (trees.progress tokens refOffset cursors).Held state) :
    SpansHeld state cursors (trees.progress tokens refOffset cursors) := by
  cases trees with
  | nil =>
    rw [ControlTrees.progress]
    exact spans_quiet rfl rfl rfl rfl
  | cons head rest =>
    rw [ControlTrees.progress_cons] at held ⊢
    dsimp only at held ⊢
    rw [held_append, held_append] at held
    have here := head.spans_held _ (itemProgress_held state tokens held.1.1).1
    have later := rest.spans_held _ _ held.2
    unfold ControlTree.itemProgress at later ⊢
    dsimp only at later ⊢
    refine SpansHeld.append ?_ later
    have item : SpansHeld state cursors { size := .one .item } := spans_quiet rfl rfl rfl rfl
    exact ((item.append here).append (spans_quiet rfl rfl rfl rfl)).append (spans_quiet rfl rfl rfl rfl)
termination_by sizeOf trees

end

end pool

/-! ## The state of a text -/

section whole

variable {sql : Text} {tokens : List Token} {found : ReadAll}

theorem ControlTrees.state_held (trees : ControlTrees) : (trees.rootProgress tokens).Held (trees.state tokens) :=
  fun _ => trees.state_holds

/-- The state of a text is a forest. -/
theorem state_encodes (read : readRoots sql tokens = .ok found) : (found.trees.state tokens).EncodesForest := by
  obtain ⟨slots, pool, roots⟩ := @ControlTrees.state_sizes tokens found.trees
  have proper := (readRoots_sound read).1.proper
  obtain ⟨⟨visits, unfolds, counts⟩, -⟩ := found.trees.unfolded _ tokens controlMaxDepth 0 found.trees.cursors proper
    found.trees.state_held
  have refs := found.trees.refs_eq
  rw [ControlState.EncodesForest, roots]
  constructor
  · simp only [ControlState.spanIsValid, Bool.and_eq_true, decide_eq_true_eq, pool]
    omega
  · refine ⟨visits, unfolds, List.perm_iff_count.mpr fun key => ?_⟩
    rw [counts, keys_nodup.count]
    have node : (found.trees.state tokens).nodes.length = found.trees.size.node := congrArg Tally.node slots
    have branch : (found.trees.state tokens).branches.length = found.trees.size.branch := congrArg Tally.branch slots
    have item : (found.trees.state tokens).items.length = found.trees.size.item := congrArg Tally.item slots
    have unit : (found.trees.state tokens).units.length = found.trees.size.unit := congrArg Tally.unit slots
    cases key <;> simp [keyCount, within, ControlTrees.cursors, mem_keys, node, branch, item, unit]

theorem entries_all {Entry : Type} {array : List Entry} {count : Nat} (length : array.length = count) :
    entries array 0 count = array := by
  rw [entries, List.drop_zero, ← length, List.take_length]

/-- The roots, the nodes and the branches share the index pool out among them. -/
theorem state_tiles (trees : ControlTrees) :
    Tiles ((trees.state tokens).roots :: ((trees.state tokens).nodes.map ControlNode.branches ++
      (trees.state tokens).branches.map ControlBranch.items)) 0 (trees.state tokens).indexPool.length := by
  obtain ⟨slots, pool, roots⟩ := @ControlTrees.state_sizes tokens trees
  have held := trees.spans_held 0 trees.cursors (@ControlTrees.state_held tokens trees)
  have spans := trees.progress_spans tokens 0 trees.cursors
  have refs := trees.refs_eq
  have nodes : Tiles ((entries (trees.state tokens).nodes 0 trees.size.node).map ControlNode.branches) trees.count
      trees.size.branch := by
    have tiles := held.nodes
    rw [spans.size, spans.branchRefs] at tiles
    exact tiles
  have branches : Tiles ((entries (trees.state tokens).branches 0 trees.size.branch).map ControlBranch.items)
      (trees.count + trees.size.branch) trees.refs := by
    have tiles := held.branches
    rw [spans.size, spans.itemRefs] at tiles
    exact tiles
  rw [entries_all (congrArg Tally.node slots)] at nodes
  rw [entries_all (congrArg Tally.branch slots)] at branches
  have total : (trees.state tokens).indexPool.length = trees.count + (trees.size.branch + trees.refs) := by omega
  rw [total, roots]
  exact (Tiles.single 0 trees.count).append (Nat.zero_add _).symm (nodes.append rfl branches)

/-- The units of the state are those of the trees. -/
theorem state_units (trees : ControlTrees) :
    (trees.state tokens).units = trees.units.mapIdx fun index unit => unitOf tokens unit.kind index unit.start unit.stop := by
  have stored := trees.units_stored _ tokens 0 trees.cursors trees.state_held
  have length : (trees.state tokens).units.length = trees.units.length := by
    rw [trees.units_length]
    exact congrArg Tally.unit (@ControlTrees.state_sizes tokens trees).1
  apply List.ext_getElem?
  intro index
  rw [List.getElem?_mapIdx]
  cases known : trees.units[index]? with
  | none =>
    rw [List.getElem?_eq_none_iff] at known
    rw [Option.map_none, List.getElem?_eq_none_iff]
    omega
  | some unit =>
    have found := stored index unit known
    rw [show trees.cursors.slots.unit + index = index from Nat.zero_add index] at found
    exact found

theorem unitOf_stop {size index start stop : Nat} {kind : ControlUnitKind} (ordered : TokensOrdered tokens size)
    (before : start < stop) (inside : stop ≤ tokens.length) :
    (unitOf tokens kind index start stop).stop = (tokenAt tokens (stop - 1)).stop :=
  Nat.add_sub_cancel' (ordered.forward before inside).le

theorem state_indexes (trees : ControlTrees) :
    (trees.state tokens).units.map ControlUnit.astStatementIndex = List.range (trees.state tokens).units.length := by
  rw [state_units, List.length_mapIdx]
  apply List.ext_getElem
  · simp
  · intro index left right
    simp [unitOf]

/-- The units stand in the order of the text and are numbered by their places. -/
theorem state_mapped {size : Nat} (ordered : TokensOrdered tokens size) (read : readRoots sql tokens = .ok found) :
    UnitsMapped (found.trees.state tokens).units.length size (found.trees.state tokens).units := by
  have sound := (readRoots_sound read).1
  have spans (index : Nat) (inside : index < found.trees.units.length) :=
    sound.covers.inside found.trees.units[index] (List.getElem_mem inside)
  have indexes := @state_indexes tokens found.trees
  rw [state_units] at indexes ⊢
  have isUnit {unit : ControlUnit} (listed : unit ∈ found.trees.units.mapIdx fun index unit =>
      unitOf tokens unit.kind index unit.start unit.stop) :
      ∃ index, ∃ span ∈ found.trees.units, unit = unitOf tokens span.kind index span.start span.stop := by
    obtain ⟨index, inside, rfl⟩ := List.mem_mapIdx.mp listed
    exact ⟨index, _, List.getElem_mem inside, rfl⟩
  constructor
  · intro unit listed
    obtain ⟨index, span, isSpan, rfl⟩ := isUnit listed
    exact found.trees.units_kind span isSpan
  · intro unit listed
    obtain ⟨index, span, isSpan, rfl⟩ := isUnit listed
    obtain ⟨-, forward, -, inside⟩ := sound.covers.inside span isSpan
    have last : span.stop - 1 < tokens.length := by omega
    rw [unitOf_stop ordered forward inside, tokenAt_of_lt last]
    exact ⟨Nat.sub_pos_of_lt (ordered.forward forward inside), (ordered.inside _ (List.getElem_mem last)).2⟩
  · rw [List.pairwise_iff_getElem]
    intro left right leftInside rightInside before
    rw [List.getElem_mapIdx, List.getElem_mapIdx]
    rw [List.length_mapIdx] at leftInside rightInside
    obtain ⟨-, forward, -, inside⟩ := spans left leftInside
    obtain ⟨-, later, -, laterInside⟩ := spans right rightInside
    have apart := List.pairwise_iff_getElem.mp sound.covers.sorted left right leftInside rightInside before
    rw [unitOf_stop ordered forward inside]
    exact ordered.before (by omega) (by omega)
  · exact .of_eq indexes

end whole

end SqlParser.Sqlserver
