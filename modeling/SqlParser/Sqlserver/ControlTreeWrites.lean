import SqlParser.Sqlserver.ControlParserSteps

/-! # What the passes write for a tree

A tree takes its entries one behind the other, and each place of the state that belongs to it is
written exactly once: the counts when the state is laid out, everything else when it is filled.
-/

namespace SqlParser.Sqlserver

open SqlParser.Core
open SqlParser.Library.WriteLog

/-! ## Sizes -/

@[simp] theorem past_slots (cursors : Cursors) (progress : Progress) :
    (cursors.past progress).slots = cursors.slots + progress.size := rfl

@[simp] theorem past_branchRef (cursors : Cursors) (progress : Progress) :
    (cursors.past progress).branchRef = cursors.branchRef + progress.branchRefs := rfl

@[simp] theorem past_itemRef (cursors : Cursors) (progress : Progress) :
    (cursors.past progress).itemRef = cursors.itemRef + progress.itemRefs := rfl

section sizes

variable (tokens : List Token)

/-- What a progress takes. -/
structure Progress.Spans (progress : Progress) (taken : Tally) (branchRefs itemRefs : Nat) : Prop where
  size : progress.size = taken
  branchRefs : progress.branchRefs = branchRefs
  itemRefs : progress.itemRefs = itemRefs

theorem Progress.Spans.append {first second : Progress} {left right : Tally} {branches others items more : Nat}
    (front : first.Spans left branches items) (back : second.Spans right others more) :
    (first ++ second).Spans (left + right) (branches + others) (items + more) :=
  ⟨by rw [append_size, front.size, back.size], by rw [append_branchRefs, front.branchRefs, back.branchRefs],
    by rw [append_itemRefs, front.itemRefs, back.itemRefs]⟩

theorem takesHead_spans (branches start stop : Nat) (cursors : Cursors) :
    (takesHead tokens branches start stop cursors).Spans ⟨1, 1, 0, 1⟩ branches 0 :=
  ⟨rfl, rfl, rfl⟩

theorem ControlTrees.bodyProgress_spans {trees : ControlTrees}
    (inside : ∀ refOffset cursors, (trees.progress tokens refOffset cursors).Spans trees.size trees.size.branch trees.refs)
    (branch : Nat) (cursors : Cursors) :
    (trees.bodyProgress tokens branch cursors).Spans trees.size trees.size.branch (trees.count + trees.refs) := by
  have items : (takesItems branch trees.count cursors).Spans {} 0 trees.count := ⟨rfl, rfl, rfl⟩
  have spans := (items.append (inside cursors.itemRef (cursors.past (takesItems branch trees.count cursors)))).append
    (⟨rfl, rfl, rfl⟩ : ({ laid := [.branchCount branch trees.count] } : Progress).Spans {} 0 0)
  refine ⟨spans.size.trans ?_, spans.branchRefs.trans ?_, spans.itemRefs.trans rfl⟩
  · ext <;> simp
  · simp

mutual

theorem ControlTree.progress_spans (tree : ControlTree) (cursors : Cursors) :
    (tree.progress tokens cursors).Spans tree.size tree.size.branch tree.refs := by
  match tree with
  | .statement start stop =>
    rw [ControlTree.progress, ControlTree.size, ControlTree.refs]
    exact ⟨rfl, rfl, rfl⟩
  | .ifThen start stop first =>
    rw [ControlTree.progress_ifThen, ControlTree.size, ControlTree.refs]
    have spans := ((takesHead_spans tokens 1 start stop cursors).append
      (ControlTrees.bodyProgress_spans tokens first.progress_spans cursors.slots.branch
      (cursors.past (takesHead tokens 1 start stop cursors)))).append
        (⟨rfl, rfl, rfl⟩ : ({ laid := [.nodeCount cursors.slots.node 1] } : Progress).Spans {} 0 0)
    refine ⟨spans.size.trans ?_, spans.branchRefs.trans ?_, spans.itemRefs.trans ?_⟩
    · ext <;> simp
    · simp
    · simp
  | .ifElse start stop first second =>
    rw [ControlTree.progress_ifElse, ControlTree.size, ControlTree.refs]
    dsimp only
    have body := (takesHead_spans tokens 2 start stop cursors).append
      (ControlTrees.bodyProgress_spans tokens first.progress_spans cursors.slots.branch
      (cursors.past (takesHead tokens 2 start stop cursors)))
    generalize takesHead tokens 2 start stop cursors ++ first.bodyProgress tokens cursors.slots.branch
      (cursors.past (takesHead tokens 2 start stop cursors)) = bodied at body
    have other : (takesSecond (cursors.branchRef + 1) (cursors.past bodied)).Spans ⟨0, 1, 0, 0⟩ 0 0 := ⟨rfl, rfl, rfl⟩
    have spans := ((body.append other).append (ControlTrees.bodyProgress_spans tokens second.progress_spans
      (cursors.past bodied).slots.branch
      (cursors.past (bodied ++ takesSecond (cursors.branchRef + 1) (cursors.past bodied))))).append
        (⟨rfl, rfl, rfl⟩ : ({ laid := [.nodeCount cursors.slots.node 2] } : Progress).Spans {} 0 0)
    refine ⟨spans.size.trans ?_, spans.branchRefs.trans ?_, spans.itemRefs.trans ?_⟩
    · ext <;> simp [Nat.add_assoc]
    · simp
      omega
    · simp
termination_by sizeOf tree

theorem ControlTrees.progress_spans (trees : ControlTrees) (refOffset : Nat) (cursors : Cursors) :
    (trees.progress tokens refOffset cursors).Spans trees.size trees.size.branch trees.refs := by
  match trees with
  | .nil =>
    rw [ControlTrees.progress, ControlTrees.size, ControlTrees.refs]
    exact ⟨rfl, rfl, rfl⟩
  | .cons head rest =>
    rw [ControlTrees.progress_cons, ControlTrees.size, ControlTrees.refs]
    dsimp only
    have item : ({ size := .one .item } : Progress).Spans ⟨0, 0, 1, 0⟩ 0 0 := ⟨rfl, rfl, rfl⟩
    have whole := ((item.append (head.progress_spans (cursors.past { size := .one .item }))).append
      (⟨rfl, rfl, rfl⟩ : ({ filled := [.item cursors.slots.item ⟨head.kind, head.index
        (cursors.past { size := .one .item }).slots⟩] } : Progress).Spans {} 0 0)).append
      (⟨rfl, rfl, rfl⟩ : ({ filled := [.reference refOffset cursors.slots.item] } : Progress).Spans {} 0 0)
    have spans := whole.append (rest.progress_spans (refOffset + 1) (cursors.past (head.itemProgress tokens cursors ++
      { filled := [.reference refOffset cursors.slots.item] })))
    refine ⟨spans.size.trans ?_, spans.branchRefs.trans ?_, spans.itemRefs.trans ?_⟩
    · ext <;> simp
    · simp
    · simp
termination_by sizeOf trees

end

end sizes

/-! ## Places -/

/-- Whether an index is one of so many from a first one on, as a number. -/
def within (first size index : Nat) : Nat :=
  if first ≤ index ∧ index < first + size then 1 else 0

theorem within_add (first left right index : Nat) :
    within first (left + right) index = within first left index + within (first + left) right index := by
  unfold within
  split_ifs <;> omega

@[simp]
theorem within_zero (first index : Nat) : within first 0 index = 0 := by
  unfold within
  split_ifs <;> omega

theorem within_one (first index : Nat) : within first 1 index = if first = index then 1 else 0 := by
  unfold within
  split_ifs <;> omega

/-- How often the pass that lays the state out writes a place. -/
def laidCount (cursors : Cursors) (size : Tally) : ControlPlace → Nat
  | .nodeCount index => within cursors.slots.node size.node index
  | .branchCount index => within cursors.slots.branch size.branch index
  | _ => 0

/-- How often the pass that fills the state writes a place, the references of a sequence apart. -/
def filledCount (cursors : Cursors) (size : Tally) (branchRefs itemRefs : Nat) : ControlPlace → Nat
  | .nodeOffset index => within cursors.slots.node size.node index
  | .branchOffset index => within cursors.slots.branch size.branch index
  | .condition index => within cursors.slots.branch size.branch index
  | .item index => within cursors.slots.item size.item index
  | .reference index => within cursors.branchRef branchRefs index + within cursors.itemRef itemRefs index
  | .unit index => within cursors.slots.unit size.unit index
  | _ => 0

def Progress.laidAt (progress : Progress) (place : ControlPlace) : Nat :=
  (progress.laid.map ControlWrite.place).count place

def Progress.filledAt (progress : Progress) (place : ControlPlace) : Nat :=
  (progress.filled.map ControlWrite.place).count place

@[simp]
theorem Progress.laidAt_append (first second : Progress) (place : ControlPlace) :
    (first ++ second).laidAt place = first.laidAt place + second.laidAt place := by
  simp [laidAt]

@[simp]
theorem Progress.filledAt_append (first second : Progress) (place : ControlPlace) :
    (first ++ second).filledAt place = first.filledAt place + second.filledAt place := by
  simp [filledAt]

/-- How often the references of a sequence are written. -/
def ownCount (refOffset count : Nat) : ControlPlace → Nat
  | .reference index => within refOffset count index
  | _ => 0

section places

variable (tokens : List Token)

theorem takesHead_filledAt (branches start stop : Nat) (cursors : Cursors) (place : ControlPlace) :
    (takesHead tokens branches start stop cursors).filledAt place =
      filledCount cursors ⟨1, 0, 0, 1⟩ 1 0 place + (if ControlPlace.condition cursors.slots.branch = place then 1 else 0) := by
  unfold takesHead Progress.filledAt
  cases place <;>
    simp [takesNode, takesUnit, takesFirst, filledCount, within_one, ControlWrite.place, List.count_cons, Tally.one,
      Tally.bump]

theorem takesSecond_filledAt (refOffset : Nat) (cursors : Cursors) (place : ControlPlace) :
    (takesSecond refOffset cursors).filledAt place =
      ownCount refOffset 1 place + (if ControlPlace.condition cursors.slots.branch = place then 1 else 0) := by
  unfold Progress.filledAt
  cases place <;> simp [takesSecond, ownCount, within_one, ControlWrite.place, List.count_cons]

theorem bodyProgress_filledAt {trees : ControlTrees} (branch : Nat) (cursors : Cursors) (place : ControlPlace)
    (inside : ∀ refOffset cursors, (trees.progress tokens refOffset cursors).filledAt place =
      filledCount cursors trees.size trees.size.branch trees.refs place + ownCount refOffset trees.count place) :
    (trees.bodyProgress tokens branch cursors).filledAt place =
      filledCount cursors trees.size trees.size.branch (trees.count + trees.refs) place +
        (if ControlPlace.branchOffset branch = place then 1 else 0) := by
  unfold ControlTrees.bodyProgress
  dsimp only
  rw [Progress.filledAt_append, Progress.filledAt_append, inside]
  cases place <;>
    simp [Progress.filledAt, takesItems, filledCount, ownCount, within_add, ControlWrite.place, List.count_cons] <;>
    omega

mutual

theorem ControlTree.progress_filledAt (tree : ControlTree) (cursors : Cursors) (place : ControlPlace) :
    (tree.progress tokens cursors).filledAt place = filledCount cursors tree.size tree.size.branch tree.refs place := by
  match tree with
  | .statement start stop =>
    rw [ControlTree.progress, ControlTree.size, ControlTree.refs]
    unfold Progress.filledAt
    cases place <;> simp [takesUnit, filledCount, within_one, ControlWrite.place, List.count_cons]
  | .ifThen start stop first =>
    have spans := takesHead_spans tokens 1 start stop cursors
    rw [ControlTree.progress_ifThen, ControlTree.size, ControlTree.refs]
    dsimp only
    rw [Progress.filledAt_append, Progress.filledAt_append, takesHead_filledAt,
      bodyProgress_filledAt tokens _ _ place fun refOffset cursors => first.progress_filledAt refOffset cursors place]
    cases place <;>
      simp [Progress.filledAt, filledCount, within_add, within_one, spans.size, spans.branchRefs, spans.itemRefs] <;>
      omega
  | .ifElse start stop first second =>
    have head := takesHead_spans tokens 2 start stop cursors
    have body := head.append (ControlTrees.bodyProgress_spans tokens (first.progress_spans tokens) cursors.slots.branch
      (cursors.past (takesHead tokens 2 start stop cursors)))
    rw [ControlTree.progress_ifElse, ControlTree.size, ControlTree.refs]
    dsimp only
    rw [Progress.filledAt_append, Progress.filledAt_append, Progress.filledAt_append, Progress.filledAt_append,
      takesHead_filledAt, takesSecond_filledAt,
      bodyProgress_filledAt tokens _ _ place fun refOffset cursors => first.progress_filledAt refOffset cursors place,
      bodyProgress_filledAt tokens _ _ place fun refOffset cursors => second.progress_filledAt refOffset cursors place]
    generalize takesHead tokens 2 start stop cursors ++ first.bodyProgress tokens cursors.slots.branch
      (cursors.past (takesHead tokens 2 start stop cursors)) = bodied at body
    have other : (takesSecond (cursors.branchRef + 1) (cursors.past bodied)).Spans ⟨0, 1, 0, 0⟩ 0 0 := ⟨rfl, rfl, rfl⟩
    -- both references of the node stand in front of those of the nodes below it
    have refs : ((⟨1, 1, 0, 1⟩ : Tally) + first.size + (⟨0, 1, 0, 0⟩ + second.size)).branch =
        1 + (1 + (first.size.branch + second.size.branch)) := by
      simp only [Tally.add_branch]
      omega
    rw [refs]
    cases place <;>
      simp [Progress.filledAt, filledCount, ownCount, within_add, within_one, head.size, head.branchRefs, head.itemRefs,
        body.size, body.branchRefs, body.itemRefs, other.size, other.branchRefs, other.itemRefs, Nat.add_assoc] <;>
      omega
termination_by sizeOf tree

theorem ControlTrees.progress_filledAt (trees : ControlTrees) (refOffset : Nat) (cursors : Cursors) (place : ControlPlace) :
    (trees.progress tokens refOffset cursors).filledAt place =
      filledCount cursors trees.size trees.size.branch trees.refs place + ownCount refOffset trees.count place := by
  match trees with
  | .nil =>
    rw [ControlTrees.progress, ControlTrees.size, ControlTrees.refs]
    cases place <;> simp [Progress.filledAt, filledCount, ownCount, ControlTrees.count]
  | .cons head rest =>
    have spans := head.progress_spans tokens (cursors.past { size := .one .item })
    rw [ControlTrees.progress_cons, ControlTrees.size, ControlTrees.refs, ControlTrees.count, Nat.add_comm rest.count]
    dsimp only
    unfold ControlTree.itemProgress
    dsimp only
    rw [Progress.filledAt_append, Progress.filledAt_append, Progress.filledAt_append, Progress.filledAt_append,
      head.progress_filledAt, rest.progress_filledAt]
    generalize head.progress tokens (cursors.past { size := .one .item }) = target at spans
    cases place <;>
      simp [Progress.filledAt, filledCount, ownCount, within_add, within_one, spans.size, spans.branchRefs,
        spans.itemRefs, Tally.one, Tally.bump, ControlWrite.place, List.count_cons, Nat.add_assoc] <;>
      omega
termination_by sizeOf trees

end

theorem bodyProgress_laidAt {trees : ControlTrees} (branch : Nat) (cursors : Cursors) (place : ControlPlace)
    (inside : ∀ refOffset cursors, (trees.progress tokens refOffset cursors).laidAt place =
      laidCount cursors trees.size place) :
    (trees.bodyProgress tokens branch cursors).laidAt place =
      laidCount cursors trees.size place + (if ControlPlace.branchCount branch = place then 1 else 0) := by
  unfold ControlTrees.bodyProgress
  dsimp only
  rw [Progress.laidAt_append, Progress.laidAt_append, inside]
  cases place <;> simp [Progress.laidAt, takesItems, laidCount, ControlWrite.place, List.count_cons]

mutual

theorem ControlTree.progress_laidAt (tree : ControlTree) (cursors : Cursors) (place : ControlPlace) :
    (tree.progress tokens cursors).laidAt place = laidCount cursors tree.size place := by
  match tree with
  | .statement start stop =>
    rw [ControlTree.progress, ControlTree.size]
    cases place <;> simp [takesUnit, laidCount, Progress.laidAt]
  | .ifThen start stop first =>
    have spans := takesHead_spans tokens 1 start stop cursors
    rw [ControlTree.progress_ifThen, ControlTree.size]
    dsimp only
    rw [Progress.laidAt_append, Progress.laidAt_append,
      bodyProgress_laidAt tokens _ _ place fun refOffset cursors => first.progress_laidAt refOffset cursors place]
    have none : (takesHead tokens 1 start stop cursors).laidAt place = 0 := rfl
    rw [none]
    cases place <;>
      simp [Progress.laidAt, laidCount, within_add, within_one, spans.size, ControlWrite.place, List.count_cons] <;>
      omega
  | .ifElse start stop first second =>
    have head := takesHead_spans tokens 2 start stop cursors
    have body := head.append (ControlTrees.bodyProgress_spans tokens (first.progress_spans tokens) cursors.slots.branch
      (cursors.past (takesHead tokens 2 start stop cursors)))
    rw [ControlTree.progress_ifElse, ControlTree.size]
    dsimp only
    rw [Progress.laidAt_append, Progress.laidAt_append, Progress.laidAt_append, Progress.laidAt_append,
      bodyProgress_laidAt tokens _ _ place fun refOffset cursors => first.progress_laidAt refOffset cursors place,
      bodyProgress_laidAt tokens _ _ place fun refOffset cursors => second.progress_laidAt refOffset cursors place]
    have none : (takesHead tokens 2 start stop cursors).laidAt place = 0 := rfl
    generalize takesHead tokens 2 start stop cursors ++ first.bodyProgress tokens cursors.slots.branch
      (cursors.past (takesHead tokens 2 start stop cursors)) = bodied at body
    have other : (takesSecond (cursors.branchRef + 1) (cursors.past bodied)).Spans ⟨0, 1, 0, 0⟩ 0 0 := ⟨rfl, rfl, rfl⟩
    have still : (takesSecond (cursors.branchRef + 1) (cursors.past bodied)).laidAt place = 0 := rfl
    rw [none, still]
    cases place <;>
      simp [Progress.laidAt, laidCount, within_add, within_one, head.size, body.size, other.size, ControlWrite.place,
        List.count_cons, Nat.add_assoc] <;>
      omega
termination_by sizeOf tree

theorem ControlTrees.progress_laidAt (trees : ControlTrees) (refOffset : Nat) (cursors : Cursors) (place : ControlPlace) :
    (trees.progress tokens refOffset cursors).laidAt place = laidCount cursors trees.size place := by
  match trees with
  | .nil =>
    rw [ControlTrees.progress, ControlTrees.size]
    cases place <;> simp [Progress.laidAt, laidCount]
  | .cons head rest =>
    have spans := head.progress_spans tokens (cursors.past { size := .one .item })
    rw [ControlTrees.progress_cons, ControlTrees.size]
    dsimp only
    unfold ControlTree.itemProgress
    dsimp only
    rw [Progress.laidAt_append, Progress.laidAt_append, Progress.laidAt_append, Progress.laidAt_append,
      head.progress_laidAt, rest.progress_laidAt]
    generalize head.progress tokens (cursors.past { size := .one .item }) = target at spans
    cases place <;>
      simp [Progress.laidAt, laidCount, within_add, spans.size, Tally.one, Tally.bump]
termination_by sizeOf trees

end

/-! ## The whole log -/

theorem count_place_pos {log : List ControlWrite} {write : ControlWrite} (listed : write ∈ log) :
    0 < (log.map ControlWrite.place).count write.place :=
  List.count_pos_iff.mpr (List.mem_map_of_mem listed)

variable {tokens} {trees : ControlTrees} {refOffset : Nat} {cursors : Cursors} {write : ControlWrite}

theorem laid_counts (listed : write ∈ (trees.progress tokens refOffset cursors).laid) : write.counts = true := by
  have positive : 0 < (trees.progress tokens refOffset cursors).laidAt write.place := count_place_pos listed
  rw [ControlTrees.progress_laidAt] at positive
  cases write <;> first | rfl | exact absurd positive (Nat.lt_irrefl 0)

theorem filled_counts (listed : write ∈ (trees.progress tokens refOffset cursors).filled) : write.counts = false := by
  have positive : 0 < (trees.progress tokens refOffset cursors).filledAt write.place := count_place_pos listed
  rw [ControlTrees.progress_filledAt] at positive
  cases write <;> first | rfl | exact absurd positive (Nat.lt_irrefl 0)

/-- The references of a tree stand behind those of the roots, and those to branches in front of those to items. -/
theorem places_distinct (roots : refOffset + trees.count ≤ cursors.branchRef)
    (apart : cursors.branchRef + trees.size.branch ≤ cursors.itemRef) :
    (((trees.progress tokens refOffset cursors).laid ++ (trees.progress tokens refOffset cursors).filled).map
      ControlWrite.place).Nodup := by
  rw [List.nodup_iff_count_le_one]
  intro place
  have laid := trees.progress_laidAt tokens refOffset cursors place
  have filled := trees.progress_filledAt tokens refOffset cursors place
  unfold Progress.laidAt at laid
  unfold Progress.filledAt at filled
  rw [List.map_append, List.count_append, laid, filled]
  cases place <;> simp only [laidCount, filledCount, ownCount, within] <;> split_ifs <;> omega

/-- There is a place in the state for every write. -/
theorem writes_fit {state : ControlState} (slots : ∀ slot, (cursors.slots + trees.size).get slot ≤ (sizes state).get slot)
    (roots : refOffset + trees.count ≤ state.indexPool.length)
    (branchRefs : cursors.branchRef + trees.size.branch ≤ state.indexPool.length)
    (itemRefs : cursors.itemRef + trees.refs ≤ state.indexPool.length)
    (listed : write ∈ (trees.progress tokens refOffset cursors).laid ++ (trees.progress tokens refOffset cursors).filled) :
    write.Fits state := by
  have positive : 0 < laidCount cursors trees.size write.place +
      (filledCount cursors trees.size trees.size.branch trees.refs write.place +
        ownCount refOffset trees.count write.place) := by
    rw [← trees.progress_laidAt tokens refOffset cursors, ← trees.progress_filledAt tokens refOffset cursors]
    obtain laid | filled := List.mem_append.mp listed
    · exact Nat.add_pos_left (count_place_pos laid) _
    · exact Nat.add_pos_right _ (count_place_pos filled)
  have node := slots .node
  have branch := slots .branch
  have item := slots .item
  have unit := slots .unit
  simp only [Tally.get, Tally.add_node, Tally.add_branch, Tally.add_item, Tally.add_unit, sizes] at node branch item unit
  cases write <;>
    simp only [ControlWrite.place, laidCount, filledCount, ownCount, within, ControlWrite.Fits] at positive ⊢ <;>
    split_ifs at positive <;> omega

end places

end SqlParser.Sqlserver
