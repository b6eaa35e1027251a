import SqlParser.Core.ControlForest
import SqlParser.Sqlserver.ControlTree

/-! # The steps of the control-flow parser

What each function of the parser that touches its state does in each of the three passes, told as
a progress of the parser.
-/

namespace SqlParser.Sqlserver

open SqlParser.Core
open SqlParser.Library.WriteLog

/-! ## The state as a memory -/

/-- What a write stores to. -/
inductive ControlPlace where
  | nodeCount (index : Nat)
  | nodeOffset (index : Nat)
  | branchCount (index : Nat)
  | branchOffset (index : Nat)
  | condition (index : Nat)
  | item (index : Nat)
  | reference (index : Nat)
  | unit (index : Nat)
  deriving DecidableEq

def ControlWrite.place : ControlWrite → ControlPlace
  | nodeCount index _ => .nodeCount index
  | nodeOffset index _ => .nodeOffset index
  | branchCount index _ => .branchCount index
  | branchOffset index _ => .branchOffset index
  | condition index _ => .condition index
  | otherwise index => .condition index
  | item index _ => .item index
  | reference index _ => .reference index
  | unit index _ => .unit index

def ControlWrite.Fits (state : ControlState) : ControlWrite → Prop
  | nodeCount index _ | nodeOffset index _ => index < state.nodes.length
  | branchCount index _ | branchOffset index _ | condition index _ | otherwise index => index < state.branches.length
  | item index _ => index < state.items.length
  | reference index _ => index < state.indexPool.length
  | unit index _ => index < state.units.length

/-- What a write stores is in the state. -/
def ControlWrite.Holds (state : ControlState) : ControlWrite → Prop
  | nodeCount index count => ∃ node, state.nodes[index]? = some node ∧ node.branches.count = count
  | nodeOffset index offset => ∃ node, state.nodes[index]? = some node ∧ node.kind = .ifNode ∧ node.branches.offset = offset
  | branchCount index count => ∃ branch, state.branches[index]? = some branch ∧ branch.items.count = count
  | branchOffset index offset => ∃ branch, state.branches[index]? = some branch ∧ branch.items.offset = offset
  | condition index statement =>
    ∃ branch, state.branches[index]? = some branch ∧ branch.conditionStatementIndex = statement ∧ branch.hasCondition = true
  | otherwise index => ∃ branch, state.branches[index]? = some branch ∧ branch.hasCondition = false
  | item index value => state.items[index]? = some value
  | reference index value => state.indexPool[index]? = some value
  | unit index value => state.units[index]? = some value

theorem fits_apply (state : ControlState) (other write : ControlWrite) :
    write.Fits (other.apply state) ↔ write.Fits state := by
  cases other <;> cases write <;> simp [ControlWrite.apply, ControlWrite.Fits]

theorem holds_apply (state : ControlState) (write : ControlWrite) (fits : write.Fits state) :
    write.Holds (write.apply state) := by
  cases write <;> simp_all [ControlWrite.apply, ControlWrite.Fits, ControlWrite.Holds]

theorem holds_other (state : ControlState) (other write : ControlWrite) (apart : write.place ≠ other.place)
    (holds : write.Holds state) : write.Holds (other.apply state) := by
  cases other <;> cases write <;>
    simp only [ControlWrite.apply, ControlWrite.Holds, ControlWrite.place, List.getElem?_modify,
      List.getElem?_set] at apart holds ⊢ <;>
    grind

/-- The control state as a memory that is written field by field. -/
def stateMemory : Memory ControlState ControlWrite ControlPlace where
  apply := ControlWrite.apply
  place := ControlWrite.place
  Fits state write := write.Fits state
  Holds state write := write.Holds state
  fits_apply := fits_apply
  holds_apply := holds_apply
  holds_other := holds_other

/-! ## Parsers behind a progress -/

/-- The counts are stored by one pass and read by the next one. -/
def ControlWrite.counts : ControlWrite → Bool
  | nodeCount _ _ | branchCount _ _ => true
  | _ => false

theorem place_ne_of_counts {write other : ControlWrite} (counts : write.counts = true) (kept : other.counts = false) :
    write.place ≠ other.place := by
  cases write <;> cases other <;> simp_all [ControlWrite.counts, ControlWrite.place]

/-- The parser behind what it has done. -/
def ControlParser.after (parser : ControlParser) (pos : Nat) (progress : Progress) : ControlParser :=
  match parser.mode with
  | .count =>
    { parser with pos := pos, counts := { parser.counts with slots := parser.counts.slots + progress.size } }
  | .layout =>
    { parser with pos := pos, cursors := parser.cursors + progress.size
                  state := stateMemory.run parser.state progress.laid }
  | .fill =>
    { parser with pos := pos, cursors := parser.cursors + progress.size
                  branchRefCursor := parser.branchRefCursor + progress.branchRefs
                  itemRefCursor := parser.itemRefCursor + progress.itemRefs
                  state := stateMemory.run parser.state progress.filled }

/-- The next indexes of a pass. -/
def ControlParser.next (parser : ControlParser) : Tally :=
  if parser.counting then parser.counts.slots else parser.cursors

/-- How many entries an array has room for. -/
def ControlParser.limit (parser : ControlParser) (slot : ControlSlot) : Nat :=
  if parser.counting then sizeMax else (sizes parser.state).get slot

/-- The cursors of a parser; only the pass that fills the state has references. -/
structure ControlParser.At (parser : ControlParser) (cursors : Cursors) : Prop where
  slots : parser.next = cursors.slots
  branchRef : parser.mode = .fill → parser.branchRefCursor = cursors.branchRef
  itemRef : parser.mode = .fill → parser.itemRefCursor = cursors.itemRef

/-- There is room for a progress, and the counts in the state are those that it stores when the state is laid out. -/
structure ControlParser.Room (parser : ControlParser) (progress : Progress) : Prop where
  slots : ∀ slot, (parser.next + progress.size).get slot ≤ parser.limit slot
  branchRefs : parser.mode = .fill → parser.branchRefCursor + progress.branchRefs ≤ parser.state.indexPool.length
  itemRefs : parser.mode = .fill → parser.itemRefCursor + progress.itemRefs ≤ parser.state.indexPool.length
  counted : parser.mode = .fill → ∀ write ∈ progress.laid, write.counts = true ∧ write.Holds parser.state
  kept : parser.mode = .fill → ∀ write ∈ progress.filled, write.counts = false

theorem apply_sizes (state : ControlState) (write : ControlWrite) :
    sizes (write.apply state) = sizes state ∧ (write.apply state).indexPool.length = state.indexPool.length ∧
      (write.apply state).roots = state.roots := by
  cases write <;> simp [ControlWrite.apply, sizes]

theorem run_sizes (state : ControlState) (log : List ControlWrite) :
    sizes (stateMemory.run state log) = sizes state ∧
      (stateMemory.run state log).indexPool.length = state.indexPool.length ∧
      (stateMemory.run state log).roots = state.roots := by
  induction log generalizing state with
  | nil => exact ⟨rfl, rfl, rfl⟩
  | cons write log inductionHypothesis =>
    obtain ⟨slots, pool, roots⟩ := apply_sizes state write
    rw [Memory.run_cons]
    obtain ⟨laterSlots, laterPool, laterRoots⟩ := inductionHypothesis (write.apply state)
    exact ⟨laterSlots.trans slots, laterPool.trans pool, laterRoots.trans roots⟩

section after

variable {parser : ControlParser} {first second progress : Progress} {cursors : Cursors} {pos : Nat}

@[simp] theorem after_pos : (parser.after pos progress).pos = pos := by
  unfold ControlParser.after
  split <;> rfl

@[simp] theorem after_mode : (parser.after pos progress).mode = parser.mode := by
  unfold ControlParser.after
  split <;> simp_all

theorem after_next : (parser.after pos progress).next = parser.next + progress.size := by
  unfold ControlParser.after ControlParser.next ControlParser.counting
  split <;> simp_all

theorem after_limit (slot : ControlSlot) : (parser.after pos progress).limit slot = parser.limit slot := by
  unfold ControlParser.after ControlParser.limit ControlParser.counting
  split <;> simp_all [run_sizes]

theorem after_after {later : Nat} : (parser.after pos first).after later second = parser.after later (first ++ second) := by
  cases mode : parser.mode <;>
    simp [ControlParser.after, mode, Tally.add_assoc, Nat.add_assoc, Memory.run_append]

theorem ControlParser.At.after (at_ : parser.At cursors) : (parser.after pos progress).At (cursors.past progress) := by
  obtain ⟨slots, branchRef, itemRef⟩ := at_
  refine ⟨?_, ?_, ?_⟩
  · rw [after_next, slots]
    rfl
  · intro filling
    rw [after_mode] at filling
    simp [ControlParser.after, filling, Cursors.past, branchRef filling]
  · intro filling
    rw [after_mode] at filling
    simp [ControlParser.after, filling, Cursors.past, itemRef filling]

theorem ControlParser.Room.left (room : parser.Room (first ++ second)) : parser.Room first := by
  refine ⟨fun slot => ?_, fun filling => ?_, fun filling => ?_, fun filling write listed => ?_,
    fun filling write listed => ?_⟩
  · have := room.slots slot
    simp only [Progress.append_size, Tally.get_add] at this ⊢
    omega
  · have := room.branchRefs filling
    rw [Progress.append_branchRefs] at this
    omega
  · have := room.itemRefs filling
    rw [Progress.append_itemRefs] at this
    omega
  · exact room.counted filling write (List.mem_append_left _ listed)
  · exact room.kept filling write (List.mem_append_left _ listed)

theorem ControlParser.Room.right (room : parser.Room (first ++ second)) (pos : Nat) :
    (parser.after pos first).Room second := by
  have state (filling : parser.mode = .fill) :
      (parser.after pos first).state = stateMemory.run parser.state first.filled := by
    simp [ControlParser.after, filling]
  refine ⟨fun slot => ?_, fun filling => ?_, fun filling => ?_, fun filling write listed => ?_,
    fun filling write listed => ?_⟩
  · have := room.slots slot
    rw [after_next, after_limit]
    simp only [Progress.append_size, Tally.get_add] at this ⊢
    omega
  · rw [after_mode] at filling
    have := room.branchRefs filling
    rw [state filling, (run_sizes _ _).2.1]
    rw [Progress.append_branchRefs] at this
    simp only [ControlParser.after, filling]
    omega
  · rw [after_mode] at filling
    have := room.itemRefs filling
    rw [state filling, (run_sizes _ _).2.1]
    rw [Progress.append_itemRefs] at this
    simp only [ControlParser.after, filling]
    omega
  · rw [after_mode] at filling
    obtain ⟨counts, holds⟩ := room.counted filling write (List.mem_append_right _ listed)
    refine ⟨counts, ?_⟩
    rw [state filling]
    -- the stores of this pass leave the counts of the one before
    refine @Memory.holds_run_other _ _ _ stateMemory _ _ write (fun other stored same => ?_) holds
    have kept := room.kept filling other (List.mem_append_left _ stored)
    exact place_ne_of_counts counts kept same
  · rw [after_mode] at filling
    exact room.kept filling write (List.mem_append_right _ listed)

theorem ControlParser.moved_eq : { parser with pos := pos } = parser.after pos {} := by
  cases mode : parser.mode <;> simp [ControlParser.after, mode]

theorem after_pool (filling : parser.mode = .fill) :
    (parser.after pos progress).state.indexPool.length = parser.state.indexPool.length := by
  simp only [ControlParser.after, filling]
  exact (run_sizes _ _).2.1

theorem ControlParser.At.moved (at_ : parser.At cursors) : (parser.after pos {}).At cursors :=
  at_.after

theorem ControlParser.Room.moved (room : parser.Room progress) : (parser.after pos {}).Room progress := by
  rw [← progress.empty_append] at room
  exact room.right pos

/-! ## Steps -/

theorem fill_eq {writes filled : List ControlWrite} (same : parser.mode = .fill → writes = filled) :
    parser.fill writes = parser.after parser.pos { filled := filled } := by
  obtain ⟨pos, mode, counts, state, cursors, branchRef, itemRef⟩ := parser
  cases mode with
  | count => simp [ControlParser.fill, ControlParser.filling, ControlParser.after]
  | layout => simp [ControlParser.fill, ControlParser.filling, ControlParser.after]
  | fill =>
    rw [same rfl]
    simp [ControlParser.fill, ControlParser.filling, ControlParser.after]
    rfl

theorem lay_eq {write : ControlWrite} : parser.lay write = parser.after parser.pos { laid := [write] } := by
  obtain ⟨pos, mode, counts, state, cursors, branchRef, itemRef⟩ := parser
  cases mode <;> simp [ControlParser.lay, ControlParser.after, Memory.run, stateMemory]

theorem reserve_ok {slot : ControlSlot} (name : String) (at_ : parser.At cursors)
    (room : parser.Room { size := .one slot }) :
    parser.reserve slot name = .ok ⟨cursors.slots.get slot, parser.after parser.pos { size := .one slot }⟩ := by
  have fits := room.slots slot
  have isOne : (Tally.one slot).get slot = 1 := by cases slot <;> rfl
  simp only [Tally.get_add, isOne] at fits
  have next := at_.slots
  unfold ControlParser.next ControlParser.limit at fits
  unfold ControlParser.next at next
  unfold ControlParser.reserve
  cases counting : parser.counting with
  | true =>
    simp only [counting, if_true] at fits next ⊢
    rw [if_neg (by omega), ← next, Tally.bump_eq]
    have mode : parser.mode = .count := of_decide_eq_true counting
    simp [ControlParser.after, mode]
  | false =>
    simp only [counting, Bool.false_eq_true, if_false] at fits next ⊢
    rw [if_neg (by omega), ← next, Tally.bump_eq]
    have mode : parser.mode ≠ .count := of_decide_eq_false counting
    cases isMode : parser.mode with
    | count => exact absurd isMode mode
    | layout => simp [ControlParser.after, isMode]
    | fill => simp [ControlParser.after, isMode]

theorem reserveUnit_ok {tokens : List Token} {kind : ControlUnitKind} {start stop : Nat} (at_ : parser.At cursors)
    (forward : (tokenAt tokens start).start < (tokenAt tokens (stop - 1)).stop)
    (room : parser.Room (takesUnit tokens kind start stop cursors)) :
    parser.reserveUnit kind (tokenAt tokens start).start (tokenAt tokens (stop - 1)).stop =
      .ok ⟨cursors.slots.unit, parser.after parser.pos (takesUnit tokens kind start stop cursors)⟩ := by
  have parts : takesUnit tokens kind start stop cursors =
      ({ size := .one .unit } : Progress) ++
        ({ filled := [.unit cursors.slots.unit (unitOf tokens kind cursors.slots.unit start stop)] } : Progress) := rfl
  rw [parts] at room ⊢
  unfold ControlParser.reserveUnit
  rw [if_neg (Nat.not_le_of_lt forward), reserve_ok _ at_ room.left]
  dsimp only [bind, Except.bind]
  rw [fill_eq fun _ => rfl, after_after, after_pos]
  rfl

/-- The end of the text, or a failed check, does not come into the way of the references of an item. -/
theorem refer_ok {refOffset count place item : Nat}
    (room : parser.mode = .fill → place = refOffset + count ∧ place < parser.state.indexPool.length) :
    parser.refer refOffset count item = .ok (parser.after parser.pos { filled := [.reference place item] }) := by
  unfold ControlParser.refer ControlParser.filling
  dsimp only
  rw [if_neg]
  · rw [@fill_eq parser _ [.reference place item] fun filling => by rw [(room filling).1]]
  · simp only [Bool.and_eq_true, Bool.or_eq_true, decide_eq_true_eq, not_and, not_or]
    intro filling
    have := room filling
    omega

theorem claimItems_ok {branch count : Nat} (at_ : parser.At cursors)
    (room : parser.Room (takesItems branch count cursors))
    (counted : parser.mode = .fill → ControlWrite.Holds parser.state (.branchCount branch count)) :
    ∃ claim, parser.claimItems branch = .ok claim ∧ claim.parser = parser.after parser.pos (takesItems branch count cursors) ∧
      (parser.mode = .fill → claim.expected = count ∧ claim.refOffset = cursors.itemRef) := by
  unfold ControlParser.claimItems ControlParser.filling
  by_cases filling : parser.mode = .fill
  · obtain ⟨entry, found, isCount⟩ := counted filling
    have refs := room.itemRefs filling
    have itemRef := at_.itemRef filling
    simp only [takesItems] at refs
    rw [if_pos (by simpa using filling), found]
    dsimp only [Option.map_some, Option.getD_some]
    rw [isCount, if_neg (by simp; omega)]
    refine ⟨_, rfl, ?_, fun _ => ⟨rfl, itemRef⟩⟩
    rw [fill_eq fun _ => rfl, itemRef]
    obtain ⟨pos, mode, counts, state, slots, branchRef, itemRefs⟩ := parser
    dsimp only at filling itemRef ⊢
    subst filling itemRef
    simp [ControlParser.after, takesItems]
  · rw [if_neg (by simpa using filling)]
    refine ⟨_, rfl, ?_, fun fills => absurd fills filling⟩
    obtain ⟨pos, mode, counts, state, slots, branchRef, itemRefs⟩ := parser
    cases mode with
    | count => simp [ControlParser.after, takesItems]
    | layout => simp [ControlParser.after, takesItems]
    | fill => exact absurd rfl filling

theorem claimBranches_ok {node branches : Nat} (at_ : parser.At cursors)
    (room : parser.mode = .fill → parser.branchRefCursor + branches ≤ parser.state.indexPool.length)
    (counted : parser.mode = .fill → ControlWrite.Holds parser.state (.nodeCount node branches)) :
    ∃ claim, parser.claimBranches node = .ok claim ∧
      claim.parser = parser.after parser.pos
        { branchRefs := branches, filled := [.nodeOffset node cursors.branchRef] } ∧
      (parser.mode = .fill → claim.expected = branches ∧ claim.refOffset = cursors.branchRef) := by
  unfold ControlParser.claimBranches ControlParser.filling
  by_cases filling : parser.mode = .fill
  · obtain ⟨entry, found, isCount⟩ := counted filling
    have refs := room filling
    have branchRef := at_.branchRef filling
    rw [if_pos (by simpa using filling), found]
    dsimp only [Option.map_some, Option.getD_some]
    rw [isCount, if_neg (by simp; omega)]
    refine ⟨_, rfl, ?_, fun _ => ⟨rfl, branchRef⟩⟩
    rw [fill_eq fun _ => rfl, branchRef]
    obtain ⟨pos, mode, counts, state, slots, branchRefs, itemRef⟩ := parser
    dsimp only at filling branchRef ⊢
    subst filling branchRef
    simp [ControlParser.after]
  · rw [if_neg (by simpa using filling)]
    refine ⟨_, rfl, ?_, fun fills => absurd fills filling⟩
    obtain ⟨pos, mode, counts, state, slots, branchRefs, itemRef⟩ := parser
    cases mode with
    | count => simp [ControlParser.after]
    | layout => simp [ControlParser.after]
    | fill => exact absurd rfl filling

theorem finishBranch_ok {branch count expected : Nat} (same : parser.mode = .fill → expected = count) :
    parser.finishBranch branch count expected = .ok (parser.after parser.pos { laid := [.branchCount branch count] }) := by
  unfold ControlParser.finishBranch ControlParser.filling
  rw [if_neg, lay_eq]
  simp only [Bool.and_eq_true, decide_eq_true_eq, not_and, not_not, ne_eq]
  exact fun filling => (same filling).symm

theorem finishNode_ok {node count expected : Nat} (same : parser.mode = .fill → expected = count) :
    parser.finishNode node count expected = .ok ⟨node, parser.after parser.pos { laid := [.nodeCount node count] }⟩ := by
  unfold ControlParser.finishNode ControlParser.filling
  rw [if_neg, lay_eq]
  simp only [Bool.and_eq_true, decide_eq_true_eq, not_and, not_not, ne_eq]
  exact fun filling => (same filling).symm

end after

end SqlParser.Sqlserver
