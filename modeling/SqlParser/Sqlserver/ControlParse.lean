import SqlParser.Core.ControlEnvelope
import SqlParser.Sqlserver.ControlTreeShape
import SqlParser.Sqlserver.ControlTreeWrites

/-! # Parsing SQL Server control flow

`sqlparser_sqlserver_control_parse` looks for control flow in a text, counts what it needs, and
lays out and fills a state of that size.  What `malloc` and `calloc` grant is a parameter.
-/

namespace SqlParser.Sqlserver

open SqlParser.Core
open SqlParser.Library.WriteLog

/-! ## Allocation -/

/-- The size of a structure and its alignment. -/
structure Layout where
  size : Nat
  alignment : Nat

/-- `sqlparser_control_align_size` -/
def alignSize (value alignment : Nat) : Option Nat :=
  if alignment = 0 then none
  else if value % alignment = 0 then some value
  else Core.controlSizeAdd value (alignment - value % alignment)

/-- `sqlparser_control_size_mul` -/
def controlSizeMul (left right : Nat) : Option Nat :=
  if left ≠ 0 ∧ right > sizeMax / left then none else some (left * right)

/-- `sqlparser_control_layout_append`: the total behind an array. -/
def layoutAppend (count : Nat) (layout : Layout) (total : Nat) : Option Nat := do
  let aligned ← alignSize total layout.alignment
  let bytes ← controlSizeMul count layout.size
  Core.controlSizeAdd aligned bytes

/-- The bytes of a state with its arrays. -/
def stateBytes (counts : ControlCounts) : Option Nat := do
  let total ← layoutAppend counts.slots.node ⟨24, 8⟩ 96
  let total ← layoutAppend counts.slots.branch ⟨32, 8⟩ total
  let total ← layoutAppend counts.slots.item ⟨16, 8⟩ total
  let total ← layoutAppend counts.indexCount ⟨8, 8⟩ total
  layoutAppend counts.slots.unit ⟨48, 8⟩ total

/-- The limits for the branches and for the references, where there is one for the statements. -/
def branchLimit (maxStatementCount : Nat) : Nat :=
  (Core.controlSizeAdd maxStatementCount maxStatementCount).getD sizeMax

def indexLimit (maxStatementCount : Nat) : Nat :=
  if branchLimit maxStatementCount = sizeMax then sizeMax
  else (Core.controlSizeAdd (branchLimit maxStatementCount) maxStatementCount).getD sizeMax

/-- The state of some counts behind `calloc`. -/
def zeroState (counts : ControlCounts) : ControlState where
  roots := ⟨0, counts.rootCount⟩
  nodes := List.replicate counts.slots.node ⟨.other 0, ⟨0, 0⟩⟩
  branches := List.replicate counts.slots.branch ⟨0, false, ⟨0, 0⟩⟩
  items := List.replicate counts.slots.item ⟨.other 0, 0⟩
  indexPool := List.replicate counts.indexCount 0
  units := List.replicate counts.slots.unit ⟨.other 0, 0, 0, 0⟩

def noMemory : Failure :=
  plainFailure .noMemory "out of memory"

section parse

variable (memory : Nat → Bool) (maxStatementCount : Nat) (sql : Text)

/-- `sqlparser_control_state_allocate` -/
def controlStateAllocate (counts : ControlCounts) : Except Failure ControlState :=
  if counts.rootCount > counts.slots.item then .error (internalFailure "control root count exceeds item count")
  else if maxStatementCount > 0 ∧ (counts.slots.unit > maxStatementCount ∨ counts.slots.node > maxStatementCount ∨
      counts.slots.item > maxStatementCount) then
    .error (plainFailure .resourceLimit "control flow exceeds configured statement limit")
  else if maxStatementCount > 0 ∧ counts.slots.branch > branchLimit maxStatementCount then
    .error (plainFailure .resourceLimit "control branch count exceeds configured statement limit")
  else if maxStatementCount > 0 ∧ counts.indexCount > indexLimit maxStatementCount then
    .error (plainFailure .resourceLimit "control index count exceeds configured statement limit")
  else
    match stateBytes counts with
    | none => .error (plainFailure .resourceLimit "control flow allocation is too large")
    | some total => if memory total then .ok (zeroState counts) else .error noMemory

/-! ## Looking for control flow -/

/-- What the loop of `sqlparser_sqlserver_control_scan` knows; of a fourth word behind DROP only the number counts. -/
structure ControlScan where
  hasControl : Bool := false
  atStatementStart : Bool := true
  currentStatementIsDrop : Bool := false
  pendingDropIfControl : Bool := false
  dropTypeTokens : List Token := []
  previousTokenEnd : Option Nat := none

/-- A word that may begin control flow. -/
def ControlScan.meet (scan : ControlScan) (token : Token) : ControlScan :=
  if scan.atStatementStart || scan.previousTokenEnd.any fun stop => hasLineBreak sql stop token.start then
    if tokenWordEqual sql token "else" then { scan with hasControl := true }
    else if tokenWordEqual sql token "if" then
      if scan.currentStatementIsDrop && dropTypePrefix sql scan.dropTypeTokens then
        { scan with pendingDropIfControl := true }
      else { scan with hasControl := true }
    else scan
  else scan

/-- What a token outside of blocks, parentheses and CASE says of its statement. -/
def ControlScan.follow (scan : ControlScan) (token : Token) : ControlScan :=
  if token.isSymbol Byte.semicolon then
    { scan with atStatementStart := true, currentStatementIsDrop := false, dropTypeTokens := [] }
  else if scan.atStatementStart then
    { scan with atStatementStart := false, currentStatementIsDrop := tokenWordEqual sql token "drop",
                dropTypeTokens := [] }
  else if scan.currentStatementIsDrop && scan.dropTypeTokens.length ≤ 3 then
    { scan with dropTypeTokens := scan.dropTypeTokens ++ [token] }
  else scan

/-- A turn of the loop. -/
def ControlScan.step (scan : ControlScan) (token : Token) : ControlScan :=
  let behind :=
    if scan.pendingDropIfControl then
      { scan with hasControl := scan.hasControl || !tokenWordEqual sql token "exists", pendingDropIfControl := false }
    else scan
  let scan :=
    if token.blockDepth = 0 && token.parenDepth = 0 && token.caseDepth = 0 then
      (behind.meet sql token).follow sql token
    else behind
  { scan with previousTokenEnd := some token.stop }

/-- Whether the tokens of a text are looked at for control flow. -/
def hasControl (tokens : List Token) : Bool :=
  let scan := tokens.foldl (ControlScan.step sql) {}
  scan.hasControl || scan.pendingDropIfControl

/-- The size of `sqlparser_sqlserver_token_t`. -/
def tokenSize : Nat := 56

/-- `sqlparser_sqlserver_control_scan`: the tokens, where there is control flow.  The second run of the scanner yields
what the first one has counted. -/
def controlScan : Except Failure (Option (List Token)) :=
  let run := tokensBetween sql 0 sql.length
  if run.tokens.length > sizeMax then .error (internalFailure "SQL Server token count overflowed")
  else
    match run.failure with
    | some failure => .error failure
    | none =>
      if !hasControl sql run.tokens then .ok none
      else if run.tokens.length > sizeMax / tokenSize then
        .error (internalFailure "SQL Server token storage overflowed")
      else if memory (run.tokens.length * tokenSize) then .ok (some run.tokens)
      else .error noMemory

/-- The passes over the tokens of a text. -/
def parseTokens (tokens : List Token) : Except Failure ControlState := do
  let counts ← countPass sql tokens
  let state ← controlStateAllocate memory maxStatementCount counts
  let state ← statePass sql tokens .layout counts state
  statePass sql tokens .fill counts state

/-- `sqlparser_sqlserver_control_parse` -/
def controlParse : Except Failure (Option ControlState) := do
  match ← controlScan memory sql with
  | none => .ok none
  | some tokens => (parseTokens memory maxStatementCount sql tokens).map some

end parse

/-! ## The passes of a tree -/

mutual

theorem ControlTree.refs_eq (tree : ControlTree) : tree.refs = tree.size.item := by
  cases tree with
  | statement start stop => rw [ControlTree.refs, ControlTree.size]
  | ifThen start stop first =>
    rw [ControlTree.refs, ControlTree.size, first.refs_eq]
    simp
  | ifElse start stop first second =>
    rw [ControlTree.refs, ControlTree.size, first.refs_eq, second.refs_eq]
    simp
termination_by sizeOf tree

/-- Every item but the first ones is referred to by a branch. -/
theorem ControlTrees.refs_eq (trees : ControlTrees) : trees.count + trees.refs = trees.size.item := by
  cases trees with
  | nil => rw [ControlTrees.refs, ControlTrees.size, ControlTrees.count]
  | cons head rest =>
    have later := rest.refs_eq
    rw [ControlTrees.refs, ControlTrees.size, ControlTrees.count, head.refs_eq]
    simp
    omega
termination_by sizeOf trees

end

section passes

variable {sql : Text} {tokens : List Token} {trees : ControlTrees}

/-- The counts of some trees. -/
def ControlTrees.counts (trees : ControlTrees) : ControlCounts :=
  ⟨trees.count, trees.size, trees.size.branch + trees.size.item⟩

/-- Where the passes of some trees begin. -/
def ControlTrees.cursors (trees : ControlTrees) : Cursors where
  branchRef := trees.count
  itemRef := trees.count + trees.size.branch

/-- What the passes do for some trees. -/
def ControlTrees.rootProgress (tokens : List Token) (trees : ControlTrees) : Progress :=
  trees.progress tokens 0 trees.cursors

/-- The state of some trees. -/
def ControlTrees.state (tokens : List Token) (trees : ControlTrees) : ControlState :=
  stateMemory.run (zeroState trees.counts) ((trees.rootProgress tokens).laid ++ (trees.rootProgress tokens).filled)

/-- The first pass leaves the counts in the state, and the second one adds the rest. -/
theorem ControlTrees.state_eq : trees.state tokens =
    stateMemory.run (stateMemory.run (zeroState trees.counts) (trees.rootProgress tokens).laid)
      (trees.rootProgress tokens).filled :=
  Memory.run_append

theorem sizes_zeroState (counts : ControlCounts) :
    sizes (zeroState counts) = counts.slots ∧ (zeroState counts).indexPool.length = counts.indexCount ∧
      (zeroState counts).roots = ⟨0, counts.rootCount⟩ := by
  simp [zeroState, sizes]

theorem ControlTrees.state_sizes : sizes (trees.state tokens) = trees.size ∧
    (trees.state tokens).indexPool.length = trees.size.branch + trees.size.item ∧
      (trees.state tokens).roots = ⟨0, trees.count⟩ := by
  obtain ⟨slots, pool, roots⟩ := run_sizes (zeroState trees.counts)
    ((trees.rootProgress tokens).laid ++ (trees.rootProgress tokens).filled)
  obtain ⟨zeroSlots, zeroPool, zeroRoots⟩ := sizes_zeroState trees.counts
  exact ⟨slots.trans zeroSlots, pool.trans zeroPool, roots.trans zeroRoots⟩

theorem cursors_slots : trees.cursors.slots + trees.size = trees.size := by
  ext <;> simp [ControlTrees.cursors]

theorem rootProgress_spans : (trees.rootProgress tokens).Spans trees.size trees.size.branch trees.refs :=
  trees.progress_spans tokens 0 trees.cursors

/-- Every store of the passes has a place of its own. -/
theorem root_writes_fit {write : ControlWrite}
    (listed : write ∈ (trees.rootProgress tokens).laid ++ (trees.rootProgress tokens).filled) :
    write.Fits (zeroState trees.counts) := by
  obtain ⟨slots, pool, -⟩ := sizes_zeroState trees.counts
  have refs := trees.refs_eq
  refine writes_fit (fun slot => ?_) ?_ ?_ ?_ listed
  · rw [cursors_slots, slots]
    exact Nat.le_refl _
  · rw [pool]
    dsimp only [ControlTrees.counts]
    omega
  · rw [pool]
    dsimp only [ControlTrees.counts, ControlTrees.cursors]
    omega
  · rw [pool]
    dsimp only [ControlTrees.counts, ControlTrees.cursors]
    omega

theorem root_writes_distinct : (((trees.rootProgress tokens).laid ++ (trees.rootProgress tokens).filled).map
    ControlWrite.place).Nodup := by
  apply places_distinct
  · dsimp only [ControlTrees.cursors]
    omega
  · exact Nat.le_refl _

/-- Everything that the passes store is in the state behind them. -/
theorem ControlTrees.state_holds {write : ControlWrite}
    (listed : write ∈ (trees.rootProgress tokens).laid ++ (trees.rootProgress tokens).filled) :
    write.Holds (trees.state tokens) :=
  @Memory.holds_run _ _ _ stateMemory _ _ root_writes_distinct (fun _ => root_writes_fit) write listed

/-- The counts are there when the state is filled. -/
theorem laid_holds {write : ControlWrite} (listed : write ∈ (trees.rootProgress tokens).laid) :
    write.Holds (stateMemory.run (zeroState trees.counts) (trees.rootProgress tokens).laid) := by
  have distinct := @root_writes_distinct tokens trees
  rw [List.map_append, List.nodup_append'] at distinct
  exact @Memory.holds_run _ _ _ stateMemory _ _ distinct.1
    (fun _ stored => root_writes_fit (List.mem_append_left _ stored)) write listed

variable {found : ReadAll} {size : Nat}

/-- Where a text is read, a pass with room for its trees goes through. -/
theorem parseRoots_follows (ordered : TokensOrdered tokens size) (read : readRoots sql tokens = .ok found)
    {parser : ControlParser} (start : parser.pos = 0) (at_ : parser.At found.trees.cursors)
    (room : parser.Room (found.trees.rootProgress tokens))
    (pool : parser.mode = .fill → found.trees.count ≤ parser.state.indexPool.length) :
    parseRoots sql tokens parser =
      .ok ⟨found.trees.count, parser.after tokens.length (found.trees.rootProgress tokens)⟩ := by
  have items := @parseItem_follows sql tokens size ordered (parseIf sql tokens controlMaxDepth)
    (readIf sql tokens controlMaxDepth) (parseIf_follows ordered controlMaxDepth) readIf_kind 0
  have readHere : readSequence sql tokens (readItem sql tokens (readIf sql tokens controlMaxDepth) 0) 0 false tokens.length
      parser.pos = .ok found := by
    rw [start]
    exact read
  have parsed := @parseSequence_follows sql tokens _ _ items 0 false 0 tokens.length 0 0 parser _ found at_ readHere room
    fun filling => ⟨rfl, by
      have := pool filling
      omega⟩
  rw [(readRoots_sound read).2, Nat.zero_add] at parsed
  exact parsed

/-- No count comes near the largest number. -/
theorem counts_few (few : tokens.length ≤ sizeMax / tokenSize) (read : readRoots sql tokens = .ok found) :
    (∀ slot, found.trees.size.get slot ≤ sizeMax / tokenSize) ∧
      found.trees.size.branch + found.trees.size.item ≤ sizeMax := by
  obtain ⟨sound, -⟩ := readRoots_sound read
  obtain ⟨node, branch, item⟩ := found.trees.size_bounded sound.proper
  have units := sound.covers.length_le
  have inside := sound.inside
  rw [found.trees.units_length] at units
  unfold tokenSize sizeMax at *
  refine ⟨fun slot => ?_, by omega⟩
  cases slot <;> dsimp only [Tally.get] <;> omega

theorem countPass_ok (ordered : TokensOrdered tokens size) (few : tokens.length ≤ sizeMax / tokenSize)
    (read : readRoots sql tokens = .ok found) : countPass sql tokens = .ok found.trees.counts := by
  obtain ⟨slots, indexes⟩ := counts_few few read
  have small : sizeMax / tokenSize ≤ sizeMax := Nat.div_le_self _ _
  have other {Fact : Prop} (filling : ControlMode.count = .fill) : Fact := by cases filling
  have room : (parserReset .count {} emptyState).Room (found.trees.rootProgress tokens) := by
    refine ⟨fun slot => ?_, other, other, other, other⟩
    have := slots slot
    rw [rootProgress_spans.size, Tally.get_add]
    cases slot <;> exact (Nat.zero_add _).le.trans (this.trans small)
  have parsed := @parseRoots_follows sql tokens found size ordered read (parserReset .count {} emptyState) rfl
    ⟨rfl, other, other⟩ room other
  have counted : (({} : Tally) + (found.trees.rootProgress tokens).size) = found.trees.size := by
    rw [rootProgress_spans.size]
    exact cursors_slots
  unfold countPass
  rw [parsed, ok_bind, after_pos, if_neg (not_not.mpr rfl)]
  simp only [ControlParser.after, parserReset, counted, Sqlserver.controlSizeAdd, Nat.zero_add]
  rw [if_neg (by omega), Option.bind_some, if_neg (by omega)]
  rfl

theorem layoutPass_ok (ordered : TokensOrdered tokens size) (read : readRoots sql tokens = .ok found) :
    statePass sql tokens .layout found.trees.counts (zeroState found.trees.counts) =
      .ok (stateMemory.run (zeroState found.trees.counts) (found.trees.rootProgress tokens).laid) := by
  obtain ⟨slots, -, roots⟩ := sizes_zeroState found.trees.counts
  obtain ⟨laidSlots, -, laidRoots⟩ := run_sizes (zeroState found.trees.counts) (found.trees.rootProgress tokens).laid
  have other {Fact : Prop} (filling : ControlMode.layout = .fill) : Fact := by cases filling
  have spans := @rootProgress_spans tokens found.trees
  have room : (parserReset .layout found.trees.counts (zeroState found.trees.counts)).Room
      (found.trees.rootProgress tokens) := by
    refine ⟨fun slot => ?_, other, other, other, other⟩
    have limit : (parserReset .layout found.trees.counts (zeroState found.trees.counts)).limit slot =
        found.trees.size.get slot := congrArg (Tally.get · slot) slots
    rw [limit, spans.size]
    cases slot <;> exact (Nat.zero_add _).le
  have parsed := @parseRoots_follows sql tokens found size ordered read
    (parserReset .layout found.trees.counts (zeroState found.trees.counts)) rfl ⟨rfl, other, other⟩ room other
  have taken : (({} : Tally) + (found.trees.rootProgress tokens).size) = found.trees.size := by
    rw [spans.size]
    exact cursors_slots
  unfold statePass
  rw [parsed, ok_bind, after_pos, if_neg (not_not.mpr rfl), if_neg, if_neg]
  · rfl
  · exact fun filling => other filling.1
  · rintro (different | different)
    · exact different rfl
    · exact different (taken.trans slots.symm)

theorem fillPass_ok (ordered : TokensOrdered tokens size) (read : readRoots sql tokens = .ok found) :
    statePass sql tokens .fill found.trees.counts
      (stateMemory.run (zeroState found.trees.counts) (found.trees.rootProgress tokens).laid) =
      .ok (found.trees.state tokens) := by
  obtain ⟨zeroSlots, zeroPool, zeroRoots⟩ := sizes_zeroState found.trees.counts
  obtain ⟨slots, pool, roots⟩ := run_sizes (zeroState found.trees.counts) (found.trees.rootProgress tokens).laid
  rw [zeroSlots] at slots
  rw [zeroPool] at pool
  rw [zeroRoots] at roots
  have spans := @rootProgress_spans tokens found.trees
  have refs := found.trees.refs_eq
  rw [ControlTrees.state_eq]
  generalize isLaid : stateMemory.run (zeroState found.trees.counts) (found.trees.rootProgress tokens).laid = laid at *
  have branches : laid.branches.length = found.trees.size.branch := congrArg Tally.branch slots
  have rootCount : laid.roots.count = found.trees.count := congrArg IndexSpan.count roots
  have room : (parserReset .fill found.trees.counts laid).Room (found.trees.rootProgress tokens) := by
    refine ⟨fun slot => ?_, fun _ => ?_, fun _ => ?_, fun _ write listed => ⟨laid_counts listed, ?_⟩,
      fun _ write listed => filled_counts listed⟩
    · have limit : (parserReset .fill found.trees.counts laid).limit slot = found.trees.size.get slot :=
        congrArg (Tally.get · slot) slots
      rw [limit, spans.size]
      cases slot <;> exact (Nat.zero_add _).le
    · dsimp only [parserReset]
      rw [spans.branchRefs, pool, rootCount]
      dsimp only [ControlTrees.counts]
      omega
    · dsimp only [parserReset]
      rw [spans.itemRefs, pool, rootCount, branches]
      dsimp only [ControlTrees.counts]
      omega
    · have holds := laid_holds listed
      rw [isLaid] at holds
      exact holds
  have at_ : (parserReset .fill found.trees.counts laid).At found.trees.cursors := by
    refine ⟨rfl, fun _ => rootCount, fun _ => ?_⟩
    dsimp only [parserReset, ControlTrees.cursors]
    rw [rootCount, branches]
  have parsed := @parseRoots_follows sql tokens found size ordered read (parserReset .fill found.trees.counts laid) rfl at_
    room fun _ => by
      dsimp only [parserReset]
      rw [pool]
      dsimp only [ControlTrees.counts]
      omega
  have taken : (({} : Tally) + (found.trees.rootProgress tokens).size) = found.trees.size := by
    rw [spans.size]
    exact cursors_slots
  unfold statePass
  rw [parsed, ok_bind, after_pos, if_neg (not_not.mpr rfl), if_neg, if_neg]
  · rfl
  · rintro ⟨-, different | different⟩
    · apply different
      dsimp only [ControlParser.after, parserReset]
      rw [branches, spans.branchRefs]
    · apply different
      dsimp only [ControlParser.after, parserReset]
      rw [rootCount, branches, spans.itemRefs, pool]
      dsimp only [ControlTrees.counts]
      omega
  · rintro (different | different)
    · exact different rootCount.symm
    · exact different (taken.trans slots.symm)

end passes

end SqlParser.Sqlserver
