import SqlParser.Core.ControlState
import SqlParser.Sqlserver.ControlGrammar

/-! # The passes of the SQL Server control-flow parser

`sqlparser_sqlserver_control_run_pass` runs one parser three times over the same tokens: to count,
to lay the state out and to fill it.  The parser is written over the one for the nodes that are
one level deeper; `levels` is how many levels are left.
-/

namespace SqlParser.Sqlserver

open SqlParser.Core

/-! ## The parser -/

/-- `sqlparser_sqlserver_control_mode_t` -/
inductive ControlMode where
  | count
  | layout
  | fill
  deriving DecidableEq, Repr

/-- The arrays that are filled by the indexes of a pass. -/
inductive ControlSlot where
  | node
  | branch
  | item
  | unit
  deriving DecidableEq, Repr

/-- One number for each array. -/
@[ext]
structure Tally where
  node : Nat := 0
  branch : Nat := 0
  item : Nat := 0
  unit : Nat := 0
  deriving DecidableEq, Repr

def Tally.get (tally : Tally) : ControlSlot → Nat
  | .node => tally.node
  | .branch => tally.branch
  | .item => tally.item
  | .unit => tally.unit

def Tally.bump (tally : Tally) : ControlSlot → Tally
  | .node => { tally with node := tally.node + 1 }
  | .branch => { tally with branch := tally.branch + 1 }
  | .item => { tally with item := tally.item + 1 }
  | .unit => { tally with unit := tally.unit + 1 }

/-- `sqlparser_control_counts_t` -/
structure ControlCounts where
  rootCount : Nat := 0
  slots : Tally := {}
  indexCount : Nat := 0
  deriving DecidableEq, Repr

/-- The lengths of the arrays. -/
def sizes (state : ControlState) : Tally :=
  ⟨state.nodes.length, state.branches.length, state.items.length, state.units.length⟩

/-- `sqlparser_sqlserver_control_parser_t` without the text and its tokens. -/
structure ControlParser where
  pos : Nat := 0
  mode : ControlMode
  counts : ControlCounts := {}
  state : ControlState
  cursors : Tally := {}
  branchRefCursor : Nat := 0
  itemRefCursor : Nat := 0
  deriving DecidableEq, Repr

/-- An index that a parser returns. -/
structure Reached where
  index : Nat
  parser : ControlParser

def internalFailure (message : String) : Failure :=
  plainFailure .internalError message

/-! ## Reservations -/

def ControlParser.counting (parser : ControlParser) : Bool :=
  parser.mode = .count

def ControlParser.filling (parser : ControlParser) : Bool :=
  parser.mode = .fill

/-- The next index of an array is taken. -/
def ControlParser.reserve (slot : ControlSlot) (name : String) (parser : ControlParser) : Except Failure Reached :=
  if parser.counting then
    if parser.counts.slots.get slot = sizeMax then
      .error (internalFailure ("SQL Server control " ++ name ++ " count overflowed"))
    else
      .ok ⟨parser.counts.slots.get slot,
        { parser with counts := { parser.counts with slots := parser.counts.slots.bump slot } }⟩
  else if parser.cursors.get slot ≥ (sizes parser.state).get slot then
    .error (internalFailure ("SQL Server control " ++ name ++ " layout is inconsistent"))
  else .ok ⟨parser.cursors.get slot, { parser with cursors := parser.cursors.bump slot }⟩

/-- `sqlparser_sqlserver_control_reserve_node` -/
def ControlParser.reserveNode : ControlParser → Except Failure Reached :=
  ControlParser.reserve .node "node"

/-- `sqlparser_sqlserver_control_reserve_branch` -/
def ControlParser.reserveBranch : ControlParser → Except Failure Reached :=
  ControlParser.reserve .branch "branch"

/-- `sqlparser_sqlserver_control_reserve_item` -/
def ControlParser.reserveItem : ControlParser → Except Failure Reached :=
  ControlParser.reserve .item "item"

/-! ## Writes

What the passes store in the state, field by field. -/

inductive ControlWrite where
  | nodeCount (index count : Nat)
  | nodeOffset (index offset : Nat)
  | branchCount (index count : Nat)
  | branchOffset (index offset : Nat)
  | condition (index statement : Nat)
  | otherwise (index : Nat)
  | item (index : Nat) (value : ControlItem)
  | reference (index value : Nat)
  | unit (index : Nat) (value : ControlUnit)
  deriving DecidableEq, Repr

/-- The state behind a store. -/
def ControlWrite.apply (state : ControlState) : ControlWrite → ControlState
  | nodeCount index count =>
    { state with nodes := state.nodes.modify index fun node => { node with branches.count := count } }
  | nodeOffset index offset =>
    { state with nodes := state.nodes.modify index fun node =>
        { kind := .ifNode, branches := ⟨offset, node.branches.count⟩ } }
  | branchCount index count =>
    { state with branches := state.branches.modify index fun branch => { branch with items.count := count } }
  | branchOffset index offset =>
    { state with branches := state.branches.modify index fun branch => { branch with items.offset := offset } }
  | condition index statement =>
    { state with branches := state.branches.modify index fun branch =>
        { branch with conditionStatementIndex := statement, hasCondition := true } }
  | otherwise index =>
    { state with branches := state.branches.modify index fun branch => { branch with hasCondition := false } }
  | item index value => { state with items := state.items.set index value }
  | reference index value => { state with indexPool := state.indexPool.set index value }
  | unit index value => { state with units := state.units.set index value }

/-- The stores of a pass that fills the state. -/
def ControlParser.fill (writes : List ControlWrite) (parser : ControlParser) : ControlParser :=
  if parser.filling then { parser with state := writes.foldl ControlWrite.apply parser.state } else parser

/-- The store of the pass that lays the state out. -/
def ControlParser.lay (write : ControlWrite) (parser : ControlParser) : ControlParser :=
  if parser.mode = .layout then { parser with state := write.apply parser.state } else parser

/-- `sqlparser_sqlserver_control_reserve_unit` -/
def ControlParser.reserveUnit (kind : ControlUnitKind) (start stop : Nat) (parser : ControlParser) :
    Except Failure Reached :=
  if start ≥ stop then .error (internalFailure "SQL Server control unit span is empty")
  else do
    let reserved ← parser.reserve .unit "unit"
    .ok ⟨reserved.index, reserved.parser.fill [.unit reserved.index ⟨kind, reserved.index, start, stop - start⟩]⟩

/-! ## Statements and items -/

section passes

variable (sql : Text) (tokens : List Token)

def branchNeedsStatement (index : Nat) : Failure :=
  errorAtToken sql tokens index "SQL Server IF branch requires a statement"

/-- `sqlparser_sqlserver_control_parse_leaf` -/
def parseLeaf (blockDepth : Nat) (parser : ControlParser) : Except Failure Reached := do
  let stop ← leafEnd sql tokens parser.pos blockDepth (tokens.length - parser.pos) parser.pos parser.pos
  if stop = parser.pos then .error (branchNeedsStatement sql tokens parser.pos)
  else
    ControlParser.reserveUnit .statement (tokenAt tokens parser.pos).start (tokenAt tokens (stop - 1)).stop
      { parser with pos := stop }

/-- `sqlparser_sqlserver_control_parse_item`, over `sqlparser_sqlserver_control_parse_if` at the depth of its nodes. -/
def parseItem (parseIf : ControlParser → Except Failure Reached) (blockDepth : Nat) (parser : ControlParser) :
    Except Failure Reached := do
  let item ← parser.reserveItem
  if atLevel tokens parser.pos blockDepth && tokenWord sql tokens parser.pos "if" then
    let target ← parseIf item.parser
    .ok ⟨item.index, target.parser.fill [.item item.index ⟨.node, target.index⟩]⟩
  else
    let target ← parseLeaf sql tokens blockDepth item.parser
    .ok ⟨item.index, target.parser.fill [.item item.index ⟨.statement, target.index⟩]⟩

def referencesOverflowed : Failure :=
  internalFailure "SQL Server control item references overflowed"

/-- The index of an item goes into the pool. -/
def ControlParser.refer (refOffset count item : Nat) (parser : ControlParser) : Except Failure ControlParser :=
  let indexCount := parser.state.indexPool.length
  if parser.filling && (refOffset > indexCount || count ≥ indexCount - refOffset) then .error referencesOverflowed
  else .ok (parser.fill [.reference (refOffset + count) item])

def boundaryInvalid (index : Nat) : Failure :=
  errorAt sql (tokenAt tokens index).start "SQL Server control statement boundary is invalid"

def elseUnmatched (index : Nat) : Failure :=
  errorAt sql (tokenAt tokens index).start "SQL Server ELSE does not have a matching IF"

/-- The failure of a loop whose turns do not suffice, which no run meets. -/
def outOfTurns : Failure :=
  internalFailure "out of turns"

/-- The loop of `sqlparser_sqlserver_control_parse_sequence`, which takes at least one token in a turn.  The index
that is returned is the number of items. -/
def parseSequence (parseItem : ControlParser → Except Failure Reached) (blockDepth : Nat) (stopAtEnd : Bool)
    (refOffset : Nat) : Nat → Nat → ControlParser → Except Failure Reached
  | turns, count, parser =>
    let pos := behindSemicolons tokens blockDepth (tokens.length - parser.pos) parser.pos
    if pos ≥ tokens.length || (stopAtEnd && blockEnd sql tokens pos) then .ok ⟨count, { parser with pos := pos }⟩
    else if !atLevel tokens pos blockDepth then .error (boundaryInvalid sql tokens pos)
    else if tokenWord sql tokens pos "else" then .error (elseUnmatched sql tokens pos)
    else
      match turns with
      | 0 => .error outOfTurns
      | turns + 1 => do
        let item ← parseItem { parser with pos := pos }
        let parser ← item.parser.refer refOffset count item.index
        parseSequence parseItem blockDepth stopAtEnd refOffset turns (count + 1) parser

/-! ## Branches and nodes -/

/-- The references of a branch that are set aside at its begin. -/
structure Claim where
  expected : Nat
  refOffset : Nat
  parser : ControlParser

def ControlParser.claimItems (branch : Nat) (parser : ControlParser) : Except Failure Claim :=
  if parser.filling then
    let expected := ((parser.state.branches[branch]?).map fun branch => branch.items.count).getD 0
    if parser.itemRefCursor > parser.state.indexPool.length ||
        expected > parser.state.indexPool.length - parser.itemRefCursor then .error referencesOverflowed
    else
      .ok ⟨expected, parser.itemRefCursor,
        ControlParser.fill [.branchOffset branch parser.itemRefCursor]
          { parser with itemRefCursor := parser.itemRefCursor + expected }⟩
  else .ok ⟨0, 0, parser⟩

/-- The end of `sqlparser_sqlserver_control_parse_branch_body`. -/
def ControlParser.finishBranch (branch count expected : Nat) (parser : ControlParser) : Except Failure ControlParser :=
  if parser.filling && count ≠ expected then
    .error (internalFailure "SQL Server control branch layout changed between passes")
  else .ok (parser.lay (.branchCount branch count))

/-- `sqlparser_sqlserver_control_parse_branch_body`, over `sqlparser_sqlserver_control_parse_item` at the depth of the
items of the branch. -/
def parseBranchBody (parseItem : Nat → ControlParser → Except Failure Reached) (branch blockDepth : Nat)
    (parser : ControlParser) : Except Failure ControlParser :=
  if parser.pos ≥ tokens.length then .error (errorAt sql sql.length "SQL Server IF branch requires a statement")
  else do
    let claim ← parser.claimItems branch
    if atLevel tokens parser.pos blockDepth && blockBegin sql tokens parser.pos then
      let begins := (tokenAt tokens parser.pos).start
      let items ← parseSequence sql tokens (parseItem (blockDepth + 1)) (blockDepth + 1) true claim.refOffset
        tokens.length 0 { claim.parser with pos := parser.pos + 1 }
      if items.parser.pos ≥ tokens.length || !blockEnd sql tokens items.parser.pos then
        .error (errorAt sql begins "SQL Server IF branch has an unterminated BEGIN block")
      else if items.index = 0 then
        .error (errorAt sql begins "SQL Server BEGIN block requires at least one statement")
      else
        ControlParser.finishBranch branch items.index claim.expected { items.parser with pos := items.parser.pos + 1 }
    else
      let item ← parseItem blockDepth claim.parser
      let parser ← item.parser.refer claim.refOffset 0 item.index
      parser.finishBranch branch 1 claim.expected

/-- The references of a node that are set aside at its begin: their number, and where they stand. -/
def ControlParser.claimBranches (node : Nat) (parser : ControlParser) : Except Failure Claim :=
  if parser.filling then
    let expected := ((parser.state.nodes[node]?).map fun node => node.branches.count).getD 0
    if parser.branchRefCursor > parser.state.indexPool.length ||
        expected > parser.state.indexPool.length - parser.branchRefCursor then
      .error (internalFailure "SQL Server control branch references overflowed")
    else
      .ok ⟨expected, parser.branchRefCursor,
        ControlParser.fill [.nodeOffset node parser.branchRefCursor]
          { parser with branchRefCursor := parser.branchRefCursor + expected }⟩
  else .ok ⟨0, 0, parser⟩

/-- The end of `sqlparser_sqlserver_control_parse_if`. -/
def ControlParser.finishNode (node count expected : Nat) (parser : ControlParser) : Except Failure Reached :=
  if parser.filling && count ≠ expected then
    .error (internalFailure "SQL Server control node layout changed between passes")
  else .ok ⟨node, parser.lay (.nodeCount node count)⟩

/-- Whether a branch behind ELSE begins at an index. -/
def elseBranchMissing (index : Nat) : Bool :=
  index ≥ tokens.length || blockEnd sql tokens index || tokenWord sql tokens index "else"

/-- `sqlparser_sqlserver_control_parse_if` -/
def parseIf : Nat → ControlParser → Except Failure Reached
  | 0, _ =>
    .error (plainFailure .resourceLimit "SQL Server IF nesting exceeds the configured control depth")
  | levels + 1, parser => do
    let blockDepth := (tokenAt tokens parser.pos).blockDepth
    let node ← parser.reserveNode
    let claim ← node.parser.claimBranches node.index
    let conditionStart := parser.pos + 1
    if conditionStart ≥ tokens.length then
      .error (errorAt sql sql.length "SQL Server IF requires a condition")
    else
      let found ← branchStart sql tokens conditionStart blockDepth (tokens.length - conditionStart) conditionStart
      match found with
      | none => .error (errorAtToken sql tokens conditionStart "SQL Server IF requires a branch statement")
      | some start =>
        let condition ← ControlParser.reserveUnit .condition (tokenAt tokens conditionStart).start
          (tokenAt tokens (start - 1)).stop claim.parser
        let branch ← ControlParser.reserveBranch { condition.parser with pos := start }
        let body := parseBranchBody sql tokens fun blockDepth =>
          parseItem sql tokens (parseIf levels) blockDepth
        let parser ← body branch.index blockDepth (branch.parser.fill
          [.reference claim.refOffset branch.index, .condition branch.index condition.index])
        let lookahead := behindSemicolons tokens blockDepth (tokens.length - parser.pos) parser.pos
        if atLevel tokens lookahead blockDepth && tokenWord sql tokens lookahead "else" then
          if elseBranchMissing sql tokens (lookahead + 1) then
            .error (errorAtToken sql tokens (lookahead + 1) "SQL Server ELSE requires a branch statement")
          else
            let branch ← ControlParser.reserveBranch { parser with pos := lookahead + 1 }
            let parser ← body branch.index blockDepth (branch.parser.fill
              [.reference (claim.refOffset + 1) branch.index, .otherwise branch.index])
            parser.finishNode node.index 2 claim.expected
        else parser.finishNode node.index 1 claim.expected

/-! ## Passes -/

/-- The state before anything is parsed. -/
def emptyState : ControlState :=
  ⟨⟨0, 0⟩, [], [], [], [], []⟩

/-- `sqlparser_sqlserver_control_parser_reset`; the counts of an earlier pass stay. -/
def parserReset (mode : ControlMode) (counts : ControlCounts) (state : ControlState) : ControlParser where
  mode := mode
  counts := counts
  state := state
  branchRefCursor := state.roots.count
  itemRefCursor := state.roots.count + state.branches.length

/-- `sqlparser_sqlserver_control_size_add` -/
def controlSizeAdd (value additional : Nat) : Option Nat :=
  if value > sizeMax - additional then none else some (value + additional)

/-- The parse of a whole text in a pass. -/
def parseRoots (parser : ControlParser) : Except Failure Reached :=
  parseSequence sql tokens (parseItem sql tokens (parseIf sql tokens controlMaxDepth) 0) 0 false 0 tokens.length 0 parser

def notConsumed : Failure :=
  internalFailure "SQL Server control parser did not consume all tokens"

/-- The pass that counts. -/
def countPass : Except Failure ControlCounts := do
  let roots ← parseRoots sql tokens (parserReset .count {} emptyState)
  if roots.parser.pos ≠ tokens.length then .error notConsumed
  else
    let slots := roots.parser.counts.slots
    match (controlSizeAdd 0 slots.branch).bind (controlSizeAdd · slots.item) with
    | none => .error (internalFailure "SQL Server control index count overflowed")
    | some indexCount => .ok ⟨roots.index, slots, indexCount⟩

/-- A pass over an allocated state. -/
def statePass (mode : ControlMode) (counts : ControlCounts) (state : ControlState) : Except Failure ControlState := do
  let roots ← parseRoots sql tokens (parserReset mode counts state)
  if roots.parser.pos ≠ tokens.length then .error notConsumed
  else if roots.index ≠ state.roots.count ∨ roots.parser.cursors ≠ sizes state then
    .error (internalFailure "SQL Server control pass counts are inconsistent")
  else if mode = .fill ∧ (roots.parser.branchRefCursor ≠ state.roots.count + state.branches.length ∨
      roots.parser.itemRefCursor ≠ state.indexPool.length) then
    .error (internalFailure "SQL Server control reference layout is inconsistent")
  else .ok roots.parser.state

end passes

end SqlParser.Sqlserver
