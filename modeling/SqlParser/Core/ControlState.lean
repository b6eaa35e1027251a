import SqlParser.Core.Basic
import SqlParser.Library.Unfolding

/-! # The control-flow state

`sqlparser_control_validate_state` checks the arrays of a control-flow state: the nodes, branches
and items that refer to each other by indexes, the units of the text, and the statements of the
AST that the units stand for. The marks of the visited indexes are one list of keys. Memory suffices.
-/

namespace SqlParser.Core

open SqlParser.Library.Unfolding

/-! ## State -/

/-- `sqlparser_index_span_t` -/
structure IndexSpan where
  offset : Nat
  count : Nat
  deriving DecidableEq, Repr

/-- `sqlparser_control_node_kind_t`, of which an `if` is the only valid one. -/
inductive ControlNodeKind where
  | ifNode
  | other (value : Nat)
  deriving DecidableEq, Repr

structure ControlNode where
  kind : ControlNodeKind
  branches : IndexSpan
  deriving DecidableEq, Repr

structure ControlBranch where
  conditionStatementIndex : Nat
  hasCondition : Bool
  items : IndexSpan
  deriving DecidableEq, Repr

/-- `sqlparser_control_item_kind_t` -/
inductive ControlItemKind where
  | statement
  | node
  | other (value : Nat)
  deriving DecidableEq, Repr

structure ControlItem where
  kind : ControlItemKind
  index : Nat
  deriving DecidableEq, Repr

/-- `sqlparser_control_unit_kind_t` -/
inductive ControlUnitKind where
  | statement
  | condition
  | other (value : Nat)
  deriving DecidableEq, Repr

structure ControlUnit where
  kind : ControlUnitKind
  astStatementIndex : Nat
  sourceOffset : Nat
  sourceLength : Nat
  deriving DecidableEq, Repr

/-- `sqlparser_control_state`: the counts are the lengths of the arrays. -/
structure ControlState where
  roots : IndexSpan
  nodes : List ControlNode
  branches : List ControlBranch
  items : List ControlItem
  indexPool : List Nat
  units : List ControlUnit
  deriving DecidableEq, Repr

/-- The statement of a `PgQuery__RawStmt`: whether a SELECT is there, and whether it has a WHERE clause. -/
inductive ControlStmt where
  | selectStmt (whereClause : Option Bool)
  | other
  deriving DecidableEq, Repr

/-- A `PgQuery__RawStmt` of the parse result, and its statement, where they are not NULL. -/
structure ControlRawStmt where
  stmt : Option ControlStmt
  deriving DecidableEq, Repr

def invalidState (message : String) : Error := ⟨.internalError, message⟩

/-- `sqlparser_control_span_is_valid` -/
def ControlState.spanIsValid (state : ControlState) (span : IndexSpan) : Bool :=
  span.offset ≤ state.indexPool.length && span.count ≤ state.indexPool.length - span.offset

/-- The indexes of a span. -/
def ControlState.pooled (state : ControlState) (span : IndexSpan) : List Nat :=
  (state.indexPool.drop span.offset).take span.count

def ControlState.unitKind (state : ControlState) (index : Nat) : Option ControlUnitKind :=
  (state.units[index]?).map ControlUnit.kind

/-! ## The walk -/

/-- `SQLPARSER_CONTROL_MAX_DEPTH` -/
def controlMaxDepth : Nat := 32

/-- What the walk marks. -/
inductive ControlKey where
  | node (index : Nat)
  | branch (index : Nat)
  | item (index : Nat)
  | unit (index : Nat)
  deriving DecidableEq, Repr

abbrev Marks := List ControlKey

def tooDeep : Error := ⟨.resourceLimit, "control flow nesting is too deep"⟩

/-- A unit of a kind is marked. -/
def validateUnit (state : ControlState) (kind : ControlUnitKind) (failure : Error) (index : Nat) (seen : Marks) :
    Except Error Marks :=
  if state.unitKind index = some kind then mark failure (.unit index) seen else .error failure

/-- `sqlparser_control_validate_item`, over the validation of the nodes one level below. -/
def validateItem (state : ControlState) (validateNode : Nat → Marks → Except Error Marks) (index : Nat) (seen : Marks) :
    Except Error Marks :=
  match state.items[index]? with
  | none => .error (invalidState "control item topology is invalid")
  | some item =>
    mark (invalidState "control item topology is invalid") (.item index) seen >>= fun seen =>
      match item.kind with
      | .statement => validateUnit state .statement (invalidState "control statement unit is invalid") item.index seen
      | .node => validateNode item.index seen
      | .other _ => .error (invalidState "control item kind is invalid")

/-- A turn of the loop over the branches of a node. -/
def validateBranch (state : ControlState) (validateItem : Nat → Marks → Except Error Marks) (ordinal index : Nat)
    (seen : Marks) : Except Error Marks :=
  match state.branches[index]? with
  | none => .error (invalidState "control branch topology is invalid")
  | some branch =>
    mark (invalidState "control branch topology is invalid") (.branch index) seen >>= fun seen =>
      if (ordinal = 0 ∧ !branch.hasCondition) ∨ (ordinal > 0 ∧ branch.hasCondition) ∨ branch.items.count = 0 ∨
          !state.spanIsValid branch.items then
        .error (invalidState "control branch is invalid")
      else
        (if branch.hasCondition then
          validateUnit state .condition (invalidState "control condition unit is invalid") branch.conditionStatementIndex seen
        else .ok seen) >>= fun seen =>
          (state.pooled branch.items).foldlM (fun seen item => validateItem item seen) seen

/-- `sqlparser_control_validate_node`; `levels` is how many levels are left at the node, itself included. -/
def validateNode (state : ControlState) : Nat → Nat → Marks → Except Error Marks
  | levels, index, seen =>
    match state.nodes[index]? with
    | none => .error (invalidState "control node topology is invalid")
    | some node =>
      mark (invalidState "control node topology is invalid") (.node index) seen >>= fun seen =>
        match levels with
        | 0 => .error tooDeep
        | levels + 1 =>
          if node.kind ≠ .ifNode ∨ (node.branches.count ≠ 1 ∧ node.branches.count ≠ 2) ∨
              !state.spanIsValid node.branches then
            .error (invalidState "control node is invalid")
          else
            (state.pooled node.branches).zipIdx.foldlM
              (fun seen branch => validateBranch state (validateItem state (validateNode state levels)) branch.2 branch.1 seen)
              seen

/-! ## The whole state -/

/-- The loops that check the spans of an array and add their counts. -/
def countReferences (state : ControlState) (failure : Error) : List IndexSpan → Nat → Except Error Nat
  | [], references => .ok references
  | span :: spans, references =>
    if !state.spanIsValid span ∨ references + span.count > sizeMax then .error failure
    else countReferences state failure spans (references + span.count)

/-- The AST of a unit is there, and that of a condition is a SELECT with a WHERE clause. -/
def unitAstFits (unit : ControlUnit) (rawStmt : Option ControlRawStmt) : Bool :=
  match rawStmt.bind ControlRawStmt.stmt with
  | none => false
  | some stmt => unit.kind ≠ .condition || stmt = .selectStmt (some true)

/-- The loop over the units, with the statements that it has marked and the end of the unit before. -/
def validateUnits (stmts : List (Option ControlRawStmt)) (sqlLength : Nat) :
    List ControlUnit → List Nat → Nat → Except Error Unit
  | [], _, _ => .ok ()
  | unit :: units, seenAst, previousEnd =>
    if (unit.kind ≠ .statement ∧ unit.kind ≠ .condition) ∨ unit.astStatementIndex ≥ stmts.length ∨
        unit.astStatementIndex ∈ seenAst ∨ unit.sourceLength = 0 ∨ unit.sourceOffset > sqlLength ∨
        unit.sourceLength > sqlLength - unit.sourceOffset ∨ unit.sourceOffset < previousEnd then
      .error (invalidState "control unit mapping is invalid")
    else if !unitAstFits unit (stmts[unit.astStatementIndex]?).join then
      .error (invalidState "control unit AST is invalid")
    else
      validateUnits stmts sqlLength units (seenAst ++ [unit.astStatementIndex]) (unit.sourceOffset + unit.sourceLength)

def scratchCount (state : ControlState) : Nat :=
  state.nodes.length + state.branches.length + state.items.length + (state.units.length + state.units.length)

/-- The first key of a kind that is not marked fails the state. -/
def checkReached (key : Nat → ControlKey) (count : Nat) (failure : Error) (seen : Marks) : Except Error Unit :=
  if (List.range count).all fun index => key index ∈ seen then .ok () else .error failure

/-- `sqlparser_control_validate_state`; `ast` is what `sqlparser_handle_ensure_ast` leaves in the handle. -/
def validateState (ast : Except Error (List (Option ControlRawStmt))) (sqlLength : Nat) (state : ControlState) :
    Except Error Unit :=
  if state.roots.count = 0 ∨ state.nodes.length = 0 ∨ state.branches.length = 0 ∨ state.items.length = 0 ∨
      state.units.length = 0 ∨ !state.spanIsValid state.roots then
    .error (invalidState "control state is incomplete")
  else do
    let stmts ← ast
    if stmts.length ≠ state.units.length then
      .error (invalidState "control units do not match parser statements")
    else
      let branchRefs ← countReferences state (invalidState "control branch span is invalid")
        (state.nodes.map ControlNode.branches) 0
      let itemRefs ← countReferences state (invalidState "control item span is invalid")
        (state.branches.map ControlBranch.items) state.roots.count
      if branchRefs ≠ state.branches.length ∨ itemRefs ≠ state.items.length ∨ branchRefs + itemRefs > sizeMax ∨
          branchRefs + itemRefs ≠ state.indexPool.length then
        .error (invalidState "control index pool is inconsistent")
      else if scratchCount state > sizeMax then
        .error ⟨.resourceLimit, "control validation state is too large"⟩
      else
        validateUnits stmts sqlLength state.units [] 0
        let seen ← (state.pooled state.roots).foldlM
          (fun seen item => validateItem state (validateNode state controlMaxDepth) item seen) []
        checkReached .node state.nodes.length (invalidState "control node is unreachable") seen
        checkReached .branch state.branches.length (invalidState "control branch is unreachable") seen
        checkReached .item state.items.length (invalidState "control item is unreachable") seen
        checkReached .unit state.units.length (invalidState "control unit is unreachable") seen

end SqlParser.Core
