import SqlParser.Core.AstRebase
import SqlParser.Core.ProtobufTree

/-! # The rebase plan

`sqlparser_ast_rebase_plan_build` walks the tree, asks for the image of every coordinate and collects
the slots whose value changes; `sqlparser_ast_rebase_plan_apply` writes them.
-/

namespace SqlParser.Core

open SqlParser.Protobuf
open SqlParser.Library.Splice

/-! ## Statement spans -/

/-- The span of a statement, with the slots of its location and of its length. -/
structure StatementSpan where
  locationSlot : Nat
  location : Int
  lengthSlot : Nat
  length : Int
  deriving DecidableEq, Repr

def statementSpan (fields : Fields) : Option StatementSpan :=
  match fields.int32 (ascii "stmt_location"), fields.int32 (ascii "stmt_len") with
  | some (locationSlot, location), some (lengthSlot, length) => some ⟨locationSlot, location, lengthSlot, length⟩
  | _, _ => none

/-- The end of a statement; the zero length of the last one means the end of the source. -/
def statementEnd (sourceLength : Nat) (location length : Int) : Nat :=
  if length ≠ 0 then location.toNat + length.toNat else sourceLength

/-- The loop over the edits of a statement: the edits behind it, if none crosses its ends. -/
def statementEditsBehind (start stop : Nat) : List SourceEdit → Option (List SourceEdit)
  | [] => some []
  | edit :: edits =>
    if edit.sourceStart < stop then
      if edit.sourceStart < start ∨ edit.sourceEnd > stop then none else statementEditsBehind start stop edits
    else some (edit :: edits)

/-- The loop of `sqlparser_rebase_statement_spans_valid` over the locations and lengths of the statements. -/
def statementSpansValidFrom (oldLength : Nat) : Nat → List SourceEdit → List (Int × Int) → Bool
  | _, edits, [] => edits.isEmpty
  | previousEnd, edits, (location, length) :: spans =>
    if location < 0 ∨ length < 0 then false
    else if location.toNat < previousEnd ∨ location.toNat > oldLength ∨ length.toNat > oldLength - location.toNat then false
    else if length = 0 ∧ spans ≠ [] then false
    else
      match statementEditsBehind location.toNat (statementEnd oldLength location length) edits with
      | none => false
      | some behind => statementSpansValidFrom oldLength (statementEnd oldLength location length) behind spans

/-- The location and the length of every statement, if each is a raw one. -/
def rawStatementSpans : Messages → Option (List (Int × Int))
  | .nil => some []
  | .null _ => none
  | .cons raw rest =>
    if raw.type ≠ .rawStmt ∨ (raw.fields.message (ascii "stmt")).isNone then none
    else
      match statementSpan raw.fields, rawStatementSpans rest with
      | some span, some spans => some ((span.location, span.length) :: spans)
      | _, _ => none

/-- `PgQuery__ParseResult` -/
structure PgQueryParseResult where
  unknownFields : Nat
  quantifier : Nat → Nat
  versionSlot : Nat
  version : Int
  /-- The array is missing where its pointer is `NULL`. -/
  stmts : Option Messages

def PgQueryParseResult.stmtsDescriptor : FieldDescriptor where
  name := ascii "stmts"
  id := 2
  label := .repeated
  type := .message
  oneof := false
  quantifierOffset := 32
  descriptor := .rawStmt

def PgQueryParseResult.versionDescriptor : FieldDescriptor where
  name := ascii "version"
  id := 1
  label := .none
  type := .int32
  oneof := false
  quantifierOffset := 0
  descriptor := .other 0

def PgQueryParseResult.stmtsValue (ast : PgQueryParseResult) : Value :=
  match ast.stmts with
  | some stmts => .items stmts
  | none => .missingItems

/-- The tree that the walk sees. -/
def PgQueryParseResult.message (ast : PgQueryParseResult) : Protobuf.Message :=
  .mk .parseResult ast.unknownFields ast.quantifier
    (.cons PgQueryParseResult.versionDescriptor (.int32 ast.versionSlot ast.version)
      (.cons PgQueryParseResult.stmtsDescriptor ast.stmtsValue .nil))

/-- The spans of the statements of a parse result. -/
def PgQueryParseResult.spans (ast : PgQueryParseResult) : Option (List (Int × Int)) :=
  ast.stmts.bind rawStatementSpans

/-- `sqlparser_rebase_statement_spans_valid` -/
def statementSpansValid (ast : PgQueryParseResult) (edits : SourceEdits) (oldLength : Nat) : Bool :=
  match ast.spans with
  | none => false
  | some spans => spans ≠ [] && statementSpansValidFrom oldLength 0 edits.items spans

/-! ## The walk -/

/-- `SQLPARSER_AST_REBASE_INLINE_WRITES` -/
def inlineWrites : Nat := 64

/-- `SQLPARSER_REBASE_MAX_DEPTH` -/
def rebaseMaxDepth : Nat := 512

def maximumWrites : Nat := sizeMax / 16

section walk

variable {σ : Type}

/-- What a walk changes of `sqlparser_rebase_context_t`: the prefix cursor, the plan with its
capacity, and what the literal callback keeps. -/
structure RebaseState (σ : Type) where
  context : RebaseContext
  writes : List (Nat × Int)
  capacity : Nat
  literals : σ

/-- What a walk is given: how an allocation of writes ends, and the callback for the constants. -/
structure RebaseCalls (σ : Type) where
  memory : Nat → Bool
  literal : Protobuf.Message → Bool → σ → Option σ

/-- `sqlparser_rebase_point` on the state of the walk. -/
def RebaseState.point (state : RebaseState σ) (point : Nat) : Option (RebaseState σ × Int) :=
  match rebasePoint state.context point with
  | (context, some mapped) => some ({ state with context := context }, mapped)
  | (_, none) => none

/-- `sqlparser_rebase_record` -/
def RebaseState.record (memory : Nat → Bool) (state : RebaseState σ) (slot : Nat) (old new : Int) :
    Option (RebaseState σ) :=
  if old = new then some state
  else if state.writes.length = state.capacity then
    let capacity := if state.capacity > maximumWrites / 2 then maximumWrites else state.capacity * 2
    if state.capacity ≥ maximumWrites ∨ !memory capacity then none
    else some { state with writes := state.writes ++ [(slot, new)], capacity := capacity }
  else some { state with writes := state.writes ++ [(slot, new)] }

/-- The image of a location; a negative one is no location. -/
def RebaseState.location (state : RebaseState σ) (location : Int) : Option (RebaseState σ × Int) :=
  if location ≥ 0 then state.point location.toNat else some (state, location)

/-- The image of the length of a statement. -/
def RebaseState.length (state : RebaseState σ) (span : StatementSpan) (mappedLocation : Int) :
    Option (RebaseState σ × Int) :=
  if span.length > 0 then
    if span.location < 0 ∨ span.length.toNat > state.context.oldLength - span.location.toNat then none
    else do
      let (state, mappedEnd) ← state.point (span.location.toNat + span.length.toNat)
      if mappedEnd < mappedLocation then none else some (state, mappedEnd - mappedLocation)
  else some (state, span.length)

/-- `sqlparser_rebase_statement` -/
def rebaseStatement (memory : Nat → Bool) (state : RebaseState σ) (span : StatementSpan) : Option (RebaseState σ) :=
  if span.length < 0 then none
  else do
    let (state, mappedLocation) ← state.location span.location
    let (state, mappedLength) ← state.length span mappedLocation
    let state ← state.record memory span.locationSlot span.location mappedLocation
    state.record memory span.lengthSlot span.length mappedLength

/-- `strstr` with a nonempty needle -/
def containsText (needle : Text) : Text → Bool
  | [] => false
  | byte :: rest => needle.isPrefixOf (byte :: rest) || containsText needle rest

/-- `sqlparser_rebase_unhandled_source_field` -/
def unhandledSourceField (field : FieldDescriptor) : Bool :=
  if field.type = .message ∨ field.type = .string then false
  else
    containsText (ascii "location") field.name || (ascii "source_").isPrefixOf field.name ||
      (ascii "_offset").isSuffixOf field.name || (ascii "_length").isSuffixOf field.name ||
      (ascii "_len").isSuffixOf field.name || (ascii "_start").isSuffixOf field.name ||
      (ascii "_end").isSuffixOf field.name

/-- `sqlparser_rebase_field_active`; `none` is its error. -/
def rebaseFieldActive (quantifier : Nat → Nat) (all : Fields) (field : FieldDescriptor) : Option Bool :=
  if field.oneof then
    if quantifier field.quantifierOffset = 0 then some false
    else
      match all.find (quantifier field.quantifierOffset) with
      | none => none
      | some selected =>
        if !selected.oneof ∨ selected.quantifierOffset ≠ field.quantifierOffset then none
        else some (selected.id = field.id)
  else if field.label = .optional ∧ field.quantifierOffset ≠ 0 then some (quantifier field.quantifierOffset ≠ 0)
  else some true

def isStatement (type : MessageType) : Bool :=
  type = .rawStmt || type = .query

def isLocationName (name : Text) : Bool :=
  name = ascii "location" || name = ascii "name_location"

/-- The turn of the first loop over the fields of a message. -/
def rebaseCoordinate (memory : Nat → Bool) (type : MessageType) (literalWrapper : Bool) (state : RebaseState σ)
    (field : FieldDescriptor) (value : Value) : Option (RebaseState σ) :=
  if field.name = ascii "stmt_location" ∨ field.name = ascii "stmt_len" then
    if !isStatement type ∨ field.type ≠ .int32 ∨ field.label = .repeated then none else some state
  else if isLocationName field.name then
    -- The path of a tablespace has the name of a location.
    if type = .createTableSpaceStmt ∧ field.type = .string ∧ field.name = ascii "location" then some state
    else if field.type ≠ .int32 ∨ field.label = .repeated then none
    else
      match value with
      | .int32 slot location =>
        if location < 0 ∨ (literalWrapper ∧ location = 0) then some state
        else do
          let (state, mapped) ← state.point location.toNat
          state.record memory slot location mapped
      | _ => none
  else if unhandledSourceField field then none
  else some state

/-- The first loop of `sqlparser_rebase_message`. -/
def rebaseCoordinates (memory : Nat → Bool) (type : MessageType) (quantifier : Nat → Nat) (all : Fields)
    (literalWrapper : Bool) (state : RebaseState σ) : Fields → Option (RebaseState σ)
  | .nil => some state
  | .cons field value rest =>
    if walksField type quantifier field then
      match rebaseFieldActive quantifier all field with
      | none => none
      | some false => rebaseCoordinates memory type quantifier all literalWrapper state rest
      | some true =>
        (rebaseCoordinate memory type literalWrapper state field value).bind fun state =>
          rebaseCoordinates memory type quantifier all literalWrapper state rest
    else rebaseCoordinates memory type quantifier all literalWrapper state rest

/-- Whether a field of a constant is the wrapper of its literal. -/
def isLiteralWrapper (type : MessageType) (field : FieldDescriptor) : Bool :=
  type = .aConst && (field.descriptor = .string || field.descriptor = .float || field.descriptor = .bitString)

/-- What a message is checked for before it is read. -/
def rebaseHeader (depth unknownFields : Nat) (type : MessageType) (quantifier : Nat → Nat) (fields : Fields) : Bool :=
  depth ≤ rebaseMaxDepth && unknownFields = 0 &&
    (type ≠ .node || (quantifier nodeCaseOffset ≠ 0 && (fields.find (quantifier nodeCaseOffset)).isSome))

/-- A constant is shown to the callback. -/
def rebaseConstant (calls : RebaseCalls σ) (state : RebaseState σ) (message : Protobuf.Message) (owned underTypeName : Bool) :
    Option (RebaseState σ) :=
  if message.type = .aConst then
    if owned then (calls.literal message underTypeName state.literals).map fun literals => { state with literals := literals }
    else none
  else some state

/-- The span of a raw statement or of a query. -/
def rebaseSpan (memory : Nat → Bool) (state : RebaseState σ) (type : MessageType) (fields : Fields) :
    Option (RebaseState σ) :=
  if isStatement type then (statementSpan fields).bind (rebaseStatement memory state) else some state

mutual

/-- `sqlparser_rebase_message` -/
def rebaseMessage (calls : RebaseCalls σ) (state : RebaseState σ) (owned : Bool) (depth : Nat)
    (literalWrapper underTypeName : Bool) : Protobuf.Message → Option (RebaseState σ)
  | .mk type unknownFields quantifier fields =>
    if rebaseHeader depth unknownFields type quantifier fields then
      let under := underTypeName || type = .typeName
      (rebaseConstant calls state (.mk type unknownFields quantifier fields) owned under).bind fun state =>
        (rebaseSpan calls.memory state type fields).bind fun state =>
          (rebaseCoordinates calls.memory type quantifier fields literalWrapper state fields).bind fun state =>
            rebaseChildren calls type quantifier fields depth under state fields
    else none

/-- The second loop of `sqlparser_rebase_message`. -/
def rebaseChildren (calls : RebaseCalls σ) (type : MessageType) (quantifier : Nat → Nat) (all : Fields) (depth : Nat)
    (underTypeName : Bool) (state : RebaseState σ) : Fields → Option (RebaseState σ)
  | .nil => some state
  | .cons field value rest =>
    if field.type = .message ∧ walksField type quantifier field then
      match rebaseFieldActive quantifier all field with
      | none => none
      | some false => rebaseChildren calls type quantifier all depth underTypeName state rest
      | some true =>
        (rebaseValue calls field depth (isLiteralWrapper type field) underTypeName state value).bind fun state =>
          rebaseChildren calls type quantifier all depth underTypeName state rest
    else rebaseChildren calls type quantifier all depth underTypeName state rest

def rebaseValue (calls : RebaseCalls σ) (field : FieldDescriptor) (depth : Nat) (literalWrapper underTypeName : Bool)
    (state : RebaseState σ) : Value → Option (RebaseState σ)
  | .absent => if field.oneof ∨ field.label = .required then none else some state
  | .child message =>
    if message.type = field.descriptor then
      rebaseMessage calls state true (depth + 1) literalWrapper underTypeName message
    else none
  | .items messages => rebaseItems calls field depth literalWrapper underTypeName state messages
  | _ => none

def rebaseItems (calls : RebaseCalls σ) (field : FieldDescriptor) (depth : Nat) (literalWrapper underTypeName : Bool)
    (state : RebaseState σ) : Messages → Option (RebaseState σ)
  | .nil => some state
  | .null _ => none
  | .cons message rest =>
    if message.type = field.descriptor then
      (rebaseMessage calls state true (depth + 1) literalWrapper underTypeName message).bind fun state =>
        rebaseItems calls field depth literalWrapper underTypeName state rest
    else none

end

/-- The empty plan at the first edit. -/
def RebaseState.initial (edits : SourceEdits) (oldLength newLength : Nat) (literals : σ) : RebaseState σ where
  context := rebaseContext edits oldLength newLength
  writes := []
  capacity := inlineWrites
  literals := literals

/-- `sqlparser_ast_rebase_plan_build` -/
def astRebasePlanBuild (calls : RebaseCalls σ) (literals : σ) (ast : PgQueryParseResult) (edits : Option SourceEdits)
    (oldLength newLength : Nat) : Option (List (Nat × Int) × σ) :=
  match edits with
  | none => none
  | some edits =>
    if astRebaseEditsValid (some edits) oldLength newLength ∧ statementSpansValid ast edits oldLength then
      (rebaseMessage calls (.initial edits oldLength newLength literals) false 0 false false ast.message).map
        fun state => (state.writes, state.literals)
    else none

end walk

/-- Every integer of a parse result replaced by what a function makes of its slot and its value. -/
def PgQueryParseResult.mapSlots (change : Nat → Int → Int) (ast : PgQueryParseResult) : PgQueryParseResult :=
  { ast with
    version := change ast.versionSlot ast.version
    stmts := ast.stmts.map (Messages.mapSlots change) }

/-- The slot of a write takes its value. -/
def writeSlot (write : Nat × Int) (slot : Nat) (value : Int) : Int :=
  if slot = write.1 then write.2 else value

/-- `sqlparser_ast_rebase_plan_apply` -/
def astRebasePlanApply (plan : List (Nat × Int)) (ast : PgQueryParseResult) : PgQueryParseResult :=
  plan.foldl (fun ast write => ast.mapSlots (writeSlot write)) ast

/-- A build and the application of its plan: the tree behind them, and whether the build succeeds. -/
def astRebase {σ : Type} (calls : RebaseCalls σ) (literals : σ) (ast : PgQueryParseResult) (edits : Option SourceEdits)
    (oldLength newLength : Nat) : PgQueryParseResult × Bool :=
  match astRebasePlanBuild calls literals ast edits oldLength newLength with
  | none => (ast, false)
  | some (plan, _) => (astRebasePlanApply plan ast, true)

end SqlParser.Core
