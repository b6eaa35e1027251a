import SqlParser.Library.BoundedWriter
import SqlParser.PgQuery.InsertAst

/-! # The packer of certified INSERT statements

`sqlparser_pack_certified_insert` writes the protobuf of an `INSERT ... VALUES` tree without the
reflection of the generic packer. A first pass checks the tree and adds up the sizes, a second pass
writes into a buffer of exactly that size. A tree that the first pass refuses is left to the generic
packer.
-/

namespace SqlParser.Core

open SqlParser.PgQuery
open SqlParser.Library.ProtobufWire
open SqlParser.Library.BoundedWriter

/-- What the packer asks of the machine: whether `malloc` serves the two requests, the bounds of
`size_t` and `ptrdiff_t`, and `cp_schemas_match`. -/
structure PackMachine where
  scratch : Nat → Bool
  output : Nat → Bool
  sizeMax : Nat
  ptrdiffMax : Nat
  schemasMatch : Bool

/-- `UINT32_MAX` -/
def uint32Max : Nat := 2 ^ 32 - 1

/-! ## Sizes -/

def cpVarintSize (value : Nat) : Nat :=
  if value < 2 ^ 7 then 1
  else if value < 2 ^ 14 then 2
  else if value < 2 ^ 21 then 3
  else if value < 2 ^ 28 then 4
  else 5

def cpEnvelope (tag payload : Nat) : Nat :=
  cpVarintSize (tag * 8 + 2) + cpVarintSize payload + payload

def cpScalarSize (tag value : Nat) : Nat :=
  if value = 0 then 0 else cpVarintSize (tag * 8) + cpVarintSize value

/-- A size that goes into a `uint32_t`. -/
def capped (size : Nat) : Option Nat :=
  if size > uint32Max then none else some size

/-- `protobuf_c_message_get_packed_size` -/
def packedSize (message : Wire) : Nat :=
  message.payload.length

/-! ## Cells -/

structure CellSizes where
  value : Nat
  constant : Nat
  node : Nat
  stringLength : Nat
  generic : Bool

/-- A cell whose whole node is left to the generic packer. -/
def isGenericCell (node : InsertAst.CellNode) : Bool :=
  node.unknownFields.isEmpty &&
  match node.arm with
  | .sqlvalueFunction (some function) => function.unknownFields.isEmpty
  | .aConst (some constant) =>
    constant.unknownFields.isEmpty && !constant.isnull && 0 ≤ constant.location.toInt &&
    match constant.val with
    | .fval (some float) => float.unknownFields.isEmpty && float.fval.isSome
    | _ => false
  | _ => false

/-- The sizes of a constant by the number of its value, the size of the value and the length of its text. -/
def cellSizes (constant : InsertAst.AConst) (number value stringLength : Nat) : Option CellSizes := do
  let value ← capped value
  let constant ← capped (cpEnvelope number value + cpScalarSize 11 (InsertAst.uint32 constant.location))
  let node ← capped (cpEnvelope 268 constant)
  return ⟨value, constant, node, stringLength, false⟩

def measureConstant (constant : InsertAst.AConst) : Option CellSizes :=
  if constant.unknownFields ≠ [] ∨ constant.isnull ∨ constant.location.toInt < 0 then none
  else
    match constant.val with
    | .ival (some integer) =>
      if integer.unknownFields ≠ [] ∨ integer.ival.toInt < 0 then none
      else cellSizes constant 1 (cpScalarSize 1 (InsertAst.uint32 integer.ival)) 0
    | .sval (some ⟨some text, location, unknownFields⟩) =>
      if unknownFields ≠ [] ∨ location ≠ 0 ∨ text.length > uint32Max then none
      else cellSizes constant 4 (if text.length = 0 then 0 else cpEnvelope 1 text.length) text.length
    | _ => none

def measureCell : Option InsertAst.CellNode → Option CellSizes
  | none => none
  | some node =>
    if isGenericCell node then
      (capped (packedSize (InsertAst.CellNode.toWire node))).map fun size => ⟨0, 0, size, 0, true⟩
    else if node.unknownFields ≠ [] then none
    else
      match node.arm with
      | .aConst (some constant) => measureConstant constant
      | _ => none

/-! ## The shape of the tree -/

def certifiedRaw (machine : PackMachine) (ast : InsertAst.ParseResult) : Option InsertAst.RawStmt :=
  if machine.schemasMatch = false ∨ ast.unknownFields ≠ [] ∨ ast.version.toInt < 0 then none
  else
    match ast.stmts with
    | some [some raw] =>
      if raw.unknownFields ≠ [] ∨ raw.stmtLocation ≠ 0 ∨ raw.stmtLen.toInt < 0 then none else some raw
    | _ => none

def certifiedStatement (raw : InsertAst.RawStmt) : Option InsertAst.InsertStmt :=
  match raw.stmt with
  | some ⟨.insertStmt (some insert), unknownFields⟩ =>
    if unknownFields ≠ [] ∨ insert.unknownFields ≠ [] then none else some insert
  | _ => none

/-- The relation, the columns and the source of an INSERT that has nothing else. -/
def certifiedClauses (insert : InsertAst.InsertStmt) :
    Option (InsertAst.RangeVar × List (Option InsertAst.ColumnNode) × InsertAst.SelectStmt) :=
  if insert.onConflictClause.isSome ∨ insert.returningList.isSome ∨ insert.withClause.isSome ∨
      insert.override ≠ .notSet then none
  else
    match insert.relation, insert.cols, insert.selectStmt with
    | some relation, some columns, some ⟨.selectStmt (some select), unknownFields⟩ =>
      if columns = [] ∨ unknownFields ≠ [] ∨ select.unknownFields ≠ [] then none
      else some (relation, columns, select)
    | _, _, _ => none

/-- The rows of a SELECT that only lists values. -/
def certifiedRows (machine : PackMachine) (select : InsertAst.SelectStmt) : Option (List (Option InsertAst.RowNode)) :=
  if select.valuesDefaults = false then none
  else
    match select.valuesLists with
    | none => none
    | some rows =>
      if rows = [] ∨ rows.length > machine.sizeMax / 4 ∨ rows.length > uint32Max then none else some rows

/-- The parts of a tree of the shape. -/
structure InsertParts where
  version : Int32
  raw : InsertAst.RawStmt
  insert : InsertAst.InsertStmt
  relation : InsertAst.RangeVar
  columns : List (Option InsertAst.ColumnNode)
  select : InsertAst.SelectStmt
  rows : List (Option InsertAst.RowNode)

def insertParts (machine : PackMachine) (ast : InsertAst.ParseResult) : Option InsertParts := do
  let raw ← certifiedRaw machine ast
  let insert ← certifiedStatement raw
  let (relation, columns, select) ← certifiedClauses insert
  let rows ← certifiedRows machine select
  return ⟨ast.version, raw, insert, relation, columns, select, rows⟩

/-! ## The first pass -/

def measureColumns (prefixSize : Nat) : List (Option InsertAst.ColumnNode) → Option Nat
  | [] => some prefixSize
  | none :: _ => none
  | some column :: columns => do
    let size ← capped (packedSize (InsertAst.ColumnNode.toWire column))
    let prefixSize ← capped (prefixSize + cpEnvelope 2 size)
    measureColumns prefixSize columns

def measureCells (rowSize : Nat) : List (Option InsertAst.CellNode) → Option Nat
  | [] => some rowSize
  | cell :: cells => do
    let sizes ← measureCell cell
    let rowSize ← capped (rowSize + cpEnvelope 1 sizes.node)
    measureCells rowSize cells

/-- The cells of a row that is a list without anything else. -/
def rowCells (columns : Nat) : Option InsertAst.RowNode → Option (List (Option InsertAst.CellNode))
  | some ⟨.list (some ⟨some items, listUnknown⟩), unknownFields⟩ =>
    if unknownFields ≠ [] ∨ listUnknown ≠ [] ∨ items = [] ∨ items.length ≠ columns then none else some items
  | _ => none

/-- The size of the VALUES with the sizes of the rows. -/
def measureRows (columns size : Nat) : List (Option InsertAst.RowNode) → Option (List Nat × Nat)
  | [] => some ([], size)
  | row :: rows => do
    let cells ← rowCells columns row
    let rowSize ← measureCells 0 cells
    let rowNodeSize ← capped (cpEnvelope 265 rowSize)
    let size ← capped (size + cpEnvelope 10 rowNodeSize)
    let (rowSizes, size) ← measureRows columns size rows
    return (rowSize :: rowSizes, size)

/-- The sizes of the rows go into an array of the scratch memory. -/
def measureValues (machine : PackMachine) (parts : InsertParts) : Option (List Nat × Nat) :=
  if machine.scratch (parts.rows.length * 4) then measureRows parts.columns.length 0 parts.rows else none

structure InsertSizes where
  rows : List Nat
  select : Nat
  selectNode : Nat
  insert : Nat
  insertNode : Nat
  raw : Nat
  total : Nat

def measureInsert (machine : PackMachine) (parts : InsertParts) : Option InsertSizes := do
  let relation ← capped (packedSize parts.relation.toWire)
  let prefixSize ← measureColumns (cpEnvelope 1 relation) parts.columns
  let (rows, values) ← measureValues machine parts
  let select ← capped (values + (cpScalarSize 14 parts.select.limitOption.number + cpScalarSize 17 parts.select.op.number))
  let selectNode ← capped (cpEnvelope 136 select)
  let insert ← capped (prefixSize + cpEnvelope 3 selectNode + cpScalarSize 7 parts.insert.override.number)
  let insertNode ← capped (cpEnvelope 132 insert)
  let raw ← capped (cpEnvelope 1 insertNode + cpScalarSize 3 (InsertAst.uint32 parts.raw.stmtLen))
  let total ← capped (cpScalarSize 1 (InsertAst.uint32 parts.version) + cpEnvelope 2 raw)
  if total > machine.sizeMax ∨ total > machine.ptrdiffMax then none
  else return ⟨rows, select, selectNode, insert, insertNode, raw, total⟩

/-! ## The second pass -/

def writeVarint (writer : Writer) (value : Nat) : Writer :=
  if writer.full then writer.fail
  else
    let next := writer.append [UInt8.ofNat (value % 128 + if 128 ≤ value then 128 else 0)]
    if value / 128 = 0 then next else writeVarint next (value / 128)
termination_by value
decreasing_by omega

def writeHeader (writer : Writer) (tag payload : Nat) : Writer :=
  writeVarint (writeVarint writer (tag * 8 + 2)) payload

def writeScalar (writer : Writer) (tag value : Nat) : Writer :=
  if value = 0 then writer else writeVarint (writeVarint writer (tag * 8)) value

/-- A message of the generic packer, which must have the size that was announced. -/
def writePacked (writer : Writer) (message : Wire) (size : Nat) : Writer :=
  if size > writer.capacity - writer.written.length ∨ message.payload.length ≠ size then writer.fail
  else writer.append message.payload

def writeGeneric (writer : Writer) (tag : Nat) (message : Wire) : Writer :=
  let size := packedSize message
  if size > uint32Max then writer.fail else writePacked (writeHeader writer tag size) message size

/-- The value of a constant behind its header. -/
def writeValue (writer : Writer) (constant : InsertAst.AConst) (sizes : CellSizes) : Writer :=
  match constant.val with
  | .ival (some integer) => writeScalar (writeHeader writer 1 sizes.value) 1 (InsertAst.uint32 integer.ival)
  | .sval (some ⟨some text, _, _⟩) =>
    let writer := writeHeader writer 4 sizes.value
    if sizes.stringLength = 0 then writer else (writeHeader writer 1 sizes.stringLength).copy text
  | _ => writer

def writeCell (writer : Writer) (cell : Option InsertAst.CellNode) : Writer :=
  match measureCell cell, cell with
  | some sizes, some node =>
    if sizes.generic then writePacked (writeHeader writer 1 sizes.node) (InsertAst.CellNode.toWire node) sizes.node
    else
      match node.arm with
      | .aConst (some constant) =>
        let writer := writeHeader (writeHeader writer 1 sizes.node) 268 sizes.constant
        writeScalar (writeValue writer constant sizes) 11 (InsertAst.uint32 constant.location)
      | _ => writer
  | _, _ => writer.fail

def writeRow (writer : Writer) (size : Nat) (row : Option InsertAst.RowNode) : Writer :=
  let writer := writeHeader (writeHeader writer 10 (cpEnvelope 265 size % 2 ^ 32)) 265 size
  match row with
  | some ⟨.list (some ⟨some items, _⟩), _⟩ => items.foldl writeCell writer
  | _ => writer

def writeRows (writer : Writer) : List (Option InsertAst.RowNode) → List Nat → Writer
  | row :: rows, size :: sizes => writeRows (writeRow writer size row) rows sizes
  | _, _ => writer

def writeColumn (writer : Writer) : Option InsertAst.ColumnNode → Writer
  | none => writer
  | some column => writeGeneric writer 2 (InsertAst.ColumnNode.toWire column)

def writeInsert (parts : InsertParts) (sizes : InsertSizes) (writer : Writer) : Writer :=
  let writer := writeScalar writer 1 (InsertAst.uint32 parts.version)
  let writer := writeHeader writer 2 sizes.raw
  let writer := writeHeader writer 1 sizes.insertNode
  let writer := writeHeader writer 132 sizes.insert
  let writer := writeGeneric writer 1 parts.relation.toWire
  let writer := parts.columns.foldl writeColumn writer
  let writer := writeHeader writer 3 sizes.selectNode
  let writer := writeHeader writer 136 sizes.select
  let writer := writeRows writer parts.rows sizes.rows
  let writer := writeScalar writer 14 parts.select.limitOption.number
  let writer := writeScalar writer 17 parts.select.op.number
  let writer := writeScalar writer 7 parts.insert.override.number
  writeScalar writer 3 (InsertAst.uint32 parts.raw.stmtLen)

/-! ## The packer -/

structure PackedInsert where
  status : Status
  handled : Bool
  data : Option Text
  len : Nat
  deriving DecidableEq

def declined : PackedInsert := ⟨.ok, false, none, 0⟩

/-- `sqlparser_pack_certified_insert` -/
def packCertifiedInsert (machine : PackMachine) (ast : InsertAst.ParseResult) : PackedInsert :=
  match insertParts machine ast with
  | none => declined
  | some parts =>
    match measureInsert machine parts with
    | none => declined
    | some sizes =>
      if machine.output sizes.total = false then ⟨.noMemory, true, none, 0⟩
      else
        let writer := writeInsert parts sizes ⟨[], sizes.total, false⟩
        if writer.failed ∨ writer.full = false then ⟨.internalError, true, none, 0⟩
        else ⟨.ok, true, some writer.written, sizes.total⟩

end SqlParser.Core
