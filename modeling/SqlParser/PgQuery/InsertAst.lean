import SqlParser.Core.Basic
import SqlParser.Library.ProtobufWire

/-! # The protobuf tree of an INSERT statement with VALUES

The messages of `pg_query.proto` that an `INSERT INTO name (names) VALUES (cells), ...` is made of.
A pointer that may be NULL is an option, and a repeated field is NULL or the pointers of its
elements. An arm of a node that the core never looks into is a message of unread fields.
-/

namespace SqlParser.PgQuery.InsertAst

open SqlParser.Core
open SqlParser.Library.ProtobufWire

/-! ## Scalars -/

/-- `(uint32_t)value` -/
def uint32 (value : Int32) : Nat :=
  value.toUInt32.toNat

/-- The wire carries a negative `int32` with its sign extended to 64 bits. -/
def int32 (value : Int32) : Wire :=
  .varint (value.toInt % 2 ^ 64).toNat

def bool (value : Bool) : Wire :=
  .varint value.toNat

/-- A NULL string and the empty string are the same on the wire. -/
def string (value : Option Text) : Wire :=
  .text (value.getD [])

/-- `PgQuery__OverridingKind` -/
inductive OverridingKind where
  | undefined
  | notSet
  | userValue
  | systemValue
  deriving DecidableEq, Repr

def OverridingKind.number : OverridingKind → Nat
  | .undefined => 0
  | .notSet => 1
  | .userValue => 2
  | .systemValue => 3

/-- `PgQuery__LimitOption` -/
inductive LimitOption where
  | undefined
  | default
  | count
  | withTies
  deriving DecidableEq, Repr

def LimitOption.number : LimitOption → Nat
  | .undefined => 0
  | .default => 1
  | .count => 2
  | .withTies => 3

/-- `PgQuery__SetOperation` -/
inductive SetOperation where
  | undefined
  | none
  | union
  | intersect
  | except
  deriving DecidableEq, Repr

def SetOperation.number : SetOperation → Nat
  | .undefined => 0
  | .none => 1
  | .union => 2
  | .intersect => 3
  | .except => 4

/-- `PgQuery__LimitClauseStyle` -/
inductive LimitClauseStyle where
  | default
  | offsetRows
  | limit
  | fetchFirst
  | fetchNext
  deriving DecidableEq, Repr

def LimitClauseStyle.number : LimitClauseStyle → Nat
  | .default => 0
  | .offsetRows => 1
  | .limit => 2
  | .fetchFirst => 3
  | .fetchNext => 4

/-! ## Fields -/

/-- A message field that is NULL is not on the wire. -/
def optional (number : Nat) : Option Wire → List (Nat × Wire)
  | none => []
  | some message => [(number, message)]

/-- An element that is NULL has the wire of an empty message. -/
def element : Option Wire → Wire
  | none => .message [] []
  | some message => message

def repeated (number : Nat) : Option (List (Option Wire)) → List (Nat × Wire)
  | none => []
  | some items => items.map fun item => (number, element item)

@[simp] theorem optional_none (number : Nat) : optional number none = [] := rfl

@[simp] theorem optional_some (number : Nat) (message : Wire) : optional number (some message) = [(number, message)] := rfl

@[simp] theorem repeated_none (number : Nat) : repeated number none = [] := rfl

/-! ## Messages -/

/-- A message whose fields the core does not read. -/
structure Message where
  fields : List (Nat × Wire)
  unknownFields : Text

def Message.toWire (message : Message) : Wire :=
  .message message.fields message.unknownFields

/-- `PgQuery__Integer` -/
structure Integer where
  ival : Int32
  unknownFields : Text

def Integer.toWire (integer : Integer) : Wire :=
  .message [(1, int32 integer.ival)] integer.unknownFields

/-- `PgQuery__Float` -/
structure Float where
  fval : Option Text
  unknownFields : Text

def Float.toWire (float : Float) : Wire :=
  .message [(1, string float.fval)] float.unknownFields

/-- `PgQuery__String` -/
structure PgString where
  sval : Option Text
  location : Int32
  unknownFields : Text

def PgString.toWire (constant : PgString) : Wire :=
  .message [(1, string constant.sval), (2, int32 constant.location)] constant.unknownFields

/-- The value of an `A_Const`. -/
inductive ConstValue where
  | notSet
  | ival (integer : Option Integer)
  | fval (float : Option Float)
  | boolval (boolean : Option Message)
  | sval (constant : Option PgString)
  | bsval (bits : Option Message)

def ConstValue.wire : ConstValue → List (Nat × Wire)
  | .notSet => []
  | .ival integer => optional 1 (integer.map Integer.toWire)
  | .fval float => optional 2 (float.map Float.toWire)
  | .boolval boolean => optional 3 (boolean.map Message.toWire)
  | .sval constant => optional 4 (constant.map PgString.toWire)
  | .bsval bits => optional 5 (bits.map Message.toWire)

/-- `PgQuery__AConst` -/
structure AConst where
  val : ConstValue
  isnull : Bool
  location : Int32
  unknownFields : Text

def AConst.toWire (constant : AConst) : Wire :=
  .message (constant.val.wire ++ [(10, bool constant.isnull), (11, int32 constant.location)]) constant.unknownFields

/-- `PgQuery__Node`, by the arms that its place in the tree is read for. -/
structure Node (Arm : Type) where
  arm : Arm
  unknownFields : Text

/-- A node as a cell of a row. -/
inductive CellArm where
  | notSet
  | aConst (constant : Option AConst)
  | sqlvalueFunction (function : Option Message)
  | other (number : Nat) (message : Option Message)

def CellArm.wire : CellArm → List (Nat × Wire)
  | .notSet => []
  | .aConst constant => optional 268 (constant.map AConst.toWire)
  | .sqlvalueFunction function => optional 38 (function.map Message.toWire)
  | .other number message => optional number (message.map Message.toWire)

abbrev CellNode := Node CellArm

def CellNode.toWire (node : CellNode) : Wire :=
  .message node.arm.wire node.unknownFields

/-- `PgQuery__List` -/
structure PgList where
  items : Option (List (Option CellNode))
  unknownFields : Text

def PgList.toWire (list : PgList) : Wire :=
  .message (repeated 1 (list.items.map (List.map (Option.map CellNode.toWire)))) list.unknownFields

/-- A node as a row of VALUES. -/
inductive RowArm where
  | notSet
  | list (cells : Option PgList)
  | other (number : Nat) (message : Option Message)

def RowArm.wire : RowArm → List (Nat × Wire)
  | .notSet => []
  | .list cells => optional 265 (cells.map PgList.toWire)
  | .other number message => optional number (message.map Message.toWire)

abbrev RowNode := Node RowArm

def RowNode.toWire (node : RowNode) : Wire :=
  .message node.arm.wire node.unknownFields

/-- A repeated field whose elements the core does not read. -/
abbrev Messages := Option (List (Option Message))

def Messages.wire (number : Nat) (messages : Messages) : List (Nat × Wire) :=
  repeated number (messages.map (List.map (Option.map Message.toWire)))

/-- `PgQuery__SelectStmt` -/
structure SelectStmt where
  distinctClause : Messages
  intoClause : Option Message
  targetList : Messages
  fromClause : Messages
  whereClause : Option Message
  groupClause : Messages
  groupDistinct : Bool
  havingClause : Option Message
  windowClause : Messages
  valuesLists : Option (List (Option RowNode))
  sortClause : Messages
  limitOffset : Option Message
  limitCount : Option Message
  limitOption : LimitOption
  lockingClause : Messages
  withClause : Option Message
  op : SetOperation
  all : Bool
  larg : Option Message
  rarg : Option Message
  startWithClause : Option Message
  connectByClause : Option Message
  connectByNoCycle : Bool
  connectByFirst : Bool
  limitClauseStyle : LimitClauseStyle
  unknownFields : Text

def SelectStmt.toWire (select : SelectStmt) : Wire :=
  .message
    (Messages.wire 1 select.distinctClause
      ++ optional 2 (select.intoClause.map Message.toWire)
      ++ Messages.wire 3 select.targetList
      ++ Messages.wire 4 select.fromClause
      ++ optional 5 (select.whereClause.map Message.toWire)
      ++ Messages.wire 6 select.groupClause
      ++ [(7, bool select.groupDistinct)]
      ++ optional 8 (select.havingClause.map Message.toWire)
      ++ Messages.wire 9 select.windowClause
      ++ repeated 10 (select.valuesLists.map (List.map (Option.map RowNode.toWire)))
      ++ Messages.wire 11 select.sortClause
      ++ optional 12 (select.limitOffset.map Message.toWire)
      ++ optional 13 (select.limitCount.map Message.toWire)
      ++ [(14, .varint select.limitOption.number)]
      ++ Messages.wire 15 select.lockingClause
      ++ optional 16 (select.withClause.map Message.toWire)
      ++ [(17, .varint select.op.number), (18, bool select.all)]
      ++ optional 19 (select.larg.map Message.toWire)
      ++ optional 20 (select.rarg.map Message.toWire)
      ++ optional 21 (select.startWithClause.map Message.toWire)
      ++ optional 22 (select.connectByClause.map Message.toWire)
      ++ [(23, bool select.connectByNoCycle), (24, bool select.connectByFirst),
        (25, .varint select.limitClauseStyle.number)])
    select.unknownFields

/-- A SELECT that only lists values, as `makeNode` leaves it. -/
def SelectStmt.valuesDefaults (select : SelectStmt) : Bool :=
  select.distinctClause.isNone && select.intoClause.isNone && select.targetList.isNone &&
  select.fromClause.isNone && select.whereClause.isNone && select.startWithClause.isNone &&
  select.connectByClause.isNone && !select.connectByNoCycle && !select.connectByFirst &&
  select.groupClause.isNone && !select.groupDistinct && select.havingClause.isNone &&
  select.windowClause.isNone && select.sortClause.isNone && select.limitOffset.isNone &&
  select.limitCount.isNone && select.limitOption = .default && select.lockingClause.isNone &&
  select.withClause.isNone && select.op = .none && !select.all && select.larg.isNone && select.rarg.isNone &&
  select.limitClauseStyle = .default

/-- A node as the source of an INSERT. -/
inductive SourceArm where
  | notSet
  | selectStmt (select : Option SelectStmt)
  | other (number : Nat) (message : Option Message)

def SourceArm.wire : SourceArm → List (Nat × Wire)
  | .notSet => []
  | .selectStmt select => optional 136 (select.map SelectStmt.toWire)
  | .other number message => optional number (message.map Message.toWire)

abbrev SourceNode := Node SourceArm

def SourceNode.toWire (node : SourceNode) : Wire :=
  .message node.arm.wire node.unknownFields

/-- `PgQuery__ResTarget` -/
structure ResTarget where
  name : Option Text
  indirection : Messages
  val : Option Message
  location : Int32
  unknownFields : Text

def ResTarget.toWire (target : ResTarget) : Wire :=
  .message
    ([(1, string target.name)]
      ++ Messages.wire 2 target.indirection
      ++ optional 3 (target.val.map Message.toWire)
      ++ [(4, int32 target.location)])
    target.unknownFields

/-- A node as a column name. -/
inductive ColumnArm where
  | notSet
  | resTarget (target : Option ResTarget)
  | other (number : Nat) (message : Option Message)

def ColumnArm.wire : ColumnArm → List (Nat × Wire)
  | .notSet => []
  | .resTarget target => optional 77 (target.map ResTarget.toWire)
  | .other number message => optional number (message.map Message.toWire)

abbrev ColumnNode := Node ColumnArm

def ColumnNode.toWire (node : ColumnNode) : Wire :=
  .message node.arm.wire node.unknownFields

/-- `PgQuery__RangeVar` -/
structure RangeVar where
  catalogname : Option Text
  schemaname : Option Text
  relname : Option Text
  inh : Bool
  relpersistence : Option Text
  «alias» : Option Message
  location : Int32
  unknownFields : Text

def RangeVar.toWire (relation : RangeVar) : Wire :=
  .message
    ([(1, string relation.catalogname), (2, string relation.schemaname), (3, string relation.relname),
        (4, bool relation.inh), (5, string relation.relpersistence)]
      ++ optional 6 (relation.«alias».map Message.toWire)
      ++ [(7, int32 relation.location)])
    relation.unknownFields

/-- `PgQuery__InsertStmt` -/
structure InsertStmt where
  relation : Option RangeVar
  cols : Option (List (Option ColumnNode))
  selectStmt : Option SourceNode
  onConflictClause : Option Message
  returningList : Messages
  withClause : Option Message
  override : OverridingKind
  unknownFields : Text

def InsertStmt.toWire (insert : InsertStmt) : Wire :=
  .message
    (optional 1 (insert.relation.map RangeVar.toWire)
      ++ repeated 2 (insert.cols.map (List.map (Option.map ColumnNode.toWire)))
      ++ optional 3 (insert.selectStmt.map SourceNode.toWire)
      ++ optional 4 (insert.onConflictClause.map Message.toWire)
      ++ Messages.wire 5 insert.returningList
      ++ optional 6 (insert.withClause.map Message.toWire)
      ++ [(7, .varint insert.override.number)])
    insert.unknownFields

/-- A node as the statement of a text. -/
inductive StatementArm where
  | notSet
  | insertStmt (insert : Option InsertStmt)
  | other (number : Nat) (message : Option Message)

def StatementArm.wire : StatementArm → List (Nat × Wire)
  | .notSet => []
  | .insertStmt insert => optional 132 (insert.map InsertStmt.toWire)
  | .other number message => optional number (message.map Message.toWire)

abbrev StatementNode := Node StatementArm

def StatementNode.toWire (node : StatementNode) : Wire :=
  .message node.arm.wire node.unknownFields

/-- `PgQuery__RawStmt` -/
structure RawStmt where
  stmt : Option StatementNode
  stmtLocation : Int32
  stmtLen : Int32
  unknownFields : Text

def RawStmt.toWire (raw : RawStmt) : Wire :=
  .message
    (optional 1 (raw.stmt.map StatementNode.toWire) ++ [(2, int32 raw.stmtLocation), (3, int32 raw.stmtLen)])
    raw.unknownFields

/-- `PgQuery__ParseResult` -/
structure ParseResult where
  version : Int32
  stmts : Option (List (Option RawStmt))
  unknownFields : Text

def ParseResult.toWire (ast : ParseResult) : Wire :=
  .message ([(1, int32 ast.version)] ++ repeated 2 (ast.stmts.map (List.map (Option.map RawStmt.toWire))))
    ast.unknownFields

/-- `protobuf_c_message_pack` of the whole tree -/
def ParseResult.packed (ast : ParseResult) : Text :=
  ast.toWire.payload

end SqlParser.PgQuery.InsertAst
