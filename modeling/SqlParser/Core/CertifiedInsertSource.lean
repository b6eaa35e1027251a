import SqlParser.Core.Bytes
import SqlParser.Core.InsertEdits
import SqlParser.PgQuery.InsertAst

/-! # The certificate of an INSERT and its source

`sqlparser_patch_certify_insert_source` reads the source of an `INSERT ... VALUES` in lock-step with
its tree: every name, string and number of the tree stands in the source where the tree says, and
nothing else does. A reader of the source is a function from the rest of the text to the rest behind
what it accepts. `sqlparser_patch_consume_certified_insert_strings` then replaces strings in the tree
without any check.
-/

namespace SqlParser.Core

open SqlParser.PgQuery

/-! ## Gaps, words and punctuation -/

/-- The rest behind a block comment whose start was read. -/
def certifiedBlock : Text → Option Text
  | first :: second :: rest =>
    if first = 42 ∧ second = 47 then some rest
    else if first ≥ 0x7f ∨ (first = 47 ∧ second = 42) then none
    else certifiedBlock (second :: rest)
  | _ => none

/-- The rest behind a line comment starts with the end of the line. -/
def certifiedLine : Text → Option Text
  | [] => some []
  | byte :: rest =>
    if byte = 10 ∨ byte = 13 then some (byte :: rest)
    else if byte ≥ 0x7f then none
    else certifiedLine rest

theorem certifiedBlock_length {text rest : Text} (read : certifiedBlock text = some rest) :
    rest.length < text.length := by
  fun_induction certifiedBlock text with
  | case1 =>
    cases read
    simp only [List.length_cons]
    omega
  | case2 => cases read
  | case3 first second tail _ _ inductionHypothesis =>
    have := inductionHypothesis read
    simp only [List.length_cons] at this ⊢
    omega
  | case4 => cases read

theorem certifiedLine_length {text rest : Text} (read : certifiedLine text = some rest) :
    rest.length ≤ text.length := by
  fun_induction certifiedLine text with
  | case1 | case2 => cases read; exact le_rfl
  | case3 => cases read
  | case4 byte tail _ _ inductionHypothesis =>
    have := inductionHypothesis read
    simp only [List.length_cons]
    omega

/-- What a gap has behind its spaces. -/
inductive GapHead where
  | block (inside : Text)
  | line (inside : Text)
  | done

def gapHead : Text → GapHead
  | first :: second :: inside =>
    if first = 47 ∧ second = 42 then .block inside
    else if first = 45 ∧ second = 45 ∧ inside.head?.any (· ≤ 0x20) then .line inside
    else .done
  | _ => .done

theorem gapHead_block {text inside : Text} (found : gapHead text = .block inside) : text = 47 :: 42 :: inside := by
  rw [gapHead.eq_def] at found
  split at found
  next first second tail =>
    split_ifs at found with block
    cases found
    rw [block.1, block.2]
  next => cases found

theorem gapHead_line {text inside : Text} (found : gapHead text = .line inside) :
    text = 45 :: 45 :: inside ∧ inside.head?.any (· ≤ 0x20) = true := by
  rw [gapHead.eq_def] at found
  split at found
  next first second tail =>
    split_ifs at found with block line
    cases found
    exact ⟨by rw [line.1, line.2.1], line.2.2⟩
  next => cases found

/-- `sqlparser_patch_certified_gap` -/
def certifiedGap (text : Text) : Option Text :=
  let here := text.dropWhile isSpace
  match found : gapHead here with
  | .block inside =>
    if inside.head? = some 33 ∨ inside.head? = some 43 then none
    else
      match read : certifiedBlock inside with
      | none => none
      | some rest => certifiedGap rest
  | .line inside =>
    match read : certifiedLine inside with
    | none => none
    | some rest => certifiedGap rest
  | .done => some here
termination_by text.length
decreasing_by
  · have := certifiedBlock_length read
    have within : here.length ≤ text.length := (List.dropWhile_suffix isSpace).length_le
    have := congrArg List.length (gapHead_block found)
    simp only [List.length_cons] at this
    omega
  · have := certifiedLine_length read
    have within : here.length ≤ text.length := (List.dropWhile_suffix isSpace).length_le
    have := congrArg List.length (gapHead_line found).1
    simp only [List.length_cons] at this
    omega

/-- `sqlparser_patch_certified_identifier_char` -/
def certifiedIdentifierChar (byte : UInt8) (first : Bool) : Bool :=
  isAlpha byte || byte = 95 || (!first && isDigit byte)

/-- The rest behind a word, from its first byte on; the case of its letters does not matter. -/
def takeWord (word here : Text) : Option Text :=
  if here.head?.any (certifiedIdentifierChar · true) ∧
      (here.takeWhile (certifiedIdentifierChar · false)).map toLower = word then
    some (here.dropWhile (certifiedIdentifierChar · false))
  else none

/-- `sqlparser_patch_certified_word` -/
def certifiedWord (word : Option Text) (rest : Text) : Option Text :=
  match word, certifiedGap rest with
  | some word, some here => takeWord word here
  | _, _ => none

/-- `sqlparser_patch_certified_punctuation` -/
def certifiedPunctuation (punctuation : UInt8) (rest : Text) : Option Text :=
  match certifiedGap rest with
  | some (byte :: behind) => if byte = punctuation then some behind else none
  | _ => none

/-! ## Names and cells -/

/-- `(int32_t)pos` for the place of a rest in the source. -/
def int32Position (sql rest : Text) : Int32 :=
  Int32.ofNat (sql.length - rest.length)

/-- A name that stands where its node says. -/
def certifiedName (sql : Text) (name : Option Text) (location : Int32) (rest : Text) : Option Text :=
  match certifiedGap rest with
  | none => none
  | some here => if location ≠ int32Position sql here then none else certifiedWord name here

def isLiteralByte (byte : UInt8) : Bool :=
  0x20 ≤ byte && byte ≤ 0x7e && byte ≠ 92

/-- The rest behind the literal of a text, whose opening quote was read. -/
def certifiedLiteral (text rest : Text) : Option Text :=
  let content := rest.takeWhile (· ≠ 39)
  if content.all isLiteralByte then
    match rest.dropWhile (· ≠ 39) with
    | [] => none
    | _ :: behind => if content = text then some behind else none
  else none

/-- The value of digits, unless it leaves `int32_t`. -/
def certifiedValue (value : Nat) : Text → Option Nat
  | [] => some value
  | digit :: digits =>
    let value := value * 10 + (digit.toNat - 48)
    if value > int32Max then none else certifiedValue value digits

/-- The value of a cell from its first byte on: the rest behind it and whether it is a string. -/
def certifiedCellValue (val : InsertAst.ConstValue) (here : Text) : Option (Text × Nat) :=
  match val with
  | .sval (some ⟨some text, location, _⟩) =>
    if location ≠ 0 ∨ here.head? ≠ some 39 then none
    else (certifiedLiteral text here.tail).map fun rest => (rest, 1)
  | .ival (some integer) =>
    if here.head?.any isDigit = false then none
    else
      match certifiedValue 0 (here.takeWhile isDigit) with
      | none => none
      | some value => if (value : Int) ≠ integer.ival.toInt then none else some (here.dropWhile isDigit, 0)
  | _ => none

def certifiedCell (sql : Text) (node : Option InsertAst.CellNode) (rest : Text) : Option (Text × Nat) :=
  match certifiedGap rest, node with
  | some here, some ⟨.aConst (some cell), _⟩ =>
    if here = [] ∨ cell.isnull ∨ cell.location ≠ int32Position sql here then none
    else certifiedCellValue cell.val here
  | _, _ => none

/-! ## The statement -/

def certifiedColumns (sql : Text) : List (Option InsertAst.ColumnNode) → Text → Option Text
  | [], rest => some rest
  | some ⟨.resTarget (some target), _⟩ :: columns, rest =>
    if target.indirection.isSome ∨ target.val.isSome then none
    else do
      let rest ← certifiedName sql target.name target.location rest
      let rest ← certifiedPunctuation (if columns = [] then 41 else 44) rest
      certifiedColumns sql columns rest
  | _ :: _, _ => none

/-- The cells of a row with the number of strings before and behind. -/
def certifiedCells (sql : Text) : List (Option InsertAst.CellNode) → Text × Nat → Option (Text × Nat)
  | [], state => some state
  | cell :: cells, (rest, strings) => do
    let (rest, string) ← certifiedCell sql cell rest
    let rest ← certifiedPunctuation (if cells = [] then 41 else 44) rest
    certifiedCells sql cells (rest, strings + string)

def certifiedRowItems : Option InsertAst.RowNode → List (Option InsertAst.CellNode)
  | some ⟨.list (some ⟨some items, _⟩), _⟩ => items
  | _ => []

/-- A comma stands behind every row but the last one. -/
def certifiedSeparator (rows : List (Option InsertAst.RowNode)) (rest : Text) : Option Text :=
  if rows = [] then some rest else certifiedPunctuation 44 rest

def certifiedRowsOf (sql : Text) : List (Option InsertAst.RowNode) → Text × Nat → Option (Text × Nat)
  | [], state => some state
  | row :: rows, (rest, strings) => do
    let rest ← certifiedPunctuation 40 rest
    let (rest, strings) ← certifiedCells sql (certifiedRowItems row) (rest, strings)
    let rest ← certifiedSeparator rows rest
    certifiedRowsOf sql rows (rest, strings)

/-- What may stand behind the rows. -/
def certifiedTail (sql : Text) (stmtLen : Int32) (rest : Text) : Bool :=
  match certifiedGap rest with
  | none => false
  | some here =>
    if here.head? = some 59 then stmtLen = int32Position sql here && certifiedGap here.tail = some []
    else stmtLen = 0 && here = []

/-! ## The shape of the tree -/

def isNamedColumn : Option InsertAst.ColumnNode → Bool
  | some ⟨.resTarget (some target), _⟩ => target.name.any (· ≠ [])
  | _ => false

def hasCells (count : Nat) : Option InsertAst.RowNode → Bool
  | some ⟨.list (some ⟨some items, _⟩), _⟩ => items.length = count
  | _ => false

/-- `sqlparser_patch_insert_values_shape` for an INSERT with a SELECT that lists rows -/
def insertValuesShape (columns : List (Option InsertAst.ColumnNode)) (rows : List (Option InsertAst.RowNode)) : Bool :=
  columns ≠ [] && rows ≠ [] && columns.all isNamedColumn && rows.all (hasCells columns.length)

/-- What `sqlparser_patch_simple_insert_values_shape` asks beside the rows. -/
def simpleValuesShape (insert : InsertAst.InsertStmt) (values : InsertAst.SelectStmt) : Bool :=
  insert.withClause.isNone && insert.onConflictClause.isNone && insert.override = .notSet &&
  values.distinctClause.all (· = []) && values.intoClause.isNone && values.targetList.all (· = []) &&
  values.fromClause.all (· = []) && values.whereClause.isNone && values.groupClause.all (· = []) &&
  !values.groupDistinct && values.havingClause.isNone && values.windowClause.all (· = []) &&
  values.sortClause.all (· = []) && values.limitOffset.isNone && values.limitCount.isNone &&
  values.lockingClause.all (· = []) && values.withClause.isNone &&
  (values.op = .undefined || values.op = .none) && values.larg.isNone && values.rarg.isNone

/-- What the certificate reads of the relation beside its name and its place. -/
def certifiedRelation (relation : InsertAst.RangeVar) : Bool :=
  relation.«alias».isNone && relation.inh && relation.relpersistence = some (ascii "p") &&
  relation.catalogname = some [] && relation.schemaname = some []

/-- The parts of a statement that are read along with the source. -/
structure SourceParts where
  relation : InsertAst.RangeVar
  columns : List (Option InsertAst.ColumnNode)
  rows : List (Option InsertAst.RowNode)
  stmtLen : Int32

def sourceParts (raw : InsertAst.RawStmt) : Option SourceParts :=
  match raw.stmt with
  | some ⟨.insertStmt (some ⟨some relation, some columns, some ⟨.selectStmt (some values), sourceUnknown⟩, onConflict,
      returning, withClause, override, unknown⟩), _⟩ =>
    match values.valuesLists with
    | none => none
    | some rows =>
      if raw.stmtLocation ≠ 0 ∨ raw.stmtLen.toInt < 0 ∨ insertValuesShape columns rows = false ∨
          simpleValuesShape ⟨some relation, some columns, some ⟨.selectStmt (some values), sourceUnknown⟩, onConflict,
            returning, withClause, override, unknown⟩ values = false ∨
          returning.isSome ∨ certifiedRelation relation = false ∨ values.valuesDefaults = false then none
      else some ⟨relation, columns, rows, raw.stmtLen⟩
  | _ => none

/-- What the certificate reads of the handle. -/
structure InsertSource where
  /-- `sqlparser_dialect_supports_plain_scalar_insert` -/
  supported : Bool
  sql : Option Text
  parserSql : Option Text
  statementCount : Nat
  ast : Option InsertAst.ParseResult

/-- The walk over the source: the number of strings. -/
def certifiedWalk (sql : Text) (parts : SourceParts) : Option Nat := do
  let rest ← certifiedWord (some (ascii "insert")) sql
  let rest ← certifiedWord (some (ascii "into")) rest
  let rest ← certifiedName sql parts.relation.relname parts.relation.location rest
  let rest ← certifiedPunctuation 40 rest
  let rest ← certifiedColumns sql parts.columns rest
  let rest ← certifiedWord (some (ascii "values")) rest
  let (rest, strings) ← certifiedRowsOf sql parts.rows (rest, 0)
  if certifiedTail sql parts.stmtLen rest then some strings else none

/-- `sqlparser_patch_certify_insert_source` -/
def certifyInsertSource (handle : InsertSource) : Option Nat :=
  match handle.sql, handle.parserSql, handle.ast with
  | some sql, some parserSql, some ast =>
    if handle.supported = false ∨ sql.length ≠ parserSql.length ∨ sql.length > int32Max ∨ handle.statementCount ≠ 1 ∨
        sql ≠ parserSql then none
    else
      match ast.stmts with
      | some [some raw] => (sourceParts raw).bind (certifiedWalk sql)
      | _ => none
  | _, _, _ => none

/-! ## The update -/

/-- The edits, the next one of them and the sum of the deltas so far. -/
structure ConsumeState where
  edits : List SourceEdit
  editIndex : Nat
  delta : Int

/-- The value of a string cell is replaced. -/
def replaceValue (val : InsertAst.ConstValue) (content : Text) : InsertAst.ConstValue :=
  match val with
  | .sval (some constant) => .sval (some { constant with sval := some content })
  | val => val

def consumeCell (state : ConsumeState) (cell : InsertAst.AConst) : InsertAst.AConst × ConsumeState :=
  let oldLocation := (cell.location.toInt % 2 ^ 64).toNat
  let cell := { cell with location := Int32.ofInt (oldLocation + state.delta) }
  match state.edits[state.editIndex]? with
  | some edit =>
    if edit.sourceStart = oldLocation then
      ({ cell with val := replaceValue cell.val (cString (replacementContent (edit.replacement.getD []))) },
        { edits := state.edits.set state.editIndex { edit with replacement := none }
          editIndex := state.editIndex + 1
          delta := state.delta + rebaseEditDelta edit })
    else (cell, state)
  | none => (cell, state)

def consumeNode (state : ConsumeState) : Option InsertAst.CellNode → Option InsertAst.CellNode × ConsumeState
  | some ⟨.aConst (some cell), unknownFields⟩ =>
    let (cell, state) := consumeCell state cell
    (some ⟨.aConst (some cell), unknownFields⟩, state)
  | node => (node, state)

def consumeCells (state : ConsumeState) : List (Option InsertAst.CellNode) → List (Option InsertAst.CellNode) × ConsumeState
  | [] => ([], state)
  | cell :: cells =>
    let (cell, state) := consumeNode state cell
    let (cells, state) := consumeCells state cells
    (cell :: cells, state)

def consumeRow (state : ConsumeState) : Option InsertAst.RowNode → Option InsertAst.RowNode × ConsumeState
  | some ⟨.list (some ⟨some items, listUnknown⟩), unknownFields⟩ =>
    let (items, state) := consumeCells state items
    (some ⟨.list (some ⟨some items, listUnknown⟩), unknownFields⟩, state)
  | row => (row, state)

def consumeRows (state : ConsumeState) : List (Option InsertAst.RowNode) → List (Option InsertAst.RowNode) × ConsumeState
  | [] => ([], state)
  | row :: rows =>
    let (row, state) := consumeRow state row
    let (rows, state) := consumeRows state rows
    (row :: rows, state)

/-- The statement with other rows. -/
def withRows (raw : InsertAst.RawStmt) (rows : List (Option InsertAst.RowNode)) (stmtLen : Int32) : InsertAst.RawStmt :=
  { raw with
    stmtLen := stmtLen
    stmt := raw.stmt.map fun node =>
      match node.arm with
      | .insertStmt (some insert) =>
        { node with arm := .insertStmt (some { insert with
            selectStmt := insert.selectStmt.map fun source =>
              match source.arm with
              | .selectStmt (some select) =>
                { source with arm := .selectStmt (some { select with valuesLists := some rows }) }
              | _ => source }) }
      | _ => node }

def rowsOf (raw : InsertAst.RawStmt) : List (Option InsertAst.RowNode) :=
  match raw.stmt with
  | some ⟨.insertStmt (some ⟨_, _, some ⟨.selectStmt (some values), _⟩, _, _, _, _, _⟩), _⟩ => values.valuesLists.getD []
  | _ => []

/-- `sqlparser_patch_consume_certified_insert_strings` on the first statement of the tree -/
def consumeInsertStrings (raw : InsertAst.RawStmt) (edits : List SourceEdit) : InsertAst.RawStmt × ConsumeState :=
  let (rows, state) := consumeRows ⟨edits, 0, 0⟩ (rowsOf raw)
  let stmtLen := if raw.stmtLen.toInt > 0 then Int32.ofInt (raw.stmtLen.toInt + state.delta) else raw.stmtLen
  (withRows raw rows stmtLen, state)

end SqlParser.Core
