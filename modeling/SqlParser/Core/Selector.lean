import SqlParser.Core.Basic
import SqlParser.Library.Decimal

/-! # Selector texts

`sqlparser_selector.c` names an AST node by a text such as
`stmt[0].insert_cell[2][1]`.  The module embeds the parser, the formatter with
its decimal fast path, and the recogniser of `sqlparser_patch.c` for the most
frequent kind.
-/

namespace SqlParser.Core

open SqlParser.Library.Decimal

/-- `sqlparser_selector_kind_t` -/
inductive SelectorKind where
  | unknown
  | relation
  | name
  | literal
  | whereLiteral
  | assignment
  | insertCell
  | insertColumns
  | insertRow
  | value
  | selectTargets
  | selectTarget
  | whereClause
  | clause
  | insertBranchColumns
  | insertBranchCondition
  | dmlResultTargets
  | dmlResultTarget
  | dmlResultSink
  | dmlResultSinkColumns
  | dmlResultSinkColumn
  | mergeAssignment
  | mergeBranchCondition
  | mergeInsertColumn
  | mergeInsertCell
  | mergeDeleteCondition
  | expression
  | expressionArg
  | expressionArgs
  deriving DecidableEq, Repr

/-- `sqlparser_selector_t`; the four indexes are `size_t`. -/
structure Selector where
  kind : SelectorKind
  statementIndex : Nat
  itemIndex : Nat
  rowIndex : Nat
  columnIndex : Nat
  deriving DecidableEq, Repr

/-- `sqlparser_selector_clear` -/
def Selector.cleared : Selector := ⟨.unknown, 0, 0, 0, 0⟩

def invalidSelector (message : String) : Error := ⟨.invalidArgument, message⟩

/-! ## Parsing

The parser's offset into the text is the rest of the text behind it. -/

def openBracket : UInt8 := 91

def closeBracket : UInt8 := 93

def dot : UInt8 := 46

/-- `sqlparser_selector_parse_index` -/
def parseIndex (text : Text) : Except Error (Nat × Text) :=
  match text with
  | [] => .error (invalidSelector "selector is missing '['")
  | bracket :: rest =>
    if bracket ≠ openBracket then .error (invalidSelector "selector is missing '['")
    else if (rest.head?.all fun byte => !isDigit byte) then
      .error (invalidSelector "selector index must be numeric")
    else
      match readDigits sizeMax 0 rest with
      | none => .error (invalidSelector "selector index is out of range")
      | some (value, rest) =>
        match rest with
        | [] => .error (invalidSelector "selector is missing ']'")
        | bracket :: rest =>
          if bracket ≠ closeBracket then .error (invalidSelector "selector is missing ']'")
          else .ok (value, rest)

def parseItemIndex (selector : Selector) (text : Text) : Except Error (Selector × Text) := do
  let (value, rest) ← parseIndex text
  return ({ selector with itemIndex := value }, rest)

def parseRowIndex (selector : Selector) (text : Text) : Except Error (Selector × Text) := do
  let (value, rest) ← parseIndex text
  return ({ selector with rowIndex := value }, rest)

def parseColumnIndex (selector : Selector) (text : Text) : Except Error (Selector × Text) := do
  let (value, rest) ← parseIndex text
  return ({ selector with columnIndex := value }, rest)

/-- The indexes that the branches of the parser read behind a keyword. -/
inductive SelectorIndexes where
  | none
  | item
  | itemColumn
  | assignment
  | mergeAction
  | branch
  | row
  | rowColumn
  | itemRow
  | itemRowColumn
  deriving DecidableEq

def parseIndexes (indexes : SelectorIndexes) (selector : Selector) (text : Text) :
    Except Error (Selector × Text) :=
  match indexes with
  | .none => .ok (selector, text)
  | .item => parseItemIndex selector text
  | .row => parseRowIndex selector text
  | .itemColumn => do
    let (selector, rest) ← parseItemIndex selector text
    parseColumnIndex selector rest
  | .rowColumn => do
    let (selector, rest) ← parseRowIndex selector text
    parseColumnIndex selector rest
  | .itemRow => do
    let (selector, rest) ← parseItemIndex selector text
    parseRowIndex selector rest
  | .itemRowColumn => do
    let (selector, rest) ← parseItemIndex selector text
    let (selector, rest) ← parseRowIndex selector rest
    parseColumnIndex selector rest
  | .assignment => do
    let (selector, rest) ← parseItemIndex selector text
    if rest.head? = some openBracket then
      -- The first of two indexes counts the DML statements from one.
      if selector.itemIndex = sizeMax then
        .error (invalidSelector "assignment DML index is out of range")
      else parseItemIndex { selector with rowIndex := selector.itemIndex + 1 } rest
    else .ok (selector, rest)
  | .mergeAction => do
    let (selector, rest) ← parseItemIndex selector text
    let (selector, rest) ← parseColumnIndex selector rest
    if rest.head? = some openBracket then
      parseColumnIndex
        { selector with rowIndex := selector.itemIndex, itemIndex := selector.columnIndex } rest
    else .ok (selector, rest)
  | .branch => do
    let (selector, rest) ← parseItemIndex selector text
    if rest.head? = some openBracket then
      parseItemIndex { selector with rowIndex := selector.itemIndex } rest
    else .ok (selector, rest)

/-- The keyword tests of `sqlparser_selector_parse` in their order: a longer keyword stands before
its own prefixes. -/
def selectorKeywords : List (String × SelectorKind × SelectorIndexes) :=
  [ ("relation", .relation, .item),
    ("name", .name, .item),
    ("literal", .literal, .item),
    ("value", .value, .item),
    ("expression_args", .expressionArgs, .item),
    ("expression_arg", .expressionArg, .itemColumn),
    ("expression", .expression, .item),
    ("where_literal", .whereLiteral, .item),
    ("where", .whereClause, .item),
    ("clause", .clause, .item),
    ("assignment", .assignment, .assignment),
    ("merge_assignment", .mergeAssignment, .mergeAction),
    ("merge_insert_column", .mergeInsertColumn, .mergeAction),
    ("merge_insert_cell", .mergeInsertCell, .mergeAction),
    ("merge_branch_condition", .mergeBranchCondition, .branch),
    ("merge_delete_condition", .mergeDeleteCondition, .branch),
    ("insert_cell", .insertCell, .rowColumn),
    ("insert_columns", .insertColumns, .none),
    ("insert_branch_columns", .insertBranchColumns, .branch),
    ("insert_branch_condition", .insertBranchCondition, .item),
    ("insert_row", .insertRow, .row),
    ("select_targets", .selectTargets, .item),
    ("select_target", .selectTarget, .itemColumn),
    ("dml_result_targets", .dmlResultTargets, .itemRow),
    ("dml_result_target", .dmlResultTarget, .itemRowColumn),
    ("dml_result_sink_columns", .dmlResultSinkColumns, .itemRow),
    ("dml_result_sink_column", .dmlResultSinkColumn, .itemRowColumn),
    ("dml_result_sink", .dmlResultSink, .itemRow) ]

/-- `strncmp` with the length of the prefix. -/
def stripKeyword (keyword : String) (text : Text) : Option Text :=
  if (ascii keyword).isPrefixOf text then some (text.drop (ascii keyword).length) else none

def parseItemKind (selector : Selector) (text : Text) : Except Error (Selector × Text) :=
  match selectorKeywords.find? fun row => (ascii row.1).isPrefixOf text with
  | none => .error (invalidSelector "selector kind is not supported")
  | some (keyword, kind, indexes) =>
    parseIndexes indexes { selector with kind := kind } (text.drop (ascii keyword).length)

/-- `sqlparser_selector_parse`; `none` stands for `NULL`. -/
def selectorParse (text : Option Text) : Except Error Selector :=
  match text with
  | none | some [] => .error (invalidSelector "selector text must not be NULL or empty")
  | some text =>
    match stripKeyword "stmt" text with
    | none => .error (invalidSelector "selector must start with 'stmt'")
    | some rest => do
      let (statementIndex, rest) ← parseIndex rest
      match rest with
      | point :: byte :: rest =>
        if point ≠ dot then .error (invalidSelector "selector is missing item kind")
        else
          let (selector, rest) ←
            parseItemKind { Selector.cleared with statementIndex := statementIndex } (byte :: rest)
          if rest ≠ [] then .error (invalidSelector "selector has trailing characters")
          else return selector
      | _ => .error (invalidSelector "selector is missing item kind")

/-! ## Formatting -/

/-- `snprintf` for the conversion `%zu`, without its buffer limit. -/
def formatText : Text → List Nat → Text
  | 37 :: 122 :: 117 :: format, value :: values => decimal value ++ formatText format values
  | byte :: format, values => byte :: formatText format values
  | [], _ => []

/-- The format and the arguments that `sqlparser_selector_format` chooses for a selector. -/
def selectorFormat (selector : Selector) : Option (String × List Nat) :=
  let statement := selector.statementIndex
  let item := selector.itemIndex
  let row := selector.rowIndex
  let column := selector.columnIndex
  match selector.kind with
  | .relation => some ("stmt[%zu].relation[%zu]", [statement, item])
  | .name => some ("stmt[%zu].name[%zu]", [statement, item])
  | .literal => some ("stmt[%zu].literal[%zu]", [statement, item])
  | .value => some ("stmt[%zu].value[%zu]", [statement, item])
  | .expression => some ("stmt[%zu].expression[%zu]", [statement, item])
  | .expressionArg => some ("stmt[%zu].expression_arg[%zu][%zu]", [statement, item, column])
  | .expressionArgs => some ("stmt[%zu].expression_args[%zu]", [statement, item])
  | .whereLiteral => some ("stmt[%zu].where_literal[%zu]", [statement, item])
  | .whereClause => some ("stmt[%zu].where[%zu]", [statement, item])
  | .clause => some ("stmt[%zu].clause[%zu]", [statement, item])
  | .assignment =>
    if row = 0 then some ("stmt[%zu].assignment[%zu]", [statement, item])
    else some ("stmt[%zu].assignment[%zu][%zu]", [statement, row - 1, item])
  | .mergeAssignment =>
    if row = 0 then some ("stmt[%zu].merge_assignment[%zu][%zu]", [statement, item, column])
    else some ("stmt[%zu].merge_assignment[%zu][%zu][%zu]", [statement, row, item, column])
  | .mergeInsertColumn =>
    if row = 0 then some ("stmt[%zu].merge_insert_column[%zu][%zu]", [statement, item, column])
    else some ("stmt[%zu].merge_insert_column[%zu][%zu][%zu]", [statement, row, item, column])
  | .mergeInsertCell =>
    if row = 0 then some ("stmt[%zu].merge_insert_cell[%zu][%zu]", [statement, item, column])
    else some ("stmt[%zu].merge_insert_cell[%zu][%zu][%zu]", [statement, row, item, column])
  | .mergeBranchCondition =>
    if row = 0 then some ("stmt[%zu].merge_branch_condition[%zu]", [statement, item])
    else some ("stmt[%zu].merge_branch_condition[%zu][%zu]", [statement, row, item])
  | .mergeDeleteCondition =>
    if row = 0 then some ("stmt[%zu].merge_delete_condition[%zu]", [statement, item])
    else some ("stmt[%zu].merge_delete_condition[%zu][%zu]", [statement, row, item])
  | .insertCell => some ("stmt[%zu].insert_cell[%zu][%zu]", [statement, row, column])
  | .insertColumns => some ("stmt[%zu].insert_columns", [statement])
  | .insertBranchColumns =>
    if row = 0 then some ("stmt[%zu].insert_branch_columns[%zu]", [statement, item])
    else some ("stmt[%zu].insert_branch_columns[%zu][%zu]", [statement, row, item])
  | .insertBranchCondition => some ("stmt[%zu].insert_branch_condition[%zu]", [statement, item])
  | .insertRow => some ("stmt[%zu].insert_row[%zu]", [statement, row])
  | .selectTargets => some ("stmt[%zu].select_targets[%zu]", [statement, item])
  | .selectTarget => some ("stmt[%zu].select_target[%zu][%zu]", [statement, item, column])
  | .dmlResultTargets => some ("stmt[%zu].dml_result_targets[%zu][%zu]", [statement, item, row])
  | .dmlResultTarget =>
    some ("stmt[%zu].dml_result_target[%zu][%zu][%zu]", [statement, item, row, column])
  | .dmlResultSink => some ("stmt[%zu].dml_result_sink[%zu][%zu]", [statement, item, row])
  | .dmlResultSinkColumns =>
    some ("stmt[%zu].dml_result_sink_columns[%zu][%zu]", [statement, item, row])
  | .dmlResultSinkColumn =>
    some ("stmt[%zu].dml_result_sink_column[%zu][%zu][%zu]", [statement, item, row, column])
  | .unknown => none

/-- The digit loop of `sqlparser_selector_append_index`, least significant digit first. -/
def indexDigits (value : Nat) : Text :=
  digitByte (value % 10) :: (if value / 10 = 0 then [] else indexDigits (value / 10))
termination_by value
decreasing_by omega

/-- `sqlparser_selector_append_index` on the bytes written so far. -/
def appendIndex (capacity : Nat) (buffer : Text) (value : Nat) : Option Text :=
  let digits := indexDigits value
  if buffer.length ≥ capacity ∨ capacity - buffer.length ≤ 2 ∨
      digits.length ≥ capacity - buffer.length - 2 then none
  else some (buffer ++ [openBracket] ++ digits.reverse ++ [closeBracket])

/-- `sqlparser_selector_format_insert_cell` -/
def formatInsertCell (selector : Selector) (capacity : Nat) : Option Text :=
  if capacity ≤ (ascii "stmt").length then none
  else
    match appendIndex capacity (ascii "stmt") selector.statementIndex with
    | none => none
    | some buffer =>
      if (ascii ".insert_cell").length + 1 > capacity - buffer.length then none
      else
        match appendIndex capacity (buffer ++ ascii ".insert_cell") selector.rowIndex with
        | none => none
        | some buffer =>
          match appendIndex capacity buffer selector.columnIndex with
          | none => none
          | some buffer => if buffer.length > int32Max then none else some buffer

/-- The size of the text buffer of `sqlparser_selector_format`. -/
def selectorBufferSize : Nat := 128

/-- What the formatter leaves in its buffer: `none` for a negative or too large length. -/
def selectorBuffer (fastPath : Bool) (selector : Selector) (format : String) (arguments : List Nat) :
    Option Text :=
  if selector.kind = .insertCell ∧ fastPath then formatInsertCell selector selectorBufferSize
  else
    let text := formatText (ascii format) arguments
    if text.length ≥ selectorBufferSize then none else some text

/-- `sqlparser_selector_format`.  The flags are `SQLPARSER_INSERT_SELECTOR_FAST_PATH_ENABLED` and
the answer of `malloc`; `none` stands for `NULL`. -/
def selectorFormatText (fastPath malloc : Bool) (selector : Option Selector) : Except Error Text :=
  match selector with
  | none => .error (invalidSelector "selector must not be NULL")
  | some selector =>
    match selectorFormat selector with
    | none => .error (invalidSelector "selector kind is invalid")
    | some (format, arguments) =>
      match selectorBuffer fastPath selector format arguments with
      | none => .error ⟨.internalError, "failed to format selector"⟩
      | some text => if malloc then .ok text else .error outOfMemory

/-! ## The recogniser of the patch module -/

/-- The digit loop of `sqlparser_patch_parse_insert_cell_selector`, behind the first digit test. -/
def patchDigits (value : Nat) : Text → Option (Nat × Text)
  | [] => none
  | byte :: rest =>
    let digit := digitValue byte
    if value > (sizeMax - digit) / 10 then none
    else
      match rest with
      | next :: _ =>
        if 48 ≤ next ∧ next ≤ 57 then patchDigits (value * 10 + digit) rest
        else some (value * 10 + digit, rest)
      | [] => some (value * 10 + digit, rest)

/-- One bracketed value of the recogniser. -/
def patchValue (text : Text) : Option (Nat × Text) :=
  match text with
  | bracket :: byte :: rest =>
    if bracket ≠ openBracket then none
    else if byte < 48 ∨ byte > 57 then none
    else
      match patchDigits 0 (byte :: rest) with
      | some (value, bracket :: rest) => if bracket ≠ closeBracket then none else some (value, rest)
      | _ => none
  | _ => none

/-- `sqlparser_patch_parse_insert_cell_selector` with its result and the selector it leaves. -/
def patchParseInsertCellSelector (text : Option Text) (selector : Selector) : Bool × Selector :=
  match text.bind (stripKeyword "stmt") with
  | none => (false, selector)
  | some rest =>
    match patchValue rest with
    | none => (false, selector)
    | some (statement, rest) =>
      match stripKeyword ".insert_cell" rest with
      | none => (false, selector)
      | some rest =>
        match patchValue rest with
        | none => (false, selector)
        | some (row, rest) =>
          match patchValue rest with
          | none => (false, selector)
          | some (column, rest) =>
            if rest ≠ [] then (false, selector)
            else (true, ⟨.insertCell, statement, 0, row, column⟩)

end SqlParser.Core
