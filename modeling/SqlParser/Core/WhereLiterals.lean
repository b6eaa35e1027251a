import SqlParser.Core.Basic

/-! # The literals of a WHERE clause

The walk of `sqlparser_ast_literal.c` over the expression of a WHERE clause counts the
literals, reads the one with an ordinal, and finds the node that a setter replaces.  A
node is known by its path in the expression.
-/

namespace SqlParser.Core.WhereLiteral

open SqlParser.Core

/-! ## Expressions -/

/-- The oneof of an `A_Const`; the pointers of its messages may be missing. -/
inductive ConstValue where
  | notSet
  | string (sval : Option Text)
  | integer (ival : Option Int)
  | float (fval : Option Text)
  | boolean (boolval : Option Bool)
  | bitString
  deriving DecidableEq, Repr

structure AConst where
  isnull : Bool
  value : ConstValue
  location : Int
  deriving DecidableEq, Repr

inductive AExprKind where
  | undefined
  | op
  | opAny
  | opAll
  | distinct
  | notDistinct
  | nullif
  | inList
  | like
  | ilike
  | similar
  | between
  | notBetween
  | betweenSym
  | notBetweenSym
  deriving DecidableEq, Repr

/-- The nodes that the walk enters at their single argument. -/
inductive ArgKind where
  | typeCast
  | collateClause
  | relabelType
  | coerceViaIo
  | nullTest
  | booleanTest
  deriving DecidableEq, Repr

/-- The nodes that the walk enters at a list of arguments, elements or items. -/
inductive ArgsKind where
  | boolExpr
  | aArrayExpr
  | rowExpr
  | list
  | funcCall
  | coalesceExpr
  | minMaxExpr
  deriving DecidableEq, Repr

mutual

/-- `PgQuery__Node`.  A missing node or payload is `other`, like the cases that the walk does not enter. -/
inductive Node where
  | aConst (literal : AConst)
  | columnRef (fields : Nodes)
  | string (sval : Text)
  | aExpr (kind : AExprKind) (name : Nodes) (lexpr rexpr : Node)
  | arg (kind : ArgKind) (arg : Node)
  | args (kind : ArgsKind) (args : Nodes)
  | aIndirection (arg : Node) (indirection : Nodes)
  | subLink (testexpr subselect : Node)
  | selectStmt (stmt : SelectStmt)
  | other

inductive Nodes where
  | nil
  | cons (node : Node) (later : Nodes)

/-- `PgQuery__SelectStmt`, which may be missing. -/
inductive SelectStmt where
  | missing
  | stmt (whereClause : Node) (larg rarg : SelectStmt)

end

def Nodes.toList : Nodes → List Node
  | .nil => []
  | .cons node later => node :: later.toList

/-! ## The context of a literal -/

/-- `sqlparser_node_string_value` -/
def nodeStringValue : Node → Option Text
  | .string sval => if sval = [] then none else some sval
  | _ => none

/-- `sqlparser_extract_column_ref_parts`: the table and the column, of at most four parts. -/
def extractColumnRefParts (fields : Nodes) : Option (Option Text × Text) :=
  let parts := (fields.toList.filterMap nodeStringValue).take 4
  match parts.reverse with
  | [] => none
  | [column] => some (none, column)
  | column :: table :: _ => some (some table, column)

/-- `sqlparser_try_extract_column_ref` -/
def tryExtractColumnRef : Node → Option (Option Text × Text)
  | .columnRef fields => extractColumnRefParts fields
  | .arg .typeCast arg => tryExtractColumnRef arg
  | .arg .collateClause arg => tryExtractColumnRef arg
  | .aIndirection arg _ => tryExtractColumnRef arg
  | _ => none

/-- `sqlparser_a_expr_name_is` -/
def aExprNameIs (name : Nodes) (expected : String) : Bool :=
  name.toList.any fun node => nodeStringValue node = some (ascii expected)

/-- `sqlparser_a_expr_operator_name` -/
def aExprOperatorName (kind : AExprKind) (name : Nodes) : Option Text :=
  let constant := fun (text : String) => some (ascii text)
  match kind with
  | .inList => constant (if aExprNameIs name "<>" || aExprNameIs name "!=" then "NOT IN" else "IN")
  | .like => constant (if aExprNameIs name "!~~" then "NOT LIKE" else "LIKE")
  | .ilike => constant (if aExprNameIs name "!~~*" then "NOT ILIKE" else "ILIKE")
  | .similar => constant (if aExprNameIs name "!~" then "NOT SIMILAR TO" else "SIMILAR TO")
  | .between => constant "BETWEEN"
  | .notBetween => constant "NOT BETWEEN"
  | .betweenSym => constant "BETWEEN SYMMETRIC"
  | .notBetweenSym => constant "NOT BETWEEN SYMMETRIC"
  | .opAny => constant "ANY"
  | .opAll => constant "ALL"
  | .distinct => constant "IS DISTINCT FROM"
  | .notDistinct => constant "IS NOT DISTINCT FROM"
  | .nullif => constant "NULLIF"
  | .op | .undefined => (name.toList.filterMap nodeStringValue).getLast?

/-- `sqlparser_predicate_context_t` -/
structure Context where
  tableName : Option Text := none
  columnName : Option Text := none
  operatorName : Option Text := none
  deriving DecidableEq, Repr

/-- The context of one operand of an `A_Expr`: its operator, and the column that the other operand names. -/
def operandContext (context : Context) (kind : AExprKind) (name : Nodes) (other : Node) : Context :=
  match tryExtractColumnRef other with
  | some (table, column) =>
    { tableName := table, columnName := some column, operatorName := aExprOperatorName kind name }
  | none => { context with operatorName := aExprOperatorName kind name }

/-! ## Literals -/

/-- `sqlparser_a_const_is_supported` -/
def aConstIsSupported (literal : AConst) : Bool :=
  literal.isnull ||
    match literal.value with
    | .string _ | .integer _ | .float _ | .boolean _ => true
    | .notSet | .bitString => false

/-- The loop of `sqlparser_quoted_identifier_token_matches`, behind the opening quote. -/
def quotedTokenMatches : Text → Text → Bool
  | [], _ => false
  | [byte], value => byte = 34 && value = []
  | byte :: next :: rest, value =>
    if byte = 34 then
      if next = 34 then
        match value with
        | [] => false
        | first :: behind => if first ≠ 34 then false else quotedTokenMatches rest behind
      else value = []
    else
      match value with
      | [] => false
      | first :: behind => if byte ≠ first then false else quotedTokenMatches (next :: rest) behind

/-- `sqlparser_quoted_identifier_token_matches` -/
def quotedIdentifierTokenMatches (parserSql : Option Text) (location : Int) (value : Option Text) : Bool :=
  match parserSql, value with
  | some sql, some value =>
    if location < 0 then false
    else
      match sql.drop location.toNat with
      | [] => false
      | byte :: rest => if byte ≠ 34 then false else quotedTokenMatches rest value
  | _, _ => false

/-- `sqlparser_literal_view_t`, with the kind that a cleared view has. -/
inductive LiteralView where
  | unknown
  | null
  | string (value : Option Text) (quotedIdentifier : Bool)
  | integer (value : Int)
  | float (value : Option Text)
  | boolean (value : Bool)
  deriving DecidableEq, Repr

/-- `sqlparser_fill_literal_view_from_a_const_with_sql` -/
def fillLiteralView (literal : AConst) (parserSql : Option Text) : Except Error LiteralView :=
  if literal.isnull then .ok .null
  else
    match literal.value with
    | .string sval => .ok (.string sval (quotedIdentifierTokenMatches parserSql literal.location sval))
    | .integer ival => .ok (.integer (ival.getD 0))
    | .float fval => .ok (.float fval)
    | .boolean boolval => .ok (.boolean (boolval.getD false))
    | .notSet | .bitString => .error ⟨.unsupported, "literal kind is not supported"⟩

/-- `sqlparser_where_literal_view_t` -/
structure WhereLiteralView where
  context : Context := {}
  literal : LiteralView := .unknown
  deriving DecidableEq, Repr

/-! ## The walk -/

/-- A node, by the indices of the children on the way to it. -/
abbrev Path := List Nat

/-- `sqlparser_where_literal_search_t`; a pointer to a node is its path. -/
structure LiteralSearch where
  seen : Nat := 0
  targetIndex : Nat := 0
  wantTarget : Bool := false
  literalNode : Option Path := none
  expressionNode : Option Path := none
  literalParent : Option Path := none
  parserSql : Option Text := none
  wantView : Bool := false
  literalView : WhereLiteralView := {}
  deriving DecidableEq, Repr

def LiteralSearch.found (search : LiteralSearch) : Bool :=
  search.wantTarget && search.literalNode.isSome

/-- `sqlparser_record_where_literal` -/
def recordWhereLiteral (literal : AConst) (path : Path) (context : Context) (search : LiteralSearch) :
    Except Error LiteralSearch :=
  if !aConstIsSupported literal then .ok search
  else if !search.wantTarget || search.seen ≠ search.targetIndex then .ok { search with seen := search.seen + 1 }
  else if search.wantView then
    match fillLiteralView literal search.parserSql with
    | .error failure => .error failure
    | .ok view =>
      .ok { search with literalNode := some path, seen := search.seen + 1, literalView := ⟨context, view⟩ }
  else .ok { search with literalNode := some path, seen := search.seen + 1 }

mutual

/-- `sqlparser_walk_expression_literals` -/
def walkExpressionLiterals (node : Node) (path : Path) (context : Context) (search : LiteralSearch) :
    Except Error LiteralSearch :=
  if search.found then .ok search
  else
    match node with
    | .aConst literal =>
      match recordWhereLiteral literal path context search with
      | .error failure => .error failure
      | .ok search => .ok (if search.literalNode = some path then { search with expressionNode := some path } else search)
    | .aExpr kind name lexpr rexpr =>
      match walkExpressionLiterals lexpr (path ++ [0]) (operandContext context kind name rexpr) search with
      | .error failure => .error failure
      | .ok search => walkExpressionLiterals rexpr (path ++ [1]) (operandContext context kind name lexpr) search
    | .arg kind arg =>
      match walkExpressionLiterals arg (path ++ [0]) context search with
      | .error failure => .error failure
      | .ok search =>
        .ok (if kind = .typeCast ∧ search.expressionNode = some (path ++ [0]) then
            { search with literalParent := some path }
          else search)
    | .args _ args => walkNodeArrayLiterals args 0 path context search
    | .aIndirection arg indirection =>
      match walkExpressionLiterals arg (path ++ [0]) context search with
      | .error failure => .error failure
      | .ok search => walkNodeArrayLiterals indirection 1 path context search
    | .subLink testexpr subselect =>
      match walkExpressionLiterals testexpr (path ++ [0]) context search with
      | .error failure => .error failure
      | .ok search => walkExpressionLiterals subselect (path ++ [1]) context search
    | .selectStmt stmt => walkSelectStmtWhereLiterals stmt path context search
    | .columnRef _ | .string _ | .other => .ok search

/-- `sqlparser_walk_node_array_literals` from an index on. -/
def walkNodeArrayLiterals (items : Nodes) (index : Nat) (path : Path) (context : Context) (search : LiteralSearch) :
    Except Error LiteralSearch :=
  match items with
  | .nil => .ok search
  | .cons item later =>
    match walkExpressionLiterals item (path ++ [index]) context search with
    | .error failure => .error failure
    | .ok search => if search.found then .ok search else walkNodeArrayLiterals later (index + 1) path context search

/-- `sqlparser_walk_select_stmt_where_literals` -/
def walkSelectStmtWhereLiterals (stmt : SelectStmt) (path : Path) (context : Context) (search : LiteralSearch) :
    Except Error LiteralSearch :=
  match stmt with
  | .missing => .ok search
  | .stmt whereClause larg rarg =>
    match walkExpressionLiterals whereClause (path ++ [0]) context search with
    | .error failure => .error failure
    | .ok search =>
      match walkSelectStmtWhereLiterals larg (path ++ [1]) context search with
      | .error failure => .error failure
      | .ok search => walkSelectStmtWhereLiterals rarg (path ++ [2]) context search

end

/-! ## Counting, reading and replacing -/

def outOfRange : Error := ⟨.invalidArgument, "where literal index is out of range"⟩

/-- `sqlparser_statement_where_literal_count` on the WHERE clause of the statement. -/
def whereLiteralCount (whereClause : Node) : Except Error Nat :=
  match walkExpressionLiterals whereClause [] {} {} with
  | .error failure => .error failure
  | .ok search => .ok search.seen

/-- `sqlparser_statement_where_literal` -/
def whereLiteral (whereClause : Node) (parserSql : Option Text) (literalIndex : Nat) : Except Error WhereLiteralView :=
  let search := { wantTarget := true, targetIndex := literalIndex, parserSql := parserSql, wantView := true }
  match walkExpressionLiterals whereClause [] {} search with
  | .error failure => .error failure
  | .ok search => if search.literalNode.isSome then .ok search.literalView else .error outOfRange

/-- `sqlparser_find_statement_literal_node` for a WHERE clause, without the ordinal of the node. -/
def findLiteralNode (whereClause : Node) (literalIndex : Nat) : Except Error (Option Path × Option Path) :=
  match walkExpressionLiterals whereClause [] {} { wantTarget := true, targetIndex := literalIndex } with
  | .error failure => .error failure
  | .ok search =>
    if search.literalNode.isSome then .ok (search.expressionNode, search.literalParent) else .error outOfRange

mutual

/-- The node at the end of a path. -/
def nodeAt (node : Node) (path : Path) : Option Node :=
  match node, path with
  | node, [] => some node
  | .aExpr _ _ lexpr _, 0 :: path => nodeAt lexpr path
  | .aExpr _ _ _ rexpr, 1 :: path => nodeAt rexpr path
  | .arg _ arg, 0 :: path => nodeAt arg path
  | .args _ args, index :: path => nodesAt args index path
  | .aIndirection arg _, 0 :: path => nodeAt arg path
  | .aIndirection _ indirection, (index + 1) :: path => nodesAt indirection index path
  | .subLink testexpr _, 0 :: path => nodeAt testexpr path
  | .subLink _ subselect, 1 :: path => nodeAt subselect path
  | .selectStmt stmt, path => selectAt stmt path
  | _, _ => none

def nodesAt (nodes : Nodes) (index : Nat) (path : Path) : Option Node :=
  match nodes, index with
  | .nil, _ => none
  | .cons node _, 0 => nodeAt node path
  | .cons _ later, index + 1 => nodesAt later index path

def selectAt (stmt : SelectStmt) (path : Path) : Option Node :=
  match stmt, path with
  | .stmt whereClause _ _, 0 :: path => nodeAt whereClause path
  | .stmt _ larg _, 1 :: path => selectAt larg path
  | .stmt _ _ rarg, 2 :: path => selectAt rarg path
  | _, _ => none

end

mutual

/-- The expression with the literal at the end of a path changed. -/
def changeAt (node : Node) (path : Path) (change : AConst → AConst) : Node :=
  match node, path with
  | .aConst literal, [] => .aConst (change literal)
  | .aExpr kind name lexpr rexpr, 0 :: path => .aExpr kind name (changeAt lexpr path change) rexpr
  | .aExpr kind name lexpr rexpr, 1 :: path => .aExpr kind name lexpr (changeAt rexpr path change)
  | .arg kind arg, 0 :: path => .arg kind (changeAt arg path change)
  | .args kind args, index :: path => .args kind (changeNodesAt args index path change)
  | .aIndirection arg indirection, 0 :: path => .aIndirection (changeAt arg path change) indirection
  | .aIndirection arg indirection, (index + 1) :: path =>
    .aIndirection arg (changeNodesAt indirection index path change)
  | .subLink testexpr subselect, 0 :: path => .subLink (changeAt testexpr path change) subselect
  | .subLink testexpr subselect, 1 :: path => .subLink testexpr (changeAt subselect path change)
  | .selectStmt stmt, path => .selectStmt (changeSelectAt stmt path change)
  | node, _ => node

def changeNodesAt (nodes : Nodes) (index : Nat) (path : Path) (change : AConst → AConst) : Nodes :=
  match nodes, index with
  | .nil, _ => .nil
  | .cons node later, 0 => .cons (changeAt node path change) later
  | .cons node later, index + 1 => .cons node (changeNodesAt later index path change)

def changeSelectAt (stmt : SelectStmt) (path : Path) (change : AConst → AConst) : SelectStmt :=
  match stmt, path with
  | .stmt whereClause larg rarg, 0 :: path => .stmt (changeAt whereClause path change) larg rarg
  | .stmt whereClause larg rarg, 1 :: path => .stmt whereClause (changeSelectAt larg path change) rarg
  | .stmt whereClause larg rarg, 2 :: path => .stmt whereClause larg (changeSelectAt rarg path change)
  | stmt, _ => stmt

end

/-- `sqlparser_literal_value_t`; the strings may be missing. -/
inductive LiteralValue where
  | null
  | string (value : Option Text)
  | integer (value : Int)
  | float (value : Option Text)
  | boolean (value : Bool)
  | unknown
  deriving DecidableEq, Repr

/-- `sqlparser_literal_payload_build` -/
def literalPayloadBuild : LiteralValue → Except Error ConstValue
  | .null => .ok .notSet
  | .string none => .error ⟨.invalidArgument, "string literal requires string_value"⟩
  | .string (some value) => .ok (.string (some value))
  | .integer value =>
    if value > 2147483647 ∨ value < -2147483648 then
      .error ⟨.unsupported, "integer literal is out of supported range"⟩
    else .ok (.integer (some value))
  | .float none => .error ⟨.invalidArgument, "float literal requires float_value"⟩
  | .float (some value) => .ok (.float (some value))
  | .boolean value => .ok (.boolean (some value))
  | .unknown => .error ⟨.invalidArgument, "literal kind is invalid"⟩

/-- `sqlparser_a_const_set_literal`, with the literal that it leaves. -/
def aConstSetLiteral (value : LiteralValue) (literal : AConst) : Except Error AConst :=
  match literalPayloadBuild value with
  | .error failure => .error failure
  | .ok payload => .ok { literal with isnull := value = .null, value := payload }

/-- `sqlparser_statement_set_literal_in_place` for a WHERE clause.  The commit keeps the expression or fails. -/
def setLiteralInPlace (commit : Node → Except Error Unit) (whereClause : Node) (literalIndex : Nat)
    (value : LiteralValue) : Except Error Node :=
  match findLiteralNode whereClause literalIndex with
  | .error failure => .error failure
  | .ok (literalNode, _) =>
    match literalNode.bind fun path => (nodeAt whereClause path).map (path, ·) with
    | some (path, .aConst literal) =>
      match aConstSetLiteral value literal with
      | .error failure => .error failure
      | .ok changed =>
        let result := changeAt whereClause path fun _ => changed
        match commit result with
        | .error failure => .error failure
        | .ok () => .ok result
    | _ => .error ⟨.internalError, "literal node is invalid"⟩

/-! ## The literals in the order of the walk -/

/-- A literal that the walk meets, with its path, its context and the type cast that holds it directly. -/
structure Occurrence where
  path : Path
  context : Context
  literal : AConst
  parent : Option Path := none

/-- The occurrence seen from a node above. -/
def Occurrence.under (front : Path) (occurrence : Occurrence) : Occurrence :=
  { occurrence with path := front ++ occurrence.path, parent := occurrence.parent.map (front ++ ·) }

def Occurrence.inCast (kind : ArgKind) (occurrence : Occurrence) : Occurrence :=
  if kind = .typeCast ∧ occurrence.path = [0] then { occurrence with parent := some [] } else occurrence

mutual

/-- The literals of an expression, in the order of the walk. -/
def literalsOf (node : Node) (context : Context) : List Occurrence :=
  match node with
  | .aConst literal => if aConstIsSupported literal then [⟨[], context, literal, none⟩] else []
  | .aExpr kind name lexpr rexpr =>
    (literalsOf lexpr (operandContext context kind name rexpr)).map (·.under [0]) ++
      (literalsOf rexpr (operandContext context kind name lexpr)).map (·.under [1])
  | .arg kind arg => (literalsOf arg context).map fun occurrence => (occurrence.under [0]).inCast kind
  | .args _ args => literalsOfNodes args 0 context
  | .aIndirection arg indirection =>
    (literalsOf arg context).map (·.under [0]) ++ literalsOfNodes indirection 1 context
  | .subLink testexpr subselect =>
    (literalsOf testexpr context).map (·.under [0]) ++ (literalsOf subselect context).map (·.under [1])
  | .selectStmt stmt => literalsOfSelect stmt context
  | .columnRef _ | .string _ | .other => []

def literalsOfNodes (nodes : Nodes) (index : Nat) (context : Context) : List Occurrence :=
  match nodes with
  | .nil => []
  | .cons node later => (literalsOf node context).map (·.under [index]) ++ literalsOfNodes later (index + 1) context

def literalsOfSelect (stmt : SelectStmt) (context : Context) : List Occurrence :=
  match stmt with
  | .missing => []
  | .stmt whereClause larg rarg =>
    (literalsOf whereClause context).map (·.under [0]) ++ (literalsOfSelect larg context).map (·.under [1]) ++
      (literalsOfSelect rarg context).map (·.under [2])

end

/-- The view of a literal that is supported. -/
def viewOf (literal : AConst) (parserSql : Option Text) : LiteralView :=
  (fillLiteralView literal parserSql).toOption.getD .unknown

theorem fillLiteralView_supported {literal : AConst} (parserSql : Option Text) (supported : aConstIsSupported literal) :
    fillLiteralView literal parserSql = .ok (viewOf literal parserSql) := by
  obtain ⟨isnull, value, location⟩ := literal
  cases isnull with
  | true => rfl
  | false => cases value <;> first | rfl | cases supported

/-- Whether the next literal is the one that the search looks for. -/
def LiteralSearch.wants (search : LiteralSearch) : Bool :=
  search.wantTarget && search.seen = search.targetIndex

/-- The search with the literal that it looks for. -/
def LiteralSearch.take (search : LiteralSearch) (occurrence : Occurrence) : LiteralSearch :=
  { search with
    seen := search.seen + 1
    literalNode := some occurrence.path
    expressionNode := some occurrence.path
    literalParent := occurrence.parent
    literalView :=
      if search.wantView then ⟨occurrence.context, viewOf occurrence.literal search.parserSql⟩
      else search.literalView }

def LiteralSearch.skip (search : LiteralSearch) (count : Nat) : LiteralSearch :=
  { search with seen := search.seen + count }

/-- What the walk does when it meets a literal. -/
def LiteralSearch.meet (search : LiteralSearch) (occurrence : Occurrence) : LiteralSearch :=
  if search.found then search else if search.wants then search.take occurrence else search.skip 1

def LiteralSearch.meetAll (search : LiteralSearch) (path : Path) (occurrences : List Occurrence) : LiteralSearch :=
  occurrences.foldl (fun search occurrence => search.meet (occurrence.under path)) search

/-- A search that has its literal, or has met none that it looks for. -/
def LiteralSearch.Settled (search : LiteralSearch) : Prop :=
  search.found ∨ search.literalNode = none ∧ search.expressionNode = none ∧ search.literalParent = none

section walk

variable {search : LiteralSearch} {path front : Path} {occurrences later : List Occurrence} {occurrence : Occurrence}

@[simp]
theorem Occurrence.under_under : (occurrence.under front).under path = occurrence.under (path ++ front) := by
  cases parent : occurrence.parent <;> simp [Occurrence.under, parent]

theorem LiteralSearch.meetAll_append :
    search.meetAll path (occurrences ++ later) = (search.meetAll path occurrences).meetAll path later :=
  List.foldl_append

theorem LiteralSearch.meetAll_cons :
    search.meetAll path (occurrence :: later) = (search.meet (occurrence.under path)).meetAll path later := rfl

theorem LiteralSearch.meetAll_under :
    search.meetAll path (occurrences.map (·.under front)) = search.meetAll (path ++ front) occurrences := by
  simp [LiteralSearch.meetAll, List.foldl_map]

theorem LiteralSearch.meetAll_found (found : search.found) : search.meetAll path occurrences = search := by
  induction occurrences with
  | nil => rfl
  | cons occurrence later inductionHypothesis =>
    have stays : search.meet (occurrence.under path) = search := if_pos found
    rw [LiteralSearch.meetAll, List.foldl_cons, stays]
    exact inductionHypothesis

theorem LiteralSearch.take_found (wants : search.wants) : (search.take occurrence).found := by
  simp only [LiteralSearch.wants, Bool.and_eq_true] at wants
  simp [LiteralSearch.found, LiteralSearch.take, wants.1]

theorem LiteralSearch.meet_take (missing : search.found = false) (wants : search.wants) :
    search.meet occurrence = search.take occurrence := by
  rw [LiteralSearch.meet, if_neg (by simp [missing]), if_pos wants]

theorem LiteralSearch.meet_pass (missing : search.found = false) (other : search.wants = false) :
    search.meet occurrence = search.skip 1 := by
  rw [LiteralSearch.meet, if_neg (by simp [missing]), if_neg (by simp [other])]

theorem LiteralSearch.Settled.meet (settled : search.Settled) : (search.meet occurrence).Settled := by
  cases found : search.found with
  | true =>
    rw [LiteralSearch.meet, if_pos found]
    exact settled
  | false =>
    cases wants : search.wants with
    | true =>
      rw [LiteralSearch.meet_take found wants]
      exact .inl (LiteralSearch.take_found wants)
    | false =>
      rw [LiteralSearch.meet_pass found wants]
      exact .inr (settled.resolve_left (by simp [found]))

theorem LiteralSearch.Settled.meetAll (settled : search.Settled) : (search.meetAll path occurrences).Settled := by
  induction occurrences generalizing search with
  | nil => exact settled
  | cons occurrence later inductionHypothesis => exact inductionHypothesis settled.meet

/-- Behind the argument of a type cast the walk looks whether the literal is the argument itself. -/
theorem LiteralSearch.meetAll_cast (kind : ArgKind) (settled : search.Settled) (missing : search.found = false) :
    search.meetAll path (occurrences.map fun occurrence => (occurrence.under [0]).inCast kind) =
      if kind = .typeCast ∧ (search.meetAll (path ++ [0]) occurrences).expressionNode = some (path ++ [0]) then
        { search.meetAll (path ++ [0]) occurrences with literalParent := some path }
      else search.meetAll (path ++ [0]) occurrences := by
  induction occurrences generalizing search with
  | nil =>
    have fresh := settled.resolve_left (by simp [missing])
    rw [if_neg (by simp [LiteralSearch.meetAll, fresh])]
    rfl
  | cons occurrence later inductionHypothesis =>
    rw [List.map_cons, LiteralSearch.meetAll_cons, LiteralSearch.meetAll_cons]
    cases wants : search.wants with
    | false =>
      have passed : (search.skip 1).found = false := missing
      rw [LiteralSearch.meet_pass missing wants, LiteralSearch.meet_pass missing wants]
      exact inductionHypothesis (.inr (settled.resolve_left (by simp [missing]))) passed
    | true =>
      rw [LiteralSearch.meet_take missing wants, LiteralSearch.meet_take missing wants,
        LiteralSearch.meetAll_found (LiteralSearch.take_found wants),
        LiteralSearch.meetAll_found (LiteralSearch.take_found wants)]
      have isArg : (search.take (occurrence.under (path ++ [0]))).expressionNode = some (path ++ [0]) ↔
          occurrence.path = [] := by
        simp [LiteralSearch.take, Occurrence.under]
      have isCast : kind = .typeCast ∧ (occurrence.under [0]).path = [0] ↔ kind = .typeCast ∧ occurrence.path = [] := by
        simp [Occurrence.under]
      simp only [isArg, Occurrence.inCast, isCast]
      split
      next direct => simp [LiteralSearch.take, Occurrence.under]
      next => rw [Occurrence.under_under]

end walk

/-! ## The walk meets the literals -/

section meets

variable {search : LiteralSearch} {path : Path}

theorem recordWhereLiteral_pass {literal : AConst} {context : Context} (supported : aConstIsSupported literal)
    (other : search.wants = false) :
    recordWhereLiteral literal path context search = .ok (search.skip 1) := by
  have passes : (!search.wantTarget || decide (search.seen ≠ search.targetIndex)) = true := by
    simp only [LiteralSearch.wants, Bool.and_eq_false_iff, decide_eq_false_iff_not] at other
    simpa using other
  rw [recordWhereLiteral, if_neg (by simp [supported]), if_pos passes]
  rfl

theorem recordWhereLiteral_take {literal : AConst} {context : Context} (supported : aConstIsSupported literal)
    (wants : search.wants) :
    recordWhereLiteral literal path context search =
      .ok { search with
        literalNode := some path
        seen := search.seen + 1
        literalView := if search.wantView then ⟨context, viewOf literal search.parserSql⟩ else search.literalView } := by
  simp only [LiteralSearch.wants, Bool.and_eq_true, decide_eq_true_eq] at wants
  rw [recordWhereLiteral, if_neg (by simp [supported]), if_neg (by simp [wants])]
  split
  next view => rw [fillLiteralView_supported _ supported]
  next => rfl

mutual

theorem walkExpressionLiterals_meets (node : Node) (path : Path) (context : Context) {search : LiteralSearch}
    (settled : search.Settled) :
    walkExpressionLiterals node path context search = .ok (search.meetAll path (literalsOf node context)) := by
  cases found : search.found with
  | true =>
    rw [LiteralSearch.meetAll_found found]
    cases node <;> simp [walkExpressionLiterals, found]
  | false =>
    cases node with
    | aConst literal =>
      have fresh := settled.resolve_left (by simp [found])
      simp only [walkExpressionLiterals, found, Bool.false_eq_true, if_false, literalsOf]
      cases supported : aConstIsSupported literal with
      | false => simp [recordWhereLiteral, supported, fresh, LiteralSearch.meetAll]
      | true =>
        have here : (⟨[], context, literal, none⟩ : Occurrence).under path = ⟨path, context, literal, none⟩ := by
          simp [Occurrence.under]
        rw [if_pos rfl, LiteralSearch.meetAll_cons, here]
        cases wants : search.wants with
        | false =>
          rw [recordWhereLiteral_pass supported wants, LiteralSearch.meet_pass found wants]
          simp [fresh, LiteralSearch.skip, LiteralSearch.meetAll]
        | true =>
          rw [recordWhereLiteral_take supported wants, LiteralSearch.meet_take found wants]
          simp [fresh, LiteralSearch.take, LiteralSearch.meetAll]
    | columnRef fields => simp [walkExpressionLiterals, found, literalsOf, LiteralSearch.meetAll]
    | string sval => simp [walkExpressionLiterals, found, literalsOf, LiteralSearch.meetAll]
    | other => simp [walkExpressionLiterals, found, literalsOf, LiteralSearch.meetAll]
    | aExpr kind name lexpr rexpr =>
      simp only [walkExpressionLiterals, found, Bool.false_eq_true, if_false, literalsOf]
      rw [walkExpressionLiterals_meets lexpr _ _ settled]
      dsimp only
      rw [walkExpressionLiterals_meets rexpr _ _ settled.meetAll, LiteralSearch.meetAll_append,
        LiteralSearch.meetAll_under, LiteralSearch.meetAll_under]
    | arg kind arg =>
      simp only [walkExpressionLiterals, found, Bool.false_eq_true, if_false, literalsOf]
      rw [walkExpressionLiterals_meets arg _ _ settled]
      dsimp only
      rw [LiteralSearch.meetAll_cast kind settled found]
    | args kind args =>
      simp only [walkExpressionLiterals, found, Bool.false_eq_true, if_false, literalsOf]
      exact walkNodeArrayLiterals_meets args 0 path context settled
    | aIndirection arg indirection =>
      simp only [walkExpressionLiterals, found, Bool.false_eq_true, if_false, literalsOf]
      rw [walkExpressionLiterals_meets arg _ _ settled]
      dsimp only
      rw [walkNodeArrayLiterals_meets indirection 1 path context settled.meetAll, LiteralSearch.meetAll_append,
        LiteralSearch.meetAll_under]
    | subLink testexpr subselect =>
      simp only [walkExpressionLiterals, found, Bool.false_eq_true, if_false, literalsOf]
      rw [walkExpressionLiterals_meets testexpr _ _ settled]
      dsimp only
      rw [walkExpressionLiterals_meets subselect _ _ settled.meetAll, LiteralSearch.meetAll_append,
        LiteralSearch.meetAll_under, LiteralSearch.meetAll_under]
    | selectStmt stmt =>
      simp only [walkExpressionLiterals, found, Bool.false_eq_true, if_false, literalsOf]
      exact walkSelectStmtWhereLiterals_meets stmt path context settled

theorem walkNodeArrayLiterals_meets (nodes : Nodes) (index : Nat) (path : Path) (context : Context)
    {search : LiteralSearch} (settled : search.Settled) :
    walkNodeArrayLiterals nodes index path context search =
      .ok (search.meetAll path (literalsOfNodes nodes index context)) := by
  cases nodes with
  | nil => rfl
  | cons node later =>
    simp only [walkNodeArrayLiterals, literalsOfNodes]
    rw [walkExpressionLiterals_meets node _ _ settled]
    dsimp only
    rw [LiteralSearch.meetAll_append, LiteralSearch.meetAll_under]
    split
    next found => rw [LiteralSearch.meetAll_found found]
    next => exact walkNodeArrayLiterals_meets later (index + 1) path context settled.meetAll

theorem walkSelectStmtWhereLiterals_meets (stmt : SelectStmt) (path : Path) (context : Context)
    {search : LiteralSearch} (settled : search.Settled) :
    walkSelectStmtWhereLiterals stmt path context search =
      .ok (search.meetAll path (literalsOfSelect stmt context)) := by
  cases stmt with
  | missing => rfl
  | stmt whereClause larg rarg =>
    simp only [walkSelectStmtWhereLiterals, literalsOfSelect]
    rw [walkExpressionLiterals_meets whereClause _ _ settled]
    dsimp only
    rw [walkSelectStmtWhereLiterals_meets larg _ _ settled.meetAll]
    dsimp only
    rw [walkSelectStmtWhereLiterals_meets rarg _ _ settled.meetAll.meetAll, LiteralSearch.meetAll_append,
      LiteralSearch.meetAll_append, LiteralSearch.meetAll_under, LiteralSearch.meetAll_under,
      LiteralSearch.meetAll_under]

end

end meets

/-! ## Counting and finding -/

section finding

variable {search : LiteralSearch} {path : Path} {occurrences : List Occurrence}

theorem LiteralSearch.skip_skip (search : LiteralSearch) (first second : Nat) :
    (search.skip first).skip second = search.skip (first + second) := by
  simp [LiteralSearch.skip, Nat.add_assoc]

/-- A search that looks for nothing counts. -/
theorem meetAll_count (counts : search.wantTarget = false) :
    search.meetAll path occurrences = search.skip occurrences.length := by
  induction occurrences generalizing search with
  | nil => rfl
  | cons occurrence later inductionHypothesis =>
    have missing : search.found = false := by simp [LiteralSearch.found, counts]
    have other : search.wants = false := by simp [LiteralSearch.wants, counts]
    have behind : (search.skip 1).meetAll path later = (search.skip 1).skip later.length := inductionHypothesis counts
    rw [LiteralSearch.meetAll_cons, LiteralSearch.meet_pass missing other, behind, LiteralSearch.skip_skip,
      List.length_cons, Nat.add_comm]

/-- A search that looks for a literal takes the one with its ordinal. -/
theorem meetAll_find (wanted : search.wantTarget) (missing : search.literalNode = none)
    (reached : search.seen ≤ search.targetIndex) :
    search.meetAll path occurrences =
      match occurrences[search.targetIndex - search.seen]? with
      | none => search.skip occurrences.length
      | some occurrence => (search.skip (search.targetIndex - search.seen)).take (occurrence.under path) := by
  induction occurrences generalizing search with
  | nil => rfl
  | cons occurrence later inductionHypothesis =>
    have noLiteral : search.found = false := by simp [LiteralSearch.found, missing]
    rw [LiteralSearch.meetAll_cons]
    by_cases here : search.seen = search.targetIndex
    · have wants : search.wants := by simp [LiteralSearch.wants, wanted, here]
      rw [LiteralSearch.meet_take noLiteral wants, LiteralSearch.meetAll_found (LiteralSearch.take_found wants), here,
        Nat.sub_self, List.getElem?_cons_zero]
      rfl
    · have other : search.wants = false := by simp [LiteralSearch.wants, here]
      have ahead : search.targetIndex - search.seen = search.targetIndex - (search.skip 1).seen + 1 := by
        dsimp only [LiteralSearch.skip]
        omega
      have closer : (search.skip 1).seen ≤ (search.skip 1).targetIndex := by
        dsimp only [LiteralSearch.skip]
        omega
      rw [LiteralSearch.meet_pass noLiteral other, @inductionHypothesis (search.skip 1) wanted missing closer,
        ahead, List.getElem?_cons_succ]
      simp only [LiteralSearch.skip_skip, List.length_cons, Nat.add_comm 1]
      rfl

end finding

section api

variable (whereClause : Node) (parserSql : Option Text) (index : Nat)

theorem whereLiteralCount_eq : whereLiteralCount whereClause = .ok (literalsOf whereClause {}).length := by
  have settled : ({} : LiteralSearch).Settled := .inr ⟨rfl, rfl, rfl⟩
  rw [whereLiteralCount, walkExpressionLiterals_meets whereClause [] {} settled, meetAll_count rfl]
  simp [LiteralSearch.skip]

theorem whereLiteral_eq : whereLiteral whereClause parserSql index =
    match (literalsOf whereClause {})[index]? with
    | none => .error outOfRange
    | some occurrence => .ok ⟨occurrence.context, viewOf occurrence.literal parserSql⟩ := by
  have settled : ({ wantTarget := true, targetIndex := index, parserSql := parserSql, wantView := true } :
      LiteralSearch).Settled := .inr ⟨rfl, rfl, rfl⟩
  rw [whereLiteral, walkExpressionLiterals_meets whereClause [] {} settled, meetAll_find rfl rfl (Nat.zero_le _)]
  simp only [Nat.sub_zero]
  cases (literalsOf whereClause {})[index]? <;> rfl

theorem findLiteralNode_eq : findLiteralNode whereClause index =
    match (literalsOf whereClause {})[index]? with
    | none => .error outOfRange
    | some occurrence => .ok (some occurrence.path, occurrence.parent) := by
  have settled : ({ wantTarget := true, targetIndex := index } : LiteralSearch).Settled := .inr ⟨rfl, rfl, rfl⟩
  rw [findLiteralNode, walkExpressionLiterals_meets whereClause [] {} settled, meetAll_find rfl rfl (Nat.zero_le _)]
  simp only [Nat.sub_zero]
  cases (literalsOf whereClause {})[index]? with
  | none => rfl
  | some occurrence => cases parent : occurrence.parent <;> simp [LiteralSearch.take, Occurrence.under, parent]

end api

/-! ## Paths -/

section paths

variable {occurrences : List Occurrence} {occurrence : Occurrence} {context : Context} {index : Nat}

@[simp]
theorem Occurrence.inCast_path (kind : ArgKind) : (occurrence.inCast kind).path = occurrence.path := by
  unfold Occurrence.inCast
  split <;> rfl

@[simp]
theorem Occurrence.inCast_literal (kind : ArgKind) : (occurrence.inCast kind).literal = occurrence.literal := by
  unfold Occurrence.inCast
  split <;> rfl

@[simp]
theorem Occurrence.under_path (front : Path) : (occurrence.under front).path = front ++ occurrence.path := rfl

@[simp]
theorem Occurrence.under_literal (front : Path) : (occurrence.under front).literal = occurrence.literal := rfl

/-- The literals of a child have paths with its index in front. -/
theorem under_head {front : Nat} {path : Path} (listed : path ∈ (occurrences.map (·.under [front])).map Occurrence.path) :
    path.head? = some front := by
  simp only [List.mem_map] at listed
  obtain ⟨occurrence, ⟨inner, -, rfl⟩, rfl⟩ := listed
  rfl

theorem under_nodup {front : Path} (distinct : (occurrences.map Occurrence.path).Nodup) :
    ((occurrences.map (·.under front)).map Occurrence.path).Nodup := by
  rw [List.map_map]
  have same : Occurrence.path ∘ (·.under front) = (front ++ ·) ∘ Occurrence.path := rfl
  rw [same, ← List.map_map]
  exact distinct.map (List.append_right_injective front)

theorem disjoint_heads {left right : List Path} (heads : ∀ first ∈ left, ∀ second ∈ right, first.head? ≠ second.head?) :
    left.Disjoint right := by
  intro path inLeft inRight
  exact heads path inLeft path inRight rfl

mutual

/-- No two literals of an expression have one path. -/
theorem literalsOf_nodup (node : Node) (context : Context) : ((literalsOf node context).map Occurrence.path).Nodup := by
  cases node with
  | aConst literal =>
    rw [literalsOf]
    split <;> simp
  | columnRef fields => simp [literalsOf]
  | string sval => simp [literalsOf]
  | other => simp [literalsOf]
  | aExpr kind name lexpr rexpr =>
    rw [literalsOf, List.map_append]
    refine (under_nodup (literalsOf_nodup lexpr _)).append (under_nodup (literalsOf_nodup rexpr _)) ?_
    apply disjoint_heads
    intro first inLeft second inRight
    rw [under_head inLeft, under_head inRight]
    decide
  | arg kind arg =>
    rw [literalsOf, List.map_map]
    have same : (Occurrence.path ∘ fun occurrence : Occurrence => (occurrence.under [0]).inCast kind) =
        Occurrence.path ∘ Occurrence.under [0] := by
      funext occurrence
      simp
    rw [same, ← List.map_map]
    exact under_nodup (literalsOf_nodup arg context)
  | args kind args =>
    rw [literalsOf]
    exact (literalsOfNodes_nodup args 0 context).1
  | aIndirection arg indirection =>
    rw [literalsOf, List.map_append]
    obtain ⟨distinct, behind⟩ := literalsOfNodes_nodup indirection 1 context
    refine (under_nodup (literalsOf_nodup arg context)).append distinct ?_
    apply disjoint_heads
    intro first inLeft second inRight
    obtain ⟨head, bound, same⟩ := behind second inRight
    rw [under_head inLeft, same]
    simp
    omega
  | subLink testexpr subselect =>
    rw [literalsOf, List.map_append]
    refine (under_nodup (literalsOf_nodup testexpr _)).append (under_nodup (literalsOf_nodup subselect _)) ?_
    apply disjoint_heads
    intro first inLeft second inRight
    rw [under_head inLeft, under_head inRight]
    decide
  | selectStmt stmt =>
    rw [literalsOf]
    exact literalsOfSelect_nodup stmt context

theorem literalsOfNodes_nodup (nodes : Nodes) (index : Nat) (context : Context) :
    ((literalsOfNodes nodes index context).map Occurrence.path).Nodup ∧
      ∀ path ∈ (literalsOfNodes nodes index context).map Occurrence.path, ∃ head, index ≤ head ∧ path.head? = some head := by
  cases nodes with
  | nil => exact ⟨by simp [literalsOfNodes], by simp [literalsOfNodes]⟩
  | cons node later =>
    obtain ⟨distinct, behind⟩ := literalsOfNodes_nodup later (index + 1) context
    rw [literalsOfNodes, List.map_append]
    refine ⟨(under_nodup (literalsOf_nodup node context)).append distinct ?_, fun path listed => ?_⟩
    · apply disjoint_heads
      intro first inLeft second inRight
      obtain ⟨head, bound, same⟩ := behind second inRight
      rw [under_head inLeft, same]
      simp
      omega
    · obtain listed | listed := List.mem_append.mp listed
      · exact ⟨index, le_rfl, under_head listed⟩
      · obtain ⟨head, bound, same⟩ := behind path listed
        exact ⟨head, (Nat.le_succ index).trans bound, same⟩

theorem literalsOfSelect_nodup (stmt : SelectStmt) (context : Context) :
    ((literalsOfSelect stmt context).map Occurrence.path).Nodup := by
  cases stmt with
  | missing => simp [literalsOfSelect]
  | stmt whereClause larg rarg =>
    rw [literalsOfSelect, List.map_append, List.map_append]
    refine ((under_nodup (literalsOf_nodup whereClause _)).append (under_nodup (literalsOfSelect_nodup larg _)) ?_).append
      (under_nodup (literalsOfSelect_nodup rarg _)) ?_
    · apply disjoint_heads
      intro first inLeft second inRight
      rw [under_head inLeft, under_head inRight]
      decide
    · apply disjoint_heads
      intro first inLeft second inRight
      obtain inLeft | inLeft := List.mem_append.mp inLeft
      · rw [under_head inLeft, under_head inRight]
        decide
      · rw [under_head inLeft, under_head inRight]
        decide

end

theorem under_listed {front : Nat} {path : Path} :
    path ∈ (occurrences.map (·.under [front])).map Occurrence.path ↔
      ∃ behind ∈ occurrences.map Occurrence.path, path = front :: behind := by
  constructor
  · intro listed
    simp only [List.mem_map] at listed
    obtain ⟨occurrence, ⟨inner, inList, rfl⟩, rfl⟩ := listed
    exact ⟨inner.path, List.mem_map_of_mem inList, rfl⟩
  · rintro ⟨behind, listed, rfl⟩
    obtain ⟨inner, inList, rfl⟩ := List.mem_map.mp listed
    exact List.mem_map.mpr ⟨inner.under [front], List.mem_map_of_mem inList, rfl⟩

mutual

/-- The path of a literal leads to its node. -/
theorem literalsOf_nodeAt (node : Node) (context : Context) :
    ∀ occurrence ∈ literalsOf node context, nodeAt node occurrence.path = some (.aConst occurrence.literal) := by
  intro occurrence listed
  cases node with
  | aConst literal =>
    rw [literalsOf] at listed
    split at listed
    next =>
      cases List.mem_singleton.mp listed
      rw [nodeAt]
    next => cases listed
  | columnRef fields => simp [literalsOf] at listed
  | string sval => simp [literalsOf] at listed
  | other => simp [literalsOf] at listed
  | aExpr kind name lexpr rexpr =>
    rw [literalsOf, List.mem_append, List.mem_map, List.mem_map] at listed
    obtain ⟨inner, inList, rfl⟩ | ⟨inner, inList, rfl⟩ := listed
    · simpa [nodeAt] using literalsOf_nodeAt lexpr _ inner inList
    · simpa [nodeAt] using literalsOf_nodeAt rexpr _ inner inList
  | arg kind arg =>
    rw [literalsOf, List.mem_map] at listed
    obtain ⟨inner, inList, rfl⟩ := listed
    simpa [nodeAt] using literalsOf_nodeAt arg _ inner inList
  | args kind args =>
    rw [literalsOf] at listed
    obtain ⟨offset, path, same, found⟩ := literalsOfNodes_nodesAt args 0 context occurrence listed
    rw [same, Nat.zero_add, nodeAt, found]
  | aIndirection arg indirection =>
    rw [literalsOf, List.mem_append, List.mem_map] at listed
    obtain ⟨inner, inList, rfl⟩ | listed := listed
    · simpa [nodeAt] using literalsOf_nodeAt arg _ inner inList
    · obtain ⟨offset, path, same, found⟩ := literalsOfNodes_nodesAt indirection 1 context occurrence listed
      rw [same, Nat.add_comm 1, nodeAt, found]
  | subLink testexpr subselect =>
    rw [literalsOf, List.mem_append, List.mem_map, List.mem_map] at listed
    obtain ⟨inner, inList, rfl⟩ | ⟨inner, inList, rfl⟩ := listed
    · simpa [nodeAt] using literalsOf_nodeAt testexpr _ inner inList
    · simpa [nodeAt] using literalsOf_nodeAt subselect _ inner inList
  | selectStmt stmt =>
    rw [literalsOf] at listed
    obtain ⟨some, found⟩ := literalsOfSelect_selectAt stmt context occurrence listed
    obtain ⟨head, behind, same⟩ := List.exists_cons_of_ne_nil some
    rw [same] at found ⊢
    rw [nodeAt, found]
    exact nofun

theorem literalsOfNodes_nodesAt (nodes : Nodes) (index : Nat) (context : Context) :
    ∀ occurrence ∈ literalsOfNodes nodes index context, ∃ offset path, occurrence.path = (index + offset) :: path ∧
      nodesAt nodes offset path = some (.aConst occurrence.literal) := by
  intro occurrence listed
  cases nodes with
  | nil => simp [literalsOfNodes] at listed
  | cons node later =>
    rw [literalsOfNodes, List.mem_append, List.mem_map] at listed
    obtain ⟨inner, inList, rfl⟩ | listed := listed
    · refine ⟨0, inner.path, rfl, ?_⟩
      rw [nodesAt]
      exact literalsOf_nodeAt node context inner inList
    · obtain ⟨offset, path, same, found⟩ := literalsOfNodes_nodesAt later (index + 1) context occurrence listed
      refine ⟨offset + 1, path, by rw [same, Nat.add_assoc, Nat.add_comm 1], ?_⟩
      rw [nodesAt]
      exact found

theorem literalsOfSelect_selectAt (stmt : SelectStmt) (context : Context) :
    ∀ occurrence ∈ literalsOfSelect stmt context,
      occurrence.path ≠ [] ∧ selectAt stmt occurrence.path = some (.aConst occurrence.literal) := by
  intro occurrence listed
  cases stmt with
  | missing => simp [literalsOfSelect] at listed
  | stmt whereClause larg rarg =>
    rw [literalsOfSelect, List.mem_append, List.mem_append, List.mem_map, List.mem_map, List.mem_map] at listed
    obtain (⟨inner, inList, rfl⟩ | ⟨inner, inList, rfl⟩) | ⟨inner, inList, rfl⟩ := listed
    · exact ⟨List.cons_ne_nil _ _, by simpa [selectAt] using literalsOf_nodeAt whereClause _ inner inList⟩
    · exact ⟨List.cons_ne_nil _ _, by simpa [selectAt] using (literalsOfSelect_selectAt larg _ inner inList).2⟩
    · exact ⟨List.cons_ne_nil _ _, by simpa [selectAt] using (literalsOfSelect_selectAt rarg _ inner inList).2⟩

end

end paths

/-! ## Changing a literal -/

/-- The occurrence behind the change of the literal at a path. -/
def Occurrence.changed (path : Path) (change : AConst → AConst) (occurrence : Occurrence) : Occurrence :=
  if occurrence.path = path then { occurrence with literal := change occurrence.literal } else occurrence

section changes

variable {occurrences : List Occurrence} {path : Path} {change : AConst → AConst}

theorem map_changed_id (apart : ∀ other ∈ occurrences.map Occurrence.path, other ≠ path) :
    occurrences.map (·.changed path change) = occurrences := by
  rw [List.map_congr_left fun occurrence listed => ?same, List.map_id']
  case same => exact if_neg (apart occurrence.path (List.mem_map_of_mem listed))

theorem map_changed_under (front : Nat) :
    (occurrences.map (·.under [front])).map (·.changed (front :: path) change) =
      (occurrences.map (·.changed path change)).map (·.under [front]) := by
  rw [List.map_map, List.map_map]
  apply List.map_congr_left
  intro occurrence _
  by_cases here : occurrence.path = path <;> simp [Occurrence.changed, Occurrence.under, here]

theorem map_changed_other {front head : Nat} (other : front ≠ head) :
    (occurrences.map (·.under [front])).map (·.changed (head :: path) change) = occurrences.map (·.under [front]) := by
  apply map_changed_id
  intro found listed same
  obtain ⟨behind, -, rfl⟩ := under_listed.mp listed
  exact other (List.cons.inj same).1

theorem changed_inCast (kind : ArgKind) (occurrence : Occurrence) :
    (occurrence.inCast kind).changed path change = (occurrence.changed path change).inCast kind := by
  unfold Occurrence.changed
  rw [Occurrence.inCast_path]
  by_cases here : occurrence.path = path
  · rw [if_pos here, if_pos here]
    unfold Occurrence.inCast
    dsimp only
    split <;> rfl
  · rw [if_neg here, if_neg here]

/-- A change of a literal leaves the column that an expression names. -/
theorem tryExtractColumnRef_changeAt (node : Node) (path : Path) (change : AConst → AConst) :
    tryExtractColumnRef (changeAt node path change) = tryExtractColumnRef node := by
  cases node with
  | arg kind arg =>
    match path with
    | 0 :: behind =>
      have inner := tryExtractColumnRef_changeAt arg behind change
      cases kind <;> simp [changeAt, tryExtractColumnRef, inner]
    | [] => rw [changeAt] <;> simp
    | (_ + 1) :: _ => rw [changeAt] <;> simp
  | aIndirection arg indirection =>
    match path with
    | 0 :: behind =>
      have inner := tryExtractColumnRef_changeAt arg behind change
      simp [changeAt, tryExtractColumnRef, inner]
    | [] => rw [changeAt] <;> simp
    | (_ + 1) :: _ => simp [changeAt, tryExtractColumnRef]
  | aConst literal => cases path <;> simp [changeAt, tryExtractColumnRef]
  | aExpr kind name lexpr rexpr =>
    match path with
    | [] => simp [changeAt]
    | 0 :: _ => simp [changeAt, tryExtractColumnRef]
    | 1 :: _ => simp [changeAt, tryExtractColumnRef]
    | (_ + 2) :: _ => simp [changeAt]
  | args kind args => cases path <;> simp [changeAt, tryExtractColumnRef]
  | subLink testexpr subselect =>
    match path with
    | [] => simp [changeAt]
    | 0 :: _ => simp [changeAt, tryExtractColumnRef]
    | 1 :: _ => simp [changeAt, tryExtractColumnRef]
    | (_ + 2) :: _ => simp [changeAt]
  | selectStmt stmt => simp [changeAt, tryExtractColumnRef]
  | columnRef fields => simp [changeAt]
  | string sval => simp [changeAt]
  | other => simp [changeAt]

theorem operandContext_changeAt (context : Context) (kind : AExprKind) (name : Nodes) (other : Node) (path : Path) :
    operandContext context kind name (changeAt other path change) = operandContext context kind name other := by
  rw [operandContext, tryExtractColumnRef_changeAt]
  rfl

variable (supports : ∀ literal, aConstIsSupported (change literal))
include supports

mutual

/-- The change of one literal changes its occurrence and no other. -/
theorem literalsOf_changeAt (node : Node) (context : Context) (path : Path)
    (listed : path ∈ (literalsOf node context).map Occurrence.path) :
    literalsOf (changeAt node path change) context = (literalsOf node context).map (·.changed path change) := by
  cases node with
  | aConst literal =>
    rw [literalsOf] at listed
    split at listed
    next supported =>
      obtain rfl : path = [] := by simpa using listed
      simp [changeAt, literalsOf, supported, supports, Occurrence.changed]
    next => cases listed
  | columnRef fields => simp [literalsOf] at listed
  | string sval => simp [literalsOf] at listed
  | other => simp [literalsOf] at listed
  | aExpr kind name lexpr rexpr =>
    rw [literalsOf, List.map_append, List.mem_append, under_listed, under_listed] at listed
    -- the path's head tells the operand, and the other operand's paths start differently
    obtain ⟨behind, inLeft, rfl⟩ | ⟨behind, inRight, rfl⟩ := listed
    · rw [changeAt, literalsOf, literalsOf, operandContext_changeAt,
        literalsOf_changeAt lexpr _ behind inLeft, List.map_append, map_changed_under,
        map_changed_other (show 1 ≠ 0 by decide)]
    · rw [changeAt, literalsOf, literalsOf, operandContext_changeAt,
        literalsOf_changeAt rexpr _ behind inRight, List.map_append, map_changed_under,
        map_changed_other (show 0 ≠ 1 by decide)]
  | arg kind arg =>
    -- the cast only marks the occurrence, so it commutes with the change
    have casts (occurrences : List Occurrence) :
        (occurrences.map fun occurrence => (occurrence.under [0]).inCast kind) =
          (occurrences.map (·.under [0])).map (·.inCast kind) := by
      rw [List.map_map]
      rfl
    have paths (occurrences : List Occurrence) :
        (occurrences.map (·.inCast kind)).map Occurrence.path = occurrences.map Occurrence.path := by
      rw [List.map_map]
      exact List.map_congr_left fun occurrence _ => occurrence.inCast_path kind
    rw [literalsOf, casts, paths, under_listed] at listed
    obtain ⟨behind, inArg, rfl⟩ := listed
    have commutes (occurrences : List Occurrence) :
        (occurrences.map (·.inCast kind)).map (·.changed (0 :: behind) change) =
          (occurrences.map (·.changed (0 :: behind) change)).map (·.inCast kind) := by
      rw [List.map_map, List.map_map]
      exact List.map_congr_left fun occurrence _ => changed_inCast kind occurrence
    rw [changeAt, literalsOf, literalsOf, literalsOf_changeAt arg context behind inArg, casts, casts, commutes,
      map_changed_under]
  | args kind args =>
    rw [literalsOf] at listed
    obtain ⟨occurrence, inList, rfl⟩ := List.mem_map.mp listed
    obtain ⟨offset, behind, same, -⟩ := literalsOfNodes_nodesAt args 0 context occurrence inList
    rw [same, Nat.zero_add] at listed ⊢
    rw [← Nat.zero_add offset] at listed
    rw [changeAt, literalsOf, literalsOf, literalsOfNodes_changeNodesAt args 0 context offset behind listed,
      Nat.zero_add]
  | aIndirection arg indirection =>
    rw [literalsOf, List.map_append, List.mem_append, under_listed] at listed
    obtain ⟨behind, inArg, rfl⟩ | listed := listed
    -- the paths of the indirection start at 1 or later
    · have later : (literalsOfNodes indirection 1 context).map (·.changed (0 :: behind) change) =
          literalsOfNodes indirection 1 context := by
        apply map_changed_id
        intro other inLater same
        obtain ⟨head, bound, first⟩ := (literalsOfNodes_nodup indirection 1 context).2 other inLater
        rw [same, List.head?_cons, Option.some_inj] at first
        omega
      rw [changeAt, literalsOf, literalsOf, literalsOf_changeAt arg context behind inArg, List.map_append,
        map_changed_under, later]
    · obtain ⟨occurrence, inList, rfl⟩ := List.mem_map.mp listed
      obtain ⟨offset, behind, same, -⟩ := literalsOfNodes_nodesAt indirection 1 context occurrence inList
      rw [same] at listed ⊢
      rw [literalsOf, List.map_append, map_changed_other (show 0 ≠ 1 + offset by omega),
        ← literalsOfNodes_changeNodesAt indirection 1 context offset behind listed, Nat.add_comm 1, changeAt, literalsOf]
  | subLink testexpr subselect =>
    rw [literalsOf, List.map_append, List.mem_append, under_listed, under_listed] at listed
    obtain ⟨behind, inLeft, rfl⟩ | ⟨behind, inRight, rfl⟩ := listed
    · rw [changeAt, literalsOf, literalsOf, literalsOf_changeAt testexpr _ behind inLeft, List.map_append,
        map_changed_under, map_changed_other (show 1 ≠ 0 by decide)]
    · rw [changeAt, literalsOf, literalsOf, literalsOf_changeAt subselect _ behind inRight, List.map_append,
        map_changed_under, map_changed_other (show 0 ≠ 1 by decide)]
  | selectStmt stmt =>
    rw [literalsOf] at listed
    rw [changeAt, literalsOf, literalsOf, literalsOfSelect_changeSelectAt stmt context path listed]

theorem literalsOfNodes_changeNodesAt (nodes : Nodes) (index : Nat) (context : Context) (offset : Nat) (path : Path)
    (listed : (index + offset) :: path ∈ (literalsOfNodes nodes index context).map Occurrence.path) :
    literalsOfNodes (changeNodesAt nodes offset path change) index context =
      (literalsOfNodes nodes index context).map (·.changed ((index + offset) :: path) change) := by
  cases nodes with
  | nil => simp [literalsOfNodes] at listed
  | cons node later =>
    rw [literalsOfNodes, List.map_append, List.mem_append, under_listed] at listed
    cases offset with
    | zero =>
      have apart : ∀ other ∈ (literalsOfNodes later (index + 1) context).map Occurrence.path,
          other ≠ (index + 0) :: path := by
        intro other inLater same
        obtain ⟨head, bound, first⟩ := (literalsOfNodes_nodup later (index + 1) context).2 other inLater
        rw [same, List.head?_cons, Option.some_inj] at first
        omega
      obtain ⟨behind, inNode, same⟩ := listed.resolve_right fun inLater => apart _ inLater rfl
      cases same
      rw [changeNodesAt, literalsOfNodes, literalsOfNodes, literalsOf_changeAt node context path inNode,
        List.map_append, map_changed_id apart]
      exact congrArg (· ++ literalsOfNodes later (index + 1) context) (map_changed_under index).symm
    | succ offset =>
      have inLater := listed.resolve_left fun ⟨behind, _, same⟩ => by
        have heads := (List.cons.inj same).1
        omega
      have shift : index + (offset + 1) = index + 1 + offset := by omega
      rw [shift] at inLater ⊢
      rw [changeNodesAt, literalsOfNodes, literalsOfNodes,
        literalsOfNodes_changeNodesAt later (index + 1) context offset path inLater, List.map_append,
        map_changed_other (show index ≠ index + 1 + offset by omega)]

theorem literalsOfSelect_changeSelectAt (stmt : SelectStmt) (context : Context) (path : Path)
    (listed : path ∈ (literalsOfSelect stmt context).map Occurrence.path) :
    literalsOfSelect (changeSelectAt stmt path change) context =
      (literalsOfSelect stmt context).map (·.changed path change) := by
  cases stmt with
  | missing => simp [literalsOfSelect] at listed
  | stmt whereClause larg rarg =>
    rw [literalsOfSelect, List.map_append, List.map_append, List.mem_append, List.mem_append, under_listed,
      under_listed, under_listed] at listed
    obtain (⟨behind, inWhere, rfl⟩ | ⟨behind, inLarg, rfl⟩) | ⟨behind, inRarg, rfl⟩ := listed
    · rw [changeSelectAt, literalsOfSelect, literalsOfSelect, literalsOf_changeAt whereClause context behind inWhere,
        List.map_append, List.map_append, map_changed_under, map_changed_other (show 1 ≠ 0 by decide),
        map_changed_other (show 2 ≠ 0 by decide)]
    · rw [changeSelectAt, literalsOfSelect, literalsOfSelect, literalsOfSelect_changeSelectAt larg context behind inLarg,
        List.map_append, List.map_append, map_changed_under, map_changed_other (show 0 ≠ 1 by decide),
        map_changed_other (show 2 ≠ 1 by decide)]
    · rw [changeSelectAt, literalsOfSelect, literalsOfSelect, literalsOfSelect_changeSelectAt rarg context behind inRarg,
        List.map_append, List.map_append, map_changed_under, map_changed_other (show 0 ≠ 2 by decide),
        map_changed_other (show 1 ≠ 2 by decide)]

end

end changes

/-! ## Replacing a literal -/

section replacing

variable {whereClause changed : Node} {index : Nat} {value : LiteralValue} {commit : Node → Except Error Unit}

theorem aConstSetLiteral_supported {literal result : AConst} (built : aConstSetLiteral value literal = .ok result) :
    aConstIsSupported result := by
  unfold aConstSetLiteral at built
  split at built
  next => cases built
  next payload found =>
    cases built
    cases value with
    | null => rfl
    | string value => cases value <;> cases found; rfl
    | integer value =>
      simp only [literalPayloadBuild] at found
      split at found <;> cases found
      rfl
    | float value => cases value <;> cases found; rfl
    | boolean value => cases found; rfl
    | unknown => cases found

/-- What a replacement computes at an ordinal: the payload setter on the literal, then the commit of the changed tree. -/
theorem setLiteralInPlace_eq {occurrence : Occurrence} (found : (literalsOf whereClause {})[index]? = some occurrence) :
    setLiteralInPlace commit whereClause index value = do
      let result ← aConstSetLiteral value occurrence.literal
      commit (changeAt whereClause occurrence.path fun _ => result)
      return changeAt whereClause occurrence.path fun _ => result := by
  -- the walk that looks for the literal ends at the path at which the list has it
  have node := literalsOf_nodeAt whereClause {} occurrence (List.mem_of_getElem? found)
  rw [setLiteralInPlace, findLiteralNode_eq, found]
  simp only [Option.bind_some, node, Option.map_some]
  cases aConstSetLiteral value occurrence.literal with
  | error failure => rfl
  | ok result =>
    change (match commit (changeAt whereClause occurrence.path fun _ => result) with
      | .error failure => .error failure
      | .ok () => .ok (changeAt whereClause occurrence.path fun _ => result)) =
        (commit (changeAt whereClause occurrence.path fun _ => result) >>= fun _ =>
          .ok (changeAt whereClause occurrence.path fun _ => result))
    cases commit (changeAt whereClause occurrence.path fun _ => result) <;> rfl

/-- A successful replacement changes the payload of the literal with the ordinal. -/
theorem setLiteralInPlace_ok (set : setLiteralInPlace commit whereClause index value = .ok changed) :
    ∃ occurrence result, (literalsOf whereClause {})[index]? = some occurrence ∧
      aConstSetLiteral value occurrence.literal = .ok result ∧
      changed = changeAt whereClause occurrence.path fun _ => result := by
  cases found : (literalsOf whereClause {})[index]? with
  | none =>
    rw [setLiteralInPlace, findLiteralNode_eq, found] at set
    cases set
  | some occurrence =>
    rw [setLiteralInPlace_eq found] at set
    cases built : aConstSetLiteral value occurrence.literal with
    | error failure =>
      rw [built] at set
      cases set
    | ok result =>
      rw [built] at set
      refine ⟨occurrence, result, rfl, built, ?_⟩
      change (commit (changeAt whereClause occurrence.path fun _ => result) >>= fun _ =>
        .ok (changeAt whereClause occurrence.path fun _ => result)) = .ok changed at set
      cases committed : commit (changeAt whereClause occurrence.path fun _ => result) with
      | error failure =>
        rw [committed] at set
        cases set
      | ok done =>
        rw [committed] at set
        exact (Except.ok.inj set).symm

/-- Behind a replacement the walk meets the same literals, with the new one at the ordinal. -/
theorem literalsOf_setLiteralInPlace (set : setLiteralInPlace commit whereClause index value = .ok changed) :
    (literalsOf changed {}).length = (literalsOf whereClause {}).length ∧
      ∀ other, other ≠ index → (literalsOf changed {})[other]? = (literalsOf whereClause {})[other]? := by
  obtain ⟨occurrence, result, found, built, rfl⟩ := setLiteralInPlace_ok set
  have listed : occurrence.path ∈ (literalsOf whereClause {}).map Occurrence.path :=
    List.mem_map_of_mem (List.mem_of_getElem? found)
  have same :
      literalsOf (changeAt whereClause occurrence.path fun _ => result) {} =
        (literalsOf whereClause {}).map (fun second =>
          if second.path = occurrence.path then { second with literal := result } else second) :=
    literalsOf_changeAt (fun _ => aConstSetLiteral_supported built) whereClause {} occurrence.path listed
  rw [same, List.length_map]
  refine ⟨rfl, fun other apart => ?_⟩
  rw [List.getElem?_map]
  cases there : (literalsOf whereClause {})[other]? with
  | none => rfl
  | some second =>
    have different : second.path ≠ occurrence.path := by
      intro samePath
      apply apart
      have distinct := literalsOf_nodup whereClause {}
      have first : ((literalsOf whereClause {}).map Occurrence.path)[index]? = some occurrence.path := by
        rw [List.getElem?_map, found]
        rfl
      have again : ((literalsOf whereClause {}).map Occurrence.path)[other]? = some occurrence.path := by
        rw [List.getElem?_map, there, ← samePath]
        rfl
      obtain ⟨inside, -⟩ := List.getElem?_eq_some_iff.mp again
      exact (List.getElem?_inj inside distinct).mp (again.trans first.symm)
    exact congrArg some (if_neg different)

end replacing

/-- Counting, reading and replacing go by one list of literals, each with a node of its own.  A replacement at an ordinal
sets the payload of its literal and commits the tree, and changes no other literal. -/
theorem where_literals_agree (whereClause : Node) (parserSql : Option Text) (commit : Node → Except Error Unit) :
    whereLiteralCount whereClause = .ok (literalsOf whereClause {}).length ∧
      ((literalsOf whereClause {}).map Occurrence.path).Nodup ∧
      (∀ index occurrence, (literalsOf whereClause {})[index]? = some occurrence →
        nodeAt whereClause occurrence.path = some (.aConst occurrence.literal) ∧
        whereLiteral whereClause parserSql index = .ok ⟨occurrence.context, viewOf occurrence.literal parserSql⟩ ∧
        ∀ value, setLiteralInPlace commit whereClause index value = do
          let result ← aConstSetLiteral value occurrence.literal
          commit (changeAt whereClause occurrence.path fun _ => result)
          return changeAt whereClause occurrence.path fun _ => result) ∧
      (∀ index, (literalsOf whereClause {}).length ≤ index →
        whereLiteral whereClause parserSql index = .error outOfRange ∧
        ∀ value, setLiteralInPlace commit whereClause index value = .error outOfRange) ∧
      ∀ index value changed, setLiteralInPlace commit whereClause index value = .ok changed →
        whereLiteralCount changed = whereLiteralCount whereClause ∧
        ∀ other, other ≠ index → whereLiteral changed parserSql other = whereLiteral whereClause parserSql other := by
  refine ⟨whereLiteralCount_eq whereClause, literalsOf_nodup whereClause {}, fun index occurrence found => ?_,
    fun index behind => ?_, fun index value changed set => ?_⟩
  · refine ⟨literalsOf_nodeAt whereClause {} occurrence (List.mem_of_getElem? found), ?_, fun value => ?_⟩
    · rw [whereLiteral_eq, found]
    · exact setLiteralInPlace_eq found
  · have missing : (literalsOf whereClause {})[index]? = none := List.getElem?_eq_none behind
    refine ⟨by rw [whereLiteral_eq, missing], fun value => ?_⟩
    rw [setLiteralInPlace, findLiteralNode_eq, missing]
  · obtain ⟨sameLength, same⟩ := literalsOf_setLiteralInPlace set
    refine ⟨by rw [whereLiteralCount_eq, whereLiteralCount_eq, sameLength], fun other apart => ?_⟩
    rw [whereLiteral_eq, whereLiteral_eq, same other apart]

/-- `a = 'x' AND (b IN (1, 2) OR c < CAST('y' AS text))`, with the literals at the offsets of their tokens. -/
def fourLiterals : Node :=
  .args .boolExpr (.cons
    (.aExpr .op (.cons (.string (ascii "=")) .nil) (.columnRef (.cons (.string (ascii "a")) .nil))
      (.aConst ⟨false, .string (some (ascii "x")), 4⟩))
    (.cons
      (.args .boolExpr (.cons
        (.aExpr .inList (.cons (.string (ascii "=")) .nil) (.columnRef (.cons (.string (ascii "b")) .nil))
          (.args .list (.cons (.aConst ⟨false, .integer (some 1), 19⟩)
            (.cons (.aConst ⟨false, .integer (some 2), 22⟩) .nil))))
        (.cons
          (.aExpr .op (.cons (.string (ascii "<")) .nil) (.columnRef (.cons (.string (ascii "c")) .nil))
            (.arg .typeCast (.aConst ⟨false, .string (some (ascii "y")), 37⟩))) .nil)))
      .nil))

/-- Four literals; the third one, the 2 of the list, becomes NULL, and the one behind the end of the list is refused. -/
theorem where_literals_agree_four :
    whereLiteralCount fourLiterals = .ok 4 ∧
      (∃ changed, setLiteralInPlace (fun _ => .ok ()) fourLiterals 2 .null = .ok changed ∧
        whereLiteral changed none 2 = .ok ⟨⟨none, some (ascii "b"), some (ascii "IN")⟩, .null⟩ ∧
        whereLiteral changed none 3 =
          .ok ⟨⟨none, some (ascii "c"), some (ascii "<")⟩, .string (some (ascii "y")) false⟩) ∧
      setLiteralInPlace (fun _ => .ok ()) fourLiterals 4 .null = .error outOfRange := by
  obtain ⟨count, -, same, behind, kept⟩ := where_literals_agree fourLiterals none fun _ => .ok ()
  refine ⟨count, ?_, (behind 4 (by decide +kernel)).2 .null⟩
  obtain ⟨-, -, sets⟩ := same 2 _ rfl
  refine ⟨_, sets .null, by decide +kernel, ?_⟩
  rw [(kept 2 .null _ (sets .null)).2 3 (by decide)]
  decide +kernel

end SqlParser.Core.WhereLiteral
