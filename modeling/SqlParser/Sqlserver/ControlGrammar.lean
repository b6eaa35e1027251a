import SqlParser.Sqlserver.GoLine
import SqlParser.Sqlserver.ScannerTokens

/-! # The grammar of SQL Server control flow

The questions that `sqlparser_dialect_sqlserver_control.c` asks of the tokens of a text, and its
loops that only look ahead.  None of them depends on the pass that asks.
-/

namespace SqlParser.Sqlserver

open SqlParser.Core

def noToken : Token := { kind := .eof, start := 0, stop := 0 }

/-- The token at an index that is known to be one. -/
def tokenAt (tokens : List Token) (index : Nat) : Token :=
  (tokens[index]?).getD noToken

/-- `sqlparser_sqlserver_token_word_equal` -/
def tokenWordEqual (sql : Text) (token : Token) (word : String) : Bool :=
  token.kind = .word && spanWordEqual ((sql.take token.stop).drop token.start) word

/-- `sqlparser_sqlserver_control_has_line_break` -/
def hasLineBreak (sql : Text) (start stop : Nat) : Bool :=
  ((sql.take stop).drop start).any isLineBreak

/-- `sqlparser_sqlserver_control_drop_type_prefix` -/
def dropTypePrefix (sql : Text) : List Token → Bool
  | [kind] => kind.kind = .word
  | [first, second] =>
    (tokenWordEqual sql first "application" && tokenWordEqual sql second "role") ||
      (tokenWordEqual sql first "partition" &&
        (tokenWordEqual sql second "function" || tokenWordEqual sql second "scheme"))
  | [first, second, third] =>
    tokenWordEqual sql first "xml" && tokenWordEqual sql second "schema" && tokenWordEqual sql third "collection"
  | _ => false

section tokens

variable (sql : Text) (tokens : List Token)

/-- `sqlparser_sqlserver_control_token_word` -/
def tokenWord (index : Nat) (word : String) : Bool :=
  match tokens[index]? with
  | some token => tokenWordEqual sql token word
  | none => false

/-- `sqlparser_sqlserver_control_token_symbol` -/
def tokenSymbol (index : Nat) (symbol : UInt8) : Bool :=
  match tokens[index]? with
  | some token => token.isSymbol symbol
  | none => false

/-- `sqlparser_sqlserver_control_at_level` -/
def atLevel (index blockDepth : Nat) : Bool :=
  match tokens[index]? with
  | some token => token.blockDepth = blockDepth && token.parenDepth = 0 && token.caseDepth = 0
  | none => false

/-- `sqlparser_sqlserver_control_block_begin` -/
def blockBegin (index : Nat) : Bool :=
  tokenWord sql tokens index "begin" && index + 1 < tokens.length &&
    (tokenAt tokens (index + 1)).blockDepth = (tokenAt tokens index).blockDepth + 1

/-- `sqlparser_sqlserver_control_block_end` -/
def blockEnd (index : Nat) : Bool :=
  let token := tokenAt tokens index
  tokenWord sql tokens index "end" && token.caseDepth = 0 && token.blockDepth ≠ 0 &&
    (index + 1 = tokens.length || (tokenAt tokens (index + 1)).blockDepth < token.blockDepth)

/-- The words of `sqlparser_sqlserver_control_statement_start`. -/
def statementWords : List String :=
  [ "alter", "begin", "break", "checkpoint", "commit", "continue",
    "create", "dbcc", "deallocate", "declare", "delete", "deny",
    "drop", "exec", "execute", "grant", "if", "insert", "kill",
    "merge", "open", "print", "raiserror", "reconfigure", "return",
    "revert", "revoke", "rollback", "save", "select", "set",
    "shutdown", "throw", "truncate", "update", "use", "waitfor", "while",
    "with" ]

/-- `sqlparser_sqlserver_control_statement_start` -/
def statementStart (index : Nat) : Bool :=
  statementWords.any (tokenWord sql tokens index) &&
    !(tokenWord sql tokens index "update" && tokenSymbol tokens (index + 1) 40)

/-- `sqlparser_sqlserver_control_drop_if_exists` -/
def dropIfExists (statement index : Nat) : Bool :=
  statement < index && tokenWord sql tokens statement "drop" && tokenWord sql tokens index "if" &&
    tokenWord sql tokens (index + 1) "exists" &&
    dropTypePrefix sql ((tokens.drop (statement + 1)).take (index - statement - 1))

/-- `sqlparser_sqlserver_control_leaf_boundary` -/
def leafBoundary (statement index : Nat) : Bool :=
  let word := tokenWord sql tokens
  if index ≤ statement then false
  else if word index "if" then !dropIfExists sql tokens statement index
  else if !statementStart sql tokens index ||
      !hasLineBreak sql (tokenAt tokens (index - 1)).stop (tokenAt tokens index).start then false
  else if word index "set" && (word statement "update" || word statement "merge") then false
  else if word index "with" && (tokenSymbol tokens (index + 1) 40 || word statement "create") then false
  else if word index "select" && (word statement "insert" || word statement "create" || word statement "alter" ||
      word statement "with" || word (index - 1) "union" || word (index - 1) "all" || word (index - 1) "intersect" ||
      word (index - 1) "except") then false
  else if word statement "merge" && (word index "insert" || word index "update" || word index "delete") then false
  else true

/-! ## Looking ahead

The loops run over the tokens that are left, whose number is their first argument. -/

def plainFailure (code : Status) (message : String) : Failure :=
  ⟨⟨code, message⟩, 0, 0, 0⟩

/-- The failure at a token, or at the end of the text behind the last one. -/
def errorAtToken (index : Nat) (message : String) : Failure :=
  errorAt sql (if index < tokens.length then (tokenAt tokens index).start else sql.length) message

def goInControl : Failure :=
  plainFailure .unsupported "GO batch separator is not supported inside SQL Server control flow"

/-- The loop of `sqlparser_sqlserver_control_parse_leaf`; `effective` is where the statement behind a
WITH clause begins. -/
def leafEnd (start blockDepth : Nat) : Nat → Nat → Nat → Except Failure Nat
  | 0, _, index => .ok index
  | remaining + 1, effective, index =>
    let word := tokenWord sql tokens
    if atLevel tokens index blockDepth then
      let effective :=
        if effective = start && start < index && word start "with" &&
            (word index "select" || word index "insert" || word index "update" || word index "delete" ||
              word index "merge") then index
        else effective
      if (lineIsGo sql (tokenAt tokens index).start).isSome then .error goInControl
      else if tokenSymbol tokens index Byte.semicolon || word index "else" || blockEnd sql tokens index ||
          leafBoundary sql tokens effective index then .ok index
      else leafEnd start blockDepth remaining effective (index + 1)
    else leafEnd start blockDepth remaining effective (index + 1)

/-- The loop of `sqlparser_sqlserver_control_parse_if` that looks for the branch behind the condition. -/
def branchStart (conditionStart blockDepth : Nat) : Nat → Nat → Except Failure (Option Nat)
  | 0, _ => .ok none
  | remaining + 1, index =>
    let word := tokenWord sql tokens
    if !atLevel tokens index blockDepth then branchStart conditionStart blockDepth remaining (index + 1)
    else if tokenSymbol tokens index Byte.semicolon || word index "else" || blockEnd sql tokens index then .ok none
    else if !statementStart sql tokens index then branchStart conditionStart blockDepth remaining (index + 1)
    else if index = conditionStart then
      .error (errorAt sql (tokenAt tokens index).start
        (if word index "select" then "SQL Server IF condition SELECT must be parenthesized"
          else "SQL Server IF requires a condition"))
    else if word index "select" && (word (index - 1) "exists" ||
        (2 ≤ index && word (index - 2) "not" && word (index - 1) "exists")) then
      .error (errorAt sql (tokenAt tokens index).start "SQL Server IF condition SELECT must be parenthesized")
    else .ok (some index)

/-- The index behind the semicolons of a level. -/
def behindSemicolons (blockDepth : Nat) : Nat → Nat → Nat
  | 0, index => index
  | remaining + 1, index =>
    if atLevel tokens index blockDepth && tokenSymbol tokens index Byte.semicolon then
      behindSemicolons blockDepth remaining (index + 1)
    else index

end tokens

end SqlParser.Sqlserver
