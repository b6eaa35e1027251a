import SqlParser.Core.Bytes
import SqlParser.Library.ItemReader

/-! # The SQL Server token scanner

The scanner of `sqlparser_dialect_sqlserver_scan.c`.  It reads nothing behind its
`end`, so its text is the SQL up to there, and a loop over a construct is a function
from the rest of the text inside the construct to the rest behind it.
-/

namespace SqlParser.Sqlserver

open SqlParser.Core
open SqlParser.Library.ItemReader

/-! ## Failures -/

/-- A failure with the place that `sqlparser_sqlserver_error_at` computes for it. -/
structure Failure where
  error : Error
  cursor : Nat
  line : Nat
  column : Nat
  deriving DecidableEq, Repr

def errorAt (sql : Text) (pos : Nat) (message : String) : Failure :=
  let place := (sql.take pos).foldl
    (fun (line, column) byte => if byte = Byte.lineFeed then (line + 1, 1) else (line, column + 1)) (1, 1)
  { error := ⟨.parseError, message⟩
    cursor := if pos < int32Max then pos + 1 else int32Max
    line := place.1
    column := place.2 }

/-! ## Words -/

def isIdentStart (byte : UInt8) : Bool :=
  isAlpha byte || byte = Byte.underscore || byte = Byte.hash

def isIdentChar (byte : UInt8) : Bool :=
  isAlnum byte || byte = Byte.underscore || byte = Byte.dollar || byte = Byte.hash || byte = Byte.at'

def tokenWordStart (byte : UInt8) : Bool :=
  isIdentStart byte || byte = Byte.at' || byte = Byte.dollar

def toLower (byte : UInt8) : UInt8 :=
  if 65 ≤ byte && byte ≤ 90 then byte + 32 else byte

/-- `sqlparser_sqlserver_span_word_equal` -/
def spanWordEqual (word : Text) (constant : String) : Bool :=
  word.map toLower = (ascii constant).map toLower

/-- `sqlparser_sqlserver_is_word_boundary` -/
def isWordBoundary (text : Text) (pos len : Nat) : Bool :=
  let prev := if pos = 0 then 0 else byteAt text (pos - 1)
  !isIdentChar prev && !isIdentChar (byteAt text (pos + len))

/-- `sqlparser_sqlserver_ascii_word_equal` -/
def asciiWordEqual (text : Text) (pos : Nat) (word : String) : Bool :=
  let len := (ascii word).length
  spanWordEqual ((text.drop pos).take len) word && isWordBoundary text pos len

/-! ## Quoted items and comments -/

/-- The loop over a bracketed identifier or a quoted item: the rest behind a closer that is not doubled. -/
def behindCloser (closer : UInt8) : Text → Option Text
  | [] => none
  | [byte] => if byte = closer then some [] else none
  | byte :: next :: rest =>
    if byte = closer then
      if next = closer then behindCloser closer rest else some (next :: rest)
    else behindCloser closer (next :: rest)

/-- The loop over a line comment, which takes the line end with it. -/
def behindLineEnd (rest : Text) : Text :=
  match rest.dropWhile fun byte => byte ≠ Byte.carriageReturn && byte ≠ Byte.lineFeed with
  | [] => []
  | byte :: tail =>
    if byte = Byte.carriageReturn ∧ tail.head? = some Byte.lineFeed then tail.drop 1 else tail

/-- The loop over a block comment at its depth. -/
def behindNestedComment (depth : Nat) : Text → Option Text
  | [] => none
  | [_] => none
  | byte :: next :: rest =>
    if byte = Byte.slash ∧ next = Byte.star then behindNestedComment (depth + 1) rest
    else if byte = Byte.star ∧ next = Byte.slash then
      if depth - 1 = 0 then some rest else behindNestedComment (depth - 1) rest
    else behindNestedComment depth (next :: rest)

/-- The rest behind a span that is not code.  A failure that comes with a message is one of the text at
the start of the span, where the rest is empty. -/
structure NonCodeScan where
  behind : Text
  failure : Option String

def closedScan (behind : Option Text) (message : String) : NonCodeScan :=
  match behind with
  | some rest => ⟨rest, none⟩
  | none => ⟨[], some message⟩

/-- `sqlparser_sqlserver_scan_non_code_span` -/
def scanNonCodeSpan (rest : Text) : NonCodeScan :=
  match rest with
  | [] => ⟨[], some "SQL Server span arguments are invalid"⟩
  | current :: tail =>
    if current = Byte.openBracket then
      closedScan (behindCloser Byte.closeBracket tail) "unterminated SQL Server bracket-delimited identifier"
    else if current = Byte.quote ∨ current = Byte.doubleQuote then
      closedScan (behindCloser current tail)
        (if current = Byte.quote then "unterminated SQL Server string literal"
          else "unterminated SQL Server quoted identifier")
    else if current = Byte.dash ∧ byteAt tail 0 = Byte.dash then ⟨behindLineEnd (tail.drop 1), none⟩
    else if current = Byte.slash ∧ byteAt tail 0 = Byte.star then
      closedScan (behindNestedComment 1 (tail.drop 1)) "unterminated SQL Server block comment"
    else ⟨current :: tail, some "SQL Server span does not start with quoted text or a comment"⟩

theorem behindCloser_suffix {closer : UInt8} {rest tail : Text} (found : behindCloser closer rest = some tail) :
    tail <:+ rest := by
  fun_induction behindCloser closer rest with
  | case1 => cases found
  | case2 =>
    cases found
    exact List.nil_suffix
  | case3 => cases found
  | case4 rest inductionHypothesis =>
    exact (inductionHypothesis found).trans ((List.suffix_cons _ _).trans (List.suffix_cons _ _))
  | case5 next rest single =>
    cases found
    exact List.suffix_cons _ _
  | case6 byte next rest other inductionHypothesis =>
    exact (inductionHypothesis found).trans (List.suffix_cons _ _)

theorem behindNestedComment_suffix {depth : Nat} {rest tail : Text}
    (found : behindNestedComment depth rest = some tail) : tail <:+ rest := by
  fun_induction behindNestedComment depth rest with
  | case1 => cases found
  | case2 => cases found
  | case3 depth byte next rest opens inductionHypothesis =>
    exact (inductionHypothesis found).trans ((List.suffix_cons _ _).trans (List.suffix_cons _ _))
  | case4 depth byte next rest _ closes last =>
    cases found
    exact (List.suffix_cons _ _).trans (List.suffix_cons _ _)
  | case5 depth byte next rest _ closes inner inductionHypothesis =>
    exact (inductionHypothesis found).trans ((List.suffix_cons _ _).trans (List.suffix_cons _ _))
  | case6 depth byte next rest _ other inductionHypothesis =>
    exact (inductionHypothesis found).trans (List.suffix_cons _ _)

theorem behindLineEnd_suffix (rest : Text) : behindLineEnd rest <:+ rest := by
  have jumped := List.dropWhile_suffix (l := rest) fun byte => byte ≠ Byte.carriageReturn && byte ≠ Byte.lineFeed
  unfold behindLineEnd
  split
  next => exact List.nil_suffix
  next byte tail found =>
    rw [found] at jumped
    have behind : tail <:+ rest := (List.suffix_cons byte tail).trans jumped
    split
    next => exact (List.drop_suffix 1 tail).trans behind
    next => exact behind

/-- Whether a quoted item or a comment begins with the text. -/
def opensNonCode (rest : Text) : Bool :=
  match rest with
  | [] => false
  | current :: tail =>
    current = Byte.openBracket || current = Byte.quote || current = Byte.doubleQuote ||
      (current = Byte.dash && byteAt tail 0 = Byte.dash) || (current = Byte.slash && byteAt tail 0 = Byte.star)

theorem closedScan_suffix {found : Option Text} {message : String} {rest : Text}
    (suffix : ∀ tail, found = some tail → tail <:+ rest) : (closedScan found message).behind <:+ rest := by
  cases found with
  | none => exact List.nil_suffix
  | some tail => exact suffix tail rfl

theorem scanNonCodeSpan_suffix {current : UInt8} {tail : Text} (opens : opensNonCode (current :: tail)) :
    (scanNonCodeSpan (current :: tail)).behind <:+ tail := by
  simp only [opensNonCode, Bool.or_eq_true, Bool.and_eq_true, decide_eq_true_eq] at opens
  simp only [scanNonCodeSpan]
  split_ifs with bracket quoted isQuote line block
  · exact closedScan_suffix fun _ found => behindCloser_suffix found
  · exact closedScan_suffix fun _ found => behindCloser_suffix found
  · exact closedScan_suffix fun _ found => behindCloser_suffix found
  · exact (behindLineEnd_suffix _).trans (List.drop_suffix 1 tail)
  · exact closedScan_suffix fun _ found => (behindNestedComment_suffix found).trans (List.drop_suffix 1 tail)
  · exact absurd opens (by grind)

/-! ## Trivia -/

/-- The blanks and comments before a token: the comments as items of the text, the rest behind them, and
the failure of an unterminated comment. -/
structure Trivia where
  passed : List Item
  rest : Text
  failure : Option Failure

def opensComment (rest : Text) : Bool :=
  (byteAt rest 0 = Byte.dash && byteAt rest 1 = Byte.dash) ||
    (byteAt rest 0 = Byte.slash && byteAt rest 1 = Byte.star)

theorem opensNonCode_of_comment {rest : Text} (opens : opensComment rest) : opensNonCode rest := by
  cases rest with
  | nil => cases opens
  | cons current tail =>
    have opens : (decide (current = Byte.dash) && decide (byteAt tail 0 = Byte.dash) ||
      (decide (current = Byte.slash) && decide (byteAt tail 0 = Byte.star))) = true := opens
    simp [opensNonCode] at opens ⊢
    exact opens.elim (fun line => .inl (.inr line)) .inr

/-- The leading loop of `sqlparser_sqlserver_scanner_next` over the rest of the text. -/
def passTrivia (sql rest : Text) : Trivia :=
  match _blanks : rest.dropWhile isSpace with
  | [] => ⟨[], [], none⟩
  | current :: tail =>
    if _opens : opensComment (current :: tail) then
      let scan := scanNonCodeSpan (current :: tail)
      let item : Item := ⟨offsetOf sql (current :: tail), offsetOf sql scan.behind⟩
      match scan.failure with
      | some message => ⟨[item], scan.behind, some (errorAt sql item.start message)⟩
      | none =>
        let later := passTrivia sql scan.behind
        { later with passed := item :: later.passed }
    else ⟨[], current :: tail, none⟩
termination_by rest.length
decreasing_by
  have shorter := (List.dropWhile_suffix (l := rest) isSpace).length_le
  have behind := (scanNonCodeSpan_suffix (opensNonCode_of_comment _opens)).length_le
  rw [_blanks, List.length_cons] at shorter
  omega

/-- `sqlparser_sqlserver_peek_word`: the next word behind blanks and comments, and what stands behind it. -/
def peekWord (sql rest : Text) : Option (Text × Text) :=
  let trivia := passTrivia sql rest
  if trivia.failure.isSome then none
  else
    match trivia.rest with
    | [] => none
    | byte :: tail =>
      if tokenWordStart byte then some (byte :: tail.takeWhile isIdentChar, tail.dropWhile isIdentChar) else none

/-- `sqlparser_sqlserver_begin_opens_block` -/
def beginOpensBlock (sql rest : Text) : Bool :=
  match peekWord sql rest with
  | none => true
  | some (first, behind) =>
    if spanWordEqual first "tran" || spanWordEqual first "transaction" || spanWordEqual first "dialog" then false
    else
      match peekWord sql behind with
      | none => true
      | some (second, _) =>
        if spanWordEqual first "distributed" &&
            (spanWordEqual second "tran" || spanWordEqual second "transaction") then false
        else if spanWordEqual first "conversation" && spanWordEqual second "timer" then false
        else true

/-- `sqlparser_sqlserver_end_is_conversation` -/
def endIsConversation (sql rest : Text) : Bool :=
  match peekWord sql rest with
  | none => false
  | some (word, _) => spanWordEqual word "conversation"

/-! ## The scanner -/

inductive TokenKind where
  | eof
  | word
  | string
  | quotedIdentifier
  | symbol
  deriving DecidableEq, Repr

structure Token where
  kind : TokenKind
  start : Nat
  stop : Nat
  parenDepth : Nat := 0
  blockDepth : Nat := 0
  caseDepth : Nat := 0
  symbol : UInt8 := 0
  deriving DecidableEq, Repr

/-- `sqlparser_sqlserver_scanner_t`, with the failure behind its status. -/
structure Scanner where
  sql : Text
  pos : Nat
  parenDepth : Nat := 0
  blockDepth : Nat := 0
  caseDepth : Nat := 0
  status : Option Failure := none
  done : Bool := false
  deriving DecidableEq, Repr

/-- `sqlparser_sqlserver_scanner_init` -/
def scannerInit (sql : Text) (start stop : Nat) : Except Error Scanner :=
  if start > stop then .error ⟨.invalidArgument, "SQL Server scanner arguments are invalid"⟩
  else .ok { sql := sql.take stop, pos := start }

/-- One call of the scanner: what it returns, what it leaves, the comments and quoted items that it
passes on the way, and the offset up to which it has read the text. -/
structure Turn where
  result : Except Failure Token
  next : Scanner
  passed : List Item
  reach : Nat

def Scanner.fail (scanner : Scanner) (failure : Failure) (passed : List Item) (reach : Nat) : Turn :=
  ⟨.error failure, { scanner with status := some failure }, passed, reach⟩

def Scanner.eofToken (scanner : Scanner) : Token :=
  { kind := .eof, start := scanner.pos, stop := scanner.pos }

/-- `sqlparser_sqlserver_scanner_finish` -/
def Scanner.finish (scanner : Scanner) (passed : List Item) : Turn :=
  let unterminated := fun message => scanner.fail (errorAt scanner.sql scanner.pos message) passed scanner.sql.length
  if scanner.parenDepth ≠ 0 then unterminated "unterminated SQL Server parenthesized expression"
  else if scanner.caseDepth ≠ 0 then unterminated "unterminated SQL Server CASE expression"
  else if scanner.blockDepth ≠ 0 then unterminated "unterminated SQL Server BEGIN block"
  else ⟨.ok scanner.eofToken, { scanner with done := true }, passed, scanner.sql.length⟩

def Scanner.token (scanner : Scanner) (kind : TokenKind) (stop : Nat) : Token :=
  { kind := kind, start := scanner.pos, stop := stop, parenDepth := scanner.parenDepth
    blockDepth := scanner.blockDepth, caseDepth := scanner.caseDepth }

/-- A string literal or quoted identifier whose opening quote begins the given rest. -/
def Scanner.quotedToken (scanner : Scanner) (kind : TokenKind) (quoted : Text) : Turn :=
  let scan := scanNonCodeSpan quoted
  let item : Item := ⟨offsetOf scanner.sql quoted, offsetOf scanner.sql scan.behind⟩
  match scan.failure with
  | some message => scanner.fail (errorAt scanner.sql item.start message) [item] item.stop
  | none => ⟨.ok (scanner.token kind item.stop), { scanner with pos := item.stop }, [item], item.stop⟩

/-- The word that begins the rest of the text. -/
def Scanner.wordToken (scanner : Scanner) (byte : UInt8) (tail : Text) : Turn :=
  let word := byte :: tail.takeWhile isIdentChar
  let behind := tail.dropWhile isIdentChar
  let stop := offsetOf scanner.sql behind
  let moved := { scanner with pos := stop }
  let finds := fun (next : Scanner) => (⟨.ok (scanner.token .word stop), next, [], stop⟩ : Turn)
  if spanWordEqual word "case" then finds { moved with caseDepth := scanner.caseDepth + 1 }
  else if spanWordEqual word "begin" then
    if beginOpensBlock scanner.sql behind then finds { moved with blockDepth := scanner.blockDepth + 1 }
    else finds moved
  else if spanWordEqual word "end" then
    if scanner.caseDepth > 0 then finds { moved with caseDepth := scanner.caseDepth - 1 }
    else if endIsConversation scanner.sql behind then finds moved
    else if scanner.blockDepth = 0 then
      moved.fail (errorAt scanner.sql scanner.pos "unmatched SQL Server END") [] stop
    else finds { moved with blockDepth := scanner.blockDepth - 1 }
  else finds moved

def Scanner.symbolToken (scanner : Scanner) (byte : UInt8) : Turn :=
  let stop := scanner.pos + 1
  let moved := { scanner with pos := stop }
  let finds := fun (next : Scanner) =>
    (⟨.ok { scanner.token .symbol stop with symbol := byte }, next, [], stop⟩ : Turn)
  if byte = 40 then finds { moved with parenDepth := scanner.parenDepth + 1 }
  else if byte = 41 then
    if scanner.parenDepth = 0 then
      moved.fail (errorAt scanner.sql scanner.pos "unmatched SQL Server closing parenthesis") [] stop
    else finds { moved with parenDepth := scanner.parenDepth - 1 }
  else finds moved

/-- The token that begins the rest of the text, behind blanks and comments. -/
def Scanner.tokenTurn (scanner : Scanner) (byte : UInt8) (tail : Text) : Turn :=
  if (byte = 78 ∨ byte = 110) ∧ byteAt tail 0 = Byte.quote then scanner.quotedToken .string tail
  else if byte = Byte.quote then scanner.quotedToken .string (byte :: tail)
  else if byte = Byte.doubleQuote ∨ byte = Byte.openBracket then
    scanner.quotedToken .quotedIdentifier (byte :: tail)
  else if tokenWordStart byte then scanner.wordToken byte tail
  else scanner.symbolToken byte

/-- The call of the scanner with its account of what it passes. -/
def Scanner.turn (scanner : Scanner) : Turn :=
  match scanner.status with
  | some failure => ⟨.error failure, scanner, [], scanner.pos⟩
  | none =>
    if scanner.done then ⟨.ok scanner.eofToken, scanner, [], scanner.pos⟩
    else
      let trivia := passTrivia scanner.sql (scanner.sql.drop scanner.pos)
      match trivia.failure with
      | some failure => scanner.fail failure trivia.passed (offsetOf scanner.sql trivia.rest)
      | none =>
        let here := { scanner with pos := offsetOf scanner.sql trivia.rest }
        match trivia.rest with
        | [] => here.finish trivia.passed
        | byte :: tail =>
          let turn := here.tokenTurn byte tail
          { turn with passed := trivia.passed ++ turn.passed }

/-- `sqlparser_sqlserver_scanner_next` -/
def scannerNext (scanner : Scanner) : Except Failure Token × Scanner :=
  (scanner.turn.result, scanner.turn.next)

end SqlParser.Sqlserver
