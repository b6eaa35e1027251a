import SqlParser.Core.BindScanner
import SqlParser.Core.NestedComments
import SqlParser.Core.ReturningInto
import SqlParser.Core.SurfaceRecords

/-! # The Oracle preprocessor

`sqlparser_oracle_preprocess_text` rewrites an Oracle text for the PostgreSQL parser: q-quotes,
national literals, placeholders, database links, MINUS, the hierarchy keywords and the INTO of
a RETURNING clause. Memory suffices, and the span proof is not taken.
-/

namespace SqlParser.Oracle

open SqlParser.Core
open SqlParser.Library.Decimal (decimal)

/-! ## State -/

/-- `sqlparser_oracle_dblink_relation_t` -/
structure DblinkRelation where
  parserObjectName : Text
  publicObjectName : Text
  publicLinkName : Text
  publicObjectSql : Text
  publicLinkSql : Text
  deriving DecidableEq, Repr

/-- What the preprocessor reads and writes of `sqlparser_oracle_state_t`. -/
structure OracleState where
  bindNames : List Text := []
  bindOccurrenceCount : Nat := 0
  nationalLiterals : NationalLiterals := {}
  dblinkRelations : List DblinkRelation := []
  nextDblinkId : Nat := 0
  minuses : Minuses := {}
  returningInto : List ReturningIntoItem := []
  deriving DecidableEq, Repr

/-! ## Words and identifiers -/

def isIdentStart (byte : UInt8) : Bool :=
  isAlpha byte || byte = Byte.underscore

def isIdentChar (byte : UInt8) : Bool :=
  isAlnum byte || byte = Byte.underscore || byte = Byte.dollar || byte = Byte.hash

def isWordBoundary (sql : Text) (pos length : Nat) : Bool :=
  !(0 < pos && isIdentChar (byteAt sql (pos - 1))) && !isIdentChar (byteAt sql (pos + length))

/-- `sqlparser_oracle_ascii_word_equal` -/
def asciiWordEqual (sql : Text) (pos : Nat) (word : Text) : Bool :=
  ((sql.drop pos).take word.length).map toLower = word.map toLower && isWordBoundary sql pos word.length

/-- The loop over a quoted item, entered behind the opening quote. -/
def behindCopiedQuote (quote : UInt8) : Text → Text
  | [] => []
  | [_] => []
  | byte :: next :: rest =>
    if byte = quote then
      if next = quote then behindCopiedQuote quote rest else next :: rest
    else behindCopiedQuote quote (next :: rest)

/-- The loop over a quoted identifier, entered behind the opening quote. -/
def behindQuotedToken : Text → Option Text
  | [] => none
  | [byte] => if byte = Byte.doubleQuote then some [] else none
  | byte :: next :: rest =>
    if byte = Byte.doubleQuote then
      if next = Byte.doubleQuote then behindQuotedToken rest else some (next :: rest)
    else behindQuotedToken (next :: rest)

/-- `sqlparser_oracle_identifier_token_end` -/
def identifierTokenEnd (sql : Text) (start : Nat) : Nat :=
  if byteAt sql start = Byte.doubleQuote then
    match behindQuotedToken (sql.drop (start + 1)) with
    | some rest => offsetOf sql rest
    | none => start
  else if !isIdentStart (byteAt sql start) then start
  else runEnd isIdentChar sql (start + 1)

/-- The loop of `sqlparser_oracle_identifier_unquote`, entered behind the opening quote. -/
def unquotedContent : Text → Text
  | [] => []
  | [byte] => if byte = Byte.doubleQuote then [] else [byte]
  | byte :: next :: rest =>
    if byte = Byte.doubleQuote then
      if next = Byte.doubleQuote then Byte.doubleQuote :: unquotedContent rest else []
    else byte :: unquotedContent (next :: rest)

/-- `sqlparser_oracle_identifier_unquote` of an identifier that is not empty. -/
def identifierUnquote (token : Text) : Text :=
  if token.head? = some Byte.doubleQuote then unquotedContent (token.drop 1) else token

/-- `sqlparser_oracle_public_identifier_is_empty` -/
def publicIdentifierIsEmpty (sql : Text) (start stop : Nat) : Bool :=
  start ≥ stop || (byteAt sql start = Byte.doubleQuote && stop = start + 2)

/-! ## Quoted items and comments -/

/-- `sqlparser_oracle_skip_dollar_quoted_span` -/
def skipDollarQuotedSpan (sql : Text) (index : Nat) : Nat :=
  if byteAt sql index ≠ Byte.dollar ∨ (0 < index ∧ isIdentChar (byteAt sql (index - 1))) then index
  else
    let delimiterEnd := runEnd (fun byte => isAlnum byte || byte = Byte.underscore) sql (index + 1)
    if byteAt sql delimiterEnd ≠ Byte.dollar then index
    else
      match behindDelimiter (slice sql index (delimiterEnd + 1)) (sql.drop (delimiterEnd + 1)) with
      | some rest => offsetOf sql rest
      | none => sql.length

/-- The end of what `sqlparser_oracle_copy_quoted_or_comment` copies. -/
def copyQuotedOrComment (sql : Text) (index : Nat) : Nat :=
  let dollarEnd := skipDollarQuotedSpan sql index
  let byte := byteAt sql index
  let next := byteAt sql (index + 1)
  if dollarEnd > index then dollarEnd
  else if byte = Byte.quote ∨ byte = Byte.doubleQuote then offsetOf sql (behindCopiedQuote byte (sql.drop (index + 1)))
  else if byte = Byte.dash ∧ next = Byte.dash then offsetOf sql ((behindLine (sql.drop index)).drop 1)
  else if byte = Byte.slash ∧ next = Byte.star then offsetOf sql (behindFirstClose (sql.drop index))
  else index

def closeDelimiter (opener : UInt8) : UInt8 :=
  if opener = Byte.openBracket then Byte.closeBracket
  else if opener = 123 then 125
  else if opener = 40 then 41
  else if opener = 60 then 62
  else opener

/-- `sqlparser_oracle_q_quote_prefix_len` -/
def qQuotePrefixLength (sql : Text) (index : Nat) : Nat :=
  let isQ := fun (byte : UInt8) => byte = 113 || byte = 81
  let isN := fun (byte : UInt8) => byte = 110 || byte = 78
  if isQ (byteAt sql index) && byteAt sql (index + 1) = Byte.quote then 1
  else if isN (byteAt sql index) && isQ (byteAt sql (index + 1)) && byteAt sql (index + 2) = Byte.quote then 2
  else 0

/-- `sqlparser_oracle_is_n_string_literal` -/
def isNStringLiteral (sql : Text) (index : Nat) : Bool :=
  (byteAt sql index = 110 || byteAt sql index = 78) && byteAt sql (index + 1) = Byte.quote

/-- `sqlparser_oracle_skip_quoted_or_comment_span` -/
def skipQuotedOrCommentSpan (sql : Text) (index : Nat) : Nat :=
  let dollarEnd := skipDollarQuotedSpan sql index
  let prefixLength := qQuotePrefixLength sql index
  let byte := byteAt sql index
  let next := byteAt sql (index + 1)
  if dollarEnd ≠ index then dollarEnd
  else if prefixLength > 0 then
    let opener := byteAt sql (index + prefixLength + 1)
    if opener = 0 then index + prefixLength + 1
    else offsetOf sql (behindQQuote (closeDelimiter opener) (sql.drop (index + prefixLength + 2)))
  else if byte = Byte.quote ∨ byte = Byte.doubleQuote then offsetOf sql (behindCopiedQuote byte (sql.drop (index + 1)))
  else if byte = Byte.dash ∧ next = Byte.dash then offsetOf sql (behindLine (sql.drop (index + 2)))
  else if byte = Byte.slash ∧ next = Byte.star then offsetOf sql (behindFirstClose (sql.drop (index + 2)))
  else index

/-! ## Hierarchy keywords -/

/-- `sqlparser_oracle_skip_hierarchy_trivia` -/
def skipHierarchyTrivia (sql : Text) (pos : Nat) : Nat :=
  let comment := runEnd isSpace sql pos
  if _opens : opensComment sql comment then
    let next := skipQuotedOrCommentSpan sql comment
    if _forward : comment < next then skipHierarchyTrivia sql next else comment
  else comment
termination_by sql.length - pos
decreasing_by
  have inside : comment < sql.length := lt_of_opensComment _opens
  have order : pos ≤ comment := le_runEnd isSpace sql pos
  dsimp +zetaDelta only at *
  omega

/-- `sqlparser_oracle_hierarchy_internal_keyword`: the internal keyword and the length of the source. -/
def hierarchyInternalKeyword (sql : Text) (pos : Nat) : Option (Text × Nat) :=
  if asciiWordEqual sql pos (ascii "connect_by_root") then some (ascii "pg_query_internal_connect_by_root", 15)
  else if asciiWordEqual sql pos (ascii "connect") &&
      asciiWordEqual sql (skipHierarchyTrivia sql (pos + 7)) (ascii "by") then
    some (ascii "pg_query_internal_connect_by", 7)
  else if asciiWordEqual sql pos (ascii "start") &&
      asciiWordEqual sql (skipHierarchyTrivia sql (pos + 5)) (ascii "with") then
    some (ascii "pg_query_internal_start_with", 5)
  else if asciiWordEqual sql pos (ascii "nocycle") then some (ascii "pg_query_internal_nocycle", 7)
  else if asciiWordEqual sql pos (ascii "prior") then some (ascii "pg_query_internal_prior", 5)
  else none

/-! ## Database links -/

/-- A relation with a database link: the spans of its name parts and of its link. -/
structure DatabaseLink where
  parts : List (Nat × Nat)
  objectStart : Nat
  objectStop : Nat
  linkStart : Nat
  linkStop : Nat
  deriving DecidableEq, Repr

def invalidDatabaseLink : Error := ⟨.parseError, "invalid Oracle database link name"⟩

/-- The loop over the parts of a name, at most `budget` of them: the ones before the last, and the last. -/
def databaseLinkParts (sql : Text) : Nat → Nat → Option (List (Nat × Nat) × Nat × Nat)
  | 0, _ => none
  | budget + 1, pos =>
    let identEnd := identifierTokenEnd sql pos
    if identEnd = pos ∨ publicIdentifierIsEmpty sql pos identEnd then none
    else if byteAt sql identEnd = Byte.dot then
      (databaseLinkParts sql budget (identEnd + 1)).map fun (parts, last) => ((pos, identEnd) :: parts, last)
    else some ([], pos, identEnd)

/-- What `sqlparser_oracle_try_copy_database_link_relation` recognises at an offset. -/
def databaseLinkAt (sql : Text) (start : Nat) : Except Error (Option DatabaseLink) :=
  match databaseLinkParts sql 4 start with
  | none => .ok none
  | some (parts, objectStart, objectStop) =>
    if byteAt sql objectStop ≠ Byte.at' then .ok none
    else
      let linkStart := objectStop + 1
      let linkStop := identifierTokenEnd sql linkStart
      if linkStop = linkStart ∨ publicIdentifierIsEmpty sql linkStart linkStop then .error invalidDatabaseLink
      else .ok (some ⟨parts, objectStart, objectStop, linkStart, linkStop⟩)

/-! ## Pieces -/

/-- What a turn of the loop reads. -/
inductive PieceKind where
  | qString (national : Bool) (content : Text)
  | nationalString
  | hierarchyKeyword (internal : Text)
  | databaseLink (link : DatabaseLink)
  | verbatim
  | into
  | returning (clause : ReturningIntoClause)
  | question
  | bind
  | minus
  | except
  | code
  deriving DecidableEq, Repr

structure Piece where
  start : Nat
  stop : Nat
  kind : PieceKind
  deriving DecidableEq, Repr

def unterminatedQString : Error := ⟨.parseError, "unterminated Oracle q-quoted string literal"⟩

/-- The loop over a q-quote, entered behind the opening delimiter: the content and the rest. -/
def copyQBody (close : UInt8) : Text → Option (Text × Text)
  | [] => none
  | byte :: rest =>
    if byte = close ∧ rest.head? = some Byte.quote then some ([], rest.drop 1)
    else (copyQBody close rest).map fun (content, behind) => (byte :: content, behind)

/-- `sqlparser_oracle_copy_q_string_literal` -/
def copyQStringLiteral (sql : Text) (index prefixLength : Nat) : Except Error Piece :=
  let opener := byteAt sql (index + prefixLength + 1)
  if opener = 0 then .error unterminatedQString
  else
    match copyQBody (closeDelimiter opener) (sql.drop (index + prefixLength + 2)) with
    | some (content, behind) => .ok ⟨index, offsetOf sql behind, .qString (prefixLength = 2) content⟩
    | none => .error unterminatedQString

/-- The end of the name of `sqlparser_oracle_copy_bind_placeholder`, if one follows the colon. -/
def bindPlaceholderEnd (sql : Text) (start : Nat) : Option Nat :=
  if isDigit (byteAt sql (start + 1)) then some (runEnd isDigit sql (start + 1))
  else if isIdentStart (byteAt sql (start + 1)) then some (bindOracleNameEnd sql (start + 1))
  else none

/-- The branches of the loop behind those that copy items. -/
def nextCode (sql : Text) (intoStart : Option Nat) (index : Nat) : Piece :=
  let byte := byteAt sql index
  let next := byteAt sql (index + 1)
  if intoStart = some index then ⟨index, index + 4, .into⟩
  else
    match if asciiWordEqual sql index (ascii "returning") then returningIntoClauseAt .oracle sql index false else none with
    | some clause => ⟨index, clause.keywordEnd, .returning clause⟩
    | none =>
      if byte = Byte.question then ⟨index, index + 1, .question⟩
      else if byte = Byte.colon ∧ next ≠ Byte.equals ∧ next ≠ Byte.colon ∧ next ≠ 0 then
        match bindPlaceholderEnd sql index with
        | some stop => ⟨index, stop, .bind⟩
        | none => ⟨index, index + 1, .code⟩
      else if asciiWordEqual sql index (ascii "minus") then ⟨index, index + 5, .minus⟩
      else if asciiWordEqual sql index (ascii "except") then ⟨index, index + 6, .except⟩
      else ⟨index, index + 1, .code⟩

/-- What a turn of the loop of `sqlparser_oracle_preprocess_text` reads at an offset; `intoStart` is the
offset of the INTO of the RETURNING clause that the loop is in. -/
def nextPiece (sql : Text) (intoStart : Option Nat) (index : Nat) : Except Error Piece :=
  let byte := byteAt sql index
  let prefixLength := qQuotePrefixLength sql index
  if prefixLength > 0 then copyQStringLiteral sql index prefixLength
  else if isNStringLiteral sql index then .ok ⟨index, copyQuotedOrComment sql (index + 1), .nationalString⟩
  else
    match if isIdentStart byte then hierarchyInternalKeyword sql index else none with
    | some (internal, length) => .ok ⟨index, index + length, .hierarchyKeyword internal⟩
    | none =>
      match if isIdentStart byte || byte = Byte.doubleQuote then databaseLinkAt sql index else .ok none with
      | .error error => .error error
      | .ok (some link) => .ok ⟨index, link.linkStop, .databaseLink link⟩
      | .ok none =>
        let copied := copyQuotedOrComment sql index
        if copied > index then .ok ⟨index, copied, .verbatim⟩ else .ok (nextCode sql intoStart index)

/-- The offset of the INTO that the loop remembers behind a piece. -/
def intoBehind (intoStart : Option Nat) (piece : Piece) : Option Nat :=
  match piece.kind with
  | .into => none
  | .returning clause => some clause.intoStart
  | _ => intoStart

/-! ## What a turn writes -/

/-- `sqlparser_oracle_append_pg_string_char`, over the content of a literal. -/
def pgStringContent (content : Text) : Text :=
  content.flatMap fun byte => if byte = Byte.quote then [Byte.quote, Byte.quote] else [byte]

/-- `sqlparser_oracle_store_national_literal`, and the literal counted. -/
def storeNationalLiteral (state : OracleState) (literal : Text) : OracleState :=
  { state with
    nationalLiterals :=
      { state.nationalLiterals.append literal state.nationalLiterals.literalCount with
        literalCount := state.nationalLiterals.literalCount + 1 } }

def countLiteral (state : OracleState) : OracleState :=
  { state with
    nationalLiterals := { state.nationalLiterals with literalCount := state.nationalLiterals.literalCount + 1 } }

/-- `sqlparser_oracle_state_find_or_add_bind`: the names and the number of the bind. -/
def findOrAddBind (names : List Text) (name : Text) : List Text × Nat :=
  match names.findIdx? (· = name) with
  | some index => (names, index + 1)
  | none => (names ++ [name], names.length + 1)

/-- `sqlparser_oracle_append_pg_param` -/
def pgParam (number : Nat) : Text :=
  Byte.dollar :: decimal number

def markerRangeExhausted : Error := ⟨.resourceLimit, "database link marker range is exhausted"⟩

def databaseLinkMarker (id : Nat) : Text :=
  ascii "sqlparser_oracle_dblink_" ++ decimal id

/-- The number of a placeholder and the names behind it. -/
def placeholderNumber (sql : Text) (names : List Text) (piece : Piece) : List Text × Nat :=
  match piece.kind with
  | .question => (names ++ [[Byte.question]], names.length + 1)
  | _ => findOrAddBind names (slice sql piece.start piece.stop)

/-- What a turn of the loop writes to the state and to the output. -/
def finishPiece (sql : Text) (state : OracleState) (piece : Piece) : Except Error (OracleState × Text) :=
  let source := slice sql piece.start piece.stop
  match piece.kind with
  | .qString national content =>
    let literal := Byte.quote :: (pgStringContent content ++ [Byte.quote])
    .ok (if national then storeNationalLiteral state literal else countLiteral state, literal)
  | .nationalString => .ok (storeNationalLiteral state (source.drop 1), source.drop 1)
  | .hierarchyKeyword internal => .ok (state, internal)
  | .databaseLink link =>
    if state.nextDblinkId = sizeMax then .error markerRangeExhausted
    else
      let id := state.nextDblinkId + 1
      let objectSql := slice sql link.objectStart link.objectStop
      let linkSql := slice sql link.linkStart link.linkStop
      .ok
        ({ state with
          nextDblinkId := id
          dblinkRelations := state.dblinkRelations ++
            [⟨databaseLinkMarker id, identifierUnquote objectSql, identifierUnquote linkSql, objectSql, linkSql⟩] },
          slice sql piece.start link.objectStart ++ databaseLinkMarker id)
  | .verbatim =>
    let first := byteAt sql piece.start
    .ok (if first = Byte.quote ∨ first = Byte.dollar then countLiteral state else state, source)
  | .into => .ok (state, ascii ",   ")
  | .returning clause =>
    (returningIntoStateAppend state.returningInto clause.statementIndex source (sql.drop clause.intoStart)
      clause.pairCount).map fun items => ({ state with returningInto := items }, source)
  | .question | .bind =>
    let (names, number) := placeholderNumber sql state.bindNames piece
    .ok ({ state with bindNames := names, bindOccurrenceCount := state.bindOccurrenceCount + 1 }, pgParam number)
  | .minus =>
    let minuses := state.minuses.append state.minuses.exceptCount
    .ok ({ state with minuses := { minuses with exceptCount := minuses.exceptCount + 1 } }, ascii "EXCEPT")
  | .except =>
    .ok ({ state with minuses := { state.minuses with exceptCount := state.minuses.exceptCount + 1 } }, source)
  | .code => .ok (state, source)

/-! ## What a piece is -/

/-- Neither a quoted item nor a comment nor a prefixed literal begins at the offset. -/
structure PlainAt (sql : Text) (index : Nat) : Prop where
  noPrefix : qQuotePrefixLength sql index = 0
  notNational : isNStringLiteral sql index = false
  notCopied : copyQuotedOrComment sql index ≤ index

/-- The pieces that a turn of the loop reads, with what it has tested. -/
inductive Reads (sql : Text) (intoStart : Option Nat) (index : Nat) : Piece → Prop where
  | qString {prefixLength : Nat} {content behind : Text} (prefixed : qQuotePrefixLength sql index = prefixLength)
      (positive : 0 < prefixLength) (opens : byteAt sql (index + prefixLength + 1) ≠ 0)
      (copied : copyQBody (closeDelimiter (byteAt sql (index + prefixLength + 1)))
        (sql.drop (index + prefixLength + 2)) = some (content, behind)) :
    Reads sql intoStart index ⟨index, offsetOf sql behind, .qString (prefixLength = 2) content⟩
  | nationalString (noPrefix : qQuotePrefixLength sql index = 0) (national : isNStringLiteral sql index) :
    Reads sql intoStart index ⟨index, copyQuotedOrComment sql (index + 1), .nationalString⟩
  | hierarchyKeyword {internal : Text} {length : Nat} (found : hierarchyInternalKeyword sql index = some (internal, length)) :
    Reads sql intoStart index ⟨index, index + length, .hierarchyKeyword internal⟩
  | databaseLink {link : DatabaseLink} (found : databaseLinkAt sql index = .ok (some link)) :
    Reads sql intoStart index ⟨index, link.linkStop, .databaseLink link⟩
  | verbatim (noPrefix : qQuotePrefixLength sql index = 0) (notNational : isNStringLiteral sql index = false)
      (copied : copyQuotedOrComment sql index > index) :
    Reads sql intoStart index ⟨index, copyQuotedOrComment sql index, .verbatim⟩
  | into (here : intoStart = some index) : Reads sql intoStart index ⟨index, index + 4, .into⟩
  | returning {clause : ReturningIntoClause} (found : returningIntoClauseAt .oracle sql index false = some clause) :
    Reads sql intoStart index ⟨index, clause.keywordEnd, .returning clause⟩
  | question (first : byteAt sql index = Byte.question) : Reads sql intoStart index ⟨index, index + 1, .question⟩
  | bind {stop : Nat} (first : byteAt sql index = Byte.colon) (found : bindPlaceholderEnd sql index = some stop) :
    Reads sql intoStart index ⟨index, stop, .bind⟩
  | minus (found : asciiWordEqual sql index (ascii "minus")) : Reads sql intoStart index ⟨index, index + 5, .minus⟩
  | except (found : asciiWordEqual sql index (ascii "except")) : Reads sql intoStart index ⟨index, index + 6, .except⟩
  | code (plain : PlainAt sql index) (notQuestion : byteAt sql index ≠ Byte.question)
      (notBind : byteAt sql index = Byte.colon → byteAt sql (index + 1) = Byte.equals ∨
        byteAt sql (index + 1) = Byte.colon ∨ byteAt sql (index + 1) = 0 ∨ bindPlaceholderEnd sql index = none) :
    Reads sql intoStart index ⟨index, index + 1, .code⟩

theorem nextCode_reads {sql : Text} {intoStart : Option Nat} {index : Nat} (plain : PlainAt sql index) :
    Reads sql intoStart index (nextCode sql intoStart index) := by
  simp only [nextCode]
  split
  next here => exact .into here
  next =>
    split
    next clause found =>
      split at found
      next => exact .returning found
      next => cases found
    next =>
      split
      next question => exact .question question
      next notQuestion =>
        split
        next colon =>
          split
          next stop found => exact .bind colon.1 found
          next none_found => exact .code plain notQuestion fun _ => .inr (.inr (.inr none_found))
        next noColon =>
          split
          next minus => exact .minus minus
          next =>
            split
            next except => exact .except except
            next =>
              refine .code plain notQuestion fun colon => ?_
              by_contra other
              simp only [not_or] at other
              exact noColon ⟨colon, other.1, other.2.1, other.2.2.1⟩

theorem nextPiece_reads {sql : Text} {intoStart : Option Nat} {index : Nat} {piece : Piece}
    (read : nextPiece sql intoStart index = .ok piece) : Reads sql intoStart index piece := by
  simp only [nextPiece] at read
  split at read
  next prefixed =>
    rw [copyQStringLiteral] at read
    split at read
    next => cases read
    next opens =>
      split at read
      next content behind copied =>
        cases read
        exact .qString rfl prefixed opens copied
      next => cases read
  next unprefixed =>
    have noPrefix : qQuotePrefixLength sql index = 0 := Nat.eq_zero_of_not_pos unprefixed
    split at read
    next national =>
      cases read
      exact .nationalString noPrefix national
    next notNational =>
      split at read
      next internal length found =>
        cases read
        split at found
        next => exact .hierarchyKeyword found
        next => cases found
      next =>
        split at read
        next => cases read
        next link found =>
          cases read
          split at found
          next => exact .databaseLink found
          next => cases found
        next =>
          split at read
          next copied =>
            cases read
            exact .verbatim noPrefix (by simpa using notNational) copied
          next notCopied =>
            cases read
            exact nextCode_reads ⟨noPrefix, by simpa using notNational, Nat.le_of_not_lt notCopied⟩

/-! ## Bounds -/

section bounds

variable {sql : Text} {index : Nat}

theorem asciiWordEqual_length {word : Text} (found : asciiWordEqual sql index word) (present : word ≠ []) :
    index + word.length ≤ sql.length := by
  simp only [asciiWordEqual, Bool.and_eq_true, decide_eq_true_eq] at found
  have lengths := congrArg List.length found.1
  have positive := List.length_pos_iff.mpr present
  simp only [List.length_map, List.length_take, List.length_drop] at lengths
  omega

theorem behindCopiedQuote_suffix (quote : UInt8) (rest : Text) : behindCopiedQuote quote rest <:+ rest := by
  fun_induction behindCopiedQuote quote rest with
  | case1 | case2 => exact List.nil_suffix
  | case3 rest inductionHypothesis =>
    exact inductionHypothesis.trans ((List.suffix_cons _ rest).trans (List.suffix_cons _ _))
  | case4 next rest => exact List.suffix_cons _ _
  | case5 byte next rest _ inductionHypothesis => exact inductionHypothesis.trans (List.suffix_cons _ _)

theorem behindQuotedToken_suffix {rest behind : Text} (found : behindQuotedToken rest = some behind) : behind <:+ rest := by
  fun_induction behindQuotedToken rest with
  | case1 => cases found
  | case2 =>
    cases found
    exact List.nil_suffix
  | case3 => cases found
  | case4 rest inductionHypothesis =>
    exact (inductionHypothesis found).trans ((List.suffix_cons _ rest).trans (List.suffix_cons _ _))
  | case5 next rest =>
    cases found
    exact List.suffix_cons _ _
  | case6 byte next rest _ inductionHypothesis => exact (inductionHypothesis found).trans (List.suffix_cons _ _)

theorem identifierTokenEnd_bounds (inside : index ≤ sql.length) :
    index ≤ identifierTokenEnd sql index ∧ identifierTokenEnd sql index ≤ sql.length := by
  unfold identifierTokenEnd
  split
  next =>
    split
    next rest found => exact offsetOf_later inside (Nat.le_succ index) (behindQuotedToken_suffix found)
    next => exact ⟨le_rfl, inside⟩
  next =>
    split
    next => exact ⟨le_rfl, inside⟩
    next starts =>
      have inside' : index < sql.length := by
        apply lt_of_byteAt
        intro zero
        rw [zero] at starts
        exact starts rfl
      exact ⟨(Nat.le_succ index).trans (le_runEnd _ _ _), runEnd_le _ inside'⟩

theorem skipDollarQuotedSpan_bounds (inside : index ≤ sql.length) :
    index ≤ skipDollarQuotedSpan sql index ∧ skipDollarQuotedSpan sql index ≤ sql.length := by
  simp only [skipDollarQuotedSpan]
  split
  next => exact ⟨le_rfl, inside⟩
  next =>
    split
    next => exact ⟨le_rfl, inside⟩
    next =>
      split
      next rest found =>
        refine offsetOf_later inside ?_ (behindDelimiter_suffix found)
        have := le_runEnd (fun byte => isAlnum byte || byte = Byte.underscore) sql (index + 1)
        omega
      next => exact ⟨inside, le_rfl⟩

theorem copyQuotedOrComment_bounds (inside : index ≤ sql.length) :
    index ≤ copyQuotedOrComment sql index ∧ copyQuotedOrComment sql index ≤ sql.length := by
  have dollar := @skipDollarQuotedSpan_bounds sql index inside
  simp only [copyQuotedOrComment]
  split_ifs
  · exact dollar
  · exact offsetOf_later inside (Nat.le_succ index) (behindCopiedQuote_suffix _ _)
  · exact offsetOf_later inside le_rfl ((List.drop_suffix 1 _).trans (untilStop_suffix _ _))
  · exact offsetOf_later inside le_rfl (behindFirstClose_suffix _)
  · exact ⟨le_rfl, inside⟩

theorem databaseLinkParts_bounds {budget : Nat} {parts : List (Nat × Nat)} {objectStart objectStop : Nat}
    (found : databaseLinkParts sql budget index = some (parts, objectStart, objectStop)) (inside : index ≤ sql.length) :
    index < objectStop ∧ objectStop ≤ sql.length := by
  induction budget generalizing index parts with
  | zero => cases found
  | succ budget inductionHypothesis =>
    have bounds := @identifierTokenEnd_bounds sql index inside
    simp only [databaseLinkParts] at found
    split at found
    next => cases found
    next named =>
      have apart : identifierTokenEnd sql index ≠ index := fun same => named (.inl same)
      split at found
      next dot =>
        obtain ⟨⟨parts', last⟩, found', same⟩ := Option.map_eq_some_iff.mp found
        cases same
        have dotInside := lt_of_byteAt (dot.trans_ne (by decide))
        have := inductionHypothesis found' dotInside
        omega
      next =>
        cases found
        omega

theorem databaseLinkAt_bounds {link : DatabaseLink} (found : databaseLinkAt sql index = .ok (some link))
    (inside : index ≤ sql.length) : index < link.linkStop ∧ link.linkStop ≤ sql.length := by
  rw [databaseLinkAt] at found
  split at found
  next => cases found
  next parts objectStart objectStop named =>
    have object := databaseLinkParts_bounds named inside
    split at found
    next => cases found
    next at' =>
      have atInside : objectStop < sql.length := lt_of_byteAt ((Decidable.not_not.mp at').trans_ne (by decide))
      have bounds := @identifierTokenEnd_bounds sql (objectStop + 1) atInside
      simp only at found
      split at found
      next => cases found
      next named' =>
        cases found
        dsimp only
        omega

theorem bindPlaceholderEnd_bounds {stop : Nat} (found : bindPlaceholderEnd sql index = some stop) :
    index < stop ∧ stop ≤ sql.length := by
  rw [bindPlaceholderEnd] at found
  split at found
  next digit =>
    cases found
    have inside : index + 1 < sql.length := by
      apply lt_of_byteAt
      intro zero
      rw [zero] at digit
      cases digit
    exact ⟨le_runEnd _ _ _, runEnd_le _ inside.le⟩
  next =>
    split at found
    next name =>
      cases found
      have inside : index + 1 < sql.length := lt_of_byteAt (bindOracleNameStart_ne_zero name)
      have bounds := bindOracleNameEnd_bounds inside
      omega
    next => cases found

theorem copyQBody_suffix {close : UInt8} {rest content behind : Text} (copied : copyQBody close rest = some (content, behind)) :
    behind <:+ rest := by
  induction rest generalizing content with
  | nil => cases copied
  | cons byte rest inductionHypothesis =>
    rw [copyQBody] at copied
    split at copied
    next =>
      cases copied
      exact (List.drop_suffix 1 rest).trans (List.suffix_cons byte rest)
    next =>
      obtain ⟨⟨content', behind'⟩, copied', same⟩ := Option.map_eq_some_iff.mp copied
      cases same
      exact (inductionHypothesis copied').trans (List.suffix_cons byte rest)

/-- The INTO that the loop remembers lies in the text. -/
def IntoFits (sql : Text) (intoStart : Option Nat) : Prop :=
  ∀ start, intoStart = some start → ((sql.drop start).take 4).map toLower = ascii "into"

theorem IntoFits.length {intoStart : Option Nat} (fits : IntoFits sql intoStart) {start : Nat} (here : intoStart = some start) :
    start + 4 ≤ sql.length := by
  have lengths := congrArg List.length (fits start here)
  have four : (ascii "into").length = 4 := rfl
  simp only [List.length_map, List.length_take, List.length_drop, four] at lengths
  omega

theorem hierarchyInternalKeyword_length {internal : Text} {length : Nat}
    (found : hierarchyInternalKeyword sql index = some (internal, length)) : 0 < length ∧ index + length ≤ sql.length := by
  have fits {word : Text} (isWord : asciiWordEqual sql index word) (present : word ≠ []) := asciiWordEqual_length isWord present
  unfold hierarchyInternalKeyword at found
  split_ifs at found with root connect start nocycle prior
  all_goals
    obtain ⟨rfl, rfl⟩ := Prod.mk.inj (Option.some.inj found)
    refine ⟨by decide, ?_⟩
  · exact fits root (by decide)
  · exact fits (Bool.and_eq_true_iff.mp connect).1 (by decide)
  · exact fits (Bool.and_eq_true_iff.mp start).1 (by decide)
  · exact fits nocycle (by decide)
  · exact fits prior (by decide)

theorem Reads.start_eq {intoStart : Option Nat} {piece : Piece} (reads : Reads sql intoStart index piece) :
    piece.start = index := by
  cases reads <;> rfl

/-- A piece takes a byte at least, and ends in the text. -/
theorem Reads.bounds {intoStart : Option Nat} {piece : Piece} (reads : Reads sql intoStart index piece)
    (inside : index < sql.length) :
    index < piece.stop ∧ (IntoFits sql intoStart → piece.stop ≤ sql.length) := by
  cases reads with
  | qString prefixed positive opens copied =>
    have bound := lt_of_byteAt opens
    have bounds := offsetOf_later bound (by omega) (copyQBody_suffix copied)
    exact ⟨by dsimp only; omega, fun _ => bounds.2⟩
  | nationalString noPrefix national =>
    have bounds := @copyQuotedOrComment_bounds sql (index + 1) inside
    exact ⟨bounds.1, fun _ => bounds.2⟩
  | hierarchyKeyword found =>
    have bounds := hierarchyInternalKeyword_length found
    exact ⟨Nat.lt_add_of_pos_right bounds.1, fun _ => bounds.2⟩
  | databaseLink found =>
    have bounds := databaseLinkAt_bounds found inside.le
    exact ⟨bounds.1, fun _ => bounds.2⟩
  | verbatim noPrefix notNational copied => exact ⟨copied, fun _ => (copyQuotedOrComment_bounds inside.le).2⟩
  | into here => exact ⟨Nat.lt_add_of_pos_right (by decide), fun fits => fits.length here⟩
  | returning found =>
    obtain ⟨keywordEnd, -, order, word⟩ := returningIntoClauseAt_some found
    have lengths := congrArg List.length word
    have four : (ascii "into").length = 4 := rfl
    simp only [List.length_map, List.length_take, List.length_drop, four] at lengths
    exact ⟨by dsimp only; omega, fun _ => by dsimp only; omega⟩
  | question | code => exact ⟨Nat.lt_succ_self index, fun _ => inside⟩
  | bind first found =>
    have bounds := bindPlaceholderEnd_bounds found
    exact ⟨bounds.1, fun _ => bounds.2⟩
  | minus found =>
    have : index + 5 ≤ sql.length := asciiWordEqual_length found (by decide)
    exact ⟨Nat.lt_add_of_pos_right (by decide), fun _ => this⟩
  | except found =>
    have : index + 6 ≤ sql.length := asciiWordEqual_length found (by decide)
    exact ⟨Nat.lt_add_of_pos_right (by decide), fun _ => this⟩

theorem IntoFits.behind {intoStart : Option Nat} {piece : Piece} (fits : IntoFits sql intoStart)
    (reads : Reads sql intoStart index piece) : IntoFits sql (intoBehind intoStart piece) := by
  cases reads with
  | into here => exact fun _ remembered => nomatch remembered
  | returning found =>
    rintro start remembered
    cases remembered
    exact (returningIntoClauseAt_some found).2.2.2
  | _ => exact fits

end bounds

/-! ## The loop -/

/-- The loop of `sqlparser_oracle_preprocess_text` from an offset on. -/
def preprocessLoop (sql : Text) (intoStart : Option Nat) (index : Nat) (state : OracleState) (out : Text) :
    Except Error (OracleState × Text) :=
  if inside : index < sql.length then
    match read : nextPiece sql intoStart index with
    | .error error => .error error
    | .ok piece =>
      match finishPiece sql state piece with
      | .error error => .error error
      | .ok (finished, written) =>
        preprocessLoop sql (intoBehind intoStart piece) piece.stop finished (out ++ written)
  else .ok (state, out)
termination_by sql.length - index
decreasing_by
  have forward := ((nextPiece_reads read).bounds inside).1
  omega

/-- `sqlparser_oracle_preprocess_text` -/
def preprocessText (sql : Text) (state : OracleState) : Except Error (OracleState × Text) :=
  preprocessLoop sql none 0 state []

/-- The pieces that the loop reads from an offset on. -/
def piecesFrom (sql : Text) (intoStart : Option Nat) (index : Nat) : Except Error (List Piece) :=
  if inside : index < sql.length then
    match read : nextPiece sql intoStart index with
    | .error error => .error error
    | .ok piece => (piecesFrom sql (intoBehind intoStart piece) piece.stop).map (piece :: ·)
  else .ok []
termination_by sql.length - index
decreasing_by
  have forward := ((nextPiece_reads read).bounds inside).1
  omega

/-- The pieces of a text that is accepted. -/
def pieces (sql : Text) : List Piece :=
  match piecesFrom sql none 0 with
  | .ok pieces => pieces
  | .error _ => []

/-- What the turns over some pieces write, piece by piece. -/
def finishPieces (sql : Text) : List Piece → OracleState → Except Error (OracleState × List Text)
  | [], state => .ok (state, [])
  | piece :: others, state =>
    match finishPiece sql state piece with
    | .error error => .error error
    | .ok (finished, written) =>
      (finishPieces sql others finished).map fun (last, rest) => (last, written :: rest)

/-- A text that the loop accepts is read as pieces, which it then finishes in order. -/
theorem preprocessLoop_pieces {sql output out : Text} {intoStart : Option Nat} {index : Nat} {state last : OracleState}
    (accepted : preprocessLoop sql intoStart index state out = .ok (last, output)) :
    ∃ read writes, piecesFrom sql intoStart index = .ok read ∧ finishPieces sql read state = .ok (last, writes) ∧
      output = out ++ writes.flatten := by
  fun_induction preprocessLoop sql intoStart index state out with
  | case1 => cases accepted
  | case2 => cases accepted
  | case3 intoStart index state out inside piece read finished written finishes inductionHypothesis =>
    obtain ⟨others, writes, readOthers, finishOthers, same⟩ := inductionHypothesis accepted
    refine ⟨piece :: others, written :: writes, ?_, ?_, ?_⟩
    · rw [piecesFrom, dif_pos inside]
      split
      next fails => rw [read] at fails; cases fails
      next taken =>
        rw [read] at taken
        cases taken
        rw [readOthers]
        rfl
    · rw [finishPieces, finishes]
      simp only [finishOthers]
      rfl
    · rw [same, List.flatten_cons, List.append_assoc]
  | case4 intoStart index state out outside =>
    cases accepted
    exact ⟨[], [], by rw [piecesFrom, dif_neg outside], rfl, by simp⟩

end SqlParser.Oracle
