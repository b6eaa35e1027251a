import SqlParser.Core.Bytes
import SqlParser.Library.UniqueMatch

/-! # Semantic comments

Optimizer hints and executable comments stand in comments that the deparser drops. They are put back
between the tokens of its text: in front of the token that they stood in front of, as far as that
token can be told apart.
-/

namespace SqlParser.Core.Semantic

open SqlParser.Library.UniqueMatch

/-! ## Tokens -/

/-- `PgQuery__ScanToken` -/
structure ScanToken where
  start : Int
  stop : Int
  token : Nat
  keywordKind : Nat
  deriving DecidableEq, Repr

/-- `PG_QUERY__TOKEN__SQL_COMMENT` -/
def sqlCommentToken : Nat := 275

/-- `PG_QUERY__TOKEN__C_COMMENT` -/
def cCommentToken : Nat := 276

/-- `PG_QUERY__KEYWORD_KIND__NO_KEYWORD` -/
def noKeyword : Nat := 0

/-- `sqlparser_scan_token_span` -/
def scanTokenSpan (token : ScanToken) (length : Nat) : Option (Nat × Nat) :=
  if token.start < 0 ∨ token.stop < token.start ∨ token.stop.toNat > length then none
  else some (token.start.toNat, token.stop.toNat)

/-- `sqlparser_scan_token_is_comment` -/
def scanTokenIsComment (token : ScanToken) : Bool :=
  token.token = sqlCommentToken || token.token = cCommentToken

def plus : UInt8 := 43

/-- `sqlparser_sql_has_semantic_comment_marker` -/
def hasSemanticCommentMarker : Text → Bool
  | first :: second :: third :: rest =>
    (first = Byte.slash && second = Byte.star && (third = plus || third = Byte.bang)) ||
      (first = Byte.dash && second = Byte.dash && third = plus) ||
      hasSemanticCommentMarker (second :: third :: rest)
  | _ => false

/-- `sqlparser_scan_token_is_semantic_comment`: the span of the comment. -/
def semanticComment (sql : Text) (token : ScanToken) : Option (Nat × Nat) :=
  if scanTokenIsComment token then
    (scanTokenSpan token sql.length).filter fun (start, stop) =>
      stop - start ≥ 3 &&
        if token.token = cCommentToken then
          byteAt sql start = Byte.slash && byteAt sql (start + 1) = Byte.star &&
            (byteAt sql (start + 2) = plus || byteAt sql (start + 2) = Byte.bang)
        else byteAt sql start = Byte.dash && byteAt sql (start + 1) = Byte.dash && byteAt sql (start + 2) = plus
  else none

/-- `sqlparser_ascii_word_byte` -/
def asciiWordByte (first : Bool) (byte : UInt8) : Bool :=
  isAlpha byte || byte = Byte.underscore || !first && (isDigit byte || byte = Byte.dollar)

/-- `sqlparser_scan_token_is_ascii_word` of the bytes of a token. -/
def isAsciiWord : Text → Bool
  | first :: rest => asciiWordByte true first && rest.all (asciiWordByte false)
  | [] => false

/-- `sqlparser_semantic_token_t` -/
structure SemanticToken where
  token : Nat
  keywordKind : Nat
  word : Text
  start : Nat
  stop : Nat
  ordinal : Nat
  deriving DecidableEq, Repr

/-- `sqlparser_semantic_token_compare_value` -/
def compareTokens (left right : SemanticToken) : Ordering :=
  (compare left.token right.token).then <|
    (compare left.keywordKind right.keywordKind).then <|
      if left.keywordKind ≠ noKeyword then .eq
      else
        (compare left.word.length right.word.length).then <|
          (compare (isAsciiWord left.word) (isAsciiWord right.word)).then <|
            if isAsciiWord left.word then compare (left.word.map toLower) (right.word.map toLower)
            else compare left.word right.word

/-- `sqlparser_semantic_gap_t` -/
structure SemanticGap where
  previous : SemanticToken
  next : SemanticToken
  gap : Nat
  deriving DecidableEq, Repr

/-- `sqlparser_semantic_gap_compare_value` -/
def compareGaps (left right : SemanticGap) : Ordering :=
  (compareTokens left.previous right.previous).then (compareTokens left.next right.next)

/-- The loop of `sqlparser_collect_semantic_tokens` behind some tokens. -/
def collectTokens (sql : Text) (ordinal : Nat) : List ScanToken → Option (List SemanticToken)
  | [] => some []
  | token :: rest =>
    if scanTokenIsComment token then collectTokens sql ordinal rest
    else
      match scanTokenSpan token sql.length, collectTokens sql (ordinal + 1) rest with
      | some (start, stop), some tokens =>
        some (⟨token.token, token.keywordKind, slice sql start stop, start, stop, ordinal⟩ :: tokens)
      | _, _ => none

/-! ## Comments -/

/-- A semantic comment of the source, and the number of tokens in front of it. -/
structure SourceComment where
  start : Nat
  stop : Nat
  gap : Nat
  deriving DecidableEq, Repr

/-- The semantic comments behind some tokens of the source. -/
def collectComments (sql : Text) (gap : Nat) : List ScanToken → List SourceComment
  | [] => []
  | token :: rest =>
    ((semanticComment sql token).map fun (start, stop) => ⟨start, stop, gap⟩).toList ++
      collectComments sql (if scanTokenIsComment token then gap else gap + 1) rest

/-- How many tokens two texts begin with alike. -/
def commonPrefix : List SemanticToken → List SemanticToken → Nat
  | source :: sources, output :: outputs => if compareTokens source output = .eq then commonPrefix sources outputs + 1 else 0
  | _, _ => 0

/-- How many tokens two texts end with alike, behind those with which they begin alike. -/
def commonSuffix (front : Nat) (source output : List SemanticToken) : Nat :=
  commonPrefix (source.drop front).reverse (output.drop front).reverse

/-- The gaps between the tokens from one gap to another. -/
def gapsBetween (tokens : List SemanticToken) (first last : Nat) : List SemanticGap :=
  (List.range' first (last + 1 - first)).filterMap fun gap =>
    match tokens[gap - 1]?, tokens[gap]? with
    | some previous, some next => some ⟨previous, next, gap⟩
    | _, _ => none

/-- The sorts that `qsort` makes of the tokens and of the gaps. -/
structure SemanticSort where
  tokens : List SemanticToken → List SemanticToken
  gaps : List SemanticGap → List SemanticGap

/-- The tokens of the source and of the output, with what they have in common. -/
structure Alignment where
  source : List SemanticToken
  output : List SemanticToken
  front : Nat
  back : Nat
  deriving DecidableEq, Repr

def align (source output : List SemanticToken) : Alignment :=
  ⟨source, output, commonPrefix source output, commonSuffix (commonPrefix source output) source output⟩

/-- `output_middle_end` -/
def Alignment.middleEnd (alignment : Alignment) : Nat :=
  alignment.output.length - alignment.back

/-- The tokens between the common ones. -/
def Alignment.middle (alignment : Alignment) : List SemanticToken :=
  (alignment.output.take alignment.middleEnd).drop alignment.front

/-- The gaps at which the text may differ. -/
def Alignment.gaps (alignment : Alignment) : List SemanticGap :=
  if alignment.output.length > 1 then
    gapsBetween alignment.output (if alignment.front > 0 then alignment.front else 1)
      (if alignment.middleEnd < alignment.output.length then alignment.middleEnd else alignment.output.length - 1)
  else []

/-- The gap of the output into which a comment goes; `none` where it is ambiguous. -/
def outputGap (qsort : SemanticSort) (alignment : Alignment) (gap : Nat) : Option Nat :=
  if gap ≤ alignment.front then some gap
  else if gap ≥ alignment.source.length - alignment.back then
    some (alignment.output.length - (alignment.source.length - gap))
  else
    match alignment.source[gap - 1]?, alignment.source[gap]? with
    | some previous, some anchor =>
      ((search (compareGaps · ⟨previous, anchor, gap⟩) (qsort.gaps alignment.gaps)).map SemanticGap.gap) <|>
        ((search (compareTokens · anchor) (qsort.tokens alignment.middle)).map SemanticToken.ordinal) <|>
        ((search (compareTokens · previous) (qsort.tokens alignment.middle)).map fun token => token.ordinal + 1)
    | _, _ => none

/-- A comment with its place in the output. -/
structure PlacedComment where
  text : Text
  lineBreak : Text
  gap : Nat
  position : Nat
  hasPrevious : Bool
  hasNext : Bool
  deriving DecidableEq, Repr

/-- `sqlparser_semantic_gap_position` -/
def gapPosition (output : List SemanticToken) (length gap : Nat) : Option (Nat × Bool × Bool) :=
  if gap > output.length then none
  else
    let position := ((output[gap]?).map SemanticToken.start).getD ((output.getLast?.map SemanticToken.stop).getD 0)
    if position > length then none else some (position, gap > 0, gap < output.length)

/-- The line break of the source behind a line comment, or a line feed. -/
def lineBreakAt (source : Text) (stop : Nat) : Text :=
  if byteAt source stop = Byte.carriageReturn then
    if byteAt source (stop + 1) = Byte.lineFeed then [Byte.carriageReturn, Byte.lineFeed] else [Byte.carriageReturn]
  else [Byte.lineFeed]

def internalError (message : String) : Error := ⟨.internalError, message⟩

/-- The loop that places the comments, behind the gap and the position of the last one. -/
def placeComments (qsort : SemanticSort) (alignment : Alignment) (source : Text) (length : Nat) :
    Nat → Nat → List SourceComment → Except Error (List PlacedComment)
  | _, _, [] => .ok []
  | lastGap, lastPosition, comment :: comments =>
    match outputGap qsort alignment comment.gap with
    | none => .error (internalError "semantic comment position is ambiguous after patch")
    | some gap =>
      if gap < lastGap then .error (internalError "semantic comment order changed during deparse")
      else
        match gapPosition alignment.output length gap with
        | none => .error (internalError "semantic comment output position is invalid")
        | some (position, hasPrevious, hasNext) =>
          if position < lastPosition then .error (internalError "semantic comment position changed during deparse")
          else
            (placeComments qsort alignment source length gap position comments).map
              (⟨slice source comment.start comment.stop, lineBreakAt source comment.stop, gap, position, hasPrevious, hasNext⟩ :: ·)

/-! ## The text -/

def isLineComment (comment : Text) : Bool :=
  comment.head? = some Byte.dash

/-- What is written in front of a comment at the end of the text. -/
def spaceBefore (restored : Text) (comment : PlacedComment) : Text :=
  if !comment.hasNext && comment.hasPrevious && restored.getLast?.any (fun byte => !isSpace byte) then [Byte.space] else []

/-- What is written between a comment and the token behind it. -/
def spaceBehind (comment : PlacedComment) : Text :=
  if comment.hasNext then
    if isLineComment comment.text then
      if comment.text.getLast?.any isLineBreakByte then [] else comment.lineBreak
    else if comment.text.getLast?.any isSpace then []
    else [Byte.space]
  else []
where
  isLineBreakByte (byte : UInt8) : Bool := byte = Byte.lineFeed || byte = Byte.carriageReturn

/-- The loop that writes the comments into the output, of which the text from a cursor on is left. -/
def writeComments (output : Text) : Nat → Text → List PlacedComment → Text
  | cursor, restored, [] => restored ++ output.drop cursor
  | cursor, restored, comment :: comments =>
    let copied := restored ++ slice output cursor comment.position
    writeComments output (max cursor comment.position)
      (copied ++ spaceBefore copied comment ++ comment.text ++ spaceBehind comment) comments

/-- `sqlparser_restore_semantic_comments`, where `scan` is `pg_query_scan`. -/
def restoreSemanticComments (qsort : SemanticSort) (scan : Text → Option (List ScanToken)) (source output : Text) :
    Except Error Text :=
  if !hasSemanticCommentMarker source then .ok output
  else
    match scan source with
    | none => .error (internalError "failed to scan semantic comments in source SQL")
    | some sourceScan =>
      let comments := collectComments source 0 sourceScan
      if comments = [] then .ok output
      else
        match collectTokens source 0 sourceScan with
        | none => .error (internalError "source SQL token span is invalid")
        | some sourceTokens =>
          match scan output with
          | none => .error (internalError "failed to scan forced deparse SQL")
          | some outputScan =>
            if outputScan.any fun token => (semanticComment output token).isSome then
              .error (internalError "forced deparse produced an unexpected semantic comment")
            else
              match collectTokens output 0 outputScan with
              | none => .error (internalError "forced deparse token span is invalid")
              | some outputTokens =>
                (placeComments qsort (align sourceTokens outputTokens) source output.length 0 0 comments).map
                  (writeComments output 0 [])

end SqlParser.Core.Semantic
