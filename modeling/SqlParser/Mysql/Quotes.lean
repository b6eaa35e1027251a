import SqlParser.Core.PublicLexer
import SqlParser.Library.Decimal

/-! # The MySQL quote pass

`sqlparser_mysql_preprocess_quotes` rewrites a MySQL text for the PostgreSQL parser:
string literals, backtick identifiers, comments and placeholders.  The loop looks
only forward, so a turn is a function of the rest of the text.  Memory suffices, and
no origin trace is taken.
-/

namespace SqlParser.Mysql

open SqlParser.Core
open SqlParser.Library.Decimal (decimal)

/-! ## State -/

/-- `sqlparser_dialect_national_literal_t` -/
structure LiteralRecord where
  sql : Text
  surfaceSql : Option Text
  ordinal : Nat
  /-- The AST node that the record is bound to. -/
  owner : Option Nat
  deriving DecidableEq, Repr

/-- What the quote passes read and write of `sqlparser_mysql_state_t`. -/
structure QuoteState where
  positionalParamCount : Nat
  literals : List LiteralRecord
  literalCount : Nat
  deriving DecidableEq, Repr

def QuoteState.fresh : QuoteState := ⟨0, [], 0⟩

/-- `sqlparser_mysql_finish_string_literal` -/
def finishStringLiteral (state : QuoteState) (literalSql surfaceSql : Text) : QuoteState :=
  let literals :=
    if literalSql ≠ surfaceSql then
      state.literals ++ [⟨literalSql, some surfaceSql, state.literalCount, none⟩]
    else state.literals
  { state with literals := literals, literalCount := state.literalCount + 1 }

/-! ## Literals and identifiers -/

/-- `sqlparser_mysql_decode_string_escape` -/
def decodeStringEscape (value : UInt8) : UInt8 :=
  if value = 48 then 48
  else if value = 98 then 8
  else if value = 110 then 10
  else if value = 114 then 13
  else if value = 116 then 9
  else if value = 90 then 26
  else value

/-- `sqlparser_mysql_append_pg_string_char` -/
def pgStringChar (value : UInt8) : Text :=
  if value = Byte.quote ∨ value = Byte.backslash then [value, value] else [value]

/-- What the loop over a string literal copies: the content, whether it decoded a backslash, and the rest. -/
structure CopiedString where
  content : Text
  hasBackslash : Bool
  behind : Text
  deriving DecidableEq, Repr

def CopiedString.prepend (value : UInt8) (decoded : Bool) (copied : CopiedString) : CopiedString :=
  ⟨pgStringChar value ++ copied.content, decoded && value = Byte.backslash || copied.hasBackslash, copied.behind⟩

/-- The loop over a string literal, entered behind the opening quote. -/
def copyStringBody (quote : UInt8) : Text → Option CopiedString
  | [] => none
  | [byte] => if byte = quote then some ⟨[], false, []⟩ else none
  | byte :: next :: rest =>
    if byte = Byte.backslash then
      (copyStringBody quote rest).map (.prepend (decodeStringEscape next) true)
    else if byte = quote then
      if next = quote then (copyStringBody quote rest).map (.prepend quote false)
      else some ⟨[], false, next :: rest⟩
    else (copyStringBody quote (next :: rest)).map (.prepend byte false)

def unterminatedString : Error := ⟨.parseError, "unterminated MySQL string literal"⟩

/-- `sqlparser_mysql_copy_string_literal`, entered behind the opening quote: the output and the rest. -/
def copyStringLiteral (quote : UInt8) (body : Text) : Except Error (Text × Text) :=
  let plain := body.takeWhile fun byte => byte ≠ Byte.quote && byte ≠ Byte.backslash
  let behind := body.drop plain.length
  if quote = Byte.quote ∧ byteAt behind 0 = Byte.quote ∧ byteAt behind 1 ≠ Byte.quote then
    .ok (Byte.quote :: (plain ++ [Byte.quote]), behind.drop 1)
  else
    match copyStringBody quote body with
    | some copied =>
      let literal := Byte.quote :: (copied.content ++ [Byte.quote])
      .ok (if copied.hasBackslash then 69 :: literal else literal, copied.behind)
    | none => .error unterminatedString

/-- The loop over a backtick identifier, entered behind the opening backtick. -/
def copyBacktickBody : Text → Option (Text × Text)
  | [] => none
  | [byte] => if byte = Byte.backtick then some ([], []) else none
  | byte :: next :: rest =>
    if byte = Byte.backtick then
      if next = Byte.backtick then
        (copyBacktickBody rest).map fun copied => (Byte.backtick :: copied.1, copied.2)
      else some ([], next :: rest)
    else
      (copyBacktickBody (next :: rest)).map fun copied =>
        (if byte = Byte.doubleQuote then Byte.doubleQuote :: Byte.doubleQuote :: copied.1 else byte :: copied.1,
          copied.2)

def unterminatedIdentifier : Error := ⟨.parseError, "unterminated MySQL quoted identifier"⟩

/-- `sqlparser_mysql_copy_backtick_identifier`, entered behind the opening backtick. -/
def copyBacktickIdentifier (body : Text) : Except Error (Text × Text) :=
  match copyBacktickBody body with
  | some (content, behind) => .ok (Byte.doubleQuote :: (content ++ [Byte.doubleQuote]), behind)
  | none => .error unterminatedIdentifier

/-! ## Turns -/

/-- Whether the byte behind two dashes makes them a comment. -/
def endsDashes (byte : UInt8) : Bool :=
  byte = 0 || isSpace byte || isControl byte

/-- `sqlparser_mysql_is_dash_comment_start` -/
def isDashCommentStart (text : Text) : Bool :=
  byteAt text 0 = Byte.dash && byteAt text 1 = Byte.dash && endsDashes (byteAt text 2)

/-- `sqlparser_mysql_is_n_string_literal` -/
def isNStringLiteral (text : Text) : Bool :=
  (byteAt text 0 = 110 || byteAt text 0 = 78) && byteAt text 1 = Byte.quote

/-- The bytes at which a run of copied code stops. -/
def stopsCode (byte : UInt8) : Bool :=
  byte = Byte.quote || byte = Byte.doubleQuote || byte = Byte.backtick || byte = Byte.hash ||
    byte = Byte.question || byte = Byte.slash || byte = Byte.backslash || byte = Byte.dash ||
    byte = 110 || byte = 78

/-- The branches of the loop. -/
inductive PieceKind where
  | dashComment
  | dashes
  | blockComment
  | nationalLiteral
  | backtickIdentifier
  | stringLiteral
  | hashComment
  | placeholder
  | code
  deriving DecidableEq, Repr

/-- What a turn consumes and appends.  The output of a placeholder depends on the state. -/
structure Piece where
  kind : PieceKind
  source : Text
  output : Text
  deriving DecidableEq, Repr

/-- The bytes of a text before one of its rests. -/
def consumed (text behind : Text) : Text :=
  text.take (offsetOf text behind)

/-- The turn of the loop over a text that is not empty, with the rest that it leaves. -/
def nextPiece (hasState : Bool) (byte : UInt8) (rest : Text) : Except Error (Piece × Text) :=
  let text := byte :: rest
  if isDashCommentStart text then
    let behind := (untilStop (fun byte => byte = Byte.lineFeed) text).drop 1
    .ok (⟨.dashComment, consumed text behind, consumed text behind⟩, behind)
  else if byte = Byte.dash ∧ byteAt rest 0 = Byte.dash then
    .ok (⟨.dashes, [Byte.dash, Byte.dash], [Byte.dash, Byte.space, Byte.dash]⟩, rest.drop 1)
  else if byte = Byte.slash ∧ byteAt rest 0 = Byte.star then
    let behind := (behindDelimiter [Byte.star, Byte.slash] rest).getD []
    .ok (⟨.blockComment, consumed text behind, consumed text behind⟩, behind)
  else if hasState ∧ isNStringLiteral text then
    (copyStringLiteral Byte.quote (rest.drop 1)).map fun (output, behind) =>
      (⟨.nationalLiteral, consumed text behind, output⟩, behind)
  else if byte = Byte.backtick then
    (copyBacktickIdentifier rest).map fun (output, behind) =>
      (⟨.backtickIdentifier, consumed text behind, output⟩, behind)
  else if byte = Byte.quote ∨ byte = Byte.doubleQuote then
    (copyStringLiteral byte rest).map fun (output, behind) =>
      (⟨.stringLiteral, consumed text behind, output⟩, behind)
  else if byte = Byte.hash then
    let behind := untilStop (fun byte => byte = Byte.lineFeed) rest
    .ok (⟨.hashComment, consumed text behind, Byte.dash :: Byte.dash :: Byte.space :: consumed rest behind⟩, behind)
  else if byte = Byte.question ∧ hasState then
    .ok (⟨.placeholder, [Byte.question], []⟩, rest)
  else
    let behind := untilStop stopsCode rest
    .ok (⟨.code, consumed text behind, consumed text behind⟩, behind)

/-- What the turn does to the state, and the bytes that it appends. -/
def finishPiece (state : QuoteState) (piece : Piece) : Except Error (QuoteState × Text) :=
  match piece.kind with
  | .nationalLiteral | .stringLiteral =>
    .ok (finishStringLiteral state piece.output piece.source, piece.output)
  | .placeholder =>
    if state.positionalParamCount = sizeMax then .error outOfMemory
    else
      .ok ({ state with positionalParamCount := state.positionalParamCount + 1 },
        Byte.dollar :: decimal (state.positionalParamCount + 1))
  | _ => .ok (state, piece.output)

/-! ## What a turn can do -/

theorem consumed_append {text behind : Text} (suffix : behind <:+ text) : consumed text behind ++ behind = text := by
  obtain ⟨front, rfl⟩ := suffix
  simp [consumed, offsetOf]

theorem copyStringBody_suffix {quote : UInt8} {body : Text} {copied : CopiedString}
    (found : copyStringBody quote body = some copied) : copied.behind <:+ body := by
  fun_induction copyStringBody quote body generalizing copied with
  | case1 => cases found
  | case2 =>
    cases found
    exact List.nil_suffix
  | case3 => cases found
  | case4 next rest inductionHypothesis =>
    obtain ⟨inner, copies, rfl⟩ := Option.map_eq_some_iff.mp found
    exact (inductionHypothesis copies).trans ((List.suffix_cons _ _).trans (List.suffix_cons _ _))
  | case5 rest plain inductionHypothesis =>
    obtain ⟨inner, copies, rfl⟩ := Option.map_eq_some_iff.mp found
    exact (inductionHypothesis copies).trans ((List.suffix_cons _ _).trans (List.suffix_cons _ _))
  | case6 next rest plain single =>
    cases found
    exact List.suffix_cons _ _
  | case7 byte next rest plain other inductionHypothesis =>
    obtain ⟨inner, copies, rfl⟩ := Option.map_eq_some_iff.mp found
    exact (inductionHypothesis copies).trans (List.suffix_cons _ _)

theorem copyStringLiteral_suffix {quote : UInt8} {body output behind : Text}
    (copied : copyStringLiteral quote body = .ok (output, behind)) : behind <:+ body := by
  unfold copyStringLiteral at copied
  dsimp only at copied
  split at copied
  next =>
    cases copied
    exact (List.drop_suffix _ _).trans (List.drop_suffix _ _)
  next =>
    split at copied
    next inner found =>
      cases copied
      exact copyStringBody_suffix found
    next => cases copied

theorem copyBacktickBody_suffix {body content behind : Text}
    (found : copyBacktickBody body = some (content, behind)) : behind <:+ body := by
  fun_induction copyBacktickBody body generalizing content behind with
  | case1 => cases found
  | case2 =>
    cases found
    exact List.nil_suffix
  | case3 => cases found
  | case4 rest inductionHypothesis =>
    obtain ⟨inner, copies, whole⟩ := Option.map_eq_some_iff.mp found
    cases whole
    exact (inductionHypothesis copies).trans ((List.suffix_cons _ _).trans (List.suffix_cons _ _))
  | case5 next rest single =>
    cases found
    exact List.suffix_cons _ _
  | case6 byte next rest other inductionHypothesis =>
    obtain ⟨inner, copies, whole⟩ := Option.map_eq_some_iff.mp found
    cases whole
    exact (inductionHypothesis copies).trans (List.suffix_cons _ _)

/-- The rest behind a comment that runs to the end of the line, without the line feed. -/
abbrev behindLineFeed (rest : Text) : Text :=
  (behindLine rest).drop 1

abbrev behindFlatComment (rest : Text) : Text :=
  (behindDelimiter [Byte.star, Byte.slash] rest).getD []

/-- The branches that a turn with a state can take, each with all that it has checked. -/
inductive Turns : Text → Piece → Text → Prop where
  | dashComment {tail : Text} : endsDashes (byteAt tail 0) →
      Turns (Byte.dash :: Byte.dash :: tail)
        ⟨.dashComment, Byte.dash :: Byte.dash :: consumed tail (behindLineFeed tail),
          Byte.dash :: Byte.dash :: consumed tail (behindLineFeed tail)⟩
        (behindLineFeed tail)
  | dashes {tail : Text} : endsDashes (byteAt tail 0) = false →
      Turns (Byte.dash :: Byte.dash :: tail)
        ⟨.dashes, [Byte.dash, Byte.dash], [Byte.dash, Byte.space, Byte.dash]⟩ tail
  | blockComment {tail : Text} :
      Turns (Byte.slash :: Byte.star :: tail)
        ⟨.blockComment, Byte.slash :: consumed (Byte.star :: tail) (behindFlatComment (Byte.star :: tail)),
          Byte.slash :: consumed (Byte.star :: tail) (behindFlatComment (Byte.star :: tail))⟩
        (behindFlatComment (Byte.star :: tail))
  | nationalLiteral {letter : UInt8} {body output behind : Text} : letter = 110 ∨ letter = 78 →
      copyStringLiteral Byte.quote body = .ok (output, behind) →
      Turns (letter :: Byte.quote :: body)
        ⟨.nationalLiteral, letter :: Byte.quote :: consumed body behind, output⟩ behind
  | backtickIdentifier {body content behind : Text} : copyBacktickBody body = some (content, behind) →
      Turns (Byte.backtick :: body)
        ⟨.backtickIdentifier, Byte.backtick :: consumed body behind,
          Byte.doubleQuote :: (content ++ [Byte.doubleQuote])⟩ behind
  | stringLiteral {quote : UInt8} {body output behind : Text} : quote = Byte.quote ∨ quote = Byte.doubleQuote →
      copyStringLiteral quote body = .ok (output, behind) →
      Turns (quote :: body) ⟨.stringLiteral, quote :: consumed body behind, output⟩ behind
  | hashComment {tail : Text} :
      Turns (Byte.hash :: tail)
        ⟨.hashComment, Byte.hash :: consumed tail (behindLine tail),
          Byte.dash :: Byte.dash :: Byte.space :: consumed tail (behindLine tail)⟩
        (behindLine tail)
  | placeholder {tail : Text} : Turns (Byte.question :: tail) ⟨.placeholder, [Byte.question], []⟩ tail
  | code {byte : UInt8} {tail : Text} : byte ≠ Byte.quote → byte ≠ Byte.doubleQuote → byte ≠ Byte.backtick →
      byte ≠ Byte.hash → byte ≠ Byte.question → ¬ (byte = Byte.dash ∧ byteAt tail 0 = Byte.dash) →
      ¬ (byte = Byte.slash ∧ byteAt tail 0 = Byte.star) →
      ¬ ((byte = 110 ∨ byte = 78) ∧ byteAt tail 0 = Byte.quote) →
      Turns (byte :: tail)
        ⟨.code, byte :: consumed tail (untilStop stopsCode tail), byte :: consumed tail (untilStop stopsCode tail)⟩
        (untilStop stopsCode tail)

theorem consumed_cons {tail behind : Text} (byte : UInt8) (suffix : behind <:+ tail) :
    consumed (byte :: tail) behind = byte :: consumed tail behind := by
  have shorter := suffix.length_le
  unfold consumed offsetOf
  rw [List.length_cons, Nat.sub_add_comm shorter, List.take_succ_cons]

theorem cons_of_byteAt {text : Text} {byte : UInt8} (first : byteAt text 0 = byte) (printable : byte ≠ 0) :
    ∃ tail, text = byte :: tail := by
  cases text with
  | nil => exact absurd first.symm printable
  | cons _ tail => exact ⟨tail, congrArg (· :: tail) first⟩

theorem behindLine_pass {byte : UInt8} (other : byte ≠ Byte.lineFeed) (rest : Text) :
    behindLine (byte :: rest) = behindLine rest :=
  untilStop_pass (by simp [other]) rest

theorem behindFlatComment_suffix (rest : Text) : behindFlatComment rest <:+ rest := by
  unfold behindFlatComment
  cases found : behindDelimiter [Byte.star, Byte.slash] rest with
  | none => exact List.nil_suffix
  | some tail => exact behindDelimiter_suffix found

theorem isDashCommentStart_iff {byte : UInt8} {rest : Text} :
    isDashCommentStart (byte :: rest) ↔ byte = Byte.dash ∧ byteAt rest 0 = Byte.dash ∧ endsDashes (byteAt rest 1) := by
  simp [isDashCommentStart, byteAt, and_assoc]

theorem nextPiece_turns {byte : UInt8} {rest behind : Text} {piece : Piece}
    (turn : nextPiece true byte rest = .ok (piece, behind)) : Turns (byte :: rest) piece behind := by
  unfold nextPiece at turn
  dsimp only at turn
  split_ifs at turn with comment dashes block national backtick quote hash question
  · cases turn
    obtain ⟨rfl, second, ends⟩ := isDashCommentStart_iff.mp comment
    obtain ⟨tail, rfl⟩ := cons_of_byteAt second (by decide)
    have line : behindLine (Byte.dash :: Byte.dash :: tail) = behindLine tail := by
      rw [behindLine_pass (by decide), behindLine_pass (by decide)]
    have suffix : behindLineFeed tail <:+ tail := (List.drop_suffix _ _).trans (untilStop_suffix _ _)
    have same : (untilStop (fun byte => byte = Byte.lineFeed) (Byte.dash :: Byte.dash :: tail)).drop 1 =
        behindLineFeed tail := congrArg (List.drop 1) line
    rw [same, consumed_cons _ (suffix.trans (List.suffix_cons _ _)), consumed_cons _ suffix]
    exact .dashComment ends
  · cases turn
    obtain ⟨rfl, second⟩ := dashes
    obtain ⟨tail, rfl⟩ := cons_of_byteAt second (by decide)
    refine .dashes (Bool.eq_false_iff.mpr fun ends => comment ?_)
    exact isDashCommentStart_iff.mpr ⟨rfl, second, ends⟩
  · cases turn
    obtain ⟨rfl, second⟩ := block
    obtain ⟨tail, rfl⟩ := cons_of_byteAt second (by decide)
    rw [consumed_cons _ (behindFlatComment_suffix _)]
    exact .blockComment
  · obtain ⟨-, national⟩ := national
    simp only [isNStringLiteral, Bool.and_eq_true, Bool.or_eq_true, decide_eq_true_eq] at national
    obtain ⟨tail, rfl⟩ := cons_of_byteAt national.2 (by decide)
    obtain ⟨result, copied, same⟩ := ok_of_map turn
    cases same
    rw [List.drop_one, List.tail_cons] at copied
    have suffix := copyStringLiteral_suffix copied
    rw [consumed_cons _ (suffix.trans (List.suffix_cons _ _)), consumed_cons _ suffix]
    exact .nationalLiteral national.1 copied
  · subst backtick
    obtain ⟨result, copied, same⟩ := ok_of_map turn
    cases same
    unfold copyBacktickIdentifier at copied
    split at copied
    next content behind found =>
      cases copied
      rw [consumed_cons _ (copyBacktickBody_suffix found)]
      exact .backtickIdentifier found
    next => cases copied
  · obtain ⟨result, copied, same⟩ := ok_of_map turn
    cases same
    rw [consumed_cons _ (copyStringLiteral_suffix copied)]
    exact .stringLiteral quote copied
  · cases turn
    subst hash
    rw [consumed_cons _ (untilStop_suffix _ _)]
    exact .hashComment
  · cases turn
    obtain ⟨rfl, -⟩ := question
    exact .placeholder
  · cases turn
    rw [consumed_cons _ (untilStop_suffix _ _)]
    rw [not_or] at quote
    refine .code quote.1 quote.2 backtick hash (fun same => question ⟨same, rfl⟩) dashes block ?_
    rintro ⟨letter, second⟩
    refine national ⟨rfl, ?_⟩
    simp only [isNStringLiteral, Bool.and_eq_true, Bool.or_eq_true, decide_eq_true_eq]
    exact ⟨letter, second⟩

/-- A turn splits the text into what it consumes and what it leaves. -/
theorem Turns.split {text behind : Text} {piece : Piece} (turn : Turns text piece behind) :
    piece.source ++ behind = text ∧ behind.length < text.length := by
  have whole : piece.source ++ behind = text ∧ piece.source ≠ [] := by
    cases turn with
    | @dashComment tail ends =>
      have suffix : behindLineFeed tail <:+ tail := (List.drop_suffix _ _).trans (untilStop_suffix _ _)
      exact ⟨congrArg (Byte.dash :: Byte.dash :: ·) (consumed_append suffix), List.cons_ne_nil _ _⟩
    | dashes => exact ⟨rfl, by simp⟩
    | blockComment => simp [consumed_append (behindFlatComment_suffix _)]
    | nationalLiteral letter copied => simp [consumed_append (copyStringLiteral_suffix copied)]
    | backtickIdentifier copied => simp [consumed_append (copyBacktickBody_suffix copied)]
    | stringLiteral quote copied => simp [consumed_append (copyStringLiteral_suffix copied)]
    | hashComment => simp [consumed_append (untilStop_suffix _ _), behindLine]
    | placeholder => exact ⟨rfl, by simp⟩
    | code => simp [consumed_append (untilStop_suffix _ _)]
  refine ⟨whole.1, ?_⟩
  have := List.length_pos_iff.mpr whole.2
  rw [← whole.1, List.length_append]
  omega

/-! ## The loop -/

theorem nextPiece_suffix {hasState : Bool} {byte : UInt8} {rest behind : Text} {piece : Piece}
    (turn : nextPiece hasState byte rest = .ok (piece, behind)) : behind <:+ rest := by
  have lineSuffix : (untilStop (fun byte => byte = Byte.lineFeed) (byte :: rest)).drop 1 <:+ rest := by
    cases feed : decide (byte = Byte.lineFeed) with
    | true =>
      rw [@untilStop_here (fun byte => byte = Byte.lineFeed) byte feed]
      exact List.suffix_rfl
    | false =>
      rw [@untilStop_pass (fun byte => byte = Byte.lineFeed) byte feed]
      exact (List.drop_suffix _ _).trans (untilStop_suffix _ _)
  unfold nextPiece at turn
  dsimp only at turn
  split_ifs at turn with comment dashes block national backtick quote hash question
  · cases turn
    exact lineSuffix
  · cases turn
    exact List.drop_suffix _ _
  · cases turn
    exact behindFlatComment_suffix rest
  · obtain ⟨result, copied, same⟩ := ok_of_map turn
    cases same
    exact (copyStringLiteral_suffix copied).trans (List.drop_suffix _ _)
  · obtain ⟨result, copied, same⟩ := ok_of_map turn
    cases same
    unfold copyBacktickIdentifier at copied
    split at copied
    next found =>
      cases copied
      exact copyBacktickBody_suffix found
    next => cases copied
  · obtain ⟨result, copied, same⟩ := ok_of_map turn
    cases same
    exact copyStringLiteral_suffix copied
  · cases turn
    exact untilStop_suffix _ _
  · cases turn
    exact List.suffix_rfl
  · cases turn
    exact untilStop_suffix _ _

theorem nextPiece_shorter {hasState : Bool} {byte : UInt8} {rest behind : Text} {piece : Piece}
    (turn : nextPiece hasState byte rest = .ok (piece, behind)) : behind.length < (byte :: rest).length :=
  Nat.lt_succ_of_le (nextPiece_suffix turn).length_le

/-- The loop of `sqlparser_mysql_preprocess_quotes`, with the output so far. -/
def preprocessLoop (state : Option QuoteState) (text out : Text) : Except Error (Option QuoteState × Text) :=
  match text with
  | [] => .ok (state, out)
  | byte :: rest =>
    match _turn : nextPiece state.isSome byte rest with
    | .error error => .error error
    | .ok (piece, behind) =>
      match state with
      | none => preprocessLoop none behind (out ++ piece.output)
      | some state =>
        match finishPiece state piece with
        | .error error => .error error
        | .ok (state, output) => preprocessLoop (some state) behind (out ++ output)
termination_by text.length
decreasing_by all_goals exact nextPiece_shorter _turn

/-- `sqlparser_mysql_preprocess_quotes` -/
def preprocessQuotes (inputSql : Text) (state : Option QuoteState) : Except Error (Option QuoteState × Text) :=
  preprocessLoop state inputSql []

end SqlParser.Mysql
