import SqlParser.Core.NationalLiterals
import SqlParser.Core.NestedComments
import SqlParser.Core.PublicItems
import SqlParser.PgQuery.ScalarInsert

/-! # The PostgreSQL passes around the native parser

`sqlparser_postgresql_preprocess_text` takes the prefix off national literals, and
`sqlparser_postgresql_postprocess_national_literals` puts it back.  Memory suffices, and
no origins are recorded.
-/

namespace SqlParser.Postgresql

open SqlParser.Core
open SqlParser.PgQuery

/-! ## The copy routines

Each takes the rest of the text at an offset to the rest behind what it copies.
-/

/-- `sqlparser_postgresql_is_ident_char` -/
def isIdentChar (byte : UInt8) : Bool :=
  isAlpha byte || isDigit byte || byte = Byte.underscore || byte ≥ 0x80

/-- `sqlparser_postgresql_is_n_string_literal` -/
def isNStringLiteral (rest : Text) : Bool :=
  (byteAt rest 0 = 78 || byteAt rest 0 = 110) && byteAt rest 1 = Byte.quote

/-- The loop over a literal or a quoted identifier, entered behind the opening quote. -/
def behindDoubled (quote : UInt8) : Text → Text
  | [] => []
  | [_] => []
  | byte :: next :: rest =>
    if byte = quote then
      if next = quote then behindDoubled quote rest else next :: rest
    else behindDoubled quote (next :: rest)

/-- `sqlparser_postgresql_dollar_quote_tag_end`: the rest behind the tag. -/
def dollarQuoteTagEnd : Text → Option Text
  | [] => none
  | first :: rest =>
    if first = Byte.dollar then
      match rest.dropWhile isIdentChar with
      | [] => none
      | last :: body => if last = Byte.dollar then some body else none
    else none

/-- The bytes before a rest. -/
def before (rest behind : Text) : Text :=
  rest.take (rest.length - behind.length)

/-- `sqlparser_postgresql_copy_dollar_quoted_literal` looks for the tag from the second byte on. -/
def copyDollarQuotedLiteral (rest : Text) : Option Text :=
  (dollarQuoteTagEnd rest).map fun body => (behindDelimiter (before rest body) (rest.drop 1)).getD []

/-- `sqlparser_postgresql_copy_comment`: a block comment may close with the star that opens it. -/
def copyComment : Text → Option Text
  | first :: second :: rest =>
    if first = Byte.dash ∧ second = Byte.dash then some ((behindLine rest).drop 1)
    else if first = Byte.slash ∧ second = Byte.star then
      some ((behindDelimiter [Byte.star, Byte.slash] (second :: rest)).getD [])
    else none
  | _ => none

/-- `sqlparser_postgresql_copy_double_quoted_identifier` -/
def copyDoubleQuotedIdentifier : Text → Option Text
  | [] => none
  | first :: rest => if first = Byte.doubleQuote then some (behindDoubled Byte.doubleQuote rest) else none

inductive PieceKind where
  | comment
  | dollarQuoted
  | identifier
  | national
  | literal
  | code
  deriving DecidableEq, Repr

/-- What both passes copy in the same way. -/
def copyVerbatim (rest : Text) : Option (PieceKind × Text) :=
  match copyComment rest with
  | some behind => some (.comment, behind)
  | none =>
    match copyDollarQuotedLiteral rest with
    | some behind => some (.dollarQuoted, behind)
    | none => (copyDoubleQuotedIdentifier rest).map (.identifier, ·)

/-! ## The preprocessor -/

/-- A piece of the text, with the rests at its start and behind it. -/
structure Piece where
  kind : PieceKind
  rest : Text
  behind : Text

def Piece.text (piece : Piece) : Text :=
  before piece.rest piece.behind

/-- What the preprocessor writes for a piece. -/
def Piece.output (piece : Piece) : Text :=
  if piece.kind = .national then piece.text.drop 1 else piece.text

/-- A turn of the preprocessor's loop. -/
def nextPiece (sql : Text) (byte : UInt8) (tail : Text) : PieceKind × Text :=
  match copyVerbatim (byte :: tail) with
  | some copied => copied
  | none =>
    let index := offsetOf sql (byte :: tail)
    if (index = 0 ∨ isIdentChar (byteAt sql (index - 1)) = false) ∧ isNStringLiteral (byte :: tail) then
      (.national, behindDoubled Byte.quote (tail.drop 1))
    else if byte = Byte.quote then (.literal, behindDoubled Byte.quote tail)
    else (.code, tail)

/-- What a piece does to the records. -/
def finishPiece (literals : NationalLiterals) (piece : Piece) : NationalLiterals :=
  match piece.kind with
  | .national =>
    { literals.append piece.output literals.literalCount with literalCount := literals.literalCount + 1 }
  | .literal => { literals with literalCount := literals.literalCount + 1 }
  | .dollarQuoted => { literals with literalCount := literals.literalCount + 1 }
  | _ => literals

theorem behindDoubled_suffix (quote : UInt8) (rest : Text) : behindDoubled quote rest <:+ rest := by
  fun_induction behindDoubled quote rest with
  | case1 => exact List.nil_suffix
  | case2 => exact List.nil_suffix
  | case3 rest inductionHypothesis =>
    exact inductionHypothesis.trans ((List.suffix_cons _ _).trans (List.suffix_cons _ _))
  | case4 next rest single => exact List.suffix_cons _ _
  | case5 byte next rest other inductionHypothesis => exact inductionHypothesis.trans (List.suffix_cons _ _)

theorem getD_suffix {found : Option Text} {rest : Text} (suffix : ∀ behind, found = some behind → behind <:+ rest) :
    found.getD [] <:+ rest := by
  cases found with
  | none => exact List.nil_suffix
  | some behind => exact suffix behind rfl

theorem copyComment_suffix {byte : UInt8} {tail behind : Text} (copied : copyComment (byte :: tail) = some behind) :
    behind <:+ tail := by
  cases tail with
  | nil => cases copied
  | cons second rest =>
    rw [copyComment] at copied
    split_ifs at copied
    · cases copied
      exact (List.drop_suffix _ _).trans ((untilStop_suffix _ _).trans (List.suffix_cons _ _))
    · cases copied
      exact getD_suffix fun _ found => behindDelimiter_suffix found

theorem copyDollarQuotedLiteral_suffix {byte : UInt8} {tail behind : Text}
    (copied : copyDollarQuotedLiteral (byte :: tail) = some behind) : behind <:+ tail := by
  obtain ⟨body, -, rfl⟩ := Option.map_eq_some_iff.mp copied
  exact getD_suffix fun _ found => behindDelimiter_suffix found

theorem copyDoubleQuotedIdentifier_suffix {byte : UInt8} {tail behind : Text}
    (copied : copyDoubleQuotedIdentifier (byte :: tail) = some behind) : behind <:+ tail := by
  rw [copyDoubleQuotedIdentifier] at copied
  split_ifs at copied
  cases copied
  exact behindDoubled_suffix _ _

theorem copyVerbatim_cases {rest behind : Text} {kind : PieceKind} (copied : copyVerbatim rest = some (kind, behind)) :
    (kind = .comment ∧ copyComment rest = some behind) ∨
      (kind = .dollarQuoted ∧ copyComment rest = none ∧ copyDollarQuotedLiteral rest = some behind) ∨
      (kind = .identifier ∧ copyComment rest = none ∧ copyDollarQuotedLiteral rest = none ∧
        copyDoubleQuotedIdentifier rest = some behind) := by
  rw [copyVerbatim] at copied
  split at copied
  next comment =>
    cases copied
    exact .inl ⟨rfl, comment⟩
  next noComment =>
    split at copied
    next dollar =>
      cases copied
      exact .inr (.inl ⟨rfl, noComment, dollar⟩)
    next noDollar =>
      obtain ⟨last, identifier, whole⟩ := Option.map_eq_some_iff.mp copied
      cases whole
      exact .inr (.inr ⟨rfl, noComment, noDollar, identifier⟩)

theorem copyVerbatim_none {rest : Text} :
    copyVerbatim rest = none ↔
      copyComment rest = none ∧ copyDollarQuotedLiteral rest = none ∧ copyDoubleQuotedIdentifier rest = none := by
  rw [copyVerbatim]
  cases copyComment rest with
  | some behind => simp
  | none =>
    cases copyDollarQuotedLiteral rest with
    | some behind => simp
    | none => simp

theorem copyVerbatim_suffix {byte : UInt8} {tail behind : Text} {kind : PieceKind}
    (copied : copyVerbatim (byte :: tail) = some (kind, behind)) : behind <:+ tail := by
  obtain ⟨-, comment⟩ | ⟨-, -, dollar⟩ | ⟨-, -, -, identifier⟩ := copyVerbatim_cases copied
  · exact copyComment_suffix comment
  · exact copyDollarQuotedLiteral_suffix dollar
  · exact copyDoubleQuotedIdentifier_suffix identifier

theorem nextPiece_suffix {sql tail behind : Text} {byte : UInt8} {kind : PieceKind}
    (turn : nextPiece sql byte tail = (kind, behind)) : behind <:+ tail := by
  rw [nextPiece] at turn
  split at turn
  next copied found =>
    subst turn
    exact copyVerbatim_suffix found
  next =>
    dsimp only at turn
    split_ifs at turn <;> cases turn
    · exact (behindDoubled_suffix _ _).trans (List.drop_suffix _ _)
    · exact behindDoubled_suffix _ _
    · exact List.suffix_rfl

/-- The pieces of the text from an offset on. -/
def pieces (sql rest : Text) : List Piece :=
  match rest with
  | [] => []
  | byte :: tail =>
    match _turn : nextPiece sql byte tail with
    | (kind, behind) => ⟨kind, byte :: tail, behind⟩ :: pieces sql behind
termination_by rest.length
decreasing_by exact Nat.lt_succ_of_le (nextPiece_suffix _turn).length_le

/-- The loop of `sqlparser_postgresql_preprocess_text`. -/
def preprocessLoop (literals : NationalLiterals) (sql : Text) : Text × NationalLiterals :=
  ((pieces sql sql).flatMap Piece.output, (pieces sql sql).foldl finishPiece literals)

/-- The last bytes of a text, read backwards. -/
def tailMayMatch (left : Nat) (bytes : Text) : Bool :=
  match bytes, left with
  | [], _ => false
  | _ :: _, 0 => true
  | byte :: others, left + 1 => if isSpace byte then tailMayMatch left others else byte = 41 || byte = Byte.semicolon

/-- `sqlparser_postgresql_identity_tail_may_match` -/
def identityTailMayMatch (sql : Text) : Bool :=
  tailMayMatch 64 sql.reverse

/-- `sqlparser_postgresql_preprocess_text` -/
def preprocessText (natives : Natives) (traced : Bool) (literals : NationalLiterals) (inputSql : Text) :
    Text × NationalLiterals :=
  if !traced && identityTailMayMatch inputSql then
    match proveMysqlIdentityScalarInsert natives inputSql with
    | some strings => (inputSql, { literals with literalCount := literals.literalCount + strings })
    | none => preprocessLoop literals inputSql
  else preprocessLoop literals inputSql

/-! ## The postprocessor -/

/-- The loop that writes a generated `E` string as a national literal. -/
def undoubleBackslashes : Text → Text
  | [] => []
  | [byte] => [byte]
  | byte :: next :: rest =>
    if byte = Byte.backslash ∧ next = Byte.backslash then byte :: undoubleBackslashes rest
    else byte :: undoubleBackslashes (next :: rest)

/-- The loop of `sqlparser_postgresql_postprocess_national_literals` from an offset on. -/
def postprocessFrom (literals : NationalLiterals) (sql : Text) (literalOrdinal : Nat) (rest : Text) : Text :=
  match rest with
  | [] => []
  | byte :: tail =>
    match _copied : copyVerbatim (byte :: tail) with
    | some (_, behind) => before (byte :: tail) behind ++ postprocessFrom literals sql literalOrdinal behind
    | none =>
      let escaped : Bool := byte = 69 && byteAt tail 0 = Byte.quote
      if byte = Byte.quote ∨ escaped then
        let literalEnd := behindDoubled Byte.quote (if escaped then tail.drop 1 else tail)
        let national := literals.matches' literalOrdinal sql (offsetOf sql (byte :: tail)) (offsetOf sql literalEnd)
        let literal := before (byte :: tail) literalEnd
        let output :=
          if national then 78 :: (if escaped then undoubleBackslashes (literal.drop 1) else literal) else literal
        have : literalEnd <:+ tail := (behindDoubled_suffix _ _).trans (by
          split
          next => exact List.drop_suffix _ _
          next => exact List.suffix_rfl)
        output ++ postprocessFrom literals sql (literalOrdinal + 1) literalEnd
      else byte :: postprocessFrom literals sql literalOrdinal tail
termination_by rest.length
decreasing_by
  · exact Nat.lt_succ_of_le (copyVerbatim_suffix _copied).length_le
  · exact Nat.lt_succ_of_le this.length_le
  · exact Nat.lt_succ_self _

/-- `sqlparser_postgresql_postprocess_national_literals` -/
def postprocessNationalLiterals (sql : Text) (literals : NationalLiterals) : Text :=
  postprocessFrom literals sql 0 sql

/-! ## The pieces -/

theorem before_append {rest behind : Text} (suffix : behind <:+ rest) : before rest behind ++ behind = rest := by
  obtain ⟨front, rfl⟩ := suffix
  simp [before]

theorem before_of_append (front behind : Text) : before (front ++ behind) behind = front := by
  simp [before]

theorem before_cons {tail behind : Text} (byte : UInt8) (suffix : behind <:+ tail) :
    before (byte :: tail) behind = byte :: before tail behind := by
  obtain ⟨front, rfl⟩ := suffix
  rw [before_of_append]
  exact before_of_append (byte :: front) behind

theorem before_slice {sql rest behind : Text} (suffix : rest <:+ sql) (behindSuffix : behind <:+ rest) :
    before rest behind = slice sql (offsetOf sql rest) (offsetOf sql behind) := by
  obtain ⟨front, rfl⟩ := suffix
  obtain ⟨text, rfl⟩ := behindSuffix
  have start : offsetOf (front ++ (text ++ behind)) (text ++ behind) = front.length := by simp [offsetOf]
  have stop : offsetOf (front ++ (text ++ behind)) behind = (front ++ text).length := by simp [offsetOf]; omega
  rw [before_of_append, slice, start, stop, ← List.append_assoc, List.take_left, List.drop_left]

theorem pieces_nil (sql : Text) : pieces sql [] = [] := by
  rw [pieces]

theorem pieces_cons (sql : Text) (byte : UInt8) (tail : Text) :
    pieces sql (byte :: tail) =
      ⟨(nextPiece sql byte tail).1, byte :: tail, (nextPiece sql byte tail).2⟩ ::
        pieces sql (nextPiece sql byte tail).2 := by
  rw [pieces]

theorem national_cons {byte : UInt8} {tail : Text} (national : isNStringLiteral (byte :: tail)) :
    (byte = 78 ∨ byte = 110) ∧ tail = Byte.quote :: tail.drop 1 := by
  simp only [isNStringLiteral, Bool.and_eq_true, Bool.or_eq_true, decide_eq_true_eq] at national
  obtain ⟨letter, quote⟩ := national
  refine ⟨letter, ?_⟩
  cases tail with
  | nil => cases quote
  | cons next rest =>
    have isQuote : next = Byte.quote := quote
    rw [isQuote]
    rfl

/-- The ways in which a turn reads a piece. -/
theorem nextPiece_cases {sql tail behind : Text} {byte : UInt8} {kind : PieceKind}
    (turn : nextPiece sql byte tail = (kind, behind)) :
    copyVerbatim (byte :: tail) = some (kind, behind) ∨
      copyVerbatim (byte :: tail) = none ∧
        ((kind = .national ∧ isNStringLiteral (byte :: tail) ∧ behind = behindDoubled Byte.quote (tail.drop 1) ∧
            (offsetOf sql (byte :: tail) = 0 ∨ isIdentChar (byteAt sql (offsetOf sql (byte :: tail) - 1)) = false)) ∨
          (kind = .literal ∧ byte = Byte.quote ∧ behind = behindDoubled Byte.quote tail) ∨
          (kind = .code ∧ byte ≠ Byte.quote ∧ behind = tail ∧
            (isNStringLiteral (byte :: tail) →
              0 < offsetOf sql (byte :: tail) ∧ isIdentChar (byteAt sql (offsetOf sql (byte :: tail) - 1))))) := by
  rw [nextPiece] at turn
  split at turn
  next copied found =>
    subst turn
    exact .inl found
  next none =>
    refine .inr ⟨none, ?_⟩
    dsimp only at turn
    split_ifs at turn with national quote
    · cases turn
      exact .inl ⟨rfl, national.2, rfl, national.1⟩
    · cases turn
      exact .inr (.inl ⟨rfl, quote, rfl⟩)
    · cases turn
      refine .inr (.inr ⟨rfl, quote, rfl, fun letter => ?_⟩)
      have inWord : ¬ (_ ∨ _) := fun start => national ⟨start, letter⟩
      rw [not_or, Bool.not_eq_false] at inWord
      exact ⟨Nat.pos_of_ne_zero inWord.1, inWord.2⟩

theorem copyVerbatim_kind {rest behind : Text} {kind : PieceKind} (copied : copyVerbatim rest = some (kind, behind)) :
    kind = .comment ∨ kind = .dollarQuoted ∨ kind = .identifier := by
  obtain ⟨isKind, -⟩ | ⟨isKind, -⟩ | ⟨isKind, -⟩ := copyVerbatim_cases copied <;> simp [isKind]

theorem pieces_text (sql rest : Text) : (pieces sql rest).flatMap Piece.text = rest := by
  fun_induction pieces sql rest with
  | case1 => rfl
  | case2 byte tail kind behind turn inductionHypothesis =>
    rw [List.flatMap_cons, inductionHypothesis]
    exact before_append ((nextPiece_suffix turn).trans (List.suffix_cons byte tail))

theorem copyComment_cases {rest behind : Text} (copied : copyComment rest = some behind) :
    (∃ body, rest = Byte.dash :: Byte.dash :: body ∧ behind = (behindLine body).drop 1) ∨
      ∃ body, rest = Byte.slash :: Byte.star :: body ∧ behind = behindFirstClose (Byte.star :: body) := by
  match rest with
  | [] => cases copied
  | [_] => cases copied
  | first :: second :: body =>
    rw [copyComment] at copied
    split_ifs at copied with line block
    · obtain ⟨rfl, rfl⟩ := line
      cases copied
      exact .inl ⟨body, rfl, rfl⟩
    · obtain ⟨rfl, rfl⟩ := block
      cases copied
      exact .inr ⟨body, rfl, rfl⟩

theorem dollarQuoteTagEnd_some {rest body : Text} (found : dollarQuoteTagEnd rest = some body) :
    ∃ tag, rest = Byte.dollar :: (tag ++ Byte.dollar :: body) ∧ ∀ byte ∈ tag, isIdentChar byte := by
  cases rest with
  | nil => cases found
  | cons first rest =>
    rw [dollarQuoteTagEnd] at found
    split_ifs at found with dollar
    split at found
    next => cases found
    next last others located =>
      split_ifs at found with closes
      cases found
      subst dollar closes
      refine ⟨rest.takeWhile isIdentChar, ?_, fun byte listed => List.mem_takeWhile_imp listed⟩
      rw [← located, List.takeWhile_append_dropWhile]

theorem behindDoubled_single {quote : UInt8} {body rest : Text} (plain : ∀ byte ∈ body, byte ≠ quote)
    (single : rest.head? ≠ some quote) : behindDoubled quote (body ++ quote :: rest) = rest := by
  induction body with
  | nil =>
    cases rest with
    | nil => rfl
    | cons next tail =>
      rw [List.nil_append, behindDoubled, if_pos rfl, if_neg]
      rintro rfl
      exact single rfl
  | cons byte body inductionHypothesis =>
    have others := inductionHypothesis fun later listed => plain later (.tail _ listed)
    cases shape : body ++ quote :: rest with
    | nil => simp at shape
    | cons next tail =>
      rw [List.cons_append, shape, behindDoubled, if_neg (plain byte (.head _)), ← shape]
      exact others

/-- Whether the preprocessor counts the piece as a string constant. -/
def Piece.isString (piece : Piece) : Bool :=
  piece.kind = .literal || piece.kind = .dollarQuoted || piece.kind = .national

/-- The records of the national literals among the pieces. -/
def records (ordinal : Nat) : List Piece → List NationalLiteral
  | [] => []
  | piece :: others =>
    let later := records (if piece.isString then ordinal + 1 else ordinal) others
    if piece.kind = .national then ⟨piece.output, none, ordinal, none⟩ :: later else later

/-- What the loop does to the records. -/
theorem foldl_finishPiece (literals : NationalLiterals) (read : List Piece) :
    read.foldl finishPiece literals =
      { literals with
        literalCount := literals.literalCount + (read.filter Piece.isString).length
        items := literals.items ++ records literals.literalCount read } := by
  induction read generalizing literals with
  | nil => simp [records]
  | cons piece others inductionHypothesis =>
    rw [List.foldl_cons, inductionHypothesis, records, List.filter_cons]
    cases kind : piece.kind with
    | national => simp [finishPiece, Piece.isString, NationalLiterals.append, kind]; omega
    | literal => simp [finishPiece, Piece.isString, kind]; omega
    | dollarQuoted => simp [finishPiece, Piece.isString, kind]; omega
    | comment => simp [finishPiece, Piece.isString, kind]
    | identifier => simp [finishPiece, Piece.isString, kind]
    | code => simp [finishPiece, Piece.isString, kind]

/-! ## Closed pieces

A piece that does not end the text is closed, and its reading does not depend on what stands behind.
-/

theorem behindDelimiter_closed {delimiter rest behind : Text} (present : delimiter ≠ [])
    (found : behindDelimiter delimiter rest = some behind) :
    ∃ front, rest = front ++ delimiter ++ behind ∧
      ∀ other, behindDelimiter delimiter (front ++ delimiter ++ other) = some other := by
  induction rest with
  | nil => cases found
  | cons byte rest inductionHypothesis =>
    rw [behindDelimiter] at found
    split at found
    next prefixed =>
      cases found
      obtain ⟨later, whole⟩ := List.isPrefixOf_iff_prefix.mp prefixed
      refine ⟨[], ?_, fun other => ?_⟩
      · rw [← whole, List.drop_left, List.nil_append]
      · cases delimiter with
        | nil => exact absurd rfl present
        | cons first others =>
          rw [List.nil_append, List.cons_append, behindDelimiter, if_pos]
          · rw [← List.cons_append, List.drop_left]
          · exact List.isPrefixOf_iff_prefix.mpr ⟨other, rfl⟩
    next noPrefix =>
      obtain ⟨front, rfl, closes⟩ := inductionHypothesis found
      refine ⟨byte :: front, rfl, fun other => ?_⟩
      rw [List.cons_append, List.cons_append, behindDelimiter, if_neg]
      · exact closes other
      · -- what stands behind the delimiter is not looked at
        intro prefixed
        apply noPrefix
        rw [List.isPrefixOf_iff_prefix] at prefixed ⊢
        rw [← List.cons_append, ← List.cons_append] at prefixed ⊢
        have inFront := List.prefix_of_prefix_length_le prefixed (List.prefix_append _ _) (by simp; omega)
        exact inFront.trans (List.prefix_append _ _)

theorem behindDoubled_closed {quote : UInt8} {rest behind : Text} (found : behindDoubled quote rest = behind)
    (present : behind ≠ []) :
    ∃ front, rest = front ++ quote :: behind ∧ behind.head? ≠ some quote ∧
      (∀ other, other.head? ≠ some quote → behindDoubled quote (front ++ quote :: other) = other) ∧
      ∀ other, behindDoubled quote (front ++ quote :: quote :: other) = behindDoubled quote other := by
  fun_induction behindDoubled quote rest with
  | case1 => exact absurd found.symm present
  | case2 => exact absurd found.symm present
  | case3 rest inductionHypothesis =>
    obtain ⟨front, rfl, single, closes, doubles⟩ := inductionHypothesis found
    refine ⟨quote :: quote :: front, rfl, single, fun other head => ?_, fun other => ?_⟩
    · rw [List.cons_append, List.cons_append, behindDoubled, if_pos rfl, if_pos rfl]
      exact closes other head
    · rw [List.cons_append, List.cons_append, behindDoubled, if_pos rfl, if_pos rfl]
      exact doubles other
  | case4 next rest single =>
    subst found
    refine ⟨[], rfl, fun same => single (Option.some.inj same), fun other head => ?_, fun other => ?_⟩
    · exact @behindDoubled_single quote [] other nofun head
    · rw [List.nil_append, behindDoubled, if_pos rfl, if_pos rfl]
  | case5 byte next rest noQuote inductionHypothesis =>
    obtain ⟨front, whole, single, closes, doubles⟩ := inductionHypothesis found
    have passes (other : Text) : behindDoubled quote (byte :: (front ++ quote :: other)) =
        behindDoubled quote (front ++ quote :: other) := by
      cases shape : front ++ quote :: other with
      | nil => simp at shape
      | cons second others => rw [behindDoubled, if_neg noQuote]
    refine ⟨byte :: front, by rw [whole]; rfl, single, fun other head => ?_, fun other => ?_⟩
    · rw [List.cons_append, passes]
      exact closes other head
    · rw [List.cons_append, passes]
      exact doubles other

theorem behindLine_closed {rest tail : Text} (found : behindLine rest = Byte.lineFeed :: tail) :
    ∃ front, rest = front ++ Byte.lineFeed :: tail ∧
      ∀ other, behindLine (front ++ Byte.lineFeed :: other) = Byte.lineFeed :: other := by
  have whole := @List.takeWhile_append_dropWhile _ (fun byte => !decide (byte = Byte.lineFeed)) rest
  rw [behindLine, untilStop] at found
  rw [found] at whole
  refine ⟨_, whole.symm, fun other => ?_⟩
  rw [behindLine, untilStop, List.dropWhile_append_of_pos]
  · rfl
  · exact fun byte listed => @List.mem_takeWhile_imp _ (fun byte => !decide (byte = Byte.lineFeed)) _ _ listed

theorem dollarQuoteTagEnd_tag {tag body : Text} (letters : ∀ byte ∈ tag, isIdentChar byte) :
    dollarQuoteTagEnd (Byte.dollar :: (tag ++ Byte.dollar :: body)) = some body := by
  rw [dollarQuoteTagEnd, if_pos rfl, List.dropWhile_append_of_pos letters,
    List.dropWhile_cons_of_neg (by decide)]
  simp only [if_true]

theorem copyComment_closed {rest behind : Text} (copied : copyComment rest = some behind) (present : behind ≠ []) :
    ∃ front last, rest = front ++ last :: behind ∧ (last = Byte.lineFeed ∨ last = Byte.slash) ∧
      ∀ other, copyComment (front ++ last :: other) = some other := by
  obtain ⟨body, rfl, rfl⟩ | ⟨body, rfl, rfl⟩ := copyComment_cases copied
  · obtain atEnd | ⟨tail, line⟩ := behindLine_cases body
    · rw [atEnd] at present
      exact absurd rfl present
    · obtain ⟨front, rfl, closes⟩ := behindLine_closed line
      refine ⟨Byte.dash :: Byte.dash :: front, Byte.lineFeed, by rw [line]; rfl, .inl rfl, fun other => ?_⟩
      rw [List.cons_append, List.cons_append, copyComment, if_pos ⟨rfl, rfl⟩, closes]
      rfl
  · cases found : behindDelimiter [Byte.star, Byte.slash] (Byte.star :: body) with
    | none =>
      rw [behindFirstClose, found] at present
      exact absurd rfl present
    | some behind =>
      obtain ⟨front, whole, closes⟩ := behindDelimiter_closed (by simp) found
      have shape : behindFirstClose (Byte.star :: body) = behind := by rw [behindFirstClose, found]; rfl
      rw [shape]
      refine ⟨Byte.slash :: (front ++ [Byte.star]), Byte.slash, by simp [whole], .inr rfl, fun other => ?_⟩
      have later := closes other
      -- the star behind the opening slash stands in front of the closing slash
      have opens : ∃ tail, front ++ [Byte.star, Byte.slash] ++ other = Byte.star :: tail := by
        cases front with
        | nil => exact ⟨_, rfl⟩
        | cons first others => exact ⟨_, by rw [← (List.cons.inj whole).1]; rfl⟩
      obtain ⟨tail, opens⟩ := opens
      have same : Byte.slash :: (front ++ [Byte.star]) ++ Byte.slash :: other = Byte.slash :: Byte.star :: tail := by
        rw [← opens]
        simp
      rw [same, copyComment, if_neg (fun line => absurd line.1 (by decide)), if_pos ⟨rfl, rfl⟩, ← opens, later]
      rfl

theorem copyDollarQuotedLiteral_closed {rest behind : Text} (copied : copyDollarQuotedLiteral rest = some behind)
    (present : behind ≠ []) :
    ∃ front, rest = front ++ Byte.dollar :: behind ∧
      ∀ other, copyDollarQuotedLiteral (front ++ Byte.dollar :: other) = some other := by
  obtain ⟨body, tagEnd, rfl⟩ := Option.map_eq_some_iff.mp copied
  obtain ⟨tag, rfl, letters⟩ := dollarQuoteTagEnd_some tagEnd
  have tagText (body : Text) :
      before (Byte.dollar :: (tag ++ Byte.dollar :: body)) body = Byte.dollar :: (tag ++ [Byte.dollar]) := by
    have := before_of_append (Byte.dollar :: (tag ++ [Byte.dollar])) body
    simpa using this
  rw [tagText] at present ⊢
  cases found : behindDelimiter (Byte.dollar :: (tag ++ [Byte.dollar]))
      ((Byte.dollar :: (tag ++ Byte.dollar :: body)).drop 1) with
  | none =>
    rw [found] at present
    exact absurd rfl present
  | some behind =>
    obtain ⟨front, whole, closes⟩ := behindDelimiter_closed (by simp) found
    rw [List.drop_one, List.tail_cons] at whole
    refine ⟨Byte.dollar :: (front ++ Byte.dollar :: tag), by simp [whole], fun other => ?_⟩
    have later := closes other
    -- the opening tag stands in front of what is behind the closing tag
    have opens : ∃ otherBody, front ++ Byte.dollar :: (tag ++ [Byte.dollar]) ++ other = tag ++ Byte.dollar :: otherBody := by
      have prefixed : tag ++ [Byte.dollar] <+: front ++ Byte.dollar :: (tag ++ [Byte.dollar]) := by
        apply @List.prefix_of_prefix_length_le _ _ _ (tag ++ Byte.dollar :: body)
        · exact ⟨body, by simp⟩
        · exact ⟨behind, whole.symm⟩
        · simp only [List.length_append, List.length_cons, List.length_nil]
          omega
      obtain ⟨later, same⟩ := prefixed
      exact ⟨later ++ other, by rw [← same]; simp⟩
    obtain ⟨otherBody, opens⟩ := opens
    have same : Byte.dollar :: (front ++ Byte.dollar :: tag) ++ Byte.dollar :: other =
        Byte.dollar :: (tag ++ Byte.dollar :: otherBody) := by
      rw [← opens]
      simp
    rw [same, copyDollarQuotedLiteral, dollarQuoteTagEnd_tag letters, Option.map_some, tagText, List.drop_one,
      List.tail_cons, ← opens, later]
    rfl

theorem copyVerbatim_first {byte : UInt8} {tail behind : Text} {kind : PieceKind}
    (copied : copyVerbatim (byte :: tail) = some (kind, behind)) :
    (kind = .comment ∧ (byte = Byte.dash ∨ byte = Byte.slash)) ∨ (kind = .dollarQuoted ∧ byte = Byte.dollar) ∨
      (kind = .identifier ∧ byte = Byte.doubleQuote) := by
  obtain ⟨isKind, comment⟩ | ⟨isKind, -, dollar⟩ | ⟨isKind, -, -, identifier⟩ := copyVerbatim_cases copied
  · obtain ⟨body, whole, -⟩ | ⟨body, whole, -⟩ := copyComment_cases comment
    · exact .inl ⟨isKind, .inl (List.cons.inj whole).1⟩
    · exact .inl ⟨isKind, .inr (List.cons.inj whole).1⟩
  · obtain ⟨body, tagEnd, -⟩ := Option.map_eq_some_iff.mp dollar
    obtain ⟨tag, whole, -⟩ := dollarQuoteTagEnd_some tagEnd
    exact .inr (.inl ⟨isKind, (List.cons.inj whole).1⟩)
  · rw [copyDoubleQuotedIdentifier] at identifier
    split_ifs at identifier with quote
    exact .inr (.inr ⟨isKind, quote⟩)

/-- What both passes copy in the same way closes with a byte that continues no word. -/
theorem copyVerbatim_closed {rest behind : Text} {kind : PieceKind} (copied : copyVerbatim rest = some (kind, behind))
    (present : behind ≠ []) :
    ∃ front last, rest = front ++ last :: behind ∧ isIdentChar last = false ∧ last ≠ Byte.quote ∧
      (kind = .identifier → behind.head? ≠ some Byte.doubleQuote) ∧
      ∀ other, (kind = .identifier → other.head? ≠ some Byte.doubleQuote) →
        copyVerbatim (front ++ last :: other) = some (kind, other) := by
  obtain ⟨rfl, comment⟩ | ⟨rfl, noComment, dollar⟩ | ⟨rfl, noComment, noDollar, identifier⟩ := copyVerbatim_cases copied
  · obtain ⟨front, last, whole, isLast, closes⟩ := copyComment_closed comment present
    refine ⟨front, last, whole, ?_, ?_, nofun, fun other _ => ?_⟩
    · obtain rfl | rfl := isLast <;> rfl
    · obtain rfl | rfl := isLast <;> decide
    · rw [copyVerbatim, closes]
  · obtain ⟨front, whole, closes⟩ := copyDollarQuotedLiteral_closed dollar present
    refine ⟨front, Byte.dollar, whole, rfl, by decide, nofun, fun other _ => ?_⟩
    have found := closes other
    obtain ⟨body, tagEnd, -⟩ := Option.map_eq_some_iff.mp found
    obtain ⟨tag, same, -⟩ := dollarQuoteTagEnd_some tagEnd
    have noComment : copyComment (front ++ Byte.dollar :: other) = none := by
      rw [same]
      cases tag <;> rfl
    rw [copyVerbatim, noComment, found]
  · cases rest with
    | nil => cases identifier
    | cons first body =>
      rw [copyDoubleQuotedIdentifier] at identifier
      split_ifs at identifier with quote
      subst quote
      obtain ⟨front, rfl, single, closes, -⟩ := behindDoubled_closed (Option.some.inj identifier) present
      refine ⟨Byte.doubleQuote :: front, Byte.doubleQuote, rfl, rfl, by decide, fun _ => single, fun other head => ?_⟩
      have noComment : copyComment (Byte.doubleQuote :: (front ++ Byte.doubleQuote :: other)) = none := by
        cases front <;> rfl
      have noDollar : copyDollarQuotedLiteral (Byte.doubleQuote :: (front ++ Byte.doubleQuote :: other)) = none := rfl
      rw [List.cons_append, copyVerbatim, noComment, noDollar, copyDoubleQuotedIdentifier, if_pos rfl,
        closes other (head rfl)]
      rfl

/-! ## The identity route -/

/-- A plain byte opens nothing. -/
theorem copyVerbatim_plain {byte : UInt8} {tail : Text} (plain : plainByte byte)
    (dash : byte = Byte.dash → tail.head? ≠ some Byte.dash) : copyVerbatim (byte :: tail) = none := by
  have noSlash : byte ≠ Byte.slash := by
    rintro rfl
    cases plain
  have noDollar : byte ≠ Byte.dollar := by
    rintro rfl
    cases plain
  have noQuote : byte ≠ Byte.doubleQuote := by
    rintro rfl
    cases plain
  have noComment : copyComment (byte :: tail) = none := by
    cases tail with
    | nil => rfl
    | cons second rest =>
      rw [copyComment, if_neg, if_neg (fun opens => noSlash opens.1)]
      rintro ⟨first, second⟩
      exact dash first (congrArg some second)
  simp only [copyVerbatim, noComment, copyDollarQuotedLiteral, dollarQuoteTagEnd, if_neg noDollar, Option.map_none,
    copyDoubleQuotedIdentifier, if_neg noQuote]

theorem nextPiece_plain {sql tail : Text} {byte : UInt8} (plain : plainByte byte)
    (word : nameChar byte false → tail.head? ≠ some Byte.quote)
    (dash : byte = Byte.dash → tail.head? ≠ some Byte.dash) : nextPiece sql byte tail = (.code, tail) := by
  have noQuote : byte ≠ Byte.quote := by
    rintro rfl
    cases plain
  have noNational : isNStringLiteral (byte :: tail) = false := by
    rw [← Bool.not_eq_true]
    intro national
    simp only [isNStringLiteral, Bool.and_eq_true, Bool.or_eq_true, decide_eq_true_eq] at national
    obtain ⟨letter, quote⟩ := national
    cases tail with
    | nil => cases quote
    | cons next rest =>
      refine word ?_ (congrArg some quote)
      have isLetter : byte = 78 ∨ byte = 110 := letter
      obtain rfl | rfl := isLetter <;> rfl
  simp only [nextPiece, copyVerbatim_plain plain dash, noNational, noQuote, Bool.false_eq_true, and_false, if_false]

/-- Over a certified source the loop copies every byte and counts the strings. -/
theorem pieces_passes {sql rest : Text} {strings : Nat} (passes : Passes rest strings []) :
    (pieces sql rest).flatMap Piece.output = rest ∧
      ∀ literals : NationalLiterals, (pieces sql rest).foldl finishPiece literals =
        { literals with literalCount := literals.literalCount + strings } := by
  generalize ends : ([] : Text) = behind at passes
  induction passes with
  | done =>
    subst ends
    rw [pieces_nil]
    exact ⟨rfl, fun _ => rfl⟩
  | @byte byte rest behind strings plain word dash _ inductionHypothesis =>
    obtain ⟨output, counts⟩ := inductionHypothesis ends
    rw [pieces_cons, nextPiece_plain plain word dash]
    constructor
    · rw [List.flatMap_cons, output]
      exact before_append (List.suffix_cons byte rest)
    · exact counts
  | @string body rest behind strings plain single _ inductionHypothesis =>
    obtain ⟨output, counts⟩ := inductionHypothesis ends
    have literalEnd := behindDoubled_single (fun byte listed => (plain byte listed).1) single
    have turn : nextPiece sql Byte.quote (body ++ Byte.quote :: rest) = (.literal, rest) := by
      have noCopy : copyVerbatim (Byte.quote :: (body ++ Byte.quote :: rest)) = none := by
        cases body <;> rfl
      have noNational : isNStringLiteral (Byte.quote :: (body ++ Byte.quote :: rest)) = false := rfl
      simp only [nextPiece, noCopy, noNational, Bool.false_eq_true, and_false, if_false, if_true, literalEnd]
    rw [pieces_cons, turn]
    constructor
    · rw [List.flatMap_cons, output]
      exact before_append ⟨Byte.quote :: (body ++ [Byte.quote]), by simp⟩
    · intro literals
      rw [List.foldl_cons, counts]
      simp only [finishPiece]
      rw [Nat.add_assoc, Nat.add_comm 1]

/-- The identity route gives what the loop gives. -/
theorem preprocessText_eq_loop (natives : Natives) (traced : Bool) (literals : NationalLiterals) (inputSql : Text) :
    preprocessText natives traced literals inputSql = preprocessLoop literals inputSql := by
  rw [preprocessText]
  split
  next =>
    split
    next strings proved =>
      obtain ⟨output, counts⟩ := @pieces_passes inputSql _ _ (proveIdentityScalarInsert_passes proved)
      rw [preprocessLoop, output, counts]
    next => rfl
  next => rfl

end SqlParser.Postgresql
