import SqlParser.Core.PublicLexer

/-! # The tokens of a source text

The resolver of source spellings reads a text forward: white space and comments, then a string,
an identifier or a single byte. A position is the rest of the text that stands behind it.
-/

namespace SqlParser.Core.Source

/-- `mysql_lex` and `oracle_q_quotes` of `sqlparser_identifier_resolver_t` -/
structure Lexer where
  mysqlLex : Bool
  oracleQQuotes : Bool
  deriving DecidableEq, Repr

def lexer (dialect : Dialect) : Lexer :=
  ⟨dialect.isMysqlCompatible, dialect.isOracleOrDamengCompatible⟩

/-! ## Bytes -/

/-- `sqlparser_ascii_is_identifier_start` -/
def isIdentifierStart (byte : UInt8) : Bool :=
  isAlpha byte || byte = Byte.underscore || byte = Byte.hash || byte = Byte.dollar || 0x80 ≤ byte

/-- `sqlparser_ascii_is_identifier_part` -/
def isIdentifierPart (byte : UInt8) : Bool :=
  isIdentifierStart byte || isDigit byte

def isLineBreak (byte : UInt8) : Bool :=
  byte = Byte.lineFeed || byte = Byte.carriageReturn

def isLetter (letter byte : UInt8) : Bool :=
  toLower byte = letter

/-! ## Trivia -/

/-- The loop of `sqlparser_skip_block_comment` at some depth. -/
def skipBlockComment : Nat → Text → Text
  | 0, rest => rest
  | _ + 1, [] => []
  | _ + 1, [_] => []
  | depth + 1, first :: second :: rest =>
    if first = Byte.slash ∧ second = Byte.star then skipBlockComment (depth + 2) rest
    else if first = Byte.star ∧ second = Byte.slash then skipBlockComment depth rest
    else skipBlockComment (depth + 1) (second :: rest)

def untilLineBreak (rest : Text) : Text :=
  rest.dropWhile fun byte => !isLineBreak byte

section lexing

variable (lexer : Lexer)

/-- Whether a line comment opens here: two dashes, which the MySQL dialects want a control byte or a space behind, or their hash. -/
def opensLineComment : Text → Bool
  | first :: rest =>
    (first = Byte.hash && lexer.mysqlLex) ||
      (first = Byte.dash && rest.head? = some Byte.dash &&
        (!lexer.mysqlLex || (rest.drop 1).head?.all fun byte => byte ≤ 0x20))
  | [] => false

def opensBlockComment (rest : Text) : Bool :=
  rest.head? = some Byte.slash && (rest.drop 1).head? = some Byte.star

theorem untilLineBreak_suffix (rest : Text) : untilLineBreak rest <:+ rest :=
  List.dropWhile_suffix _

theorem skipBlockComment_suffix (depth : Nat) (rest : Text) : skipBlockComment depth rest <:+ rest := by
  fun_induction skipBlockComment depth rest with
  | case1 rest => exact List.suffix_refl _
  | case2 depth => exact List.suffix_refl _
  | case3 depth byte => exact List.nil_suffix
  | case4 depth first second rest opens inductionHypothesis =>
    exact inductionHypothesis.trans ((List.suffix_cons _ _).trans (List.suffix_cons _ _))
  | case5 depth first second rest opens closes inductionHypothesis =>
    exact inductionHypothesis.trans ((List.suffix_cons _ _).trans (List.suffix_cons _ _))
  | case6 depth first second rest opens closes inductionHypothesis =>
    exact inductionHypothesis.trans (List.suffix_cons _ _)

/-- `sqlparser_skip_trivia` -/
def skipTrivia (rest : Text) : Text :=
  match rest with
  | [] => []
  | byte :: more =>
    if isSpace byte then skipTrivia more
    else if opensLineComment lexer (byte :: more) then skipTrivia (untilLineBreak more)
    else if opensBlockComment (byte :: more) then skipTrivia (skipBlockComment 1 (more.drop 1))
    else byte :: more
termination_by rest.length
decreasing_by
  · simp
  · have := (untilLineBreak_suffix more).length_le
    simp
    omega
  · have := (skipBlockComment_suffix 1 (more.drop 1)).length_le
    simp at this ⊢
    omega

/-! ## Strings -/

/-- `sqlparser_skip_quoted_string`, entered behind the opening quote. -/
def skipQuotedString (quote : UInt8) (backslashEscapes : Bool) : Text → Text
  | [] => []
  | [_] => []
  | first :: second :: rest =>
    if first = quote then if second = quote then skipQuotedString quote backslashEscapes rest else second :: rest
    else if backslashEscapes && first = Byte.backslash then skipQuotedString quote backslashEscapes rest
    else skipQuotedString quote backslashEscapes (second :: rest)

/-- The byte that closes a q-quote. -/
def closingQQuote (opening : UInt8) : UInt8 :=
  if opening = Byte.openBracket then Byte.closeBracket
  else if opening = 123 then 125
  else if opening = 40 then 41
  else if opening = 60 then 62
  else opening

/-- `sqlparser_skip_oracle_q_quoted`, where `none` stands for a position that stays. -/
def skipOracleQQuoted (rest : Text) : Option Text :=
  let quoted := match rest with
    | byte :: more => if isLetter 110 byte then more else rest
    | [] => []
  match quoted with
  | letter :: mark :: opening :: more =>
    if isLetter 113 letter && mark = Byte.quote then some (behindQQuote (closingQQuote opening) more) else none
  | _ => none

/-- `sqlparser_dollar_quote_delimiter_length`: the delimiter itself. -/
def dollarDelimiter (rest : Text) : Option Text :=
  match rest with
  | byte :: more =>
    let tag := more.takeWhile fun byte => isAlnum byte || byte = Byte.underscore
    if byte = Byte.dollar && (more.drop tag.length).head? = some Byte.dollar then some (Byte.dollar :: tag ++ [Byte.dollar])
    else none
  | [] => none

/-- `sqlparser_identifier_end` -/
def identifierEnd : Text → Text
  | byte :: more => if isIdentifierStart byte then more.dropWhile isIdentifierPart else byte :: more
  | [] => []

/-- The strings with a letter in front of their quote. -/
def skipPrefixedString (first second : UInt8) (rest : Text) : Option Text :=
  if isLetter 117 first && second = 38 && rest.head? = some Byte.quote then
    some (skipQuotedString Byte.quote false (rest.drop 1))
  else if isLetter 101 first && second = Byte.quote then some (skipQuotedString Byte.quote true rest)
  else if (isLetter 110 first || isLetter 98 first || isLetter 120 first) && second = Byte.quote then
    some (skipQuotedString Byte.quote lexer.mysqlLex rest)
  else none

/-- The string behind the name of a character set. -/
def skipIntroducedString (rest : Text) : Option Text :=
  if lexer.mysqlLex && rest.head? = some Byte.underscore then
    match identifierEnd rest with
    | mark :: more => if mark = Byte.quote || mark = Byte.doubleQuote then some (skipQuotedString mark true more) else none
    | [] => none
  else none

/-- `sqlparser_source_string_end`, where `none` stands for a position that stays. -/
def stringEnd (rest : Text) : Option Text :=
  match rest with
  | [] => none
  | first :: more =>
    if first = Byte.quote then some (skipQuotedString Byte.quote lexer.mysqlLex more)
    else if lexer.mysqlLex && first = Byte.doubleQuote then some (skipQuotedString Byte.doubleQuote true more)
    else
      (if lexer.oracleQQuotes then skipOracleQQuoted rest else none) <|>
        (match more with
          | second :: behind => skipPrefixedString lexer first second behind
          | [] => none) <|>
        skipIntroducedString lexer rest <|>
        (dollarDelimiter rest).map fun delimiter => (behindDelimiter delimiter (rest.drop delimiter.length)).getD []

/-! ## Identifiers -/

/-- `sqlparser_quoted_identifier_end`, entered behind the opening byte. -/
def quotedIdentifierEnd (closing : UInt8) (rest : Text) : Text :=
  skipQuotedString closing false rest

/-- `sqlparser_uamp_identifier_span_end` -/
def uampIdentifierSpanEnd (quoteEnd : Text) : Text :=
  let keyword := skipTrivia lexer quoteEnd
  let behind := identifierEnd keyword
  if (keyword.take (keyword.length - behind.length)).map toLower = ascii "uescape" then
    match skipTrivia lexer behind with
    | opening :: _ :: closing :: rest => if opening = Byte.quote ∧ closing = Byte.quote then rest else quoteEnd
    | _ => quoteEnd
  else quoteEnd

/-- Whether the position starts with `U&` and a double quote. -/
def opensUampIdentifier : Text → Bool
  | first :: second :: third :: _ => isLetter 117 first && second = 38 && third = Byte.doubleQuote
  | _ => false

/-- `sqlparser_source_is_identifier` -/
def isIdentifier : Text → Bool
  | [] => false
  | first :: more =>
    if first = Byte.dollar && more.head?.any isDigit then false
    else
      opensUampIdentifier (first :: more) || first = Byte.doubleQuote || first = Byte.backtick || first = Byte.openBracket ||
        isIdentifierStart first

/-- `sqlparser_source_identifier_end` -/
def sourceIdentifierEnd (rest : Text) : Text :=
  if opensUampIdentifier rest then uampIdentifierSpanEnd lexer (quotedIdentifierEnd Byte.doubleQuote (rest.drop 3))
  else
    match rest with
    | first :: more =>
      if first = Byte.doubleQuote || first = Byte.backtick then quotedIdentifierEnd first more
      else if first = Byte.openBracket then quotedIdentifierEnd Byte.closeBracket more
      else identifierEnd rest
    | [] => []

/-- The end of the token at a position: of a string, of an identifier or of one byte. -/
def tokenEnd (rest : Text) : Text :=
  (stringEnd lexer rest).getD (if isIdentifier rest then sourceIdentifierEnd lexer rest else rest.drop 1)

/-! ## Where the tokens end -/

/-- The rest behind a closing byte, unless it is the end of the text. -/
def Closed (closing : UInt8) (rest after : Text) : Prop :=
  after = [] ∨ ∃ front, rest = front ++ closing :: after

theorem Closed.suffix {closing : UInt8} {rest after : Text} (closed : Closed closing rest after) : after <:+ rest := by
  rcases closed with rfl | ⟨front, rfl⟩
  · exact List.nil_suffix
  · exact ⟨front ++ [closing], by rw [List.append_assoc, List.singleton_append]⟩

theorem Closed.mono {closing : UInt8} {rest whole after : Text} (closed : Closed closing rest after) (suffix : rest <:+ whole) :
    Closed closing whole after := by
  rcases closed with rfl | ⟨front, rfl⟩
  · exact .inl rfl
  · obtain ⟨before, rfl⟩ := suffix
    exact .inr ⟨before ++ front, by rw [List.append_assoc]⟩

theorem skipQuotedString_closed (quote : UInt8) (backslashEscapes : Bool) (rest : Text) :
    Closed quote rest (skipQuotedString quote backslashEscapes rest) := by
  fun_induction skipQuotedString quote backslashEscapes rest with
  | case1 => exact .inl rfl
  | case2 => exact .inl rfl
  | case3 rest inductionHypothesis => exact inductionHypothesis.mono ((List.suffix_cons _ _).trans (List.suffix_cons _ _))
  | case4 second rest other => exact .inr ⟨[], rfl⟩
  | case5 first second rest plain escaped inductionHypothesis =>
    exact inductionHypothesis.mono ((List.suffix_cons _ _).trans (List.suffix_cons _ _))
  | case6 first second rest plain escaped inductionHypothesis => exact inductionHypothesis.mono (List.suffix_cons _ _)

theorem behindQQuote_closed (close : UInt8) (rest : Text) : Closed Byte.quote rest (behindQQuote close rest) := by
  induction rest with
  | nil => exact .inl rfl
  | cons byte rest inductionHypothesis =>
    rw [behindQQuote]
    split
    next closes =>
      cases rest with
      | nil => exact .inl rfl
      | cons mark rest =>
        have isQuote : mark = Byte.quote := Option.some.inj closes.2
        exact .inr ⟨[byte], by rw [isQuote]; rfl⟩
    · exact inductionHypothesis.mono (List.suffix_cons _ _)

theorem identifierEnd_suffix (rest : Text) : identifierEnd rest <:+ rest := by
  unfold identifierEnd
  split
  · split
    · exact (List.dropWhile_suffix _).trans (List.suffix_cons _ _)
    · exact List.suffix_refl _
  · exact List.suffix_refl _

theorem skipTrivia_suffix (rest : Text) : skipTrivia lexer rest <:+ rest := by
  fun_induction skipTrivia lexer rest with
  | case1 => exact List.suffix_refl _
  | case2 byte more space inductionHypothesis => exact inductionHypothesis.trans (List.suffix_cons _ _)
  | case3 byte more space opens inductionHypothesis =>
    exact inductionHypothesis.trans ((untilLineBreak_suffix more).trans (List.suffix_cons _ _))
  | case4 byte more space line opens inductionHypothesis =>
    exact inductionHypothesis.trans ((skipBlockComment_suffix 1 _).trans ((List.drop_suffix 1 more).trans (List.suffix_cons _ _)))
  | case5 byte more space line opens => exact List.suffix_refl _

/-- The bytes that end a string or a quoted identifier. -/
def isClosing (byte : UInt8) : Bool :=
  byte = Byte.quote || byte = Byte.doubleQuote || byte = Byte.dollar || byte = Byte.backtick || byte = Byte.closeBracket

/-- What stands behind a byte of a rest stands behind its first byte. -/
theorem tail_suffix {byte : UInt8} {tail rest : Text} (suffix : byte :: tail <:+ rest) : tail <:+ rest.drop 1 := by
  obtain ⟨front, rfl⟩ := suffix
  cases front with
  | nil => exact List.suffix_refl _
  | cons first front => exact ⟨front ++ [byte], by rw [List.append_assoc]; rfl⟩

theorem skipOracleQQuoted_closed {rest after : Text} (found : skipOracleQQuoted rest = some after) :
    Closed Byte.quote (rest.drop 1) after := by
  unfold skipOracleQQuoted at found
  dsimp only at found
  split at found
  next letter mark opening more isQuoted =>
    have suffix : letter :: mark :: opening :: more <:+ rest := by
      rw [← isQuoted]
      split
      · split
        · exact List.suffix_cons _ _
        · exact List.suffix_refl _
      · exact List.nil_suffix
    split at found
    · rw [← Option.some.inj found]
      exact (behindQQuote_closed _ more).mono ((List.suffix_cons _ _).trans ((List.suffix_cons _ _).trans (tail_suffix suffix)))
    · cases found
  · cases found

theorem skipPrefixedString_closed {first second : UInt8} {rest after : Text}
    (found : skipPrefixedString lexer first second rest = some after) : Closed Byte.quote (second :: rest) after := by
  unfold skipPrefixedString at found
  split at found
  · rw [← Option.some.inj found]
    exact (skipQuotedString_closed _ _ _).mono ((List.drop_suffix 1 rest).trans (List.suffix_cons _ _))
  · split at found
    · rw [← Option.some.inj found]
      exact (skipQuotedString_closed _ _ _).mono (List.suffix_cons _ _)
    · split at found
      · rw [← Option.some.inj found]
        exact (skipQuotedString_closed _ _ _).mono (List.suffix_cons _ _)
      · cases found

theorem skipIntroducedString_closed {rest after : Text} (found : skipIntroducedString lexer rest = some after) :
    ∃ closing, isClosing closing = true ∧ Closed closing (rest.drop 1) after := by
  unfold skipIntroducedString at found
  split at found
  · split at found
    next mark more isEnd =>
      split at found
      next isMark =>
        rw [← Option.some.inj found]
        refine ⟨mark, ?_, (skipQuotedString_closed _ _ _).mono (tail_suffix (isEnd ▸ identifierEnd_suffix rest))⟩
        rw [Bool.or_eq_true, decide_eq_true_eq, decide_eq_true_eq] at isMark
        rcases isMark with rfl | rfl <;> rfl
      · cases found
    · cases found
  · cases found

theorem dollarDelimiter_eq {rest delimiter : Text} (found : dollarDelimiter rest = some delimiter) :
    ∃ tag, delimiter = Byte.dollar :: tag ++ [Byte.dollar] := by
  unfold dollarDelimiter at found
  split at found
  · dsimp only at found
    split at found
    · exact ⟨_, (Option.some.inj found).symm⟩
    · cases found
  · cases found

theorem stringEnd_closed {rest after : Text} (found : stringEnd lexer rest = some after) :
    ∃ closing, isClosing closing = true ∧ Closed closing (rest.drop 1) after := by
  unfold stringEnd at found
  split at found
  · cases found
  next first more =>
    split at found
    · rw [← Option.some.inj found]
      exact ⟨Byte.quote, rfl, skipQuotedString_closed _ _ _⟩
    · split at found
      · rw [← Option.some.inj found]
        exact ⟨Byte.doubleQuote, rfl, skipQuotedString_closed _ _ _⟩
      · rw [Option.orElse_eq_some, Option.orElse_eq_some, Option.orElse_eq_some] at found
        rcases found with qQuoted | ⟨-, isPrefixed | ⟨-, introduced | ⟨-, dollar⟩⟩⟩
        · split at qQuoted
          · exact ⟨Byte.quote, rfl, skipOracleQQuoted_closed qQuoted⟩
          · cases qQuoted
        · split at isPrefixed
          · exact ⟨Byte.quote, rfl, skipPrefixedString_closed lexer isPrefixed⟩
          · cases isPrefixed
        · exact skipIntroducedString_closed lexer introduced
        · obtain ⟨delimiter, isDelimiter, isAfter⟩ := Option.map_eq_some_iff.mp dollar
          refine ⟨Byte.dollar, rfl, ?_⟩
          obtain ⟨tag, rfl⟩ := dollarDelimiter_eq isDelimiter
          cases searched : behindDelimiter (Byte.dollar :: tag ++ [Byte.dollar])
            ((first :: more).drop (Byte.dollar :: tag ++ [Byte.dollar]).length) with
          | none =>
            rw [searched] at isAfter
            exact .inl isAfter.symm
          | some tail =>
            rw [searched] at isAfter
            rw [← isAfter]
            have suffix : (first :: more).drop (Byte.dollar :: tag ++ [Byte.dollar]).length <:+ more :=
              List.drop_suffix _ more
            obtain ⟨front, isRest⟩ := behindDelimiter_split searched
            refine Closed.mono (.inr ⟨front ++ Byte.dollar :: tag, ?_⟩) suffix
            rw [isRest]
            simp

/-! ## Tokens -/

theorem uampIdentifierSpanEnd_closed {quoteEnd rest : Text} (closed : Closed Byte.doubleQuote rest quoteEnd) :
    ∃ closing, isClosing closing = true ∧ Closed closing rest (uampIdentifierSpanEnd lexer quoteEnd) := by
  unfold uampIdentifierSpanEnd
  dsimp only
  split
  · split
    next opening escape closing behind isBehind =>
      split
      next quotes =>
        have suffix : opening :: escape :: closing :: behind <:+ quoteEnd := by
          rw [← isBehind]
          exact (skipTrivia_suffix lexer _).trans ((identifierEnd_suffix _).trans (skipTrivia_suffix lexer _))
        refine ⟨Byte.quote, rfl, ?_⟩
        obtain ⟨front, isEnd⟩ := suffix.trans closed.suffix
        exact .inr ⟨front ++ [opening, escape], by rw [← isEnd, quotes.2, List.append_assoc]; rfl⟩
      · exact ⟨Byte.doubleQuote, rfl, closed⟩
    · exact ⟨Byte.doubleQuote, rfl, closed⟩
  · exact ⟨Byte.doubleQuote, rfl, closed⟩

theorem isIdentifier_cons (first : UInt8) (more : Text) :
    isIdentifier (first :: more) =
      (!(first = Byte.dollar && more.head?.any isDigit) &&
        (opensUampIdentifier (first :: more) || (first = Byte.doubleQuote || first = Byte.backtick) || first = Byte.openBracket ||
          isIdentifierStart first)) := by
  rw [isIdentifier, ← Bool.or_assoc]
  cases first = Byte.dollar && more.head?.any isDigit <;> rfl

/-- A word runs as long as it can. -/
def IsWord (token after : Text) : Prop :=
  ∃ byte word, token = byte :: word ++ after ∧ isIdentifierStart byte = true ∧ (∀ other ∈ word, isIdentifierPart other = true) ∧
    ∀ other ∈ after.head?, isIdentifierPart other = false

theorem identifierEnd_word {byte : UInt8} {more : Text} (starts : isIdentifierStart byte = true) :
    IsWord (byte :: more) (identifierEnd (byte :: more)) := by
  refine ⟨byte, more.takeWhile isIdentifierPart, ?_, starts, fun other listed => List.mem_takeWhile_imp listed, ?_⟩
  · rw [identifierEnd, if_pos starts, List.cons_append, List.takeWhile_append_dropWhile]
  · rw [identifierEnd, if_pos starts]
    intro other isHead
    have refused := List.head?_dropWhile_not isIdentifierPart more
    rw [Option.mem_def.mp isHead] at refused
    simpa using refused

/-- A token ends with a closing byte, or is a word, or a single byte that does not start one. -/
theorem tokenEnd_cases {token : Text} (present : token ≠ []) :
    (∃ closing, isClosing closing = true ∧ Closed closing (token.drop 1) (tokenEnd lexer token)) ∨
      IsWord token (tokenEnd lexer token) ∨
      ∃ byte, token = byte :: tokenEnd lexer token ∧ (isIdentifierStart byte = false ∨ byte = Byte.dollar) := by
  unfold tokenEnd
  cases found : stringEnd lexer token with
  | some after => exact .inl (stringEnd_closed lexer found)
  | none =>
    rw [Option.getD_none]
    cases token with
    | nil => exact absurd rfl present
    | cons first more =>
      split
      next identifier =>
        unfold sourceIdentifierEnd
        split
        next opens =>
          refine .inl ?_
          obtain ⟨closing, closes, closed⟩ :=
            uampIdentifierSpanEnd_closed lexer (skipQuotedString_closed Byte.doubleQuote false ((first :: more).drop 3))
          exact ⟨closing, closes, closed.mono (List.drop_suffix 2 more)⟩
        next plain =>
          dsimp only
          split
          next isQuote =>
            refine .inl ⟨first, ?_, skipQuotedString_closed _ _ _⟩
            rw [Bool.or_eq_true, decide_eq_true_eq, decide_eq_true_eq] at isQuote
            rcases isQuote with rfl | rfl <;> rfl
          next notQuote =>
            split
            · exact .inl ⟨Byte.closeBracket, rfl, skipQuotedString_closed _ _ _⟩
            next notBracket =>
              refine .inr (.inl (identifierEnd_word ?_))
              rw [isIdentifier_cons, Bool.and_eq_true, Bool.or_eq_true, Bool.or_eq_true, Bool.or_eq_true] at identifier
              rcases identifier.2 with ((uamp | quote) | bracket) | starts
              · exact absurd uamp plain
              · exact absurd quote notQuote
              · exact absurd (of_decide_eq_true bracket) notBracket
              · exact starts
      next notIdentifier =>
        refine .inr (.inr ⟨first, rfl, ?_⟩)
        rw [isIdentifier_cons, Bool.and_eq_true, not_and_or] at notIdentifier
        rcases notIdentifier with dollar | other
        · rw [Bool.not_eq_true, Bool.not_eq_false', Bool.and_eq_true, decide_eq_true_eq] at dollar
          exact .inr dollar.1
        · rw [Bool.or_eq_true, not_or, Bool.not_eq_true, Bool.not_eq_true] at other
          exact .inl other.2

end lexing

end SqlParser.Core.Source
