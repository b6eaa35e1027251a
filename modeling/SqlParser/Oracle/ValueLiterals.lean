import SqlParser.Oracle.ValueIdentity

/-! # The literals of a VALUES list

When the literal of an item is the one that its text denotes. The decoder looks at the outer
quotes only, and `strtoll` saturates: the literal is right exactly on the texts on which
neither shows.
-/

namespace SqlParser.Oracle

open SqlParser.Core
open SqlParser.Library.Decimal (accumulate)

/-! ## What a text denotes -/

def isSignText (sign : Text) : Prop :=
  sign = [] ∨ sign = [43] ∨ sign = [Byte.dash]

/-- A text that is one literal token, with the literal that it denotes. -/
inductive Denotes : Text → Literal → Prop
  | null {text : Text} (same : text.map toLower = ascii "null") : Denotes text .null
  | string (content : Text) : Denotes (Byte.quote :: (pgStringContent content ++ [Byte.quote])) (.string content)
  | integer {sign digits : Text} (signed : isSignText sign) (present : digits ≠ []) (areDigits : ∀ byte ∈ digits, isDigit byte) :
    Denotes (sign ++ digits) (.integer (if sign = [Byte.dash] then -accumulate 0 digits else accumulate 0 digits))
  | float {sign whole fraction : Text} (signed : isSignText sign) (present : whole ++ fraction ≠ [])
      (areDigits : ∀ byte ∈ whole ++ fraction, isDigit byte) :
    Denotes (sign ++ (whole ++ Byte.dot :: fraction)) (.float (sign ++ (whole ++ Byte.dot :: fraction)))

/-- Every quote of the text is one of a pair. -/
def pairsQuotes : Text → Bool
  | [] => true
  | [byte] => byte ≠ Byte.quote
  | byte :: next :: rest =>
    if byte = Byte.quote then next = Byte.quote && pairsQuotes rest else pairsQuotes (next :: rest)

/-- The number that the digits of an integer denote. -/
def integerValue (text : Text) : Int :=
  if byteAt text 0 = Byte.dash then -accumulate 0 (behindSign text) else accumulate 0 (behindSign text)

/-- A text that begins and ends with a quote is one constant. -/
def QuotesOneConstant (text : Text) : Prop :=
  2 ≤ text.length → byteAt text 0 = Byte.quote → byteAt text (text.length - 1) = Byte.quote →
    pairsQuotes (slice text 1 (text.length - 1))

/-- The number of an integer is one of 64 bits. -/
def FitsInt64 (text : Text) : Prop :=
  textIsIntegerLiteral text → -2 ^ 63 ≤ integerValue text ∧ integerValue text ≤ 2 ^ 63 - 1

/-! ## Strings -/

section strings

variable {text content : Text}

theorem decodeQuoted_plain {byte : UInt8} (plain : byte ≠ Byte.quote) (rest : Text) :
    (decodeQuoted (byte :: rest)).1 = byte :: (decodeQuoted rest).1 := by
  cases rest with
  | nil => rfl
  | cons next behind => rw [decodeQuoted, if_neg fun doubled => plain doubled.1]

theorem decodeQuoted_content (content : Text) : (decodeQuoted (pgStringContent content)).1 = content := by
  induction content with
  | nil => rfl
  | cons byte content inductionHypothesis =>
    rw [pgStringContent, List.flatMap_cons, ← pgStringContent]
    split
    next isQuote =>
      subst isQuote
      simp only [List.cons_append, List.nil_append, decodeQuoted, inductionHypothesis]
      rw [if_pos ⟨trivial, trivial⟩]
    next plain => rw [List.singleton_append, decodeQuoted_plain plain, inductionHypothesis]

theorem pairsQuotes_content (content : Text) : pairsQuotes (pgStringContent content) := by
  induction content with
  | nil => rfl
  | cons byte content inductionHypothesis =>
    rw [pgStringContent, List.flatMap_cons, ← pgStringContent]
    split
    next isQuote =>
      subst isQuote
      simpa [pairsQuotes] using inductionHypothesis
    next plain =>
      rw [List.singleton_append]
      cases behind : pgStringContent content with
      | nil => simpa [pairsQuotes] using plain
      | cons next rest =>
        rw [pairsQuotes, if_neg plain, ← behind]
        exact inductionHypothesis

/-- Where quotes stand in pairs only, decoding undoes the doubling. -/
theorem content_decodeQuoted (pairs : pairsQuotes text) : pgStringContent (decodeQuoted text).1 = text := by
  fun_induction pairsQuotes text with
  | case1 => rfl
  | case2 byte =>
    have plain : byte ≠ Byte.quote := by simpa using pairs
    simp [decodeQuoted, pgStringContent, plain]
  | case3 next rest inductionHypothesis =>
    obtain ⟨doubled, pairs⟩ := Bool.and_eq_true_iff.mp pairs
    have isQuote : next = Byte.quote := of_decide_eq_true doubled
    subst isQuote
    rw [decodeQuoted, if_pos ⟨rfl, rfl⟩, pgStringContent, List.flatMap_cons, ← pgStringContent,
      inductionHypothesis pairs]
    rfl
  | case4 byte next rest plain inductionHypothesis =>
    rw [decodeQuoted_plain plain, pgStringContent, List.flatMap_cons, ← pgStringContent, inductionHypothesis pairs,
      if_neg plain]
    rfl

/-- A text between two quotes. -/
theorem quoted_iff {inner : Text} :
    (2 ≤ text.length ∧ byteAt text 0 = Byte.quote ∧ byteAt text (text.length - 1) = Byte.quote ∧
      slice text 1 (text.length - 1) = inner) ↔ text = Byte.quote :: (inner ++ [Byte.quote]) := by
  constructor
  · rintro ⟨long, first, last, rfl⟩
    have behind : text.drop (text.length - 1) = [Byte.quote] := by
      rw [drop_eq_byteAt (by omega), last, show text.length - 1 + 1 = text.length by omega, List.drop_length]
    have front : text.take (text.length - 1) = Byte.quote :: slice text 1 (text.length - 1) := by
      have split := @drop_eq_byteAt (text.take (text.length - 1)) 0 (by rw [List.length_take]; omega)
      rw [List.drop_zero] at split
      rw [split, slice]
      congr 1
      rw [← first, byteAt, byteAt, List.getD_eq_getElem?_getD, List.getD_eq_getElem?_getD, List.getElem?_take, if_pos (by omega)]
    calc text = text.take (text.length - 1) ++ text.drop (text.length - 1) := (List.take_append_drop _ _).symm
      _ = Byte.quote :: (slice text 1 (text.length - 1) ++ [Byte.quote]) := by rw [front, behind, List.cons_append]
  · rintro rfl
    have lengths : (Byte.quote :: (inner ++ [Byte.quote])).length = inner.length + 2 := by simp
    refine ⟨by omega, rfl, ?_, ?_⟩
    · rw [lengths, show inner.length + 2 - 1 = inner.length + 1 by omega, byteAt_cons_succ, byteAt]
      simp
    · rw [lengths, slice, show inner.length + 2 - 1 = inner.length + 1 by omega, List.take_succ_cons, List.drop_one,
        List.tail_cons, List.take_left]

theorem unquoteStringLiteral_some :
    (unquoteStringLiteralWithLength text text.length).map Prod.fst = some content ↔
      ∃ inner, text = Byte.quote :: (inner ++ [Byte.quote]) ∧ (decodeQuoted inner).1 = content := by
  rw [unquoteStringLiteralWithLength]
  constructor
  · intro decoded
    split at decoded
    next => cases decoded
    next quoted =>
      simp only [not_or, not_not, Nat.not_lt] at quoted
      exact ⟨_, quoted_iff.mp ⟨quoted.1, quoted.2.1, quoted.2.2, rfl⟩, Option.some.inj decoded⟩
  · rintro ⟨inner, quoted, decoded⟩
    obtain ⟨long, first, last, between⟩ := quoted_iff.mpr quoted
    rw [if_neg (by simp only [not_or, not_not, Nat.not_lt]; exact ⟨long, first, last⟩), between]
    exact congrArg some decoded

end strings

/-! ## Numbers -/

section numbers

variable {text : Text}

theorem behindSign_append {sign rest : Text} (signed : isSignText sign) (unsigned : isSign (byteAt rest 0) = false) :
    behindSign (sign ++ rest) = rest ∧ (byteAt (sign ++ rest) 0 = Byte.dash ↔ sign = [Byte.dash]) := by
  obtain rfl | rfl | rfl := signed
  · refine ⟨if_neg (by simpa using unsigned), fun dash => ?_, fun dash => nomatch dash⟩
    rw [List.nil_append] at dash
    rw [dash] at unsigned
    cases unsigned
  · exact ⟨rfl, by simp [byteAt]⟩
  · exact ⟨rfl, fun _ => rfl, fun _ => rfl⟩

theorem exists_sign (text : Text) :
    ∃ sign, isSignText sign ∧ text = sign ++ behindSign text ∧ (sign = [Byte.dash] ↔ byteAt text 0 = Byte.dash) := by
  rw [behindSign]
  split
  next signed =>
    cases text with
    | nil => cases signed
    | cons byte rest =>
      have isByte : byte = 43 ∨ byte = Byte.dash := by simpa [isSign, byteAt] using signed
      refine ⟨[byte], ?_, rfl, by simp [byteAt]⟩
      obtain rfl | rfl := isByte
      · exact .inr (.inl rfl)
      · exact .inr (.inr rfl)
  next unsigned =>
    refine ⟨[], .inl rfl, rfl, ?_, ?_⟩
    · simp
    · intro dash
      rw [dash] at unsigned
      exact absurd rfl unsigned

theorem digit_unsigned {byte : UInt8} (number : isDigit byte ∨ byte = Byte.dot) : isSign byte = false := by
  revert byte
  decide +kernel

theorem denotes_integer_iff {value : Int} :
    Denotes text (.integer value) ↔ textIsIntegerLiteral text ∧ integerValue text = value := by
  rw [textIsIntegerLiteral_iff]
  constructor
  · intro denotes
    generalize literal : Literal.integer value = denoted at denotes
    cases denotes with
    | integer signed present areDigits =>
      rename_i sign digits
      obtain ⟨digit, rest, rfl⟩ := List.exists_cons_of_ne_nil present
      have unsigned := digit_unsigned (.inl (areDigits digit List.mem_cons_self))
      obtain ⟨behind, dash⟩ := @behindSign_append sign (digit :: rest) signed unsigned
      rw [integerValue, behind]
      refine ⟨⟨present, areDigits⟩, ?_⟩
      rw [Literal.integer.inj literal]
      exact if_congr dash rfl rfl
    | null | string | float => cases literal
  · rintro ⟨⟨present, areDigits⟩, rfl⟩
    obtain ⟨sign, signed, split, dash⟩ := exists_sign text
    have denotes := Denotes.integer signed present areDigits
    rw [← split] at denotes
    rwa [integerValue, ← if_congr dash rfl rfl]

theorem denotes_float_iff {value : Text} :
    Denotes text (.float value) ↔ textIsFloatLiteral text ∧ text = value := by
  rw [textIsFloatLiteral_iff]
  constructor
  · intro denotes
    generalize literal : Literal.float value = denoted at denotes
    cases denotes with
    | float signed present areDigits =>
      rename_i sign whole fraction
      have unsigned : isSign (byteAt (whole ++ Byte.dot :: fraction) 0) = false := by
        cases whole with
        | nil => rfl
        | cons digit whole => exact digit_unsigned (.inl (areDigits digit List.mem_cons_self))
      exact ⟨⟨whole, fraction, (behindSign_append signed unsigned).1, present, areDigits⟩, (Literal.float.inj literal).symm⟩
    | null | string | integer => cases literal
  · rintro ⟨⟨whole, fraction, split, present, areDigits⟩, rfl⟩
    obtain ⟨sign, signed, whole', -⟩ := exists_sign text
    rw [whole', split]
    exact .float signed present areDigits

theorem denotes_null_iff : Denotes text .null ↔ asciiTextEqual text (ascii "null") := by
  have lower : (ascii "null").map toLower = ascii "null" := by decide
  rw [asciiTextEqual, decide_eq_true_eq, lower]
  constructor
  · rintro ⟨same⟩
    exact same
  · exact .null

theorem denotes_string_iff {content : Text} :
    Denotes text (.string content) ↔ text = Byte.quote :: (pgStringContent content ++ [Byte.quote]) := by
  constructor
  · intro denotes
    cases denotes
    rfl
  · rintro rfl
    exact .string content

/-- Behind its sign an integer begins with a digit, and a float with a digit or its dot. -/
theorem number_first (number : textIsIntegerLiteral text ∨ textIsFloatLiteral text) :
    isDigit (byteAt text 0) ∨ isSign (byteAt text 0) ∨ byteAt text 0 = Byte.dot := by
  have first : isDigit (byteAt (behindSign text) 0) ∨ byteAt (behindSign text) 0 = Byte.dot := by
    obtain isInteger | isFloat := number
    · rw [textIsIntegerLiteral, Bool.and_eq_true] at isInteger
      exact .inl isInteger.1
    · obtain ⟨whole, fraction, split, -, areDigits⟩ := textIsFloatLiteral_iff.mp isFloat
      rw [split]
      cases whole with
      | nil => exact .inr rfl
      | cons digit whole => exact .inl (areDigits digit List.mem_cons_self)
  by_cases signed : isSign (byteAt text 0)
  · exact .inr (.inl signed)
  · rw [behindSign, if_neg signed] at first
    exact first.imp_right .inr

theorem strtoll_integer (isInteger : textIsIntegerLiteral text) :
    strtoll text = (clampInt64 (integerValue text), []) := by
  obtain ⟨present, areDigits⟩ := textIsIntegerLiteral_iff.mp isInteger
  have closed : ∀ byte : UInt8, isDigit byte ∨ isSign byte ∨ byte = Byte.dot → isSpace byte = false := by decide +kernel
  have unspaced : text.dropWhile isSpace = text := by
    have first := closed _ (number_first (.inl isInteger))
    cases text with
    | nil => rfl
    | cons byte rest => exact List.dropWhile_cons_of_neg (by simpa [byteAt] using first)
  have all : (behindSign text).takeWhile isDigit = behindSign text := List.takeWhile_eq_self_iff.mpr areDigits
  have none : (behindSign text).dropWhile isDigit = [] := List.dropWhile_eq_nil_iff.mpr areDigits
  simp only [strtoll, unspaced, all, none]
  rw [if_neg present]
  rfl

theorem integer_not_float (isFloat : textIsFloatLiteral text) : textIsIntegerLiteral text = false := by
  obtain ⟨whole, fraction, split, -⟩ := textIsFloatLiteral_iff.mp isFloat
  rw [Bool.eq_false_iff]
  intro isInteger
  have digit := (textIsIntegerLiteral_iff.mp isInteger).2 Byte.dot (split ▸ List.mem_append_right _ List.mem_cons_self)
  cases digit

end numbers

/-! ## The literal of an item -/

section literals

variable {text : Text}

theorem plainLiteral_eq (text : Text) :
    (valueFillLiteralWithFacts text {}).1 =
      if asciiTextEqual text (ascii "null") then some .null
      else if byteAt text 0 = Byte.quote then
        ((unquoteStringLiteralWithLength text text.length).map Prod.fst).map Literal.string
      else if textIsIntegerLiteral text then some (.integer (clampInt64 (integerValue text)))
      else if textIsFloatLiteral text then some (.float text)
      else none := by
  have plain : (if (0 : Nat) ≠ 0 then ValueFactClass.unknown else .unknown) = .unknown := rfl
  by_cases isNull : asciiTextEqual text (ascii "null")
  · have branch : literalBranch text .unknown = some .null := by simp [literalBranch, isNull]
    simp [valueFillLiteralWithFacts, branch, isNull]
  · by_cases quoted : byteAt text 0 = Byte.quote
    · have branch : literalBranch text .unknown = some .string := literalBranch_string quoted
      simp only [valueFillLiteralWithFacts, plain, branch, if_neg isNull, if_pos quoted, reduceCtorEq, if_false]
      cases unquoteStringLiteralWithLength text text.length <;> rfl
    · by_cases isInteger : textIsIntegerLiteral text
      · have branch : literalBranch text .unknown = some .integer := by simp [literalBranch, isNull, quoted, isInteger]
        simp [valueFillLiteralWithFacts, branch, isNull, quoted, isInteger, strtoll_integer isInteger]
      · by_cases isFloat : textIsFloatLiteral text
        · have branch : literalBranch text .unknown = some .float := by
            simp [literalBranch, isNull, quoted, isInteger, isFloat]
          simp [valueFillLiteralWithFacts, branch, isNull, quoted, isInteger, isFloat]
        · have branch : literalBranch text .unknown = none := by
            simp [literalBranch, isNull, quoted, isInteger, isFloat]
          simp [valueFillLiteralWithFacts, branch, isNull, quoted, isInteger, isFloat]

theorem plainLiteral_null :
    (valueFillLiteralWithFacts text {}).1 = some .null ↔ asciiTextEqual text (ascii "null") := by
  rw [plainLiteral_eq]
  split_ifs with isNull <;> simp_all

theorem plainLiteral_string {content : Text} :
    (valueFillLiteralWithFacts text {}).1 = some (.string content) ↔
      (unquoteStringLiteralWithLength text text.length).map Prod.fst = some content := by
  have quotes (found : (unquoteStringLiteralWithLength text text.length).map Prod.fst = some content) :
      byteAt text 0 = Byte.quote := by
    obtain ⟨inner, rfl, -⟩ := unquoteStringLiteral_some.mp found
    rfl
  rw [plainLiteral_eq]
  split_ifs with isNull quoted isInteger isFloat
  · refine ⟨fun other => (nomatch other), fun found => ?_⟩
    rw [asciiTextEqual_first (quotes found) (by decide)] at isNull
    cases isNull
  · simp
  all_goals exact ⟨fun other => (nomatch other), fun found => absurd (quotes found) quoted⟩

theorem plainLiteral_integer {value : Int} :
    (valueFillLiteralWithFacts text {}).1 = some (.integer value) ↔
      textIsIntegerLiteral text ∧ clampInt64 (integerValue text) = value := by
  have closed (isInteger : textIsIntegerLiteral text) := numberFirst_closed (number_first (.inl isInteger))
  rw [plainLiteral_eq]
  split_ifs with isNull quoted isInteger isFloat
  · refine ⟨fun other => (nomatch other), fun found => ?_⟩
    rw [(closed found.1).1] at isNull
    cases isNull
  · refine ⟨fun other => ?_, fun found => absurd quoted (closed found.1).2⟩
    cases unquoted : (unquoteStringLiteralWithLength text text.length).map Prod.fst <;> rw [unquoted] at other <;> cases other
  · simp [isInteger]
  all_goals exact ⟨fun other => (nomatch other), fun found => absurd found.1 isInteger⟩

theorem plainLiteral_float {value : Text} :
    (valueFillLiteralWithFacts text {}).1 = some (.float value) ↔ textIsFloatLiteral text ∧ text = value := by
  have closed (isFloat : textIsFloatLiteral text) := numberFirst_closed (number_first (.inr isFloat))
  rw [plainLiteral_eq]
  split_ifs with isNull quoted isInteger isFloat
  · refine ⟨fun other => (nomatch other), fun found => ?_⟩
    rw [(closed found.1).1] at isNull
    cases isNull
  · refine ⟨fun other => ?_, fun found => absurd quoted (closed found.1).2⟩
    cases unquoted : (unquoteStringLiteralWithLength text text.length).map Prod.fst <;> rw [unquoted] at other <;> cases other
  · refine ⟨fun other => (nomatch other), fun found => ?_⟩
    rw [integer_not_float found.1] at isInteger
    cases isInteger
  · simp [isFloat]
  · exact ⟨fun other => (nomatch other), fun found => absurd found.1 isFloat⟩

/-- The strings are right where a text between quotes is one constant. -/
theorem strings_denote_iff :
    (∀ content, (valueFillLiteralWithFacts text {}).1 = some (.string content) ↔ Denotes text (.string content)) ↔
      QuotesOneConstant text := by
  simp only [plainLiteral_string, denotes_string_iff, unquoteStringLiteral_some]
  constructor
  · intro agree long first last
    have quoted := quoted_iff.mp ⟨long, first, last, rfl⟩
    have same := (agree _).mp ⟨_, quoted, rfl⟩
    have inner := (quoted_iff.mpr same).2.2.2
    rw [inner]
    exact pairsQuotes_content _
  · intro constant content
    constructor
    · rintro ⟨inner, quoted, rfl⟩
      obtain ⟨long, first, last, between⟩ := quoted_iff.mpr quoted
      rw [content_decodeQuoted (between ▸ constant long first last), quoted]
    · rintro rfl
      exact ⟨_, rfl, decodeQuoted_content content⟩

theorem clampInt64_eq_iff {value : Int} : clampInt64 value = value ↔ -2 ^ 63 ≤ value ∧ value ≤ 2 ^ 63 - 1 := by
  unfold clampInt64
  omega

/-- The integers are right where the number fits. -/
theorem integers_denote_iff :
    (∀ value, (valueFillLiteralWithFacts text {}).1 = some (.integer value) ↔ Denotes text (.integer value)) ↔
      FitsInt64 text := by
  simp only [plainLiteral_integer, denotes_integer_iff]
  constructor
  · intro agree isInteger
    exact clampInt64_eq_iff.mp ((agree (integerValue text)).mpr ⟨isInteger, rfl⟩).2
  · intro fits value
    constructor
    · rintro ⟨isInteger, rfl⟩
      exact ⟨isInteger, (clampInt64_eq_iff.mpr (fits isInteger)).symm⟩
    · rintro ⟨isInteger, rfl⟩
      exact ⟨isInteger, clampInt64_eq_iff.mpr (fits isInteger)⟩

theorem plainLiteral_denotes_iff :
    (∀ literal, (valueFillLiteralWithFacts text {}).1 = some literal ↔ Denotes text literal) ↔
      QuotesOneConstant text ∧ FitsInt64 text := by
  rw [← strings_denote_iff, ← integers_denote_iff]
  constructor
  · exact fun agree => ⟨fun content => agree _, fun value => agree _⟩
  · rintro ⟨strings, integers⟩ literal
    cases literal with
    | null => rw [plainLiteral_null, denotes_null_iff]
    | string content => exact strings content
    | integer value => exact integers value
    | float value => rw [plainLiteral_float, denotes_float_iff]

/-- The literal of an item is the one of the plain classifier, whatever the facts. -/
theorem parseValueItem_literal {sql : Text} {start stop : Nat} {state changed : OracleState} {value : MultiInsertValue}
    (accepted : parseValueItem sql start stop state = .ok (changed, value)) (notBind : value.bind = none) :
    value.literal = (valueFillLiteralWithFacts (trimmedSlice sql start stop) {}).1 := by
  have fill {facts : ValueFacts} {parserSql : Text} {changed : OracleState}
      (preprocessed : preprocessValueText (trimmedSlice sql start stop) state = .ok (changed, parserSql, facts)) :
      valueFillLiteralWithFacts (trimmedSlice sql start stop) facts =
        valueFillLiteralWithFacts (trimmedSlice sql start stop) {} := by
    rw [preprocessValueText] at preprocessed
    split at preprocessed
    next =>
      obtain ⟨⟨_, _⟩, -, same⟩ := ok_of_map preprocessed
      cases same
      rfl
    next known =>
      cases preprocessed
      exact valueFillLiteral_known known
  rw [parseValueItem] at accepted
  split at accepted
  next => cases accepted
  next changed' parserSql facts preprocessed =>
    split at accepted
    next =>
      obtain ⟨bind, -, same⟩ := ok_of_map accepted
      cases same
      cases notBind
    next =>
      cases accepted
      exact congrArg Prod.fst (fill preprocessed)

end literals

/-- An item that is not a bind has exactly the literal that its text denotes if and only if the text is not
several tokens between two quotes, and no integer outside of 64 bits. -/
theorem value_item_denotes_iff {sql : Text} {start stop : Nat} {state changed : OracleState} {value : MultiInsertValue}
    (accepted : parseValueItem sql start stop state = .ok (changed, value)) (notBind : value.bind = none) :
    (∀ literal, value.literal = some literal ↔ Denotes (trimmedSlice sql start stop) literal) ↔
      QuotesOneConstant (trimmedSlice sql start stop) ∧ FitsInt64 (trimmedSlice sql start stop) := by
  rw [parseValueItem_literal accepted notBind]
  exact plainLiteral_denotes_iff

theorem value_item_denotes_iff_constant :
    ∃ changed value, parseValueItem (ascii " 'it''s' ") 0 9 {} = .ok (changed, value) ∧
      ∀ literal, value.literal = some literal ↔ Denotes (trimmedSlice (ascii " 'it''s' ") 0 9) literal := by
  have accepted : parseValueItem (ascii " 'it''s' ") 0 9 {} = .ok (countLiteral {},
      ⟨ascii "'it''s'", ascii "'it''s'", none, some (.string (ascii "it's")), true, true⟩) := rfl
  refine ⟨_, _, accepted, (value_item_denotes_iff accepted rfl).mpr ⟨?_, ?_⟩⟩
  · exact fun _ _ _ => by decide
  · exact fun isInteger => absurd isInteger (by decide)

/-- The concatenation of two strings is preprocessed to itself. -/
theorem preprocessText_concatenation :
    preprocessText (ascii "'a' || 'b'") {} = .ok (countLiteral (countLiteral {}), ascii "'a' || 'b'") := by
  have first : nextPiece (ascii "'a' || 'b'") none 0 = .ok ⟨0, 3, .verbatim⟩ := rfl
  have last : nextPiece (ascii "'a' || 'b'") none 7 = .ok ⟨7, 10, .verbatim⟩ := rfl
  rw [preprocessText, preprocessLoop_turn (by decide) first rfl]
  dsimp only [intoBehind]
  rw [preprocessLoop_code (by decide) rfl, preprocessLoop_code (by decide) rfl, preprocessLoop_code (by decide) rfl,
    preprocessLoop_code (by decide) rfl, preprocessLoop_turn (by decide) last rfl, preprocessLoop_end (by decide)]
  rfl

/-- Two strings with an operator between them are taken for one string. -/
theorem value_item_concatenation :
    ∃ changed value, parseValueItem (ascii "'a' || 'b'") 0 10 {} = .ok (changed, value) ∧ value.bind = none ∧
      value.literal = some (.string (ascii "a' || 'b")) ∧
      ¬ ∀ literal, value.literal = some literal ↔ Denotes (trimmedSlice (ascii "'a' || 'b'") 0 10) literal := by
  have trimmed : trimmedSlice (ascii "'a' || 'b'") 0 10 = ascii "'a' || 'b'" := by decide
  have unknown : valueIdentityFacts (ascii "'a' || 'b'") = {} := by decide
  have preprocessed : preprocessValueText (ascii "'a' || 'b'") {} =
      .ok (countLiteral (countLiteral {}), ascii "'a' || 'b'", {}) := by
    rw [preprocessValueText, unknown, if_pos rfl, preprocessText_concatenation]
    rfl
  have noBind : exactBind (ascii "'a' || 'b'") {} {} (countLiteral (countLiteral {})) = none := by
    rw [exactBind, if_pos rfl, Option.filter_eq_none_iff]
    exact fun _ _ => by decide
  refine ⟨countLiteral (countLiteral {}),
    ⟨ascii "'a' || 'b'", ascii "'a' || 'b'", none, some (.string (ascii "a' || 'b")), false, true⟩, ?_, rfl, rfl, ?_⟩
  · simp only [parseValueItem, trimmed, preprocessed, noBind]
    rfl
  · intro agree
    rw [trimmed] at agree
    have denotes := (agree _).mp rfl
    rw [denotes_string_iff] at denotes
    exact absurd denotes (by decide)

end SqlParser.Oracle
