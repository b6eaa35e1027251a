import SqlParser.Oracle.PreprocessPublicLexer
import SqlParser.Oracle.ValueItems

/-! # The shortcut for a value of one token

An item that `sqlparser_oracle_value_identity_facts` knows is kept as it is. The preprocessor would
have left it alone too: it reads a string constant as one piece, and a number or a bare keyword
byte by byte.
-/

namespace SqlParser.Oracle

open SqlParser.Core

/-! ## Turns of the loop -/

section turns

variable {sql out written : Text} {intoStart : Option Nat} {index : Nat} {state finished : OracleState} {piece : Piece}

theorem preprocessLoop_turn (inside : index < sql.length) (read : nextPiece sql intoStart index = .ok piece)
    (finishes : finishPiece sql state piece = .ok (finished, written)) :
    preprocessLoop sql intoStart index state out =
      preprocessLoop sql (intoBehind intoStart piece) piece.stop finished (out ++ written) := by
  rw [preprocessLoop, dif_pos inside]
  split
  next fails => rw [read] at fails; cases fails
  next taken =>
    rw [read] at taken
    cases taken
    rw [finishes]

theorem preprocessLoop_end (beyond : sql.length ≤ index) :
    preprocessLoop sql intoStart index state out = .ok (state, out) := by
  rw [preprocessLoop, dif_neg (Nat.not_lt_of_le beyond)]

theorem preprocessLoop_code (inside : index < sql.length) (read : nextPiece sql intoStart index = .ok ⟨index, index + 1, .code⟩) :
    preprocessLoop sql intoStart index state out =
      preprocessLoop sql intoStart (index + 1) state (out ++ [byteAt sql index]) := by
  rw [preprocessLoop_turn inside read rfl]
  have one : slice sql index (index + 1) = [byteAt sql index] := by
    rw [slice, List.drop_take, Nat.add_sub_cancel_left, drop_eq_byteAt inside]
    rfl
  rw [one]
  rfl

/-- Code up to the end of the text is copied. -/
theorem preprocessLoop_codes (inside : index ≤ sql.length)
    (code : ∀ position, index ≤ position → position < sql.length →
      nextPiece sql intoStart position = .ok ⟨position, position + 1, .code⟩) :
    preprocessLoop sql intoStart index state out = .ok (state, out ++ sql.drop index) := by
  induction inside using Nat.decreasingInduction generalizing out with
  | self => rw [preprocessLoop_end le_rfl, List.drop_length, List.append_nil]
  | of_succ position before inductionHypothesis =>
    rw [preprocessLoop_code before (code position le_rfl before),
      inductionHypothesis fun later starts => code later (by omega), drop_eq_byteAt before, List.append_assoc]
    rfl

end turns

/-! ## Code -/

/-- The words that the loop replaces or counts. -/
def rewrittenWords : List Text :=
  [ascii "connect_by_root", ascii "connect", ascii "start", ascii "nocycle", ascii "prior", ascii "returning",
    ascii "minus", ascii "except"]

theorem rewrittenWords_lower : ∀ word ∈ rewrittenWords, 0 < word.length ∧ word.map toLower = word := by
  decide

section code

variable {sql : Text} {index : Nat}

theorem hierarchyInternalKeyword_none (noWord : ∀ word ∈ rewrittenWords, asciiWordEqual sql index word = false) :
    hierarchyInternalKeyword sql index = none := by
  have root := noWord (ascii "connect_by_root") (by decide)
  have connect := noWord (ascii "connect") (by decide)
  have start := noWord (ascii "start") (by decide)
  have nocycle := noWord (ascii "nocycle") (by decide)
  have prior := noWord (ascii "prior") (by decide)
  simp [hierarchyInternalKeyword, root, connect, start, nocycle, prior]

theorem databaseLinkAt_none (noAt : Byte.at' ∉ sql) : databaseLinkAt sql index = .ok none := by
  rw [databaseLinkAt]
  split
  next => rfl
  next parts objectStart objectStop named =>
    rw [if_pos]
    intro isAt
    have inside := lt_of_byteAt (isAt.trans_ne (by decide))
    apply noAt
    rw [← isAt, byteAt, List.getD_eq_getElem _ _ inside]
    exact List.getElem_mem inside

theorem nextCode_code (noWord : ∀ word ∈ rewrittenWords, asciiWordEqual sql index word = false)
    (noQuestion : byteAt sql index ≠ Byte.question) (noColon : byteAt sql index ≠ Byte.colon) :
    nextCode sql none index = ⟨index, index + 1, .code⟩ := by
  have returning := noWord (ascii "returning") (by decide)
  have minus := noWord (ascii "minus") (by decide)
  have except := noWord (ascii "except") (by decide)
  simp [nextCode, returning, minus, except, noQuestion, noColon]

/-- Where nothing is replaced, the loop takes one byte of code. -/
theorem nextPiece_code (plain : PlainAt sql index) (noAt : Byte.at' ∉ sql)
    (noWord : ∀ word ∈ rewrittenWords, asciiWordEqual sql index word = false)
    (noQuestion : byteAt sql index ≠ Byte.question) (noColon : byteAt sql index ≠ Byte.colon) :
    nextPiece sql none index = .ok ⟨index, index + 1, .code⟩ := by
  have noHierarchy : (if isIdentStart (byteAt sql index) then hierarchyInternalKeyword sql index else none) = none := by
    rw [hierarchyInternalKeyword_none noWord, ite_self]
  have noLink : (if isIdentStart (byteAt sql index) || byteAt sql index = Byte.doubleQuote then databaseLinkAt sql index
      else .ok none) = .ok none := by
    rw [databaseLinkAt_none noAt, ite_self]
  simp only [nextPiece]
  rw [plain.noPrefix, plain.notNational, if_neg (lt_irrefl 0), if_neg (by decide), noHierarchy]
  simp only [noLink]
  rw [if_neg (Nat.not_lt_of_le plain.notCopied), nextCode_code noWord noQuestion noColon]

/-- A byte that neither opens anything nor stands for anything else. -/
def isInert (byte : UInt8) : Bool :=
  isAlnum byte || byte = Byte.underscore || isSign byte || byte = Byte.dot

/-- The classes of bytes beside each other, read off their table. -/
theorem inert_classes : ∀ byte : UInt8,
    (isInert byte ∨ byte = 0 →
        byte ≠ Byte.quote ∧ byte ≠ Byte.doubleQuote ∧ byte ≠ Byte.dollar ∧ byte ≠ Byte.slash ∧ byte ≠ Byte.at' ∧
          byte ≠ Byte.question ∧ byte ≠ Byte.colon) ∧
      ((isDigit byte ∨ byte = Byte.dot) ∨ isSign byte →
        isInert byte ∧ isAlpha byte = false ∧ toLower byte ≠ 110 ∧ byte ≠ Byte.quote) ∧
      (isIdentStart byte →
        isInert byte ∧ byte ≠ Byte.dash ∧ isIdentChar byte ∧ byte < 128 ∧ byte ≠ Byte.quote ∧ isSign byte = false ∧
          isDigit byte = false ∧ byte ≠ Byte.dot) ∧
      (isIdentStart (toLower byte) → isIdentStart byte) ∧ isAlpha (toLower byte) = isAlpha byte := by
  decide +kernel

theorem isInert_closed {byte : UInt8} (inert : isInert byte ∨ byte = 0) :
    byte ≠ Byte.quote ∧ byte ≠ Byte.doubleQuote ∧ byte ≠ Byte.dollar ∧ byte ≠ Byte.slash ∧ byte ≠ Byte.at' ∧
      byte ≠ Byte.question ∧ byte ≠ Byte.colon :=
  (inert_classes byte).1 inert

theorem number_closed {byte : UInt8} (number : (isDigit byte ∨ byte = Byte.dot) ∨ isSign byte) :
    isInert byte ∧ isAlpha byte = false ∧ toLower byte ≠ 110 ∧ byte ≠ Byte.quote :=
  (inert_classes byte).2.1 number

theorem identStart_closed {byte : UInt8} (starts : isIdentStart byte) :
    isInert byte ∧ byte ≠ Byte.dash ∧ isIdentChar byte ∧ byte < 128 ∧ byte ≠ Byte.quote ∧ isSign byte = false ∧
      isDigit byte = false ∧ byte ≠ Byte.dot :=
  (inert_classes byte).2.2.1 starts

/-- A text of inert bytes in which no comment begins. -/
structure Bare (sql : Text) : Prop where
  inert : ∀ byte ∈ sql, isInert byte
  noComment : ∀ index, byteAt sql index = Byte.dash → byteAt sql (index + 1) ≠ Byte.dash

theorem Bare.byteAt (bare : Bare sql) (index : Nat) : isInert (byteAt sql index) ∨ byteAt sql index = 0 := by
  cases Nat.lt_or_ge index sql.length with
  | inl inside => exact .inl (bare.inert _ (byteAt_mem inside))
  | inr beyond => exact .inr (byteAt_of_le beyond)

theorem Bare.plainAt (bare : Bare sql) (index : Nat) : PlainAt sql index := by
  have noQuote (position : Nat) : Core.byteAt sql position ≠ Byte.quote := (isInert_closed (bare.byteAt position)).1
  obtain ⟨-, noDouble, noDollar, noSlash, -⟩ := isInert_closed (bare.byteAt index)
  constructor
  · obtain noPrefix | ⟨-, -, quoted⟩ | ⟨-, -, -, quoted⟩ := qQuotePrefixLength_cases sql index
    · exact noPrefix
    · exact absurd quoted (noQuote _)
    · exact absurd quoted (noQuote _)
  · rw [isNStringLiteral, decide_eq_false (noQuote (index + 1)), Bool.and_false]
  · apply Nat.le_of_not_lt
    rw [lt_copyQuotedOrComment_iff noDollar]
    rintro ((quoted | quoted) | ⟨first, second⟩ | ⟨first, -⟩)
    · exact noQuote index quoted
    · exact noDouble quoted
    · exact bare.noComment index first second
    · exact noSlash first

theorem Bare.noAt (bare : Bare sql) : Byte.at' ∉ sql :=
  fun member => (isInert_closed (.inl (bare.inert _ member))).2.2.2.2.1 rfl

/-- A text of inert bytes without the words that are replaced is copied. -/
theorem Bare.preprocessText (bare : Bare sql)
    (noWord : ∀ index, index < sql.length → ∀ word ∈ rewrittenWords, asciiWordEqual sql index word = false) (state : OracleState) :
    preprocessText sql state = .ok (state, sql) := by
  rw [Oracle.preprocessText, preprocessLoop_codes (Nat.zero_le _)]
  · rfl
  · intro position _ inside
    obtain ⟨-, -, -, -, -, noQuestion, noColon⟩ := isInert_closed (bare.byteAt position)
    exact nextPiece_code (bare.plainAt position) bare.noAt (noWord position inside) noQuestion noColon

end code

/-! ## Numbers and keywords -/

section tokens

variable {sql : Text}

theorem behindSign_mem {byte : UInt8} (member : byte ∈ sql) : byte ∈ behindSign sql ∨ isSign byte := by
  cases sql with
  | nil => cases member
  | cons first rest =>
    rw [behindSign]
    split
    next signed =>
      obtain rfl | later := List.mem_cons.mp member
      · exact .inr signed
      · exact .inl later
    next => exact .inl member

/-- The bytes of a number behind its sign are digits and dots. -/
theorem numberBytes_mem {rest : Text} {sawDigit sawDot : Bool} {result : Bool × Bool}
    (read : numberBytes rest sawDigit sawDot = some result) {byte : UInt8} (member : byte ∈ rest) :
    isDigit byte ∨ byte = Byte.dot := by
  obtain ⟨-, digits, -⟩ | ⟨-, -, whole, fraction, rfl, digits, -⟩ := numberBytes_eq_some read
  · exact .inl (digits byte member)
  · obtain inWhole | inFraction := List.mem_append.mp member
    · exact .inl (digits byte (List.mem_append_left _ inWhole))
    · obtain rfl | inFraction := List.mem_cons.mp inFraction
      · exact .inr rfl
      · exact .inl (digits byte (List.mem_append_right _ inFraction))

/-- A digit, a dot and a sign are inert, and none of the words begins with one. -/
theorem numberByte_closed {byte : UInt8} (number : (isDigit byte ∨ byte = Byte.dot) ∨ isSign byte) :
    isInert byte ∧ ∀ word ∈ rewrittenWords, toLower byte ≠ byteAt word 0 := by
  obtain ⟨inert, noLetter, -⟩ := number_closed number
  refine ⟨inert, fun word known same => ?_⟩
  have first : ∀ word ∈ rewrittenWords, isAlpha (byteAt word 0) := by decide
  have lowered : isAlpha (toLower byte) = isAlpha byte := (inert_classes byte).2.2.2.2
  rw [same, first word known, noLetter] at lowered
  cases lowered

theorem preprocessText_number {result : Bool × Bool} (read : numberBytes (behindSign sql) false false = some result)
    (state : OracleState) : preprocessText sql state = .ok (state, sql) := by
  have closed {byte : UInt8} (member : byte ∈ sql) :=
    numberByte_closed ((behindSign_mem member).imp_left (numberBytes_mem read))
  have bare : Bare sql := by
    refine ⟨fun byte member => (closed member).1, fun index first second => ?_⟩
    -- the second dash stands behind the sign
    have inside := lt_of_byteAt (second.trans_ne (by decide))
    have behind : byteAt sql (index + 1) ∈ behindSign sql := by
      cases sql with
      | nil => cases inside
      | cons byte rest =>
        have inRest : byteAt rest index ∈ rest := byteAt_mem (Nat.lt_of_succ_lt_succ inside)
        rw [byteAt_cons_succ, behindSign]
        split
        next => exact inRest
        next => exact List.mem_cons_of_mem _ inRest
    rw [second] at behind
    obtain digit | dot := numberBytes_mem read behind
    · cases digit
    · cases dot
  apply bare.preprocessText
  intro index inside word known
  rw [Bool.eq_false_iff]
  intro found
  obtain ⟨positive, lower⟩ := rewrittenWords_lower word known
  have first := toLower_byteAt_word (asciiWordEqual_spelled found lower) positive
  exact (closed (byteAt_mem inside)).2 word known first

/-- A name of letters and underscores that is none of the words is copied. -/
theorem preprocessText_name (letters : ∀ byte ∈ sql, isIdentStart byte)
    (noWord : ∀ word ∈ rewrittenWords, sql.map toLower ≠ word) (state : OracleState) :
    preprocessText sql state = .ok (state, sql) := by
  have bare : Bare sql := by
    refine ⟨fun byte member => (identStart_closed (letters byte member)).1, fun index first => ?_⟩
    have inside := lt_of_byteAt (first.trans_ne (by decide))
    exact absurd first (identStart_closed (letters _ (byteAt_mem inside))).2.1
  have identChar {index : Nat} (inside : index < sql.length) : isIdentChar (byteAt sql index) :=
    (identStart_closed (letters _ (byteAt_mem inside))).2.2.1
  apply bare.preprocessText
  intro index inside word known
  rw [Bool.eq_false_iff]
  intro found
  have lower := (rewrittenWords_lower word known).2
  have spelled := asciiWordEqual_spelled found lower
  simp only [asciiWordEqual, isWordBoundary, Bool.and_eq_true, Bool.not_eq_true', Bool.and_eq_false_iff] at found
  obtain ⟨-, before, behind⟩ := found
  -- a word is the whole name, as both its ends are boundaries
  have start : index = 0 := by
    obtain first | other := before
    · simpa using first
    · rw [identChar (by omega)] at other
      cases other
  subst start
  have whole : sql.length ≤ word.length := by
    by_contra longer
    rw [identChar (by omega)] at behind
    cases behind
  rw [List.drop_zero, List.take_of_length_le whole] at spelled
  exact noWord word known spelled

theorem asciiTextEqual_letters {keyword : Text} (same : asciiTextEqual sql keyword)
    (letters : ∀ byte ∈ keyword.map toLower, isIdentStart byte) : ∀ byte ∈ sql, isIdentStart byte := by
  intro byte member
  have folded : sql.map toLower = keyword.map toLower := of_decide_eq_true same
  exact (inert_classes byte).2.2.2.1 (letters _ (folded ▸ List.mem_map_of_mem member))

theorem preprocessText_keyword {keyword : Text} (same : asciiTextEqual sql keyword)
    (letters : ∀ byte ∈ keyword.map toLower, isIdentStart byte) (noWord : keyword.map toLower ∉ rewrittenWords)
    (state : OracleState) : preprocessText sql state = .ok (state, sql) := by
  have folded : sql.map toLower = keyword.map toLower := of_decide_eq_true same
  apply preprocessText_name (asciiTextEqual_letters same letters)
  intro word known equal
  exact noWord (folded ▸ equal ▸ known)

end tokens

/-! ## String constants -/

section strings

variable {sql : Text}

theorem ordinaryStringLength_some {pos length : Nat} {rest : Text} (ends : ordinaryStringLength pos rest = some length) :
    behindCopiedQuote Byte.quote rest = [] ∧ length = pos + rest.length := by
  fun_induction ordinaryStringLength pos rest with
  | case1 | case2 => cases ends
  | case3 pos byte rest _ notQuote inductionHypothesis =>
    obtain ⟨behind, lengths⟩ := inductionHypothesis ends
    refine ⟨?_, by rw [lengths, List.length_cons]; omega⟩
    cases rest with
    | nil => rfl
    | cons next rest => rw [behindCopiedQuote, if_neg notQuote, behind]
  | case4 pos byte _ _ =>
    cases ends
    exact ⟨rfl, rfl⟩
  | case5 pos byte _ isQuote behind inductionHypothesis =>
    obtain ⟨copied, lengths⟩ := inductionHypothesis ends
    refine ⟨?_, by rw [lengths, List.length_cons, List.length_cons]; omega⟩
    rw [behindCopiedQuote, if_pos (Decidable.not_not.mp isQuote), if_pos rfl, copied]
  | case6 => cases ends

theorem preprocessText_string {length : Nat} (first : byteAt sql 0 = Byte.quote)
    (ends : ordinaryStringLength 1 (sql.drop 1) = some length) (state : OracleState) :
    preprocessText sql state = .ok (countLiteral state, sql) := by
  have inside : 0 < sql.length := lt_of_byteAt (first.trans_ne (by decide))
  have noPrefix : qQuotePrefixLength sql 0 = 0 := noPrefix_of_toLower (by rw [first]; decide) (by rw [first]; decide)
  have notNational : isNStringLiteral sql 0 = false := by
    rw [isNStringLiteral, first]
    rfl
  have copied : copyQuotedOrComment sql 0 = sql.length := by
    rw [copyQuotedOrComment_eq (by rw [first]; decide), if_pos (.inl first), first, (ordinaryStringLength_some ends).1]
    rfl
  have read : nextPiece sql none 0 = .ok ⟨0, sql.length, .verbatim⟩ := by
    have noName : isIdentStart (byteAt sql 0) = false := by
      rw [first]
      rfl
    have notDouble : byteAt sql 0 ≠ Byte.doubleQuote := by
      rw [first]
      decide
    simp [nextPiece, noPrefix, notNational, noName, notDouble, copied, inside]
  have source : slice sql 0 sql.length = sql := by rw [slice, List.take_length, List.drop_zero]
  have finishes : finishPiece sql state ⟨0, sql.length, .verbatim⟩ = .ok (countLiteral state, sql) := by
    simp [finishPiece, first, source]
  rw [preprocessText, preprocessLoop_turn inside read finishes, preprocessLoop_end le_rfl]
  rfl

end strings

/-! ## The recorded class -/

section classes

variable {text : Text}

/-- The tokens that have facts. -/
inductive KnownToken (text : Text) : ValueFacts → Prop
  | string {length : Nat} (first : byteAt text 0 = Byte.quote) (ends : ordinaryStringLength 1 (text.drop 1) = some length) :
    KnownToken text ⟨length, 1, .string⟩
  | number {sawDot : Bool} (first : isDigit (byteAt text 0) ∨ isSign (byteAt text 0) ∨ byteAt text 0 = Byte.dot)
      (read : numberBytes (behindSign text) false false = some (true, sawDot)) :
    KnownToken text ⟨text.length, 2, if sawDot then .float else .integer⟩
  | null (same : asciiTextEqual text (ascii "null")) : KnownToken text ⟨4, 2, .null⟩
  | keyword {keyword : Text} (known : keyword ∈ sqlvalueKeywords) (same : asciiTextEqual text keyword) :
    KnownToken text ⟨keyword.length, 2, .sqlvalue⟩

theorem sqlvalueKeywords_names : ∀ keyword ∈ sqlvalueKeywords, keyword.map toLower ∉ rewrittenWords ∧
    keyword.map toLower ≠ ascii "null" ∧ keyword ≠ [] ∧ ∀ byte ∈ keyword.map toLower, isIdentStart byte := by
  decide +kernel

theorem null_name : (ascii "null").map toLower ∉ rewrittenWords ∧ ∀ byte ∈ (ascii "null").map toLower, isIdentStart byte := by
  decide +kernel

theorem valueIdentityFacts_known (known : (valueIdentityFacts text).identityKind ≠ 0) :
    KnownToken text (valueIdentityFacts text) := by
  revert known
  rw [valueIdentityFacts]
  split
  next first =>
    split
    next length ends => exact fun _ => .string first ends
    next => exact fun unknown => absurd rfl unknown
  next =>
    split
    next first =>
      split
      next sawDot read => exact fun _ => .number first read
      next => exact fun unknown => absurd rfl unknown
    next =>
      split
      next same => exact fun _ => .null same
      next =>
        split
        next keyword found =>
          have member := List.mem_of_find?_eq_some found
          have same : asciiTextEqual text keyword := List.find?_some (p := (asciiTextEqual text ·)) found
          have small : (text.take keyword.length).all (· < 128) := by
            have letters := asciiTextEqual_letters same (sqlvalueKeywords_names keyword member).2.2.2
            rw [List.all_eq_true]
            intro byte taken
            exact decide_eq_true (identStart_closed (letters byte (List.take_subset _ _ taken))).2.2.2.1
          rw [if_pos small]
          exact fun _ => .keyword member same
        next => exact fun unknown => absurd rfl unknown

/-- The branch of the plain classifier on a name is that of NULL or none. -/
theorem literalBranch_name (present : text ≠ []) (letters : ∀ byte ∈ text, isIdentStart byte) :
    literalBranch text .unknown = if asciiTextEqual text (ascii "null") then some .null else none := by
  obtain ⟨first, rest, rfl⟩ := List.exists_cons_of_ne_nil present
  obtain ⟨-, -, -, -, noQuote, noSign, noDigit, -⟩ := identStart_closed (letters first List.mem_cons_self)
  have unsigned : behindSign (first :: rest) = first :: rest := if_neg (by simpa [byteAt] using noSign)
  have noInteger : textIsIntegerLiteral (first :: rest) = false := by
    rw [textIsIntegerLiteral, unsigned]
    simp [byteAt, noDigit]
  have noFloat : textIsFloatLiteral (first :: rest) = false := by
    rw [Bool.eq_false_iff]
    intro isFloat
    obtain ⟨whole, fraction, split, -⟩ := textIsFloatLiteral_iff.mp isFloat
    rw [unsigned] at split
    have dot := letters Byte.dot (split ▸ List.mem_append_right _ List.mem_cons_self)
    exact absurd dot (by decide)
  have unquoted : byteAt (first :: rest) 0 ≠ Byte.quote := noQuote
  simp [literalBranch, unquoted, noInteger, noFloat]

theorem asciiTextEqual_first {byte : UInt8} (first : byteAt text 0 = byte) (other : toLower byte ≠ 110) :
    asciiTextEqual text (ascii "null") = false := by
  rw [asciiTextEqual, decide_eq_false]
  intro same
  have here := congrArg (byteAt · 0) same
  cases text with
  | nil => cases same
  | cons head rest =>
    rw [show head = byte from first] at here
    exact other here

theorem numberFirst_closed (first : isDigit (byteAt text 0) ∨ isSign (byteAt text 0) ∨ byteAt text 0 = Byte.dot) :
    asciiTextEqual text (ascii "null") = false ∧ byteAt text 0 ≠ Byte.quote := by
  obtain ⟨-, -, noN, noQuote⟩ := number_closed (or_right_comm.mp (or_assoc.mpr first))
  exact ⟨asciiTextEqual_first rfl noN, noQuote⟩

theorem literalBranch_string (first : byteAt text 0 = Byte.quote) : literalBranch text .unknown = some .string := by
  have noNull := asciiTextEqual_first first (by decide)
  simp [literalBranch, noNull, first]

theorem literalBranch_number {sawDot : Bool}
    (first : isDigit (byteAt text 0) ∨ isSign (byteAt text 0) ∨ byteAt text 0 = Byte.dot)
    (read : numberBytes (behindSign text) false false = some (true, sawDot)) :
    literalBranch text .unknown = some (if sawDot then .float else .integer) := by
  obtain ⟨noNull, noQuote⟩ := numberFirst_closed first
  obtain ⟨rfl, digits, any⟩ | ⟨-, rfl, whole, fraction, split, digits, any⟩ := numberBytes_eq_some read
  · have isInteger : textIsIntegerLiteral text := textIsIntegerLiteral_iff.mpr ⟨by simpa using any, digits⟩
    simp [literalBranch, noNull, noQuote, isInteger]
  · have isFloat : textIsFloatLiteral text := by
      rw [textIsFloatLiteral, read]
      rfl
    have notInteger : textIsIntegerLiteral text = false := by
      rw [Bool.eq_false_iff]
      intro isInteger
      have digit := (textIsIntegerLiteral_iff.mp isInteger).2 Byte.dot (split ▸ List.mem_append_right _ List.mem_cons_self)
      cases digit
    simp [literalBranch, noNull, noQuote, notInteger, isFloat]

/-- What the preprocessor does with a text that has facts, and what the plain classifier makes of it. -/
theorem KnownToken.agrees {facts : ValueFacts} (token : KnownToken text facts) (state : OracleState) :
    preprocessText text state = .ok (if facts.identityKind = 1 then countLiteral state else state, text) ∧
      facts.length = text.length ∧
      literalBranch text .unknown = if facts.literalClass = .sqlvalue then none else some facts.literalClass := by
  cases token with
  | string first ends =>
    refine ⟨preprocessText_string first ends state, ?_, literalBranch_string first⟩
    have inside : 0 < text.length := lt_of_byteAt (first.trans_ne (by decide))
    have lengths := (ordinaryStringLength_some ends).2
    rw [List.length_drop] at lengths
    dsimp only
    omega
  | number first read =>
    refine ⟨preprocessText_number read state, rfl, ?_⟩
    rename_i sawDot
    rw [literalBranch_number first read]
    cases sawDot <;> rfl
  | null same =>
    refine ⟨preprocessText_keyword same null_name.2 null_name.1 state, ?_, ?_⟩
    · have lengths := congrArg List.length (of_decide_eq_true same)
      rw [List.length_map, List.length_map] at lengths
      exact lengths.symm
    · have present : text ≠ [] := by
        rintro rfl
        cases same
      rw [literalBranch_name present (asciiTextEqual_letters same null_name.2), if_pos same]
      rfl
  | keyword known same =>
    rename_i keyword
    obtain ⟨noWord, noNull, present, letters⟩ := sqlvalueKeywords_names keyword known
    have folded : text.map toLower = keyword.map toLower := of_decide_eq_true same
    have lengths := congrArg List.length folded
    rw [List.length_map, List.length_map] at lengths
    refine ⟨preprocessText_keyword same letters noWord state, lengths.symm, ?_⟩
    have presentText : text ≠ [] := by
      rintro rfl
      exact present (List.length_eq_zero_iff.mp lengths.symm)
    have notNull : asciiTextEqual text (ascii "null") = false := by
      rw [asciiTextEqual, folded]
      exact decide_eq_false noNull
    rw [literalBranch_name presentText (asciiTextEqual_letters same letters), notNull]
    rfl

end classes

theorem preprocessValueText_known {text : Text} (known : (valueIdentityFacts text).identityKind ≠ 0) (state : OracleState) :
    preprocessValueText text state =
      .ok (if (valueIdentityFacts text).identityKind = 1 then countLiteral state else state, text, valueIdentityFacts text) := by
  have lengths := ((valueIdentityFacts_known known).agrees state).2.1
  rw [preprocessValueText, if_neg known, lengths, List.take_length]

/-- The literal of a text with facts is the one that the plain classifier makes. -/
theorem valueFillLiteral_known {text : Text} (known : (valueIdentityFacts text).identityKind ≠ 0) :
    valueFillLiteralWithFacts text (valueIdentityFacts text) = valueFillLiteralWithFacts text {} := by
  have token := valueIdentityFacts_known known
  obtain ⟨-, lengths, branch⟩ := token.agrees {}
  have unknown : literalBranch text
      (if ({} : ValueFacts).identityKind ≠ 0 then ({} : ValueFacts).literalClass else .unknown) =
        if (valueIdentityFacts text).literalClass = .sqlvalue then none else some (valueIdentityFacts text).literalClass :=
    branch
  rw [valueFillLiteralWithFacts.eq_def text {}]
  dsimp only
  rw [unknown]
  generalize valueIdentityFacts text = facts at token lengths ⊢
  cases token with
  | string first ends =>
    rw [valueFillLiteralWithFacts, ← lengths]
    rfl
  | number first read =>
    rename_i sawDot
    cases sawDot <;> rfl
  | null | keyword => rfl

/-- The shortcut for a text with facts is the preprocessor, and its class the one of the plain classifier. -/
theorem value_identity_is_preprocess (text : Text) (state : OracleState)
    (known : (valueIdentityFacts text).identityKind ≠ 0) :
    ∃ changed, preprocessValueText text state = .ok (changed, text, valueIdentityFacts text) ∧
      preprocessText text state = .ok (changed, text) ∧
      ((valueIdentityFacts text).identityKind = 1 ∧ changed = countLiteral state ∨
        (valueIdentityFacts text).identityKind = 2 ∧ changed = state) ∧
      (valueIdentityFacts text).length = text.length ∧
      (literalBranch text .unknown =
        if (valueIdentityFacts text).literalClass = .sqlvalue then none else some (valueIdentityFacts text).literalClass) ∧
      valueFillLiteralWithFacts text (valueIdentityFacts text) = valueFillLiteralWithFacts text {} := by
  have token := valueIdentityFacts_known known
  obtain ⟨copies, lengths, branch⟩ := token.agrees state
  refine ⟨_, preprocessValueText_known known state, copies, ?_, lengths, branch, ?_⟩
  · generalize valueIdentityFacts text = facts at token ⊢
    cases token with
    | string => exact .inl ⟨rfl, rfl⟩
    | number | null | keyword => exact .inr ⟨rfl, rfl⟩
  · exact valueFillLiteral_known known

theorem value_identity_is_preprocess_string :
    ∃ changed, preprocessText (ascii "'it''s'") {} = .ok (changed, ascii "'it''s'") ∧ changed = countLiteral {} := by
  obtain ⟨changed, -, copies, ⟨-, counted⟩ | ⟨plain, -⟩, -⟩ :=
    value_identity_is_preprocess (ascii "'it''s'") {} (by decide)
  · exact ⟨changed, copies, counted⟩
  · exact absurd plain (by decide)

end SqlParser.Oracle
