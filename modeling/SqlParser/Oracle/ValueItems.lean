import SqlParser.Oracle.Preprocess

/-! # The items of a VALUES list

`sqlparser_oracle_parse_value_item_with_span_proof` trims an item of a multi-table INSERT,
preprocesses it, and keeps it as a bind or looks for a literal in it. An item that is one token
is recognised first, and then neither preprocessed nor classified.
-/

namespace SqlParser.Oracle

open SqlParser.Core
open SqlParser.Library.Decimal (accumulate decimal)

/-! ## Numbers -/

def isSign (byte : UInt8) : Bool :=
  byte = 43 || byte = Byte.dash

def behindSign (text : Text) : Text :=
  if isSign (byteAt text 0) then text.drop 1 else text

/-- `sqlparser_oracle_text_is_integer_literal` -/
def textIsIntegerLiteral (text : Text) : Bool :=
  isDigit (byteAt (behindSign text) 0) && (behindSign text).dropWhile isDigit = []

/-- The bytes of a number up to the end of the text: whether they have a digit, whether they have a dot. -/
def numberBytes : Text → Bool → Bool → Option (Bool × Bool)
  | [], sawDigit, sawDot => some (sawDigit, sawDot)
  | byte :: rest, sawDigit, sawDot =>
    if isDigit byte then numberBytes rest true sawDot
    else if byte = Byte.dot ∧ sawDot = false then numberBytes rest sawDigit true
    else none

/-- `sqlparser_oracle_text_is_float_literal` -/
def textIsFloatLiteral (text : Text) : Bool :=
  match numberBytes (behindSign text) false false with
  | some (sawDigit, sawDot) => sawDigit && sawDot
  | none => false

section numbers

variable {whole rest : Text} {sawDigit sawDot anyDigit anyDot : Bool}

theorem numberBytes_append (digits : ∀ byte ∈ whole, isDigit byte) :
    numberBytes (whole ++ rest) sawDigit sawDot = numberBytes rest (sawDigit || decide (whole ≠ [])) sawDot := by
  induction whole generalizing sawDigit with
  | nil => simp
  | cons byte whole inductionHypothesis =>
    rw [List.cons_append, numberBytes, if_pos (digits byte List.mem_cons_self),
      inductionHypothesis fun other member => digits other (List.mem_cons_of_mem _ member)]
    simp

theorem numberBytes_digits (digits : ∀ byte ∈ whole, isDigit byte) :
    numberBytes whole sawDigit sawDot = some (sawDigit || decide (whole ≠ []), sawDot) := by
  have appended := @numberBytes_append whole [] sawDigit sawDot digits
  rwa [List.append_nil, numberBytes] at appended

theorem numberBytes_dotted {fraction : Text} (digits : ∀ byte ∈ whole ++ fraction, isDigit byte) :
    numberBytes (whole ++ Byte.dot :: fraction) sawDigit false =
      some (sawDigit || decide (whole ++ fraction ≠ []), true) := by
  have inWhole : ∀ byte ∈ whole, isDigit byte := fun byte member => digits byte (List.mem_append_left _ member)
  have inFraction : ∀ byte ∈ fraction, isDigit byte := fun byte member => digits byte (List.mem_append_right _ member)
  rw [numberBytes_append inWhole, numberBytes, if_neg (by decide), if_pos ⟨rfl, rfl⟩, numberBytes_digits inFraction]
  cases whole <;> simp

/-- What the bytes of a number are: digits, with one dot among them or with none. -/
theorem numberBytes_eq_some (read : numberBytes rest sawDigit sawDot = some (anyDigit, anyDot)) :
    (anyDot = sawDot ∧ (∀ byte ∈ rest, isDigit byte) ∧ anyDigit = (sawDigit || decide (rest ≠ []))) ∨
      (sawDot = false ∧ anyDot = true ∧ ∃ whole fraction, rest = whole ++ Byte.dot :: fraction ∧
        (∀ byte ∈ whole ++ fraction, isDigit byte) ∧ anyDigit = (sawDigit || decide (whole ++ fraction ≠ []))) := by
  induction rest generalizing sawDigit sawDot with
  | nil =>
    cases read
    exact .inl ⟨rfl, by simp, by simp⟩
  | cons byte rest inductionHypothesis =>
    rw [numberBytes] at read
    split_ifs at read with digit dot
    · obtain ⟨same, digits, any⟩ | ⟨first, second, whole, fraction, rfl, digits, any⟩ := inductionHypothesis read
      · exact .inl ⟨same, List.forall_mem_cons.mpr ⟨digit, digits⟩, by simpa using any⟩
      · exact .inr ⟨first, second, byte :: whole, fraction, rfl, List.forall_mem_cons.mpr ⟨digit, digits⟩, by simpa using any⟩
    · obtain ⟨same, digits, any⟩ | ⟨first, -⟩ := inductionHypothesis read
      · exact .inr ⟨dot.2, same, [], rest, by rw [dot.1]; rfl, digits, any⟩
      · cases first

theorem textIsIntegerLiteral_iff {text : Text} :
    textIsIntegerLiteral text ↔ behindSign text ≠ [] ∧ ∀ byte ∈ behindSign text, isDigit byte := by
  rw [textIsIntegerLiteral, Bool.and_eq_true, decide_eq_true_eq, List.dropWhile_eq_nil_iff]
  constructor
  · rintro ⟨first, digits⟩
    refine ⟨fun empty => ?_, digits⟩
    rw [empty] at first
    cases first
  · rintro ⟨present, digits⟩
    obtain ⟨byte, rest, split⟩ := List.exists_cons_of_ne_nil present
    refine ⟨?_, digits⟩
    rw [split]
    exact digits byte (split ▸ List.mem_cons_self)

theorem textIsFloatLiteral_iff {text : Text} :
    textIsFloatLiteral text ↔ ∃ whole fraction, behindSign text = whole ++ Byte.dot :: fraction ∧
      whole ++ fraction ≠ [] ∧ ∀ byte ∈ whole ++ fraction, isDigit byte := by
  rw [textIsFloatLiteral]
  constructor
  · intro isFloat
    split at isFloat
    next sawDigit sawDot read =>
      obtain ⟨rfl, rfl⟩ := Bool.and_eq_true_iff.mp isFloat
      obtain ⟨same, -⟩ | ⟨-, -, whole, fraction, split, digits, any⟩ := numberBytes_eq_some read
      · cases same
      · rw [Bool.false_or] at any
        exact ⟨whole, fraction, split, of_decide_eq_true any.symm, digits⟩
    next => cases isFloat
  · rintro ⟨whole, fraction, split, present, digits⟩
    rw [split, numberBytes_dotted digits, Bool.false_or, decide_eq_true present]
    rfl

end numbers

/-- `LLONG_MIN` and `LLONG_MAX` around a number that does not fit. -/
def clampInt64 (value : Int) : Int :=
  max (-2 ^ 63) (min value (2 ^ 63 - 1))

/-- `strtoll` of base ten: the number, and where it ends. -/
def strtoll (text : Text) : Int × Text :=
  let signed := text.dropWhile isSpace
  let digits := behindSign signed
  let magnitude : Int := accumulate 0 (digits.takeWhile isDigit)
  if digits.takeWhile isDigit = [] then (0, text)
  else
    (clampInt64 (if byteAt signed 0 = Byte.dash then -magnitude else magnitude), digits.dropWhile isDigit)

/-! ## Strings -/

/-- `sqlparser_oracle_ascii_text_equal` -/
def asciiTextEqual (left right : Text) : Bool :=
  left.map toLower = right.map toLower

/-- The loop of the decoder, over what stands between the outer quotes: the content, and whether it is ordinary. -/
def decodeQuoted : Text → Text × Bool
  | [] => ([], true)
  | byte :: rest =>
    match rest with
    | next :: behind =>
      if byte = Byte.quote ∧ next = Byte.quote then
        (byte :: (decodeQuoted behind).1, (decodeQuoted behind).2)
      else
        (byte :: (decodeQuoted (next :: behind)).1,
          !(byte = Byte.quote || byte = Byte.backslash || isControl byte) && (decodeQuoted (next :: behind)).2)
    | [] => ([byte], !(byte = Byte.quote || byte = Byte.backslash || isControl byte))

/-- `sqlparser_oracle_unquote_string_literal_with_length` -/
def unquoteStringLiteralWithLength (text : Text) (length : Nat) : Option (Text × Bool) :=
  if length < 2 ∨ byteAt text 0 ≠ Byte.quote ∨ byteAt text (length - 1) ≠ Byte.quote then none
  else some (decodeQuoted (slice text 1 (length - 1)))

/-! ## Facts -/

/-- `sqlparser_oracle_value_fact_class_t` -/
inductive ValueFactClass where
  | unknown
  | string
  | integer
  | float
  | null
  | sqlvalue
  deriving DecidableEq, Repr

/-- `sqlparser_oracle_value_facts_t` -/
structure ValueFacts where
  length : Nat := 0
  identityKind : Nat := 0
  literalClass : ValueFactClass := .unknown
  deriving DecidableEq, Repr

/-- The loop over a string constant, entered behind the opening quote: the length, if it ends the text. -/
def ordinaryStringLength (pos : Nat) : Text → Option Nat
  | [] => none
  | byte :: rest =>
    if isControl byte ∨ byte = Byte.backslash then none
    else if byte ≠ Byte.quote then ordinaryStringLength (pos + 1) rest
    else
      match rest with
      | [] => some (pos + 1)
      | next :: behind => if next = Byte.quote then ordinaryStringLength (pos + 2) behind else none

def sqlvalueKeywords : List Text :=
  [ascii "current_date", ascii "current_time", ascii "current_timestamp", ascii "localtime",
    ascii "localtimestamp", ascii "current_role", ascii "current_user", ascii "session_user",
    ascii "user", ascii "current_catalog", ascii "current_schema"]

/-- `sqlparser_oracle_value_identity_facts` -/
def valueIdentityFacts (text : Text) : ValueFacts :=
  if byteAt text 0 = Byte.quote then
    match ordinaryStringLength 1 (text.drop 1) with
    | some length => ⟨length, 1, .string⟩
    | none => {}
  else if isDigit (byteAt text 0) ∨ isSign (byteAt text 0) ∨ byteAt text 0 = Byte.dot then
    match numberBytes (behindSign text) false false with
    | some (true, sawDot) => ⟨text.length, 2, if sawDot then .float else .integer⟩
    | _ => {}
  else if asciiTextEqual text (ascii "null") then ⟨4, 2, .null⟩
  else
    match sqlvalueKeywords.find? (asciiTextEqual text ·) with
    | some keyword =>
      ⟨keyword.length, 2, if (text.take keyword.length).all (· < 128) then .sqlvalue else .unknown⟩
    | none => {}

/-- `sqlparser_oracle_preprocess_value_text_with_facts` -/
def preprocessValueText (input : Text) (state : OracleState) : Except Error (OracleState × Text × ValueFacts) :=
  let facts := valueIdentityFacts input
  if facts.identityKind = 0 then
    (preprocessText input state).map fun (changed, parserSql) => (changed, parserSql, {})
  else .ok (if facts.identityKind = 1 then countLiteral state else state, input.take facts.length, facts)

/-! ## Literals -/

/-- The kinds of `sqlparser_literal_view_t` that an item takes, with their values. -/
inductive Literal where
  | null
  | string (value : Text)
  | integer (value : Int)
  | float (value : Text)
  deriving DecidableEq, Repr

/-- The branch that `sqlparser_oracle_value_fill_literal_with_facts` takes. -/
def literalBranch (publicSql : Text) (literalClass : ValueFactClass) : Option ValueFactClass :=
  let unknown := literalClass = .unknown
  if literalClass = .null ∨ (unknown ∧ asciiTextEqual publicSql (ascii "null")) then some .null
  else if literalClass = .string ∨ (unknown ∧ byteAt publicSql 0 = Byte.quote) then some .string
  else if literalClass = .integer ∨ (unknown ∧ textIsIntegerLiteral publicSql) then some .integer
  else if literalClass = .float ∨ (unknown ∧ textIsFloatLiteral publicSql) then some .float
  else none

/-- `sqlparser_oracle_value_fill_literal_with_facts`: the literal, and whether it is an ordinary string. -/
def valueFillLiteralWithFacts (publicSql : Text) (facts : ValueFacts) : Option Literal × Bool :=
  let literalClass := if facts.identityKind ≠ 0 then facts.literalClass else .unknown
  match literalBranch publicSql literalClass with
  | some .null => (some .null, false)
  | some .string =>
    match unquoteStringLiteralWithLength publicSql
        (if literalClass = .string then facts.length else publicSql.length) with
    | some (content, ordinary) => (some (.string content), ordinary)
    | none => (none, false)
  | some .integer =>
    match strtoll publicSql with
    | (value, []) => (some (.integer value), false)
    | (_, _ :: _) => (none, false)
  | some .float => (some (.float publicSql), false)
  | _ => (none, false)

/-! ## Items -/

/-- `SQLPARSER_BIND_TEXT_CAPACITY` -/
def bindTextCapacity : Nat := 128

/-- `SQLPARSER_BIND_SQL_CAPACITY` -/
def bindSqlCapacity : Nat := 128

/-- The bind of a `sqlparser_dialect_multi_insert_value_t`. -/
structure ValueBind where
  kind : BindKind
  bind : Text
  bindSql : Text
  bindPosition : Nat
  deriving DecidableEq, Repr

/-- `sqlparser_dialect_multi_insert_value_t` with its lexical flags. -/
structure MultiInsertValue where
  publicSql : Text
  parserSql : Text
  bind : Option ValueBind
  literal : Option Literal
  ordinaryString : Bool
  identity : Bool
  deriving DecidableEq, Repr

/-- `sqlparser_oracle_trimmed_slice_dup` -/
def trimmedSlice (sql : Text) (start stop : Nat) : Text :=
  ((slice sql start stop).dropWhile isSpace).rdropWhile isSpace

def bindKeyTooLong : Error := ⟨.resourceLimit, "bind key is too long"⟩

def bindSqlTooLong : Error := ⟨.resourceLimit, "bind SQL is too long"⟩

/-- The bind that an item is, under the number of its occurrence. -/
def valueBindOf (publicSql : Text) (token : BindToken) (position : Nat) : Except Error ValueBind :=
  let key := slice publicSql token.keyStart (token.keyStart + token.keyLength)
  if token.kind = .positional ∧ token.keyLength = 0 then
    if publicSql.length ≥ bindSqlCapacity then .error bindSqlTooLong
    else .ok ⟨token.kind, decimal position, publicSql, position⟩
  else if token.keyLength ≥ bindTextCapacity then .error bindKeyTooLong
  else if publicSql.length ≥ bindSqlCapacity then .error bindSqlTooLong
  else .ok ⟨token.kind, key, publicSql, position⟩

/-- The token of an item that is exactly one bind, and added one occurrence. -/
def exactBind (publicSql : Text) (facts : ValueFacts) (before after : OracleState) : Option BindToken :=
  if facts.identityKind = 0 then
    (bindTokenExact .oracle publicSql publicSql.length 0 publicSql.length).filter
      fun _ => after.bindOccurrenceCount = before.bindOccurrenceCount + 1
  else none

/-- `sqlparser_oracle_parse_value_item_with_span_proof` -/
def parseValueItem (sql : Text) (start stop : Nat) (state : OracleState) :
    Except Error (OracleState × MultiInsertValue) :=
  let publicSql := trimmedSlice sql start stop
  match preprocessValueText publicSql state with
  | .error error => .error error
  | .ok (changed, parserSql, facts) =>
    let identity := facts.identityKind ≠ 0 ∨ publicSql = parserSql
    match exactBind publicSql facts state changed with
    | some token =>
      (valueBindOf publicSql token (state.bindOccurrenceCount + 1)).map fun bind =>
        (changed, ⟨publicSql, parserSql, some bind, none, false, identity⟩)
    | none =>
      let (literal, ordinary) := valueFillLiteralWithFacts publicSql facts
      .ok (changed, ⟨publicSql, parserSql, none, literal, ordinary, identity⟩)

end SqlParser.Oracle
