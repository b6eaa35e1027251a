import SqlParser.Core.Bytes

/-! # The source proof for scalar INSERT statements

`pg_query_prove_identity_scalar_insert` certifies, without a lexer, that a text is one
`INSERT INTO name (names) VALUES (cells), ...` of numbers, plain strings and SQL value
functions.  A reader of the source is a function from the rest of the text to the rest
behind what it accepts.  What only the native tree and the wire graph need of the
certificate is left out.
-/

namespace SqlParser.PgQuery

open SqlParser.Core

/-- What the proof asks of the native parser. -/
structure Natives where
  /-- Whether `ScanKeywords` lists a name. -/
  isKeyword : Text → Bool
  /-- `pg_verify_mbstr` for UTF-8 -/
  validUtf8 : Text → Bool

/-! ## Sizes -/

/-- `MaxAllocSize` -/
def maxAllocSize : Nat := 0x3fffffff

def sourceSize (length : Nat) : Bool :=
  4096 ≤ length && length ≤ maxAllocSize - 2

/-- Three cells of a list make its header, and a cell takes eight bytes. -/
def rowsSize (rows : Nat) : Bool :=
  rows ≤ int32Max / 2 - 3 && rows ≤ maxAllocSize / 8 / 2 - 3

def numberSize (length : Nat) (negative : Bool) : Bool :=
  length ≠ 0 && length ≤ maxAllocSize - (if negative then 2 else 1)

/-- The buffer doubles from 1024 bytes while it is at most half of `MaxAllocSize`. -/
def stringSize (length : Nat) : Bool :=
  length < 2 ^ 29

/-! ## Tokens -/

def gap (rest : Text) : Text :=
  rest.dropWhile isSpace

def nameChar (byte : UInt8) (first : Bool) : Bool :=
  isAlpha byte || byte = Byte.underscore || (!first && isDigit byte)

def lowerCase (byte : UInt8) : UInt8 :=
  if 65 ≤ byte && byte ≤ 90 then byte + 32 else byte

/-- A byte that cannot stand behind a word. -/
def continuesWord (byte : UInt8) : Bool :=
  nameChar byte false || byte = Byte.dollar || byte ≥ 0x80

/-- `pg_query_simple_insert_word` -/
def readWord (constant : String) (rest : Text) : Option Text :=
  let here := gap rest
  let length := (ascii constant).length
  if (here.take length).map lowerCase = ascii constant ∧ continuesWord (byteAt here length) = false then
    some (here.drop length)
  else none

/-- `pg_query_simple_insert_punctuation` -/
def readPunctuation (punctuation : UInt8) (rest : Text) : Option Text :=
  match gap rest with
  | [] => none
  | byte :: behind => if byte = punctuation then some behind else none

/-- `pg_query_simple_insert_name`: the name and the rest behind it. -/
def readName (natives : Natives) (rest : Text) : Option (Text × Text) :=
  match gap rest with
  | [] => none
  | first :: tail =>
    if nameChar first true then
      let name := first :: tail.takeWhile (nameChar · false)
      if natives.isKeyword name then none else some (name, tail.dropWhile (nameChar · false))
    else none

/-! ## Cells -/

/-- The value of the digits, unless it leaves the native integers. -/
def integerValue (digits : Text) : Option Nat :=
  digits.foldl (fun value byte => value.bind fun value =>
    let digit := (byte - 48).toNat
    if value > (int32Max - digit) / 10 then none else some (value * 10 + digit)) (some 0)

/-- The fraction and the exponent behind the digits of a number, if they are well formed, and whether there is one. -/
def readFraction (digits behind : Text) : Option (Text × Bool) :=
  match behind with
  | [] => if digits = [] then none else some ([], false)
  | byte :: rest =>
    if byte = Byte.dot then
      if digits = [] ∧ rest.takeWhile isDigit = [] then none else some (rest.dropWhile isDigit, true)
    else if digits = [] then none
    else some (byte :: rest, false)

def readExponent (behind : Text) : Option (Text × Bool) :=
  match behind with
  | [] => some ([], false)
  | byte :: rest =>
    if byte = 101 ∨ byte = 69 then
      let unsigned := if byteAt rest 0 = 43 ∨ byteAt rest 0 = Byte.dash then rest.drop 1 else rest
      if unsigned.takeWhile isDigit = [] then none else some (unsigned.dropWhile isDigit, true)
    else some (byte :: rest, false)

/-- `pg_query_scalar_insert_number`: the rest behind the number, and whether it is an integer. -/
def readNumber (rest : Text) : Option (Text × Bool) :=
  let negative := byteAt rest 0 = Byte.dash
  let here := if negative then gap (rest.drop 1) else rest
  let digits := here.takeWhile isDigit
  match readFraction digits (here.dropWhile isDigit) with
  | none => none
  | some (fraction, hasFraction) =>
    match readExponent fraction with
    | none => none
    | some (behind, hasExponent) =>
      let isFloat := (integerValue digits).isNone || hasFraction || hasExponent
      if isFloat && !numberSize (here.length - behind.length) negative then none else some (behind, !isFloat)

/-- `pg_query_scalar_insert_string`, entered behind the quote. -/
def readString (natives : Natives) (body : Text) : Option Text :=
  let text := body.takeWhile (· ≠ Byte.quote)
  match body.dropWhile (· ≠ Byte.quote) with
  | [] => none
  | _ :: behind =>
    if text.any fun byte => byte < 0x20 || byte = 0x7f || byte = Byte.backslash then none
    else if !stringSize text.length then none
    else if (text.any fun byte => byte ≥ 0x80) && !natives.validUtf8 text then none
    else some behind

/-- The SQL value functions, and whether they take a precision. -/
def valueFunctions : List (String × Bool) :=
  [("current_timestamp", true), ("current_date", false), ("current_time", true), ("localtimestamp", true),
    ("localtime", true), ("current_role", false), ("current_user", false), ("session_user", false),
    ("user", false), ("current_catalog", false), ("current_schema", false)]

/-- The optional precision of a value function. -/
def readPrecision (rest : Text) : Option Text :=
  match gap rest with
  | [] => some []
  | byte :: tail =>
    if byte = 40 then
      let digits := gap tail
      if !isDigit (byteAt digits 0) then none
      else
        match readNumber digits with
        | some (behind, true) => readPunctuation 41 behind
        | _ => none
    else some (byte :: tail)

/-- `pg_query_scalar_insert_sql_value` -/
def readValueFunction (rest : Text) : List (String × Bool) → Option Text
  | [] => none
  | (word, precision) :: others =>
    match readWord word rest with
    | none => readValueFunction rest others
    | some behind => if precision then readPrecision behind else some (gap behind)

/-- `pg_query_scalar_insert_cell`: the rest behind the cell, and whether it is a string. -/
def readCell (natives : Natives) (rest : Text) : Option (Text × Bool) :=
  match gap rest with
  | [] => none
  | byte :: tail =>
    if byte = Byte.quote then (readString natives tail).map (·, true)
    else if isDigit byte || byte = Byte.dash || byte = Byte.dot then
      (readNumber (byte :: tail)).map fun read => (read.1, false)
    else (readValueFunction (byte :: tail) valueFunctions).map (·, false)

/-! ## Lists -/

/-- The names of the relation, of which `left` may still follow. -/
def readRelation (natives : Natives) (left : Nat) (rest : Text) : Option (List Text × Text) :=
  match left with
  | 0 => none
  | left + 1 =>
    match readName natives rest with
    | none => none
    | some (name, behind) =>
      match gap behind with
      | [] => some ([name], [])
      | byte :: tail =>
        if byte = Byte.dot then (readRelation natives left tail).map fun read => (name :: read.1, read.2)
        else some ([name], byte :: tail)

/-- The cells of a row: how many strings there are among them. -/
def readCells (natives : Natives) (columns : Nat) (rest : Text) : Option (Nat × Text) :=
  match columns with
  | 0 => some (0, rest)
  | columns + 1 =>
    match readCell natives rest with
    | none => none
    | some (behind, isString) =>
      match readPunctuation (if columns = 0 then 41 else 44) behind with
      | none => none
      | some next =>
        (readCells natives columns next).map fun read => (read.1 + (if isString then 1 else 0), read.2)

theorem gap_length (rest : Text) : (gap rest).length ≤ rest.length :=
  (List.dropWhile_suffix _).length_le

theorem readPunctuation_shorter {punctuation : UInt8} {rest behind : Text}
    (read : readPunctuation punctuation rest = some behind) : behind.length < rest.length := by
  have := gap_length rest
  rw [readPunctuation] at read
  split at read
  next => cases read
  next byte tail here =>
    rw [here, List.length_cons] at this
    split at read
    next =>
      cases read
      exact this
    next => cases read

theorem readName_shorter {natives : Natives} {rest name behind : Text}
    (read : readName natives rest = some (name, behind)) : behind.length < rest.length := by
  have blanks := gap_length rest
  rw [readName] at read
  split at read
  next => cases read
  next first tail here =>
    rw [here, List.length_cons] at blanks
    have := (List.dropWhile_suffix (l := tail) (nameChar · false)).length_le
    dsimp only at read
    split_ifs at read
    cases read
    omega

/-- The names of the columns, of which some have been read. -/
def readColumns (natives : Natives) (seen : Nat) (rest : Text) : Option (List Text × Text) :=
  match _read : readName natives rest with
  | none => none
  | some (name, behind) =>
    if !rowsSize (seen + 1) then none
    else
      match _more : gap behind with
      | [] => some ([name], [])
      | byte :: tail =>
        if byte = 44 then (readColumns natives (seen + 1) tail).map fun read => (name :: read.1, read.2)
        else some ([name], byte :: tail)
termination_by rest.length
decreasing_by
  have shorter := readName_shorter _read
  have blanks := gap_length behind
  rw [_more, List.length_cons] at blanks
  omega

/-! ## What the readers pass

The proof accepts plain bytes and closed strings without escapes.  No word touches a
string, no two dashes meet, and no two strings touch.
-/

/-- The bytes that stand outside strings. -/
def plainByte (byte : UInt8) : Bool :=
  isSpace byte || nameChar byte false || byte = 40 || byte = 41 || byte = 43 || byte = 44 || byte = Byte.dash ||
    byte = Byte.dot || byte = Byte.semicolon

/-- The passage from one rest to a later one with the number of strings in between. -/
inductive Passes : Text → Nat → Text → Prop where
  | done (rest : Text) : Passes rest 0 rest
  | byte {byte : UInt8} {rest behind : Text} {strings : Nat} (plain : plainByte byte)
      (word : nameChar byte false → rest.head? ≠ some Byte.quote)
      (dash : byte = Byte.dash → rest.head? ≠ some Byte.dash) (later : Passes rest strings behind) :
      Passes (byte :: rest) strings behind
  | string {body rest behind : Text} {strings : Nat} (plain : ∀ byte ∈ body, byte ≠ Byte.quote ∧ byte ≠ Byte.backslash)
      (single : rest.head? ≠ some Byte.quote) (later : Passes rest strings behind) :
      Passes (Byte.quote :: (body ++ Byte.quote :: rest)) (strings + 1) behind

theorem Passes.trans {first second third : Text} {front back : Nat} (passes : Passes first front second)
    (later : Passes second back third) : Passes first (front + back) third := by
  induction passes with
  | done =>
    rw [Nat.zero_add]
    exact later
  | byte plain word dash _ inductionHypothesis => exact .byte plain word dash (inductionHypothesis later)
  | string plain single _ inductionHypothesis =>
    rw [Nat.add_right_comm]
    exact .string plain single (inductionHypothesis later)

/-- A plain byte that is neither a letter nor a dash. -/
theorem Passes.sign {byte : UInt8} {rest behind : Text} {strings : Nat} (plain : plainByte byte)
    (noLetter : nameChar byte false = false) (noDash : byte ≠ Byte.dash) (later : Passes rest strings behind) :
    Passes (byte :: rest) strings behind := by
  apply Passes.byte plain ?_ (fun dash => absurd dash noDash) later
  simp [noLetter]

theorem head_ne_quote {byte : UInt8} {rest : Text} (other : byte ≠ Byte.quote) :
    (byte :: rest).head? ≠ some Byte.quote := by
  simpa using other

theorem Passes.length {rest behind : Text} {strings : Nat} (passes : Passes rest strings behind) :
    behind.length ≤ rest.length := by
  induction passes with
  | done => exact le_rfl
  | byte _ _ _ _ inductionHypothesis =>
    rw [List.length_cons]
    omega
  | string _ _ _ inductionHypothesis =>
    simp only [List.length_cons, List.length_append]
    omega

/-- A run of plain bytes other than dashes. -/
theorem passes_run {accepts : UInt8 → Bool} (plain : ∀ byte, accepts byte → plainByte byte ∧ byte ≠ Byte.dash)
    (noQuote : accepts Byte.quote = false) {rest : Text}
    (word : (rest.dropWhile accepts).head? = some Byte.quote → ∀ byte, accepts byte → nameChar byte false = false) :
    Passes rest 0 (rest.dropWhile accepts) := by
  induction rest with
  | nil => exact .done _
  | cons byte rest inductionHypothesis =>
    rw [List.dropWhile_cons] at word ⊢
    split
    next accepted =>
      rw [if_pos accepted] at word
      obtain ⟨isPlain, noDash⟩ := plain byte accepted
      refine .byte isPlain (fun letter first => ?_) (fun dash => absurd dash noDash) (inductionHypothesis word)
      cases rest with
      | nil => cases first
      | cons next tail =>
        cases first
        rw [List.dropWhile_cons_of_neg (by simp [noQuote])] at word
        rw [word rfl byte accepted] at letter
        cases letter
    next => exact .done _

/-- The classes of bytes beside each other, read off their table. -/
theorem plain_classes : ∀ byte : UInt8,
    (isSpace byte → (plainByte byte ∧ byte ≠ Byte.dash) ∧ nameChar byte false = false) ∧
      (nameChar byte false → plainByte byte ∧ byte ≠ Byte.dash) ∧ (nameChar byte true → nameChar byte false) ∧
      (nameChar (lowerCase byte) false → nameChar byte false) ∧ (isDigit byte → plainByte byte ∧ byte ≠ Byte.dash) := by
  decide +kernel

theorem isSpace_plain (byte : UInt8) (blank : isSpace byte) :
    (plainByte byte ∧ byte ≠ Byte.dash) ∧ nameChar byte false = false :=
  (plain_classes byte).1 blank

theorem nameChar_plain (byte : UInt8) (letter : nameChar byte false) : plainByte byte ∧ byte ≠ Byte.dash :=
  (plain_classes byte).2.1 letter

theorem nameChar_of_first (byte : UInt8) (letter : nameChar byte true) : nameChar byte false :=
  (plain_classes byte).2.2.1 letter

theorem nameChar_of_lowerCase (byte : UInt8) (letter : nameChar (lowerCase byte) false) : nameChar byte false :=
  (plain_classes byte).2.2.2.1 letter

theorem passes_letters {run rest : Text} (letters : ∀ byte ∈ run, nameChar byte false)
    (stops : rest.head? ≠ some Byte.quote) : Passes (run ++ rest) 0 rest := by
  induction run with
  | nil => exact .done _
  | cons byte run inductionHypothesis =>
    obtain ⟨plain, noDash⟩ := nameChar_plain byte (letters byte (.head _))
    refine .byte plain (fun _ => ?_) (fun dash => absurd dash noDash)
      (inductionHypothesis fun later listed => letters later (.tail _ listed))
    cases run with
    | nil => exact stops
    | cons next tail =>
      intro first
      cases first
      exact absurd (letters Byte.quote (.tail _ (.head _))) (by decide)

theorem gap_passes (rest : Text) : Passes rest 0 (gap rest) :=
  passes_run (fun byte blank => (isSpace_plain byte blank).1) rfl
    fun _ byte blank => (isSpace_plain byte blank).2

theorem readPunctuation_passes {punctuation : UInt8} {rest behind : Text} (plain : plainByte punctuation)
    (noLetter : nameChar punctuation false = false) (noDash : punctuation ≠ Byte.dash)
    (read : readPunctuation punctuation rest = some behind) : Passes rest 0 behind := by
  have blanks := gap_passes rest
  rw [readPunctuation] at read
  split at read
  next => cases read
  next byte tail here =>
    split at read
    next same =>
      cases read
      rw [here, same] at blanks
      exact blanks.trans (.sign plain noLetter noDash (.done _))
    next => cases read

/-- Punctuation does not begin with a quote, and neither do the blanks before it. -/
theorem readPunctuation_head {punctuation : UInt8} {rest behind : Text} (noQuote : punctuation ≠ Byte.quote)
    (read : readPunctuation punctuation rest = some behind) : rest.head? ≠ some Byte.quote := by
  intro first
  cases rest with
  | nil => cases first
  | cons byte tail =>
    cases first
    rw [readPunctuation, gap, List.dropWhile_cons_of_neg (by decide)] at read
    dsimp only at read
    split at read
    next same => exact noQuote same.symm
    next => cases read

theorem readName_passes {natives : Natives} {rest name behind : Text}
    (read : readName natives rest = some (name, behind)) (stops : behind.head? ≠ some Byte.quote) :
    Passes rest 0 behind := by
  have blanks := gap_passes rest
  rw [readName] at read
  split at read
  next => cases read
  next first tail here =>
    rw [here] at blanks
    dsimp only at read
    split_ifs at read with letter
    cases read
    have isLetter : nameChar first false := nameChar_of_first first letter
    have whole : (first :: tail).dropWhile (nameChar · false) = tail.dropWhile (nameChar · false) :=
      List.dropWhile_cons_of_pos isLetter
    rw [← whole] at stops ⊢
    exact blanks.trans (passes_run nameChar_plain rfl (fun quote => absurd quote stops))

/-- A word of letters. -/
theorem readWord_passes {constant : String} {rest behind : Text} (letters : (ascii constant).all (nameChar · false))
    (read : readWord constant rest = some behind) (stops : behind.head? ≠ some Byte.quote) :
    Passes rest 0 behind := by
  have blanks := gap_passes rest
  rw [readWord] at read
  split_ifs at read with same
  cases read
  have passes := @passes_letters ((gap rest).take (ascii constant).length) ((gap rest).drop (ascii constant).length)
    (fun byte listed => by
      apply nameChar_of_lowerCase
      apply List.all_eq_true.mp letters
      rw [← same.1]
      exact List.mem_map_of_mem listed) stops
  rw [List.take_append_drop] at passes
  exact blanks.trans passes

theorem isDigit_plain (byte : UInt8) (digit : isDigit byte) : plainByte byte ∧ byte ≠ Byte.dash :=
  (plain_classes byte).2.2.2.2 digit

theorem digits_passes {rest : Text} (stops : (rest.dropWhile isDigit).head? ≠ some Byte.quote) :
    Passes rest 0 (rest.dropWhile isDigit) :=
  passes_run isDigit_plain rfl fun quote => absurd quote stops

theorem readFraction_passes {digits rest behind : Text} {found : Bool}
    (read : readFraction digits rest = some (behind, found)) (stops : behind.head? ≠ some Byte.quote) :
    Passes rest 0 behind ∧ rest.head? ≠ some Byte.quote := by
  cases rest with
  | nil =>
    rw [readFraction] at read
    split_ifs at read
    cases read
    exact ⟨.done _, stops⟩
  | cons byte tail =>
    rw [readFraction] at read
    split_ifs at read with dot _ _
    · cases read
      subst dot
      exact ⟨.sign rfl rfl (by decide) (digits_passes stops), head_ne_quote (by decide)⟩
    · cases read
      exact ⟨.done _, stops⟩

theorem readExponent_passes {rest behind : Text} {found : Bool}
    (read : readExponent rest = some (behind, found)) (stops : behind.head? ≠ some Byte.quote) :
    Passes rest 0 behind ∧ rest.head? ≠ some Byte.quote := by
  cases rest with
  | nil =>
    cases read
    exact ⟨.done _, stops⟩
  | cons byte tail =>
    rw [readExponent] at read
    dsimp only at read
    -- digits that are present begin neither with a quote nor with a dash
    have digitsFirst (text : Text) (present : text.takeWhile isDigit ≠ []) :
        text.head? ≠ some Byte.quote ∧ text.head? ≠ some Byte.dash := by
      cases text with
      | nil => exact absurd rfl present
      | cons first others =>
        rw [List.takeWhile_cons] at present
        split at present
        next digit =>
          constructor <;> intro same <;> cases same <;> exact absurd digit (by decide)
        next => exact absurd rfl present
    split_ifs at read with letter signed noDigits noDigits
    · cases read
      obtain ⟨noQuote, noDash⟩ := digitsFirst _ noDigits
      cases tail with
      | nil => exact absurd rfl noDigits
      | cons sign others =>
        rw [List.drop_one, List.tail_cons] at stops noQuote noDash
        have isSign : sign = 43 ∨ sign = Byte.dash := signed
        have signPasses : Passes (sign :: others) 0 (others.dropWhile isDigit) := by
          refine .byte ?_ (fun _ => noQuote) (fun _ => noDash) (digits_passes stops)
          obtain rfl | rfl := isSign <;> rfl
        have signHead : (sign :: others).head? ≠ some Byte.quote := by
          obtain rfl | rfl := isSign <;> exact head_ne_quote (by decide)
        obtain rfl | rfl := letter
        · exact ⟨.byte rfl (fun _ => signHead) (fun same => by cases same) signPasses, head_ne_quote (by decide)⟩
        · exact ⟨.byte rfl (fun _ => signHead) (fun same => by cases same) signPasses, head_ne_quote (by decide)⟩
    · cases read
      obtain ⟨noQuote, noDash⟩ := digitsFirst _ noDigits
      obtain rfl | rfl := letter
      · exact ⟨.byte rfl (fun _ => noQuote) (fun _ => noDash) (digits_passes stops), head_ne_quote (by decide)⟩
      · exact ⟨.byte rfl (fun _ => noQuote) (fun _ => noDash) (digits_passes stops), head_ne_quote (by decide)⟩
    · cases read
      exact ⟨.done _, stops⟩

theorem readNumber_passes {rest behind : Text} {isInteger : Bool}
    (read : readNumber rest = some (behind, isInteger)) (stops : behind.head? ≠ some Byte.quote) :
    Passes rest 0 behind := by
  rw [readNumber] at read
  dsimp only at read
  generalize start : (if byteAt rest 0 = Byte.dash then gap (rest.drop 1) else rest) = here at read
  split at read
  next => cases read
  next fraction hasFraction foundFraction =>
    split at read
    next => cases read
    next last hasExponent foundExponent =>
      split_ifs at read
      cases read
      obtain ⟨exponentPasses, exponentHead⟩ := readExponent_passes foundExponent stops
      obtain ⟨fractionPasses, fractionHead⟩ := readFraction_passes foundFraction exponentHead
      have herePasses : Passes here 0 behind := (digits_passes fractionHead).trans (fractionPasses.trans exponentPasses)
      split at start
      next minus =>
        cases rest with
        | nil => cases minus
        | cons byte tail =>
          have isDash : byte = Byte.dash := minus
          subst isDash start
          refine .byte rfl nofun (fun _ second => ?_) ((gap_passes tail).trans herePasses)
          cases tail with
          | nil => cases second
          | cons next others =>
            -- a second dash is no digit and no point
            cases second
            have noGap : gap ((Byte.dash :: Byte.dash :: others).drop 1) = Byte.dash :: others :=
              List.dropWhile_cons_of_neg (by decide)
            rw [noGap, List.takeWhile_cons_of_neg (by decide), List.dropWhile_cons_of_neg (by decide)] at foundFraction
            cases foundFraction
      next =>
        subst start
        exact herePasses

theorem readString_passes {natives : Natives} {body behind : Text} (read : readString natives body = some behind)
    (stops : behind.head? ≠ some Byte.quote) : Passes (Byte.quote :: body) 1 behind := by
  have whole := @List.takeWhile_append_dropWhile _ (fun byte : UInt8 => decide (byte ≠ Byte.quote)) body
  rw [readString] at read
  split at read
  next => cases read
  next last rest located =>
    split_ifs at read with odd
    cases read
    have isQuote : last = Byte.quote := by
      have := List.head?_dropWhile_not (fun byte : UInt8 => decide (byte ≠ Byte.quote)) body
      rw [located] at this
      simpa using this
    rw [located, isQuote] at whole
    rw [← whole]
    refine .string (fun byte listed => ?_) stops (.done _)
    have noQuote := List.mem_takeWhile_imp listed
    rw [List.any_eq_true] at odd
    refine ⟨by simpa using noQuote, fun escape => odd ⟨byte, listed, by simp [escape]⟩⟩

theorem readPrecision_passes {rest behind : Text} (read : readPrecision rest = some behind) :
    Passes rest 0 behind := by
  have blanks := gap_passes rest
  rw [readPrecision] at read
  split at read
  next here =>
    cases read
    rw [here] at blanks
    exact blanks
  next byte tail here =>
    rw [here] at blanks
    split_ifs at read with opens
    · dsimp only at read
      split_ifs at read
      split at read
      next digitsBehind found =>
        subst opens
        have closes := readPunctuation_passes rfl rfl (by decide) read
        have number := readNumber_passes found (readPunctuation_head (by decide) read)
        exact blanks.trans (.sign rfl rfl (by decide) ((gap_passes tail).trans (number.trans closes)))
      next => cases read
    · cases read
      exact blanks

theorem gap_quote (rest : Text) : gap (Byte.quote :: rest) = Byte.quote :: rest :=
  List.dropWhile_cons_of_neg (by decide)

/-- Blanks do not hide a quote at the head. -/
theorem head_of_gap {rest : Text} (stops : (gap rest).head? ≠ some Byte.quote) : rest.head? ≠ some Byte.quote := by
  intro first
  cases rest with
  | nil => cases first
  | cons byte tail =>
    cases first
    rw [gap_quote] at stops
    exact stops rfl

theorem readPrecision_head {rest behind : Text} (read : readPrecision rest = some behind)
    (stops : behind.head? ≠ some Byte.quote) : rest.head? ≠ some Byte.quote := by
  apply head_of_gap
  intro first
  rw [readPrecision] at read
  split at read
  next here => simp [here] at first
  next byte tail here =>
    rw [here] at first
    cases first
    rw [if_neg (by decide)] at read
    cases read
    exact stops rfl

theorem valueFunctions_letters : ∀ entry ∈ valueFunctions, (ascii entry.1).all (nameChar · false) = true := by
  decide +kernel

theorem readValueFunction_passes {words : List (String × Bool)}
    (letters : ∀ entry ∈ words, (ascii entry.1).all (nameChar · false) = true) {rest behind : Text}
    (read : readValueFunction rest words = some behind) (stops : behind.head? ≠ some Byte.quote) :
    Passes rest 0 behind := by
  induction words with
  | nil => cases read
  | cons entry others inductionHypothesis =>
    obtain ⟨word, precision⟩ := entry
    have isWord := letters (word, precision) (.head _)
    rw [readValueFunction] at read
    split at read
    next => exact inductionHypothesis (fun entry listed => letters entry (.tail _ listed)) read
    next next found =>
      split_ifs at read
      · exact (readWord_passes isWord found (readPrecision_head read stops)).trans (readPrecision_passes read)
      · cases read
        exact (readWord_passes isWord found (head_of_gap stops)).trans (gap_passes next)

theorem readCell_passes {natives : Natives} {rest behind : Text} {isString : Bool}
    (read : readCell natives rest = some (behind, isString)) (stops : behind.head? ≠ some Byte.quote) :
    Passes rest (if isString then 1 else 0) behind := by
  have blanks := gap_passes rest
  rw [readCell] at read
  split at read
  next => cases read
  next byte tail here =>
    rw [here] at blanks
    split_ifs at read with quote number
    · obtain ⟨last, found, whole⟩ := Option.map_eq_some_iff.mp read
      cases whole
      subst quote
      have passes := blanks.trans (readString_passes found stops)
      rwa [Nat.zero_add] at passes
    · obtain ⟨⟨last, isInteger⟩, found, whole⟩ := Option.map_eq_some_iff.mp read
      cases whole
      exact blanks.trans (readNumber_passes found stops)
    · obtain ⟨last, found, whole⟩ := Option.map_eq_some_iff.mp read
      cases whole
      exact blanks.trans (readValueFunction_passes valueFunctions_letters found stops)

theorem readCells_passes {natives : Natives} {columns : Nat} {rest behind : Text} {strings : Nat}
    (read : readCells natives columns rest = some (strings, behind)) : Passes rest strings behind := by
  induction columns generalizing rest strings with
  | zero =>
    cases read
    exact .done _
  | succ columns inductionHypothesis =>
    rw [readCells] at read
    split at read
    next => cases read
    next cellBehind isString found =>
      split at read
      next => cases read
      next next punctuation =>
        obtain ⟨⟨later, last⟩, others, whole⟩ := Option.map_eq_some_iff.mp read
        cases whole
        have separates : Passes cellBehind 0 next ∧ cellBehind.head? ≠ some Byte.quote := by
          split at punctuation
          · exact ⟨readPunctuation_passes rfl rfl (by decide) punctuation,
              readPunctuation_head (by decide) punctuation⟩
          · exact ⟨readPunctuation_passes rfl rfl (by decide) punctuation,
              readPunctuation_head (by decide) punctuation⟩
        have cell := (readCell_passes found separates.2).trans separates.1
        rw [Nat.add_comm later]
        exact cell.trans (inductionHypothesis others)

/-! ## The statement -/

/-- A row in its parentheses. -/
def readRow (natives : Natives) (columns : Nat) (rest : Text) : Option (Nat × Text) :=
  match readPunctuation 40 rest with
  | none => none
  | some cells => readCells natives columns cells

theorem readRow_shorter {natives : Natives} {columns strings : Nat} {rest behind : Text}
    (read : readRow natives columns rest = some (strings, behind)) : behind.length < rest.length := by
  rw [readRow] at read
  split at read
  next => cases read
  next cells found =>
    have shorter := readPunctuation_shorter found
    have := (readCells_passes read).length
    omega

/-- The rows: how many there are, and how many strings among their cells. -/
def readRows (natives : Natives) (columns seen : Nat) (rest : Text) : Option (Nat × Nat × Text) :=
  match _read : readRow natives columns rest with
  | none => none
  | some (strings, behind) =>
    if !rowsSize (seen + 1) then none
    else
      match _more : gap behind with
      | [] => some (seen + 1, strings, [])
      | byte :: tail =>
        if byte = 44 then
          (readRows natives columns (seen + 1) tail).map fun read => (read.1, strings + read.2.1, read.2.2)
        else some (seen + 1, strings, byte :: tail)
termination_by rest.length
decreasing_by
  have shorter := readRow_shorter _read
  have blanks := gap_length behind
  rw [_more, List.length_cons] at blanks
  omega

/-- What the certificate of a statement says. -/
structure ScalarInsert where
  names : List Text
  strings : Nat

/-- The certificate of the rows behind the column list. -/
def certifyRows (natives : Natives) (names : List Text) (columns : Nat) (rest : Text) : Option ScalarInsert :=
  match readRows natives columns 0 rest with
  | none => none
  | some (rows, strings, behind) =>
    if rows < 32 then none
    else
      let final := if byteAt behind 0 = Byte.semicolon then behind.drop 1 else behind
      if gap final = [] ∧ (byteAt behind 0 = Byte.semicolon ∨ behind = []) then some ⟨names, strings⟩ else none

/-- `pg_query_scalar_insert_certify` -/
def certifyScalarInsert (natives : Natives) (sql : Text) : Option ScalarInsert := do
  guard (sourceSize sql.length)
  let behindInsert ← readWord "insert" sql
  let behindInto ← readWord "into" behindInsert
  let (relation, behindRelation) ← readRelation natives 3 behindInto
  let columnsStart ← readPunctuation 40 behindRelation
  let (columns, behindColumns) ← readColumns natives 0 columnsStart
  let behindList ← readPunctuation 41 behindColumns
  let values ← readWord "values" behindList
  certifyRows natives (relation ++ columns) columns.length values

/-- `pg_query_prove_identity_scalar_insert`: the number of strings in the source. -/
def proveIdentityScalarInsert (natives : Natives) (namePredicate : Text → Bool) (sql : Text) : Option Nat :=
  if ((gap sql).take 6).map lowerCase ≠ ascii "insert" then none
  else if sql.length < 4096 then none
  else
    match certifyScalarInsert natives sql with
    | none => none
    | some source => if source.names.all namePredicate then some source.strings else none

/-- `pg_query_mysql_identity_name` -/
def mysqlIdentityName (name : Text) : Bool :=
  !(["auto_increment", "unsigned", "zerofill", "straight_join"].any fun word => name.map lowerCase = ascii word)

/-- `pg_query_prove_mysql_identity_scalar_insert` -/
def proveMysqlIdentityScalarInsert (natives : Natives) (sql : Text) : Option Nat :=
  proveIdentityScalarInsert natives mysqlIdentityName sql

/-! ## What the certificate proves -/

theorem readRelation_passes {natives : Natives} {left : Nat} {rest behind : Text} {names : List Text}
    (read : readRelation natives left rest = some (names, behind)) (stops : behind.head? ≠ some Byte.quote) :
    Passes rest 0 behind := by
  induction left generalizing rest names with
  | zero => cases read
  | succ left inductionHypothesis =>
    rw [readRelation] at read
    split at read
    next => cases read
    next name nameBehind found =>
      have blanks := gap_passes nameBehind
      split at read
      next here =>
        cases read
        rw [here] at blanks
        exact (readName_passes found (head_of_gap (by simp [here]))).trans blanks
      next byte tail here =>
        rw [here] at blanks
        split_ifs at read with dot
        · obtain ⟨⟨later, last⟩, others, whole⟩ := Option.map_eq_some_iff.mp read
          cases whole
          subst dot
          have name := readName_passes found (head_of_gap (by rw [here]; exact head_ne_quote (by decide)))
          exact name.trans (blanks.trans (.sign rfl rfl (by decide) (inductionHypothesis others)))
        · cases read
          exact (readName_passes found (head_of_gap (by rw [here]; exact stops))).trans blanks

theorem readColumns_passes {natives : Natives} {seen : Nat} {rest behind : Text} {names : List Text}
    (read : readColumns natives seen rest = some (names, behind)) (stops : behind.head? ≠ some Byte.quote) :
    Passes rest 0 behind := by
  fun_induction readColumns natives seen rest generalizing names with
  | case1 => cases read
  | case2 => cases read
  | case3 seen rest name nameBehind found _ here =>
    have blanks := gap_passes nameBehind
    cases read
    rw [here] at blanks
    exact (readName_passes found (head_of_gap (by simp [here]))).trans blanks
  | case4 seen rest name nameBehind found _ tail here inductionHypothesis =>
    have blanks := gap_passes nameBehind
    obtain ⟨⟨later, last⟩, others, whole⟩ := Option.map_eq_some_iff.mp read
    cases whole
    rw [here] at blanks
    have name := readName_passes found (head_of_gap (by rw [here]; exact head_ne_quote (by decide)))
    exact name.trans (blanks.trans (.sign rfl rfl (by decide) (inductionHypothesis others)))
  | case5 seen rest name nameBehind found _ byte tail here _ =>
    have blanks := gap_passes nameBehind
    cases read
    rw [here] at blanks
    exact (readName_passes found (head_of_gap (by rw [here]; exact stops))).trans blanks

theorem readRow_passes {natives : Natives} {columns strings : Nat} {rest behind : Text}
    (read : readRow natives columns rest = some (strings, behind)) : Passes rest strings behind := by
  rw [readRow] at read
  split at read
  next => cases read
  next cells found =>
    have passes := (readPunctuation_passes rfl rfl (by decide) found).trans (readCells_passes read)
    rwa [Nat.zero_add] at passes

theorem readRows_passes {natives : Natives} {columns seen rows strings : Nat} {rest behind : Text}
    (read : readRows natives columns seen rest = some (rows, strings, behind)) : Passes rest strings behind := by
  fun_induction readRows natives columns seen rest generalizing rows strings with
  | case1 => cases read
  | case2 => cases read
  | case3 seen rest rowStrings rowBehind found _ here =>
    have blanks := gap_passes rowBehind
    cases read
    rw [here] at blanks
    exact (readRow_passes found).trans blanks
  | case4 seen rest rowStrings rowBehind found _ tail here inductionHypothesis =>
    have blanks := gap_passes rowBehind
    obtain ⟨⟨later, laterStrings, last⟩, others, whole⟩ := Option.map_eq_some_iff.mp read
    cases whole
    rw [here] at blanks
    have comma : Passes (44 :: tail) laterStrings last := .sign rfl rfl (by decide) (inductionHypothesis others)
    have row := (readRow_passes found).trans (blanks.trans comma)
    rwa [Nat.zero_add] at row
  | case5 seen rest rowStrings rowBehind found _ byte tail here _ =>
    have blanks := gap_passes rowBehind
    cases read
    rw [here] at blanks
    exact (readRow_passes found).trans blanks

theorem certifyRows_passes {natives : Natives} {names : List Text} {columns : Nat} {rest : Text} {source : ScalarInsert}
    (certified : certifyRows natives names columns rest = some source) : Passes rest source.strings [] := by
  rw [certifyRows] at certified
  split at certified
  next => cases certified
  next rows strings behind found =>
    by_cases semicolon : byteAt behind 0 = Byte.semicolon
    · simp only [semicolon, if_true, true_or, and_true] at certified
      split_ifs at certified with few atEnd
      cases certified
      cases behind with
      | nil => cases semicolon
      | cons byte tail =>
        have isSemicolon : byte = Byte.semicolon := semicolon
        subst isSemicolon
        have blanks := gap_passes tail
        rw [List.drop_one, List.tail_cons] at atEnd
        rw [atEnd] at blanks
        exact (readRows_passes found).trans (.sign rfl rfl (by decide) blanks)
    · simp only [semicolon, if_false, false_or] at certified
      split_ifs at certified with few atEnd
      cases certified
      rw [atEnd.2] at found
      exact readRows_passes found

theorem readWord_head {constant : String} {rest behind : Text} (begins : nameChar (byteAt (ascii constant) 0) true)
    (read : readWord constant rest = some behind) : rest.head? ≠ some Byte.quote := by
  intro first
  cases rest with
  | nil => cases first
  | cons byte tail =>
    cases first
    rw [readWord, gap_quote] at read
    split_ifs at read with same
    rw [← same.1] at begins
    cases size : (ascii constant).length with
    | zero =>
      rw [size] at begins
      cases begins
    | succ length =>
      rw [size] at begins
      cases begins

theorem readName_head {natives : Natives} {rest name behind : Text}
    (read : readName natives rest = some (name, behind)) : rest.head? ≠ some Byte.quote := by
  intro first
  cases rest with
  | nil => cases first
  | cons byte tail =>
    cases first
    rw [readName, gap_quote] at read
    cases read

theorem readRelation_head {natives : Natives} {left : Nat} {rest behind : Text} {names : List Text}
    (read : readRelation natives left rest = some (names, behind)) : rest.head? ≠ some Byte.quote := by
  cases left with
  | zero => cases read
  | succ left =>
    rw [readRelation] at read
    split at read
    next => cases read
    next name nameBehind found => exact readName_head found

theorem certifyRows_head {natives : Natives} {names : List Text} {columns : Nat} {rest : Text} {source : ScalarInsert}
    (certified : certifyRows natives names columns rest = some source) : rest.head? ≠ some Byte.quote := by
  rw [certifyRows, readRows, readRow] at certified
  split at certified
  next => cases certified
  next rows strings behind found =>
    cases opens : readPunctuation 40 rest with
    | some cells => exact readPunctuation_head (by decide) opens
    | none =>
      split at found
      next => cases found
      next rowStrings rowBehind row =>
        rw [opens] at row
        cases row

/-- A certified source is plain bytes and as many strings as the certificate says. -/
theorem certifyScalarInsert_passes {natives : Natives} {sql : Text} {source : ScalarInsert}
    (certified : certifyScalarInsert natives sql = some source) : Passes sql source.strings [] := by
  simp only [certifyScalarInsert, Option.bind_eq_bind, Option.bind_eq_some_iff, Prod.exists] at certified
  obtain ⟨_, _, behindInsert, insert, behindInto, into, relation, behindRelation, isRelation, columnsStart, opens, columns,
    behindColumns, areColumns, behindList, closes, values, isValues, rows⟩ := certified
  have insertPass := readWord_passes (by decide +kernel) insert (readWord_head (by decide +kernel) into)
  have intoPass := readWord_passes (by decide +kernel) into (readRelation_head isRelation)
  have relationPass := readRelation_passes isRelation (readPunctuation_head (by decide) opens)
  have opensPass := readPunctuation_passes rfl rfl (by decide) opens
  have columnsPass := readColumns_passes areColumns (readPunctuation_head (by decide) closes)
  have closesPass := readPunctuation_passes rfl rfl (by decide) closes
  have valuesPass := readWord_passes (by decide +kernel) isValues (certifyRows_head rows)
  have header := insertPass.trans (intoPass.trans (relationPass.trans (opensPass.trans (columnsPass.trans
    (closesPass.trans valuesPass)))))
  have whole := header.trans (certifyRows_passes rows)
  simpa only [Nat.zero_add] using whole

theorem proveIdentityScalarInsert_passes {natives : Natives} {namePredicate : Text → Bool} {sql : Text} {strings : Nat}
    (proved : proveIdentityScalarInsert natives namePredicate sql = some strings) : Passes sql strings [] := by
  rw [proveIdentityScalarInsert] at proved
  split_ifs at proved
  split at proved
  next => cases proved
  next source certified =>
    split_ifs at proved
    cases proved
    exact certifyScalarInsert_passes certified

end SqlParser.PgQuery
