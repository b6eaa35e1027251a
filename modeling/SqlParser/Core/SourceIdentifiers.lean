import SqlParser.Core.SourceTokens

/-! # The identifiers of a source text

An identifier of the tree is looked for at a position of the source text, where it may stand as a
word, between quotes or behind `U&`. The quoted spellings are compared byte by byte with the
identifier, which is never copied.
-/

namespace SqlParser.Core.Source

/-! ## Quoted identifiers -/

/-- The byte that closes an identifier opened by a quote. -/
def closingOf (opening : UInt8) : UInt8 :=
  if opening = Byte.openBracket then Byte.closeBracket else opening

/-- Whether a byte opens a quoted identifier. -/
def opensQuoted (opening : UInt8) : Bool :=
  opening = Byte.doubleQuote || opening = Byte.backtick || opening = Byte.openBracket

/-- The loop of `sqlparser_quoted_identifier_matches` on what stands between the quotes. -/
def quotedMatches (closing : UInt8) : Text → Text → Bool
  | [], identifier => identifier.isEmpty
  | _ :: _, [] => false
  | [first], byte :: identifier => first = byte && identifier.isEmpty
  | first :: second :: content, byte :: identifier =>
    if first = closing ∧ second = closing then byte = closing && quotedMatches closing content identifier
    else first = byte && quotedMatches closing (second :: content) identifier

/-- `sqlparser_quoted_identifier_matches` of a token of the source. -/
def quotedIdentifierMatches (token identifier : Text) : Bool :=
  match token with
  | opening :: quoted =>
    opensQuoted opening && quoted.getLast? = some (closingOf opening) &&
      quotedMatches (closingOf opening) quoted.dropLast identifier
  | [] => false

/-! ## Code points -/

/-- `sqlparser_hex_value` -/
def hexValue (byte : UInt8) : Option Nat :=
  if isDigit byte then some (byte - 48).toNat
  else if 97 ≤ byte && byte ≤ 102 then some ((byte - 97).toNat + 10)
  else if 65 ≤ byte && byte ≤ 70 then some ((byte - 65).toNat + 10)
  else none

/-- `sqlparser_uamp_hex_codepoint`: the value of the digits and what stands behind them. -/
def uampHexCodepoint (digitCount : Nat) (content : Text) : Option (Nat × Text) :=
  if digitCount ≤ content.length then
    ((content.take digitCount).foldlM (fun value byte => (hexValue byte).map fun digit => value <<< 4 ||| digit) 0).map
      fun value => (value, content.drop digitCount)
  else none

/-- The bytes with which `sqlparser_identifier_match_codepoint` compares. -/
def encodeCodepoint (codepoint : Nat) : Option Text :=
  if codepoint ≤ 0x7F then some [UInt8.ofNat codepoint]
  else if codepoint ≤ 0x7FF then some [UInt8.ofNat (0xC0 ||| codepoint >>> 6), UInt8.ofNat (0x80 ||| codepoint &&& 0x3F)]
  else if codepoint ≤ 0xFFFF then
    some [UInt8.ofNat (0xE0 ||| codepoint >>> 12), UInt8.ofNat (0x80 ||| codepoint >>> 6 &&& 0x3F),
      UInt8.ofNat (0x80 ||| codepoint &&& 0x3F)]
  else if codepoint ≤ 0x10FFFF then
    some [UInt8.ofNat (0xF0 ||| codepoint >>> 18), UInt8.ofNat (0x80 ||| codepoint >>> 12 &&& 0x3F),
      UInt8.ofNat (0x80 ||| codepoint >>> 6 &&& 0x3F), UInt8.ofNat (0x80 ||| codepoint &&& 0x3F)]
  else none

/-! ## Identifiers behind `U&` -/

def plus : UInt8 := 43

def isHighSurrogate (codepoint : Nat) : Bool :=
  0xD800 ≤ codepoint && codepoint ≤ 0xDBFF

def isLowSurrogate (codepoint : Nat) : Bool :=
  0xDC00 ≤ codepoint && codepoint ≤ 0xDFFF

/-- The low surrogate that must stand behind a high one. -/
def uampLowSurrogate (escape : UInt8) (codepoint : Nat) : Text → Option (Nat × Text)
  | [] => none
  | byte :: content =>
    if byte ≠ escape then none
    else
      (uampHexCodepoint 4 content).bind fun (low, rest) =>
        if isLowSurrogate low then some (0x10000 + (codepoint - 0xD800) <<< 10 + (low - 0xDC00), rest) else none

/-- The code point behind the escape. -/
def uampCodepoint (escape : UInt8) (content : Text) : Option (Nat × Text) :=
  (if content.head? = some plus then uampHexCodepoint 6 (content.drop 1) else uampHexCodepoint 4 content).bind
    fun (codepoint, rest) => if isHighSurrogate codepoint then uampLowSurrogate escape codepoint rest else some (codepoint, rest)

/-- One turn of the loop of `sqlparser_uamp_identifier_matches`: the bytes to compare and what is
left between the quotes. -/
def uampPiece (escape : UInt8) : Text → Option (Text × Text)
  | [] => none
  | byte :: content =>
    if byte = Byte.doubleQuote then if content.head? = some Byte.doubleQuote then some ([byte], content.drop 1) else none
    else if byte ≠ escape then some ([byte], content)
    else
      match content with
      | [] => none
      | next :: rest =>
        if next = escape then some ([escape], rest)
        else (uampCodepoint escape (next :: rest)).bind fun (codepoint, behind) => (encodeCodepoint codepoint).map (·, behind)

/-- `sqlparser_identifier_match_byte` over some bytes: what is left of the identifier. -/
def matchBytes (identifier bytes : Text) : Option Text :=
  bytes.foldlM (fun rest byte => if rest.head? = some byte then some (rest.drop 1) else none) identifier

theorem uampHexCodepoint_behind {digitCount value : Nat} {content rest : Text}
    (read : uampHexCodepoint digitCount content = some (value, rest)) : rest <:+ content := by
  unfold uampHexCodepoint at read
  split at read
  · obtain ⟨read, -, isPair⟩ := Option.map_eq_some_iff.mp read
    cases isPair
    exact List.drop_suffix digitCount content
  · cases read

theorem uampLowSurrogate_behind {escape : UInt8} {high value : Nat} {content rest : Text}
    (read : uampLowSurrogate escape high content = some (value, rest)) : rest <:+ content := by
  unfold uampLowSurrogate at read
  split at read
  · cases read
  · split at read
    · cases read
    · obtain ⟨⟨low, behind⟩, isLow, isPair⟩ := Option.bind_eq_some_iff.mp read
      dsimp only at isPair
      split at isPair
      · obtain ⟨-, rfl⟩ := Prod.mk.inj (Option.some.inj isPair)
        exact (uampHexCodepoint_behind isLow).trans (List.suffix_cons _ _)
      · cases isPair

theorem uampCodepoint_behind {escape : UInt8} {value : Nat} {content rest : Text}
    (read : uampCodepoint escape content = some (value, rest)) : rest <:+ content := by
  unfold uampCodepoint at read
  obtain ⟨⟨codepoint, behind⟩, isRead, isPair⟩ := Option.bind_eq_some_iff.mp read
  have suffix : behind <:+ content := by
    split at isRead
    · exact (uampHexCodepoint_behind isRead).trans (List.drop_suffix 1 content)
    · exact uampHexCodepoint_behind isRead
  dsimp only at isPair
  split at isPair
  · exact (uampLowSurrogate_behind isPair).trans suffix
  · cases isPair
    exact suffix

/-- A turn of the loop moves on. -/
theorem uampPiece_shorter {escape : UInt8} {content bytes rest : Text}
    (read : uampPiece escape content = some (bytes, rest)) : rest.length < content.length := by
  unfold uampPiece at read
  split at read
  · cases read
  next byte content =>
    have behind : rest <:+ content := by
      split at read
      · split at read
        · cases read
          exact List.drop_suffix 1 content
        · cases read
      · split at read
        · cases read
          exact List.suffix_refl _
        · split at read
          · cases read
          next next after =>
            split at read
            · cases read
              exact List.suffix_cons _ _
            · obtain ⟨⟨codepoint, left⟩, isRead, isPair⟩ := Option.bind_eq_some_iff.mp read
              obtain ⟨encoded, -, isEncoded⟩ := Option.map_eq_some_iff.mp isPair
              cases isEncoded
              exact uampCodepoint_behind isRead
    exact Nat.lt_succ_of_le behind.length_le

/-- The loop of `sqlparser_uamp_identifier_matches` on what stands between the quotes. -/
def uampMatches (escape : UInt8) (content identifier : Text) : Bool :=
  if content = [] then identifier.isEmpty
  else
    match _read : uampPiece escape content with
    | none => false
    | some (bytes, rest) =>
      match matchBytes identifier bytes with
      | none => false
      | some left => uampMatches escape rest left
termination_by content.length
decreasing_by exact uampPiece_shorter _read

section lexing

variable (lexer : Lexer)

/-- The escape that `sqlparser_uamp_identifier_span_end` reports. -/
def uampEscape (quoteEnd : Text) : UInt8 :=
  let keyword := skipTrivia lexer quoteEnd
  let behind := identifierEnd keyword
  if (keyword.take (keyword.length - behind.length)).map toLower = ascii "uescape" then
    match skipTrivia lexer behind with
    | opening :: escape :: closing :: _ => if opening = Byte.quote ∧ closing = Byte.quote then escape else Byte.backslash
    | _ => Byte.backslash
  else Byte.backslash

/-- What a token of the source is made of. -/
def tokenOf (rest after : Text) : Text :=
  rest.take (rest.length - after.length)

/-- `sqlparser_source_identifier_at` of a resolver without origins that does not look for keywords:
what stands behind the identifier. -/
def sourceIdentifierAt (rest identifier : Text) : Option Text :=
  if opensUampIdentifier rest then
    let quoteEnd := quotedIdentifierEnd Byte.doubleQuote (rest.drop 3)
    if uampMatches (uampEscape lexer quoteEnd) (tokenOf (rest.drop 3) quoteEnd).dropLast identifier then
      some (uampIdentifierSpanEnd lexer quoteEnd)
    else none
  else
    match rest with
    | [] => none
    | first :: more =>
      if opensQuoted first then
        let after := quotedIdentifierEnd (closingOf first) more
        if quotedIdentifierMatches (tokenOf (first :: more) after) identifier then some after else none
      else
        let after := identifierEnd (first :: more)
        if after = first :: more then none else if tokenOf (first :: more) after = identifier then some after else none

end lexing

end SqlParser.Core.Source
