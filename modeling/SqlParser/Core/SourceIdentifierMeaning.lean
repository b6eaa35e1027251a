import SqlParser.Core.SourceIdentifiers
import Mathlib.Data.Nat.Digits.Defs
import Mathlib.Tactic.Ring

/-! # What the identifiers of a source text denote

A spelling between quotes denotes its bytes without the doubling, and one behind `U&` the bytes of
the characters that its escapes name. The comparison of a token with an identifier holds exactly
where the token denotes the identifier.
-/

namespace SqlParser.Core.Source

/-! ## Digits -/

/-- Digits that write a number to the base sixteen. -/
def HexNumber (digits : Text) (value : Nat) : Prop :=
  ∃ values, List.Forall₂ (fun byte digit => hexValue byte = some digit) digits values ∧ value = Nat.ofDigits 16 values.reverse

theorem hexValue_lt {byte : UInt8} {digit : Nat} (isDigit : hexValue byte = some digit) : digit < 16 := by
  simp only [hexValue, Library.Decimal.isDigit, Bool.and_eq_true, decide_eq_true_eq, UInt8.le_iff_toNat_le] at isDigit
  split at isDigit
  next decimal =>
    rw [← Option.some.inj isDigit, UInt8.toNat_sub_of_le _ _ (UInt8.le_iff_toNat_le.mpr decimal.1)]
    exact Nat.lt_of_le_of_lt (Nat.sub_le_sub_right decimal.2 _) (by decide)
  split at isDigit
  next lower =>
    rw [← Option.some.inj isDigit, UInt8.toNat_sub_of_le _ _ (UInt8.le_iff_toNat_le.mpr lower.1)]
    exact Nat.lt_of_le_of_lt (Nat.add_le_add_right (Nat.sub_le_sub_right lower.2 _) 10) (by decide)
  split at isDigit
  next upper =>
    rw [← Option.some.inj isDigit, UInt8.toNat_sub_of_le _ _ (UInt8.le_iff_toNat_le.mpr upper.1)]
    exact Nat.lt_of_le_of_lt (Nat.add_le_add_right (Nat.sub_le_sub_right upper.2 _) 10) (by decide)
  · cases isDigit

/-- The accumulator of the digits. -/
theorem hexDigits_eq (digits : Text) (start value : Nat) :
    digits.foldlM (fun value byte => (hexValue byte).map fun digit => value <<< 4 ||| digit) start = some value ↔
      ∃ values, List.Forall₂ (fun byte digit => hexValue byte = some digit) digits values ∧
        value = Nat.ofDigits 16 values.reverse + 16 ^ digits.length * start := by
  induction digits generalizing start with
  | nil =>
    simp [eq_comm]
  | cons byte digits inductionHypothesis =>
    rw [List.foldlM_cons]
    constructor
    · intro accumulated
      obtain ⟨next, isNext, accumulated⟩ := Option.bind_eq_some_iff.mp accumulated
      obtain ⟨digit, isDigit, rfl⟩ := Option.map_eq_some_iff.mp isNext
      obtain ⟨values, spelled, isValue⟩ := (inductionHypothesis _).mp accumulated
      refine ⟨digit :: values, .cons isDigit spelled, ?_⟩
      rw [isValue, ← Nat.shiftLeft_add_eq_or_of_lt (hexValue_lt isDigit), Nat.shiftLeft_eq, List.reverse_cons,
        Nat.ofDigits_append, List.length_reverse, ← spelled.length_eq, List.length_cons, Nat.ofDigits_singleton]
      ring
    · rintro ⟨values, spelled, isValue⟩
      cases spelled with
      | @cons _ digit _ values isDigit spelled =>
        refine Option.bind_eq_some_iff.mpr ⟨_, Option.map_eq_some_iff.mpr ⟨digit, isDigit, rfl⟩, ?_⟩
        refine (inductionHypothesis _).mpr ⟨values, spelled, ?_⟩
        rw [isValue, ← Nat.shiftLeft_add_eq_or_of_lt (hexValue_lt isDigit), Nat.shiftLeft_eq, List.reverse_cons,
          Nat.ofDigits_append, List.length_reverse, ← spelled.length_eq, List.length_cons, Nat.ofDigits_singleton]
        ring

theorem uampHexCodepoint_iff {digitCount value : Nat} {content rest : Text} :
    uampHexCodepoint digitCount content = some (value, rest) ↔
      ∃ digits, content = digits ++ rest ∧ digits.length = digitCount ∧ HexNumber digits value := by
  unfold uampHexCodepoint
  constructor
  · intro read
    split at read
    next enough =>
      obtain ⟨number, isNumber, isPair⟩ := Option.map_eq_some_iff.mp read
      cases isPair
      obtain ⟨values, spelled, isValue⟩ := (hexDigits_eq _ _ _).mp isNumber
      refine ⟨content.take digitCount, (List.take_append_drop _ _).symm, List.length_take_of_le enough, values, spelled, ?_⟩
      rwa [Nat.mul_zero, Nat.add_zero] at isValue
    · cases read
  · rintro ⟨digits, rfl, rfl, values, spelled, isValue⟩
    have isNumber := (hexDigits_eq digits 0 value).mpr ⟨values, spelled, by rw [isValue, Nat.mul_zero, Nat.add_zero]⟩
    rw [if_pos (by rw [List.length_append]; exact Nat.le_add_right _ _), List.take_left, isNumber, List.drop_left]
    rfl

/-! ## Characters -/

/-- The bytes that stand for a code point: those of the character, and of a low surrogate that has
lost its high one the three bytes of its number. -/
inductive Encodes : Nat → Text → Prop
  | character (character : Char) : Encodes character.toNat (String.utf8EncodeChar character)
  | lowSurrogate {low : Nat} : isLowSurrogate low = true →
    Encodes low [0xED, UInt8.ofNat (low / 64 % 64 + 0x80), UInt8.ofNat (low % 64 + 0x80)]

/-- The bits above a continuation byte do not meet it. -/
theorem lead_or {count low : Nat} (lead : Nat) (small : low < 2 ^ count) : 2 ^ count * lead ||| low = low + 2 ^ count * lead := by
  rw [← Nat.two_pow_add_eq_or_of_lt small, Nat.add_comm]

theorem continuation_eq (bits : Nat) : 0x80 ||| bits &&& 0x3F = bits % 64 + 0x80 := by
  rw [show 0x3F = 2 ^ 6 - 1 from rfl, Nat.and_two_pow_sub_one_eq_mod]
  exact @lead_or 6 (bits % 64) 2 (Nat.mod_lt _ (by decide))

theorem encodeCodepoint_char (character : Char) :
    encodeCodepoint character.toNat = some (String.utf8EncodeChar character) := by
  have bound : character.toNat < 0x110000 := by
    rcases character.valid with small | ⟨-, large⟩
    · exact Nat.lt_trans small (by decide)
    · exact large
  unfold encodeCodepoint String.utf8EncodeChar
  rw [show character.val.toNat = character.toNat from rfl]
  generalize character.toNat = codepoint at bound ⊢
  simp only [continuation_eq, Nat.shiftRight_eq_div_pow]
  split
  · rfl
  split
  next two =>
    have lead : 0xC0 ||| codepoint / 2 ^ 6 = codepoint / 64 % 32 + 0xC0 := by
      rw [Nat.mod_eq_of_lt (by omega)]
      exact @lead_or 6 (codepoint / 64) 3 (by omega)
    rw [lead]
  split
  next three =>
    have lead : 0xE0 ||| codepoint / 2 ^ 12 = codepoint / 4096 % 16 + 0xE0 := by
      rw [Nat.mod_eq_of_lt (by omega)]
      exact @lead_or 4 (codepoint / 4096) 14 (by omega)
    rw [lead]
  next four =>
    have lead : 0xF0 ||| codepoint / 2 ^ 18 = codepoint / 262144 % 8 + 0xF0 := by
      rw [Nat.mod_eq_of_lt (by omega)]
      exact @lead_or 4 (codepoint / 262144) 15 (by omega)
    rw [if_pos (by omega), lead]

theorem encodeCodepoint_lowSurrogate {low : Nat} (isLow : isLowSurrogate low = true) :
    encodeCodepoint low = some [0xED, UInt8.ofNat (low / 64 % 64 + 0x80), UInt8.ofNat (low % 64 + 0x80)] := by
  rw [isLowSurrogate, Bool.and_eq_true, decide_eq_true_eq, decide_eq_true_eq] at isLow
  have lead : 0xE0 ||| low / 2 ^ 12 = 0xED := by
    rw [show low / 2 ^ 12 = 13 by omega]
    rfl
  rw [encodeCodepoint, if_neg (by omega), if_neg (by omega), if_pos (by omega), continuation_eq, continuation_eq,
    Nat.shiftRight_eq_div_pow, Nat.shiftRight_eq_div_pow, lead]
  rfl

/-- A code point other than a high surrogate is compared as the bytes that stand for it. -/
theorem encodeCodepoint_iff {codepoint : Nat} {bytes : Text} (notHigh : isHighSurrogate codepoint = false) :
    encodeCodepoint codepoint = some bytes ↔ Encodes codepoint bytes := by
  constructor
  · intro encoded
    by_cases low : isLowSurrogate codepoint = true
    · rw [encodeCodepoint_lowSurrogate low] at encoded
      rw [← Option.some.inj encoded]
      exact .lowSurrogate low
    · have valid : codepoint.isValidChar := by
        have bound : codepoint ≤ 0x10FFFF := by
          by_contra beyond
          rw [encodeCodepoint, if_neg (by omega), if_neg (by omega), if_neg (by omega), if_neg beyond] at encoded
          cases encoded
        rw [isHighSurrogate, Bool.and_eq_false_iff, decide_eq_false_iff_not, decide_eq_false_iff_not] at notHigh
        rw [isLowSurrogate, Bool.and_eq_true, decide_eq_true_eq, decide_eq_true_eq] at low
        unfold Nat.isValidChar
        omega
      have isCodepoint : (Char.ofNatAux codepoint valid).toNat = codepoint := rfl
      rw [← isCodepoint, encodeCodepoint_char] at encoded
      have encodes := Encodes.character (Char.ofNatAux codepoint valid)
      rwa [isCodepoint, Option.some.inj encoded] at encodes
  · intro encodes
    cases encodes with
    | character character => exact encodeCodepoint_char character
    | lowSurrogate isLow => exact encodeCodepoint_lowSurrogate isLow

/-! ## Spellings behind `U&` -/

/-- The ways to write a number behind the escape: four digits, or a plus and six. -/
inductive Numbered (escape : UInt8) : Text → Nat → Prop
  | short {digits : Text} {value : Nat} : digits.length = 4 → digits.head? ≠ some escape → HexNumber digits value →
    Numbered escape digits value
  | long {digits : Text} {value : Nat} : plus ≠ escape → digits.length = 6 → HexNumber digits value →
    Numbered escape (plus :: digits) value

/-- The code points that the escapes name; a high surrogate needs a low one behind it. -/
inductive Codepoint (escape : UInt8) : Text → Nat → Prop
  | number {spelled : Text} {value : Nat} : Numbered escape spelled value → isHighSurrogate value = false →
    Codepoint escape spelled value
  | pair {spelled digits : Text} {high low : Nat} : Numbered escape spelled high → isHighSurrogate high = true →
    digits.length = 4 → HexNumber digits low → isLowSurrogate low = true →
    Codepoint escape (spelled ++ escape :: digits) (0x10000 + (high - 0xD800) * 0x400 + (low - 0xDC00))

/-- A piece of a spelling and the bytes that it stands for. -/
inductive Piece (escape : UInt8) : Text → Text → Prop
  | byte {byte : UInt8} : byte ≠ Byte.doubleQuote → byte ≠ escape → Piece escape [byte] [byte]
  | doubleQuote : Piece escape [Byte.doubleQuote, Byte.doubleQuote] [Byte.doubleQuote]
  | escape : escape ≠ Byte.doubleQuote → Piece escape [escape, escape] [escape]
  | codepoint {spelled bytes : Text} {value : Nat} : escape ≠ Byte.doubleQuote → Codepoint escape spelled value →
    Encodes value bytes → Piece escape (escape :: spelled) bytes

/-- What stands between the quotes, and the bytes that it stands for. -/
inductive Spells (escape : UInt8) : Text → Text → Prop
  | nil : Spells escape [] []
  | cons {spelled bytes content identifier : Text} : Piece escape spelled bytes → Spells escape content identifier →
    Spells escape (spelled ++ content) (bytes ++ identifier)

theorem HexNumber.head_ne_plus {digits : Text} {value : Nat} (number : HexNumber digits value) : digits.head? ≠ some plus := by
  obtain ⟨values, spelled, -⟩ := number
  cases spelled with
  | nil => exact Option.some_ne_none _ |>.symm
  | cons isDigit =>
    intro isPlus
    rw [Option.some.inj isPlus] at isDigit
    cases isDigit

theorem Numbered.head {escape : UInt8} {spelled : Text} {value : Nat} (numbered : Numbered escape spelled value) :
    ∃ first more, spelled = first :: more ∧ first ≠ escape := by
  cases numbered with
  | short four unescaped =>
    cases spelled with
    | nil => cases four
    | cons first more => exact ⟨first, more, rfl, fun isEscape => unescaped (congrArg some isEscape)⟩
  | long unescaped => exact ⟨_, _, rfl, unescaped⟩

theorem Codepoint.head {escape : UInt8} {spelled : Text} {value : Nat} (codepoint : Codepoint escape spelled value) :
    ∃ first more, spelled = first :: more ∧ first ≠ escape := by
  cases codepoint with
  | number numbered => exact numbered.head
  | pair numbered =>
    obtain ⟨first, more, rfl, unescaped⟩ := numbered.head
    exact ⟨first, _, rfl, unescaped⟩

theorem numbered_iff {escape : UInt8} {value : Nat} {content rest : Text} (unescaped : content.head? ≠ some escape) :
    (if content.head? = some plus then uampHexCodepoint 6 (content.drop 1) else uampHexCodepoint 4 content) =
        some (value, rest) ↔
      ∃ spelled, content = spelled ++ rest ∧ Numbered escape spelled value := by
  constructor
  · intro read
    split at read
    next isPlus =>
      obtain ⟨digits, isContent, six, number⟩ := uampHexCodepoint_iff.mp read
      refine ⟨plus :: digits, ?_, .long (fun isEscape => unescaped (isEscape ▸ isPlus)) six number⟩
      cases content with
      | nil => cases isPlus
      | cons first more =>
        rw [Option.some.inj isPlus, List.cons_append, ← isContent]
        rfl
    next notPlus =>
      obtain ⟨digits, rfl, four, number⟩ := uampHexCodepoint_iff.mp read
      refine ⟨digits, rfl, .short four ?_ number⟩
      cases digits with
      | nil => cases four
      | cons first more => exact unescaped
  · rintro ⟨spelled, rfl, numbered⟩
    cases numbered with
    | short four _ number =>
      rw [if_neg, uampHexCodepoint_iff]
      · exact ⟨spelled, rfl, four, number⟩
      · cases spelled with
        | nil => cases four
        | cons first more => exact number.head_ne_plus
    | @long digits _ _ six number =>
      rw [List.cons_append, List.head?_cons, if_pos rfl]
      exact uampHexCodepoint_iff.mpr ⟨digits, rfl, six, number⟩

theorem shiftLeft_ten (high : Nat) : high <<< 10 = high * 0x400 :=
  Nat.shiftLeft_eq high 10

theorem uampLowSurrogate_iff {escape : UInt8} {high value : Nat} {content rest : Text} :
    uampLowSurrogate escape high content = some (value, rest) ↔
      ∃ digits low, content = escape :: digits ++ rest ∧ digits.length = 4 ∧ HexNumber digits low ∧
        isLowSurrogate low = true ∧ value = 0x10000 + (high - 0xD800) * 0x400 + (low - 0xDC00) := by
  constructor
  · intro read
    unfold uampLowSurrogate at read
    split at read
    · cases read
    next byte content =>
      split at read
      · cases read
      next isEscape =>
        obtain ⟨⟨low, behind⟩, isRead, isPair⟩ := Option.bind_eq_some_iff.mp read
        obtain ⟨digits, rfl, four, number⟩ := uampHexCodepoint_iff.mp isRead
        dsimp only at isPair
        split at isPair
        next isLow =>
          rw [Option.some_inj, Prod.mk_inj, shiftLeft_ten] at isPair
          obtain ⟨isValue, rfl⟩ := isPair
          exact ⟨digits, low, by rw [not_not.mp isEscape]; rfl, four, number, isLow, isValue.symm⟩
        · cases isPair
  · rintro ⟨digits, low, rfl, four, number, isLow, isValue⟩
    rw [isValue, List.cons_append, uampLowSurrogate, if_neg (not_not.mpr rfl), uampHexCodepoint_iff.mpr ⟨digits, rfl, four, number⟩,
      Option.bind_some]
    dsimp only
    rw [if_pos isLow, shiftLeft_ten]

theorem uampCodepoint_iff {escape : UInt8} {value : Nat} {content rest : Text} (unescaped : content.head? ≠ some escape) :
    uampCodepoint escape content = some (value, rest) ↔
      ∃ spelled, content = spelled ++ rest ∧ Codepoint escape spelled value := by
  unfold uampCodepoint
  constructor
  · intro read
    obtain ⟨⟨high, behind⟩, isRead, isPair⟩ := Option.bind_eq_some_iff.mp read
    obtain ⟨spelled, rfl, numbered⟩ := (numbered_iff unescaped).mp isRead
    dsimp only at isPair
    split at isPair
    next isHigh =>
      obtain ⟨digits, low, rfl, four, number, isLow, isValue⟩ := uampLowSurrogate_iff.mp isPair
      rw [isValue]
      exact ⟨spelled ++ escape :: digits, by rw [List.append_assoc], .pair numbered isHigh four number isLow⟩
    next notHigh =>
      cases isPair
      exact ⟨spelled, rfl, .number numbered (Bool.eq_false_of_not_eq_true notHigh)⟩
  · rintro ⟨spelled, rfl, codepoint⟩
    cases codepoint with
    | number numbered notHigh =>
      rw [(numbered_iff unescaped).mpr ⟨spelled, rfl, numbered⟩, Option.bind_some]
      dsimp only
      rw [notHigh]
      rfl
    | @pair spelled digits high low numbered isHigh four number isLow =>
      rw [(numbered_iff unescaped).mpr ⟨spelled, by rw [List.append_assoc], numbered⟩, Option.bind_some]
      dsimp only
      rw [if_pos isHigh, uampLowSurrogate_iff]
      exact ⟨digits, low, rfl, four, number, isLow, rfl⟩

theorem Codepoint.notHigh {escape : UInt8} {spelled : Text} {value : Nat} (codepoint : Codepoint escape spelled value) :
    isHighSurrogate value = false := by
  cases codepoint with
  | number _ notHigh => exact notHigh
  | pair => exact Bool.and_eq_false_iff.mpr (.inr (decide_eq_false (by omega)))

/-- A turn of the loop reads one piece. -/
theorem uampPiece_iff {escape : UInt8} {content bytes rest : Text} :
    uampPiece escape content = some (bytes, rest) ↔ ∃ spelled, content = spelled ++ rest ∧ Piece escape spelled bytes := by
  constructor
  · intro read
    unfold uampPiece at read
    split at read
    · cases read
    next byte content =>
      split at read
      next isQuote =>
        split at read
        next doubled =>
          cases read
          cases content with
          | nil => cases doubled
          | cons next rest =>
            rw [isQuote, Option.some.inj doubled]
            exact ⟨_, rfl, .doubleQuote⟩
        · cases read
      next notQuote =>
        split at read
        next plain =>
          cases read
          exact ⟨[byte], rfl, .byte notQuote plain⟩
        next isEscape =>
          obtain rfl := not_not.mp isEscape
          split at read
          · cases read
          next next behind =>
            split at read
            next doubled =>
              cases read
              exact ⟨[byte, byte], by rw [doubled]; rfl, .escape notQuote⟩
            next single =>
              obtain ⟨⟨value, left⟩, isRead, isPair⟩ := Option.bind_eq_some_iff.mp read
              obtain ⟨encoded, isEncoded, isPair⟩ := Option.map_eq_some_iff.mp isPair
              cases isPair
              obtain ⟨spelled, isContent, codepoint⟩ :=
                (uampCodepoint_iff (by rw [List.head?_cons]; exact fun isEscape => single (Option.some.inj isEscape))).mp isRead
              refine ⟨byte :: spelled, by rw [isContent]; rfl, .codepoint notQuote codepoint ?_⟩
              exact (encodeCodepoint_iff codepoint.notHigh).mp isEncoded
  · rintro ⟨spelled, rfl, piece⟩
    cases piece with
    | byte notQuote plain =>
      unfold uampPiece
      dsimp only [List.singleton_append]
      rw [if_neg notQuote, if_pos plain]
    | doubleQuote => rfl
    | escape notQuote =>
      unfold uampPiece
      dsimp only [List.cons_append, List.nil_append]
      rw [if_neg notQuote, if_neg (not_not.mpr rfl), if_pos rfl]
    | @codepoint spelled _ value notQuote codepoint encodes =>
      obtain ⟨first, more, rfl, unescaped⟩ := codepoint.head
      have isRead := (@uampCodepoint_iff escape value (first :: more ++ rest) rest
        fun isEscape => unescaped (Option.some.inj isEscape)).mpr ⟨_, rfl, codepoint⟩
      unfold uampPiece
      dsimp only [List.cons_append] at isRead ⊢
      rw [if_neg notQuote, if_neg (not_not.mpr rfl), if_neg unescaped, isRead, Option.bind_some]
      dsimp only
      rw [(encodeCodepoint_iff codepoint.notHigh).mpr encodes]
      rfl

theorem matchBytes_iff {identifier bytes left : Text} : matchBytes identifier bytes = some left ↔ identifier = bytes ++ left := by
  induction bytes generalizing identifier with
  | nil => exact Option.some_inj
  | cons byte bytes inductionHypothesis =>
    rw [matchBytes, List.foldlM_cons]
    constructor
    · intro compared
      obtain ⟨rest, isRest, compared⟩ := Option.bind_eq_some_iff.mp compared
      split at isRest
      next isHead =>
        cases isRest
        have isRest := inductionHypothesis.mp compared
        cases identifier with
        | nil => cases isHead
        | cons first rest =>
          rw [Option.some.inj isHead, List.cons_append, ← isRest]
          rfl
      · cases isRest
    · rintro rfl
      rw [List.cons_append, List.head?_cons, if_pos rfl]
      exact inductionHypothesis.mpr rfl

/-- The comparison behind `U&` holds where the spelling stands for the identifier. -/
theorem uampMatches_iff {escape : UInt8} {content identifier : Text} :
    uampMatches escape content identifier = true ↔ Spells escape content identifier := by
  constructor
  · intro compared
    fun_induction uampMatches escape content identifier with
    | case1 identifier =>
      rw [List.isEmpty_iff.mp compared]
      exact .nil
    | case2 => cases compared
    | case3 => cases compared
    | case4 content identifier some bytes rest isRead left isLeft inductionHypothesis =>
      obtain ⟨spelled, rfl, piece⟩ := uampPiece_iff.mp isRead
      rw [matchBytes_iff.mp isLeft]
      exact .cons piece (inductionHypothesis compared)
  · intro spells
    induction spells with
    | nil =>
      rw [uampMatches]
      rfl
    | @cons spelled bytes content identifier piece _ inductionHypothesis =>
      have isRead := (@uampPiece_iff escape _ bytes content).mpr ⟨spelled, rfl, piece⟩
      rw [uampMatches, if_neg]
      · split
        next unread =>
          rw [isRead] at unread
          cases unread
        next bytes rest reread =>
          rw [isRead] at reread
          cases reread
          rw [matchBytes_iff.mpr rfl]
          exact inductionHypothesis
      · intro empty
        rw [(List.append_eq_nil_iff.mp empty).1] at piece
        cases piece

/-- A spelling stands for one identifier. -/
theorem Spells.unique {escape : UInt8} {content first second : Text} (left : Spells escape content first)
    (right : Spells escape content second) : first = second := by
  induction left generalizing second with
  | nil =>
    generalize empty : ([] : Text) = content at right
    cases right with
    | nil => rfl
    | cons piece _ =>
      rw [(List.append_eq_nil_iff.mp empty.symm).1] at piece
      cases piece
  | @cons spelled bytes content identifier piece spells inductionHypothesis =>
    have isRead := (@uampPiece_iff escape _ bytes content).mpr ⟨spelled, rfl, piece⟩
    generalize isContent : spelled ++ content = whole at right isRead
    cases right with
    | nil => cases isRead
    | @cons other otherBytes rest otherIdentifier otherPiece otherSpells =>
      rw [(@uampPiece_iff escape _ otherBytes rest).mpr ⟨other, rfl, otherPiece⟩, Option.some_inj, Prod.mk_inj] at isRead
      obtain ⟨rfl, rfl⟩ := isRead
      rw [inductionHypothesis otherSpells]

/-! ## Quoted spellings -/

/-- What stands between quotes when every closing byte in it is doubled. -/
def doubled (closing : UInt8) (identifier : Text) : Text :=
  identifier.flatMap fun byte => if byte = closing then [closing, closing] else [byte]

theorem doubled_cons (closing byte : UInt8) (identifier : Text) :
    doubled closing (byte :: identifier) = (if byte = closing then [closing, closing] else [byte]) ++ doubled closing identifier :=
  List.flatMap_cons

theorem doubled_injective (closing : UInt8) : Function.Injective (doubled closing) := by
  intro first
  induction first with
  | nil =>
    intro second same
    cases second with
    | nil => rfl
    | cons byte second =>
      rw [doubled_cons] at same
      split at same <;> cases same
  | cons head first inductionHypothesis =>
    intro second same
    cases second with
    | nil =>
      rw [doubled_cons] at same
      split at same <;> cases same
    | cons byte second =>
      rw [doubled_cons, doubled_cons] at same
      split at same
      next isClosing =>
        split at same
        next isToo => rw [isClosing, isToo, inductionHypothesis (List.append_cancel_left same)]
        next other => exact absurd (List.cons.inj same).1.symm other
      next plain =>
        split at same
        next isClosing => exact absurd (List.cons.inj same).1 plain
        next =>
          obtain ⟨rfl, same⟩ := List.cons.inj same
          rw [inductionHypothesis (List.append_cancel_left same)]

/-- A text that is quoted up to a closing byte: what stands between the quotes, and behind them. -/
inductive Enclosed (closing : UInt8) : Text → Text → Text → Prop
  | close {after : Text} : after.head? ≠ some closing → Enclosed closing (closing :: after) [] after
  | doubled {rest content after : Text} : Enclosed closing rest content after →
    Enclosed closing (closing :: closing :: rest) (closing :: closing :: content) after
  | byte {byte : UInt8} {rest content after : Text} : byte ≠ closing → Enclosed closing rest content after →
    Enclosed closing (byte :: rest) (byte :: content) after

theorem Enclosed.eq {closing : UInt8} {rest content after : Text} (enclosed : Enclosed closing rest content after) :
    rest = content ++ closing :: after := by
  induction enclosed with
  | close => rfl
  | doubled _ inductionHypothesis => rw [inductionHypothesis, List.cons_append, List.cons_append]
  | byte _ _ inductionHypothesis => rw [inductionHypothesis, List.cons_append]

theorem Enclosed.ne_nil {closing : UInt8} {rest content after : Text} (enclosed : Enclosed closing rest content after) :
    rest ≠ [] := by
  cases enclosed <;> exact List.cons_ne_nil _ _

theorem Enclosed.quotedIdentifierEnd {closing : UInt8} {rest content after : Text}
    (enclosed : Enclosed closing rest content after) : quotedIdentifierEnd closing rest = after := by
  unfold Source.quotedIdentifierEnd
  induction enclosed with
  | @close after notDoubled =>
    cases after with
    | nil => rfl
    | cons second after =>
      rw [skipQuotedString, if_pos rfl, if_neg fun isClosing => notDoubled (congrArg some isClosing)]
  | doubled _ inductionHypothesis => rw [skipQuotedString, if_pos rfl, if_pos rfl, inductionHypothesis]
  | @byte byte rest _ _ other enclosed inductionHypothesis =>
    cases rest with
    | nil => exact absurd rfl enclosed.ne_nil
    | cons second rest =>
      rw [skipQuotedString, if_neg other, Bool.false_and, if_neg Bool.false_ne_true, inductionHypothesis]

theorem quotedMatches_byte {closing first : UInt8} (other : first ≠ closing) (byte : UInt8) (content identifier : Text) :
    quotedMatches closing (first :: content) (byte :: identifier) = (first = byte && quotedMatches closing content identifier) := by
  cases content with
  | nil => rw [quotedMatches, quotedMatches]
  | cons second content => rw [quotedMatches, if_neg fun both => other both.1]

/-- Between quotes the comparison holds where the identifier stands with its closing bytes doubled. -/
theorem quotedMatches_iff {closing : UInt8} {rest content after : Text} (enclosed : Enclosed closing rest content after)
    (identifier : Text) : quotedMatches closing content identifier = true ↔ content = doubled closing identifier := by
  induction enclosed generalizing identifier with
  | close =>
    cases identifier with
    | nil => exact ⟨fun _ => rfl, fun _ => rfl⟩
    | cons byte identifier =>
      constructor
      · intro compared
        cases compared
      · intro isContent
        rw [doubled, List.flatMap_cons] at isContent
        split at isContent <;> cases isContent
  | doubled _ inductionHypothesis =>
    cases identifier with
    | nil =>
      constructor
      · intro compared
        cases compared
      · intro isContent
        cases isContent
    | cons byte identifier =>
      rw [quotedMatches, if_pos ⟨rfl, rfl⟩, Bool.and_eq_true, decide_eq_true_eq, inductionHypothesis, doubled, doubled,
        List.flatMap_cons]
      constructor
      · rintro ⟨rfl, rfl⟩
        rw [if_pos rfl]
        rfl
      · intro isContent
        split at isContent
        next isClosing => exact ⟨isClosing, (List.cons.inj (List.cons.inj isContent).2).2⟩
        next other => exact absurd (List.cons.inj isContent).1.symm other
  | @byte first _ _ _ other _ inductionHypothesis =>
    cases identifier with
    | nil =>
      constructor
      · intro compared
        cases compared
      · intro isContent
        cases isContent
    | cons byte identifier =>
      rw [quotedMatches_byte other, Bool.and_eq_true, decide_eq_true_eq, inductionHypothesis, doubled, doubled, List.flatMap_cons]
      constructor
      · rintro ⟨rfl, rfl⟩
        rw [if_neg other]
        rfl
      · intro isContent
        split at isContent
        next => exact absurd (List.cons.inj isContent).1 other
        next => exact List.cons.inj isContent

theorem tokenOf_append (token after : Text) : tokenOf (token ++ after) after = token := by
  rw [tokenOf, List.length_append, Nat.add_sub_cancel, List.take_left]

theorem Enclosed.tokenOf {closing : UInt8} {rest content after : Text} (enclosed : Enclosed closing rest content after) :
    tokenOf rest after = content ++ [closing] := by
  rw [enclosed.eq, List.append_cons, tokenOf_append]

section lexing

variable (lexer : Lexer)

/-! ## The escape -/

/-- The keyword behind a spelling that gives its escape. -/
def GivesEscape (quoteEnd : Text) (escape : UInt8) (after : Text) : Prop :=
  ∃ keyword behind, skipTrivia lexer quoteEnd = keyword ++ behind ∧ keyword.map toLower = ascii "uescape" ∧
    (∀ byte ∈ behind.head?, isIdentifierPart byte = false) ∧ skipTrivia lexer behind = Byte.quote :: escape :: Byte.quote :: after

/-- The escape of a spelling that ends its quotes, and what stands behind it: a backslash, if the keyword gives none. -/
def EscapeClause (quoteEnd : Text) (escape : UInt8) (after : Text) : Prop :=
  GivesEscape lexer quoteEnd escape after ∨
    escape = Byte.backslash ∧ after = quoteEnd ∧ ∀ other behind, ¬ GivesEscape lexer quoteEnd other behind

theorem identifierEnd_append {word after : Text} (starts : ∃ first ∈ word.head?, isIdentifierStart first = true)
    (parts : ∀ byte ∈ word, isIdentifierPart byte = true) (ends : ∀ byte ∈ after.head?, isIdentifierPart byte = false) :
    identifierEnd (word ++ after) = after := by
  obtain ⟨first, isFirst, starts⟩ := starts
  cases word with
  | nil => cases isFirst
  | cons head word =>
    rw [Option.some.inj isFirst] at *
    rw [List.cons_append, identifierEnd, if_pos starts, List.dropWhile_append_of_pos fun byte listed =>
      parts byte (List.mem_cons_of_mem _ listed)]
    cases after with
    | nil => rfl
    | cons byte after => exact List.dropWhile_cons_of_neg (by rw [ends byte rfl]; exact Bool.false_ne_true)

theorem isAlpha_of_toLower {byte : UInt8} (lower : isAlpha (toLower byte) = true) : isAlpha byte = true := by
  unfold toLower at lower
  split at lower
  next upper => exact Bool.or_eq_true_iff.mpr (.inl upper)
  · exact lower

theorem isIdentifierStart_of_isAlpha {byte : UInt8} (letter : isAlpha byte = true) : isIdentifierStart byte = true := by
  simp [isIdentifierStart, letter]

theorem isIdentifierPart_of_start {byte : UInt8} (starts : isIdentifierStart byte = true) : isIdentifierPart byte = true :=
  Bool.or_eq_true_iff.mpr (.inl starts)

theorem uescape_eq : ascii "uescape" = [117, 101, 115, 99, 97, 112, 101] := by
  decide +kernel

/-- The keyword is a word of letters. -/
theorem keyword_isAlpha {keyword : Text} (isKeyword : keyword.map toLower = ascii "uescape") :
    ∀ byte ∈ keyword, isAlpha byte = true := by
  intro byte listed
  have lower : toLower byte ∈ ascii "uescape" := isKeyword ▸ List.mem_map_of_mem listed
  rw [uescape_eq] at lower
  exact isAlpha_of_toLower ((by decide +kernel : ∀ other ∈ [117, 101, 115, 99, 97, 112, 101], isAlpha other = true) _ lower)

theorem identifierEnd_keyword {keyword behind : Text} (isKeyword : keyword.map toLower = ascii "uescape")
    (ends : ∀ byte ∈ behind.head?, isIdentifierPart byte = false) : identifierEnd (keyword ++ behind) = behind := by
  have letters := keyword_isAlpha isKeyword
  refine identifierEnd_append ?_ (fun byte listed =>
    isIdentifierPart_of_start (isIdentifierStart_of_isAlpha (letters byte listed))) ends
  cases keyword with
  | nil =>
    rw [uescape_eq] at isKeyword
    cases isKeyword
  | cons first keyword => exact ⟨first, rfl, isIdentifierStart_of_isAlpha (letters first List.mem_cons_self)⟩

theorem tokenOf_split {rest after : Text} (suffix : after <:+ rest) : tokenOf rest after ++ after = rest := by
  obtain ⟨front, rfl⟩ := suffix
  rw [tokenOf_append]

/-- What the scan for the keyword reads. -/
theorem spanEnd_gives {quoteEnd : Text} {escape : UInt8} {after : Text} (gives : GivesEscape lexer quoteEnd escape after) :
    uampEscape lexer quoteEnd = escape ∧ uampIdentifierSpanEnd lexer quoteEnd = after := by
  obtain ⟨keyword, behind, isKeyword, isUescape, ends, isQuoted⟩ := gives
  have isBehind := identifierEnd_keyword isUescape ends
  have isTaken : (keyword ++ behind).take ((keyword ++ behind).length - behind.length) = keyword := tokenOf_append keyword behind
  unfold uampEscape uampIdentifierSpanEnd
  dsimp only
  rw [isKeyword, isBehind, isTaken, if_pos isUescape, if_pos isUescape, isQuoted]
  exact ⟨rfl, rfl⟩

/-- A word that reads as the keyword has an end. -/
theorem keyword_ends {rest : Text} (isUescape : (tokenOf rest (identifierEnd rest)).map toLower = ascii "uescape") :
    ∀ byte ∈ (identifierEnd rest).head?, isIdentifierPart byte = false := by
  cases rest with
  | nil =>
    intro byte isHead
    cases isHead
  | cons first more =>
    by_cases starts : isIdentifierStart first = true
    · exact (identifierEnd_word starts).choose_spec.choose_spec.2.2.2
    · rw [identifierEnd, if_neg starts, tokenOf, Nat.sub_self, List.take_zero, uescape_eq] at isUescape
      cases isUescape

theorem spanEnd_cases (quoteEnd : Text) :
    GivesEscape lexer quoteEnd (uampEscape lexer quoteEnd) (uampIdentifierSpanEnd lexer quoteEnd) ∨
      uampEscape lexer quoteEnd = Byte.backslash ∧ uampIdentifierSpanEnd lexer quoteEnd = quoteEnd := by
  by_cases isUescape : (tokenOf (skipTrivia lexer quoteEnd) (identifierEnd (skipTrivia lexer quoteEnd))).map toLower =
    ascii "uescape"
  · unfold uampEscape uampIdentifierSpanEnd
    dsimp only
    rw [tokenOf] at isUescape
    rw [if_pos isUescape, if_pos isUescape]
    rcases isQuoted : skipTrivia lexer (identifierEnd (skipTrivia lexer quoteEnd)) with _ | ⟨opening, _ | ⟨escape, _ | ⟨closing, after⟩⟩⟩
    · exact .inr ⟨rfl, rfl⟩
    · exact .inr ⟨rfl, rfl⟩
    · exact .inr ⟨rfl, rfl⟩
    · dsimp only
      by_cases quotes : opening = Byte.quote ∧ closing = Byte.quote
      · rw [if_pos quotes, if_pos quotes]
        obtain ⟨rfl, rfl⟩ := quotes
        exact .inl ⟨_, _, (tokenOf_split (identifierEnd_suffix _)).symm, isUescape, keyword_ends isUescape, isQuoted⟩
      · rw [if_neg quotes, if_neg quotes]
        exact .inr ⟨rfl, rfl⟩
  · unfold uampEscape uampIdentifierSpanEnd
    dsimp only
    rw [tokenOf] at isUescape
    rw [if_neg isUescape, if_neg isUescape]
    exact .inr ⟨rfl, rfl⟩

theorem escapeClause_iff {quoteEnd : Text} {escape : UInt8} {after : Text} :
    EscapeClause lexer quoteEnd escape after ↔
      uampEscape lexer quoteEnd = escape ∧ uampIdentifierSpanEnd lexer quoteEnd = after := by
  constructor
  · rintro (gives | ⟨rfl, rfl, none⟩)
    · exact spanEnd_gives lexer gives
    · exact (spanEnd_cases lexer after).resolve_left (none _ _)
  · rintro ⟨rfl, rfl⟩
    by_cases gives : ∃ other behind, GivesEscape lexer quoteEnd other behind
    · obtain ⟨other, behind, gives⟩ := gives
      obtain ⟨isEscape, isAfter⟩ := spanEnd_gives lexer gives
      rw [isEscape, isAfter]
      exact .inl gives
    · rcases spanEnd_cases lexer quoteEnd with given | ⟨isEscape, isAfter⟩
      · exact .inl given
      · exact .inr ⟨isEscape, isAfter, fun other behind isGiven => gives ⟨other, behind, isGiven⟩⟩

/-! ## Identifiers -/

/-- What a token of the source denotes, and what stands behind it. -/
inductive Denotes : Text → Text → Text → Prop
  | word {identifier after : Text} : opensUampIdentifier (identifier ++ after) = false →
    (∃ first ∈ identifier.head?, isIdentifierStart first = true) → (∀ byte ∈ identifier, isIdentifierPart byte = true) →
    (∀ byte ∈ after.head?, isIdentifierPart byte = false) → Denotes (identifier ++ after) identifier after
  | quoted {opening : UInt8} {rest identifier after : Text} : opensQuoted opening = true →
    Enclosed (closingOf opening) rest (doubled (closingOf opening) identifier) after → Denotes (opening :: rest) identifier after
  | uamp {letter escape : UInt8} {rest content quoteEnd identifier after : Text} : isLetter 117 letter = true →
    Enclosed Byte.doubleQuote rest content quoteEnd → EscapeClause lexer quoteEnd escape after → Spells escape content identifier →
    Denotes (letter :: 38 :: Byte.doubleQuote :: rest) identifier after

/-- The quotes of the token at a position are closed. -/
def Closes (rest : Text) : Prop :=
  (opensUampIdentifier rest = true → ∃ content quoteEnd, Enclosed Byte.doubleQuote (rest.drop 3) content quoteEnd) ∧
    ∀ opening ∈ rest.head?, opensQuoted opening = true → ∃ content after, Enclosed (closingOf opening) (rest.drop 1) content after

theorem opensUampIdentifier_eq {rest : Text} (opens : opensUampIdentifier rest = true) :
    ∃ letter, isLetter 117 letter = true ∧ rest = letter :: 38 :: Byte.doubleQuote :: rest.drop 3 := by
  unfold opensUampIdentifier at opens
  split at opens
  next letter mark quote more =>
    rw [Bool.and_eq_true, Bool.and_eq_true, decide_eq_true_eq, decide_eq_true_eq] at opens
    obtain ⟨⟨isLetter, rfl⟩, rfl⟩ := opens
    exact ⟨letter, isLetter, rfl⟩
  · cases opens

theorem opensUampIdentifier_quoted {opening : UInt8} (opens : opensQuoted opening = true) (rest : Text) :
    opensUampIdentifier (opening :: rest) = false := by
  have notLetter : isLetter 117 opening = false := by
    simp only [opensQuoted, Bool.or_eq_true, decide_eq_true_eq] at opens
    rcases opens with (rfl | rfl) | rfl <;> rfl
  unfold opensUampIdentifier
  split
  next isCons =>
    rw [(List.cons.inj isCons).1] at notLetter
    rw [notLetter]
    rfl
  · rfl

theorem isIdentifierStart_notQuoted {first : UInt8} (starts : isIdentifierStart first = true) : opensQuoted first = false := by
  by_contra opens
  simp only [Bool.not_eq_false, opensQuoted, Bool.or_eq_true, decide_eq_true_eq] at opens
  rcases opens with (rfl | rfl) | rfl <;> cases starts

theorem sourceIdentifierAt_uamp {letter : UInt8} {rest content quoteEnd : Text} (letterU : isLetter 117 letter = true)
    (enclosed : Enclosed Byte.doubleQuote rest content quoteEnd) (identifier : Text) :
    sourceIdentifierAt lexer (letter :: 38 :: Byte.doubleQuote :: rest) identifier =
      if uampMatches (uampEscape lexer quoteEnd) content identifier then some (uampIdentifierSpanEnd lexer quoteEnd) else none := by
  have opens : opensUampIdentifier (letter :: 38 :: Byte.doubleQuote :: rest) = true := by
    rw [opensUampIdentifier, letterU]
    rfl
  have isRest : (letter :: 38 :: Byte.doubleQuote :: rest).drop 3 = rest := rfl
  unfold sourceIdentifierAt
  rw [if_pos opens, isRest, enclosed.quotedIdentifierEnd]
  dsimp only
  rw [enclosed.tokenOf, List.dropLast_concat]

theorem sourceIdentifierAt_quoted {opening : UInt8} {rest content after : Text} (opens : opensQuoted opening = true)
    (enclosed : Enclosed (closingOf opening) rest content after) (identifier : Text) :
    sourceIdentifierAt lexer (opening :: rest) identifier =
      if quotedMatches (closingOf opening) content identifier then some after else none := by
  have isToken : tokenOf (opening :: rest) after = opening :: (content ++ [closingOf opening]) := by
    rw [enclosed.eq, List.append_cons, ← List.cons_append, tokenOf_append]
  rw [sourceIdentifierAt, if_neg (by rw [opensUampIdentifier_quoted opens]; exact Bool.false_ne_true)]
  dsimp only
  rw [if_pos opens, enclosed.quotedIdentifierEnd, isToken, quotedIdentifierMatches, opens, List.getLast?_concat,
    decide_eq_true rfl, Bool.true_and, Bool.true_and, List.dropLast_concat]

theorem sourceIdentifierAt_word {first : UInt8} {word after : Text}
    (notUamp : opensUampIdentifier (first :: word ++ after) = false) (starts : isIdentifierStart first = true)
    (parts : ∀ byte ∈ word, isIdentifierPart byte = true) (ends : ∀ byte ∈ after.head?, isIdentifierPart byte = false)
    (identifier : Text) :
    sourceIdentifierAt lexer (first :: word ++ after) identifier = if first :: word = identifier then some after else none := by
  have isEnd : identifierEnd (first :: word ++ after) = after := by
    refine identifierEnd_append ⟨first, rfl, starts⟩ (fun byte listed => ?_) ends
    rcases List.mem_cons.mp listed with rfl | listed
    · exact isIdentifierPart_of_start starts
    · exact parts byte listed
  have moved : after ≠ first :: word ++ after := fun same => by
    have := congrArg List.length same
    rw [List.length_append, List.length_cons] at this
    omega
  unfold sourceIdentifierAt
  rw [notUamp, if_neg Bool.false_ne_true]
  dsimp only [List.cons_append]
  rw [isIdentifierStart_notQuoted starts, if_neg Bool.false_ne_true, ← List.cons_append, isEnd, if_neg moved, tokenOf_append]

theorem sourceIdentifierAt_iff {rest : Text} (closes : Closes rest) (identifier after : Text) :
    sourceIdentifierAt lexer rest identifier = some after ↔ Denotes lexer rest identifier after := by
  constructor
  · intro found
    by_cases uamp : opensUampIdentifier rest = true
    · obtain ⟨content, quoteEnd, enclosed⟩ := closes.1 uamp
      obtain ⟨letter, letterU, isRest⟩ := opensUampIdentifier_eq uamp
      rw [isRest, sourceIdentifierAt_uamp lexer letterU enclosed] at found
      split at found
      next compared =>
        rw [isRest]
        exact .uamp letterU enclosed ((escapeClause_iff lexer).mpr ⟨rfl, Option.some.inj found⟩) (uampMatches_iff.mp compared)
      · cases found
    rw [Bool.not_eq_true] at uamp
    cases rest with
    | nil => cases found
    | cons first more =>
      by_cases opens : opensQuoted first = true
      · obtain ⟨content, behind, enclosed⟩ : ∃ content behind, Enclosed (closingOf first) more content behind :=
          closes.2 first rfl opens
        rw [sourceIdentifierAt_quoted lexer opens enclosed] at found
        split at found
        next compared =>
          rw [(quotedMatches_iff enclosed identifier).mp compared, Option.some.inj found] at enclosed
          exact .quoted opens enclosed
        · cases found
      · by_cases starts : isIdentifierStart first = true
        · obtain ⟨byte, word, isToken, startsWord, parts, ends⟩ := @identifierEnd_word first more starts
          rw [isToken] at found uamp ⊢
          rw [sourceIdentifierAt_word lexer uamp startsWord parts ends] at found
          split at found
          next isIdentifier =>
            rw [← isIdentifier, ← Option.some.inj found]
            refine .word uamp ⟨byte, rfl, startsWord⟩ (fun other listed => ?_) ends
            rcases List.mem_cons.mp listed with rfl | listed
            · exact isIdentifierPart_of_start startsWord
            · exact parts other listed
          · cases found
        · rw [sourceIdentifierAt, uamp, if_neg Bool.false_ne_true] at found
          dsimp only at found
          rw [if_neg opens, identifierEnd, if_neg starts, if_pos rfl] at found
          cases found
  · intro denotes
    cases denotes with
    | @word identifier after notUamp starts parts ends =>
      cases identifier with
      | nil =>
        obtain ⟨first, isFirst, -⟩ := starts
        cases isFirst
      | cons first word =>
        obtain ⟨head, isHead, starts⟩ := starts
        rw [← Option.some.inj isHead] at starts
        rw [sourceIdentifierAt_word lexer notUamp starts (fun byte listed => parts byte (List.mem_cons_of_mem _ listed)) ends,
          if_pos rfl]
    | quoted opens enclosed =>
      rw [sourceIdentifierAt_quoted lexer opens enclosed, if_pos ((quotedMatches_iff enclosed identifier).mpr rfl)]
    | uamp letterU enclosed clause spells =>
      obtain ⟨isEscape, isAfter⟩ := (escapeClause_iff lexer).mp clause
      rw [sourceIdentifierAt_uamp lexer letterU enclosed, isEscape, if_pos (uampMatches_iff.mpr spells), isAfter]

/-- A token denotes one identifier. -/
theorem Denotes.unique {rest first firstEnd second secondEnd : Text} (denotes : Denotes lexer rest first firstEnd)
    (found : sourceIdentifierAt lexer rest second = some secondEnd) : first = second ∧ firstEnd = secondEnd := by
  cases denotes with
  | word notUamp starts parts ends =>
    cases first with
    | nil =>
      obtain ⟨byte, isFirst, -⟩ := starts
      cases isFirst
    | cons head word =>
      obtain ⟨byte, isHead, starts⟩ := starts
      rw [← Option.some.inj isHead] at starts
      rw [sourceIdentifierAt_word lexer notUamp starts (fun other listed => parts other (List.mem_cons_of_mem _ listed)) ends]
        at found
      split at found
      next same => exact ⟨same, Option.some.inj found⟩
      · cases found
  | quoted opens enclosed =>
    rw [sourceIdentifierAt_quoted lexer opens enclosed] at found
    split at found
    next compared => exact ⟨doubled_injective _ ((quotedMatches_iff enclosed second).mp compared), Option.some.inj found⟩
    · cases found
  | uamp letterU enclosed clause spells =>
    obtain ⟨isEscape, isAfter⟩ := (escapeClause_iff lexer).mp clause
    rw [sourceIdentifierAt_uamp lexer letterU enclosed, isEscape, isAfter] at found
    split at found
    next compared => exact ⟨spells.unique (uampMatches_iff.mp compared), Option.some.inj found⟩
    · cases found

/-- A closed token is taken for an identifier exactly where it denotes the identifier, and for one identifier at most. -/
theorem source_identifier_denotes {rest : Text} (closes : Closes rest) :
    (∀ identifier after, sourceIdentifierAt lexer rest identifier = some after ↔ Denotes lexer rest identifier after) ∧
      ∀ first firstEnd second secondEnd, sourceIdentifierAt lexer rest first = some firstEnd →
        sourceIdentifierAt lexer rest second = some secondEnd → first = second ∧ firstEnd = secondEnd :=
  ⟨sourceIdentifierAt_iff lexer closes, fun first firstEnd _ _ isFirst isSecond =>
    ((sourceIdentifierAt_iff lexer closes first firstEnd).mp isFirst).unique lexer isSecond⟩

/-- An escaped `a` behind `U&`, where a backslash is the escape. -/
theorem source_identifier_denotes_uamp :
    sourceIdentifierAt ⟨false, false⟩ [85, 38, 34, 92, 48, 48, 54, 49, 34] [97] = some [] := by
  have digits : HexNumber [48, 48, 54, 49] 97 :=
    ⟨[0, 0, 6, 1], .cons rfl (.cons rfl (.cons rfl (.cons rfl .nil))), rfl⟩
  have piece : Piece Byte.backslash [92, 48, 48, 54, 49] [97] :=
    .codepoint (by decide) (.number (.short rfl (by decide) digits) rfl) (.character 'a')
  have enclosed : Enclosed Byte.doubleQuote [92, 48, 48, 54, 49, 34] [92, 48, 48, 54, 49] [] :=
    .byte (by decide) (.byte (by decide) (.byte (by decide) (.byte (by decide) (.byte (by decide) (.close (by decide))))))
  have clause : EscapeClause ⟨false, false⟩ [] Byte.backslash [] := by
    refine .inr ⟨rfl, rfl, fun other behind gives => ?_⟩
    obtain ⟨keyword, rest, isNil, isKeyword, -⟩ := gives
    rw [skipTrivia] at isNil
    rw [(List.append_eq_nil_iff.mp isNil.symm).1, uescape_eq] at isKeyword
    cases isKeyword
  have closes : Closes [85, 38, 34, 92, 48, 48, 54, 49, 34] := by
    refine ⟨fun _ => ⟨_, _, enclosed⟩, fun opening isHead opens => ?_⟩
    rw [← Option.some.inj isHead] at opens
    cases opens
  exact ((source_identifier_denotes ⟨false, false⟩ closes).1 _ _).mpr (.uamp rfl enclosed clause (.cons piece .nil))

end lexing

end SqlParser.Core.Source
