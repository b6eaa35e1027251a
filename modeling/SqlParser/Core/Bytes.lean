import SqlParser.Core.Basic
import SqlParser.Library.Decimal

/-! # Bytes and their classes

The bytes that the lexers test, and the `ctype.h` classes of the C locale.
-/

namespace SqlParser.Core

namespace Byte

abbrev lineFeed : UInt8 := 10
abbrev carriageReturn : UInt8 := 13
abbrev space : UInt8 := 32
abbrev doubleQuote : UInt8 := 34
abbrev hash : UInt8 := 35
abbrev dollar : UInt8 := 36
abbrev quote : UInt8 := 39
abbrev star : UInt8 := 42
abbrev dash : UInt8 := 45
abbrev dot : UInt8 := 46
abbrev slash : UInt8 := 47
abbrev colon : UInt8 := 58
abbrev semicolon : UInt8 := 59
abbrev equals : UInt8 := 61
abbrev question : UInt8 := 63
abbrev at' : UInt8 := 64
abbrev openBracket : UInt8 := 91
abbrev backslash : UInt8 := 92
abbrev closeBracket : UInt8 := 93
abbrev underscore : UInt8 := 95
abbrev backtick : UInt8 := 96
abbrev bang : UInt8 := 33

end Byte

def isSpace (byte : UInt8) : Bool :=
  byte = 32 || (9 ≤ byte && byte ≤ 13)

def isControl (byte : UInt8) : Bool :=
  byte < 32 || byte = 127

export SqlParser.Library.Decimal (isDigit)

def isAlpha (byte : UInt8) : Bool :=
  (65 ≤ byte && byte ≤ 90) || (97 ≤ byte && byte ≤ 122)

def isAlnum (byte : UInt8) : Bool :=
  isAlpha byte || isDigit byte

/-- `tolower` -/
def toLower (byte : UInt8) : UInt8 :=
  if 65 ≤ byte && byte ≤ 90 then byte + 32 else byte

def isUpper (byte : UInt8) : Bool :=
  65 ≤ byte && byte ≤ 90

/-- The byte at an offset of a C string; behind the text stands the terminating NUL. -/
def byteAt (text : Text) (index : Nat) : UInt8 :=
  text.getD index 0

/-- The offset at which a rest of the text begins. -/
def offsetOf (text rest : Text) : Nat :=
  text.length - rest.length

/-- The end of the run of accepted bytes that begins at an offset. -/
def runEnd (accepts : UInt8 → Bool) (text : Text) (index : Nat) : Nat :=
  index + ((text.drop index).takeWhile accepts).length

theorem byteAt_eq_head (text : Text) (index : Nat) : byteAt text index = (text.drop index).headD 0 := by
  simp [byteAt, List.getD_eq_getElem?_getD, List.headD_eq_head?_getD, List.head?_drop]

theorem byteAt_of_le {text : Text} {index : Nat} (beyond : text.length ≤ index) : byteAt text index = 0 := by
  simp [byteAt, List.getD_eq_getElem?_getD, beyond]

theorem lt_of_byteAt {text : Text} {index : Nat} (present : byteAt text index ≠ 0) : index < text.length := by
  by_contra beyond
  exact present (byteAt_of_le (Nat.le_of_not_lt beyond))

theorem byteAt_mem {text : Text} {index : Nat} (inside : index < text.length) : byteAt text index ∈ text := by
  rw [byteAt, List.getD_eq_getElem _ _ inside]
  exact List.getElem_mem inside

theorem byteAt_append_left {front rest : Text} {index : Nat} (inside : index < front.length) :
    byteAt (front ++ rest) index = byteAt front index := by
  rw [byteAt, byteAt, List.getD_append _ _ _ _ inside]

theorem byteAt_append_right (front rest : Text) (index : Nat) :
    byteAt (front ++ rest) (front.length + index) = byteAt rest index := by
  rw [byteAt, byteAt, List.getD_append_right _ _ _ _ (Nat.le_add_right _ _), Nat.add_sub_cancel_left]

theorem drop_eq_byteAt {text : Text} {index : Nat} (inside : index < text.length) :
    text.drop index = byteAt text index :: text.drop (index + 1) := by
  rw [List.drop_eq_getElem_cons inside, byteAt, List.getD_eq_getElem _ _ inside]

theorem drop_offsetOf {text rest : Text} (suffix : rest <:+ text) : text.drop (offsetOf text rest) = rest := by
  obtain ⟨front, rfl⟩ := suffix
  simp [offsetOf]

theorem offsetOf_drop {text : Text} {index : Nat} (inside : index ≤ text.length) :
    offsetOf text (text.drop index) = index := by
  rw [offsetOf, List.length_drop]
  omega

/-- A rest of the text behind an offset begins at or behind this offset. -/
theorem le_offsetOf {text rest : Text} {index : Nat} (suffix : rest <:+ text.drop index)
    (inside : index ≤ text.length) : index ≤ offsetOf text rest ∧ offsetOf text rest ≤ text.length := by
  have shorter := suffix.length_le
  rw [List.length_drop] at shorter
  unfold offsetOf
  omega

theorem offsetOf_inj {text left right : Text} (leftSuffix : left <:+ text) (rightSuffix : right <:+ text) :
    offsetOf text left = offsetOf text right ↔ left = right := by
  constructor
  · intro same
    rw [← drop_offsetOf leftSuffix, same, drop_offsetOf rightSuffix]
  · rintro rfl
    rfl

theorem offsetOf_cons {text rest : Text} {byte : UInt8} (suffix : byte :: rest <:+ text) :
    offsetOf text rest = offsetOf text (byte :: rest) + 1 := by
  have shorter := suffix.length_le
  rw [List.length_cons] at shorter
  rw [offsetOf, offsetOf, List.length_cons]
  omega

theorem byteAt_offsetOf {text rest : Text} (suffix : rest <:+ text) : byteAt text (offsetOf text rest) = byteAt rest 0 := by
  rw [byteAt_eq_head, drop_offsetOf suffix, byteAt_eq_head, List.drop_zero]

theorem byteAt_before {text rest : Text} {last : UInt8} (suffix : last :: rest <:+ text) :
    byteAt text (offsetOf text rest - 1) = last := by
  rw [offsetOf_cons suffix, Nat.add_sub_cancel, byteAt_offsetOf suffix]
  rfl

/-! ## Runs -/

theorem le_runEnd (accepts : UInt8 → Bool) (text : Text) (index : Nat) : index ≤ runEnd accepts text index :=
  Nat.le_add_right _ _

theorem runEnd_le (accepts : UInt8 → Bool) {text : Text} {index : Nat} (inside : index ≤ text.length) :
    runEnd accepts text index ≤ text.length := by
  have shorter := (@List.takeWhile_prefix _ (text.drop index) accepts).length_le
  rw [List.length_drop] at shorter
  unfold runEnd
  omega

theorem byteAt_cons_succ (byte : UInt8) (text : Text) (index : Nat) :
    byteAt (byte :: text) (index + 1) = byteAt text index := rfl

theorem byteAt_drop (text : Text) (start index : Nat) :
    byteAt (text.drop start) index = byteAt text (start + index) := by
  simp [byteAt, List.getD_eq_getElem?_getD, List.getElem?_drop]

theorem runEnd_unfold (accepts : UInt8 → Bool) (text : Text) (index : Nat) (refuses : accepts 0 = false) :
    runEnd accepts text index =
      if accepts (byteAt text index) then runEnd accepts text (index + 1) else index := by
  rw [byteAt_eq_head, runEnd, runEnd]
  cases rest : text.drop index with
  | nil => simp [refuses]
  | cons byte tail =>
    have behind : text.drop (index + 1) = tail := by
      rw [← List.drop_drop, rest, List.drop_one, List.tail_cons]
    rw [List.headD_cons, behind, List.takeWhile_cons]
    split
    next => rw [List.length_cons]; omega
    next => rfl

/-- A run that accepts its first byte is not empty. -/
theorem lt_runEnd {accepts : UInt8 → Bool} {text : Text} {index : Nat} (refuses : accepts 0 = false)
    (accepted : accepts (byteAt text index)) : index < runEnd accepts text index := by
  rw [runEnd_unfold accepts text index refuses, if_pos accepted]
  exact le_runEnd accepts text (index + 1)

theorem runEnd_mono {accepts wider : UInt8 → Bool} (text : Text) (index : Nat)
    (implied : ∀ byte, accepts byte → wider byte) : runEnd accepts text index ≤ runEnd wider text index := by
  unfold runEnd
  generalize text.drop index = rest
  induction rest with
  | nil => exact le_rfl
  | cons byte rest inductionHypothesis =>
    cases accepted : accepts byte with
    | false => simp [accepted]
    | true =>
      simp only [List.takeWhile_cons, accepted, implied byte accepted, if_true, List.length_cons]
      omega

/-- A run ends before a byte that it does not accept. -/
theorem runEnd_le_of_refused {accepts : UInt8 → Bool} {text : Text} {index stop : Nat} (order : index ≤ stop)
    (inside : stop ≤ text.length) (refused : accepts (byteAt text stop) = false) :
    runEnd accepts text index ≤ stop := by
  by_contra beyond
  have within : stop - index < ((text.drop index).takeWhile accepts).length := by
    unfold runEnd at beyond
    omega
  have accepted := List.mem_takeWhile_imp (List.getElem_mem within)
  have same : ((text.drop index).takeWhile accepts)[stop - index] = byteAt text stop := by
    have located := (@List.takeWhile_prefix _ (text.drop index) accepts).getElem within
    rw [located, List.getElem_drop, byteAt, List.getD_eq_getElem?_getD]
    have bound : index + (stop - index) < text.length := by
      have shorter := (@List.takeWhile_prefix _ (text.drop index) accepts).length_le
      rw [List.length_drop] at shorter
      omega
    have : index + (stop - index) = stop := by omega
    simp only [this] at bound ⊢
    rw [List.getElem?_eq_getElem bound, Option.getD_some]
  rw [same, refused] at accepted
  cases accepted

theorem accepted_of_lt_runEnd {accepts : UInt8 → Bool} {text : Text} {index position : Nat} (order : index ≤ position)
    (before : position < runEnd accepts text index) : accepts (byteAt text position) := by
  by_contra refused
  have inside : position ≤ text.length := by
    cases Nat.le_total index text.length with
    | inl inside => exact before.le.trans (runEnd_le accepts inside)
    | inr beyond =>
      rw [runEnd, List.drop_eq_nil_of_le beyond, List.takeWhile_nil, List.length_nil] at before
      omega
  exact absurd (runEnd_le_of_refused order inside (by simpa using refused)) (Nat.not_le_of_lt before)

theorem drop_runEnd (accepts : UInt8 → Bool) (text : Text) (index : Nat) :
    text.drop (runEnd accepts text index) = (text.drop index).dropWhile accepts := by
  have split := @List.takeWhile_append_dropWhile _ accepts (text.drop index)
  have behind := congrArg (List.drop ((text.drop index).takeWhile accepts).length) split
  rw [List.drop_left] at behind
  rw [runEnd, ← List.drop_drop]
  exact behind.symm

/-- The byte behind a run is not accepted. -/
theorem refused_runEnd {accepts : UInt8 → Bool} (text : Text) (index : Nat) (refuses : accepts 0 = false) :
    accepts (byteAt text (runEnd accepts text index)) = false := by
  rw [byteAt_eq_head, drop_runEnd]
  have head := List.head?_dropWhile_not accepts (text.drop index)
  cases behind : (text.drop index).dropWhile accepts with
  | nil => exact refuses
  | cons byte rest =>
    rw [behind] at head
    simpa using head

/-! ## Slices -/

/-- The bytes from one offset to another. -/
def slice (text : Text) (start stop : Nat) : Text :=
  (text.take stop).drop start

theorem slice_length {text : Text} {start stop : Nat} (inside : stop ≤ text.length) :
    (slice text start stop).length = stop - start := by
  rw [slice, List.length_drop, List.length_take, Nat.min_eq_left inside]

theorem byteAt_slice {text : Text} {start stop index : Nat} (inside : start + index < stop) :
    byteAt (slice text start stop) index = byteAt text (start + index) := by
  rw [slice, byteAt_drop]
  simp [byteAt, List.getD_eq_getElem?_getD, inside]

/-- A run that ends in a slice ends at the same place in the text. -/
theorem runEnd_slice {accepts : UInt8 → Bool} {text : Text} {start stop index : Nat}
    (ends : runEnd accepts text (start + index) ≤ stop) :
    start + runEnd accepts (slice text start stop) index = runEnd accepts text (start + index) := by
  unfold runEnd at ends
  have cut : (slice text start stop).drop index = (text.drop (start + index)).take (stop - (start + index)) := by
    rw [slice, List.drop_drop, List.drop_take]
  rw [runEnd, runEnd, cut, ← List.take_takeWhile, List.length_take, Nat.min_eq_right (by omega)]
  omega

end SqlParser.Core
