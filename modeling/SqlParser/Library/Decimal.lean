import Mathlib

/-! # Decimal numerals in ASCII

The numeral of a number, the value of a digit string, and the bounded reader
that refuses a value above its limit before it could wrap.
-/

namespace SqlParser.Library.Decimal

def isDigit (byte : UInt8) : Bool :=
  48 ≤ byte && byte ≤ 57

def digitValue (byte : UInt8) : Nat :=
  byte.toNat - 48

def digitByte (digit : Nat) : UInt8 :=
  UInt8.ofNat (48 + digit)

/-- The numeral of a number, most significant digit first. -/
def decimal (value : Nat) : List UInt8 :=
  if value = 0 then [48] else ((Nat.digits 10 value).map digitByte).reverse

/-- The value that a digit string adds behind `value`. -/
def accumulate (value : Nat) (digits : List UInt8) : Nat :=
  digits.foldl (fun value digit => value * 10 + digitValue digit) value

/-- Read a digit string in front of the text; a value above `limit` is refused. -/
def readDigits (limit : Nat) : Nat → List UInt8 → Option (Nat × List UInt8)
  | value, [] => some (value, [])
  | value, byte :: rest =>
    if isDigit byte then
      if value > (limit - digitValue byte) / 10 then none
      else readDigits limit (value * 10 + digitValue byte) rest
    else some (value, byte :: rest)

/-! ## Digits -/

theorem isDigit_iff {byte : UInt8} : isDigit byte = true ↔ 48 ≤ byte.toNat ∧ byte.toNat ≤ 57 := by
  simp only [isDigit, Bool.and_eq_true, decide_eq_true_eq, UInt8.le_iff_toNat_le]
  rfl

theorem digitValue_lt {byte : UInt8} (digit : isDigit byte = true) : digitValue byte < 10 := by
  have bounds := isDigit_iff.mp digit
  unfold digitValue
  omega

theorem digitByte_toNat {digit : Nat} (small : digit < 10) : (digitByte digit).toNat = 48 + digit := by
  simp only [digitByte, UInt8.toNat_ofNat']
  omega

theorem isDigit_digitByte {digit : Nat} (small : digit < 10) : isDigit (digitByte digit) = true := by
  rw [isDigit_iff, digitByte_toNat small]
  omega

theorem digitValue_digitByte {digit : Nat} (small : digit < 10) : digitValue (digitByte digit) = digit := by
  rw [digitValue, digitByte_toNat small]
  omega

/-! ## Values -/

theorem accumulate_append (value : Nat) (front back : List UInt8) :
    accumulate value (front ++ back) = accumulate (accumulate value front) back :=
  List.foldl_append

theorem le_accumulate (value : Nat) (digits : List UInt8) : value ≤ accumulate value digits := by
  induction digits generalizing value with
  | nil => exact le_rfl
  | cons digit digits inductionHypothesis =>
    have step := inductionHypothesis (value * 10 + digitValue digit)
    simp only [accumulate, List.foldl_cons] at step ⊢
    omega

theorem accumulate_digits (digits : List Nat) (small : ∀ digit ∈ digits, digit < 10) :
    accumulate 0 (digits.map digitByte).reverse = Nat.ofDigits 10 digits := by
  induction digits with
  | nil => rfl
  | cons digit digits inductionHypothesis =>
    rw [List.map_cons, List.reverse_cons, accumulate_append,
      inductionHypothesis fun other member => small other (List.mem_cons_of_mem _ member),
      Nat.ofDigits_cons]
    simp only [accumulate, List.foldl_cons, List.foldl_nil,
      digitValue_digitByte (small digit List.mem_cons_self)]
    omega

theorem accumulate_decimal (value : Nat) : accumulate 0 (decimal value) = value := by
  unfold decimal
  split
  next zero =>
    rw [zero]
    rfl
  next =>
    rw [accumulate_digits _ fun digit member => Nat.digits_lt_base (by decide) member]
    exact Nat.ofDigits_digits 10 value

theorem isDigit_decimal (value : Nat) : ∀ byte ∈ decimal value, isDigit byte = true := by
  intro byte member
  unfold decimal at member
  split at member
  next =>
    rw [List.mem_singleton.mp member]
    rfl
  next =>
    obtain ⟨digit, digitMember, rfl⟩ := List.mem_map.mp (List.mem_reverse.mp member)
    exact isDigit_digitByte (Nat.digits_lt_base (by decide) digitMember)

theorem decimal_ne_nil (value : Nat) : decimal value ≠ [] := by
  unfold decimal
  split
  next => simp
  next nonzero => simp [Nat.digits_ne_nil_iff_ne_zero.mpr nonzero]

theorem decimal_length_le {value count : Nat} (positive : 0 < count) (bound : value < 10 ^ count) :
    (decimal value).length ≤ count := by
  unfold decimal
  split
  next => exact positive
  next =>
    rw [List.length_reverse, List.length_map]
    exact (Nat.digits_length_le_iff (by decide) value).mpr bound

/-- The last digit comes off by a division. -/
theorem decimal_step {value : Nat} (large : value / 10 ≠ 0) :
    decimal value = decimal (value / 10) ++ [digitByte (value % 10)] := by
  have nonzero : value ≠ 0 := fun zero => large (by rw [zero])
  rw [decimal, if_neg nonzero, decimal, if_neg large,
    Nat.digits_def' (by decide) (Nat.pos_of_ne_zero nonzero), List.map_cons, List.reverse_cons]

theorem decimal_small {value : Nat} (small : value / 10 = 0) :
    decimal value = [digitByte (value % 10)] := by
  have bound : value < 10 := by omega
  interval_cases value <;> rfl

/-! ## The bounded reader -/

/-- The reader takes a whole digit string and keeps its value exactly, or refuses it. -/
theorem readDigits_append {limit value : Nat} {digits rest : List UInt8} (large : 9 ≤ limit)
    (allDigits : ∀ byte ∈ digits, isDigit byte = true) (ends : rest.head?.all (fun byte => !isDigit byte)) :
    readDigits limit value (digits ++ rest) =
      if digits = [] ∨ accumulate value digits ≤ limit then some (accumulate value digits, rest)
      else none := by
  induction digits generalizing value with
  | nil =>
    rw [if_pos (.inl rfl)]
    cases rest with
    | nil => rfl
    | cons byte rest =>
      have stops : isDigit byte = false := by simpa using ends
      simp [readDigits, stops, accumulate]
  | cons digit digits inductionHypothesis =>
    have isDigitByte := allDigits digit List.mem_cons_self
    have small := digitValue_lt isDigitByte
    have step := @inductionHypothesis (value * 10 + digitValue digit)
      (fun byte member => allDigits byte (List.mem_cons_of_mem _ member))
    have grows := le_accumulate (value * 10 + digitValue digit) digits
    have accumulated : accumulate value (digit :: digits) =
      accumulate (value * 10 + digitValue digit) digits := rfl
    rw [List.cons_append, readDigits, if_pos isDigitByte, accumulated]
    by_cases overflow : value > (limit - digitValue digit) / 10
    · rw [if_pos overflow, if_neg]
      have : limit < value * 10 + digitValue digit := by omega
      simp only [reduceCtorEq, false_or]
      omega
    · rw [if_neg overflow, step]
      by_cases empty : digits = []
      · subst empty
        have fits : value * 10 + digitValue digit ≤ limit := by omega
        rw [if_pos (.inl rfl), if_pos (.inr fits)]
      · simp [empty]

/-- What the reader took is a digit string, with its exact value. -/
theorem readDigits_some {limit value result : Nat} {text rest : List UInt8}
    (read : readDigits limit value text = some (result, rest)) :
    ∃ digits, text = digits ++ rest ∧ (∀ byte ∈ digits, isDigit byte = true) ∧
      result = accumulate value digits ∧ rest.head?.all (fun byte => !isDigit byte) ∧
        (digits ≠ [] → 9 ≤ limit → result ≤ limit) := by
  induction text generalizing value with
  | nil =>
    cases read
    exact ⟨[], rfl, by simp, rfl, rfl, by simp⟩
  | cons byte text inductionHypothesis =>
    unfold readDigits at read
    split at read
    next isDigitByte =>
      split at read
      next => cases read
      next fits =>
        obtain ⟨digits, rfl, allDigits, rfl, ends, bounded⟩ := inductionHypothesis read
        refine ⟨byte :: digits, rfl, by simpa using ⟨isDigitByte, allDigits⟩, rfl, ends, ?_⟩
        intro _ large
        by_cases empty : digits = []
        · have small := digitValue_lt isDigitByte
          simp only [empty, accumulate, List.foldl_nil]
          omega
        · exact bounded empty large
    next stops =>
      cases read
      exact ⟨[], rfl, by simp, rfl, by simpa using stops, by simp⟩

end SqlParser.Library.Decimal
