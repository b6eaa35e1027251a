import Mathlib

/-! # The protobuf wire format

A message as the encoder sees it: the fields in the order of their numbers, with what each holds. A
scalar of its default value is left out, a message that is set is always written.
-/

namespace SqlParser.Library.ProtobufWire

abbrev Bytes := List UInt8

/-! ## Varints -/

/-- Seven bits in each byte, the lowest first; the high bit marks that a byte follows. -/
def encodeVarint (value : Nat) : Bytes :=
  if value < 128 then [UInt8.ofNat value]
  else UInt8.ofNat (value % 128 + 128) :: encodeVarint (value / 128)
decreasing_by omega

def varintSize (value : Nat) : Nat :=
  (encodeVarint value).length

theorem varintSize_step (value : Nat) : varintSize value = if value < 128 then 1 else varintSize (value / 128) + 1 := by
  rw [varintSize, encodeVarint]
  split
  next => rfl
  next => rfl

theorem varintSize_pos (value : Nat) : 0 < varintSize value := by
  rw [varintSize_step]
  split <;> omega

/-- A varint is as short as its value allows. -/
theorem varintSize_le_iff (value size : Nat) : varintSize value ≤ size + 1 ↔ value < 128 ^ (size + 1) := by
  induction size generalizing value with
  | zero =>
    rw [varintSize_step]
    split
    next => simp_all
    next long =>
      have positive := varintSize_pos (value / 128)
      omega
  | succ size inductionHypothesis =>
    rw [varintSize_step, pow_succ]
    split
    next short =>
      have := Nat.one_le_pow (size + 1) 128 (by decide)
      exact iff_of_true (by omega) (by nlinarith)
    next long =>
      have rest := inductionHypothesis (value / 128)
      rw [Nat.div_lt_iff_lt_mul (by decide)] at rest
      omega

/-! ## Messages -/

inductive Wire where
  | varint (value : Nat)
  | text (bytes : Bytes)
  | message (fields : List (Nat × Wire)) (unknown : Bytes)

/-- The head of a field whose length stands before its content. -/
def encodeHeader (number length : Nat) : Bytes :=
  encodeVarint (number * 8 + 2) ++ encodeVarint length

/-- A field whose length stands before its content. -/
def encodeEnvelope (number : Nat) (content : Bytes) : Bytes :=
  encodeHeader number content.length ++ content

/-- A scalar, unless it is zero. -/
def encodeScalar (number value : Nat) : Bytes :=
  if value = 0 then [] else encodeVarint (number * 8) ++ encodeVarint value

mutual

def Wire.encode (number : Nat) : Wire → Bytes
  | .varint value => encodeScalar number value
  | .text bytes => if bytes = [] then [] else encodeEnvelope number bytes
  | .message fields unknown => encodeEnvelope number (encodeFields fields ++ unknown)

def encodeFields : List (Nat × Wire) → Bytes
  | [] => []
  | field :: fields => encodeField field ++ encodeFields fields

def encodeField : Nat × Wire → Bytes
  | (number, value) => value.encode number

end

/-- The content of a message. -/
def Wire.payload : Wire → Bytes
  | .message fields unknown => encodeFields fields ++ unknown
  | _ => []

def Wire.isMessage : Wire → Bool
  | .message _ _ => true
  | _ => false

theorem encode_isMessage (message : Wire) (isMessage : message.isMessage = true) (number : Nat) :
    message.encode number = encodeEnvelope number message.payload := by
  cases message with
  | message fields unknown => rw [Wire.encode, Wire.payload]
  | varint | text => cases isMessage

@[simp] theorem encodeFields_nil : encodeFields [] = [] := by rw [encodeFields]

@[simp] theorem encodeFields_cons (number : Nat) (value : Wire) (fields : List (Nat × Wire)) :
    encodeFields ((number, value) :: fields) = value.encode number ++ encodeFields fields := by
  rw [encodeFields, encodeField]

@[simp] theorem encodeFields_append (left right : List (Nat × Wire)) :
    encodeFields (left ++ right) = encodeFields left ++ encodeFields right := by
  induction left with
  | nil => rw [List.nil_append, encodeFields_nil, List.nil_append]
  | cons field left inductionHypothesis =>
    obtain ⟨number, value⟩ := field
    rw [List.cons_append, encodeFields_cons, encodeFields_cons, inductionHypothesis, List.append_assoc]

/-- The content of a repeated field, message by message. -/
theorem encodeFields_map {α : Type*} (toWire : α → Wire) (number : Nat) (items : List α) :
    encodeFields (items.map fun item => (number, toWire item)) = items.flatMap fun item => (toWire item).encode number := by
  induction items with
  | nil => rw [List.map_nil, encodeFields_nil, List.flatMap_nil]
  | cons item items inductionHypothesis =>
    rw [List.map_cons, encodeFields_cons, List.flatMap_cons, inductionHypothesis]

theorem encodeEnvelope_length (number : Nat) (content : Bytes) :
    (encodeEnvelope number content).length = varintSize (number * 8 + 2) + varintSize content.length + content.length := by
  rw [encodeEnvelope, encodeHeader, List.length_append, List.length_append, varintSize, varintSize]

theorem encodeScalar_length (number value : Nat) :
    (encodeScalar number value).length = if value = 0 then 0 else varintSize (number * 8) + varintSize value := by
  rw [encodeScalar]
  split
  next => rfl
  next => rw [List.length_append, varintSize, varintSize]

end SqlParser.Library.ProtobufWire
