import SqlParser.Library.ProtobufWire

/-! # Minimal varints

A number has many encodings in groups of seven bits, since zero groups may follow its highest one.  The
encoder writes the shortest, and no other encoding is as short.
-/

namespace SqlParser.Library.ProtobufWire

/-- The bytes carry the number in groups of seven bits, the lowest first. -/
inductive IsVarint : Bytes → Nat → Prop where
  | last (byte : UInt8) (ends : byte.toNat < 128) : IsVarint [byte] byte.toNat
  | more (byte : UInt8) (goesOn : 128 ≤ byte.toNat) {rest : Bytes} {value : Nat} (behind : IsVarint rest value) :
      IsVarint (byte :: rest) (byte.toNat % 128 + 128 * value)

/-- No encoding of the number is shorter. -/
structure IsMinimalVarint (bytes : Bytes) (value : Nat) : Prop where
  varint : IsVarint bytes value
  shortest : ∀ other, IsVarint other value → bytes.length ≤ other.length

/-! ## The encoder -/

theorem encodeVarint_isVarint (value : Nat) : IsVarint (encodeVarint value) value := by
  induction value using encodeVarint.induct with
  | case1 value small =>
    have same : (UInt8.ofNat value).toNat = value := by
      rw [UInt8.toNat_ofNat']
      omega
    have last := IsVarint.last (UInt8.ofNat value) (by omega)
    rwa [same, ← (show encodeVarint value = [UInt8.ofNat value] by rw [encodeVarint, if_pos small])] at last
  | case2 value large inductionHypothesis =>
    have same : (UInt8.ofNat (value % 128 + 128)).toNat = value % 128 + 128 := by
      rw [UInt8.toNat_ofNat']
      omega
    have more := IsVarint.more (UInt8.ofNat (value % 128 + 128)) (by omega) inductionHypothesis
    rw [same, show (value % 128 + 128) % 128 + 128 * (value / 128) = value by omega] at more
    rwa [encodeVarint, if_neg large]

namespace IsVarint

variable {bytes left right : Bytes} {value other : Nat}

theorem ne_nil (varint : IsVarint bytes value) : bytes ≠ [] := by
  cases varint with
  | last | more => exact List.cons_ne_nil _ _

theorem bound (varint : IsVarint bytes value) : value < 128 ^ bytes.length := by
  induction varint with
  | last byte ends => rwa [List.length_singleton, pow_one]
  | more byte goesOn behind inductionHypothesis =>
    rw [List.length_cons, pow_succ]
    omega

theorem size_le (varint : IsVarint bytes value) : varintSize value ≤ bytes.length := by
  have positive := List.length_pos_iff.mpr varint.ne_nil
  have shorter := (varintSize_le_iff value (bytes.length - 1)).mpr
  rw [Nat.sub_add_cancel positive] at shorter
  exact shorter varint.bound

/-- Varints that begin the same bytes are the same. -/
theorem unique (leftVarint : IsVarint left value) (rightVarint : IsVarint right other)
    (leftPrefix : left <+: bytes) (rightPrefix : right <+: bytes) : left = right ∧ value = other := by
  induction leftVarint generalizing right other bytes with
  | last byte ends =>
    cases rightVarint with
    | last second =>
      obtain rfl : byte = second := by
        obtain ⟨_, rfl⟩ := leftPrefix
        exact (List.cons_prefix_cons.mp rightPrefix).1.symm
      exact ⟨rfl, rfl⟩
    | more second goesOn behind =>
      obtain ⟨_, rfl⟩ := leftPrefix
      obtain rfl := (List.cons_prefix_cons.mp rightPrefix).1
      omega
  | more byte goesOn behind inductionHypothesis =>
    obtain ⟨tail, rfl⟩ := leftPrefix
    cases rightVarint with
    | last second ends =>
      obtain rfl := (List.cons_prefix_cons.mp rightPrefix).1
      omega
    | more second _ secondBehind =>
      obtain ⟨rfl, restPrefix⟩ := List.cons_prefix_cons.mp rightPrefix
      obtain ⟨rfl, rfl⟩ := inductionHypothesis secondBehind (List.prefix_append _ tail) restPrefix
      exact ⟨rfl, rfl⟩

/-- A number has one encoding of each length. -/
theorem eq_of_length (leftVarint : IsVarint left value) (rightVarint : IsVarint right other)
    (sameValue : value = other) (sameLength : left.length = right.length) : left = right := by
  induction leftVarint generalizing right other with
  | last byte ends =>
    cases rightVarint with
    | last second => rw [UInt8.toNat_inj.mp sameValue]
    | more second goesOn behind =>
      exact absurd (List.length_eq_zero_iff.mp (by simpa using sameLength.symm)) behind.ne_nil
  | more byte goesOn behind inductionHypothesis =>
    have bounded := byte.toNat_lt
    cases rightVarint with
    | last second ends =>
      exact absurd (List.length_eq_zero_iff.mp (by simpa using sameLength)) behind.ne_nil
    | more second secondGoesOn secondBehind =>
      have secondBounded := second.toNat_lt
      have sameByte : byte = second := UInt8.toNat_inj.mp (by omega)
      have sameRest := inductionHypothesis secondBehind (by omega) (Nat.succ.inj sameLength)
      rw [sameByte, sameRest]

/-- The last group of zero is empty. -/
theorem last_of_zero (varint : IsVarint bytes value) (zero : value = 0) : bytes.getLast? = some 0 := by
  induction varint with
  | last byte ends =>
    obtain rfl : byte = 0 := UInt8.toNat_inj.mp zero
    rfl
  | @more byte goesOn rest value behind inductionHypothesis =>
    rw [List.getLast?_cons_of_ne_nil behind.ne_nil]
    exact inductionHypothesis (by omega)

/-- An encoding is the encoder's unless it ends with an empty group behind another. -/
theorem eq_encodeVarint_iff (varint : IsVarint bytes value) :
    bytes = encodeVarint value ↔ bytes.length = 1 ∨ bytes.getLast? ≠ some 0 := by
  induction varint with
  | last byte ends =>
    refine iff_of_true ?_ (.inl rfl)
    rw [encodeVarint, if_pos ends, UInt8.ofNat_toNat]
  | @more byte goesOn rest value behind inductionHypothesis =>
    have present := behind.ne_nil
    have longer : ¬ (byte :: rest).length = 1 := by
      rwa [List.length_cons, Nat.add_eq_right, List.length_eq_zero_iff]
    rw [List.getLast?_cons_of_ne_nil present, or_iff_right longer]
    by_cases zero : value = 0
    case pos =>
      refine iff_of_false ?_ (not_not_intro (behind.last_of_zero zero))
      rw [zero, Nat.mul_zero, Nat.add_zero, encodeVarint, if_pos (Nat.mod_lt _ (by decide))]
      intro same
      exact present (List.cons.inj same).2
    case neg =>
      have bounded := byte.toNat_lt
      have lowGroup : (byte.toNat % 128 + 128 * value) % 128 + 128 = byte.toNat := by omega
      have highGroups : (byte.toNat % 128 + 128 * value) / 128 = value := by omega
      rw [encodeVarint, if_neg (by omega), lowGroup, highGroups, UInt8.ofNat_toNat, List.cons_inj_right,
        inductionHypothesis, or_iff_right_of_imp]
      intro single empty
      cases behind with
      | last last ends =>
        obtain rfl : last = 0 := Option.some.inj empty
        exact zero rfl
      | more last goesOn behind =>
        exact behind.ne_nil (List.length_eq_zero_iff.mp (by simpa using single))

end IsVarint

/-- The minimal encoding is the encoder's. -/
theorem isMinimalVarint_iff {bytes : Bytes} {value : Nat} : IsMinimalVarint bytes value ↔ bytes = encodeVarint value := by
  constructor
  · intro minimal
    have encoded := encodeVarint_isVarint value
    have sameLength := Nat.le_antisymm (minimal.shortest _ encoded) minimal.varint.size_le
    exact minimal.varint.eq_of_length encoded rfl sameLength
  · rintro rfl
    exact ⟨encodeVarint_isVarint value, fun other otherVarint => otherVarint.size_le⟩

end SqlParser.Library.ProtobufWire
