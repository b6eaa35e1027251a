import SqlParser.Core.CertifiedInsertPackSoundness
import SqlParser.Library.CanonicalVarint

/-! # The varints of the wire insert

The certificates and packers of `sqlparser_wire_insert.c` read and write `uint32_t` numbers as varints.
The readers of a proof refuse every encoding but the shortest, the readers of proved bytes do not look
for it, and one of them takes numbers of three bytes at once.
-/

namespace SqlParser.Core

open SqlParser.Library.ProtobufWire
open SqlParser.Library.BoundedWriter (Writer Writes)

/-! ## Readers -/

/-- `wi_reader`: what is left to read of a byte string up to a bound. -/
@[ext] structure WireReader (wire : Bytes) where
  next : Nat
  stop : Nat
  ordered : next ≤ stop
  inside : stop ≤ wire.length

namespace WireReader

variable {wire : Bytes}

/-- The next byte and the reader behind it, unless the bound is reached. -/
def read (reader : WireReader wire) : Option (UInt8 × WireReader wire) :=
  if more : reader.next < reader.stop then
    some (wire.get ⟨reader.next, more.trans_le reader.inside⟩,
      { next := reader.next + 1, stop := reader.stop, ordered := more, inside := reader.inside })
  else none

def whole (wire : Bytes) : WireReader wire :=
  ⟨0, wire.length, Nat.zero_le _, le_rfl⟩

/-- The bytes before the bound. -/
def rest (reader : WireReader wire) : Bytes :=
  (wire.take reader.stop).drop reader.next

/-- The bytes stand before the bound, and the later reader behind them. -/
structure Passes (reader : WireReader wire) (code : Bytes) (later : WireReader wire) : Prop where
  here : code <+: reader.rest
  moved : later.next = reader.next + code.length
  sameStop : later.stop = reader.stop

end WireReader

/-- The groups of the number read so far, and that of the byte at the shift. -/
def withGroup (value : UInt32) (byte : UInt8) (shift : Nat) : UInt32 :=
  value ||| ((byte &&& 0x7f).toUInt32 <<< UInt32.ofNat shift)

section readers

variable {wire : Bytes}

/-- The loop of `wi_varint_long`. -/
def wiVarintLoop (reader : WireReader wire) (value : UInt32) (shift : Nat) : Option UInt32 × WireReader wire :=
  if shift ≤ 28 then
    match reader.read with
    | none => (none, reader)
    | some (byte, later) =>
      -- four bits are left for the fifth byte, and none follows it
      if shift = 28 ∧ byte &&& 0xf0 ≠ 0 then (none, later)
      else
        let value := withGroup value byte shift
        if byte &&& 0x80 = 0 then
          -- an empty last group has a shorter encoding
          if shift ≠ 0 ∧ byte = 0 then (none, later) else (some value, later)
        else wiVarintLoop later value (shift + 7)
  else (none, reader)
termination_by 35 - shift

def wiVarintLong (reader : WireReader wire) : Option UInt32 × WireReader wire :=
  wiVarintLoop reader 0 0

def wiVarint (reader : WireReader wire) : Option UInt32 × WireReader wire :=
  match reader.read with
  | none => (none, reader)
  | some (byte, later) => if byte < 0x80 then (some byte.toUInt32, later) else wiVarintLong reader

/-- The loop of `wi_certified_u32`, behind the first byte. -/
def wiCertifiedLoop (reader : WireReader wire) (value : UInt32) (shift : Nat) : Option (UInt32 × WireReader wire) :=
  if shift ≤ 28 then
    match reader.read with
    | none => none
    | some (byte, later) =>
      if shift = 28 ∧ byte &&& 0xf0 ≠ 0 then none
      else
        let value := withGroup value byte shift
        if byte < 0x80 then some (value, later) else wiCertifiedLoop later value (shift + 7)
  else none
termination_by 35 - shift

/-- `wi_certified_u32`: a number with the cursor behind it; where there is none, the cursor stays. -/
def wiCertifiedU32 (reader : WireReader wire) : Option (UInt32 × WireReader wire) :=
  match reader.read with
  | none => none
  | some (byte, later) =>
    let value := (byte &&& 0x7f).toUInt32
    if byte < 0x80 then some (value, later) else wiCertifiedLoop later value 7

/-- A number of three bytes, read at once. -/
def threeBytes (reader : WireReader wire) : Option (UInt32 × WireReader wire) := do
  let (first, later) ← reader.read
  let (second, later) ← later.read
  let (third, later) ← later.read
  if first &&& 0x80 ≠ 0 ∧ second &&& 0x80 ≠ 0 ∧ third &&& 0x80 = 0 then
    some ((first &&& 0x7f).toUInt32 ||| ((second &&& 0x7f).toUInt32 <<< 7) ||| (third.toUInt32 <<< 14), later)
  else none

def wsiCertifiedLocationU32 (reader : WireReader wire) : Option (UInt32 × WireReader wire) :=
  match threeBytes reader with
  | some accepted => some accepted
  | none => wiCertifiedU32 reader

end readers

/-! ## The writer -/

def wiVarintSize (value : UInt32) : Nat :=
  if value < (1 : UInt32) <<< 7 then 1
  else if value < (1 : UInt32) <<< 14 then 2
  else if value < (1 : UInt32) <<< 21 then 3
  else if value < (1 : UInt32) <<< 28 then 4
  else 5

theorem shifted_toNat (value : UInt32) : (value >>> 7).toNat = value.toNat / 128 := by
  rw [UInt32.toNat_shiftRight]
  exact Nat.shiftRight_eq_div_pow _ 7

def wiWriteVarint (writer : Writer) (value : UInt32) : Writer :=
  if writer.full then writer.fail
  else
    let next := writer.append [((value &&& 0x7f) ||| if 0x80 ≤ value then 0x80 else 0).toUInt8]
    if value >>> 7 ≠ 0 then wiWriteVarint next (value >>> 7) else next
termination_by value.toNat
decreasing_by
  rename_i more
  have := shifted_toNat value
  have : value.toNat / 128 ≠ 0 := by
    intro zero
    exact more (UInt32.toNat_inj.mp (by rw [shifted_toNat, zero]; rfl))
  omega

/-! ## Reading byte by byte -/

namespace WireReader

variable {wire code : Bytes} {reader later last : WireReader wire} {byte : UInt8}

theorem read_none (ends : reader.read = none) : reader.rest = [] := by
  rw [read, dite_eq_right_iff] at ends
  have : ¬ reader.next < reader.stop := fun more => by cases ends more
  rw [rest, List.drop_eq_nil_iff, List.length_take]
  omega

theorem read_some (reads : reader.read = some (byte, later)) :
    reader.rest = byte :: later.rest ∧ later.next = reader.next + 1 ∧ later.stop = reader.stop := by
  unfold read at reads
  split at reads
  next more =>
    cases reads
    have bound := reader.inside
    refine ⟨?_, rfl, rfl⟩
    rw [rest, List.drop_eq_getElem_cons (by rw [List.length_take]; omega), List.getElem_take]
    rfl
  next => cases reads

theorem passes_nil : reader.Passes [] reader :=
  ⟨List.nil_prefix, rfl, rfl⟩

theorem passes_cons (reads : reader.read = some (byte, later)) {first : UInt8} :
    reader.Passes (first :: code) last ↔ first = byte ∧ later.Passes code last := by
  obtain ⟨split, moved, sameStop⟩ := read_some reads
  constructor
  · rintro ⟨here, movedLast, sameStopLast⟩
    rw [split] at here
    obtain ⟨same, here⟩ := List.cons_prefix_cons.mp here
    rw [List.length_cons] at movedLast
    exact ⟨same, here, by omega, sameStopLast.trans sameStop.symm⟩
  · rintro ⟨rfl, here, movedLast, sameStopLast⟩
    refine ⟨?_, ?_, sameStopLast.trans sameStop⟩
    · rw [split]
      exact (List.prefix_cons_inj first).mpr here
    · rw [List.length_cons]
      omega

theorem not_passes_cons (ends : reader.read = none) : ¬ reader.Passes (byte :: code) last := by
  intro passes
  have here := passes.here
  rw [read_none ends] at here
  exact List.cons_ne_nil _ _ (List.prefix_nil.mp here)

theorem passes_nil_iff : reader.Passes [] last ↔ last = reader := by
  constructor
  · intro passes
    exact WireReader.ext passes.moved passes.sameStop
  · rintro rfl
    exact passes_nil

end WireReader

/-! ## Groups of seven bits -/

/-- The tests of the readers on a byte, read off their table. -/
theorem group_tests : ∀ byte : UInt8,
    (byte &&& 0x80 = 0 ↔ byte.toNat < 128) ∧ (byte < 0x80 ↔ byte.toNat < 128) ∧
      (byte &&& 0xf0 ≠ 0 ↔ 16 ≤ byte.toNat) ∧ (byte &&& 0x7f).toNat = byte.toNat % 128 := by
  decide +kernel

/-- A group stands above the groups before it. -/
theorem withGroup_toNat {value : UInt32} (byte : UInt8) {groups : Nat} (few : groups ≤ 4)
    (small : value.toNat < 128 ^ groups) (fits : groups = 4 → byte.toNat < 16) :
    (withGroup value byte (7 * groups)).toNat = value.toNat + 128 ^ groups * (byte.toNat % 128) := by
  have shift : (UInt32.ofNat (7 * groups)).toNat % 32 = 7 * groups := by
    rw [UInt32.toNat_ofNat']
    omega
  have power : 128 ^ groups = 2 ^ (7 * groups) := by rw [pow_mul, show 2 ^ 7 = 128 by decide]
  have bounded : byte.toNat % 128 * 2 ^ (7 * groups) < 2 ^ 32 := by
    rw [← power]
    interval_cases groups <;> omega
  rw [power] at small ⊢
  rw [withGroup, UInt32.toNat_or, UInt32.toNat_shiftLeft, UInt8.toNat_toUInt32, (group_tests byte).2.2.2, shift,
    Nat.shiftLeft_eq, Nat.mod_eq_of_lt bounded, Nat.or_comm, Nat.mul_comm, ← Nat.two_pow_add_eq_or_of_lt small,
    Nat.add_comm]

theorem withGroup_small {value : UInt32} (byte : UInt8) {groups : Nat} (few : groups < 4)
    (small : value.toNat < 128 ^ groups) : (withGroup value byte (7 * groups)).toNat < 128 ^ (groups + 1) := by
  have group := Nat.mod_lt byte.toNat (show 0 < 128 by decide)
  rw [withGroup_toNat byte few.le small (by omega), pow_succ]
  nlinarith

/-! ## The reader of a proof -/

section proof

variable {wire : Bytes} {reader later next : WireReader wire} {value result : UInt32} {byte : UInt8}
  {groups low total : Nat}

/-- Behind the groups that are read, the number ends with a group that is not empty. -/
def Completes (reader : WireReader wire) (groups low total : Nat) (next : WireReader wire) : Prop :=
  ∃ code high, IsVarint code high ∧ (code.length + groups = 1 ∨ code.getLast? ≠ some 0) ∧
    reader.Passes code next ∧ total = low + 128 ^ groups * high

theorem not_completes_end (ends : reader.read = none) : ¬ Completes reader groups low total next := by
  rintro ⟨code, high, varint, -, passes, -⟩
  cases varint with
  | last | more => exact WireReader.not_passes_cons ends passes

theorem completes_last (reads : reader.read = some (byte, later)) (ends : byte.toNat < 128) :
    Completes reader groups low total next ↔
      (groups = 0 ∨ byte ≠ 0) ∧ next = later ∧ total = low + 128 ^ groups * byte.toNat := by
  constructor
  · rintro ⟨code, high, varint, minimal, passes, whole⟩
    cases varint with
    | last first =>
      obtain ⟨rfl, passes⟩ := (WireReader.passes_cons reads).mp passes
      refine ⟨?_, WireReader.passes_nil_iff.mp passes, whole⟩
      exact minimal.imp (fun single => by simpa using single) (fun full empty => full (by rw [empty]; rfl))
    | more first goesOn =>
      obtain ⟨rfl, -⟩ := (WireReader.passes_cons reads).mp passes
      omega
  · rintro ⟨minimal, rfl, whole⟩
    have passes := (WireReader.passes_cons reads).mpr ⟨rfl, WireReader.passes_nil⟩
    refine ⟨[byte], byte.toNat, .last byte ends, ?_, passes, whole⟩
    refine minimal.imp (fun none => by rw [none]; rfl) (fun full => ?_)
    rwa [List.getLast?_singleton, Ne, Option.some_inj]

theorem completes_more (reads : reader.read = some (byte, later)) (goesOn : 128 ≤ byte.toNat) :
    Completes reader groups low total next ↔
      Completes later (groups + 1) (low + 128 ^ groups * (byte.toNat % 128)) total next := by
  have split (high : Nat) : low + 128 ^ groups * (byte.toNat % 128 + 128 * high) =
      low + 128 ^ groups * (byte.toNat % 128) + 128 ^ (groups + 1) * high := by ring
  constructor
  · rintro ⟨code, high, varint, minimal, passes, whole⟩
    cases varint with
    | last first ends =>
      obtain ⟨rfl, -⟩ := (WireReader.passes_cons reads).mp passes
      omega
    | @more first _ code high behind =>
      obtain ⟨rfl, passes⟩ := (WireReader.passes_cons reads).mp passes
      refine ⟨code, high, behind, .inr ?_, passes, by rw [whole, split]⟩
      rw [List.getLast?_cons_of_ne_nil behind.ne_nil] at minimal
      refine minimal.resolve_left fun single => behind.ne_nil (List.length_eq_zero_iff.mp ?_)
      rw [List.length_cons] at single
      omega
  · rintro ⟨code, high, varint, minimal, passes, whole⟩
    refine ⟨byte :: code, _, .more byte goesOn varint, .inr ?_, (WireReader.passes_cons reads).mpr ⟨rfl, passes⟩,
      by rw [whole, split]⟩
    rw [List.getLast?_cons_of_ne_nil varint.ne_nil]
    refine minimal.resolve_left fun single => varint.ne_nil (List.length_eq_zero_iff.mp ?_)
    omega

/-- The fifth group of a `uint32_t` has four bits. -/
theorem not_completes_large (reads : reader.read = some (byte, later)) (large : 16 ≤ byte.toNat)
    (bounded : total < 2 ^ 32) : ¬ Completes reader 4 low total next := by
  intro completes
  rcases Nat.lt_or_ge byte.toNat 128 with ends | goesOn
  · obtain ⟨-, -, whole⟩ := (completes_last reads ends).mp completes
    omega
  · obtain ⟨code, high, varint, minimal, -, whole⟩ := (completes_more reads goesOn).mp completes
    -- a last group that is not empty stands above all bits of the result
    have positive : high ≠ 0 := by
      intro zero
      refine minimal.elim (fun single => ?_) (fun full => full (varint.last_of_zero zero))
      exact varint.ne_nil (List.length_eq_zero_iff.mp (by omega))
    omega

theorem wiVarintLoop_end (ends : reader.read = none) (few : groups ≤ 4) :
    wiVarintLoop reader value (7 * groups) = (none, reader) := by
  rw [wiVarintLoop, if_pos (by omega), ends]

/-- A turn of the loop at a byte. -/
theorem wiVarintLoop_read (reads : reader.read = some (byte, later)) (few : groups ≤ 4) :
    wiVarintLoop reader value (7 * groups) =
      if groups = 4 ∧ 16 ≤ byte.toNat then (none, later)
      else if byte.toNat < 128 then
        if groups ≠ 0 ∧ byte = 0 then (none, later) else (some (withGroup value byte (7 * groups)), later)
      else wiVarintLoop later (withGroup value byte (7 * groups)) (7 * (groups + 1)) := by
  obtain ⟨endTest, -, largeTest, -⟩ := group_tests byte
  have fifth : 7 * groups = 28 ↔ groups = 4 := by omega
  have behind : 7 * groups ≠ 0 ↔ groups ≠ 0 := by omega
  rw [wiVarintLoop, if_pos (by omega), reads]
  simp only [largeTest, endTest, fifth, behind, Nat.mul_succ]

/-- The loop reads the groups that are left, and no empty group behind another. -/
theorem wiVarintLoop_iff {reader : WireReader wire} {value : UInt32} {groups : Nat} (few : groups ≤ 4)
    (small : value.toNat < 128 ^ groups) :
    wiVarintLoop reader value (7 * groups) = (some result, next) ↔
      Completes reader groups value.toNat result.toNat next := by
  cases reads : reader.read with
  | none =>
    rw [wiVarintLoop_end reads few]
    exact iff_of_false (by simp) (not_completes_end reads)
  | some pair =>
    obtain ⟨byte, later⟩ := pair
    rw [wiVarintLoop_read reads few]
    by_cases large : groups = 4 ∧ 16 ≤ byte.toNat
    case pos =>
      obtain ⟨rfl, large⟩ := large
      rw [if_pos ⟨rfl, large⟩]
      exact iff_of_false (by simp) (not_completes_large reads large result.toNat_lt)
    case neg =>
      have group := withGroup_toNat byte few small (by omega)
      rw [if_neg large]
      by_cases ends : byte.toNat < 128
      case pos =>
        rw [if_pos ends, completes_last reads ends]
        rw [Nat.mod_eq_of_lt ends] at group
        by_cases empty : groups ≠ 0 ∧ byte = 0
        case pos =>
          rw [if_pos empty]
          exact iff_of_false (by simp) (fun completed => completed.1.elim empty.1 fun full => full empty.2)
        case neg =>
          rw [if_neg empty, Prod.mk.injEq, Option.some_inj, ← group, ← UInt32.toNat_inj]
          have full : groups = 0 ∨ byte ≠ 0 := by rwa [not_and_or, not_not] at empty
          exact ⟨fun same => ⟨full, same.2.symm, same.1.symm⟩, fun same => ⟨same.2.2.symm, same.2.1.symm⟩⟩
      case neg =>
        -- the byte moves into the value and the rest has one group less
        have more : groups < 4 := by omega
        rw [if_neg ends, completes_more reads (by omega), ← group]
        exact wiVarintLoop_iff (Nat.succ_le_of_lt more) (withGroup_small byte more small)
termination_by 4 - groups

end proof

section proof

variable {wire : Bytes} {reader next : WireReader wire} {result : UInt32} {total : Nat}

/-- Where nothing is read yet, what is left is the whole number. -/
theorem completes_start :
    Completes reader 0 0 total next ↔ ∃ code, IsMinimalVarint code total ∧ reader.Passes code next := by
  constructor
  · rintro ⟨code, high, varint, minimal, passes, rfl⟩
    rw [pow_zero, one_mul, Nat.zero_add]
    exact ⟨code, isMinimalVarint_iff.mpr (varint.eq_encodeVarint_iff.mpr minimal), passes⟩
  · rintro ⟨code, minimal, passes⟩
    refine ⟨code, total, minimal.varint, ?_, passes, by rw [pow_zero, one_mul, Nat.zero_add]⟩
    exact minimal.varint.eq_encodeVarint_iff.mp (isMinimalVarint_iff.mp minimal)

theorem wiVarintLong_iff :
    wiVarintLong reader = (some result, next) ↔ ∃ code, IsMinimalVarint code result.toNat ∧ reader.Passes code next := by
  rw [← completes_start, ← UInt32.toNat_zero]
  exact wiVarintLoop_iff (Nat.zero_le 4) (by decide)

/-- The case of one byte is the loop's. -/
theorem wiVarint_eq_long : wiVarint reader = wiVarintLong reader := by
  rw [wiVarint, wiVarintLong]
  cases reads : reader.read with
  | none => exact (wiVarintLoop_end reads (Nat.zero_le 4)).symm
  | some pair =>
    obtain ⟨byte, later⟩ := pair
    simp only []
    split
    next short =>
      have ends := (group_tests byte).2.1.mp short
      have group : (withGroup 0 byte 0).toNat = byte.toUInt32.toNat := by
        rw [withGroup_toNat byte (Nat.zero_le 4) (by decide) (by omega), pow_zero, one_mul, Nat.mod_eq_of_lt ends,
          UInt8.toNat_toUInt32]
        exact Nat.zero_add _
      have turn : wiVarintLoop reader 0 (7 * 0) = _ := wiVarintLoop_read reads (Nat.zero_le 4)
      rw [if_neg (by omega), if_pos ends, if_neg (by omega)] at turn
      rw [← UInt32.toNat_inj.mp group]
      exact turn.symm
    next => rfl

end proof

/-! ## The readers of proved bytes -/

section proved

variable {wire : Bytes} {reader later next : WireReader wire} {value result : UInt32} {byte : UInt8} {groups : Nat}

/-- A turn of the loop at a byte. -/
theorem wiCertifiedLoop_read (reads : reader.read = some (byte, later)) (few : groups ≤ 4) :
    wiCertifiedLoop reader value (7 * groups) =
      if groups = 4 ∧ 16 ≤ byte.toNat then none
      else if byte.toNat < 128 then some (withGroup value byte (7 * groups), later)
      else wiCertifiedLoop later (withGroup value byte (7 * groups)) (7 * (groups + 1)) := by
  obtain ⟨-, endTest, largeTest, -⟩ := group_tests byte
  have fifth : 7 * groups = 28 ↔ groups = 4 := by omega
  rw [wiCertifiedLoop, if_pos (by omega), reads]
  simp only [largeTest, endTest, fifth, Nat.mul_succ]

/-- Whatever ends with a group that is not empty is read without a look at this group. -/
theorem wiCertifiedLoop_completes {reader : WireReader wire} {value : UInt32} {groups : Nat} (few : groups ≤ 4)
    (small : value.toNat < 128 ^ groups) (completes : Completes reader groups value.toNat result.toNat next) :
    wiCertifiedLoop reader value (7 * groups) = some (result, next) := by
  cases reads : reader.read with
  | none => exact absurd completes (not_completes_end reads)
  | some pair =>
    obtain ⟨byte, later⟩ := pair
    have noneLarge : ¬ (groups = 4 ∧ 16 ≤ byte.toNat) := by
      rintro ⟨rfl, large⟩
      exact not_completes_large reads large result.toNat_lt completes
    have group := withGroup_toNat byte few small (by omega)
    rw [wiCertifiedLoop_read reads few, if_neg noneLarge]
    by_cases ends : byte.toNat < 128
    case pos =>
      obtain ⟨-, rfl, whole⟩ := (completes_last reads ends).mp completes
      rw [Nat.mod_eq_of_lt ends, ← whole] at group
      rw [if_pos ends, UInt32.toNat_inj.mp group]
    case neg =>
      have more : groups < 4 := by omega
      rw [completes_more reads (by omega), ← group] at completes
      rw [if_neg ends]
      exact wiCertifiedLoop_completes (Nat.succ_le_of_lt more) (withGroup_small byte more small) completes
termination_by 4 - groups

theorem firstGroup_toNat (byte : UInt8) : (byte &&& 0x7f).toUInt32.toNat = byte.toNat % 128 := by
  rw [UInt8.toNat_toUInt32, (group_tests byte).2.2.2]

theorem wiCertifiedU32_completes (completes : Completes reader 0 0 result.toNat next) :
    wiCertifiedU32 reader = some (result, next) := by
  rw [wiCertifiedU32]
  cases reads : reader.read with
  | none => exact absurd completes (not_completes_end reads)
  | some pair =>
    obtain ⟨byte, later⟩ := pair
    have group := firstGroup_toNat byte
    simp only [(group_tests byte).2.1]
    by_cases ends : byte.toNat < 128
    case pos =>
      obtain ⟨-, rfl, whole⟩ := (completes_last reads ends).mp completes
      rw [pow_zero, one_mul, Nat.zero_add] at whole
      rw [Nat.mod_eq_of_lt ends] at group
      rw [if_pos ends, UInt32.toNat_inj.mp (group.trans whole.symm)]
    case neg =>
      rw [completes_more reads (by omega), pow_zero, one_mul, Nat.zero_add, Nat.zero_add, ← group] at completes
      have small : (byte &&& 0x7f).toUInt32.toNat < 128 ^ 1 := by
        rw [group]
        exact Nat.mod_lt _ (by decide)
      rw [if_neg ends]
      exact wiCertifiedLoop_completes (show 1 ≤ 4 by decide) small completes

theorem threeBytes_completes (accepted : threeBytes reader = some (value, later))
    (completes : Completes reader 0 0 result.toNat next) : value = result ∧ later = next := by
  simp only [threeBytes, Option.bind_eq_bind, Option.bind_eq_some_iff, Prod.exists] at accepted
  obtain ⟨first, one, readsFirst, second, two, readsSecond, third, three, readsThird, accepted⟩ := accepted
  split at accepted
  case isFalse => cases accepted
  case isTrue tests =>
    obtain ⟨rfl, rfl⟩ := Prod.mk.inj (Option.some.inj accepted)
    obtain ⟨firstOn, secondOn, ends⟩ := tests
    rw [Ne, (group_tests first).1, Nat.not_lt] at firstOn
    rw [Ne, (group_tests second).1, Nat.not_lt] at secondOn
    rw [(group_tests third).1] at ends
    have oneGroup := firstGroup_toNat first
    have oneSmall : (first &&& 0x7f).toUInt32.toNat < 128 ^ 1 := by
      rw [oneGroup]
      exact Nat.mod_lt _ (by decide)
    have twoGroups := withGroup_toNat second (show 1 ≤ 4 by decide) oneSmall (by omega)
    have twoSmall := withGroup_small second (show 1 < 4 by decide) oneSmall
    have threeGroups := withGroup_toNat third (show 1 + 1 ≤ 4 by decide) twoSmall (by omega)
    have lastGroup : third &&& 0x7f = third := UInt8.toNat_inj.mp (by
      rw [(group_tests third).2.2.2, Nat.mod_eq_of_lt ends])
    rw [completes_more readsFirst firstOn, completes_more readsSecond secondOn, completes_last readsThird ends] at completes
    obtain ⟨-, rfl, whole⟩ := completes
    refine ⟨UInt32.toNat_inj.mp ?_, rfl⟩
    rw [Nat.mod_eq_of_lt ends, twoGroups, oneGroup] at threeGroups
    rw [withGroup, lastGroup] at threeGroups
    rw [whole, pow_zero, one_mul, Nat.zero_add]
    exact threeGroups

/-- The numbers of three bytes are those that the loop would read. -/
theorem wsiCertifiedLocationU32_completes (completes : Completes reader 0 0 result.toNat next) :
    wsiCertifiedLocationU32 reader = some (result, next) := by
  rw [wsiCertifiedLocationU32, wiCertifiedU32_completes completes]
  cases accepted : threeBytes reader with
  | none => rfl
  | some pair =>
    obtain ⟨value, later⟩ := pair
    obtain ⟨rfl, rfl⟩ := threeBytes_completes accepted completes
    rfl

end proved

/-! ## The writer and the sizes -/

theorem wiVarintSize_eq (value : UInt32) : wiVarintSize value = varintSize value.toNat := by
  have bounded := value.toNat_lt
  rw [← cpVarintSize_eq (by rw [uint32Max]; omega)]
  rfl

theorem written_byte (value : UInt32) :
    ((value &&& 0x7f) ||| if 0x80 ≤ value then 0x80 else 0).toUInt8 =
      UInt8.ofNat (value.toNat % 128 + if 128 ≤ value.toNat then 128 else 0) := by
  have group : (value &&& 0x7f).toNat = value.toNat % 128 := by
    rw [UInt32.toNat_and]
    exact Nat.and_two_pow_sub_one_eq_mod _ 7
  have small : value.toNat % 128 < 2 ^ 7 := Nat.mod_lt _ (by decide)
  have goesOn : 0x80 ≤ value ↔ 128 ≤ value.toNat := UInt32.le_iff_toNat_le
  rw [← UInt8.toNat_inj, UInt32.toNat_toUInt8, UInt32.toNat_or, group, UInt8.toNat_ofNat']
  simp only [goesOn]
  split
  next => rw [Nat.or_comm, Nat.add_comm, Nat.two_pow_add_eq_or_of_lt small 1]; rfl
  next => rw [UInt32.toNat_zero, Nat.or_zero, Nat.add_zero]

/-- The writer is that of the other packer. -/
theorem wiWriteVarint_eq (writer : Writer) (value : UInt32) :
    wiWriteVarint writer value = writeVarint writer value.toNat := by
  have last (value : UInt32) : value >>> 7 ≠ 0 ↔ value.toNat / 128 ≠ 0 := by
    rw [Ne, ← UInt32.toNat_inj, shifted_toNat, UInt32.toNat_zero]
  fun_induction wiWriteVarint writer value with
  | case1 writer value full => rw [writeVarint, if_pos full]
  | case2 writer value unfilled next more inductionHypothesis =>
    rw [writeVarint, if_neg unfilled, inductionHypothesis, shifted_toNat]
    simp only [if_neg ((last value).mp more), ← written_byte]
    rfl
  | case3 writer value unfilled next ends =>
    rw [last, not_not] at ends
    rw [writeVarint, if_neg unfilled]
    simp only [if_pos ends, ← written_byte]
    rfl

theorem wiWriteVarint_writes (value : UInt32) : Writes (wiWriteVarint · value) (encodeVarint value.toNat) := by
  simp only [wiWriteVarint_eq]
  exact writeVarint_writes value.toNat

/-! ## The codec -/

theorem WireReader.exists_passes {wire code : Bytes} {reader : WireReader wire} (here : code <+: reader.rest) :
    ∃ next, reader.Passes code next := by
  have shorter := here.length_le
  have inside := reader.inside
  rw [rest, List.length_drop, List.length_take, Nat.min_eq_left inside] at shorter
  have ordered := reader.ordered
  exact ⟨⟨reader.next + code.length, reader.stop, by omega, inside⟩, here, rfl, rfl⟩

/-- The readers of a proof accept the minimal encodings of a `uint32_t` before their bound and nothing else,
the writer writes them in the size that was measured, and the readers of proved bytes read them alike. -/
theorem varint_codec {wire : Bytes} (reader : WireReader wire) :
    (∀ read ∈ [@wiVarint wire, wiVarintLong], ∀ value : UInt32,
      (∀ next, read reader = (some value, next) → ∃ code, IsMinimalVarint code value.toNat ∧ reader.Passes code next) ∧
        ∀ code, IsMinimalVarint code value.toNat → code <+: reader.rest →
          ∃ next, reader.Passes code next ∧ read reader = (some value, next)) ∧
    (∀ (writer : Writer) (value : UInt32), writer.written.length + wiVarintSize value ≤ writer.capacity →
      ∃ code, wiWriteVarint writer value = writer.append code ∧ code.length = wiVarintSize value ∧
        (code <+: reader.rest → ∀ read ∈ [@wiVarint wire, wiVarintLong],
          ∃ next, reader.Passes code next ∧ read reader = (some value, next))) ∧
    (∀ read ∈ [@wiCertifiedU32 wire, wsiCertifiedLocationU32], ∀ (value : UInt32) (next : WireReader wire),
      wiVarint reader = (some value, next) → read reader = some (value, next)) := by
  have sameReader : ∀ read ∈ [@wiVarint wire, wiVarintLong], read reader = wiVarintLong reader := by
    simp [wiVarint_eq_long]
  have accepts (code : Bytes) (value : UInt32) (minimal : IsMinimalVarint code value.toNat) (here : code <+: reader.rest) :
      ∃ next, reader.Passes code next ∧ wiVarintLong reader = (some value, next) := by
    obtain ⟨next, passes⟩ := WireReader.exists_passes here
    exact ⟨next, passes, wiVarintLong_iff.mpr ⟨code, minimal, passes⟩⟩
  refine ⟨?_, ?_, ?_⟩
  · intro read listed value
    rw [sameReader read listed]
    exact ⟨fun next => wiVarintLong_iff.mp, fun code => accepts code value⟩
  · intro writer value room
    have measured : (encodeVarint value.toNat).length = wiVarintSize value := (wiVarintSize_eq value).symm
    refine ⟨encodeVarint value.toNat, wiWriteVarint_writes value writer (by rwa [measured]), measured, ?_⟩
    intro here read listed
    rw [sameReader read listed]
    exact accepts _ value (isMinimalVarint_iff.mpr rfl) here
  · intro read listed value next accepted
    rw [wiVarint_eq_long, wiVarintLong_iff, ← completes_start] at accepted
    simp only [List.mem_cons, List.not_mem_nil, or_false] at listed
    rcases listed with rfl | rfl
    · exact wiCertifiedU32_completes accepted
    · exact wsiCertifiedLocationU32_completes accepted

/-- The number 300 takes two bytes. -/
theorem varint_codec_two_bytes :
    (∃ next, (WireReader.whole [0xac, 0x02]).Passes [0xac, 0x02] next ∧
      wiVarint (.whole [0xac, 0x02]) = (some 300, next) ∧
        wsiCertifiedLocationU32 (.whole [0xac, 0x02]) = some (300, next)) ∧
      ∃ code, wiWriteVarint ⟨[], 2, false⟩ 300 = ⟨code, 2, false⟩ ∧ code.length = 2 := by
  obtain ⟨reads, writes, proved⟩ := varint_codec (WireReader.whole [0xac, 0x02])
  have minimal : IsMinimalVarint [0xac, 0x02] (300 : UInt32).toNat := by
    rw [isMinimalVarint_iff, encodeVarint, encodeVarint]
    decide
  obtain ⟨next, passes, accepted⟩ := (reads wiVarint (.head _) 300).2 _ minimal (List.prefix_refl _)
  obtain ⟨code, written, length, -⟩ := writes ⟨[], 2, false⟩ 300 (by decide)
  exact ⟨⟨next, passes, accepted, proved _ (.tail _ (.head _)) 300 next accepted⟩, code, written, length⟩

end SqlParser.Core
