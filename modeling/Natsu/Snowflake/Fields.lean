import Natsu.Snowflake.Generator

/-!
# The fields of an id

An id has the clock in its upper 42 bits, then 10 bits of the machine number
and 12 bits of the sequence number.  Read as a number it is the sum of its
fields, so ids are compared field by field.
-/

namespace Natsu.Snowflake

/-- The 64 bits as a number. -/
def bits (value : Int64) : Nat := value.toUInt64.toNat

def machineNumber (machine : Int32) : Nat := machine.toUInt32.toNat % 1024

section Words

theorem bits_inj {left right : Int64} (same : bits left = bits right) :
    left = right :=
  Int64.toBitVec_inj.mp (BitVec.eq_of_toNat_eq same)

private theorem bits_or (left right : Int64) :
    bits (left ||| right) = bits left ||| bits right := rfl

private theorem bits_mask (width : Nat) (value : Int64) {mask : Int64}
    (ones : bits mask = 2 ^ width - 1) :
    bits (value &&& mask) = bits value % 2 ^ width := by
  have split : bits (value &&& mask) = bits value &&& bits mask := rfl
  rw [split, ones, Nat.and_two_pow_sub_one_eq_mod]

/-- Widening keeps a number that is not negative. -/
private theorem bits_toInt64 {value : Int32}
    (positive : value.toBitVec.toNat < 2 ^ 31) :
    bits value.toInt64 = value.toBitVec.toNat := by
  have plus : value.toBitVec.msb = false := by
    rw [BitVec.msb_eq_false_iff_two_mul_lt]
    omega
  have extended : bits value.toInt64 =
      (value.toBitVec.signExtend 64).toNat := rfl
  rw [extended, BitVec.signExtend_eq_setWidth_of_msb_false plus,
    BitVec.toNat_setWidth]
  omega

theorem toInt_eq_bits {value : Int64} (positive : bits value < 2 ^ 63) :
    value.toInt = bits value := by
  have signed : value.toInt = value.toBitVec.toInt := rfl
  have unsigned : bits value = value.toBitVec.toNat := rfl
  rw [signed, unsigned, BitVec.toInt_eq_toNat_of_lt]
  omega

private theorem bits_shiftRight (width : Nat) {value shift : Int64}
    (positive : bits value < 2 ^ 63)
    (amount : (shift.toBitVec.smod 64).toNat = width) :
    bits (value >>> shift) = bits value / 2 ^ width := by
  have unsigned : bits value = value.toBitVec.toNat := rfl
  have plus : value.toBitVec.msb = false := by
    rw [BitVec.msb_eq_false_iff_two_mul_lt]
    omega
  have shifted : bits (value >>> shift) =
      (value.toBitVec.sshiftRight (shift.toBitVec.smod 64).toNat).toNat := rfl
  rw [shifted, amount, BitVec.sshiftRight_eq_of_msb_false plus,
    BitVec.toNat_ushiftRight, Nat.shiftRight_eq_div_pow, unsigned]

end Words

section Packing

variable (machine : Int32) (time : UInt64)

private theorem bits_time :
    bits (time <<< 22).toInt64 = 2 ^ 22 * (time.toNat % 2 ^ 42) := by
  have shifted : bits (time <<< 22).toInt64 = (time <<< 22).toNat := rfl
  rw [shifted, UInt64.toNat_shiftLeft]
  simp [Nat.shiftLeft_eq]
  omega

theorem machineNumber_lt : machineNumber machine < 1024 :=
  Nat.mod_lt _ (by omega)

private theorem toNat_machine :
    (machine &&& 0x3FF).toBitVec.toNat = machineNumber machine := by
  have split : (machine &&& 0x3FF).toBitVec.toNat =
      machine.toBitVec.toNat &&& (2 ^ 10 - 1) := by simp
  rw [split, Nat.and_two_pow_sub_one_eq_mod]
  rfl

theorem bits_machine :
    bits (machine &&& 0x3FF).toInt64 = machineNumber machine := by
  have small := machineNumber_lt machine
  rw [bits_toInt64 (by rw [toNat_machine]; omega), toNat_machine]

private theorem bits_machine_shifted :
    bits ((machine &&& 0x3FF) <<< 12).toInt64 =
      2 ^ 12 * machineNumber machine := by
  have small := machineNumber_lt machine
  have shifted : ((machine &&& 0x3FF) <<< 12).toBitVec.toNat =
      2 ^ 12 * machineNumber machine := by
    have split : ((machine &&& 0x3FF) <<< 12).toBitVec =
        (machine &&& 0x3FF).toBitVec <<< 12 := by
      rw [Int32.toBitVec_shiftLeft]
      rfl
    rw [split, BitVec.toNat_shiftLeft, toNat_machine, Nat.shiftLeft_eq]
    omega
  rw [bits_toInt64 (by rw [shifted]; omega), shifted]

theorem bits_timestamp :
    bits (timestamp machine time) =
      2 ^ 22 * (time.toNat % 2 ^ 42) + 2 ^ 12 * machineNumber machine := by
  have small := machineNumber_lt machine
  rw [timestamp, bits_or, bits_time, bits_machine_shifted,
    ← Nat.two_pow_add_eq_or_of_lt (by omega)]

/-- Two readings have the same timestamp exactly if they agree in the 42 bits
that an id keeps. -/
theorem timestamp_inj {time other : UInt64} :
    timestamp machine time = timestamp machine other ↔
      time.toNat % 2 ^ 42 = other.toNat % 2 ^ 42 := by
  constructor
  · intro same
    have equality := congrArg bits same
    rw [bits_timestamp, bits_timestamp] at equality
    omega
  · intro same
    apply bits_inj
    rw [bits_timestamp, bits_timestamp, same]

theorem bits_withSequence {sequence : Nat} (small : sequence < 0x1000) :
    bits (withSequence (timestamp machine time) sequence) =
      bits (timestamp machine time) + sequence := by
  have masked : sequence &&& 0xFFF = sequence := by
    have ones : sequence &&& 0xFFF = sequence &&& (2 ^ 12 - 1) := rfl
    rw [ones, Nat.and_two_pow_sub_one_eq_mod]
    omega
  have low : bits (Int64.ofNat sequence) = sequence := by
    have wrapped : bits (Int64.ofNat sequence) = sequence % 2 ^ 64 := rfl
    rw [wrapped]
    omega
  have aligned : bits (timestamp machine time) =
      2 ^ 12 * (2 ^ 10 * (time.toNat % 2 ^ 42) + machineNumber machine) := by
    rw [bits_timestamp]
    omega
  rw [withSequence, bits_or, masked, low, aligned,
    ← Nat.two_pow_add_eq_or_of_lt (by omega)]

/-- The fields of an id can be read back from it. -/
structure Recoverable (machine : Int32) (time : UInt64) (id : Int64) :
    Prop where
  time_eq : id >>> 22 = time.toInt64
  machine_eq : (id >>> 12) &&& 0x3FF = (machine &&& 0x3FF).toInt64
  sequence_lt : id &&& 0xFFF < 4096

theorem timestamp_lt (early : time.toNat < 2 ^ 41) :
    bits (timestamp machine time) + 2 ^ 12 ≤ 2 ^ 22 * (time.toNat + 1) ∧
      2 ^ 22 * (time.toNat + 1) ≤ 2 ^ 63 := by
  have small := machineNumber_lt machine
  rw [bits_timestamp]
  omega

theorem withSequence_recoverable {sequence : Nat}
    (early : time.toNat < 2 ^ 41) (small : sequence < 0x1000) :
    Recoverable machine time
      (withSequence (timestamp machine time) sequence) := by
  have machineSmall := machineNumber_lt machine
  obtain ⟨below, positive⟩ := timestamp_lt machine time early
  have value := bits_withSequence machine time small
  have sign : bits (withSequence (timestamp machine time) sequence) <
      2 ^ 63 := by omega
  constructor
  · apply bits_inj
    rw [bits_shiftRight 22 sign rfl, value, bits_timestamp]
    have wide : bits time.toInt64 = time.toNat := rfl
    rw [wide]
    omega
  · apply bits_inj
    rw [bits_mask 10 _ rfl, bits_machine, bits_shiftRight 12 sign rfl, value,
      bits_timestamp]
    omega
  · have low : bits (withSequence (timestamp machine time) sequence &&& 0xFFF) <
        4096 := by
      rw [bits_mask 12 _ rfl]
      omega
    rw [Int64.lt_iff_toInt_lt, toInt_eq_bits (by omega)]
    exact Int.ofNat_lt.mpr low

end Packing

end Natsu.Snowflake
