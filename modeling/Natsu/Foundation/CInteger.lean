import Mathlib.Data.Nat.Digits.Lemmas
import Natsu.Foundation.ByteString

/-!
# Machine integers and their texts

Integers as the C code of a 64-bit little-endian machine stores, narrows,
prints and reads them.
-/

namespace Natsu.Foundation

/-- The `width` bytes that hold `value` in memory. -/
def littleEndian : Nat → Nat → Bytes
  | 0, _ => []
  | width + 1, value =>
      UInt8.ofNat (value % 256) :: littleEndian width (value / 256)

def ofLittleEndian : Bytes → Nat
  | [] => 0
  | byte :: bytes => byte.toNat + 256 * ofLittleEndian bytes

@[simp] theorem length_littleEndian (width value : Nat) :
    (littleEndian width value).length = width := by
  induction width generalizing value with
  | zero => rfl
  | succ width induction => simp [littleEndian, induction]

theorem ofLittleEndian_littleEndian (width value : Nat) :
    ofLittleEndian (littleEndian width value) = value % 256 ^ width := by
  induction width generalizing value with
  | zero => simp [littleEndian, ofLittleEndian, Nat.mod_one]
  | succ width induction =>
      simp only [littleEndian, ofLittleEndian, induction]
      have low : (UInt8.ofNat (value % 256)).toNat = value % 256 := by
        simp
      rw [low, Nat.pow_succ', Nat.mod_mul]

theorem ofLittleEndian_lt (bytes : Bytes) :
    ofLittleEndian bytes < 256 ^ bytes.length := by
  induction bytes with
  | nil => exact Nat.one_pos
  | cons byte bytes induction =>
      have low := byte.toNat_lt
      simp only [ofLittleEndian, List.length_cons, Nat.pow_succ]
      omega

theorem littleEndian_ofLittleEndian (bytes : Bytes) :
    littleEndian bytes.length (ofLittleEndian bytes) = bytes := by
  induction bytes with
  | nil => rfl
  | cons byte bytes induction =>
      have low : byte.toNat < 256 := byte.toNat_lt
      have quotient : (byte.toNat + 256 * ofLittleEndian bytes) / 256 =
          ofLittleEndian bytes := by
        omega
      have remainder : (byte.toNat + 256 * ofLittleEndian bytes) % 256 =
          byte.toNat := by
        omega
      simp only [List.length_cons, littleEndian, ofLittleEndian, quotient,
        remainder, induction, UInt8.ofNat_toNat]

/-- Conversion to `int`. -/
def toInt (value : Int) : Int := Int.bmod value (2 ^ 32)

/-- Conversion to `size_t`. -/
def toSizeT (value : Int) : Nat := (value % 2 ^ 64).toNat

theorem toInt_of_lt {value : Nat} (small : value < 2 ^ 31) :
    toInt value = value := by
  unfold toInt
  rw [Int.bmod_eq_of_le] <;> omega

theorem toSizeT_of_lt {value : Nat} (small : value < 2 ^ 64) :
    toSizeT value = value := by
  unfold toSizeT
  omega

theorem toInt_range (value : Int) :
    -2 ^ 31 ≤ toInt value ∧ toInt value < 2 ^ 31 := by
  unfold toInt
  have upper : Int.bmod value (2 ^ 32) < (2 ^ 32 + 1) / 2 :=
    Int.bmod_lt (by omega)
  have lower := @Int.le_bmod value (2 ^ 32) (by omega)
  omega

theorem toSizeT_toInt (value : Int) :
    toSizeT (toInt value) < 2 ^ 31 ∨
      2 ^ 64 - 2 ^ 31 ≤ toSizeT (toInt value) := by
  have range := toInt_range value
  unfold toSizeT
  omega

/-- `isspace` in the C locale. -/
def isspace (byte : UInt8) : Bool :=
  (9 ≤ byte ∧ byte ≤ 13) ∨ byte = 32

def digitValue (byte : UInt8) : Option Nat :=
  if 48 ≤ byte ∧ byte ≤ 57 then some (byte.toNat - 48)
  else if 97 ≤ byte ∧ byte ≤ 122 then some (byte.toNat - 87)
  else if 65 ≤ byte ∧ byte ≤ 90 then some (byte.toNat - 55)
  else none

/-- The digits of `base` at the start of a text. -/
def leadingDigits (base : Nat) : Bytes → List Nat
  | [] => []
  | byte :: bytes =>
      match digitValue byte with
      | some digit =>
          if digit < base then digit :: leadingDigits base bytes else []
      | none => []

def digitsValue (base : Nat) (digits : List Nat) : Nat :=
  digits.foldl (fun value digit => value * base + digit) 0

/-- The optional sign that `strtol` accepts: whether it is a minus, and the
text after it. -/
def signed : Bytes → Bool × Bytes
  | 45 :: rest => (true, rest)
  | 43 :: rest => (false, rest)
  | text => (false, text)

/-- The `0x` that `strtol` skips in base 16 when a digit follows it. -/
def skipHexPrefix (base : Nat) : Bytes → Bytes
  | 48 :: mark :: rest =>
      if base = 16 ∧ (mark = 120 ∨ mark = 88) ∧ leadingDigits 16 rest ≠ [] then
        rest
      else 48 :: mark :: rest
  | text => text

/-- `strtol(text.c_str(), &end, base)`, which saturates at the ends of
`long`. -/
def strtol (base : Nat) (text : Bytes) : Int :=
  let (minus, unsigned) := signed ((cstr text).dropWhile isspace)
  let value := digitsValue base (leadingDigits base (skipHexPrefix base unsigned))
  if minus then max (-2 ^ 63) (-value) else min (2 ^ 63 - 1) value

/-- `atoi`, the decimal `strtol` narrowed to `int`. -/
def atoi (text : Bytes) : Int := toInt (strtol 10 text)

def digitByte (digit : Nat) : UInt8 :=
  if digit < 10 then UInt8.ofNat (48 + digit) else UInt8.ofNat (87 + digit)

def baseDigits (base value : Nat) : List Nat :=
  if value = 0 then [0] else (Nat.digits base value).reverse

/-- The text of a number in a base up to 16, as `%d` and `%x` print it. -/
def printNat (base value : Nat) : Bytes :=
  (baseDigits base value).map digitByte

/-- The text that `%d` prints. -/
def printInt (value : Int) : Bytes :=
  if value < 0 then 45 :: printNat 10 value.natAbs
  else printNat 10 value.natAbs

section Reading

variable {base : Nat}

private theorem isspace_of_digit {byte : UInt8}
    (digit : (digitValue byte).any (· < 16) = true) :
    isspace byte = false := by
  have above : 48 ≤ byte := by
    unfold digitValue at digit
    split at digit
    · rename_i decimal
      exact decimal.1
    · split at digit
      · rename_i letter
        exact UInt8.le_trans (by decide) letter.1
      · split at digit
        · rename_i letter
          exact UInt8.le_trans (by decide) letter.1
        · simp at digit
  rw [UInt8.le_iff_toNat_le] at above
  have bound : 48 ≤ byte.toNat := above
  by_contra space
  simp only [isspace, Bool.not_eq_false, decide_eq_true_eq] at space
  rcases space with ⟨_, control⟩ | blank
  · have small : byte.toNat ≤ 13 := UInt8.le_iff_toNat_le.mp control
    omega
  · subst blank
    simp at bound

/-- The letters count as digits in either case. -/
theorem digitValue_tolower (byte : UInt8) :
    digitValue (tolower byte) = digitValue byte := by
  unfold tolower
  split
  · rename_i upper
    have low : 65 ≤ byte.toNat := UInt8.le_iff_toNat_le.mp upper.1
    have high : byte.toNat ≤ 90 := UInt8.le_iff_toNat_le.mp upper.2
    have moved : (byte + 32).toNat = byte.toNat + 32 := by
      rw [UInt8.toNat_add]
      exact Nat.mod_eq_of_lt (by simp; omega)
    have lowered : digitValue (byte + 32) = some (byte.toNat - 55) := by
      unfold digitValue
      simp only [UInt8.le_iff_toNat_le, moved]
      rw [if_neg (by simp; omega), if_pos (by simp; omega)]
      simp only [Option.some.injEq]
      omega
    have same : digitValue byte = some (byte.toNat - 55) := by
      unfold digitValue
      simp only [UInt8.le_iff_toNat_le]
      rw [if_neg (by simp; omega), if_neg (by simp; omega),
        if_pos (by simp; omega)]
    rw [lowered, same]
  · rfl

theorem leadingDigits_lower (text : Bytes) :
    leadingDigits base (lower text) = leadingDigits base text := by
  induction text with
  | nil => rfl
  | cons first rest induction =>
      have split : lower (first :: rest) = tolower first :: lower rest := rfl
      rw [split]
      simp only [leadingDigits, digitValue_tolower, induction]

theorem digit_avoids {byte : UInt8}
    (digit : (digitValue byte).any (· < 16) = true) :
    byte ≠ 0 ∧ byte ≠ 13 ∧ byte ≠ 45 ∧ byte ≠ 43 ∧ byte ≠ 120 ∧
      byte ≠ 88 := by
  refine ⟨?_, ?_, ?_, ?_, ?_, ?_⟩ <;>
    · rintro rfl
      exact absurd digit (by decide)

/-- What may follow the digits of a size. -/
def Separated (after : Bytes) : Prop := after = [] ∨ after.head? = some 59

theorem separated_nil : Separated [] := .inl rfl

theorem leadingDigits_append {digits after : Bytes}
    (separated : Separated after) :
    leadingDigits base (digits ++ after) = leadingDigits base digits := by
  induction digits with
  | nil =>
      cases after with
      | nil => rfl
      | cons first rest =>
          obtain rfl : first = 59 := by simpa [Separated] using separated
          rfl
  | cons first rest induction =>
      simp only [List.cons_append, leadingDigits, induction]

/-- The C view of digits and what follows them ends in what may follow. -/
private theorem cstr_digits {digits after : Bytes}
    (hexadecimal : ∀ byte ∈ digits, (digitValue byte).any (· < 16))
    (separated : Separated after) :
    ∃ seen, cstr (digits ++ after) = digits ++ seen ∧ Separated seen := by
  refine ⟨cstr after, ?_, ?_⟩
  · unfold cstr
    rw [List.takeWhile_append_of_pos]
    intro byte member
    simpa using (digit_avoids (hexadecimal byte member)).1
  · rcases separated with rfl | semicolon
    · exact .inl rfl
    · cases after with
      | nil => simp at semicolon
      | cons first rest =>
          obtain rfl : first = 59 := by simpa using semicolon
          exact .inr rfl

/-- A digit that is followed by digits or a separator starts no `0x`. -/
private theorem skipHexPrefix_digits {first : UInt8} {rest after : Bytes}
    (hexadecimal : ∀ byte ∈ rest, (digitValue byte).any (· < 16))
    (separated : Separated after) :
    skipHexPrefix base (first :: rest ++ after) = first :: rest ++ after := by
  have second : ∀ mark ∈ (rest ++ after).head?,
      mark ≠ 120 ∧ mark ≠ 88 := by
    intro mark isNext
    cases rest with
    | nil =>
        rcases separated with rfl | semicolon
        · simp at isNext
        · obtain rfl : (59 : UInt8) = mark := by
            simpa [semicolon] using isNext
          decide
    | cons next others =>
        obtain rfl : next = mark := by simpa using isNext
        exact (digit_avoids (hexadecimal next (by simp))).2.2.2.2
  unfold skipHexPrefix
  split
  · rename_i mark others shape
    have isMark : (rest ++ after).head? = some mark := by
      rw [List.cons_append] at shape
      rw [(List.cons.inj shape).2]
      rfl
    obtain ⟨notLower, notUpper⟩ := second mark isMark
    rw [shape]
    simp [notLower, notUpper]
  · rfl

/-- Reading digits up to a separator. -/
theorem strtol_digits {digits after : Bytes} (small : base ≤ 16)
    (nonempty : digits ≠ [])
    (bounded : ∀ byte ∈ digits, (digitValue byte).any (· < base))
    (separated : Separated after) :
    strtol base (digits ++ after) = min (2 ^ 63 - 1)
      (digitsValue base (leadingDigits base digits) : Int) := by
  have hexadecimal : ∀ byte ∈ digits, (digitValue byte).any (· < 16) := by
    intro byte member
    have inBase := bounded byte member
    cases value : digitValue byte with
    | none => simp [value] at inBase
    | some digit =>
        have below : digit < base := by simpa [value] using inBase
        simp only [Option.any_some, decide_eq_true_eq]
        omega
  obtain ⟨seen, viewed, seenSeparated⟩ := cstr_digits hexadecimal separated
  have read : leadingDigits base (digits ++ seen) =
      leadingDigits base digits := leadingDigits_append seenSeparated
  cases digits with
  | nil => exact absurd rfl nonempty
  | cons first rest =>
      have firstDigit := hexadecimal first (by simp)
      obtain ⟨_, _, noMinus, noPlus, _⟩ := digit_avoids firstDigit
      have noSpace := isspace_of_digit firstDigit
      have unsigned : signed ((first :: rest ++ seen).dropWhile isspace) =
          (false, first :: rest ++ seen) := by
        simp only [List.cons_append, List.dropWhile_cons, noSpace,
          Bool.false_eq_true, if_false]
        unfold signed
        split <;> simp_all
      have unmarked : skipHexPrefix base (first :: rest ++ seen) =
          first :: rest ++ seen := by
        apply skipHexPrefix_digits _ seenSeparated
        intro byte member
        exact hexadecimal byte (List.mem_cons_of_mem _ member)
      unfold strtol
      rw [viewed, unsigned]
      simp only [unmarked, read, Bool.false_eq_true, if_false]

end Reading

section Printing

private theorem digitByte_spec : ∀ digit < 16,
    digitByte digit ≠ 0 ∧ digitByte digit ≠ 13 ∧ digitByte digit ≠ 10 ∧
      digitByte digit ≠ 32 ∧ digitByte digit ≠ 45 := by
  decide

theorem digitValue_digitByte {digit : Nat} (small : digit < 16) :
    digitValue (digitByte digit) = some digit := by
  revert digit
  decide

variable {base : Nat}

theorem baseDigits_ne_nil (base value : Nat) : baseDigits base value ≠ [] := by
  unfold baseDigits
  split
  · simp
  · rename_i nonzero
    simpa [Nat.digits_eq_nil_iff_eq_zero] using nonzero

theorem baseDigits_lt (two : 2 ≤ base) (value : Nat) :
    ∀ digit ∈ baseDigits base value, digit < base := by
  intro digit member
  unfold baseDigits at member
  split at member
  · obtain rfl : digit = 0 := by simpa using member
    omega
  · exact Nat.digits_lt_base (by omega) (List.mem_reverse.mp member)

theorem digitsValue_baseDigits (base value : Nat) :
    digitsValue base (baseDigits base value) = value := by
  unfold digitsValue baseDigits
  split
  · rename_i zero
    simp [zero]
  · rw [List.foldl_reverse]
    calc
      _ = Nat.ofDigits base (Nat.digits base value) := by
        rw [Nat.ofDigits_eq_foldr]
        congr 1
        funext digit rest
        simp [Nat.mul_comm, Nat.add_comm]
      _ = value := Nat.ofDigits_digits base value

private theorem leadingDigits_map (small : base ≤ 16) {digits : List Nat}
    (bounded : ∀ digit ∈ digits, digit < base) :
    leadingDigits base (digits.map digitByte) = digits := by
  induction digits with
  | nil => rfl
  | cons digit digits induction =>
      have headBound : digit < base := bounded digit (by simp)
      have value : digitValue (digitByte digit) = some digit :=
        digitValue_digitByte (by omega)
      simp only [List.map_cons, leadingDigits, value, if_pos headBound]
      rw [induction fun other member => bounded other (by simp [member])]

theorem printNat_avoids (two : 2 ≤ base) (small : base ≤ 16) (value : Nat) :
    ∀ byte ∈ printNat base value,
      byte ≠ 0 ∧ byte ≠ 13 ∧ byte ≠ 10 ∧ byte ≠ 32 ∧ byte ≠ 45 := by
  intro byte member
  obtain ⟨digit, digitMember, rfl⟩ := List.mem_map.mp member
  have bound := baseDigits_lt two value digit digitMember
  exact digitByte_spec digit (by omega)

theorem printNat_ne_nil (base value : Nat) : printNat base value ≠ [] := by
  simpa [printNat] using baseDigits_ne_nil base value

theorem length_printNat_le {width value : Nat} (two : 2 ≤ base)
    (wide : 1 ≤ width) (small : value < base ^ width) :
    (printNat base value).length ≤ width := by
  unfold printNat baseDigits
  split
  · simpa using wide
  · rw [List.length_map, List.length_reverse]
    exact (Nat.digits_length_le_iff (by omega) value).mpr small

theorem digitValue_printNat (two : 2 ≤ base) (small : base ≤ 16)
    (value : Nat) :
    ∀ byte ∈ printNat base value, (digitValue byte).any (· < base) := by
  intro byte member
  obtain ⟨digit, digitMember, rfl⟩ := List.mem_map.mp member
  have below := baseDigits_lt two value digit digitMember
  rw [digitValue_digitByte (by omega)]
  simpa using below

theorem leadingDigits_printNat (two : 2 ≤ base) (small : base ≤ 16)
    (value : Nat) :
    leadingDigits base (printNat base value) = baseDigits base value :=
  leadingDigits_map small (baseDigits_lt two value)

/-- Reading a printed number gives it back, up to the end of `long`. -/
theorem strtol_printNat (two : 2 ≤ base) (small : base ≤ 16) (value : Nat) :
    strtol base (printNat base value) = min (2 ^ 63 - 1) (value : Int) := by
  have read := strtol_digits small (printNat_ne_nil base value)
    (digitValue_printNat two small value) separated_nil
  rwa [List.append_nil, leadingDigits_printNat two small,
    digitsValue_baseDigits] at read

theorem atoi_printNat {value : Nat} (small : value < 2 ^ 31) :
    atoi (printNat 10 value) = value := by
  unfold atoi
  rw [strtol_printNat (by omega) (by omega)]
  have inRange : min (2 ^ 63 - 1) (value : Int) = value := by omega
  rw [inRange]
  exact toInt_of_lt small

end Printing

end Natsu.Foundation
