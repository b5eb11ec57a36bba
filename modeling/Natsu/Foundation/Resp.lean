import Natsu.Foundation.CInteger

/-!
# RESP arrays

The form in which a Redis client sends a command: an array of bulk strings,
each with its length before it.  `decode` accepts exactly one array and
nothing after it.
-/

namespace Natsu.Foundation.Resp

def bulk (bytes : Bytes) : Bytes :=
  ascii "$" ++ printNat 10 bytes.length ++ crlf ++ bytes ++ crlf

def encode (elements : List Bytes) : Bytes :=
  ascii "*" ++ printNat 10 elements.length ++ crlf ++
    (elements.map bulk).flatten

/-- A non-empty text of decimal digits. -/
def number (text : Bytes) : Option Nat :=
  if text ≠ [] ∧ text.all fun byte => (digitValue byte).any (· < 10) then
    some (digitsValue 10 (leadingDigits 10 text))
  else none

/-- A marked line with a number, and the bytes after it. -/
def header (mark : UInt8) : Bytes → Option (Nat × Bytes)
  | [] => none
  | first :: rest =>
      if first = mark then
        (find crlf rest).bind fun position =>
          (number (rest.take position)).map fun value =>
            (value, rest.drop (position + 2))
      else none

def decodeElements : (count : Nat) → Bytes → Option (List Bytes)
  | 0, bytes => if bytes = [] then some [] else none
  | count + 1, bytes =>
      (header 36 bytes).bind fun (size, rest) =>
        if size ≤ rest.length ∧ (rest.drop size).take 2 = crlf then
          (decodeElements count (rest.drop (size + 2))).map
            (rest.take size :: ·)
        else none

def decode (bytes : Bytes) : Option (List Bytes) :=
  (header 42 bytes).bind fun (count, rest) => decodeElements count rest

theorem number_printNat (value : Nat) :
    number (printNat 10 value) = some value := by
  have digits : ∀ byte ∈ printNat 10 value,
      (digitValue byte).any (· < 10) := by
    intro byte member
    obtain ⟨digit, digitMember, rfl⟩ := List.mem_map.mp member
    have below := baseDigits_lt (by omega) value digit digitMember
    rw [digitValue_digitByte (by omega)]
    simpa using below
  unfold number
  rw [if_pos ⟨printNat_ne_nil 10 value, List.all_eq_true.mpr digits⟩,
    leadingDigits_printNat (by omega) (by omega), digitsValue_baseDigits]

theorem header_printNat (mark : UInt8) (value : Nat) (rest : Bytes) :
    header mark (mark :: (printNat 10 value ++ crlf ++ rest)) =
      some (value, rest) := by
  have unbroken : find crlf (printNat 10 value) = none :=
    find_crlf_eq_none fun member =>
      (printNat_avoids (by omega) (by omega) value 13 member).2.1 rfl
  have skipped : (printNat 10 value ++ crlf ++ rest).drop
      ((printNat 10 value).length + 2) = rest := by
    rw [show (printNat 10 value).length + 2 =
      (printNat 10 value ++ crlf).length by simp [crlf], List.drop_left]
  simp only [header, if_true, find_crlf_line unbroken, Option.bind_some,
    skipped]
  rw [List.append_assoc, List.take_left, number_printNat]
  rfl

theorem decodeElements_bulk (elements : List Bytes) :
    decodeElements elements.length (elements.map bulk).flatten =
      some elements := by
  induction elements with
  | nil => rfl
  | cons bytes elements induction =>
      have shape : ((bytes :: elements).map bulk).flatten =
          36 :: (printNat 10 bytes.length ++ crlf ++
            (bytes ++ (crlf ++ (elements.map bulk).flatten))) := by
        simp [bulk, ascii]
      rw [List.length_cons, decodeElements, shape, header_printNat]
      simp [induction, crlf]

/-- Decoding inverts encoding. -/
theorem decode_encode (elements : List Bytes) :
    decode (encode elements) = some elements := by
  have shape : encode elements = 42 :: (printNat 10 elements.length ++ crlf ++
      (elements.map bulk).flatten) := by
    simp [encode, ascii]
  rw [decode, shape, header_printNat]
  exact decodeElements_bulk elements

end Natsu.Foundation.Resp
