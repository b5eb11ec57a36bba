import Mathlib.Algebra.Group.Nat.Defs
import Mathlib.Data.List.TakeWhile
import Std.Data.ExtTreeMap

/-!
# Byte strings

Byte strings with the searches of `std::string` and the C views of them.
`find` returns `none` where the library returns `npos`; `erase(0, n)` and
`substr(0, n)` are `List.drop n` and `List.take n`.
-/

namespace Natsu.Foundation

abbrev Bytes := List UInt8

/-- The bytes of an ASCII text. -/
def ascii (text : String) : Bytes :=
  text.toList.map fun character => UInt8.ofNat character.toNat

def crlf : Bytes := [13, 10]

/-- The largest size of a `std::string`. -/
def maxSize : Nat := 2 ^ 63 - 1

/-- `std::string::npos`. -/
def npos : Nat := 2 ^ 64 - 1

/-- `substr(pos, count)`, for a `pos` inside the string. -/
def substr (bytes : Bytes) (pos count : Nat) : Bytes :=
  (bytes.drop pos).take count

/-- First position of `pattern`, as `std::string::find`. -/
def find (pattern : Bytes) : Bytes → Option Nat
  | [] => if pattern.isPrefixOf [] then some 0 else none
  | byte :: bytes =>
      if pattern.isPrefixOf (byte :: bytes) then some 0
      else (find pattern bytes).map (· + 1)

/-- `std::string::find` with a start position. -/
def findFrom (pattern : Bytes) (start : Nat) (bytes : Bytes) : Option Nat :=
  (find pattern (bytes.drop start)).map (· + start)

/-- What a C function reading `c_str()` sees: the bytes up to the first
NUL. -/
def cstr (bytes : Bytes) : Bytes := bytes.takeWhile (· != 0)

/-- `::tolower` in the C locale. -/
def tolower (byte : UInt8) : UInt8 :=
  if 65 ≤ byte ∧ byte ≤ 90 then byte + 32 else byte

def lower (bytes : Bytes) : Bytes := bytes.map tolower

/-- `strcasecmp(left, right) == 0` on the `c_str()` of two strings. -/
def strcaseeq (left right : Bytes) : Bool :=
  lower (cstr left) == lower (cstr right)

/-- A text cut anywhere ends in its front or behind it. -/
theorem within_or_behind {Item : Type} {part front back : List Item}
    (cut : part <+: front ++ back) :
    (part <+: front ∧ part.length < front.length) ∨
      ∃ after, part = front ++ after ∧ after <+: back := by
  by_cases within : part.length < front.length
  · exact .inl ⟨List.prefix_of_prefix_length_le cut
      (List.prefix_append front back) (Nat.le_of_lt within), within⟩
  · obtain ⟨after, rfl⟩ := List.prefix_of_prefix_length_le
      (List.prefix_append front back) cut (Nat.le_of_not_lt within)
    exact .inr ⟨after, rfl, (List.prefix_append_right_inj front).mp cut⟩

section Find

variable {pattern bytes more : Bytes} {position : Nat}

theorem find_split (found : find pattern bytes = some position) :
    ∃ after, bytes = bytes.take position ++ pattern ++ after ∧
      position ≤ bytes.length := by
  induction bytes generalizing position with
  | nil =>
      simp only [find] at found
      split at found
      · rename_i isPrefix
        obtain rfl : 0 = position := by simpa using found
        obtain ⟨after, equality⟩ := List.isPrefixOf_iff_prefix.mp isPrefix
        exact ⟨after, by simpa using equality.symm, by simp⟩
      · simp at found
  | cons byte bytes induction =>
      simp only [find] at found
      split at found
      · rename_i isPrefix
        obtain rfl : 0 = position := by simpa using found
        obtain ⟨after, equality⟩ := List.isPrefixOf_iff_prefix.mp isPrefix
        exact ⟨after, by simpa using equality.symm, by simp⟩
      · obtain ⟨tailPosition, tailFound, rfl⟩ := Option.map_eq_some_iff.mp found
        obtain ⟨after, equality, bound⟩ := induction tailFound
        refine ⟨after, ?_, by simpa using bound⟩
        rw [List.take_succ_cons, List.cons_append, List.cons_append,
          ← equality]

theorem find_bound (found : find pattern bytes = some position) :
    position + pattern.length ≤ bytes.length := by
  obtain ⟨after, equality, bound⟩ := find_split found
  have lengths := congrArg List.length equality
  simp only [List.length_append, List.length_take] at lengths
  omega

/-- An occurrence stays the first one when bytes are appended. -/
theorem find_append (found : find pattern bytes = some position)
    (more : Bytes) : find pattern (bytes ++ more) = some position := by
  induction bytes generalizing position with
  | nil =>
      simp only [find] at found
      split at found
      · rename_i isPrefix
        obtain rfl : 0 = position := by simpa using found
        obtain rfl : pattern = [] := by
          simpa using List.isPrefixOf_iff_prefix.mp isPrefix
        cases more <;> simp [find]
      · simp at found
  | cons byte bytes induction =>
      simp only [find] at found
      split at found
      · rename_i isPrefix
        have longer : pattern.isPrefixOf (byte :: (bytes ++ more)) = true := by
          rw [List.isPrefixOf_iff_prefix] at isPrefix ⊢
          exact isPrefix.trans (List.prefix_append (byte :: bytes) more)
        simpa [find, longer] using found
      · rename_i notPrefix
        obtain ⟨tailPosition, tailFound, rfl⟩ := Option.map_eq_some_iff.mp found
        have tailBound := find_bound tailFound
        have notLonger :
            ¬ pattern.isPrefixOf (byte :: (bytes ++ more)) = true := by
          rw [List.isPrefixOf_iff_prefix] at notPrefix ⊢
          intro longer
          exact notPrefix (List.prefix_of_prefix_length_le longer
            (List.prefix_append (byte :: bytes) more)
            (by simp only [List.length_cons]; omega))
        simp [find, notLonger, induction tailFound]

/-- An occurrence that lies in the first part is found there. -/
theorem find_of_append
    (found : find pattern (bytes ++ more) = some position)
    (inside : position + pattern.length ≤ bytes.length) :
    find pattern bytes = some position := by
  induction bytes generalizing position with
  | nil =>
      have empty : pattern = [] := by
        cases pattern with
        | nil => rfl
        | cons => simp at inside
      subst empty
      obtain rfl : position = 0 := by simpa using inside
      simp [find]
  | cons byte bytes induction =>
      simp only [List.cons_append, find] at found ⊢
      split at found
      · rename_i longer
        obtain rfl : 0 = position := by simpa using found
        have shorter : pattern.isPrefixOf (byte :: bytes) = true := by
          rw [List.isPrefixOf_iff_prefix] at longer ⊢
          exact List.prefix_of_prefix_length_le longer
            (List.prefix_append (byte :: bytes) more) (by simpa using inside)
        simp [shorter]
      · rename_i notLonger
        obtain ⟨tailPosition, tailFound, rfl⟩ := Option.map_eq_some_iff.mp found
        have notShorter : ¬ pattern.isPrefixOf (byte :: bytes) = true := by
          rw [List.isPrefixOf_iff_prefix] at notLonger ⊢
          intro shorter
          exact notLonger
            (shorter.trans (List.prefix_append (byte :: bytes) more))
        have tailInside : tailPosition + pattern.length ≤ bytes.length := by
          simp only [List.length_cons] at inside
          omega
        simp [notShorter, induction tailFound tailInside]

/-- A string without the pattern, extended until the pattern appears, ends
less than one pattern length after the start of the occurrence. -/
theorem length_lt_of_find_append (absent : find pattern bytes = none)
    (found : find pattern (bytes ++ more) = some position) :
    bytes.length < position + pattern.length := by
  by_contra inside
  have present := find_of_append found (Nat.le_of_not_lt inside)
  simp [absent] at present

end Find

section Separators

/-- The first occurrence of a byte, after a part that does not have it. -/
theorem find_byte (byte : UInt8) {before : Bytes} (absent : byte ∉ before)
    (after : Bytes) :
    find [byte] (before ++ byte :: after) = some before.length := by
  induction before with
  | nil => simp [find]
  | cons head tail induction =>
      simp only [List.mem_cons, not_or] at absent
      simp [find, absent.1, induction absent.2]

theorem find_byte_eq_none {byte : UInt8} {bytes : Bytes}
    (absent : byte ∉ bytes) : find [byte] bytes = none := by
  induction bytes with
  | nil => rfl
  | cons head tail induction =>
      simp only [List.mem_cons, not_or] at absent
      simp [find, absent.1, induction absent.2]

/-- A line is ended by the first CRLF after it. -/
theorem find_crlf_line {line : Bytes} (unbroken : find crlf line = none)
    (rest : Bytes) : find crlf (line ++ crlf ++ rest) = some line.length := by
  induction line with
  | nil => simp [find, crlf]
  | cons head tail induction =>
      simp only [find] at unbroken
      split at unbroken
      · simp at unbroken
      · rename_i notHere
        have tailUnbroken : find crlf tail = none := by
          simpa using unbroken
        have notLater :
            ¬ crlf.isPrefixOf (head :: (tail ++ crlf ++ rest)) = true := by
          cases tail with
          | nil => simp [crlf]
          | cons next tail => simpa [crlf] using notHere
        simp only [List.cons_append, find]
        rw [if_neg notLater, induction tailUnbroken]
        rfl

theorem find_crlf_eq_none {line : Bytes} (noReturn : (13 : UInt8) ∉ line) :
    find crlf line = none := by
  induction line with
  | nil => simp [find, crlf]
  | cons head tail induction =>
      simp only [List.mem_cons, not_or] at noReturn
      have different : ¬ (13 : UInt8) = head := noReturn.1
      simp [find, crlf, different] at induction ⊢
      exact induction noReturn.2

theorem mem_intercalate {separator : Bytes} {parts : List Bytes}
    {byte : UInt8} (member : byte ∈ separator.intercalate parts) :
    byte ∈ separator ∨ ∃ part ∈ parts, byte ∈ part := by
  induction parts with
  | nil => simp at member
  | cons first parts induction =>
      cases parts with
      | nil => simpa using Or.inr member
      | cons second parts =>
          rw [List.intercalate_cons_cons, List.mem_append,
            List.mem_append] at member
          rcases member with (inFirst | inSeparator) | later
          · exact .inr ⟨first, List.mem_cons_self, inFirst⟩
          · exact .inl inSeparator
          · refine (induction later).imp_right ?_
            rintro ⟨part, isPart, inside⟩
            exact ⟨part, List.mem_cons_of_mem _ isPart, inside⟩

theorem length_le_intercalate (separator : Bytes) {parts : List Bytes}
    {part : Bytes} (member : part ∈ parts) :
    part.length ≤ (separator.intercalate parts).length := by
  induction parts with
  | nil => simp at member
  | cons first parts induction =>
      cases parts with
      | nil =>
          obtain rfl := List.mem_singleton.mp member
          simp
      | cons second parts =>
          rw [List.intercalate_cons_cons, List.length_append,
            List.length_append]
          rcases List.mem_cons.mp member with rfl | later
          · omega
          · have shorter := induction later
            omega

end Separators

section CStrings

theorem cstr_eq_self {bytes : Bytes} (noNul : (0 : UInt8) ∉ bytes) :
    cstr bytes = bytes := by
  unfold cstr
  rw [List.takeWhile_eq_self_iff]
  intro byte member
  simp only [bne_iff_ne, ne_eq]
  rintro rfl
  exact noNul member

/-- The C view of a string written with its terminating NUL. -/
theorem cstr_append_nul {bytes : Bytes} (noNul : (0 : UInt8) ∉ bytes)
    (after : Bytes) : cstr (bytes ++ 0 :: after) = bytes := by
  induction bytes with
  | nil => simp [cstr]
  | cons head tail induction =>
      simp only [List.mem_cons, not_or] at noNul
      have nonzero : head ≠ 0 := fun equality => noNul.1 equality.symm
      simp only [cstr, List.cons_append, List.takeWhile_cons] at induction ⊢
      simp [nonzero, induction noNul.2]

end CStrings

end Natsu.Foundation
