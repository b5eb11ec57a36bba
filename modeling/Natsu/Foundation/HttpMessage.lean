import Natsu.Foundation.Resp

/-!
# Reading an HTTP/1.1 response

A status line, header lines up to the first empty line, and as many bytes as
the one `Content-Length` announces.
-/

namespace Natsu.Foundation.HttpMessage

/-- The lines up to the first empty one, and the bytes after it.  `line` is
the line that has begun. -/
def headLines (line : Bytes) : Bytes → Option (List Bytes × Bytes)
  | 13 :: 10 :: bytes =>
      if line = [] then some ([], bytes)
      else (headLines [] bytes).map fun (lines, rest) => (line :: lines, rest)
  | byte :: bytes => headLines (line ++ [byte]) bytes
  | [] => none

/-- `name: value`. -/
def fieldLine (field : Bytes × Bytes) : Bytes :=
  field.1 ++ ascii ": " ++ field.2

/-- The name stands before the first colon, and a space after it. -/
def readField (line : Bytes) : Option (Bytes × Bytes) :=
  (find [58] line).bind fun position =>
    if (line.drop (position + 1)).head? = some 32 then
      some (line.take position, line.drop (position + 2))
    else none

def readFields : List Bytes → Option (List (Bytes × Bytes))
  | [] => some []
  | line :: lines =>
      (readField line).bind fun field => (readFields lines).map (field :: ·)

/-- The code of a status line `HTTP/1.1 code reason`. -/
def statusCode (line : Bytes) : Option Nat :=
  if (ascii "HTTP/1.1 ").isPrefixOf line then
    (find [32] (line.drop 9)).bind fun position =>
      Resp.number ((line.drop 9).take position)
  else none

/-- The fields that have a name, whatever its case. -/
def named (name : Bytes) (fields : List (Bytes × Bytes)) :
    List (Bytes × Bytes) :=
  fields.filter fun field => lower field.1 = lower name

/-- The length that exactly one field announces. -/
def announced (fields : List (Bytes × Bytes)) : Option Nat :=
  match named (ascii "Content-Length") fields with
  | [field] => Resp.number field.2
  | _ => none

structure Message where
  code : Nat
  fields : List (Bytes × Bytes)
  body : Bytes
  rest : Bytes

/-- The header fields of a response. -/
def headFields (bytes : Bytes) : Option (List (Bytes × Bytes)) :=
  (headLines [] bytes).bind fun (lines, _) => readFields lines.tail

def read (bytes : Bytes) : Option Message :=
  (headLines [] bytes).bind fun (lines, rest) =>
    lines.head?.bind fun status =>
      (statusCode status).bind fun code =>
        (readFields lines.tail).bind fun fields =>
          (announced fields).bind fun length =>
            if length ≤ rest.length then
              some { code := code
                     fields := fields
                     body := rest.take length
                     rest := rest.drop length }
            else none

section Lines

theorem headLines_line {line : Bytes} (clean : (13 : UInt8) ∉ line) :
    ∀ (begun rest : Bytes), headLines begun (line ++ crlf ++ rest) =
      if begun ++ line = [] then some ([], rest)
      else (headLines [] rest).map fun (lines, after) =>
        ((begun ++ line) :: lines, after) := by
  induction line with
  | nil =>
      intro begun rest
      simp [crlf, headLines]
  | cons byte line induction =>
      intro begun rest
      simp only [List.mem_cons, not_or] at clean
      obtain ⟨notReturn, cleanTail⟩ := clean
      have skipped : headLines begun (byte :: (line ++ crlf ++ rest)) =
          headLines (begun ++ [byte]) (line ++ crlf ++ rest) := by
        rw [headLines]
        intro bytes same
        exact absurd same.symm notReturn
      rw [List.cons_append, List.cons_append, skipped, induction cleanTail]
      simp

/-- Non-empty lines, an empty line and the rest. -/
theorem headLines_lines (lines : List Bytes) (rest : Bytes)
    (clean : ∀ line ∈ lines, line ≠ [] ∧ (13 : UInt8) ∉ line) :
    headLines [] ((lines.map (· ++ crlf)).flatten ++ crlf ++ rest) =
      some (lines, rest) := by
  induction lines with
  | nil => simp [crlf, headLines]
  | cons line lines induction =>
      obtain ⟨nonempty, noReturn⟩ := clean line List.mem_cons_self
      have tail := induction fun other member =>
        clean other (List.mem_cons_of_mem _ member)
      have shape : (((line :: lines).map (· ++ crlf)).flatten ++ crlf ++ rest) =
          line ++ crlf ++ ((lines.map (· ++ crlf)).flatten ++ crlf ++ rest) := by
        simp
      rw [shape, headLines_line noReturn, List.nil_append, if_neg nonempty,
        tail]
      rfl

/-- The first empty line is not behind any other. -/
theorem suffix_of_headLines {line text body : Bytes} {lines : List Bytes}
    {rest : Bytes} (isRead : headLines line text = some (lines, rest))
    (isEnd : crlf ++ (crlf ++ body) <:+ text) : body <:+ rest := by
  fun_induction headLines line text generalizing lines rest with
  | case1 bytes =>
      obtain ⟨_, rfl⟩ := Prod.mk.inj (Option.some.inj isRead)
      rcases List.suffix_cons_iff.mp isEnd with same | later
      · exact ⟨crlf, by simpa [crlf] using same⟩
      · rcases List.suffix_cons_iff.mp later with same | inside
        · simp [crlf] at same
        · have shorter : body <:+ crlf ++ (crlf ++ body) :=
            ⟨crlf ++ crlf, by simp⟩
          exact shorter.trans inside
  | case2 line bytes nonempty induction =>
      obtain ⟨⟨others, after⟩, isRest, same⟩ :=
        Option.map_eq_some_iff.mp isRead
      obtain ⟨_, rfl⟩ := Prod.mk.inj same
      rcases List.suffix_cons_iff.mp isEnd with same | later
      · obtain rfl : bytes = 13 :: 10 :: body := by simpa [crlf] using same.symm
        rw [headLines, if_pos rfl] at isRest
        obtain ⟨_, rfl⟩ := Prod.mk.inj (Option.some.inj isRest)
        exact List.suffix_rfl
      · rcases List.suffix_cons_iff.mp later with same | inside
        · simp [crlf] at same
        · exact induction isRest inside
  | case3 line byte bytes notBreak induction =>
      rcases List.suffix_cons_iff.mp isEnd with same | inside
      · obtain ⟨rfl, rfl⟩ := List.cons.inj same
        exact absurd rfl (notBreak _ rfl)
      · exact induction isRead inside
  | case4 => simp at isRead

end Lines

section Fields

/-- A name that can be told from its value, on one line. -/
structure CleanField (field : Bytes × Bytes) : Prop where
  nonempty : field.1 ≠ []
  noColon : (58 : UInt8) ∉ field.1
  nameUnbroken : (13 : UInt8) ∉ field.1
  valueUnbroken : (13 : UInt8) ∉ field.2

instance (field : Bytes × Bytes) : Decidable (CleanField field) :=
  decidable_of_iff (field.1 ≠ [] ∧ (58 : UInt8) ∉ field.1 ∧
      (13 : UInt8) ∉ field.1 ∧ (13 : UInt8) ∉ field.2)
    ⟨fun ⟨nonempty, noColon, name, value⟩ => ⟨nonempty, noColon, name, value⟩,
      fun clean => ⟨clean.nonempty, clean.noColon, clean.nameUnbroken,
        clean.valueUnbroken⟩⟩

theorem readField_fieldLine {field : Bytes × Bytes}
    (noColon : (58 : UInt8) ∉ field.1) :
    readField (fieldLine field) = some field := by
  have shape : fieldLine field = field.1 ++ 58 :: (32 :: field.2) := by
    simp [fieldLine, ascii]
  have found : find [58] (fieldLine field) = some field.1.length := by
    rw [shape]
    exact find_byte 58 noColon _
  rw [readField, found]
  simp [shape]

theorem readFields_fieldLine {fields : List (Bytes × Bytes)}
    (clean : ∀ field ∈ fields, CleanField field) :
    readFields (fields.map fieldLine) = some fields := by
  induction fields with
  | nil => rfl
  | cons field fields induction =>
      have head := readField_fieldLine (clean field List.mem_cons_self).noColon
      have tail := induction fun other member =>
        clean other (List.mem_cons_of_mem _ member)
      simp only [List.map_cons, readFields, head, tail, Option.bind_some,
        Option.map_some]

theorem CleanField.line {field : Bytes × Bytes} (clean : CleanField field) :
    fieldLine field ≠ [] ∧ (13 : UInt8) ∉ fieldLine field := by
  constructor
  · simp [fieldLine, clean.nonempty]
  · simp [fieldLine, ascii, clean.nameUnbroken, clean.valueUnbroken]

end Fields

end Natsu.Foundation.HttpMessage
