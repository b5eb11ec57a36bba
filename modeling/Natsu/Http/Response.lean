import Natsu.Foundation.HttpMessage
import Natsu.Foundation.OrderedMap

/-!
# HTTP responses

The response that a handler fills.  `make` writes it out and changes its
headers on the way.
-/

namespace Natsu.Http

open Natsu.Foundation

structure HttpResponse where
  code : Int := 200
  headers : Std.ExtTreeMap Bytes Bytes := ∅
  body : Bytes := []

/-- The `switch` of `make`: a code that it does not list has no status line. -/
def statusLine (code : Int) : Bytes :=
  if code = 200 then
    ascii "HTTP/1.1 " ++ printInt code ++ ascii " OK\r\n"
  else if code = 302 then
    ascii "HTTP/1.1 " ++ printInt code ++ ascii " Temporarily Moved\r\n"
  else if code = 404 then
    ascii "HTTP/1.1 " ++ printInt code ++ ascii " Not Found\r\n"
  else if code = 500 then
    ascii "HTTP/1.1 " ++ printInt code ++ ascii " Internal Server Error\r\n"
  else []

namespace HttpResponse

def header (response : HttpResponse) (key value : Bytes) : HttpResponse :=
  { response with headers := response.headers.insert key value }

/-- `response(resp, ct)`. -/
def respond (response : HttpResponse) (resp ct : Bytes) : HttpResponse :=
  { response.header (ascii "Content-Type") ct with body := resp }

/-- `response(code)`. -/
def respondCode (response : HttpResponse) (code : Int) : HttpResponse :=
  { response with code := code, body := [] }

def redirect (response : HttpResponse) (u : Bytes) : HttpResponse :=
  { response.header (ascii "Location") u with code := 302, body := [] }

/-- The headers that `make` writes, and leaves. -/
def finalHeaders (response : HttpResponse) : Std.ExtTreeMap Bytes Bytes :=
  (response.headers.insert (ascii "Connection") (ascii "close")).erase
    (ascii "Content-Length")

def make (response : HttpResponse) : Bytes × HttpResponse :=
  let header := response.finalHeaders
  (statusLine response.code ++
      (header.toList.map fun (first, second) =>
        first ++ ascii ": " ++ second ++ crlf).flatten ++
      (ascii "Content-Length: " ++ printNat 10 response.body.length ++ crlf) ++
      crlf ++ response.body,
    { response with headers := header })

def str (response : HttpResponse) : Bytes × HttpResponse := response.make

def empty (response : HttpResponse) : Bool :=
  response.code == 200 && response.headers.size == 0 &&
    response.body.length == 0

/-- The fields in the order in which `make` writes them. -/
def fields (response : HttpResponse) : List (Bytes × Bytes) :=
  response.finalHeaders.toList ++
    [(ascii "Content-Length", printNat 10 response.body.length)]

theorem make_text (response : HttpResponse) :
    response.make.1 = statusLine response.code ++
      ((response.fields.map HttpMessage.fieldLine).map (· ++ crlf)).flatten ++
      crlf ++ response.body := by
  have label : ascii "Content-Length: " =
      ascii "Content-Length" ++ ascii ": " := by decide
  simp [make, fields, HttpMessage.fieldLine, label, Function.comp_def]

theorem finalHeaders_final (response : HttpResponse) :
    response.make.2.finalHeaders = response.finalHeaders := by
  ext key
  simp only [make, finalHeaders, Std.ExtTreeMap.getElem?_erase,
    Std.ExtTreeMap.getElem?_insert]
  split
  · rfl
  · split <;> rfl

/-- Writing a response a second time gives the same bytes. -/
theorem make_again (response : HttpResponse) :
    response.make.2.make.1 = response.make.1 := by
  have same := response.finalHeaders_final
  simp only [make_text, fields, same]
  rfl

end HttpResponse

/-- The codes that `make` has a status line for. -/
def Served (code : Int) : Prop :=
  code = 200 ∨ code = 302 ∨ code = 404 ∨ code = 500

instance (code : Int) : Decidable (Served code) :=
  inferInstanceAs (Decidable (code = 200 ∨ _))

theorem statusLine_served {code : Int} (served : Served code) :
    ∃ status, statusLine code = status ++ crlf ∧ status ≠ [] ∧
      (13 : UInt8) ∉ status ∧
      HttpMessage.statusCode status = some code.toNat ∧
      ascii "HTTP/1.1 " ++ printInt code ++ [32] <+: status := by
  rcases served with rfl | rfl | rfl | rfl
  · exact ⟨ascii "HTTP/1.1 200 OK", by decide +kernel⟩
  · exact ⟨ascii "HTTP/1.1 302 Temporarily Moved", by decide +kernel⟩
  · exact ⟨ascii "HTTP/1.1 404 Not Found", by decide +kernel⟩
  · exact ⟨ascii "HTTP/1.1 500 Internal Server Error", by decide +kernel⟩

theorem statusLine_of_not_served {code : Int} (unserved : ¬ Served code) :
    statusLine code = [] := by
  simp only [Served, not_or] at unserved
  obtain ⟨not200, not302, not404, not500⟩ := unserved
  simp only [statusLine, if_neg not200, if_neg not302, if_neg not404,
    if_neg not500]

namespace HttpResponse

variable {response : HttpResponse}

open HttpMessage

/-- Every header can be written on a line of its own. -/
def Clean (response : HttpResponse) : Prop :=
  ∀ field ∈ response.headers.toList, CleanField field

instance (response : HttpResponse) : Decidable response.Clean :=
  inferInstanceAs (Decidable (∀ field ∈ response.headers.toList, _))

theorem mem_finalHeaders {key value : Bytes} :
    (key, value) ∈ response.finalHeaders.toList ↔
      key ≠ ascii "Content-Length" ∧
        (key = ascii "Connection" ∧ value = ascii "close" ∨
          key ≠ ascii "Connection" ∧ response.headers[key]? = some value) := by
  rw [Std.ExtTreeMap.mem_toList_iff_getElem?_eq_some, finalHeaders,
    Std.ExtTreeMap.getElem?_erase, Std.ExtTreeMap.getElem?_insert]
  by_cases isLength : key = ascii "Content-Length"
  · simp [isLength]
  · by_cases isConnection : key = ascii "Connection"
    · subst isConnection
      have apart : compare (ascii "Content-Length") (ascii "Connection") ≠
          .eq := by decide
      rw [if_neg apart]
      simp [isLength]
      exact eq_comm
    · simp [isLength, isConnection, Ne.symm isLength, Ne.symm isConnection]

theorem fields_clean (clean : response.Clean) :
    ∀ field ∈ response.fields, CleanField field := by
  rintro ⟨key, value⟩ member
  rcases List.mem_append.mp member with stored | last
  · rcases (mem_finalHeaders.mp stored).2 with ⟨rfl, rfl⟩ | ⟨_, present⟩
    · exact ⟨by decide, by decide, by decide, by decide⟩
    · exact clean (key, value)
        (Std.ExtTreeMap.mem_toList_iff_getElem?_eq_some.mpr present)
  · obtain ⟨rfl, rfl⟩ := Prod.mk.inj (List.mem_singleton.mp last)
    have label : ascii "Content-Length" ≠ [] ∧
        (58 : UInt8) ∉ ascii "Content-Length" ∧
        (13 : UInt8) ∉ ascii "Content-Length" := by decide
    refine ⟨label.1, label.2.1, label.2.2, ?_⟩
    intro isReturn
    exact (printNat_avoids (by omega) (by omega) _ 13 isReturn).2.1 rfl

/-- The lines of a response that is written with a status line. -/
theorem headLines_str (served : Served response.code)
    (clean : response.Clean) :
    ∃ status, headLines [] response.str.1 =
        some (status :: response.fields.map fieldLine, response.body) ∧
      statusCode status = some response.code.toNat ∧
      ascii "HTTP/1.1 " ++ printInt response.code ++ [32] <+:
        response.str.1 := by
  obtain ⟨status, isLine, nonempty, unbroken, isCode, begins⟩ :=
    statusLine_served served
  have lines : ∀ line ∈ status :: response.fields.map fieldLine,
      line ≠ [] ∧ (13 : UInt8) ∉ line := by
    intro line member
    rcases List.mem_cons.mp member with rfl | isField
    · exact ⟨nonempty, unbroken⟩
    · obtain ⟨field, isMember, rfl⟩ := List.mem_map.mp isField
      exact (fields_clean clean field isMember).line
  have text : response.str.1 =
      ((status :: response.fields.map fieldLine).map (· ++ crlf)).flatten ++
        crlf ++ response.body := by
    rw [str, make_text, isLine]
    simp
  refine ⟨status, ?_, isCode, ?_⟩
  · rw [text]
    exact headLines_lines _ _ lines
  · refine begins.trans ?_
    rw [text]
    simp

theorem lower_length_ne_connection :
    lower (ascii "Connection") ≠ lower (ascii "Content-Length") := by
  decide

/-- No header has the name of one that `make` writes itself. -/
def Unframed (response : HttpResponse) : Prop :=
  ∀ field ∈ response.headers.toList,
    lower field.1 ≠ lower (ascii "Content-Length") ∧
      lower field.1 ≠ lower (ascii "Connection")

instance (response : HttpResponse) : Decidable response.Unframed :=
  inferInstanceAs (Decidable (∀ field ∈ response.headers.toList, _))

/-- Every header with this name, whatever its case, is spelled so. -/
def Spelled (response : HttpResponse) (name : Bytes) : Prop :=
  ∀ field ∈ response.headers.toList,
    lower field.1 = lower name → field.1 = name

instance (response : HttpResponse) (name : Bytes) :
    Decidable (response.Spelled name) :=
  inferInstanceAs (Decidable (∀ field ∈ response.headers.toList, _ → _))

theorem named_length (spelled : response.Spelled (ascii "Content-Length")) :
    named (ascii "Content-Length") response.fields =
      [(ascii "Content-Length", printNat 10 response.body.length)] := by
  have others : named (ascii "Content-Length")
      response.finalHeaders.toList = [] := by
    apply List.filter_eq_nil_iff.mpr
    rintro ⟨key, value⟩ member same
    obtain ⟨different, stored⟩ := mem_finalHeaders.mp member
    have isLength := of_decide_eq_true same
    rcases stored with ⟨rfl, _⟩ | ⟨_, present⟩
    · exact lower_length_ne_connection isLength
    · exact different (spelled (key, value)
        (Std.ExtTreeMap.mem_toList_iff_getElem?_eq_some.mpr present) isLength)
  have split : named (ascii "Content-Length") response.fields =
      named (ascii "Content-Length") response.finalHeaders.toList ++
        [(ascii "Content-Length", printNat 10 response.body.length)] := by
    simp [named, fields]
  rw [split, others, List.nil_append]

theorem fields_perm (unframed : response.Unframed) :
    response.fields.Perm
      ((response.headers.insert (ascii "Connection") (ascii "close")).insert
        (ascii "Content-Length")
        (printNat 10 response.body.length)).toList := by
  have absent : ascii "Content-Length" ∉
      response.headers.insert (ascii "Connection") (ascii "close") := by
    rw [Std.ExtTreeMap.mem_insert]
    rintro (same | present)
    · exact absurd same (by decide)
    · obtain ⟨value, isValue⟩ := Option.isSome_iff_exists.mp
        (Std.ExtTreeMap.mem_iff_isSome_getElem?.mp present)
      exact (unframed (ascii "Content-Length", value)
        (Std.ExtTreeMap.mem_toList_iff_getElem?_eq_some.mpr isValue)).1 rfl
  have kept : response.finalHeaders =
      response.headers.insert (ascii "Connection") (ascii "close") := by
    ext key
    rw [finalHeaders, Std.ExtTreeMap.getElem?_erase]
    split
    · rename_i same
      obtain rfl := Std.LawfulEqCmp.eq_of_compare same
      rw [Std.ExtTreeMap.getElem?_eq_none absent]
    · rfl
  have added := OrderedMap.toList_perm_insert _ absent
    (printNat 10 response.body.length)
  rw [fields, kept]
  exact (List.perm_append_singleton _ _).trans added.symm

/-- Reading a response gives back its code, its headers with the two that
`make` adds, and its body. -/
theorem str_round_trip (response : HttpResponse)
    (served : Served response.code) (clean : response.Clean)
    (unframed : response.Unframed) :
    (∃ message, HttpMessage.read response.str.1 = some message ∧
      (message.code : Int) = response.code ∧
      message.fields.Perm
        ((response.headers.insert (ascii "Connection") (ascii "close")).insert
          (ascii "Content-Length")
          (printNat 10 response.body.length)).toList ∧
      message.body = response.body ∧ message.rest = []) ∧
    response.str.2.str.1 = response.str.1 := by
  obtain ⟨status, lines, isCode, _⟩ := headLines_str served clean
  have isLength : announced response.fields = some response.body.length := by
    have one := named_length fun field member same =>
      absurd same (unframed field member).1
    simp only [announced, one, Resp.number_printNat]
  have isFields : readFields (response.fields.map fieldLine) =
      some response.fields := readFields_fieldLine (fields_clean clean)
  have isRead : HttpMessage.read response.str.1 = some
      { code := response.code.toNat
        fields := response.fields
        body := response.body
        rest := [] } := by
    simp [HttpMessage.read, lines, isCode, isFields, isLength]
  have nonnegative : (response.code.toNat : Int) = response.code := by
    apply Int.toNat_of_nonneg
    rcases served with is | is | is | is <;> simp [is]
  exact ⟨⟨_, isRead, nonnegative, fields_perm unframed, rfl, rfl⟩,
    make_again response⟩

namespace Example

/-- A page with a header of its own, whose text looks like a header block. -/
def page : HttpResponse :=
  ({} : HttpResponse).header (ascii "X-Trace") (ascii "a: b")
    |>.respond (ascii "x\r\n\r\ny") (ascii "text/plain")

theorem str_round_trip_page :
    ∃ message, HttpMessage.read page.str.1 = some message ∧
      message.body = ascii "x\r\n\r\ny" := by
  obtain ⟨⟨message, isRead, _, _, isBody, _⟩, _⟩ := str_round_trip page
    (by decide) (by decide +kernel) (by decide +kernel)
  exact ⟨message, isRead, isBody⟩

end Example

end HttpResponse

end Natsu.Http
