import Natsu.Http.Response

/-!
# How responses are framed

Header names differ by case for the map of a response, but not for its reader,
and a code without a status line leaves the first header in its place.
-/

namespace Natsu.Http

open Natsu.Foundation HttpMessage

/-- The calls by which a handler builds a response. -/
inductive ResponseCall where
  | header (key value : Bytes)
  | response (resp ct : Bytes)
  | responseCode (code : Int)
  | redirect (u : Bytes)

namespace ResponseCall

def apply (response : HttpResponse) : ResponseCall → HttpResponse
  | header key value => response.header key value
  | .response resp ct => response.respond resp ct
  | responseCode code => response.respondCode code
  | redirect u => response.redirect u

def Unbroken (bytes : Bytes) : Prop :=
  (13 : UInt8) ∉ bytes ∧ (10 : UInt8) ∉ bytes

/-- Header names are not empty and have no colon, and nothing that becomes
part of a header breaks its line. -/
def Clean : ResponseCall → Prop
  | header key value =>
      key ≠ [] ∧ (58 : UInt8) ∉ key ∧ Unbroken key ∧ Unbroken value
  | .response _ ct => Unbroken ct
  | responseCode _ => True
  | redirect u => Unbroken u

/-- A header that `make` writes itself is only set under its own spelling. -/
def Canonical : ResponseCall → Prop
  | header key _ =>
      (lower key = lower (ascii "Content-Length") →
        key = ascii "Content-Length") ∧
      (lower key = lower (ascii "Connection") → key = ascii "Connection")
  | _ => True

/-- The header that a call sets. -/
def field? : ResponseCall → Option (Bytes × Bytes)
  | header key value => some (key, value)
  | .response _ ct => some (ascii "Content-Type", ct)
  | responseCode _ => none
  | redirect u => some (ascii "Location", u)

def code? : ResponseCall → Option Int
  | responseCode code => some code
  | redirect _ => some 302
  | _ => none

end ResponseCall

/-- The response that a new one becomes. -/
def built (calls : List ResponseCall) : HttpResponse :=
  calls.foldl ResponseCall.apply {}

/-- The code that the last call to set one has set. -/
def lastCode (calls : List ResponseCall) : Int :=
  calls.foldl (fun code call => call.code?.getD code) 200

/-- The text begins with the status line of the current code, and has one
length, that of the body, and one connection header. -/
structure WellFramed (response : HttpResponse) : Prop where
  status : ascii "HTTP/1.1 " ++ printInt response.code ++ [32] <+:
    response.str.1
  length : ∃ fields, headFields response.str.1 = some fields ∧
    (named (ascii "Content-Length") fields).map Prod.snd =
      [printNat 10 response.body.length]
  connection : ∃ fields, headFields response.str.1 = some fields ∧
    (named (ascii "Connection") fields).length = 1

section Calls

theorem code_built (calls : List ResponseCall) :
    (built calls).code = lastCode calls := by
  have steps : ∀ (calls : List ResponseCall) (response : HttpResponse),
      (calls.foldl ResponseCall.apply response).code =
        calls.foldl (fun code call => call.code?.getD code) response.code := by
    intro calls
    induction calls with
    | nil => exact fun _ => rfl
    | cons call calls induction =>
        intro response
        have here : (call.apply response).code =
            call.code?.getD response.code := by
          cases call <;> rfl
        rw [List.foldl_cons, List.foldl_cons, induction, here]
  exact steps calls {}

/-- A call sets at most its own header. -/
theorem headers_apply (response : HttpResponse) (call : ResponseCall) :
    (call.apply response).headers =
      match call.field? with
      | some (key, value) => response.headers.insert key value
      | none => response.headers := by
  cases call <;> rfl

theorem keys_apply (response : HttpResponse) (call : ResponseCall)
    (key : Bytes) :
    key ∈ (call.apply response).headers ↔
      call.field?.map Prod.fst = some key ∨ key ∈ response.headers := by
  rw [headers_apply]
  cases call.field? with
  | none => simp
  | some field =>
      rw [Std.ExtTreeMap.mem_insert]
      simp

theorem keys_built (calls : List ResponseCall) (key : Bytes) :
    key ∈ (built calls).headers ↔
      ∃ call ∈ calls, call.field?.map Prod.fst = some key := by
  have steps : ∀ (calls : List ResponseCall) (response : HttpResponse),
      key ∈ (calls.foldl ResponseCall.apply response).headers ↔
        (∃ call ∈ calls, call.field?.map Prod.fst = some key) ∨
          key ∈ response.headers := by
    intro calls
    induction calls with
    | nil => simp
    | cons call calls induction =>
        intro response
        rw [List.foldl_cons, induction, keys_apply]
        simp only [List.mem_cons, exists_eq_or_imp]
        rw [or_left_comm, or_assoc]
  have fromNew := steps calls {}
  rwa [or_iff_left Std.ExtTreeMap.not_mem_empty] at fromNew

theorem ResponseCall.Clean.field {call : ResponseCall} (clean : call.Clean) :
    ∀ field ∈ call.field?, CleanField field := by
  intro field isField
  cases call with
  | header key value =>
      obtain rfl := Option.some.inj isField
      obtain ⟨nonempty, noColon, name, text⟩ := clean
      exact ⟨nonempty, noColon, name.1, text.1⟩
  | response resp ct =>
      obtain rfl := Option.some.inj isField
      have label : ascii "Content-Type" ≠ [] ∧
          (58 : UInt8) ∉ ascii "Content-Type" ∧
          (13 : UInt8) ∉ ascii "Content-Type" := by decide
      exact ⟨label.1, label.2.1, label.2.2, clean.1⟩
  | responseCode code => simp [field?] at isField
  | redirect u =>
      obtain rfl := Option.some.inj isField
      have label : ascii "Location" ≠ [] ∧ (58 : UInt8) ∉ ascii "Location" ∧
          (13 : UInt8) ∉ ascii "Location" := by decide
      exact ⟨label.1, label.2.1, label.2.2, clean.1⟩

theorem clean_apply {response : HttpResponse} {call : ResponseCall}
    (clean : call.Clean) (before : response.Clean) :
    (call.apply response).Clean := by
  rintro ⟨key, value⟩ member
  rw [headers_apply] at member
  cases isField : call.field? with
  | none =>
      rw [isField] at member
      exact before _ member
  | some field =>
      rw [isField] at member
      rcases OrderedMap.mem_toList_insert _ member with same | earlier
      · rw [same]
        exact clean.field field isField
      · exact before _ earlier

theorem clean_built {calls : List ResponseCall}
    (clean : ∀ call ∈ calls, call.Clean) : (built calls).Clean := by
  refine List.foldlRecOn calls ResponseCall.apply ?_ ?_
  · simp [HttpResponse.Clean]
  · intro response before call member
    exact clean_apply (clean call member) before

end Calls

section Framing

variable {response : HttpResponse}

/-- A header under another spelling is written. -/
theorem mem_finalHeaders_of_misspelled {name key value : Bytes}
    (known : name = ascii "Content-Length" ∨ name = ascii "Connection")
    (present : (key, value) ∈ response.headers.toList)
    (same : lower key = lower name) (different : key ≠ name) :
    (key, value) ∈ response.finalHeaders.toList := by
  have stored := Std.ExtTreeMap.mem_toList_iff_getElem?_eq_some.mp present
  rcases known with rfl | rfl
  · have other : key ≠ ascii "Connection" := by
      rintro rfl
      exact HttpResponse.lower_length_ne_connection same
    exact HttpResponse.mem_finalHeaders.mpr
      ⟨different, .inr ⟨other, stored⟩⟩
  · have other : key ≠ ascii "Content-Length" := by
      rintro rfl
      exact HttpResponse.lower_length_ne_connection same.symm
    exact HttpResponse.mem_finalHeaders.mpr
      ⟨other, .inr ⟨different, stored⟩⟩

theorem named_length_iff :
    (named (ascii "Content-Length") response.fields).map Prod.snd =
        [printNat 10 response.body.length] ↔
      response.Spelled (ascii "Content-Length") := by
  constructor
  · rintro one ⟨key, value⟩ present same
    by_contra different
    have written := mem_finalHeaders_of_misspelled (.inl rfl) present same
      different
    have listed : (key, value) ∈ named (ascii "Content-Length")
        response.finalHeaders.toList :=
      List.mem_filter.mpr ⟨written, decide_eq_true same⟩
    have split : named (ascii "Content-Length") response.fields =
        named (ascii "Content-Length") response.finalHeaders.toList ++
          [(ascii "Content-Length", printNat 10 response.body.length)] := by
      simp [named, HttpResponse.fields]
    have positive := List.length_pos_of_mem listed
    have count := congrArg List.length one
    rw [split] at count
    simp only [List.length_map, List.length_append, List.length_singleton]
      at count
    omega
  · intro spelled
    rw [HttpResponse.named_length spelled]
    rfl

theorem named_connection_iff :
    (named (ascii "Connection") response.fields).length = 1 ↔
      response.Spelled (ascii "Connection") := by
  have isClose : response.finalHeaders[ascii "Connection"]? =
      some (ascii "close") := by
    apply Std.ExtTreeMap.mem_toList_iff_getElem?_eq_some.mp
    exact HttpResponse.mem_finalHeaders.mpr ⟨by decide, .inl ⟨rfl, rfl⟩⟩
  have entries := OrderedMap.toList_perm_erase response.finalHeaders isClose
  have others : (named (ascii "Connection") response.fields).Perm
      ((ascii "Connection", ascii "close") :: named (ascii "Connection")
        (response.finalHeaders.erase (ascii "Connection")).toList) := by
    have notLength : named (ascii "Connection") response.fields =
        named (ascii "Connection") response.finalHeaders.toList := by
      simp [named, HttpResponse.fields,
        HttpResponse.lower_length_ne_connection.symm]
    rw [notLength]
    refine (entries.filter _).trans ?_
    simp [named]
  have count : (named (ascii "Connection") response.fields).length = 1 ↔
      named (ascii "Connection")
        (response.finalHeaders.erase (ascii "Connection")).toList = [] := by
    rw [others.length_eq, List.length_cons, Nat.add_eq_right,
      List.length_eq_zero_iff]
  rw [count]
  constructor
  · rintro none ⟨key, value⟩ present same
    by_contra different
    have written := mem_finalHeaders_of_misspelled (.inr rfl) present same
      different
    have left : (key, value) ∈
        (response.finalHeaders.erase (ascii "Connection")).toList := by
      rcases List.mem_cons.mp (entries.subset written) with isFirst | isOther
      · exact absurd (Prod.mk.inj isFirst).1 different
      · exact isOther
    exact List.filter_eq_nil_iff.mp none _ left (decide_eq_true same)
  · intro spelled
    apply List.filter_eq_nil_iff.mpr
    rintro ⟨key, value⟩ member same
    have remains := Std.ExtTreeMap.mem_toList_iff_getElem?_eq_some.mp member
    rw [Std.ExtTreeMap.getElem?_erase] at remains
    split at remains
    · simp at remains
    · rename_i different
      have written := HttpResponse.mem_finalHeaders.mp
        (Std.ExtTreeMap.mem_toList_iff_getElem?_eq_some.mpr remains)
      rcases written.2 with ⟨rfl, _⟩ | ⟨other, stored⟩
      · exact different Std.ReflCmp.compare_self
      · exact other (spelled (key, value)
          (Std.ExtTreeMap.mem_toList_iff_getElem?_eq_some.mpr stored)
          (of_decide_eq_true same))

/-- Without a status line the text begins with a header name that is not
behind `Connection`, or with a colon. -/
theorem first_byte (unserved : ¬ Served response.code) :
    ∃ byte, response.str.1.head? = some byte ∧ byte ≤ 67 := by
  have connection : (ascii "Connection", ascii "close") ∈
      response.finalHeaders.toList :=
    HttpResponse.mem_finalHeaders.mpr ⟨by decide, .inl ⟨rfl, rfl⟩⟩
  have ordered := response.finalHeaders.ordered_keys_toList
  cases entries : response.finalHeaders.toList with
  | nil => simp [entries] at connection
  | cons field others =>
      obtain ⟨key, value⟩ := field
      rw [entries] at connection ordered
      have text : response.str.1 = HttpMessage.fieldLine (key, value) ++ crlf ++
          (((others ++ [(ascii "Content-Length",
              printNat 10 response.body.length)]).map
            HttpMessage.fieldLine).map (· ++ crlf)).flatten ++ crlf ++
          response.body := by
        rw [HttpResponse.str, HttpResponse.make_text,
          statusLine_of_not_served unserved, HttpResponse.fields, entries]
        simp
      cases key with
      | nil =>
          refine ⟨58, ?_, by decide⟩
          simp [text, HttpMessage.fieldLine, ascii]
      | cons byte rest =>
          refine ⟨byte, ?_, ?_⟩
          · simp [text, HttpMessage.fieldLine]
          · rcases List.mem_cons.mp connection with isFirst | later
            · have isConnection := (List.cons.inj (Prod.mk.inj isFirst).1).1
              rw [← isConnection]
              decide
            · have before := (List.pairwise_cons.mp ordered).1 _ later
              by_contra behind
              have after : compare byte 67 = .gt :=
                Std.compare_eq_gt.mpr (UInt8.not_le.mp behind)
              simp [ascii, after] at before

theorem wellFramed_iff (clean : response.Clean) :
    WellFramed response ↔ Served response.code ∧
      response.Spelled (ascii "Content-Length") ∧
      response.Spelled (ascii "Connection") := by
  by_cases served : Served response.code
  · obtain ⟨status, lines, _, begins⟩ :=
      HttpResponse.headLines_str served clean
    have isFields : headFields response.str.1 = some response.fields := by
      simp only [headFields, lines, Option.bind_some, List.tail_cons]
      exact readFields_fieldLine (HttpResponse.fields_clean clean)
    constructor
    · rintro ⟨_, ⟨fields, isLength, one⟩, ⟨others, isConnection, single⟩⟩
      obtain rfl := Option.some.inj (isFields.symm.trans isLength)
      obtain rfl := Option.some.inj (isFields.symm.trans isConnection)
      exact ⟨served, named_length_iff.mp one, named_connection_iff.mp single⟩
    · rintro ⟨_, length, connection⟩
      exact ⟨begins, ⟨_, isFields, named_length_iff.mpr length⟩,
        ⟨_, isFields, named_connection_iff.mpr connection⟩⟩
  · refine iff_of_false ?_ fun framed => served framed.1
    rintro ⟨⟨after, begins⟩, _, _⟩
    obtain ⟨byte, isFirst, early⟩ := first_byte served
    have isH : response.str.1.head? = some 72 := by
      rw [← begins]
      rfl
    obtain rfl : byte = 72 := Option.some.inj (isFirst.symm.trans isH)
    exact absurd early (by decide)

end Framing

theorem canonical_iff (calls : List ResponseCall) :
    (built calls).Spelled (ascii "Content-Length") ∧
        (built calls).Spelled (ascii "Connection") ↔
      ∀ call ∈ calls, call.Canonical := by
  have spelled : ∀ name, (built calls).Spelled name ↔
      ∀ call ∈ calls, ∀ key, call.field?.map Prod.fst = some key →
        lower key = lower name → key = name := by
    intro name
    constructor
    · intro spelled call member key sets same
      have known := (keys_built calls key).mpr ⟨call, member, sets⟩
      obtain ⟨value, stored⟩ := Option.isSome_iff_exists.mp
        (Std.ExtTreeMap.mem_iff_isSome_getElem?.mp known)
      exact spelled (key, value)
        (Std.ExtTreeMap.mem_toList_iff_getElem?_eq_some.mpr stored) same
    · rintro each ⟨key, value⟩ present same
      have stored := Std.ExtTreeMap.mem_toList_iff_getElem?_eq_some.mp present
      have known : key ∈ (built calls).headers := by
        rw [Std.ExtTreeMap.mem_iff_isSome_getElem?, stored]
        rfl
      obtain ⟨call, member, sets⟩ := (keys_built calls key).mp known
      exact each call member key sets same
  rw [spelled, spelled, ← forall₂_and]
  refine forall₂_congr fun call member => ?_
  cases call with
  | header key value =>
      simp [ResponseCall.field?, ResponseCall.Canonical]
  | response resp ct =>
      have unlike : lower (ascii "Content-Type") ≠
            lower (ascii "Content-Length") ∧
          lower (ascii "Content-Type") ≠ lower (ascii "Connection") := by
        decide
      simp [ResponseCall.field?, ResponseCall.Canonical, unlike]
  | responseCode code => simp [ResponseCall.field?, ResponseCall.Canonical]
  | redirect u =>
      have unlike : lower (ascii "Location") ≠
            lower (ascii "Content-Length") ∧
          lower (ascii "Location") ≠ lower (ascii "Connection") := by
        decide
      simp [ResponseCall.field?, ResponseCall.Canonical, unlike]

/-- A response is well framed exactly when the last code has a status line and
no header imitates one that `make` writes. -/
theorem built_wellFramed_iff {calls : List ResponseCall}
    (clean : ∀ call ∈ calls, call.Clean) :
    WellFramed (built calls) ↔
      Served (lastCode calls) ∧ ∀ call ∈ calls, call.Canonical := by
  rw [wellFramed_iff (clean_built clean), code_built, canonical_iff]

namespace Example

open ResponseCall

theorem built_wellFramed_iff_redirect :
    WellFramed (built [.header (ascii "Connection") (ascii "keep-alive"),
      .redirect (ascii "/login")]) := by
  refine (built_wellFramed_iff ?_).mpr ⟨by decide, ?_⟩
  · simp [ResponseCall.Clean, Unbroken, ascii]
  · simp [ResponseCall.Canonical, ascii, lower, tolower]

/-- A code without a status line, and two headers that differ only in case
from those that are written. -/
theorem responses_ill_framed :
    ¬ WellFramed (built [.responseCode 403]) ∧
      ¬ WellFramed (built [.header (ascii "content-length") (ascii "7")]) ∧
      ¬ WellFramed (built [.header (ascii "connection") (ascii "close")]) := by
  refine ⟨?_, ?_, ?_⟩
  · rw [wellFramed_iff (by decide +kernel)]
    exact fun framed => absurd framed.1 (by decide)
  · rw [wellFramed_iff (by decide +kernel)]
    exact fun framed => absurd framed.2.1 (by decide +kernel)
  · rw [wellFramed_iff (by decide +kernel)]
    exact fun framed => absurd framed.2.2 (by decide +kernel)

end Example

end Natsu.Http
