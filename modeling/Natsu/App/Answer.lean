import Natsu.App.Handle
import Natsu.Http.MatchCopies
import Natsu.Http.ResponseFraming

/-!
# Answering a request

The case `natsu::success` of `NatsuApp::handle`.  Handlers and the functions of
an `Inject` change the request and the response they are given, and return or
throw.  `before` and `after` are given the pointer to the request by reference,
and may turn it to another object than the one that the parser holds, which is
the one that `fail` is given.  An application always has an `Inject`, and the
`fail` of the one it has by default does nothing, so that the response of a
handler that throws is sent as the handler has left it.
-/

namespace Natsu.App

open Natsu.Foundation Natsu.Http

inductive Completion where
  | returned
  | threw
  deriving DecidableEq

/-- How a call ends, and the request and the response after it. -/
abbrev Done := Completion × HttpRequest × HttpResponse

abbrev Handler := HttpRequest → HttpResponse → Done

def idle : Handler := fun req resp => (.returned, req, resp)

/-- The request that the parser holds, and the one that `req` points to where
a hook has turned it to another. -/
structure Requests where
  held : HttpRequest
  other : Option HttpRequest := none

namespace Requests

/-- `*req`. -/
def req (requests : Requests) : HttpRequest :=
  requests.other.getD requests.held

/-- A handler has changed `*req`. -/
def set (requests : Requests) (req : HttpRequest) : Requests :=
  match requests.other with
  | some _ => { requests with other := some req }
  | none => { requests with held := req }

end Requests

abbrev Attempted := Completion × Requests × HttpResponse

abbrev Hook := Requests → HttpResponse → Attempted

def pass : Hook := fun requests resp => (.returned, requests, resp)

structure Inject where
  before : Hook := pass
  after : Hook := pass
  fail : Handler := idle

/-- What the attempt to answer comes to: the text of the response, or an
exception that leaves `handle`. -/
inductive Answer where
  | text (bytes : Bytes)
  | escaped

def Answer.event : Answer → Event
  | text bytes => .responded bytes
  | escaped => .escaped

section

variable {Rule : Type} (pcre : Pcre Rule)
  (sort : List MatchResult → List MatchResult)
  (router : HttpRouter Rule Handler) (inject : Option Inject)

/-- `HttpRouter::instance().handle(req, resp)`. -/
def perform (req : HttpRequest) (resp : HttpResponse) : Option Done :=
  (router.handle pcre sort req resp).map fun
    | .invoke handler => handler req resp
    | .throwBadFunctionCall => (.threw, req, resp)
    | .answer resp => (.returned, req, resp)
    | .nothing => (.returned, req, resp)

/-- `if(inject_) inject_->hook(req, resp)`. -/
def hook (which : Inject → Hook) : Hook :=
  match inject with
  | some inject => which inject
  | none => pass

/-- The `try` block.  There is no result where routing has none. -/
def attempt (req : HttpRequest) : Option Attempted :=
  match hook inject Inject.before { held := req } {} with
  | (.threw, requests, resp) => some (.threw, requests, resp)
  | (.returned, requests, resp) =>
      if resp.empty then
        (perform pcre sort router requests.req resp).map fun
          | (.threw, req, resp) => (.threw, requests.set req, resp)
          | (.returned, req, resp) =>
              hook inject Inject.after (requests.set req) resp
      else some (.returned, requests, resp)

/-- The `catch` block, and `resp->str()`. -/
def conclude : Attempted → Answer
  | (.returned, _, resp) => .text resp.str.1
  | (.threw, requests, resp) =>
      match inject with
      | some inject =>
          -- `parser.request()`, whatever `req` points to.
          match inject.fail requests.held resp with
          | (.returned, _, resp) => .text resp.str.1
          | (.threw, _, _) => .escaped
      | none => .text (resp.respondCode 500).str.1

/-- The answer to the request that the parser holds. -/
def Handle.answer (handle : Handle) : Option Answer :=
  handle.parser.req.bind fun req =>
    (attempt pcre sort router inject req).map (conclude inject)

end

/-- The handler makes these calls on a new response, and throws. -/
def ThrowsAfter (handler : Handler) (req : HttpRequest)
    (calls : List ResponseCall) : Prop :=
  ∃ changed, handler req {} = (.threw, changed, built calls)

/-- The text of a response with code 500 and no body.  Its headers are those
that were set, or can each be written on a line. -/
def FailureText (headers : Std.ExtTreeMap Bytes Bytes) (text : Bytes) : Prop :=
  ∃ response : HttpResponse, response.code = 500 ∧ response.body = [] ∧
    (response.headers = headers ∨ response.Clean) ∧ text = response.str.1

/-- What is written next is the text of such a response. -/
def FailureAnswered {Rule : Type} (pcre : Pcre Rule)
    (sort : List MatchResult → List MatchResult)
    (router : HttpRouter Rule Handler) (inject : Option Inject)
    (handle : Handle) (headers : Std.ExtTreeMap Bytes Bytes) : Prop :=
  ∃ answer next text, handle.answer pcre sort router inject = some answer ∧
    handle.step answer.event = some next ∧ next.stage = .writing text ∧
    FailureText headers text

section Texts

variable {response left : HttpResponse}

theorem str_begins (served : Served response.code) :
    ascii "HTTP/1.1 " ++ printInt response.code ++ [32] <+:
      response.str.1 := by
  obtain ⟨status, isLine, _, _, _, begins⟩ := statusLine_served served
  refine begins.trans ?_
  rw [HttpResponse.str, HttpResponse.make_text, isLine]
  simp

/-- The empty line before the body. -/
theorem str_ends (response : HttpResponse) :
    crlf ++ (crlf ++ response.body) <:+ response.str.1 := by
  refine ⟨statusLine response.code ++ (((response.finalHeaders.toList).map
      HttpMessage.fieldLine).map (· ++ crlf)).flatten ++
    HttpMessage.fieldLine (ascii "Content-Length",
      printNat 10 response.body.length), ?_⟩
  rw [HttpResponse.str, HttpResponse.make_text, HttpResponse.fields]
  simp

/-- The text tells the code 500 from every other. -/
theorem code_of_text (isFailure : response.code = 500)
    (same : left.str.1 = response.str.1) : left.code = 500 := by
  have isServed : Served response.code := .inr (.inr (.inr isFailure))
  have begins := str_begins isServed
  rw [isFailure, ← same] at begins
  by_cases served : Served left.code
  · have mine := str_begins served
    have apart : ∀ code ∈ [(200 : Int), 302, 404],
        ¬ ascii "HTTP/1.1 " ++ printInt code ++ [32] <+:
          ascii "HTTP/1.1 " ++ printInt 500 ++ [32] := by decide
    have lengths : ∀ code ∈ [(200 : Int), 302, 404],
        (ascii "HTTP/1.1 " ++ printInt code ++ [32]).length ≤
          (ascii "HTTP/1.1 " ++ printInt 500 ++ [32]).length := by decide
    by_contra other
    have member : left.code ∈ [(200 : Int), 302, 404] := by
      rcases served with isCode | isCode | isCode | isCode
      · simp [isCode]
      · simp [isCode]
      · simp [isCode]
      · exact absurd isCode other
    exact apart _ member (List.prefix_of_prefix_length_le mine begins
      (lengths _ member))
  · obtain ⟨byte, isFirst, early⟩ := first_byte served
    obtain ⟨after, isText⟩ := begins
    have isH : left.str.1.head? = some 72 := by
      rw [← isText]
      rfl
    obtain rfl : byte = 72 := Option.some.inj (isFirst.symm.trans isH)
    exact absurd early (by decide)

/-- With the same headers a body makes the text longer. -/
theorem body_of_same_headers (isFailure : response.code = 500)
    (isEmpty : response.body = []) (isLeft : left.code = 500)
    (headers : response.headers = left.headers)
    (same : left.str.1 = response.str.1) : left.body = [] := by
  have finals : response.finalHeaders = left.finalHeaders := by
    rw [HttpResponse.finalHeaders, headers, HttpResponse.finalHeaders]
  have lengths := congrArg List.length same
  simp only [HttpResponse.str, HttpResponse.make, isFailure, isLeft, finals,
    isEmpty, List.length_append, List.length_nil] at lengths
  have digit : (printNat 10 0).length = 1 := by decide
  have digits := List.length_pos_iff.mpr (printNat_ne_nil 10 left.body.length)
  apply List.length_eq_zero_iff.mp
  omega

theorem failureText_iff :
    FailureText left.headers left.str.1 ↔ left.code = 500 ∧ left.body = [] := by
  constructor
  · rintro ⟨response, isFailure, isEmpty, headers | clean, same⟩
    · have isLeft := code_of_text isFailure same
      exact ⟨isLeft,
        body_of_same_headers isFailure isEmpty isLeft headers same⟩
    · refine ⟨code_of_text isFailure same, ?_⟩
      have served : Served response.code := .inr (.inr (.inr isFailure))
      obtain ⟨status, isRead, _, _⟩ := HttpResponse.headLines_str served clean
      rw [← same, isEmpty] at isRead
      have isSuffix := HttpMessage.suffix_of_headLines isRead (str_ends left)
      exact List.suffix_nil.mp isSuffix
  · rintro ⟨isFailure, isEmpty⟩
    exact ⟨left, isFailure, isEmpty, .inl rfl, rfl⟩

end Texts

section Throwing

variable {Rule : Type} {pcre : Pcre Rule}
  {sort : List MatchResult → List MatchResult}
  {router : HttpRouter Rule Handler} {handle : Handle} {req : HttpRequest}
  {handler : Handler} {calls : List ResponseCall}

/-- With the default `Inject` the response is sent as the handler left it. -/
theorem answer_of_throw (isRequest : handle.parser.req = some req)
    (routed : router.handle pcre sort req {} = some (.invoke handler))
    (throws : ThrowsAfter handler req calls) :
    handle.answer pcre sort router (some {}) =
      some (.text (built calls).str.1) := by
  obtain ⟨changed, thrown⟩ := throws
  have fresh : ({} : HttpResponse).empty = true := by decide
  have performed : perform pcre sort router req {} =
      some (.threw, changed, built calls) := by
    simp only [perform, routed, Option.map_some, thrown]
  have attempted : attempt pcre sort router (some {}) req =
      some (.threw, { held := changed }, built calls) := by
    simp only [attempt, hook, pass, Requests.req, Option.getD_none,
      if_pos fresh, performed, Option.map_some, Requests.set]
  simp only [Handle.answer, isRequest, Option.bind_some, attempted,
    Option.map_some, conclude, idle]

theorem failureAnswered_iff {inject : Option Inject} {left : HttpResponse}
    (isResponding : handle.stage = .responding)
    (isAnswer : handle.answer pcre sort router inject =
      some (.text left.str.1)) :
    FailureAnswered pcre sort router inject handle left.headers ↔
      left.code = 500 ∧ left.body = [] := by
  have nonempty : left.str.1 ≠ [] := by
    obtain ⟨before, isText⟩ := str_ends left
    rw [← isText]
    simp [crlf]
  have stepped : handle.step (.responded left.str.1) =
      some (handle.writeNext left.str.1) := by
    simp only [Handle.step, isResponding]
  have writing : (handle.writeNext left.str.1).stage =
      .writing left.str.1 := by
    rw [Handle.writeNext, if_neg nonempty]
  rw [← failureText_iff]
  constructor
  · rintro ⟨answer, next, text, answered, nextStep, isWriting, isFailure⟩
    obtain rfl := Option.some.inj (isAnswer.symm.trans answered)
    obtain rfl := Option.some.inj (stepped.symm.trans nextStep)
    obtain rfl := Stage.writing.inj (writing.symm.trans isWriting)
    exact isFailure
  · intro isFailure
    exact ⟨_, _, _, isAnswer, stepped, writing, isFailure⟩

/-- A handler that throws is answered with 500 exactly when it has set that
itself. -/
theorem throw_answered_iff (isResponding : handle.stage = .responding)
    (isRequest : handle.parser.req = some req)
    (routed : router.handle pcre sort req {} = some (.invoke handler))
    (throws : ThrowsAfter handler req calls) :
    FailureAnswered pcre sort router (some {}) handle (built calls).headers ↔
      (built calls).code = 500 ∧ (built calls).body = [] :=
  failureAnswered_iff isResponding (answer_of_throw isRequest routed throws)

end Throwing

namespace Example

open PcreRegex

def request : HttpRequest where
  method := some .GET
  path := ascii "/boom"

def responding : Handle where
  parser := { req := some request }
  stage := .responding

def thrower (calls : List ResponseCall) : Handler := fun req resp =>
  (.threw, req, calls.foldl ResponseCall.apply resp)

def throwingRouter (calls : List ResponseCall) : HttpRouter Unit Handler :=
  emptyRouter.registerHandler matchRest (ascii "/boom") (thrower calls) .GET

theorem routed_to_thrower (calls : List ResponseCall) :
    (throwingRouter calls).handle matchRest id request {} =
      some (.invoke (thrower calls)) := by
  have rules : (throwingRouter calls).regexGet =
      (throwingRouter []).regexGet := rfl
  have matched : (throwingRouter []).regexGet.matchAll matchRest id
      (cstr request.document) = some [{
        name := ascii "/boom"
        value := [ascii "/boom"] }] := by
    decide +kernel
  have stored : (throwingRouter calls).handleGet[ascii "/boom"]? =
      some (thrower calls) := by
    simp [throwingRouter, HttpRouter.registerHandler]
  have named : (ascii "/boom").length ≠ 0 := by decide
  have routed : (throwingRouter calls).handle matchRest id request {} =
      HttpRouter.handleWith matchRest id (throwingRouter calls).handleGet
        (throwingRouter calls).regexGet request {} := rfl
  rw [routed, HttpRouter.handleWith, rules, matched]
  simp only [Option.map_some, HttpRouter.choose, if_pos named, stored]

theorem throws_after (calls : List ResponseCall) :
    ThrowsAfter (thrower calls) request calls :=
  ⟨request, rfl⟩

/-- The handler sets the code itself. -/
theorem throw_answered_iff_set :
    (built [.responseCode 500]).code = 500 ∧
      FailureAnswered matchRest id (throwingRouter [.responseCode 500])
        (some {}) responding (built [.responseCode 500]).headers :=
  ⟨rfl, (throw_answered_iff rfl rfl (routed_to_thrower _)
    (throws_after _)).mpr ⟨rfl, rfl⟩⟩

/-- A handler that throws at once, and one that has begun a page. -/
theorem throw_answered_as_success :
    ¬ FailureAnswered matchRest id (throwingRouter []) (some {}) responding
        (built []).headers ∧
      responding.answer matchRest id (throwingRouter []) (some {}) =
        some (.text (ascii
          "HTTP/1.1 200 OK\r\nConnection: close\r\nContent-Length: 0\r\n\r\n")) ∧
      ¬ FailureAnswered matchRest id
        (throwingRouter [.response (ascii "half") (ascii "text/plain")])
        (some {}) responding
        (built [.response (ascii "half") (ascii "text/plain")]).headers := by
  have isRequest : responding.parser.req = some request := rfl
  have atOnce := answer_of_throw isRequest (routed_to_thrower [])
    (throws_after [])
  have begun := answer_of_throw isRequest
    (routed_to_thrower [.response (ascii "half") (ascii "text/plain")])
    (throws_after _)
  have text : (built []).str.1 = ascii
      "HTTP/1.1 200 OK\r\nConnection: close\r\nContent-Length: 0\r\n\r\n" := by
    decide +kernel
  refine ⟨?_, text ▸ atOnce, ?_⟩
  · rw [failureAnswered_iff rfl atOnce]
    exact fun isFailure => absurd isFailure.1 (by decide)
  · rw [failureAnswered_iff rfl begun]
    exact fun isFailure => absurd isFailure.1 (by decide)

end Example

end Natsu.App
