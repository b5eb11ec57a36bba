import Mathlib.Data.List.Sort
import Natsu.App.Exchange
import Natsu.Http.Router

/-!
# From the request to the response

A client writes a request to an application with its default `Inject`, and
reads what is sent until the socket is closed.
-/

namespace Natsu.App

open Natsu.Foundation Natsu.Http

/-- A response that is written with a status line, and whose headers can be
told from those that `make` adds. -/
structure Presentable (response : HttpResponse) : Prop where
  served : Served response.code
  clean : response.Clean
  unframed : response.Unframed

/-- What a client reads is this response, with the two headers that `make`
adds. -/
structure ReadAs (message : HttpMessage.Message) (response : HttpResponse) :
    Prop where
  code : (message.code : Int) = response.code
  fields : message.fields.Perm
    ((response.headers.insert (ascii "Connection") (ascii "close")).insert
      (ascii "Content-Length") (printNat 10 response.body.length)).toList
  body : message.body = response.body
  rest : message.rest = []

theorem Presentable.read {response : HttpResponse}
    (presentable : Presentable response) :
    ∃ message, HttpMessage.read response.str.1 = some message ∧
      ReadAs message response := by
  obtain ⟨served, clean, unframed⟩ := presentable
  obtain ⟨status, lines, isCode, _⟩ := HttpResponse.headLines_str served clean
  have isFields := HttpMessage.readFields_fieldLine
    (HttpResponse.fields_clean clean)
  have one := HttpResponse.named_length fun field member same =>
    absurd same (unframed field member).1
  have isLength : HttpMessage.announced response.fields =
      some response.body.length := by
    rw [HttpMessage.announced, one]
    exact Resp.number_printNat _
  refine ⟨{
    code := response.code.toNat
    fields := response.fields
    body := response.body
    rest := [] }, ?_, ?_, HttpResponse.fields_perm unframed, rfl, rfl⟩
  · simp [HttpMessage.read, lines, isCode, isFields, isLength]
  · apply Int.toNat_of_nonneg
    rcases served with is | is | is | is <;> simp [is]

theorem presentable_notFound :
    Presentable (({} : HttpResponse).respondCode 404) :=
  ⟨by decide, by decide, by decide⟩

section Routing

variable {Rule : Type} (pcre : Pcre Rule)
  (registrations : List (Registration Handler))

/-- The response of the handler that was registered last for a pattern whose
first match is the longest, or a response with code 404 where no pattern
matches. -/
def Responds (method : Method) (req : HttpRequest) (response : HttpResponse) :
    Prop :=
  ((∀ registration ∈ registrations, registration.method = method →
      Registration.matchLength pcre registration.pattern req.document =
        none) ∧
    response = ({} : HttpResponse).respondCode 404) ∨
  ∃ registration handler changed,
    Registration.Longest pcre registrations method req.document registration ∧
    Registration.latest registrations method registration.pattern =
      some handler ∧
    handler req {} = (.returned, changed, response)

/-- Every handler returns from this request with such a response. -/
def AllPresentable (req : HttpRequest) : Prop :=
  ∀ registration ∈ registrations, ∃ changed response,
    registration.handler req {} = (.returned, changed, response) ∧
      Presentable response

variable {pcre registrations} {sort : List MatchResult → List MatchResult}
  {req : HttpRequest} {method : Method}

theorem mem_of_latest {pattern : Bytes} {handler : Handler}
    (isLatest : Registration.latest registrations method pattern =
      some handler) :
    ∃ registration ∈ registrations, registration.handler = handler := by
  obtain ⟨registration, isLast, isHandler⟩ := Option.map_eq_some_iff.mp isLatest
  have listed := List.mem_of_getLast? isLast
  exact ⟨registration, (List.mem_filter.mp listed).1, isHandler⟩

/-- Routing with the rules of either method that is routed. -/
theorem handle_routed (anchor : pcre.AnchorEmpty) (sorts : Sorts sort)
    (isMethod : req.method = some method)
    (routed : method = .GET ∨ method = .POST)
    (noNul : (0 : UInt8) ∉ req.document)
    (small : req.document.length < 512) (resp : HttpResponse) :
    ((∀ registration ∈ registrations, registration.method = method →
        Registration.matchLength pcre registration.pattern req.document =
          none) ∧
      (Registration.router pcre registrations).handle pcre sort req resp =
        some (.answer (resp.respondCode 404))) ∨
    ∃ registration handler,
      Registration.Longest pcre registrations method req.document
        registration ∧
      Registration.latest registrations method registration.pattern =
        some handler ∧
      (Registration.router pcre registrations).handle pcre sort req resp =
        some (.invoke handler) := by
  have isHandlers := Registration.handlers_router pcre registrations routed
  have isRules := Registration.rules_router pcre registrations routed
  rcases routed with rfl | rfl
  · simp only [HttpRouter.handle, isMethod]
    exact Registration.handleWith_longest registrations anchor sorts
      isHandlers isRules req noNul small resp
  · simp only [HttpRouter.handle, isMethod]
    exact Registration.handleWith_longest registrations anchor sorts
      isHandlers isRules req noNul small resp

/-- The application answers with the response of that handler. -/
theorem reply_responds (anchor : pcre.AnchorEmpty) (sorts : Sorts sort)
    (isMethod : req.method = some method)
    (routed : method = .GET ∨ method = .POST)
    (noNul : (0 : UInt8) ∉ req.document)
    (small : req.document.length < 512)
    (presentable : AllPresentable registrations req) :
    ∃ response, Responds pcre registrations method req response ∧
      Presentable response ∧
      reply pcre sort (Registration.router pcre registrations) (some {}) req =
        some (.text response.str.1) := by
  have fresh : ({} : HttpResponse).empty = true := by decide
  have replies (changed : HttpRequest) (response : HttpResponse)
      (isPerformed : perform pcre sort
        (Registration.router pcre registrations) req {} =
          some (.returned, changed, response)) :
      reply pcre sort (Registration.router pcre registrations) (some {}) req =
        some (.text response.str.1) := by
    simp only [reply, attempt, hook, pass, Requests.req, Option.getD_none,
      if_pos fresh, isPerformed, Option.map_some, conclude]
  rcases handle_routed anchor sorts isMethod routed noNul small {} with
    ⟨noMatch, answered⟩ | ⟨registration, handler, longest, isLatest, invoked⟩
  · refine ⟨_, .inl ⟨noMatch, rfl⟩, presentable_notFound, ?_⟩
    apply replies req
    simp only [perform, answered, Option.map_some]
  · obtain ⟨other, member, rfl⟩ := mem_of_latest isLatest
    obtain ⟨changed, response, returned, good⟩ := presentable other member
    refine ⟨response, .inr ⟨registration, _, changed, longest, isLatest,
      returned⟩, good, ?_⟩
    apply replies changed
    simp only [perform, invoked, Option.map_some, returned]

end Routing

/-- Where nothing fails and the socket is closed, the client has sent its whole
request and reads the response of the handler that was registered last for a
pattern with the longest first match. -/
theorem client_reads_response {Rule : Type} {pcre : Pcre Rule}
    {registrations : List (Registration Handler)}
    {sort : List MatchResult → List MatchResult}
    (anchor : pcre.AnchorEmpty) (sorts : Sorts sort)
    {request : WireRequest} {more : Bytes}
    (routed : request.method = .GET ∨ request.method = .POST)
    (short : request.framing.Short)
    (lines : ∀ line ∈ request.lines, line.length < 1024)
    (noNul : (0 : UInt8) ∉ request.parsed.document)
    (small : request.parsed.document.length < 512)
    (presentable : AllPresentable registrations request.parsed)
    {events : List Event} {final : Exchange}
    (reached : runWith (Exchange.step pcre sort
      (Registration.router pcre registrations) (some {})) {} events =
        some final)
    (stream : final.received <+: request.bytes ++ more)
    (holding : ∀ event ∈ events, event.Holds)
    (closed : .close ∈ final.handle.calls) :
    request.bytes <+: final.received ∧ ∃ response message,
      Responds pcre registrations request.method request.parsed response ∧
      HttpMessage.read final.sent = some message ∧
      ReadAs message response := by
  have isMethod : request.parsed.method = some request.method :=
    (Header.store_parts request.headers
      { method := some request.method, path := request.path }).1
  obtain ⟨response, responds, good, replied⟩ :=
    reply_responds anchor sorts isMethod routed noNul small presentable
  obtain ⟨complete, isSent⟩ := answered_of_closed short lines
    (Exchange.progress_of_run reached) stream closed holding
  have isText : final.sent = response.str.1 :=
    Answer.text.inj (Option.some.inj (isSent.symm.trans replied))
  obtain ⟨message, isRead, reads⟩ := good.read
  rw [← isText] at isRead
  exact ⟨complete, response, message, responds, isRead, reads⟩

namespace Example

open Registration.Example

/-- In Lean the kernel can evaluate this sort. -/
def LongestFirst (first second : MatchResult) : Prop :=
  (second.value.headD []).length ≤ (first.value.headD []).length

instance : DecidableRel LongestFirst := fun _ _ =>
  inferInstanceAs (Decidable (_ ≤ _))

instance : Std.Total LongestFirst :=
  ⟨fun _ _ => Nat.le_total _ _⟩

instance : IsTrans MatchResult LongestFirst :=
  ⟨fun _ _ _ inOrder further => Nat.le_trans further inOrder⟩

def inserted : List MatchResult → List MatchResult :=
  List.insertionSort LongestFirst

theorem inserted_sorts : Sorts inserted where
  perm := List.perm_insertionSort LongestFirst
  ordered := by
    intro results
    refine (List.pairwise_insertionSort LongestFirst results).imp ?_
    intro first second inOrder
    simpa [MatchResult.before, LongestFirst] using inOrder

def texts (text : Bytes) : Handler := fun req resp =>
  (.returned, req, resp.respond text (ascii "text/plain"))

def greetings : List (Registration Handler) :=
  [⟨ascii "/", texts (ascii "short"), .GET⟩,
    ⟨ascii "/hi", texts (ascii "long"), .GET⟩]

def hello : WireRequest := RequestLine.bare {
  method := .GET
  path := ascii "/hi/you?x=1"
  pathNonempty := by decide
  pathClean := List.all_iff_forall_prop.mp (by decide) }

theorem texts_presentable {text : Bytes}
    (known : text = ascii "short" ∨ text = ascii "long") :
    Presentable (({} : HttpResponse).respond text (ascii "text/plain")) := by
  rcases known with rfl | rfl
  · exact ⟨by decide, by decide +kernel, by decide +kernel⟩
  · exact ⟨by decide, by decide +kernel, by decide +kernel⟩

theorem greetings_presentable (req : HttpRequest) :
    AllPresentable greetings req := by
  intro registration member
  simp only [greetings, List.mem_cons, List.not_mem_nil, or_false] at member
  rcases member with rfl | rfl
  · exact ⟨req, _, rfl, texts_presentable (.inl rfl)⟩
  · exact ⟨req, _, rfl, texts_presentable (.inr rfl)⟩

def page : Bytes := (({} : HttpResponse).respond (ascii "long")
  (ascii "text/plain")).str.1

def visit : List Event :=
  [.readData hello.bytes, .responded page, .wrote 40,
    .wrote (page.length - 40)]

def visited : Option Exchange :=
  runWith (Exchange.step plain inserted
    (Registration.router plain greetings) (some {})) {} visit

theorem client_reads_response_hello : ∃ final response message,
    visited = some final ∧
      Responds plain greetings .GET hello.parsed response ∧
      HttpMessage.read final.sent = some message ∧
      ReadAs message response := by
  have happens : visited.isSome := by decide +kernel
  obtain ⟨final, reached⟩ := Option.isSome_iff_exists.mp happens
  have stream : (visited.getD {}).received <+: hello.bytes ++ [] := by
    decide +kernel
  have closed : .close ∈ (visited.getD {}).handle.calls := by decide +kernel
  rw [reached] at stream closed
  obtain ⟨_, response, message, responds, isRead, reads⟩ :=
    client_reads_response plain_anchorEmpty inserted_sorts (.inl rfl)
      (by decide) (by decide) (by decide +kernel) (by decide +kernel)
      (greetings_presentable _) reached stream (by decide +kernel) closed
  exact ⟨final, response, message, reached, responds, isRead, reads⟩

end Example

end Natsu.App
