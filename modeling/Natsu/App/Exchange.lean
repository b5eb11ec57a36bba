import Natsu.App.Answer
import Natsu.Http.LineLimits

/-!
# A connection and its peer

What was read from an accepted socket and what was written to it, up to its
first `close`.  The handlers answer in one step, and the peer and the kernel
decide where reads end and how much of the response each `write` takes.
-/

namespace Natsu.App

open Natsu.Foundation Natsu.Http

structure Exchange where
  handle : Handle := {}
  received : Bytes := []
  sent : Bytes := []

/-- The bytes that an event brings. -/
def Event.input : Event → Bytes
  | .readData data => data
  | _ => []

/-- The bytes that an event takes from what is to be written. -/
def Handle.output (handle : Handle) (event : Event) : Bytes :=
  match handle.stage, event with
  | .writing rest, .wrote count => rest.take count
  | _, _ => []

/-- The peer is there, and no call on `sockfd` fails. -/
def Event.Holds (event : Event) : Prop :=
  event ≠ .readEnd ∧ event ≠ .readFailed ∧ event ≠ .writeFailed

instance (event : Event) : Decidable event.Holds :=
  inferInstanceAs (Decidable (_ ∧ _))

section

variable {Rule : Type} (pcre : Pcre Rule)
  (sort : List MatchResult → List MatchResult)
  (router : HttpRouter Rule Handler) (inject : Option Inject)

/-- What the application makes of a request. -/
def reply (req : HttpRequest) : Option Answer :=
  (attempt pcre sort router inject req).map (conclude inject)

namespace Exchange

/-- What an event leads to as long as the socket is open. -/
def step (exchange : Exchange) (event : Event) : Option Exchange :=
  if .close ∈ exchange.handle.calls then none
  else if exchange.handle.stage = .responding ∧
      (exchange.handle.answer pcre sort router inject).map Answer.event ≠
        some event then none
  else (exchange.handle.step event).map fun next => {
    handle := next
    received := exchange.received ++ event.input
    sent := exchange.sent ++ exchange.handle.output event }

/-- What one call of the parser makes of all that was received. -/
def Parsed (exchange : Exchange) (verdict : Verdict) : Prop :=
  HttpParser.parseData {} exchange.received =
    (verdict, exchange.handle.parser)

/-- The request was accepted and is answered with this text. -/
def Answered (exchange : Exchange) (text : Bytes) : Prop :=
  exchange.Parsed (.ok .success) ∧
    exchange.handle.answer pcre sort router inject = some (.text text)

/-- Without a failure the text can be sent and the socket closed. -/
def CanServe (exchange : Exchange) (text : Bytes) : Prop :=
  ∃ events final, (∀ event ∈ events, Event.Holds event) ∧
    runWith (step pcre sort router inject) exchange events = some final ∧
    .close ∈ final.handle.calls ∧ final.sent = text

/-- Where a connection stands after the events of the past. -/
inductive Progress (past : List Event) (exchange : Exchange) : Prop where
  | reading
      (stage : exchange.handle.stage = .reading)
      (opened : .close ∉ exchange.handle.calls)
      (waits : exchange.Parsed (.ok .indeterminate))
      (silent : exchange.sent = [])
  | responding
      (stage : exchange.handle.stage = .responding)
      (opened : .close ∉ exchange.handle.calls)
      (accepted : exchange.Parsed (.ok .success))
      (silent : exchange.sent = [])
  | writing (rest : Bytes)
      (stage : exchange.handle.stage = .writing rest)
      (opened : .close ∉ exchange.handle.calls)
      (remains : rest ≠ [])
      (answered : exchange.Answered pcre sort router inject
        (exchange.sent ++ rest))
  | served
      (closed : .close ∈ exchange.handle.calls)
      (answered : exchange.Answered pcre sort router inject exchange.sent)
  | brokenOff (rest : Bytes)
      (closed : .close ∈ exchange.handle.calls)
      (failed : .writeFailed ∈ past)
      (answered : exchange.Answered pcre sort router inject
        (exchange.sent ++ rest))
  | abandoned
      (closed : .close ∈ exchange.handle.calls)
      (left : .readEnd ∈ past ∨ .readFailed ∈ past)
      (waits : exchange.Parsed (.ok .indeterminate))
      (silent : exchange.sent = [])
  | rejected
      (closed : .close ∈ exchange.handle.calls)
      (fails : exchange.Parsed (.ok .failure))
      (silent : exchange.sent = [])
  | threw (fault : Fault)
      (stage : exchange.handle.stage = .ended)
      (opened : .close ∉ exchange.handle.calls)
      (throws : exchange.Parsed (.error fault))
      (silent : exchange.sent = [])
  | escaped
      (stage : exchange.handle.stage = .ended)
      (opened : .close ∉ exchange.handle.calls)
      (accepted : exchange.Parsed (.ok .success))
      (escapes : exchange.handle.answer pcre sort router inject =
        some .escaped)
      (silent : exchange.sent = [])

section Steps

variable {pcre sort router inject} {exchange next : Exchange} {event : Event}
  {past : List Event}

/-- What a step can do. -/
theorem step_cases
    (stepped : exchange.step pcre sort router inject event = some next) :
    .close ∉ exchange.handle.calls ∧
    (exchange.handle.stage = .responding →
      (exchange.handle.answer pcre sort router inject).map Answer.event =
        some event) ∧
    ∃ handle, exchange.handle.step event = some handle ∧ next = {
      handle := handle
      received := exchange.received ++ event.input
      sent := exchange.sent ++ exchange.handle.output event } := by
  unfold step at stepped
  split at stepped
  · simp at stepped
  · rename_i opened
    split at stepped
    · simp at stepped
    · rename_i agreed
      obtain ⟨handle, handled, rfl⟩ := Option.map_eq_some_iff.mp stepped
      refine ⟨opened, ?_, handle, handled, rfl⟩
      intro responding
      by_contra other
      exact agreed ⟨responding, other⟩

theorem Parsed.verdict {verdict : Verdict} (parsed : exchange.Parsed verdict) :
    (HttpParser.parseData {} exchange.received).1 = verdict :=
  congrArg Prod.fst parsed

/-- A parser that waits reads on as if all had come at once. -/
theorem Parsed.more (waits : exchange.Parsed (.ok .indeterminate))
    (data : Bytes) :
    HttpParser.parseData {} (exchange.received ++ data) =
      exchange.handle.parser.parseData data := by
  have resumed := HttpParser.machine.run_resume data waits
  have together := HttpParser.machine.extend_extend {} exchange.received data
  exact (congrArg HttpParser.machine.loop.run together).symm.trans resumed

/-- An event that brings nothing leaves the verdict as it was. -/
theorem Parsed.kept {verdict : Verdict} {handle : Handle} {sent : Bytes}
    (parsed : exchange.Parsed verdict)
    (same : handle.parser = exchange.handle.parser)
    (empty : event.input = []) :
    Parsed { handle := handle, received := exchange.received ++ event.input,
             sent := sent } verdict := by
  have unchanged : HttpParser.parseData {} exchange.received =
      (verdict, handle.parser) := by
    rw [same]
    exact parsed
  simpa [Parsed, empty] using unchanged

theorem Answered.kept {text : Bytes} {handle : Handle} {sent : Bytes}
    (answered : exchange.Answered pcre sort router inject text)
    (same : handle.parser = exchange.handle.parser)
    (empty : event.input = []) :
    Answered pcre sort router inject
      { handle := handle, received := exchange.received ++ event.input,
        sent := sent } text := by
  refine ⟨answered.1.kept same empty, ?_⟩
  rw [← answered.2]
  simp only [Handle.answer, same]

/-- The verdict on what was read. -/
theorem progress_read {data : Bytes}
    (opened : .close ∉ exchange.handle.calls)
    (waits : exchange.Parsed (.ok .indeterminate))
    (silent : exchange.sent = [])
    (isNext : next = {
      handle := exchange.handle.switch (exchange.handle.parser.parseData data)
      received := exchange.received ++ data
      sent := exchange.sent }) :
    next.Progress pcre sort router inject past := by
  have together := waits.more data
  subst isNext
  cases parsed : exchange.handle.parser.parseData data with
  | mk verdict parser =>
      rw [parsed] at together
      match verdict with
      | .error fault => exact .threw fault rfl opened together silent
      | .ok .failure =>
          refine .rejected ?_ together silent
          simp [Handle.switch, Handle.closeAndRead, Handle.readNext]
      | .ok .success => exact .responding rfl opened together silent
      | .ok .indeterminate =>
          refine .reading rfl ?_ together silent
          simpa [Handle.switch, Handle.readNext] using opened

theorem progress_reading (stage : exchange.handle.stage = .reading)
    (opened : .close ∉ exchange.handle.calls)
    (waits : exchange.Parsed (.ok .indeterminate))
    (silent : exchange.sent = [])
    (stepped : exchange.step pcre sort router inject event = some next) :
    next.Progress pcre sort router inject (past ++ [event]) := by
  obtain ⟨_, _, handle, handled, isNext⟩ := step_cases stepped
  have noOutput : exchange.handle.output event = [] := by
    simp [Handle.output, stage]
  rw [noOutput, List.append_nil] at isNext
  cases event with
  | readAgain =>
      simp only [Handle.step, stage, Option.some.injEq] at handled
      subst handled isNext
      refine .reading rfl ?_ (waits.kept rfl rfl) silent
      simpa [Handle.readNext] using opened
  | readFailed =>
      simp only [Handle.step, stage, Option.some.injEq] at handled
      subst handled isNext
      refine .abandoned ?_ (.inr (by simp)) (waits.kept rfl rfl) silent
      simp [Handle.closeAndEnd]
  | readEnd =>
      simp only [Handle.step, stage, Option.some.injEq] at handled
      subst handled isNext
      refine .abandoned ?_ (.inl (by simp)) (waits.kept rfl rfl) silent
      simp [Handle.closeAndEnd]
  | readData data =>
      simp only [Handle.step, stage] at handled
      split at handled
      · obtain rfl := Option.some.inj handled
        exact progress_read opened waits silent isNext
      · simp at handled
  | responded text => simp [Handle.step, stage] at handled
  | escaped => simp [Handle.step, stage] at handled
  | wrote count => simp [Handle.step, stage] at handled
  | writeFailed => simp [Handle.step, stage] at handled

/-- What is left of the response is written, or the socket is closed. -/
theorem progress_writeNext {rest : Bytes}
    (opened : .close ∉ exchange.handle.calls)
    (answered : next.Answered pcre sort router inject (next.sent ++ rest))
    (isNext : next.handle = exchange.handle.writeNext rest) :
    next.Progress pcre sort router inject past := by
  by_cases finished : rest = []
  · rw [Handle.writeNext, if_pos finished] at isNext
    rw [finished, List.append_nil] at answered
    refine .served ?_ answered
    simp [isNext, Handle.closeAndRead, Handle.readNext]
  · rw [Handle.writeNext, if_neg finished] at isNext
    refine .writing rest ?_ ?_ finished answered
    · rw [isNext]
    · simpa [isNext] using opened

theorem parser_writeNext (handle : Handle) (rest : Bytes) :
    (handle.writeNext rest).parser = handle.parser := by
  unfold Handle.writeNext
  split
  · rfl
  · rfl

theorem progress_responding (stage : exchange.handle.stage = .responding)
    (opened : .close ∉ exchange.handle.calls)
    (accepted : exchange.Parsed (.ok .success))
    (silent : exchange.sent = [])
    (stepped : exchange.step pcre sort router inject event = some next) :
    next.Progress pcre sort router inject (past ++ [event]) := by
  obtain ⟨_, agreed, handle, handled, isNext⟩ := step_cases stepped
  have noOutput : exchange.handle.output event = [] := by
    simp [Handle.output, stage]
  rw [noOutput, List.append_nil] at isNext
  obtain ⟨answer, isAnswer, isEvent⟩ :=
    Option.map_eq_some_iff.mp (agreed stage)
  cases answer with
  | text bytes =>
      obtain rfl : event = .responded bytes := isEvent.symm
      simp only [Handle.step, stage, Option.some.injEq] at handled
      subst handled isNext
      have answered : exchange.Answered pcre sort router inject bytes :=
        ⟨accepted, isAnswer⟩
      refine progress_writeNext opened ?_ rfl
      rw [silent]
      exact answered.kept (parser_writeNext _ _) rfl
  | escaped =>
      obtain rfl : event = .escaped := isEvent.symm
      simp only [Handle.step, stage, Option.some.injEq] at handled
      subst handled isNext
      exact .escaped rfl opened (accepted.kept rfl rfl) isAnswer silent

theorem progress_writing {rest : Bytes}
    (stage : exchange.handle.stage = .writing rest)
    (opened : .close ∉ exchange.handle.calls)
    (answered : exchange.Answered pcre sort router inject
      (exchange.sent ++ rest))
    (stepped : exchange.step pcre sort router inject event = some next) :
    next.Progress pcre sort router inject (past ++ [event]) := by
  obtain ⟨_, _, handle, handled, isNext⟩ := step_cases stepped
  cases event with
  | wrote count =>
      simp only [Handle.step, stage] at handled
      split at handled
      · obtain rfl := Option.some.inj handled
        simp only [Handle.output, stage] at isNext
        subst isNext
        refine progress_writeNext opened ?_ rfl
        rw [List.append_assoc, List.take_append_drop]
        exact answered.kept (parser_writeNext _ _) rfl
      · simp at handled
  | writeFailed =>
      simp only [Handle.step, stage, Option.some.injEq] at handled
      simp only [Handle.output, stage, List.append_nil] at isNext
      subst handled isNext
      refine .brokenOff rest ?_ (by simp) (answered.kept rfl rfl)
      simp [Handle.closeAndRead, Handle.readNext]
  | readAgain => simp [Handle.step, stage] at handled
  | readFailed => simp [Handle.step, stage] at handled
  | readEnd => simp [Handle.step, stage] at handled
  | readData data => simp [Handle.step, stage] at handled
  | responded text => simp [Handle.step, stage] at handled
  | escaped => simp [Handle.step, stage] at handled

/-- After the first close, or an exception that leaves `handle`, nothing
happens. -/
theorem no_step (finished : .close ∈ exchange.handle.calls ∨
      exchange.handle.stage = .ended) :
    exchange.step pcre sort router inject event = none := by
  cases isNext : exchange.step pcre sort router inject event with
  | none => rfl
  | some next =>
      obtain ⟨opened, _, handle, handled, _⟩ := step_cases isNext
      rcases finished with closed | ended
      · exact absurd closed opened
      · simp [Handle.step, ended] at handled

theorem Progress.step
    (progress : exchange.Progress pcre sort router inject past)
    (stepped : exchange.step pcre sort router inject event = some next) :
    next.Progress pcre sort router inject (past ++ [event]) := by
  have ends (finished : .close ∈ exchange.handle.calls ∨
      exchange.handle.stage = .ended) :
      next.Progress pcre sort router inject (past ++ [event]) := by
    simp [no_step finished] at stepped
  cases progress with
  | reading stage opened waits silent =>
      exact progress_reading stage opened waits silent stepped
  | responding stage opened accepted silent =>
      exact progress_responding stage opened accepted silent stepped
  | writing rest stage opened remains answered =>
      exact progress_writing stage opened answered stepped
  | served closed answered => exact ends (.inl closed)
  | brokenOff rest closed failed answered => exact ends (.inl closed)
  | abandoned closed left waits silent => exact ends (.inl closed)
  | rejected closed fails silent => exact ends (.inl closed)
  | threw fault stage opened throws silent => exact ends (.inr stage)
  | escaped stage opened accepted escapes silent => exact ends (.inr stage)

theorem progress_of_run {events : List Event} {final : Exchange}
    (reached : runWith (Exchange.step pcre sort router inject) {} events =
      some final) : final.Progress pcre sort router inject events := by
  have start : Progress pcre sort router inject [] {} :=
    .reading rfl (by decide) HttpParser.run_fresh rfl
  exact invariant_of_history (fun progress stepped => progress.step stepped)
    events start reached

/-- An exchange that has been accepted was answered as far as it got. -/
theorem Progress.sent_prefix
    (progress : exchange.Progress pcre sort router inject past)
    (begun : exchange.sent ≠ []) :
    ∃ text, exchange.Answered pcre sort router inject text ∧
      exchange.sent <+: text := by
  cases progress with
  | reading stage opened waits silent => exact absurd silent begun
  | responding stage opened accepted silent => exact absurd silent begun
  | writing rest stage opened remains answered =>
      exact ⟨_, answered, List.prefix_append _ _⟩
  | served closed answered => exact ⟨_, answered, List.prefix_rfl⟩
  | brokenOff rest closed failed answered =>
      exact ⟨_, answered, List.prefix_append _ _⟩
  | abandoned closed left waits silent => exact absurd silent begun
  | rejected closed fails silent => exact absurd silent begun
  | threw fault stage opened throws silent => exact absurd silent begun
  | escaped stage opened accepted escapes silent => exact absurd silent begun

/-- A socket that is closed although nothing failed was served, unless the
parser rejected what came. -/
theorem Progress.served_or_rejected
    (progress : exchange.Progress pcre sort router inject past)
    (holding : ∀ event ∈ past, event.Holds)
    (closed : .close ∈ exchange.handle.calls) :
    exchange.Answered pcre sort router inject exchange.sent ∨
      (exchange.Parsed (.ok .failure) ∧ exchange.sent = []) := by
  cases progress with
  | reading stage opened waits silent => exact absurd closed opened
  | responding stage opened accepted silent => exact absurd closed opened
  | writing rest stage opened remains answered => exact absurd closed opened
  | served closed answered => exact .inl answered
  | brokenOff rest closed failed answered =>
      exact absurd rfl (holding _ failed).2.2
  | abandoned closed left waits silent =>
      rcases left with atEnd | atFailure
      · exact absurd rfl (holding _ atEnd).1
      · exact absurd rfl (holding _ atFailure).2.1
  | rejected closed fails silent => exact .inr ⟨fails, silent⟩
  | threw fault stage opened throws silent => exact absurd closed opened
  | escaped stage opened accepted escapes silent => exact absurd closed opened

theorem CanServe.head {text : Bytes}
    (stepped : exchange.step pcre sort router inject event = some next)
    (holds : event.Holds) (serves : next.CanServe pcre sort router inject text) :
    exchange.CanServe pcre sort router inject text := by
  obtain ⟨events, final, holding, reached, closed, isSent⟩ := serves
  refine ⟨event :: events, final, ?_, ?_, closed, isSent⟩
  · intro other member
    rcases List.mem_cons.mp member with rfl | later
    · exact holds
    · exact holding other later
  · rw [runWith, stepped]
    exact reached

end Steps

end Exchange

variable {pcre sort router inject}

/-- Nothing is sent before the parser accepts all that was received, and what
is sent is a front of the answer's text.  Where nothing fails and the parser
does not reject what came, the whole text is sent before the socket is
closed. -/
theorem exchange_answers {events : List Event} {final : Exchange}
    (reached : runWith (Exchange.step pcre sort router inject) {} events =
      some final) :
    (final.sent ≠ [] → ∃ parser text,
      HttpParser.parseData {} final.received = (.ok .success, parser) ∧
        parser.req.bind (reply pcre sort router inject) =
          some (.text text) ∧
        final.sent <+: text) ∧
    (.close ∈ final.handle.calls → (∀ event ∈ events, event.Holds) →
      (HttpParser.parseData {} final.received).1 ≠ .ok .failure →
      ∃ parser,
        HttpParser.parseData {} final.received = (.ok .success, parser) ∧
          parser.req.bind (reply pcre sort router inject) =
            some (.text final.sent)) := by
  have progress := Exchange.progress_of_run reached
  constructor
  · intro begun
    obtain ⟨text, ⟨accepted, isAnswer⟩, isPrefix⟩ := progress.sent_prefix begun
    exact ⟨_, text, accepted, isAnswer, isPrefix⟩
  · intro closed holding notRejected
    rcases progress.served_or_rejected holding closed with
      ⟨accepted, isAnswer⟩ | ⟨fails, _⟩
    · exact ⟨_, accepted, isAnswer⟩
    · exact absurd (congrArg Prod.fst fails) notRejected

section Requests

variable {request : WireRequest} {more : Bytes}

/-- The reads of a request with short lines are waited for until the request
has come, and then it is accepted. -/
theorem parse_stream (short : request.framing.Short)
    (lines : ∀ line ∈ request.lines, line.length < 1024) {received : Bytes}
    (stream : received <+: request.bytes ++ more) :
    (received.length < request.bytes.length ∧
      (HttpParser.parseData {} received).1 = .ok .indeterminate) ∨
    request.bytes <+: received ∧ ∃ parser,
      HttpParser.parseData {} received = (.ok .success, parser) ∧
        parser.req = some request.parsed := by
  rcases within_or_behind stream with ⟨begun, incomplete⟩ | ⟨behind, rfl, _⟩
  · rcases HttpParser.run_cut short begun incomplete with waits | caught
    · exact .inl ⟨incomplete, waits⟩
    · obtain ⟨front, line, back, isLines, passed, inside⟩ := caught
      have limit := lines line (by simp [isLines])
      omega
  · exact .inr ⟨List.prefix_append _ _, _,
      HttpParser.run_short request short behind, rfl⟩

/-- A request that is accepted is the one that is answered. -/
theorem answer_of_accepted {exchange : Exchange} {parser : HttpParser}
    (accepts : HttpParser.parseData {} exchange.received =
      (.ok .success, parser))
    (isRequest : parser.req = some request.parsed)
    (accepted : exchange.Parsed (.ok .success)) :
    exchange.handle.answer pcre sort router inject =
      reply pcre sort router inject request.parsed := by
  obtain ⟨_, rfl⟩ := Prod.mk.inj (accepts.symm.trans accepted)
  rw [Handle.answer, isRequest]
  rfl

/-- What is sent of a request with short lines is sent after it has come. -/
theorem sent_of_stream (short : request.framing.Short)
    (lines : ∀ line ∈ request.lines, line.length < 1024)
    {events : List Event} {final : Exchange}
    (progress : final.Progress pcre sort router inject events)
    (stream : final.received <+: request.bytes ++ more)
    (begun : final.sent ≠ []) :
    request.bytes <+: final.received ∧
      ∃ text, reply pcre sort router inject request.parsed =
        some (.text text) ∧ final.sent <+: text := by
  obtain ⟨text, ⟨accepted, isAnswer⟩, isPrefix⟩ := progress.sent_prefix begun
  rcases parse_stream short lines stream with
    ⟨_, waits⟩ | ⟨complete, parser, accepts, isRequest⟩
  · exact absurd (accepted.verdict.symm.trans waits) (by simp)
  · rw [answer_of_accepted accepts isRequest accepted] at isAnswer
    exact ⟨complete, text, isAnswer, isPrefix⟩

/-- A connection that is closed without a failure has sent the whole answer. -/
theorem answered_of_closed (short : request.framing.Short)
    (lines : ∀ line ∈ request.lines, line.length < 1024)
    {events : List Event} {final : Exchange}
    (progress : final.Progress pcre sort router inject events)
    (stream : final.received <+: request.bytes ++ more)
    (closed : .close ∈ final.handle.calls)
    (holding : ∀ event ∈ events, event.Holds) :
    request.bytes <+: final.received ∧
      reply pcre sort router inject request.parsed =
        some (.text final.sent) := by
  have verdicts := parse_stream short lines stream
  rcases progress.served_or_rejected holding closed with
    ⟨accepted, isAnswer⟩ | ⟨fails, _⟩
  · rcases verdicts with ⟨_, waits⟩ | ⟨complete, parser, accepts, isRequest⟩
    · exact absurd (accepted.verdict.symm.trans waits) (by simp)
    · rw [answer_of_accepted accepts isRequest accepted] at isAnswer
      exact ⟨complete, isAnswer⟩
  · rcases verdicts with ⟨_, waits⟩ | ⟨_, parser, accepts, _⟩
    · exact absurd (fails.verdict.symm.trans waits) (by simp)
    · have accepted := congrArg Prod.fst accepts
      exact absurd (accepted.symm.trans fails.verdict) (by simp)

/-- A request with short lines is answered when it has come, and not
before. -/
theorem request_answered (short : request.framing.Short)
    (lines : ∀ line ∈ request.lines, line.length < 1024)
    {events : List Event} {final : Exchange}
    (reached : runWith (Exchange.step pcre sort router inject) {} events =
      some final)
    (stream : final.received <+: request.bytes ++ more) :
    (final.sent ≠ [] → request.bytes <+: final.received ∧
      ∃ text, reply pcre sort router inject request.parsed =
        some (.text text) ∧ final.sent <+: text) ∧
    (.close ∈ final.handle.calls → (∀ event ∈ events, event.Holds) →
      request.bytes <+: final.received ∧
        reply pcre sort router inject request.parsed =
          some (.text final.sent)) := by
  have progress := Exchange.progress_of_run reached
  exact ⟨sent_of_stream short lines progress stream,
    answered_of_closed short lines progress stream⟩

end Requests

end

namespace Example

open PcreRegex

def index : WireRequest := RequestLine.bare {
  method := .GET
  path := ascii "/index"
  pathNonempty := by decide
  pathClean := List.all_iff_forall_prop.mp (by decide) }

theorem index_lines : ∀ line ∈ index.lines, line.length < 1024 := by decide

def notFound : Bytes := ascii
  "HTTP/1.1 404 Not Found\r\nConnection: close\r\nContent-Length: 0\r\n\r\n"

/-- A request in two reads, and an answer in three writes. -/
def lookup : List Event :=
  [.readData (ascii "GET /ind"), .readAgain,
    .readData (ascii "ex HTTP/1.1\r\n\r\n"), .responded notFound, .wrote 20,
    .wrote 0, .wrote 44]

/-- The application has no handler. -/
def after (events : List Event) : Option Exchange :=
  runWith (Exchange.step matchRest id emptyRouter (some {})) {} events

def afterwards (events : List Event) : Exchange := (after events).getD {}

theorem reached_afterwards {events : List Event}
    (happens : (after events).isSome) :
    after events = some (afterwards events) := by
  obtain ⟨final, isFinal⟩ := Option.isSome_iff_exists.mp happens
  rw [afterwards, isFinal, Option.getD_some]

theorem reached_lookup : after lookup = some (afterwards lookup) :=
  reached_afterwards (by decide +kernel)

theorem exchange_answers_lookup : ∃ parser,
    HttpParser.parseData {} (afterwards lookup).received =
      (.ok .success, parser) ∧
    parser.req.bind (reply matchRest id emptyRouter (some {})) =
      some (.text (afterwards lookup).sent) :=
  (exchange_answers reached_lookup).2 (by decide +kernel) (by decide)
    (by decide +kernel)

/-- A part of the answer has been written. -/
theorem request_answered_lookup :
    (afterwards (lookup.take 5)).sent = notFound.take 20 ∧
    index.bytes <+: (afterwards (lookup.take 5)).received ∧
    ∃ text, reply matchRest id emptyRouter (some {}) index.parsed =
      some (.text text) ∧ (afterwards (lookup.take 5)).sent <+: text := by
  have begun : (afterwards (lookup.take 5)).sent = notFound.take 20 := by
    decide +kernel
  have nonempty : notFound.take 20 ≠ [] := by decide
  have stream : (afterwards (lookup.take 5)).received <+:
      index.bytes ++ [] := by decide +kernel
  have reached : after (lookup.take 5) = some (afterwards (lookup.take 5)) :=
    reached_afterwards (by decide +kernel)
  refine ⟨begun, (request_answered (by decide) index_lines reached stream).1 ?_⟩
  rw [begun]
  exact nonempty

end Example

end Natsu.App
