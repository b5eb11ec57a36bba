import Natsu.Rpc.Carriage
import Natsu.Rpc.System

/-!
# A call returns its own response

Every request that is queued, taken or handled is the request of a call, and
every response that is on its way to a call was produced for its request.  A
response finds its call by the id.
-/

namespace Natsu.Rpc

open Natsu.Foundation

variable {Service Message : Type}

namespace Producers

variable {producers : Producers Service Message}

/-- The requests of the calls, in the order in which they were begun. -/
def requests (producers : Producers Service Message) :
    List (RpcChannelData Message) :=
  producers.calls.map Call.request

section Requests

variable {call : Nat} {value : Call Service Message}

theorem requests_setCall (present : producers.calls[call]? = some value)
    {next : Call Service Message} (same : next.request = value.request) :
    (producers.setCall call next).requests = producers.requests := by
  obtain ⟨bound, isValue⟩ := List.getElem?_eq_some_iff.mp present
  simp only [requests, setCall, List.map_set]
  rw [same, ← isValue]
  apply List.ext_getElem (by simp)
  intro index short _
  by_cases isCall : call = index
  · subst isCall
    simp
  · simp [isCall]

theorem requests_readReply (present : producers.calls[call]? = some value) :
    (producers.readReply call value).requests = producers.requests := by
  unfold readReply
  split
  · exact requests_setCall present rfl
  · exact requests_setCall present rfl

theorem requests_response {reader : Nat} {rid : UInt64} {message : Message}
    {next : Producers Service Message}
    (step : producers.response reader rid message = some next) :
    next.requests = producers.requests := by
  rcases response_cases step with rfl |
    ⟨call, value, channel, _, present, ⟨_, rfl⟩ | ⟨_, rfl⟩⟩
  · rfl
  · exact requests_setCall present rfl
  · exact requests_setCall present rfl

theorem requests_runReader {reader : Nat} {next : Producers Service Message}
    (step : producers.runReader reader = some next) :
    next.requests = producers.requests := by
  obtain ⟨call, message, value, channel, _, present, _, rfl⟩ :=
    runReader_cases step
  exact requests_setCall present rfl

theorem requests_pushNull (present : producers.calls[call]? = some value) :
    (producers.pushNull call value).requests = producers.requests := by
  rcases pushNull_cases producers call value with ⟨channel, _, pushed⟩ | pushed
  · rw [pushed]
    exact requests_setCall present rfl
  · rw [pushed]
    rfl

theorem requests_pushNulls (calls : List Nat) :
    ∀ producers : Producers Service Message,
      (pushNulls calls producers).requests = producers.requests := by
  induction calls with
  | nil => exact fun _ => rfl
  | cons call calls induction =>
      intro producers
      unfold pushNulls
      split
      · rfl
      · split
        · rfl
        · rename_i value present
          rw [induction, requests_pushNull present]

variable [DecidableEq Service]

theorem requests_invoke {id : UInt64} {service : Service} {msg : Message} :
    (producers.invoke id service msg).requests =
      producers.requests ++ [{ id := id, msg := msg }] := by
  let value : Call Service Message :=
    { id := id, service := service, msg := msg }
  have registered : (producers.register value).requests =
      producers.requests ++ [{ id := id, msg := msg }] := by
    simp [requests, register, Call.request, value]
  simp only [invoke]
  split
  · exact registered
  · exact (requests_readReply List.getElem?_concat_length).trans registered

theorem requests_runInvoke {next : Producers Service Message}
    (step : producers.runInvoke call = some next) :
    next.requests = producers.requests := by
  obtain ⟨value, present, ⟨channel, _, _, rfl⟩ | ⟨rsp, channel, _, _, rfl⟩⟩ :=
    runInvoke_cases step
  · exact requests_readReply present
  · exact requests_setCall present rfl

theorem requests_workerRead {worker : Nat} {service : Service}
    {next : Producers Service Message}
    (step : producers.workerRead worker service = some next) :
    next.requests = producers.requests := by
  rcases workerRead_cases step with ⟨_, _, _, rfl⟩ | ⟨_, _, rfl⟩ <;> rfl

theorem requests_step {event : Event Service Message}
    {next : Producers Service Message}
    (stepped : producers.step event = some next) :
    next.requests = producers.requests ++ event.request?.toList := by
  have acted := act_of_step stepped
  cases event with
  | invoke id service msg =>
      obtain rfl := Option.some.inj acted
      exact requests_invoke
  | runInvoke call =>
      exact (requests_runInvoke acted).trans (List.append_nil _).symm
  | workerRead worker service =>
      exact (requests_workerRead acted).trans (List.append_nil _).symm
  | runWorker worker service =>
      obtain ⟨data, channel, _, rfl⟩ := runWorker_cases acted
      exact (List.append_nil _).symm
  | response reader rid message =>
      exact (requests_response acted).trans (List.append_nil _).symm
  | runReader reader =>
      exact (requests_runReader acted).trans (List.append_nil _).symm
  | sweep n =>
      obtain rfl := Option.some.inj acted
      exact (requests_pushNulls _ producers).trans (List.append_nil _).symm

end Requests

end Producers

namespace System

variable {Occasion : Type} {methods : Methods Message Occasion}
  {system next : System Service methods}

/-- The message is a response that a handler has produced for the request. -/
def Replied (system : System Service methods) (data : RpcChannelData Message)
    (message : Message) : Prop :=
  ∃ response ∈ system.handled, response.data = data ∧ response.resp = message

/-- Everything on its way belongs to one of the requests. -/
structure Matched (sent : List (RpcChannelData Message))
    (system : System Service methods) : Prop where
  consistent : system.producers.Consistent
  carries : system.producers.Carries (· ∈ sent) system.Replied
  handling : ∀ entry ∈ system.handling, entry.2 ∈ sent
  handled : ∀ response ∈ system.handled, response.data ∈ sent

variable {sent : List (RpcChannelData Message)}

theorem initial_matched : ({} : System Service methods).Matched sent where
  consistent := Producers.initial_consistent
  carries := by
    refine ⟨?_, ?_, ?_, ?_⟩ <;> simp
  handling := by simp
  handled := by simp

/-- The request of a frame is that of the call that its id finds. -/
theorem Matched.grants (matched : system.Matched sent)
    (distinct : (sent.map RpcChannelData.id).Nodup) {reader : Nat}
    {response : Handled methods} (arrived : response ∈ system.handled) :
    system.producers.Grants (· ∈ sent) system.Replied
      (.response reader response.data.id response.resp) := by
  intro call value entry present
  obtain ⟨current, found, named, _⟩ := matched.consistent.sound.entries entry
  rw [present] at found
  obtain rfl := Option.some.inj found
  have own := (matched.carries.calls present).1
  refine ⟨response, arrived, ?_, rfl⟩
  exact List.inj_on_of_nodup_map distinct (matched.handled response arrived)
    own named.symm

theorem Matched.produce [DecidableEq Service] (matched : system.Matched sent)
    {event : Event Service Message}
    (grants : system.producers.Grants (· ∈ sent) system.Replied event)
    (stepped : system.produce event = some next) : next.Matched sent := by
  obtain ⟨producers, produced, rfl⟩ := Option.map_eq_some_iff.mp stepped
  exact ⟨Producers.step_consistent matched.consistent produced,
    Producers.step_carries matched.carries grants produced,
    matched.handling, matched.handled⟩

theorem handleParse_matched (matched : system.Matched sent) {provider : Nat}
    {data : RpcChannelData Message} (isSent : data ∈ sent)
    {occasion : Occasion} :
    (system.handleParse provider data occasion).Matched sent := by
  unfold handleParse
  split
  · exact matched
  · split
    · exact matched
    · refine ⟨matched.consistent, matched.carries.mono ?_, matched.handling, ?_⟩
      · rintro request message ⟨response, earlier, answers⟩
        exact ⟨response, List.mem_append_left _ earlier, answers⟩
      · intro response member
        rcases List.mem_append.mp member with earlier | isNew
        · exact matched.handled response earlier
        · rw [List.mem_singleton.mp isNew]
          exact isSent

theorem step_matched [DecidableEq Service]
    (distinct : (sent.map RpcChannelData.id).Nodup)
    {event : SystemEvent Service Message Occasion}
    (matched : system.Matched sent)
    (begun : ∀ data, event.request? = some data → data ∈ sent)
    (stepped : system.step event = some next) : next.Matched sent := by
  cases event with
  | producer event =>
      simp only [step] at stepped
      split at stepped
      · simp at stepped
      · rename_i notResponse
        refine matched.produce ?_ stepped
        cases event with
        | invoke id service msg => exact begun _ rfl
        | response reader rid message => simp [Event.isResponse] at notResponse
        | _ => trivial
  | request provider frame =>
      obtain ⟨data, taken, rfl⟩ := Option.map_eq_some_iff.mp stepped
      refine ⟨matched.consistent, matched.carries, ?_, matched.handled⟩
      intro entry member
      rcases List.mem_append.mp member with earlier | isNew
      · exact matched.handling entry earlier
      · rw [List.mem_singleton.mp isNew]
        exact matched.carries.taken data (List.mem_of_getElem? taken)
  | handlerReturns coroutine occasion =>
      obtain ⟨⟨provider, data⟩, started, rfl⟩ :=
        Option.map_eq_some_iff.mp stepped
      have ended : Matched sent { system with
          handling := system.handling.eraseIdx coroutine } := by
        refine ⟨matched.consistent, matched.carries, ?_, matched.handled⟩
        intro entry member
        exact matched.handling entry (List.mem_of_mem_eraseIdx member)
      exact handleParse_matched ended
        (matched.handling _ (List.mem_of_getElem? started))
  | response reader frame =>
      obtain ⟨response, arrived, produced⟩ :=
        Option.bind_eq_some_iff.mp stepped
      exact matched.produce
        (matched.grants distinct (List.mem_of_getElem? arrived)) produced

theorem handleParse_producers {provider : Nat}
    {data : RpcChannelData Message} {occasion : Occasion} :
    (system.handleParse provider data occasion).producers =
      system.producers := by
  unfold handleParse
  split
  · rfl
  · split <;> rfl

theorem produce_requests [DecidableEq Service]
    {event : Event Service Message}
    (stepped : system.produce event = some next) :
    next.producers.requests =
      system.producers.requests ++ event.request?.toList := by
  obtain ⟨producers, produced, rfl⟩ := Option.map_eq_some_iff.mp stepped
  exact Producers.requests_step produced

theorem step_requests [DecidableEq Service]
    {event : SystemEvent Service Message Occasion}
    (stepped : system.step event = some next) :
    next.producers.requests =
      system.producers.requests ++ event.request?.toList := by
  cases event with
  | producer event =>
      simp only [step] at stepped
      split at stepped
      · simp at stepped
      · exact produce_requests stepped
  | request provider frame =>
      obtain ⟨data, _, rfl⟩ := Option.map_eq_some_iff.mp stepped
      exact (List.append_nil _).symm
  | handlerReturns coroutine occasion =>
      obtain ⟨⟨provider, data⟩, _, rfl⟩ := Option.map_eq_some_iff.mp stepped
      dsimp only
      rw [handleParse_producers]
      exact (List.append_nil _).symm
  | response reader frame =>
      obtain ⟨response, _, produced⟩ := Option.bind_eq_some_iff.mp stepped
      exact produce_requests produced

theorem run_requests [DecidableEq Service]
    (events : List (SystemEvent Service Message Occasion)) :
    ∀ {system final : System Service methods},
      system.run events = some final →
      final.producers.requests =
        system.producers.requests ++ requests events := by
  induction events with
  | nil =>
      intro system final reached
      obtain rfl := Option.some.inj reached
      exact (List.append_nil _).symm
  | cons event events induction =>
      intro system final reached
      obtain ⟨next, stepped, rest⟩ := Option.bind_eq_some_iff.mp reached
      rw [induction rest, step_requests stepped, List.append_assoc]
      unfold requests
      cases begun : event.request? with
      | none => simp [begun]
      | some data => simp [begun]

theorem run_matched [DecidableEq Service]
    (events : List (SystemEvent Service Message Occasion))
    (distinct : ((requests events).map RpcChannelData.id).Nodup)
    {final : System Service methods} (reached : run {} events = some final) :
    final.Matched (requests events) := by
  have begun : ∀ event ∈ events, ∀ data, event.request? = some data →
      data ∈ requests events := by
    intro event member data isRequest
    exact List.mem_filterMap.mpr ⟨event, member, isRequest⟩
  have start : ({} : System Service methods).Matched (requests events) :=
    initial_matched
  exact invariant_of_forall (step_matched distinct) events begun start reached

/-- With distinct ids, a call that has returned has returned null or what the
handler registered for the type of its message produced for its own request,
the request of no other call. -/
theorem invoke_returns_own_response [DecidableEq Service]
    (events : List (SystemEvent Service Message Occasion))
    (distinct : ((requests events).map RpcChannelData.id).Nodup)
    {final : System Service methods} (reached : run {} events = some final)
    {call : Nat} {value : Call Service Message} {rsp : Option Message}
    (present : final.producers.calls[call]? = some value)
    (returned : value.stage = .returned rsp) :
    rsp = none ∨ ∃ response ∈ final.handled, rsp = some response.resp ∧
      response.data = value.request ∧
      ∀ (other : Nat) (otherValue : Call Service Message),
        final.producers.calls[other]? = some otherValue →
        otherValue.id = response.data.id → other = call := by
  have matched := run_matched events distinct reached
  cases rsp with
  | none => exact .inl rfl
  | some message =>
      obtain ⟨response, handled, own, produced⟩ :=
        (matched.carries.calls present).2 message (.inr returned)
      refine .inr ⟨response, handled, by rw [produced], own, ?_⟩
      intro other otherValue otherPresent sameId
      have ids : (final.producers.calls.map Call.id).Nodup := by
        have all : final.producers.requests = requests events :=
          run_requests events reached
        rw [← all] at distinct
        simpa [Producers.requests, Call.request, Function.comp_def] using
          distinct
      obtain ⟨bound, _⟩ := List.getElem?_eq_some_iff.mp otherPresent
      refine (List.getElem?_inj (by simpa using bound) ids).mp ?_
      simp [present, otherPresent, sameId, own, Call.request]

namespace Example

/-- A message is the name of its type and a number, and the one handler counts
one up. -/
def counting : Methods (String × Nat) Unit where
  getTypeName := Prod.fst
  kRpcMethod _ name :=
    if name = "count" then some fun _ message => some ("counted", message.2 + 1)
    else none

/-- Two calls are answered in the other order, and the sweep comes between. -/
def crossed : List (SystemEvent String (String × Nat) Unit) :=
  [.producer (.workerRead 0 "counter"),
    .producer (.invoke 1 "counter" ("count", 10)),
    .producer (.runWorker 0 "counter"),
    .producer (.workerRead 1 "counter"),
    .producer (.invoke 2 "counter" ("count", 20)),
    .producer (.runWorker 1 "counter"), .request 0 0, .request 1 1,
    .handlerReturns 1 (), .handlerReturns 0 (), .response 1 0,
    .producer (.sweep 3), .response 0 1, .producer (.runInvoke 0),
    .producer (.runInvoke 1)]

theorem invoke_returns_own_response_crossed :
    ∃ (final : System String counting) (value : Call String (String × Nat)),
      run {} crossed = some final ∧ final.producers.calls[0]? = some value ∧
        value.stage = .returned (some ("counted", 11)) ∧
        ∃ response ∈ final.handled, response.resp = ("counted", 11) ∧
          response.data = value.request := by
  have stages : ((run ({} : System String counting) crossed).map
      fun final => final.producers.calls[0]?.map Call.stage) =
      some (some (.returned (some ("counted", 11)))) := by decide +kernel
  obtain ⟨final, reached, call⟩ := Option.map_eq_some_iff.mp stages
  obtain ⟨value, present, returned⟩ := Option.map_eq_some_iff.mp call
  refine ⟨final, value, reached, present, returned, ?_⟩
  rcases invoke_returns_own_response crossed (by decide +kernel) reached
    present returned with null | ⟨response, handled, produced, own, _⟩
  · simp at null
  · exact ⟨response, handled, (Option.some.inj produced).symm, own⟩

end Example

end System

end Natsu.Rpc
