import Natsu.Rpc.CallStates

/-!
# What the producers carry

Whatever holds of the requests that are invoked, and of the messages that
arrive for the calls they find, holds of all requests and messages on their
way, in the channels and in the writes that wait.
-/

namespace Natsu.Rpc

open Natsu.Libgo

variable {Service Message : Type}

/-- What has come to the call, or what it has returned, answers its
request. -/
def Call.Answered (Reply : RpcChannelData Message → Message → Prop)
    (value : Call Service Message) : Prop :=
  ∀ message, some message ∈ value.channel.queue ∨
      value.stage = .returned (some message) →
    Reply value.request message

namespace Producers

/-- Only requests and replies that satisfy the two conditions are on their
way. -/
structure Carries (Sent : RpcChannelData Message → Prop)
    (Reply : RpcChannelData Message → Message → Prop)
    (producers : Producers Service Message) : Prop where
  calls : ∀ {call : Nat} {value : Call Service Message},
    producers.calls[call]? = some value →
    Sent value.request ∧ value.Answered Reply
  queued : ∀ service, ∀ data ∈ (producers.kServiceRpcChannel service).queue,
    Sent data
  taken : ∀ data ∈ producers.taken, Sent data
  blocked : ∀ {reader call message},
    producers.blocked reader = some (call, message) →
    ∃ value : Call Service Message, producers.calls[call]? = some value ∧
      Reply value.request message

variable {Sent : RpcChannelData Message → Prop}
  {Reply : RpcChannelData Message → Message → Prop}
  {producers : Producers Service Message}

theorem Carries.mono {More : RpcChannelData Message → Message → Prop}
    (weaker : ∀ {data message}, Reply data message → More data message)
    (carries : producers.Carries Sent Reply) :
    producers.Carries Sent More where
  calls := by
    intro call value present
    obtain ⟨sent, answered⟩ := carries.calls present
    exact ⟨sent, fun message found => weaker (answered message found)⟩
  queued := carries.queued
  taken := carries.taken
  blocked waits := by
    obtain ⟨value, present, reply⟩ := carries.blocked waits
    exact ⟨value, present, weaker reply⟩

section Call

variable {call : Nat} {value : Call Service Message}

theorem Carries.setCall (carries : producers.Carries Sent Reply)
    (present : producers.calls[call]? = some value)
    (next : Call Service Message) (same : next.request = value.request)
    (answered : next.Answered Reply) :
    (producers.setCall call next).Carries Sent Reply where
  calls := by
    intro other current found
    rcases of_getElem?_set present found with ⟨_, rfl⟩ | ⟨_, earlier⟩
    · refine ⟨?_, answered⟩
      rw [same]
      exact (carries.calls present).1
    · exact carries.calls earlier
  queued := carries.queued
  taken := carries.taken
  blocked := by
    intro reader other message waits
    obtain ⟨current, found, reply⟩ := carries.blocked waits
    have updated := getElem?_set_of_present other next present
    by_cases isCall : other = call
    · subst isCall
      rw [present] at found
      obtain rfl := Option.some.inj found
      exact ⟨next, updated.trans (if_pos rfl), same ▸ reply⟩
    · exact ⟨current, updated.trans ((if_neg isCall).trans found), reply⟩

/-- The call takes the first value of its channel and returns it. -/
theorem Carries.finish (carries : producers.Carries Sent Reply)
    (present : producers.calls[call]? = some value) {rsp : Option Message}
    {channel : Channel (Option Message) Nat Unit}
    (queue : value.channel.queue = rsp :: channel.queue) :
    (producers.finish call { value with channel := channel } rsp).Carries
      Sent Reply := by
  let returned : Call Service Message :=
    { value with stage := .returned rsp, channel := channel }
  have answered : returned.Answered Reply := by
    intro message found
    refine (carries.calls present).2 message (.inl ?_)
    rw [queue]
    rcases found with waits | isRsp
    · exact List.mem_cons_of_mem _ waits
    · rw [Stage.returned.inj isRsp]
      exact List.mem_cons_self
  have next := carries.setCall present returned rfl answered
  exact ⟨next.calls, next.queued, next.taken, next.blocked⟩

theorem readReply_carries (carries : producers.Carries Sent Reply)
    (present : producers.calls[call]? = some value) :
    (producers.readReply call value).Carries Sent Reply := by
  unfold readReply
  split
  · rename_i rsp channel taken
    obtain ⟨_, _, _, queue⟩ := Channel.read_done taken
    exact carries.finish present queue
  · rename_i channel taken
    obtain ⟨_, _, queue⟩ := Channel.read_parked taken
    refine carries.setCall present _ rfl ?_
    rintro message (waits | returned)
    · exact (carries.calls present).2 message (.inl (queue ▸ waits))
    · simp at returned

/-- A value is put into the channel of a call that has a right to it. -/
theorem Carries.deliver (carries : producers.Carries Sent Reply)
    (present : producers.calls[call]? = some value) {reply : Option Message}
    (right : ∀ message, reply = some message → Reply value.request message)
    {channel : Channel (Option Message) Nat Unit}
    (queue : channel.queue = value.channel.queue ++ [reply]) :
    (producers.setCall call { value with channel := channel }).Carries
      Sent Reply := by
  refine carries.setCall present _ rfl ?_
  rintro message (waits | returned)
  · rw [queue] at waits
    rcases List.mem_append.mp waits with earlier | isNew
    · exact (carries.calls present).2 message (.inl earlier)
    · exact right message (List.mem_singleton.mp isNew).symm
  · exact (carries.calls present).2 message (.inr returned)

theorem Carries.block (carries : producers.Carries Sent Reply)
    {blocked : Nat → Option (Nat × Message)}
    (right : ∀ {reader call message},
      blocked reader = some (call, message) →
      ∃ value : Call Service Message, producers.calls[call]? = some value ∧
        Reply value.request message) :
    Carries Sent Reply { producers with blocked := blocked } :=
  ⟨carries.calls, carries.queued, carries.taken, right⟩

theorem Carries.notePush (carries : producers.Carries Sent Reply)
    (call : Nat) (ready : Bool) :
    (producers.notePush call ready).Carries Sent Reply :=
  ⟨carries.calls, carries.queued, carries.taken, carries.blocked⟩

theorem response_carries (carries : producers.Carries Sent Reply)
    {reader : Nat} {rid : UInt64} {message : Message}
    (right : ∀ call value, producers.kClientRpcChannel[rid]? = some call →
      producers.calls[call]? = some value → Reply value.request message)
    {next : Producers Service Message}
    (step : producers.response reader rid message = some next) :
    next.Carries Sent Reply := by
  rcases response_cases step with rfl |
    ⟨call, value, channel, entry, present, ⟨written, rfl⟩ | ⟨written, rfl⟩⟩
  · exact carries
  · obtain ⟨_, _, queue⟩ := Channel.write_done written
    refine (carries.notePush call _).deliver present ?_ queue
    intro text same
    rw [← Option.some.inj same]
    exact right call value entry present
  · obtain ⟨_, _, queue⟩ := Channel.write_parked written
    have same : ((producers.notePush call (producers.ready call value)).setCall
        call { value with channel := channel }).Carries Sent Reply := by
      refine (carries.notePush call _).setCall present _ rfl ?_
      intro text found
      exact (carries.calls present).2 text (queue ▸ found)
    apply same.block
    intro other current text waits
    by_cases isReader : other = reader
    · subst isReader
      simp only [Function.update_self, Option.some.injEq,
        Prod.mk.injEq] at waits
      obtain ⟨rfl, rfl⟩ := waits
      refine ⟨{ value with channel := channel }, ?_,
        right call value entry present⟩
      exact (getElem?_set_of_present _ _ present).trans (if_pos rfl)
    · rw [Function.update_of_ne isReader] at waits
      exact same.blocked waits

theorem runReader_carries (carries : producers.Carries Sent Reply)
    {reader : Nat} {next : Producers Service Message}
    (step : producers.runReader reader = some next) :
    next.Carries Sent Reply := by
  obtain ⟨call, message, value, channel, waits, present, resumed, rfl⟩ :=
    runReader_cases step
  obtain ⟨_, _, queue⟩ := Channel.resumeWrite_done resumed
  have delivered : (producers.setCall call
      { value with channel := channel }).Carries Sent Reply := by
    refine carries.deliver present ?_ queue
    intro text same
    obtain ⟨current, found, reply⟩ := carries.blocked waits
    rw [present] at found
    rw [← Option.some.inj same, Option.some.inj found]
    exact reply
  apply delivered.block
  intro other current text stillWaits
  by_cases same : other = reader
  · simp [same] at stillWaits
  · rw [Function.update_of_ne same] at stillWaits
    exact delivered.blocked stillWaits

theorem pushNull_carries (carries : producers.Carries Sent Reply)
    (present : producers.calls[call]? = some value) :
    (producers.pushNull call value).Carries Sent Reply := by
  have noted := carries.notePush call value.parked
  rcases pushNull_cases producers call value with
    ⟨channel, written, pushed⟩ | pushed
  · obtain ⟨_, _, queue⟩ := Channel.spinWrite_done written
    rw [pushed]
    exact noted.deliver present (by simp) queue
  · rw [pushed]
    exact ⟨noted.calls, noted.queued, noted.taken, noted.blocked⟩

theorem pushNulls_carries (calls : List Nat) :
    ∀ {producers : Producers Service Message},
      producers.Carries Sent Reply →
      (pushNulls calls producers).Carries Sent Reply := by
  induction calls with
  | nil =>
      intro producers carries
      exact carries
  | cons call calls induction =>
      intro producers carries
      unfold pushNulls
      split
      · exact carries
      · split
        · exact carries
        · rename_i value present
          exact induction (pushNull_carries carries present)

theorem Carries.register (carries : producers.Carries Sent Reply)
    (sent : Sent value.request) (answered : value.Answered Reply) :
    (producers.register value).Carries Sent Reply where
  calls := by
    intro call current found
    rcases of_getElem?_concat found with earlier | ⟨_, rfl⟩
    · exact carries.calls earlier
    · exact ⟨sent, answered⟩
  queued := carries.queued
  taken := carries.taken
  blocked := by
    intro reader call message waits
    obtain ⟨older, present, reply⟩ := carries.blocked waits
    exact ⟨older, getElem?_concat_of_present _ present, reply⟩

end Call

section Service

variable [DecidableEq Service] {service : Service}
  {channel : Channel (RpcChannelData Message) Nat Nat}
  {next : Producers Service Message}

theorem Carries.setService (carries : producers.Carries Sent Reply)
    (sent : ∀ data ∈ channel.queue, Sent data) :
    (producers.setService service channel).Carries Sent Reply where
  calls := carries.calls
  queued other := by
    by_cases same : other = service
    · subst same
      simpa [Producers.setService] using sent
    · simpa [Producers.setService, Function.update_of_ne same] using
        carries.queued other
  taken := carries.taken
  blocked := carries.blocked

/-- A worker gets the first request of the queue. -/
theorem Carries.take (carries : producers.Carries Sent Reply)
    {data : RpcChannelData Message}
    (queue : (producers.kServiceRpcChannel service).queue =
      data :: channel.queue) :
    Carries Sent Reply { producers.setService service channel with
      taken := producers.taken ++ [data] } := by
  have sent : ∀ item ∈ data :: channel.queue, Sent item := by
    intro item member
    exact carries.queued service item (queue ▸ member)
  have moved : (producers.setService service channel).Carries Sent Reply :=
    carries.setService fun item member =>
      sent item (List.mem_cons_of_mem _ member)
  refine ⟨moved.calls, moved.queued, ?_, moved.blocked⟩
  intro item member
  rcases List.mem_append.mp member with earlier | isNew
  · exact carries.taken item earlier
  · rw [List.mem_singleton.mp isNew]
    exact sent data List.mem_cons_self

theorem workerRead_carries (carries : producers.Carries Sent Reply)
    {worker : Nat}
    (step : producers.workerRead worker service = some next) :
    next.Carries Sent Reply := by
  rcases workerRead_cases step with
    ⟨data, channel, taken, rfl⟩ | ⟨channel, taken, rfl⟩
  · obtain ⟨_, _, _, queue⟩ := Channel.read_done taken
    exact carries.take queue
  · obtain ⟨_, _, queue⟩ := Channel.read_parked taken
    apply carries.setService
    rw [queue]
    exact carries.queued service

theorem runWorker_carries (carries : producers.Carries Sent Reply)
    {worker : Nat}
    (step : producers.runWorker worker service = some next) :
    next.Carries Sent Reply := by
  obtain ⟨data, channel, taken, rfl⟩ := runWorker_cases step
  obtain ⟨_, _, queue⟩ := Channel.resumeRead_done taken
  exact carries.take queue

/-- A call puts its request into the queue. -/
theorem Carries.send (carries : producers.Carries Sent Reply)
    {data : RpcChannelData Message} (sent : Sent data)
    (queue : channel.queue =
      (producers.kServiceRpcChannel service).queue ++ [data]) :
    (producers.setService service channel).Carries Sent Reply := by
  apply carries.setService
  rw [queue]
  intro item member
  rcases List.mem_append.mp member with earlier | isNew
  · exact carries.queued service item earlier
  · rw [List.mem_singleton.mp isNew]
    exact sent

theorem runInvoke_carries (carries : producers.Carries Sent Reply)
    {call : Nat} (step : producers.runInvoke call = some next) :
    next.Carries Sent Reply := by
  obtain ⟨value, present, ⟨channel, _, resumed, rfl⟩ |
    ⟨rsp, channel, _, resumed, rfl⟩⟩ := runInvoke_cases step
  · obtain ⟨_, _, queue⟩ := Channel.resumeWrite_done resumed
    exact readReply_carries (carries.send (carries.calls present).1 queue)
      present
  · obtain ⟨_, _, queue⟩ := Channel.resumeRead_done resumed
    exact carries.finish present queue

theorem invoke_carries (carries : producers.Carries Sent Reply)
    {id : UInt64} {msg : Message} (sent : Sent { id := id, msg := msg }) :
    (producers.invoke id service msg).Carries Sent Reply := by
  let value : Call Service Message :=
    { id := id, service := service, msg := msg }
  have answered : value.Answered Reply := by
    intro message found
    simp [value] at found
  have registered : (producers.register value).Carries Sent Reply :=
    carries.register sent answered
  simp only [invoke]
  split
  · rename_i channel written
    obtain ⟨_, _, queue⟩ := Channel.write_parked written
    apply registered.setService
    rw [queue]
    exact carries.queued service
  · rename_i channel written
    obtain ⟨_, _, queue⟩ := Channel.write_done written
    exact readReply_carries (registered.send sent queue)
      List.getElem?_concat_length

end Service

/-- What the system around the producers has to grant for an event. -/
def Grants (producers : Producers Service Message)
    (Sent : RpcChannelData Message → Prop)
    (Reply : RpcChannelData Message → Message → Prop) :
    Event Service Message → Prop
  | .invoke id _ msg => Sent { id := id, msg := msg }
  | .response _ rid message => ∀ call value,
      producers.kClientRpcChannel[rid]? = some call →
      producers.calls[call]? = some value → Reply value.request message
  | _ => True

theorem step_carries [DecidableEq Service]
    (carries : producers.Carries Sent Reply) {event : Event Service Message}
    (grants : producers.Grants Sent Reply event)
    {next : Producers Service Message}
    (stepped : producers.step event = some next) :
    next.Carries Sent Reply := by
  have acted := act_of_step stepped
  cases event with
  | invoke id service msg =>
      obtain rfl := Option.some.inj acted
      exact invoke_carries carries grants
  | runInvoke call => exact runInvoke_carries carries acted
  | workerRead worker service => exact workerRead_carries carries acted
  | runWorker worker service => exact runWorker_carries carries acted
  | response reader rid message => exact response_carries carries grants acted
  | runReader reader => exact runReader_carries carries acted
  | sweep n =>
      obtain rfl := Option.some.inj acted
      exact pushNulls_carries _ carries

end Producers

end Natsu.Rpc
