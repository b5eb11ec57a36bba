import Natsu.Rpc.CallStates

/-!
# Requests that are handed over

A call waits in the queue of the writers to its service until a worker begins
a read for it.  Both sides come in order: which calls have left the queue is
said by the number of reads that the workers have begun.
-/

namespace Natsu.Rpc

open Natsu.Libgo Natsu.Foundation

variable {Service Message : Type}

namespace Producers

/-- The services of the calls, in the order of the calls. -/
def services (producers : Producers Service Message) : List Service :=
  producers.calls.map Call.service

variable [DecidableEq Service]

/-- The number of reads of the service that the workers have begun. -/
def readsBegun (service : Service) (past : List (Event Service Message)) :
    Nat :=
  past.countP fun
    | .workerRead _ other => other = service
    | _ => false

/-- The workers of the service of a call have begun more reads than there were
calls to it before this one. -/
def handedOver (producers : Producers Service Message)
    (past : List (Event Service Message)) (call : Nat) : Bool :=
  producers.services[call]?.any fun service =>
    (producers.services.take call).count service < readsBegun service past

/-- The writers of a service wait in the order of their calls, and each waits
for a read that is not among those that have begun. -/
structure Queued (services : List Service) (service : Service) (begun : Nat)
    (block : BlockObject Nat) : Prop where
  signals : begun ≤ block.wakeup + services.count service
  ordered : block.waitQueue.Pairwise (· < ·)
  waiting : ∀ call ∈ block.waitQueue, services[call]? = some service ∧
    begun ≤ (services.take call).count service

section Queues

variable {services : List Service} {service : Service} {begun call : Nat}
  {block : BlockObject Nat}

/-- A call of the service stands before every later one. -/
theorem count_take_lt {later : Nat} (isCall : services[call]? = some service)
    (before : call < later) :
    (services.take call).count service <
      (services.take later).count service := by
  have further := (List.take_sublist_take_left (l := services)
    (show call + 1 ≤ later from before)).count_le service
  have next : (services.take (call + 1)).count service =
      (services.take call).count service + 1 := by
    rw [List.take_add_one, isCall, List.count_append]
    simp
  exact Nat.lt_of_lt_of_le (by omega) further

/-- A worker begins a read. -/
theorem Queued.wake (queued : Queued services service begun block) :
    Queued services service (begun + 1) block.wake := by
  obtain ⟨signals, ordered, waiting⟩ := queued
  unfold BlockObject.wake
  split
  · rename_i empty
    refine ⟨?_, ordered, ?_⟩
    · show begun + 1 ≤ block.wakeup + 1 + _
      omega
    · intro call member
      exact absurd member (by simp [empty])
  · rename_i first rest isQueue
    rw [isQueue] at ordered waiting
    obtain ⟨beforeRest, orderedRest⟩ := List.pairwise_cons.mp ordered
    obtain ⟨isFirst, behind⟩ := waiting first List.mem_cons_self
    refine ⟨?_, orderedRest, ?_⟩
    · obtain ⟨inside, _⟩ := List.getElem?_eq_some_iff.mp isFirst
      have further := count_take_lt isFirst inside
      rw [List.take_length] at further
      show begun + 1 ≤ block.wakeup + _
      omega
    · intro call member
      obtain ⟨isCall, _⟩ := waiting call (List.mem_cons_of_mem _ member)
      have further := count_take_lt isFirst (beforeRest call member)
      exact ⟨isCall, by omega⟩

/-- A further call leaves the ones before it alone. -/
theorem Queued.waiting_concat (queued : Queued services service begun block)
    (other : Service) (member : call ∈ block.waitQueue) :
    call < services.length ∧ (services ++ [other])[call]? = some service ∧
      begun ≤ ((services ++ [other]).take call).count service := by
  obtain ⟨isCall, behind⟩ := queued.waiting call member
  obtain ⟨inside, _⟩ := List.getElem?_eq_some_iff.mp isCall
  refine ⟨inside, ?_, ?_⟩
  · rwa [List.getElem?_append_left inside]
  · rwa [List.take_append_of_le_length (Nat.le_of_lt inside)]

/-- A call to another service begins. -/
theorem Queued.concat (queued : Queued services service begun block)
    (other : Service) : Queued (services ++ [other]) service begun block := by
  refine ⟨?_, queued.ordered, ?_⟩
  · have signals := queued.signals
    rw [List.count_append]
    omega
  · intro call member
    exact (queued.waiting_concat other member).2

/-- A call to the service takes a signal or joins the queue. -/
theorem Queued.coBlockWait (queued : Queued services service begun block) :
    Queued (services ++ [service]) service begun
      (block.coBlockWait services.length).2 := by
  have signals := queued.signals
  have counted : (services ++ [service]).count service =
      services.count service + 1 := by
    rw [List.count_append]
    simp
  unfold BlockObject.coBlockWait
  split
  · rename_i signalled
    refine ⟨?_, queued.ordered, ?_⟩
    · rw [counted]
      show begun ≤ block.wakeup - 1 + _
      omega
    · intro call member
      exact (queued.waiting_concat service member).2
  · refine ⟨?_, ?_, ?_⟩
    · rw [counted]
      show begun ≤ block.wakeup + _
      omega
    · refine List.pairwise_append.mpr
        ⟨queued.ordered, List.pairwise_singleton _ _, ?_⟩
      intro call member last isLast
      rw [List.mem_singleton.mp isLast]
      exact (queued.waiting_concat service member).1
    · intro call member
      rcases List.mem_append.mp member with earlier | isNew
      · exact (queued.waiting_concat service earlier).2
      · rw [List.mem_singleton.mp isNew]
        refine ⟨List.getElem?_concat_length, ?_⟩
        rw [List.take_left]
        omega

theorem Queued.congr (queued : Queued services service begun block)
    {other : BlockObject Nat} (wakeup : other.wakeup = block.wakeup)
    (waitQueue : other.waitQueue = block.waitQueue) :
    Queued services service begun other :=
  ⟨wakeup ▸ queued.signals, waitQueue ▸ queued.ordered,
    waitQueue ▸ queued.waiting⟩

end Queues

/-- The queues of all services, after these events. -/
def QueuedAfter (past : List (Event Service Message))
    (producers : Producers Service Message) : Prop :=
  ∀ service, Queued producers.services service (readsBegun service past)
    (producers.kServiceRpcChannel service).writeBlock

section Events

variable {past : List (Event Service Message)}
  {producers next : Producers Service Message} {call : Nat}
  {value : Call Service Message}

/-- A call that is handed over does not wait for a worker. -/
theorem QueuedAfter.left (queued : producers.QueuedAfter past)
    (present : producers.calls[call]? = some value)
    (handed : producers.handedOver past call = true) :
    call ∉
      (producers.kServiceRpcChannel value.service).writeBlock.waitQueue := by
  intro waits
  have isService : producers.services[call]? = some value.service := by
    simp [services, present]
  have behind := ((queued value.service).waiting call waits).2
  simp only [handedOver, isService, Option.any_some, decide_eq_true_eq]
    at handed
  omega

omit [DecidableEq Service] in
theorem services_setCall (present : producers.calls[call]? = some value)
    {changed : Call Service Message}
    (ofService : changed.service = value.service) :
    (producers.setCall call changed).services = producers.services := by
  apply List.ext_getElem?
  intro other
  simp only [services, setCall, List.getElem?_map,
    getElem?_set_of_present other changed present]
  split
  · rename_i same
    rw [same, present]
    simp [ofService]
  · rfl

theorem QueuedAfter.congr (queued : producers.QueuedAfter past)
    (services : next.services = producers.services)
    (channels : next.kServiceRpcChannel = producers.kServiceRpcChannel) :
    next.QueuedAfter past := by
  intro service
  rw [services, channels]
  exact queued service

/-- The channel of one service changes. -/
theorem queuedAfter_setService {service : Service}
    {channel : Channel (RpcChannelData Message) Nat Nat}
    (here : Queued producers.services service (readsBegun service past)
      channel.writeBlock)
    (others : ∀ other, other ≠ service →
      Queued producers.services other (readsBegun other past)
        (producers.kServiceRpcChannel other).writeBlock) :
    (producers.setService service channel).QueuedAfter past := by
  intro other
  show Queued producers.services other _
    (Function.update producers.kServiceRpcChannel service channel
      other).writeBlock
  by_cases same : other = service
  · subst same
    rw [Function.update_self]
    exact here
  · rw [Function.update_of_ne same]
    exact others other same

theorem QueuedAfter.readReply (queued : producers.QueuedAfter past)
    (present : producers.calls[call]? = some value) :
    (producers.readReply call value).QueuedAfter past := by
  unfold Producers.readReply
  split
  · exact queued.congr (services_setCall present rfl) rfl
  · exact queued.congr (services_setCall present rfl) rfl

theorem QueuedAfter.invoke (queued : producers.QueuedAfter past) (id : UInt64)
    (service : Service) (msg : Message) :
    (producers.invoke id service msg).QueuedAfter past := by
  let value : Call Service Message :=
    { id := id, service := service, msg := msg }
  have extended : (producers.register value).services =
      producers.services ++ [service] := by
    simp [services, register, value]
  have registered (channel : Channel (RpcChannelData Message) Nat Nat)
      (written : ((producers.kServiceRpcChannel service).write
        producers.calls.length value.request).2 = channel) :
      ((producers.register value).setService service channel).QueuedAfter
        past := by
    refine queuedAfter_setService ?_ fun other _ => ?_
    · have width : producers.services.length = producers.calls.length := by
        simp [services]
      have joined := (queued service).coBlockWait
      rw [width, ← Channel.write_writeBlock _ _ value.request, written]
        at joined
      rw [extended]
      exact joined
    · rw [extended]
      exact (queued other).concat service
  have present : (producers.register value).calls[producers.calls.length]? =
      some value := List.getElem?_concat_length
  simp only [Producers.invoke]
  split
  · rename_i channel written
    exact registered channel (by rw [written])
  · rename_i channel written
    have sent := registered channel (by rw [written])
    exact sent.readReply present

theorem QueuedAfter.runInvoke (queued : producers.QueuedAfter past)
    (step : producers.runInvoke call = some next) : next.QueuedAfter past := by
  obtain ⟨value, present, ⟨channel, _, resumed, rfl⟩ |
    ⟨rsp, channel, _, _, rfl⟩⟩ := runInvoke_cases step
  · obtain ⟨wakeup, waitQueue⟩ := Channel.resumeWrite_writeBlock resumed
    have sent : (producers.setService value.service channel).QueuedAfter past :=
      queuedAfter_setService ((queued value.service).congr wakeup waitQueue)
        fun other _ => queued other
    exact sent.readReply present
  · exact queued.congr (services_setCall present rfl) rfl

theorem QueuedAfter.runWorker (queued : producers.QueuedAfter past)
    {worker : Nat} {service : Service}
    (step : producers.runWorker worker service = some next) :
    next.QueuedAfter past := by
  obtain ⟨data, channel, taken, rfl⟩ := runWorker_cases step
  obtain ⟨_, same, _⟩ := Channel.resumeRead_done taken
  have resumed : (producers.setService service channel).QueuedAfter past := by
    refine queuedAfter_setService ?_ fun other _ => queued other
    rw [same]
    exact queued service
  exact resumed.congr rfl rfl

theorem QueuedAfter.response (queued : producers.QueuedAfter past)
    {reader : Nat} {rid : UInt64} {message : Message}
    (step : producers.response reader rid message = some next) :
    next.QueuedAfter past := by
  rcases response_cases step with rfl |
    ⟨call, value, channel, _, present, ⟨_, rfl⟩ | ⟨_, rfl⟩⟩
  · exact queued
  · exact queued.congr (services_setCall present rfl) rfl
  · exact queued.congr (services_setCall present rfl) rfl

theorem QueuedAfter.runReader (queued : producers.QueuedAfter past)
    {reader : Nat} (step : producers.runReader reader = some next) :
    next.QueuedAfter past := by
  obtain ⟨call, message, value, channel, _, present, _, rfl⟩ :=
    runReader_cases step
  exact queued.congr (services_setCall present rfl) rfl

theorem QueuedAfter.pushNulls (calls : List Nat) :
    ∀ {producers : Producers Service Message}, producers.QueuedAfter past →
      (Producers.pushNulls calls producers).QueuedAfter past := by
  induction calls with
  | nil =>
      intro producers queued
      exact queued
  | cons call calls induction =>
      intro producers queued
      unfold Producers.pushNulls
      split
      · exact queued
      · split
        · exact queued
        · rename_i value present
          refine induction ?_
          rcases pushNull_cases producers call value with
            ⟨channel, _, pushed⟩ | pushed
          · rw [pushed]
            exact queued.congr (services_setCall present rfl) rfl
          · rw [pushed]
            exact queued.congr rfl rfl

/-- Only a read of a worker counts. -/
theorem QueuedAfter.later (queued : next.QueuedAfter past)
    {event : Event Service Message}
    (other : ∀ worker service, event ≠ .workerRead worker service) :
    next.QueuedAfter (past ++ [event]) := by
  intro service
  have same : readsBegun service (past ++ [event]) =
      readsBegun service past := by
    simp only [readsBegun, List.countP_append]
    cases event with
    | workerRead worker service => exact absurd rfl (other worker service)
    | _ => simp
  rw [same]
  exact queued service

theorem QueuedAfter.workerRead (queued : producers.QueuedAfter past)
    {worker : Nat} {service : Service}
    (step : producers.workerRead worker service = some next) :
    next.QueuedAfter (past ++ [.workerRead worker service]) := by
  have begun : readsBegun service (past ++
      [(.workerRead worker service : Event Service Message)]) =
        readsBegun service past + 1 := by
    simp [readsBegun]
  have read (channel : Channel (RpcChannelData Message) Nat Nat)
      (woken : channel.writeBlock =
        (producers.kServiceRpcChannel service).writeBlock.wake) :
      (producers.setService service channel).QueuedAfter
        (past ++ [.workerRead worker service]) := by
    refine queuedAfter_setService ?_ fun other different => ?_
    · rw [woken, begun]
      exact (queued service).wake
    · have kept : readsBegun other (past ++
          [(.workerRead worker service : Event Service Message)]) =
            readsBegun other past := by
        simp [readsBegun, Ne.symm different]
      rw [kept]
      exact queued other
  rcases workerRead_cases step with
    ⟨data, channel, taken, rfl⟩ | ⟨channel, taken, rfl⟩
  · exact (read channel (Channel.read_done taken).2.1).congr rfl rfl
  · exact read channel (Channel.read_parked taken).1

theorem step_queuedAfter (queued : producers.QueuedAfter past)
    {event : Event Service Message}
    (stepped : producers.step event = some next) :
    next.QueuedAfter (past ++ [event]) := by
  have acted := act_of_step stepped
  cases event with
  | invoke id service msg =>
      obtain rfl := Option.some.inj acted
      exact (queued.invoke id service msg).later (by simp)
  | runInvoke call => exact (queued.runInvoke acted).later (by simp)
  | workerRead worker service => exact queued.workerRead acted
  | runWorker worker service => exact (queued.runWorker acted).later (by simp)
  | response reader rid message => exact (queued.response acted).later (by simp)
  | runReader reader => exact (queued.runReader acted).later (by simp)
  | sweep n =>
      obtain rfl := Option.some.inj acted
      exact (queued.pushNulls _).later (by simp)

theorem initial_queuedAfter :
    ({} : Producers Service Message).QueuedAfter [] := by
  intro service
  exact ⟨Nat.zero_le _, List.Pairwise.nil, by simp⟩

end Events

end Producers

end Natsu.Rpc
