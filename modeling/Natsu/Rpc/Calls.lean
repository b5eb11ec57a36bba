import Mathlib.Logic.Function.Basic
import Natsu.Foundation.Run
import Natsu.Libgo.Channel
import Std.Data.ExtTreeMap

/-!
# Calls and the producers that carry them

The global state that all producers of a process share: the pending calls in
`kClientRpcChannel` and a channel of requests for each service.  A coroutine
gives way only where it waits on a channel or reads a socket, so an event of a
run is what one coroutine, or one timer callback, does between two such
places.
-/

namespace Natsu.Rpc

open Natsu.Libgo

variable {Service Message : Type}

structure RpcChannelData (Message : Type) where
  id : UInt64
  msg : Message

/-- Where the coroutine of a call stands: in the write to the service channel,
in the read of its own channel, or done. -/
inductive Stage (Message : Type) where
  | serviceWrite
  | clientRead
  | returned (rsp : Option Message)
  deriving DecidableEq

/-- One execution of `invoke`.  Its channel is written by the coroutines that
read a connection, which are numbered. -/
structure Call (Service Message : Type) where
  id : UInt64
  service : Service
  msg : Message
  stage : Stage Message := .serviceWrite
  channel : Channel (Option Message) Nat Unit := {}

namespace Call

def request (value : Call Service Message) : RpcChannelData Message :=
  { id := value.id, msg := value.msg }

def reads (value : Call Service Message) : Bool :=
  match value.stage with
  | .clientRead => true
  | _ => false

/-- Whether the call is parked at the read of its own channel. -/
def parked (value : Call Service Message) : Bool :=
  match value.stage with
  | .clientRead => () ∈ value.channel.readBlock.waitQueue
  | _ => false

end Call

/-- A write to the channel of a call, as it was begun: whether the call was
parked at its read, or would come to it while the write waits, and whether there
had been a write before. -/
structure Push where
  call : Nat
  ready : Bool
  again : Bool
  deriving DecidableEq, Repr

/-- The state.  A call is its position in `calls`, which stands for the
channel that `kClientRpcChannel` points to.  `blocked` holds the writes that
the readers of connections have not finished, and `hung` says that a timer
callback spins for ever. -/
structure Producers (Service Message : Type) where
  calls : List (Call Service Message) := []
  kClientRpcChannel : Std.ExtTreeMap UInt64 Nat := ∅
  kServiceRpcChannel : Service → Channel (RpcChannelData Message) Nat Nat :=
    fun _ => {}
  blocked : Nat → Option (Nat × Message) := fun _ => none
  taken : List (RpcChannelData Message) := []
  pushes : List Push := []
  hung : Bool := false

inductive Event (Service Message : Type) where
  | invoke (id : UInt64) (service : Service) (msg : Message)
  | runInvoke (call : Nat)
  | workerRead (worker : Nat) (service : Service)
  | runWorker (worker : Nat) (service : Service)
  | response (reader : Nat) (rid : UInt64) (message : Message)
  | runReader (reader : Nat)
  | sweep (n : UInt64)

def Event.isResponse : Event Service Message → Bool
  | .response .. => true
  | _ => false

/-- The request of an event that begins a call. -/
def Event.request? :
    Event Service Message → Option (RpcChannelData Message)
  | .invoke id _ msg => some { id := id, msg := msg }
  | _ => none

def diff : UInt64 := (15000 : UInt64) <<< 22

namespace Producers

variable [DecidableEq Service]

def setCall (producers : Producers Service Message) (call : Nat)
    (value : Call Service Message) : Producers Service Message :=
  { producers with calls := producers.calls.set call value }

def setService (producers : Producers Service Message) (service : Service)
    (channel : Channel (RpcChannelData Message) Nat Nat) :
    Producers Service Message :=
  { producers with kServiceRpcChannel :=
      Function.update producers.kServiceRpcChannel service channel }

/-- The end of `invoke`, with the value read. -/
def finish (producers : Producers Service Message) (call : Nat)
    (value : Call Service Message) (rsp : Option Message) :
    Producers Service Message :=
  { producers.setCall call { value with stage := .returned rsp } with
    kClientRpcChannel := producers.kClientRpcChannel.erase value.id }

/-- `(*newchannel) >> rsp`. -/
def readReply (producers : Producers Service Message) (call : Nat)
    (value : Call Service Message) : Producers Service Message :=
  match value.channel.read () with
  | (some rsp, channel) =>
      producers.finish call { value with channel := channel } rsp
  | (none, channel) =>
      producers.setCall call
        { value with stage := .clientRead, channel := channel }

/-- `kClientRpcChannel[id] = newchannel`. -/
def register (producers : Producers Service Message)
    (value : Call Service Message) : Producers Service Message :=
  { producers with
    calls := producers.calls ++ [value]
    kClientRpcChannel :=
      producers.kClientRpcChannel.insert value.id producers.calls.length }

/-- `invoke` up to the place where it first waits. -/
def invoke (producers : Producers Service Message) (id : UInt64)
    (service : Service) (msg : Message) : Producers Service Message :=
  let call := producers.calls.length
  let value : Call Service Message :=
    { id := id, service := service, msg := msg }
  match (producers.kServiceRpcChannel service).write call value.request with
  | (false, channel) => (producers.register value).setService service channel
  | (true, channel) =>
      ((producers.register value).setService service channel).readReply call
        value

/-- `invoke` from the place where it was woken. -/
def runInvoke (producers : Producers Service Message) (call : Nat) :
    Option (Producers Service Message) :=
  producers.calls[call]?.bind fun value =>
    match value.stage with
    | .serviceWrite =>
        ((producers.kServiceRpcChannel value.service).resumeWrite call
          value.request).map fun channel =>
          (producers.setService value.service channel).readReply call value
    | .clientRead =>
        (value.channel.resumeRead ()).map fun (rsp, channel) =>
          producers.finish call { value with channel := channel } rsp
    | .returned _ => none

/-- A worker of `comm_one_server` starts the read of its service channel. -/
def workerRead (producers : Producers Service Message) (worker : Nat)
    (service : Service) : Option (Producers Service Message) :=
  if worker ∈ (producers.kServiceRpcChannel service).readBlock.tasks then none
  else
    match (producers.kServiceRpcChannel service).read worker with
    | (some data, channel) =>
        some { producers.setService service channel with
          taken := producers.taken ++ [data] }
    | (none, channel) => some (producers.setService service channel)

def runWorker (producers : Producers Service Message) (worker : Nat)
    (service : Service) : Option (Producers Service Message) :=
  ((producers.kServiceRpcChannel service).resumeRead worker).map
    fun (data, channel) =>
      { producers.setService service channel with
        taken := producers.taken ++ [data] }

/-- Whether the call is parked at its read, or woken where it waited and next
to execute the read. -/
def ready (producers : Producers Service Message) (call : Nat)
    (value : Call Service Message) : Bool :=
  match value.stage with
  | .serviceWrite =>
      call ∈ (producers.kServiceRpcChannel value.service).writeBlock.woken
  | .clientRead => value.parked
  | .returned _ => false

def notePush (producers : Producers Service Message) (call : Nat)
    (ready : Bool) : Producers Service Message :=
  { producers with pushes := producers.pushes ++ [{
      call := call
      ready := ready
      again := call ∈ producers.pushes.map Push.call }] }

/-- One message in `EtcdProducer::handle_parse`. -/
def response (producers : Producers Service Message) (reader : Nat)
    (rid : UInt64) (message : Message) : Option (Producers Service Message) :=
  if producers.blocked reader ≠ none then none
  else
    match producers.kClientRpcChannel[rid]? with
    | none => some producers
    | some call =>
        producers.calls[call]?.map fun value =>
          let producers :=
            producers.notePush call (producers.ready call value)
          match value.channel.write reader (some message) with
          | (true, channel) =>
              producers.setCall call { value with channel := channel }
          | (false, channel) =>
              { producers.setCall call { value with channel := channel } with
                blocked := Function.update producers.blocked reader
                  (some (call, message)) }

/-- The reader of a connection goes on with a write that had to wait. -/
def runReader (producers : Producers Service Message) (reader : Nat) :
    Option (Producers Service Message) :=
  (producers.blocked reader).bind fun (call, message) =>
    producers.calls[call]?.bind fun value =>
      (value.channel.resumeWrite reader (some message)).map fun channel =>
        { producers.setCall call { value with channel := channel } with
          blocked := Function.update producers.blocked reader none }

/-- `(*it->second) << ptr` in the timer callback.  While it spins a call that
is woken does not run. -/
def pushNull (producers : Producers Service Message) (call : Nat)
    (value : Call Service Message) : Producers Service Message :=
  let producers := producers.notePush call value.parked
  match value.channel.spinWrite none with
  | some channel => producers.setCall call { value with channel := channel }
  | none => { producers with hung := true }

/-- The loop of `handle_produce_timeout` over the calls it addresses. -/
def pushNulls : List Nat → Producers Service Message →
    Producers Service Message
  | [], producers => producers
  | call :: calls, producers =>
      if producers.hung then producers
      else
        match producers.calls[call]? with
        | none => producers
        | some value => pushNulls calls (producers.pushNull call value)

/-- The calls that a sweep with the id `n` addresses, in the order of the
map. -/
def expired (producers : Producers Service Message) (n : UInt64) : List Nat :=
  (producers.kClientRpcChannel.toList.filter fun entry =>
    n - entry.1 > diff).map Prod.snd

def handleProduceTimeout (producers : Producers Service Message)
    (n : UInt64) : Producers Service Message :=
  pushNulls (producers.expired n) producers

/-- What an event does.  `none` is an event that cannot happen now. -/
def act (producers : Producers Service Message) :
    Event Service Message → Option (Producers Service Message)
  | .invoke id service msg => some (producers.invoke id service msg)
  | .runInvoke call => producers.runInvoke call
  | .workerRead worker service => producers.workerRead worker service
  | .runWorker worker service => producers.runWorker worker service
  | .response reader rid message => producers.response reader rid message
  | .runReader reader => producers.runReader reader
  | .sweep n => some (producers.handleProduceTimeout n)

/-- One event, unless a timer callback spins. -/
def step (producers : Producers Service Message)
    (event : Event Service Message) : Option (Producers Service Message) :=
  if producers.hung then none else producers.act event

def run (producers : Producers Service Message)
    (events : List (Event Service Message)) :
    Option (Producers Service Message) :=
  Foundation.runWith step producers events

section Effects

variable {producers next : Producers Service Message}

theorem act_of_step {event : Event Service Message}
    (stepped : producers.step event = some next) :
    producers.act event = some next := by
  unfold step at stepped
  split at stepped
  · simp at stepped
  · exact stepped

theorem runInvoke_cases {call : Nat}
    (step : producers.runInvoke call = some next) :
    ∃ value, producers.calls[call]? = some value ∧
      ((∃ channel, value.stage = .serviceWrite ∧
          (producers.kServiceRpcChannel value.service).resumeWrite call
            value.request = some channel ∧
          next = (producers.setService value.service channel).readReply call
            value) ∨
        ∃ rsp channel, value.stage = .clientRead ∧
          value.channel.resumeRead () = some (rsp, channel) ∧
          next = producers.finish call { value with channel := channel } rsp) := by
  obtain ⟨value, present, continued⟩ := Option.bind_eq_some_iff.mp step
  refine ⟨value, present, ?_⟩
  split at continued
  · rename_i writes
    obtain ⟨channel, resumed, rfl⟩ := Option.map_eq_some_iff.mp continued
    exact .inl ⟨channel, writes, resumed, rfl⟩
  · rename_i reads
    obtain ⟨⟨rsp, channel⟩, resumed, rfl⟩ :=
      Option.map_eq_some_iff.mp continued
    exact .inr ⟨rsp, channel, reads, resumed, rfl⟩
  · simp at continued

theorem workerRead_cases {worker : Nat} {service : Service}
    (step : producers.workerRead worker service = some next) :
    (∃ data channel,
        (producers.kServiceRpcChannel service).read worker =
          (some data, channel) ∧
        next = { producers.setService service channel with
          taken := producers.taken ++ [data] }) ∨
      ∃ channel,
        (producers.kServiceRpcChannel service).read worker = (none, channel) ∧
        next = producers.setService service channel := by
  unfold workerRead at step
  split at step
  · simp at step
  · split at step
    · rename_i data channel taken
      exact .inl ⟨data, channel, taken, (Option.some.inj step).symm⟩
    · rename_i channel taken
      exact .inr ⟨channel, taken, (Option.some.inj step).symm⟩

theorem runWorker_cases {worker : Nat} {service : Service}
    (step : producers.runWorker worker service = some next) :
    ∃ data channel,
      (producers.kServiceRpcChannel service).resumeRead worker =
        some (data, channel) ∧
      next = { producers.setService service channel with
        taken := producers.taken ++ [data] } := by
  obtain ⟨⟨data, channel⟩, taken, rfl⟩ := Option.map_eq_some_iff.mp step
  exact ⟨data, channel, taken, rfl⟩

end Effects

section Writes

omit [DecidableEq Service]

variable {producers next : Producers Service Message}

theorem response_cases {reader : Nat} {rid : UInt64} {message : Message}
    (step : producers.response reader rid message = some next) :
    next = producers ∨
      ∃ call value channel, producers.kClientRpcChannel[rid]? = some call ∧
        producers.calls[call]? = some value ∧
        ((value.channel.write reader (some message) = (true, channel) ∧
            next = (producers.notePush call
              (producers.ready call value)).setCall call
                { value with channel := channel }) ∨
          (value.channel.write reader (some message) = (false, channel) ∧
            next = { (producers.notePush call
              (producers.ready call value)).setCall call
                { value with channel := channel } with
              blocked := Function.update producers.blocked reader
                (some (call, message)) })) := by
  unfold response at step
  split at step
  · simp at step
  · split at step
    · exact .inl (Option.some.inj step).symm
    · rename_i call entry
      obtain ⟨value, present, rfl⟩ := Option.map_eq_some_iff.mp step
      dsimp only
      split
      · rename_i channel written
        exact .inr ⟨call, value, channel, entry, present, .inl ⟨written, rfl⟩⟩
      · rename_i channel written
        exact .inr ⟨call, value, channel, entry, present, .inr ⟨written, rfl⟩⟩

theorem runReader_cases {reader : Nat}
    (step : producers.runReader reader = some next) :
    ∃ call message value channel,
      producers.blocked reader = some (call, message) ∧
      producers.calls[call]? = some value ∧
      value.channel.resumeWrite reader (some message) = some channel ∧
      next = { producers.setCall call { value with channel := channel } with
        blocked := Function.update producers.blocked reader none } := by
  obtain ⟨⟨call, message⟩, waits, found⟩ := Option.bind_eq_some_iff.mp step
  obtain ⟨value, present, continued⟩ := Option.bind_eq_some_iff.mp found
  obtain ⟨channel, resumed, rfl⟩ := Option.map_eq_some_iff.mp continued
  exact ⟨call, message, value, channel, waits, present, resumed, rfl⟩

theorem pushNull_cases (producers : Producers Service Message) (call : Nat)
    (value : Call Service Message) :
    (∃ channel, value.channel.spinWrite none = some channel ∧
        producers.pushNull call value =
          (producers.notePush call value.parked).setCall call
            { value with channel := channel }) ∨
      producers.pushNull call value =
        { producers.notePush call value.parked with hung := true } := by
  simp only [pushNull]
  split
  · rename_i channel written
    exact .inl ⟨channel, written, rfl⟩
  · exact .inr rfl

end Writes

end Producers

end Natsu.Rpc
