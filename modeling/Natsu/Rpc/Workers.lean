import Natsu.Rpc.Calls
import Natsu.Rpc.Packet

/-!
# The workers of the producers

`EtcdProducer` polls etcd for the providers of its service and starts a worker
for each node that was not in the poll before.  A worker, `comm_one_server`,
connects, starts a reader of the connection, and writes the requests that it
takes from the service channel.  Where it fails it leaves a timer that starts
it again.

The worker of a new node is a coroutine.  That of a timer is called by
`DoTimer` on the scheduler thread: until it returns nothing else runs, and
where a coroutine would wait it spins for ever.
-/

namespace Natsu.Rpc

open Natsu.Foundation Natsu.Libgo

variable {Service Message Descriptor : Type}

/-- How a worker was started: with `go`, or as the callback of a timer. -/
inductive Context where
  | coroutine
  | timer
  deriving DecidableEq, Repr

/-- Where a worker stands: not yet run, in `connect`, at the head of its loop,
in the read of the service channel, in `write` with this much of the frame
left, in its second `locker.lock()`, or at its end. -/
inductive WorkerStage where
  | spawned
  | connecting
  | serving
  | receiving
  | writing (rest : Bytes)
  | locking
  | returned
  deriving DecidableEq, Repr

/-- A request that a worker has taken: its frame, what `write` has put on the
socket of it, whether a write of it returned -1, and whether the reader of the
connection was still there at the last write. -/
structure Delivery (Message : Type) where
  data : RpcChannelData Message
  frame : Bytes
  written : Bytes := []
  failed : Bool := false
  connected : Bool

/-- One execution of `comm_one_server`, with the requests it has taken, the
last one first.  `reading` says that the reader of its connection,
`handle_parse`, has not come to its end. -/
structure Worker (Service Message : Type) where
  service : Service
  node : Bytes
  context : Context := .coroutine
  stage : WorkerStage := .spawned
  locker : CoMutex Unit := {}
  reading : Bool := false
  deliveries : List (Delivery Message) := []

/-- How far the way to the connection leads: to a failed `bind`, to an address
that `inet_aton` refuses, or to `connect`. -/
inductive Attempt where
  | bindFailed
  | inetAtonFailed
  | connect
  deriving DecidableEq, Repr

namespace Worker

variable (worker : Worker Service Message)

/-- The worker up to `connect`, and whether it leaves a timer. -/
def start (present : Bool) (attempt : Attempt) : Worker Service Message × Bool :=
  if present then
    match attempt with
    | .bindFailed | .inetAtonFailed => ({ worker with stage := .returned }, true)
    | .connect => ({ worker with stage := .connecting }, false)
  else ({ worker with stage := .returned }, false)

/-- After `connect`: lock `locker`, start the reader and go to the loop. -/
def connectReturned (connected : Bool) : Worker Service Message × Bool :=
  if connected then
    ({ worker with
      stage := .serving
      locker := (CoMutex.lock {} ()).2
      reading := true }, false)
  else ({ worker with stage := .returned }, true)

/-- `while (pos < len)`, with what is left of the frame. -/
def writeNext (rest : Bytes) : Worker Service Message :=
  if rest = [] then { worker with stage := .serving }
  else { worker with stage := .writing rest }

/-- The request that was taken, with what `Encode` makes of it.  Where `Encode`
throws, nothing more is said of the run. -/
def deliver (data : RpcChannelData Message) :
    Except Fault Bytes → Option (Worker Service Message)
  | .error _ => none
  | .ok frame =>
      some (writeNext { worker with
        deliveries :=
          { data := data, frame := frame, connected := worker.reading } ::
            worker.deliveries } frame)

/-- `(*kServiceRpcChannel[service_name_]) >> data`. -/
def receive (codec : Codec Message Descriptor) :
    Option (RpcChannelData Message) → Option (Worker Service Message)
  | none => some { worker with stage := .receiving }
  | some data => worker.deliver data (codec.encode data.msg data.id.toInt64)

/-- Note the result of a `write` in the request that is being written. -/
def note (change : Delivery Message → Delivery Message) :
    Worker Service Message :=
  { worker with deliveries :=
      match worker.deliveries with
      | [] => []
      | last :: earlier => change last :: earlier }

def wrote (count : Nat) : Option (Worker Service Message) :=
  match worker.stage with
  | .writing rest =>
      if count ≤ rest.length then
        some (writeNext (worker.note fun last =>
          { last with
            written := last.written ++ rest.take count
            connected := worker.reading }) (rest.drop count))
      else none
  | _ => none

/-- The exit of the loop: wait for the reader, then close the socket. -/
def writeFailed : Option (Worker Service Message) :=
  match worker.stage with
  | .writing _ =>
      let failed := worker.note fun last => { last with failed := true }
      match worker.locker.lock () with
      | (true, locker) =>
          some { failed with locker := locker, stage := .returned }
      | (false, locker) =>
          some { failed with locker := locker, stage := .locking }
  | _ => none

def runLocked : Option (Worker Service Message) :=
  if worker.stage = .locking then
    (worker.locker.resume ()).map fun locker =>
      { worker with locker := locker, stage := .returned }
  else none

/-- The end of `handle_parse`. -/
def readEnded : Option (Worker Service Message) :=
  if worker.reading then
    worker.locker.unlock.map fun locker =>
      { worker with locker := locker, reading := false }
  else none

/-- The worker waits for another coroutine. -/
def waits : Bool := worker.stage = .receiving || worker.stage = .locking

end Worker

/-- What a poll of etcd brings: no list of nodes, or one.  An item without a
readable key and value throws. -/
inductive Poll where
  | nothing
  | nodes (items : List (Option (Bytes × Bytes)))
  deriving DecidableEq

inductive WorkerEvent (Service Message : Type) where
  | poll (service : Service) (result : Poll)
  | start (worker : Nat) (attempt : Attempt)
  | fire (timer : Nat) (attempt : Attempt)
  | connectReturned (worker : Nat) (connected : Bool)
  | workerRead (worker : Nat)
  | runWorker (worker : Nat)
  | wrote (worker count : Nat)
  | writeFailed (worker : Nat)
  | runLocked (worker : Nat)
  | readEnded (worker : Nat)
  | response (worker : Nat) (rid : UInt64) (message : Message)
  | runReader (worker : Nat)
  | invoke (id : UInt64) (service : Service) (msg : Message)
  | runInvoke (call : Nat)
  | sweep (n : UInt64)

/-- The worker that an event continues. -/
def WorkerEvent.continues : WorkerEvent Service Message → Option Nat
  | .connectReturned worker _ | .workerRead worker | .wrote worker _
  | .writeFailed worker => some worker
  | _ => none

/-- The producers of a process, one for each service, and what they share.
`onThread` is the worker that `DoTimer` has called and that has not
returned. -/
structure EtcdProducers (Service Message : Type) where
  shared : Producers Service Message := {}
  serviceNode : Service → Std.ExtTreeMap Bytes Bytes := fun _ => ∅
  workers : List (Worker Service Message) := []
  timers : List (Service × Bytes) := []
  onThread : Option Nat := none

/-- The loop over the nodes of a poll, with the nodes read so far: the new
`service_node_` and the keys for which a worker is started. -/
def pollNodes (nodelist : Std.ExtTreeMap Bytes Bytes) :
    List (Option (Bytes × Bytes)) → Std.ExtTreeMap Bytes Bytes →
      Std.ExtTreeMap Bytes Bytes × List Bytes
  | [], result | none :: _, result => (result, [])
  | some (key, value) :: items, result =>
      let (nodes, started) := pollNodes nodelist items (result.insert key value)
      (nodes, if key ∈ nodelist then started else key :: started)

namespace EtcdProducers

variable [DecidableEq Service]

/-- The rest of `produce_from_etcd`. -/
def produceFromEtcd (producers : EtcdProducers Service Message)
    (service : Service) : Poll → EtcdProducers Service Message
  | .nothing => producers
  | .nodes items =>
      let (nodes, started) :=
        pollNodes (producers.serviceNode service) items ∅
      { producers with
        serviceNode := Function.update producers.serviceNode service nodes
        workers := producers.workers ++
          started.map fun key => { service := service, node := key } }

omit [DecidableEq Service] in
/-- A worker has moved, and perhaps left a timer.  On the scheduler thread a
worker that waits spins. -/
def advance (producers : EtcdProducers Service Message) (worker : Nat)
    (moved : Worker Service Message) (retry : Bool) :
    EtcdProducers Service Message :=
  { producers with
    shared := { producers.shared with
      hung := producers.shared.hung ||
        (moved.context = .timer && moved.waits) }
    workers := producers.workers.set worker moved
    timers := producers.timers ++
      (if retry then [(moved.service, moved.node)] else [])
    onThread := if moved.stage = .returned then none else producers.onThread }

omit [DecidableEq Service] in
/-- A timer is gone and its worker is on the scheduler thread. -/
def enter (producers : EtcdProducers Service Message) (timer : Nat)
    (worker : Worker Service Message) : EtcdProducers Service Message :=
  { producers with
    timers := producers.timers.eraseIdx timer
    workers := producers.workers ++ [worker]
    onThread := some producers.workers.length }

/-- The callback of a timer. -/
def fire (producers : EtcdProducers Service Message) (timer : Nat)
    (attempt : Attempt) : Option (EtcdProducers Service Message) :=
  producers.timers[timer]?.map fun (service, node) =>
    let worker : Worker Service Message :=
      { service := service, node := node, context := .timer }
    let (moved, retry) :=
      worker.start (node ∈ producers.serviceNode service) attempt
    (producers.enter timer worker).advance producers.workers.length moved retry

/-- What an event does, or `none` where it cannot happen. -/
def act (codec : Codec Message Descriptor)
    (producers : EtcdProducers Service Message) :
    WorkerEvent Service Message → Option (EtcdProducers Service Message)
  | .poll service result => some (producers.produceFromEtcd service result)
  | .start index attempt =>
      producers.workers[index]?.bind fun worker =>
        if worker.stage = .spawned then
          let (moved, retry) := worker.start
            (worker.node ∈ producers.serviceNode worker.service) attempt
          some (producers.advance index moved retry)
        else none
  | .fire timer attempt => producers.fire timer attempt
  | .connectReturned index connected =>
      producers.workers[index]?.bind fun worker =>
        if worker.stage = .connecting then
          let (moved, retry) := worker.connectReturned connected
          some (producers.advance index moved retry)
        else none
  | .workerRead index =>
      producers.workers[index]?.bind fun worker =>
        if worker.stage = .serving then
          (producers.shared.workerRead index worker.service).bind fun shared =>
            (worker.receive codec
              ((producers.shared.kServiceRpcChannel worker.service).read
                index).1).map fun moved =>
              advance { producers with shared := shared } index moved false
        else none
  | .runWorker index =>
      producers.workers[index]?.bind fun worker =>
        if worker.stage = .receiving then
          (producers.shared.runWorker index worker.service).bind fun shared =>
            (worker.receive codec
              (((producers.shared.kServiceRpcChannel worker.service).resumeRead
                index).map Prod.fst)).map fun moved =>
              advance { producers with shared := shared } index moved false
        else none
  | .wrote index count =>
      producers.workers[index]?.bind fun worker =>
        (worker.wrote count).map fun moved =>
          producers.advance index moved false
  | .writeFailed index =>
      producers.workers[index]?.bind fun worker =>
        worker.writeFailed.map fun moved => producers.advance index moved true
  | .runLocked index =>
      producers.workers[index]?.bind fun worker =>
        worker.runLocked.map fun moved => producers.advance index moved false
  | .readEnded index =>
      if producers.shared.blocked index = none then
        producers.workers[index]?.bind fun worker =>
          worker.readEnded.map fun moved => producers.advance index moved false
      else none
  | .response index rid message =>
      producers.workers[index]?.bind fun worker =>
        if worker.reading then
          (producers.shared.response index rid message).map fun shared =>
            { producers with shared := shared }
        else none
  | .runReader index =>
      (producers.shared.runReader index).map fun shared =>
        { producers with shared := shared }
  | .invoke id service msg =>
      some { producers with shared := producers.shared.invoke id service msg }
  | .runInvoke call =>
      (producers.shared.runInvoke call).map fun shared =>
        { producers with shared := shared }
  | .sweep n =>
      some { producers with shared := producers.shared.handleProduceTimeout n }

/-- One event, unless the scheduler thread spins or belongs to another
worker. -/
def step (codec : Codec Message Descriptor)
    (producers : EtcdProducers Service Message)
    (event : WorkerEvent Service Message) :
    Option (EtcdProducers Service Message) :=
  if producers.shared.hung then none
  else if producers.onThread = none ∨ producers.onThread = event.continues then
    producers.act codec event
  else none

end EtcdProducers

namespace Worker

variable {worker moved : Worker Service Message}

/-- A request that is taken is encoded and becomes the last one. -/
theorem receive_some {codec : Codec Message Descriptor}
    {data : RpcChannelData Message}
    (received : worker.receive codec (some data) = some moved) :
    ∃ frame, codec.encode data.msg data.id.toInt64 = .ok frame ∧
      moved = writeNext { worker with
        deliveries :=
          { data := data, frame := frame, connected := worker.reading } ::
            worker.deliveries } frame := by
  have delivered : worker.deliver data
      (codec.encode data.msg data.id.toInt64) = some moved := received
  cases encoded : codec.encode data.msg data.id.toInt64 with
  | error fault =>
      rw [encoded] at delivered
      simp [deliver] at delivered
  | ok frame =>
      rw [encoded] at delivered
      exact ⟨frame, rfl, (Option.some.inj delivered).symm⟩

theorem wrote_some {count : Nat} (written : worker.wrote count = some moved) :
    ∃ rest, worker.stage = .writing rest ∧
      moved = writeNext (worker.note fun last =>
        { last with
          written := last.written ++ rest.take count
          connected := worker.reading }) (rest.drop count) := by
  unfold wrote at written
  split at written
  · rename_i rest writing
    obtain ⟨_, happens⟩ := Option.ite_none_right_eq_some.mp written
    exact ⟨rest, writing, (Option.some.inj happens).symm⟩
  · simp at written

/-- A worker whose write fails returns if it gets `locker` at once. -/
theorem writeFailed_some (failed : worker.writeFailed = some moved) :
    ∃ rest, worker.stage = .writing rest ∧
      moved = { worker.note fun last => { last with failed := true } with
        locker := (worker.locker.lock ()).2
        stage := if (worker.locker.lock ()).1 then .returned else .locking } := by
  unfold writeFailed at failed
  split at failed
  · rename_i rest writing
    refine ⟨rest, writing, ?_⟩
    dsimp only at failed
    split at failed
    · rename_i locker granted
      rw [granted]
      exact (Option.some.inj failed).symm
    · rename_i locker refused
      rw [refused]
      exact (Option.some.inj failed).symm
  · simp at failed

theorem runLocked_some (resumed : worker.runLocked = some moved) :
    worker.stage = .locking ∧ ∃ locker,
      worker.locker.resume () = some locker ∧
      moved = { worker with locker := locker, stage := .returned } := by
  obtain ⟨locking, happens⟩ := Option.ite_none_right_eq_some.mp resumed
  obtain ⟨locker, granted, isMoved⟩ := Option.map_eq_some_iff.mp happens
  exact ⟨locking, locker, granted, isMoved.symm⟩

theorem readEnded_some (ended : worker.readEnded = some moved) :
    worker.reading = true ∧ ∃ locker, worker.locker.unlock = some locker ∧
      moved = { worker with locker := locker, reading := false } := by
  obtain ⟨reading, happens⟩ := Option.ite_none_right_eq_some.mp ended
  obtain ⟨locker, unlocked, isMoved⟩ := Option.map_eq_some_iff.mp happens
  exact ⟨reading, locker, unlocked, isMoved.symm⟩

end Worker

/-- The ways in which a worker or its reader goes on. -/
inductive Move where
  | started
  | connected (connected : Bool)
  | received
  | wrote
  | failed
  | unlocked
  | ended
  deriving DecidableEq, Repr

/-- The worker that an event moves, and how. -/
def WorkerEvent.move? : WorkerEvent Service Message → Option (Nat × Move)
  | .start worker _ => some (worker, .started)
  | .connectReturned worker connected => some (worker, .connected connected)
  | .workerRead worker | .runWorker worker => some (worker, .received)
  | .wrote worker _ => some (worker, .wrote)
  | .writeFailed worker => some (worker, .failed)
  | .runLocked worker => some (worker, .unlocked)
  | .readEnded worker => some (worker, .ended)
  | _ => none

/-- What an event does that moves no worker. -/
def WorkerEvent.action? :
    WorkerEvent Service Message → Option (Event Service Message)
  | .response worker rid message => some (.response worker rid message)
  | .runReader worker => some (.runReader worker)
  | .invoke id service msg => some (.invoke id service msg)
  | .runInvoke call => some (.runInvoke call)
  | .sweep n => some (.sweep n)
  | _ => none

/-- What a move makes of the worker, and whether it leaves a timer. -/
inductive Worker.Moves (codec : Codec Message Descriptor)
    (worker : Worker Service Message) :
    Move → Worker Service Message → Bool → Prop where
  | started (present : Bool) (attempt : Attempt)
      (spawned : worker.stage = .spawned) :
      Moves codec worker .started (worker.start present attempt).1
        (worker.start present attempt).2
  | connected (connected : Bool) (connecting : worker.stage = .connecting) :
      Moves codec worker (.connected connected)
        (worker.connectReturned connected).1
        (worker.connectReturned connected).2
  | received {moved : Worker Service Message}
      (data : Option (RpcChannelData Message))
      (inLoop : worker.stage = .serving ∨ worker.stage = .receiving)
      (received : worker.receive codec data = some moved) :
      Moves codec worker .received moved false
  | wrote {moved : Worker Service Message} (count : Nat)
      (written : worker.wrote count = some moved) :
      Moves codec worker .wrote moved false
  | failed {moved : Worker Service Message}
      (failed : worker.writeFailed = some moved) :
      Moves codec worker .failed moved true
  | unlocked {moved : Worker Service Message}
      (resumed : worker.runLocked = some moved) :
      Moves codec worker .unlocked moved false
  | ended {moved : Worker Service Message}
      (ended : worker.readEnded = some moved) :
      Moves codec worker .ended moved false

namespace EtcdProducers

variable [DecidableEq Service]

/-- What one event can do. -/
inductive Effect (codec : Codec Message Descriptor)
    (producers next : EtcdProducers Service Message) :
    WorkerEvent Service Message → Prop where
  | polled (service : Service) (result : Poll)
      (polled : next = producers.produceFromEtcd service result) :
      Effect codec producers next (.poll service result)
  | fired (timer : Nat) (attempt : Attempt)
      (fired : producers.fire timer attempt = some next) :
      Effect codec producers next (.fire timer attempt)
  | moved {event : WorkerEvent Service Message} (index : Nat)
      {move : Move} {worker moved : Worker Service Message} {retry : Bool}
      {shared : Producers Service Message}
      (isMove : event.move? = some (index, move))
      (present : producers.workers[index]? = some worker)
      (moves : worker.Moves codec move moved retry)
      (shares : shared = producers.shared ∨
        producers.shared.workerRead index worker.service = some shared ∨
        producers.shared.runWorker index worker.service = some shared)
      (advanced : next =
        advance { producers with shared := shared } index moved retry) :
      Effect codec producers next event
  | shared {event : WorkerEvent Service Message}
      {shared : Producers Service Message} (action : Event Service Message)
      (isAction : event.action? = some action)
      (acted : producers.shared.act action = some shared)
      (same : next = { producers with shared := shared }) :
      Effect codec producers next event

variable {codec : Codec Message Descriptor}
  {producers next : EtcdProducers Service Message}

theorem act_of_step {event : WorkerEvent Service Message}
    (stepped : producers.step codec event = some next) :
    producers.shared.hung = false ∧
      (producers.onThread = none ∨ producers.onThread = event.continues) ∧
      producers.act codec event = some next := by
  unfold step at stepped
  split at stepped
  · simp at stepped
  · rename_i running
    obtain ⟨allowed, acted⟩ := Option.ite_none_right_eq_some.mp stepped
    exact ⟨by simpa using running, allowed, acted⟩

theorem act_effect {event : WorkerEvent Service Message}
    (acted : producers.act codec event = some next) :
    Effect codec producers next event := by
  cases event with
  | poll service result =>
      exact .polled service result (Option.some.inj acted).symm
  | start index attempt =>
      obtain ⟨worker, present, continued⟩ := Option.bind_eq_some_iff.mp acted
      obtain ⟨spawned, happens⟩ := Option.ite_none_right_eq_some.mp continued
      exact .moved index rfl present (.started _ attempt spawned) (.inl rfl)
        (Option.some.inj happens).symm
  | fire timer attempt => exact .fired timer attempt acted
  | connectReturned index connected =>
      obtain ⟨worker, present, continued⟩ := Option.bind_eq_some_iff.mp acted
      obtain ⟨connecting, happens⟩ := Option.ite_none_right_eq_some.mp continued
      exact .moved index rfl present (.connected connected connecting)
        (.inl rfl) (Option.some.inj happens).symm
  | workerRead index =>
      obtain ⟨worker, present, continued⟩ := Option.bind_eq_some_iff.mp acted
      obtain ⟨serving, happens⟩ := Option.ite_none_right_eq_some.mp continued
      obtain ⟨shared, read, happens⟩ := Option.bind_eq_some_iff.mp happens
      obtain ⟨moved, received, rfl⟩ := Option.map_eq_some_iff.mp happens
      exact .moved index rfl present (.received _ (.inl serving) received)
        (.inr (.inl read)) rfl
  | runWorker index =>
      obtain ⟨worker, present, continued⟩ := Option.bind_eq_some_iff.mp acted
      obtain ⟨receiving, happens⟩ := Option.ite_none_right_eq_some.mp continued
      obtain ⟨shared, read, happens⟩ := Option.bind_eq_some_iff.mp happens
      obtain ⟨moved, received, rfl⟩ := Option.map_eq_some_iff.mp happens
      exact .moved index rfl present (.received _ (.inr receiving) received)
        (.inr (.inr read)) rfl
  | wrote index count =>
      obtain ⟨worker, present, continued⟩ := Option.bind_eq_some_iff.mp acted
      obtain ⟨moved, written, rfl⟩ := Option.map_eq_some_iff.mp continued
      exact .moved index rfl present (.wrote count written) (.inl rfl) rfl
  | writeFailed index =>
      obtain ⟨worker, present, continued⟩ := Option.bind_eq_some_iff.mp acted
      obtain ⟨moved, failed, rfl⟩ := Option.map_eq_some_iff.mp continued
      exact .moved index rfl present (.failed failed) (.inl rfl) rfl
  | runLocked index =>
      obtain ⟨worker, present, continued⟩ := Option.bind_eq_some_iff.mp acted
      obtain ⟨moved, resumed, rfl⟩ := Option.map_eq_some_iff.mp continued
      exact .moved index rfl present (.unlocked resumed) (.inl rfl) rfl
  | readEnded index =>
      obtain ⟨_, happens⟩ := Option.ite_none_right_eq_some.mp acted
      obtain ⟨worker, present, continued⟩ := Option.bind_eq_some_iff.mp happens
      obtain ⟨moved, ended, rfl⟩ := Option.map_eq_some_iff.mp continued
      exact .moved index rfl present (.ended ended) (.inl rfl) rfl
  | response index rid message =>
      obtain ⟨worker, _, continued⟩ := Option.bind_eq_some_iff.mp acted
      obtain ⟨_, happens⟩ := Option.ite_none_right_eq_some.mp continued
      obtain ⟨shared, responded, rfl⟩ := Option.map_eq_some_iff.mp happens
      exact .shared (.response index rid message) rfl responded rfl
  | runReader index =>
      obtain ⟨shared, resumed, rfl⟩ := Option.map_eq_some_iff.mp acted
      exact .shared (.runReader index) rfl resumed rfl
  | invoke id service msg =>
      exact .shared (.invoke id service msg) rfl rfl (Option.some.inj acted).symm
  | runInvoke call =>
      obtain ⟨shared, resumed, rfl⟩ := Option.map_eq_some_iff.mp acted
      exact .shared (.runInvoke call) rfl resumed rfl
  | sweep n =>
      exact .shared (.sweep n) rfl rfl (Option.some.inj acted).symm

omit [DecidableEq Service] in
variable (codec) in
/-- A worker that comes out of a timer has moved from its start. -/
theorem fire_cases {timer : Nat} {attempt : Attempt}
    (fired : producers.fire timer attempt = some next) :
    ∃ worker : Worker Service Message, ∃ moved retry,
      producers.timers[timer]? = some (worker.service, worker.node) ∧
      worker =
        { service := worker.service, node := worker.node, context := .timer } ∧
      (producers.enter timer worker).workers[producers.workers.length]? =
        some worker ∧
      worker.Moves codec .started moved retry ∧
      next = (producers.enter timer worker).advance producers.workers.length
        moved retry := by
  obtain ⟨⟨service, node⟩, present, rfl⟩ := Option.map_eq_some_iff.mp fired
  exact ⟨_, _, _, present, rfl, List.getElem?_concat_length,
    .started _ attempt rfl, rfl⟩

/-- What holds of every new worker and is kept by every move holds of all
workers. -/
theorem forall_workers {Holds : Worker Service Message → Prop}
    (fresh : ∀ service node context,
      Holds { service := service, node := node, context := context })
    (kept : ∀ {worker move moved retry}, Holds worker →
      worker.Moves codec move moved retry → Holds moved)
    {event : WorkerEvent Service Message}
    (holds : ∀ worker ∈ producers.workers, Holds worker)
    (stepped : producers.step codec event = some next) :
    ∀ worker ∈ next.workers, Holds worker := by
  obtain ⟨_, _, acted⟩ := act_of_step stepped
  cases act_effect acted with
  | polled service result polled =>
      subst polled
      cases result with
      | nothing => exact holds
      | nodes items =>
          intro worker member
          rcases List.mem_append.mp member with earlier | isNew
          · exact holds worker earlier
          · obtain ⟨key, _, rfl⟩ := List.mem_map.mp isNew
            exact fresh service key .coroutine
  | fired timer attempt fired =>
      obtain ⟨started, moved, retry, _, isFresh, _, moves, rfl⟩ :=
        fire_cases codec fired
      have holdsStarted : Holds started := isFresh ▸ fresh _ _ .timer
      intro worker member
      rcases List.mem_or_eq_of_mem_set member with earlier | rfl
      · rcases List.mem_append.mp earlier with before | isNew
        · exact holds worker before
        · rw [List.mem_singleton.mp isNew]
          exact holdsStarted
      · exact kept holdsStarted moves
  | moved index _ present moves _ advanced =>
      subst advanced
      intro worker member
      rcases List.mem_or_eq_of_mem_set member with earlier | rfl
      · exact holds worker earlier
      · exact kept (holds _ (List.mem_of_getElem? present)) moves
  | shared action _ _ same =>
      subst same
      exact holds

end EtcdProducers

end Natsu.Rpc
