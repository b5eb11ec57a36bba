import Natsu.Foundation.Holdings
import Natsu.Rpc.ExampleMessages
import Natsu.Rpc.Workers

/-!
# Requests in the hands of a worker

A worker writes a request completely before it takes the next one.  The
exception is a failed write, and it is the last request of its worker.  No
request goes back to the service channel.
-/

namespace Natsu.Rpc

open Natsu.Foundation Natsu.Libgo

variable {Service Message Descriptor : Type}

/-- The whole frame is on the socket. -/
def Delivery.Complete (delivery : Delivery Message) : Prop :=
  delivery.failed = false ∧ delivery.written = delivery.frame

namespace Worker

/-- What the place where a worker stands says of the request it has taken
last. -/
def Last (stage : WorkerStage) (delivery : Delivery Message) : Prop :=
  match stage with
  | .writing rest =>
      delivery.failed = false ∧ delivery.frame = delivery.written ++ rest
  | .locking | .returned => delivery.failed = true ∨ delivery.Complete
  | _ => delivery.Complete

structure Accountable (codec : Codec Message Descriptor)
    (worker : Worker Service Message) : Prop where
  encoded : ∀ delivery ∈ worker.deliveries,
    codec.encode delivery.data.msg delivery.data.id.toInt64 =
      .ok delivery.frame
  earlier : ∀ delivery ∈ worker.deliveries.tail, delivery.Complete
  last : ∀ delivery, worker.deliveries.head? = some delivery →
    Last worker.stage delivery

variable {codec : Codec Message Descriptor}
  {worker moved : Worker Service Message} {retry : Bool}

theorem accountable_fresh (service : Service) (node : Bytes)
    (context : Context) :
    Accountable codec { service := service, node := node, context := context } where
  encoded := by simp
  earlier := by simp
  last := by simp

/-- The worker goes on without touching its requests. -/
theorem Accountable.withStage (accountable : worker.Accountable codec)
    (same : moved.deliveries = worker.deliveries)
    (last : ∀ delivery : Delivery Message, Last worker.stage delivery →
      Last moved.stage delivery) : moved.Accountable codec where
  encoded := by
    rw [same]
    exact accountable.encoded
  earlier := by
    rw [same]
    exact accountable.earlier
  last := by
    rw [same]
    intro delivery isLast
    exact last delivery (accountable.last delivery isLast)

theorem Accountable.start (accountable : worker.Accountable codec)
    (spawned : worker.stage = .spawned) (present : Bool) (attempt : Attempt) :
    (worker.start present attempt).1.Accountable codec := by
  unfold Worker.start
  split
  · split
    · exact accountable.withStage rfl (by simp [Last, spawned]; tauto)
    · exact accountable.withStage rfl (by simp [Last, spawned]; tauto)
    · exact accountable.withStage rfl (by simp [Last, spawned])
  · exact accountable.withStage rfl (by simp [Last, spawned]; tauto)

theorem Accountable.connectReturned (accountable : worker.Accountable codec)
    (connecting : worker.stage = .connecting) (connected : Bool) :
    (worker.connectReturned connected).1.Accountable codec := by
  unfold Worker.connectReturned
  split
  · exact accountable.withStage rfl (by simp [Last, connecting])
  · exact accountable.withStage rfl (by simp [Last, connecting]; tauto)

/-- Once the rest is written the request is complete. -/
theorem last_writeNext {delivery : Delivery Message} {rest : Bytes}
    (unfailed : delivery.failed = false)
    (whole : delivery.frame = delivery.written ++ rest) :
    Last (worker.writeNext rest).stage delivery := by
  unfold writeNext
  split
  · rename_i done
    subst done
    exact ⟨unfailed, by simpa using whole.symm⟩
  · exact ⟨unfailed, whole⟩

theorem deliveries_writeNext (rest : Bytes) :
    (worker.writeNext rest).deliveries = worker.deliveries := by
  unfold writeNext
  split <;> rfl

theorem Accountable.complete (accountable : worker.Accountable codec)
    (inLoop : worker.stage = .serving ∨ worker.stage = .receiving) :
    ∀ delivery ∈ worker.deliveries, delivery.Complete := by
  intro delivery member
  have last := accountable.last
  have earlier := accountable.earlier
  cases shape : worker.deliveries with
  | nil => simp [shape] at member
  | cons first others =>
      rw [shape] at member last earlier
      rcases List.mem_cons.mp member with rfl | isEarlier
      · have complete := last delivery rfl
        rcases inLoop with stage | stage <;> simpa [Last, stage] using complete
      · exact earlier delivery isEarlier

theorem Accountable.receive (accountable : worker.Accountable codec)
    (inLoop : worker.stage = .serving ∨ worker.stage = .receiving)
    {data : Option (RpcChannelData Message)}
    (received : worker.receive codec data = some moved) :
    moved.Accountable codec := by
  have complete := accountable.complete inLoop
  cases data with
  | none =>
      obtain rfl := Option.some.inj received
      refine accountable.withStage rfl ?_
      rcases inLoop with stage | stage <;> simp [Last, stage]
  | some data =>
      obtain ⟨frame, encoded, rfl⟩ := receive_some received
      refine ⟨?_, ?_, ?_⟩
      · rw [deliveries_writeNext]
        intro delivery member
        rcases List.mem_cons.mp member with rfl | isEarlier
        · exact encoded
        · exact accountable.encoded delivery isEarlier
      · rw [deliveries_writeNext]
        exact complete
      · rw [deliveries_writeNext]
        intro delivery isLast
        rw [← Option.some.inj isLast]
        exact last_writeNext rfl (List.nil_append frame).symm

/-- The result of a `write` is noted in the last request. -/
theorem Accountable.note (accountable : worker.Accountable codec)
    (change : Delivery Message → Delivery Message)
    (keeps : ∀ delivery, (change delivery).data = delivery.data ∧
      (change delivery).frame = delivery.frame)
    (noted : moved.deliveries = (worker.note change).deliveries)
    (last : ∀ delivery, worker.deliveries.head? = some delivery →
      Last moved.stage (change delivery)) : moved.Accountable codec := by
  have encoded := accountable.encoded
  have earlier := accountable.earlier
  cases shape : worker.deliveries with
  | nil =>
      have none : moved.deliveries = [] := by simp [noted, Worker.note, shape]
      exact ⟨by simp [none], by simp [none], by simp [none]⟩
  | cons first others =>
      rw [shape] at encoded earlier last
      have changed : moved.deliveries = change first :: others := by
        simp [noted, Worker.note, shape]
      refine ⟨?_, ?_, ?_⟩
      · rw [changed]
        intro delivery member
        rcases List.mem_cons.mp member with rfl | isEarlier
        · rw [(keeps first).1, (keeps first).2]
          exact encoded first List.mem_cons_self
        · exact encoded delivery (List.mem_cons_of_mem first isEarlier)
      · rw [changed]
        exact earlier
      · rw [changed]
        intro delivery isLast
        rw [← Option.some.inj isLast]
        exact last first rfl

theorem Accountable.wrote (accountable : worker.Accountable codec) {count : Nat}
    (written : worker.wrote count = some moved) : moved.Accountable codec := by
  obtain ⟨rest, writing, rfl⟩ := wrote_some written
  refine accountable.note _ (fun _ => ?_) (deliveries_writeNext _) ?_
  · exact ⟨rfl, rfl⟩
  · intro delivery isLast
    have last := accountable.last delivery isLast
    rw [writing] at last
    obtain ⟨unfailed, whole⟩ := last
    refine last_writeNext unfailed ?_
    dsimp only
    rw [List.append_assoc, List.take_append_drop]
    exact whole

theorem Accountable.writeFailed (accountable : worker.Accountable codec)
    (failed : worker.writeFailed = some moved) : moved.Accountable codec := by
  obtain ⟨rest, _, rfl⟩ := writeFailed_some failed
  refine accountable.note (fun last => { last with failed := true })
    (fun _ => ⟨rfl, rfl⟩) rfl fun _ _ => ?_
  cases (worker.locker.lock ()).1 with
  | true => exact .inl rfl
  | false => exact .inl rfl

theorem Accountable.moves {move : Move}
    (accountable : worker.Accountable codec)
    (moves : worker.Moves codec move moved retry) :
    moved.Accountable codec := by
  cases moves with
  | started present attempt spawned =>
      exact accountable.start spawned present attempt
  | connected connected connecting =>
      exact accountable.connectReturned connecting connected
  | received data inLoop received => exact accountable.receive inLoop received
  | wrote count written => exact accountable.wrote written
  | failed failed => exact accountable.writeFailed failed
  | unlocked resumed =>
      obtain ⟨locking, locker, _, rfl⟩ := runLocked_some resumed
      exact accountable.withStage rfl (by simp [Last, locking])
  | ended ended =>
      obtain ⟨_, locker, _, rfl⟩ := readEnded_some ended
      exact accountable.withStage rfl fun _ => id

/-- The requests that the worker has taken. -/
def requests (worker : Worker Service Message) : List (RpcChannelData Message) :=
  worker.deliveries.map Delivery.data

theorem requests_start (present : Bool) (attempt : Attempt) :
    (worker.start present attempt).1.requests = worker.requests := by
  unfold start
  split
  · split <;> rfl
  · rfl

theorem requests_connectReturned (connected : Bool) :
    (worker.connectReturned connected).1.requests = worker.requests := by
  unfold connectReturned
  split <;> rfl

theorem requests_note {change : Delivery Message → Delivery Message}
    (keeps : ∀ delivery, (change delivery).data = delivery.data) :
    (worker.note change).requests = worker.requests := by
  unfold requests note
  cases worker.deliveries with
  | nil => rfl
  | cons first others => simp [keeps]

theorem requests_wrote {count : Nat} (written : worker.wrote count = some moved) :
    moved.requests = worker.requests := by
  obtain ⟨rest, _, rfl⟩ := wrote_some written
  rw [requests, deliveries_writeNext]
  exact requests_note fun _ => rfl

theorem requests_writeFailed (failed : worker.writeFailed = some moved) :
    moved.requests = worker.requests := by
  obtain ⟨rest, _, rfl⟩ := writeFailed_some failed
  have noted : (worker.note fun last => { last with failed := true }).requests =
      worker.requests := requests_note fun _ => rfl
  exact noted

theorem requests_receive {data : Option (RpcChannelData Message)}
    (received : worker.receive codec data = some moved) :
    moved.requests = data.toList ++ worker.requests := by
  cases data with
  | none =>
      obtain rfl := Option.some.inj received
      rfl
  | some data =>
      obtain ⟨frame, _, rfl⟩ := receive_some received
      rw [requests, deliveries_writeNext]
      rfl

end Worker

namespace Producers

variable {producers next : Producers Service Message}

theorem taken_readReply (call : Nat) (value : Call Service Message) :
    (producers.readReply call value).taken = producers.taken := by
  unfold readReply
  split <;> rfl

theorem taken_response {reader : Nat} {rid : UInt64} {message : Message}
    (responded : producers.response reader rid message = some next) :
    next.taken = producers.taken := by
  rcases response_cases responded with rfl |
    ⟨call, value, channel, _, _, ⟨_, rfl⟩ | ⟨_, rfl⟩⟩ <;> rfl

theorem taken_runReader {reader : Nat}
    (resumed : producers.runReader reader = some next) :
    next.taken = producers.taken := by
  obtain ⟨_, _, _, _, _, _, _, rfl⟩ := runReader_cases resumed
  rfl

theorem taken_pushNulls (calls : List Nat) :
    ∀ producers : Producers Service Message,
      (pushNulls calls producers).taken = producers.taken := by
  induction calls with
  | nil => exact fun _ => rfl
  | cons call calls induction =>
      intro producers
      unfold pushNulls
      split
      · rfl
      · split
        · rfl
        · rename_i value _
          rw [induction]
          rcases pushNull_cases producers call value with
            ⟨channel, _, pushed⟩ | pushed
          · rw [pushed]
            rfl
          · rw [pushed]
            rfl

variable [DecidableEq Service]

theorem taken_invoke (id : UInt64) (service : Service) (msg : Message) :
    (producers.invoke id service msg).taken = producers.taken := by
  simp only [invoke]
  split
  · rfl
  · rw [taken_readReply]
    rfl

theorem taken_runInvoke {call : Nat}
    (resumed : producers.runInvoke call = some next) :
    next.taken = producers.taken := by
  obtain ⟨value, _, ⟨channel, _, _, rfl⟩ | ⟨rsp, channel, _, _, rfl⟩⟩ :=
    runInvoke_cases resumed
  · rw [taken_readReply]
    rfl
  · rfl

theorem taken_workerRead {worker : Nat} {service : Service}
    (read : producers.workerRead worker service = some next) :
    next.taken = producers.taken ++
      ((producers.kServiceRpcChannel service).read worker).1.toList := by
  rcases workerRead_cases read with ⟨data, channel, taken, rfl⟩ |
    ⟨channel, parked, rfl⟩
  · simp [taken]
  · simp [parked, setService]

theorem taken_runWorker {worker : Nat} {service : Service}
    (resumed : producers.runWorker worker service = some next) :
    next.taken = producers.taken ++
      (((producers.kServiceRpcChannel service).resumeRead worker).map
        Prod.fst).toList := by
  obtain ⟨data, channel, taken, rfl⟩ := runWorker_cases resumed
  simp [taken]

end Producers

namespace EtcdProducers

/-- The requests in the hands of the workers are those taken from the service
channels. -/
def Accounts (producers : EtcdProducers Service Message) : Prop :=
  (producers.workers.flatMap Worker.requests).Perm producers.shared.taken

variable {codec : Codec Message Descriptor}
  {producers next : EtcdProducers Service Message}

theorem Accounts.advance (accounts : producers.Accounts) {index : Nat}
    {worker moved : Worker Service Message} {retry : Bool}
    {shared : Producers Service Message}
    {fresh : List (RpcChannelData Message)}
    (present : producers.workers[index]? = some worker)
    (requests : moved.requests = fresh ++ worker.requests)
    (taken : shared.taken = producers.shared.taken ++ fresh) :
    (advance { producers with shared := shared } index moved retry).Accounts := by
  obtain ⟨others, before, after⟩ := flatMap_replace Worker.requests present
  show ((producers.workers.set index moved).flatMap Worker.requests).Perm
    shared.taken
  have unchanged := before.symm.trans accounts
  rw [taken]
  refine (after moved).trans ?_
  rw [requests, List.append_assoc]
  exact List.perm_append_comm.trans
    ((List.perm_append_right_iff fresh).mpr unchanged)

theorem Accounts.keep (accounts : producers.Accounts) {index : Nat}
    {worker moved : Worker Service Message} {retry : Bool}
    (present : producers.workers[index]? = some worker)
    (requests : moved.requests = worker.requests) :
    (producers.advance index moved retry).Accounts := by
  have nothing : producers.shared.taken = producers.shared.taken ++ [] :=
    (List.append_nil _).symm
  exact accounts.advance present requests nothing

theorem Accounts.fire (accounts : producers.Accounts)
    (codec : Codec Message Descriptor) {timer : Nat} {attempt : Attempt}
    (fired : producers.fire timer attempt = some next) : next.Accounts := by
  obtain ⟨worker, moved, retry, _, isFresh, present, moves, rfl⟩ :=
    fire_cases codec fired
  have entered : (producers.enter timer worker).Accounts := by
    rw [isFresh]
    simpa [Accounts, enter, Worker.requests] using accounts
  cases moves with
  | started isPresent attempt _ =>
      exact entered.keep present (Worker.requests_start isPresent attempt)

variable [DecidableEq Service]

theorem Accounts.step (accounts : producers.Accounts)
    {event : WorkerEvent Service Message}
    (stepped : producers.step codec event = some next) : next.Accounts := by
  obtain ⟨_, _, acted⟩ := act_of_step stepped
  cases event with
  | poll service result =>
      obtain rfl := Option.some.inj acted
      cases result with
      | nothing => exact accounts
      | nodes items =>
          have none : ∀ keys : List Bytes, (keys.map fun key =>
              ({ service := service, node := key } :
                Worker Service Message)).flatMap Worker.requests = [] := by
            intro keys
            simp [List.flatMap_map, Worker.requests]
          simpa [Accounts, produceFromEtcd, none] using accounts
  | start index attempt =>
      obtain ⟨worker, present, continued⟩ := Option.bind_eq_some_iff.mp acted
      obtain ⟨_, happens⟩ := Option.ite_none_right_eq_some.mp continued
      obtain rfl := Option.some.inj happens
      exact accounts.keep present (Worker.requests_start _ _)
  | fire timer attempt => exact accounts.fire codec acted
  | connectReturned index connected =>
      obtain ⟨worker, present, continued⟩ := Option.bind_eq_some_iff.mp acted
      obtain ⟨_, happens⟩ := Option.ite_none_right_eq_some.mp continued
      obtain rfl := Option.some.inj happens
      exact accounts.keep present (Worker.requests_connectReturned _)
  | workerRead index =>
      obtain ⟨worker, present, continued⟩ := Option.bind_eq_some_iff.mp acted
      obtain ⟨_, happens⟩ := Option.ite_none_right_eq_some.mp continued
      obtain ⟨shared, read, happens⟩ := Option.bind_eq_some_iff.mp happens
      obtain ⟨moved, received, rfl⟩ := Option.map_eq_some_iff.mp happens
      exact accounts.advance present (Worker.requests_receive received)
        (Producers.taken_workerRead read)
  | runWorker index =>
      obtain ⟨worker, present, continued⟩ := Option.bind_eq_some_iff.mp acted
      obtain ⟨_, happens⟩ := Option.ite_none_right_eq_some.mp continued
      obtain ⟨shared, read, happens⟩ := Option.bind_eq_some_iff.mp happens
      obtain ⟨moved, received, rfl⟩ := Option.map_eq_some_iff.mp happens
      exact accounts.advance present (Worker.requests_receive received)
        (Producers.taken_runWorker read)
  | wrote index count =>
      obtain ⟨worker, present, continued⟩ := Option.bind_eq_some_iff.mp acted
      obtain ⟨moved, written, rfl⟩ := Option.map_eq_some_iff.mp continued
      exact accounts.keep present (Worker.requests_wrote written)
  | writeFailed index =>
      obtain ⟨worker, present, continued⟩ := Option.bind_eq_some_iff.mp acted
      obtain ⟨moved, failed, rfl⟩ := Option.map_eq_some_iff.mp continued
      exact accounts.keep present (Worker.requests_writeFailed failed)
  | runLocked index =>
      obtain ⟨worker, present, continued⟩ := Option.bind_eq_some_iff.mp acted
      obtain ⟨moved, resumed, rfl⟩ := Option.map_eq_some_iff.mp continued
      obtain ⟨_, locker, _, rfl⟩ := Worker.runLocked_some resumed
      exact accounts.keep present rfl
  | readEnded index =>
      obtain ⟨_, happens⟩ := Option.ite_none_right_eq_some.mp acted
      obtain ⟨worker, present, continued⟩ := Option.bind_eq_some_iff.mp happens
      obtain ⟨moved, ended, rfl⟩ := Option.map_eq_some_iff.mp continued
      obtain ⟨_, locker, _, rfl⟩ := Worker.readEnded_some ended
      exact accounts.keep present rfl
  | response index rid message =>
      obtain ⟨worker, _, continued⟩ := Option.bind_eq_some_iff.mp acted
      obtain ⟨_, happens⟩ := Option.ite_none_right_eq_some.mp continued
      obtain ⟨shared, responded, rfl⟩ := Option.map_eq_some_iff.mp happens
      exact accounts.trans (Producers.taken_response responded ▸ .refl _)
  | runReader index =>
      obtain ⟨shared, resumed, rfl⟩ := Option.map_eq_some_iff.mp acted
      exact accounts.trans (Producers.taken_runReader resumed ▸ .refl _)
  | invoke id service msg =>
      obtain rfl := Option.some.inj acted
      exact accounts.trans (Producers.taken_invoke id service msg ▸ .refl _)
  | runInvoke call =>
      obtain ⟨shared, resumed, rfl⟩ := Option.map_eq_some_iff.mp acted
      exact accounts.trans (Producers.taken_runInvoke resumed ▸ .refl _)
  | sweep n =>
      obtain rfl := Option.some.inj acted
      exact accounts.trans (Producers.taken_pushNulls _ producers.shared ▸ .refl _)

/-- The worker is writing the request. -/
def InHand (worker : Worker Service Message) (delivery : Delivery Message) :
    Prop :=
  worker.deliveries.head? = some delivery ∧
    ∃ rest, worker.stage = .writing rest ∧
      delivery.frame = delivery.written ++ rest

/-- In every run each request that was taken from a service channel is with
one worker, which has written it completely, is writing it, or had a write of
it fail. -/
theorem requests_written (codec : Codec Message Descriptor)
    {events : List (WorkerEvent Service Message)}
    {producers : EtcdProducers Service Message}
    (reached : runWith (step codec) {} events = some producers) :
    producers.Accounts ∧
      ∀ worker ∈ producers.workers, ∀ delivery ∈ worker.deliveries,
        codec.encode delivery.data.msg delivery.data.id.toInt64 =
          .ok delivery.frame ∧
        (delivery.written = delivery.frame ∨ InHand worker delivery ∨
          delivery.failed = true) := by
  have kept : ∀ {state : EtcdProducers Service Message} {event next},
      state.Accounts ∧ (∀ worker ∈ state.workers, worker.Accountable codec) →
      True → state.step codec event = some next →
      next.Accounts ∧ ∀ worker ∈ next.workers, worker.Accountable codec := by
    rintro state event next ⟨accounts, accountable⟩ _ stepped
    exact ⟨accounts.step stepped, forall_workers Worker.accountable_fresh
      Worker.Accountable.moves accountable stepped⟩
  have start : ({} : EtcdProducers Service Message).Accounts := List.Perm.nil
  obtain ⟨accounts, accountable⟩ := invariant_of_forall kept events
    (fun _ _ => trivial) ⟨start, by simp⟩ reached
  refine ⟨accounts, fun worker isWorker delivery taken => ?_⟩
  have account := accountable worker isWorker
  refine ⟨account.encoded delivery taken, ?_⟩
  have earlier := account.earlier
  have last := account.last
  cases shape : worker.deliveries with
  | nil => simp [shape] at taken
  | cons first others =>
      rw [shape] at taken earlier last
      rcases List.mem_cons.mp taken with rfl | isEarlier
      · have state := last delivery rfl
        unfold Worker.Last at state
        split at state
        · rename_i rest writing
          exact .inr (.inl ⟨by rw [shape]; rfl, rest, writing, state.2⟩)
        · rcases state with failed | complete
          · exact .inr (.inr failed)
          · exact .inl complete.2
        · rcases state with failed | complete
          · exact .inr (.inr failed)
          · exact .inl complete.2
        · exact .inl state.2
      · exact .inl (earlier delivery isEarlier).2

/-- Every request that its worker no longer writes was written completely
while the reader of the connection was there, or is in the service channel
again. -/
def NoneDropped (producers : EtcdProducers Service Message) : Prop :=
  ∀ worker ∈ producers.workers, ∀ delivery ∈ worker.deliveries,
    InHand worker delivery ∨
      (delivery.written = delivery.frame ∧ delivery.connected = true) ∨
      delivery.data ∈ (producers.shared.kServiceRpcChannel worker.service).queue

namespace Example

open Rpc.Example

/-- A provider is found and connected, and its worker waits for a request. -/
def connected : List (WorkerEvent String ExampleMessage) :=
  [.poll "kv" (.nodes [some (ascii "/natsu/kv/provider/1",
      ascii "127.0.0.1:9383")]),
    .start 0 .connect, .connectReturned 0 true, .workerRead 0]

/-- The request is written in two parts. -/
def written : List (WorkerEvent String ExampleMessage) :=
  connected ++ [.invoke 1 "kv" hello, .runWorker 0, .wrote 0 5, .wrote 0 30]

theorem requests_written_hello :
    ∃ producers : EtcdProducers String ExampleMessage,
      runWith (step exampleCodec) {} written = some producers ∧
      producers.Accounts := by
  have happens : (runWith (step exampleCodec) {} written).isSome := by
    decide +kernel
  obtain ⟨producers, reached⟩ := Option.isSome_iff_exists.mp happens
  exact ⟨producers, reached, (requests_written exampleCodec reached).1⟩

/-- A write fails after five bytes; the reader sees the end, and the worker
returns. -/
def lost : List (WorkerEvent String ExampleMessage) :=
  connected ++ [.invoke 1 "kv" hello, .runWorker 0, .wrote 0 5, .writeFailed 0,
    .readEnded 0, .runLocked 0]

/-- The reader sees the end before the worker takes the request. -/
def late : List (WorkerEvent String ExampleMessage) :=
  connected ++ [.readEnded 0, .invoke 1 "kv" hello, .runWorker 0, .wrote 0 35]

/-- What the run leaves of each worker: where it stands, how many requests are
in its channel and, of those it has taken, whether they are complete and
whether the reader was there. -/
def summary (producers : EtcdProducers String ExampleMessage) :
    List (WorkerStage × Nat × List (Bool × Bool)) :=
  producers.workers.map fun worker => (worker.stage,
    (producers.shared.kServiceRpcChannel worker.service).queue.length,
    worker.deliveries.map fun delivery =>
      (decide (delivery.written = delivery.frame), delivery.connected))

theorem not_noneDropped {producers : EtcdProducers String ExampleMessage}
    {stage : WorkerStage} {complete wasConnected : Bool}
    (left : summary producers = [(stage, 0, [(complete, wasConnected)])])
    (idle : ∀ rest, stage ≠ .writing rest)
    (missed : complete = false ∨ wasConnected = false) :
    ¬ producers.NoneDropped := by
  obtain ⟨worker, isWorker, summarised⟩ := List.map_eq_singleton_iff.mp left
  obtain ⟨isStage, others⟩ := Prod.mk.inj summarised
  obtain ⟨queue, deliveries⟩ := Prod.mk.inj others
  obtain ⟨delivery, isDelivery, outcome⟩ :=
    List.map_eq_singleton_iff.mp deliveries
  obtain ⟨isComplete, isConnected⟩ := Prod.mk.inj outcome
  intro noneDropped
  rcases noneDropped worker (by simp [isWorker]) delivery
    (by simp [isDelivery]) with ⟨_, rest, writing, _⟩ | ⟨whole, there⟩ | queued
  · exact idle rest (isStage.symm.trans writing)
  · rw [← isComplete, ← isConnected] at missed
    simp [whole, there] at missed
  · rw [List.length_eq_zero_iff.mp queue] at queued
    simp at queued

/-- The one request is lost with its connection, or written to a connection
that nobody reads. -/
theorem request_dropped :
    (∃ producers : EtcdProducers String ExampleMessage,
      runWith (step exampleCodec) {} lost = some producers ∧
      (∀ worker ∈ producers.workers, worker.stage = .returned) ∧
      ¬ producers.NoneDropped) ∧
    ∃ producers : EtcdProducers String ExampleMessage,
      runWith (step exampleCodec) {} late = some producers ∧
      ¬ producers.NoneDropped := by
  have isLost : (runWith (step exampleCodec) {} lost).map summary =
      some [(.returned, 0, [(false, true)])] := by decide +kernel
  have isLate : (runWith (step exampleCodec) {} late).map summary =
      some [(.serving, 0, [(true, false)])] := by decide +kernel
  obtain ⟨first, reached, left⟩ := Option.map_eq_some_iff.mp isLost
  obtain ⟨second, reachedLate, leftLate⟩ := Option.map_eq_some_iff.mp isLate
  refine ⟨⟨first, reached, ?_, not_noneDropped left (by simp) (.inl rfl)⟩,
    second, reachedLate, not_noneDropped leftLate (by simp) (.inr rfl)⟩
  intro worker member
  have stages := congrArg (List.map Prod.fst) left
  have isStage : worker.stage ∈ first.workers.map Worker.stage :=
    List.mem_map_of_mem member
  simp only [summary, List.map_map, Function.comp_def] at stages
  rw [stages] at isStage
  simpa using isStage

end Example

end EtcdProducers

end Natsu.Rpc
