import Mathlib.Data.List.ReduceOption
import Natsu.Foundation.Holdings
import Natsu.Rpc.ExampleMessages
import Natsu.Rpc.Workers

/-!
# Workers and timers of a node

A poll starts a worker for every node that the poll before did not have, and
asks neither whether the worker of an earlier time is still there nor whether
the list names the node twice.  A worker whose write fails leaves its timer
before it waits for its reader.
-/

namespace Natsu.Rpc

open Natsu.Foundation Natsu.Libgo

variable {Service Message Descriptor : Type}

/-- The keys of a poll, up to the first item that throws, that are not among
the nodes of the poll before. -/
def newKeys (nodelist : Std.ExtTreeMap Bytes Bytes)
    (items : List (Option (Bytes × Bytes))) : List Bytes :=
  ((items.takeWhile Option.isSome).reduceOption.map Prod.fst).filter
    (· ∉ nodelist)

theorem pollNodes_started (nodelist : Std.ExtTreeMap Bytes Bytes)
    (items : List (Option (Bytes × Bytes))) :
    ∀ result, (pollNodes nodelist items result).2 = newKeys nodelist items := by
  induction items with
  | nil => exact fun _ => rfl
  | cons item items induction =>
      intro result
      cases item with
      | none => rfl
      | some entry =>
          have rest := induction (result.insert entry.1 entry.2)
          unfold newKeys at rest ⊢
          simp only [pollNodes, rest, Option.isSome_some, List.takeWhile_cons,
            if_true, List.reduceOption_cons_of_some, List.map_cons,
            List.filter_cons]
          by_cases known : entry.1 ∈ nodelist
          · simp [known]
          · simp [known]

namespace Worker

variable {codec : Codec Message Descriptor}
  {worker moved : Worker Service Message} {retry : Bool}

def key (worker : Worker Service Message) : Service × Bytes :=
  (worker.service, worker.node)

/-- The key of a worker that has not returned. -/
def activity (worker : Worker Service Message) : List (Service × Bytes) :=
  if worker.stage = .returned then [] else [worker.key]

/-- The timer that a worker leaves. -/
def retries (worker : Worker Service Message) (retry : Bool) :
    List (Service × Bytes) :=
  if retry then [worker.key] else []

theorem activity_of_stage {stage : WorkerStage} (isStage : worker.stage = stage)
    (active : stage ≠ .returned) : worker.activity = [worker.key] := by
  unfold activity
  rw [isStage, if_neg active]

theorem writeNext_same (rest : Bytes) :
    (worker.writeNext rest).key = worker.key ∧
      (worker.writeNext rest).activity = [worker.key] := by
  unfold writeNext
  split
  · exact ⟨rfl, rfl⟩
  · exact ⟨rfl, rfl⟩

theorem receive_activity {data : Option (RpcChannelData Message)}
    (received : worker.receive codec data = some moved) :
    moved.activity = [worker.key] := by
  cases data with
  | none =>
      obtain rfl := Option.some.inj received
      rfl
  | some data =>
      obtain ⟨frame, _, rfl⟩ := receive_some received
      exact (writeNext_same frame).2

theorem wrote_activity {count : Nat} (written : worker.wrote count = some moved) :
    worker.activity = [worker.key] ∧ moved.activity = [worker.key] := by
  obtain ⟨rest, writing, rfl⟩ := wrote_some written
  exact ⟨activity_of_stage writing (by simp), (writeNext_same _).2⟩

/-- A failed write leaves the timer, and the worker stays unless it gets
`locker` at once. -/
theorem writeFailed_activity (failed : worker.writeFailed = some moved) :
    worker.activity = [worker.key] ∧ moved.key = worker.key ∧
      moved.activity =
        if (worker.locker.lock ()).1 then [] else [worker.key] := by
  obtain ⟨rest, writing, rfl⟩ := writeFailed_some failed
  refine ⟨activity_of_stage writing (by simp), rfl, ?_⟩
  unfold activity
  cases (worker.locker.lock ()).1 with
  | true => rfl
  | false => rfl

/-- Apart from a failed write that has to wait for the reader, a worker leaves
no more than it was. -/
theorem Moves.activity_sublist {move : Move}
    (moves : worker.Moves codec move moved retry)
    (granted : move = .failed → (worker.locker.lock ()).1 = true) :
    (moved.activity ++ moved.retries retry).Sublist worker.activity := by
  cases moves with
  | started present attempt spawned =>
      rw [activity_of_stage spawned (by simp)]
      unfold Worker.start
      split
      · split <;> exact .refl _
      · exact List.nil_sublist _
  | connected connected connecting =>
      rw [activity_of_stage connecting (by simp)]
      unfold Worker.connectReturned
      split <;> exact .refl _
  | received data inLoop received =>
      have active : worker.activity = [worker.key] := by
        rcases inLoop with stage | stage <;>
          exact activity_of_stage stage (by simp)
      rw [receive_activity received, active]
      exact .refl _
  | wrote count written =>
      obtain ⟨before, after⟩ := wrote_activity written
      rw [before, after]
      exact .refl _
  | failed failed =>
      obtain ⟨before, key, after⟩ := writeFailed_activity failed
      rw [before, after, granted rfl]
      simp [retries, key]
  | unlocked resumed =>
      obtain ⟨_, locker, _, rfl⟩ := runLocked_some resumed
      exact List.nil_sublist _
  | ended ended =>
      obtain ⟨_, locker, _, rfl⟩ := readEnded_some ended
      simp [retries, activity, key]

/-- While a worker is in its loop, `locker` is free exactly when the reader has
come to its end. -/
def Guarded (worker : Worker Service Message) : Prop :=
  match worker.stage with
  | .spawned | .connecting => worker.reading = false
  | .serving | .receiving | .writing _ =>
      worker.locker.block = { wakeup := if worker.reading then 0 else 1 }
  | .locking | .returned => True

theorem guarded_fresh (service : Service) (node : Bytes) (context : Context) :
    Guarded ({ service := service, node := node, context := context } :
      Worker Service Message) := rfl

theorem Guarded.writeNext
    (guarded : worker.locker.block =
      { wakeup := if worker.reading then 0 else 1 }) (rest : Bytes) :
    (worker.writeNext rest).Guarded := by
  unfold Worker.writeNext
  split
  · exact guarded
  · exact guarded

theorem Guarded.readEnded (guarded : worker.Guarded)
    (ended : worker.readEnded = some moved) : moved.Guarded := by
  obtain ⟨reading, locker, unlocked, rfl⟩ := readEnded_some ended
  have freed : worker.locker.block =
      { wakeup := if worker.reading then 0 else 1 } →
      locker.block = { wakeup := 1 } := by
    intro held
    simp only [CoMutex.unlock, held, reading, if_true] at unlocked
    obtain rfl := Option.some.inj unlocked
    rfl
  unfold Guarded at guarded ⊢
  cases stage : worker.stage with
  | spawned | connecting => rfl
  | serving | receiving | writing rest =>
      rw [stage] at guarded
      exact freed guarded
  | locking | returned => trivial

theorem Guarded.moves {move : Move} (guarded : worker.Guarded)
    (moves : worker.Moves codec move moved retry) : moved.Guarded := by
  cases moves with
  | started present attempt spawned =>
      have unread : worker.reading = false := by
        simpa [Guarded, spawned] using guarded
      unfold Worker.start
      split
      · split
        · trivial
        · trivial
        · exact unread
      · trivial
  | connected connected connecting =>
      unfold Worker.connectReturned
      split
      · rfl
      · trivial
  | received data inLoop received =>
      have held : worker.locker.block =
          { wakeup := if worker.reading then 0 else 1 } := by
        rcases inLoop with stage | stage <;>
          simpa [Guarded, stage] using guarded
      cases data with
      | none =>
          obtain rfl := Option.some.inj received
          exact held
      | some data =>
          obtain ⟨frame, _, rfl⟩ := receive_some received
          apply Guarded.writeNext
          exact held
  | wrote count written =>
      obtain ⟨rest, writing, rfl⟩ := wrote_some written
      have held : worker.locker.block =
          { wakeup := if worker.reading then 0 else 1 } := by
        simpa [Guarded, writing] using guarded
      apply Guarded.writeNext
      exact held
  | failed failed =>
      obtain ⟨rest, _, rfl⟩ := writeFailed_some failed
      unfold Guarded
      cases (worker.locker.lock ()).1 with
      | true => trivial
      | false => trivial
  | unlocked resumed =>
      obtain ⟨_, locker, _, rfl⟩ := runLocked_some resumed
      trivial
  | ended ended => exact guarded.readEnded ended

/-- A worker whose write fails gets `locker` at once exactly when its reader
has come to its end. -/
theorem Guarded.granted_iff (guarded : worker.Guarded)
    (failed : worker.writeFailed = some moved) :
    (worker.locker.lock ()).1 = true ↔ worker.reading = false := by
  obtain ⟨rest, writing, _⟩ := writeFailed_some failed
  have held : worker.locker.block =
      { wakeup := if worker.reading then 0 else 1 } := by
    simpa [Guarded, writing] using guarded
  cases reading : worker.reading with
  | true =>
      simp [CoMutex.lock, BlockObject.coBlockWait, held, reading]
  | false =>
      simp [CoMutex.lock, BlockObject.coBlockWait, held, reading]

end Worker

namespace EtcdProducers

/-- The node of every worker that has not returned and of every timer. -/
def activities (producers : EtcdProducers Service Message) :
    List (Service × Bytes) :=
  producers.workers.flatMap Worker.activity ++ producers.timers

/-- No node has two activities. -/
def Single (producers : EtcdProducers Service Message) : Prop :=
  producers.activities.Nodup

/-- A poll lists no new node twice and none that has an activity left, and a
write fails only when the reader of the connection has come to its end. -/
def Tidy (producers : EtcdProducers Service Message) :
    WorkerEvent Service Message → Prop
  | .poll service (.nodes items) =>
      (newKeys (producers.serviceNode service) items).Nodup ∧
        ∀ key ∈ newKeys (producers.serviceNode service) items,
          (service, key) ∉ producers.activities
  | .writeFailed index =>
      ∀ worker ∈ producers.workers[index]?, worker.reading = false
  | _ => True

instance Tidy.decidable [DecidableEq Service]
    (producers : EtcdProducers Service Message) :
    (event : WorkerEvent Service Message) → Decidable (producers.Tidy event)
  | .poll service (.nodes items) =>
      inferInstanceAs (Decidable
        ((newKeys (producers.serviceNode service) items).Nodup ∧ _))
  | .writeFailed index =>
      inferInstanceAs (Decidable (∀ worker ∈ producers.workers[index]?, _))
  | .poll _ .nothing | .start .. | .fire .. | .connectReturned ..
  | .workerRead _ | .runWorker _ | .wrote .. | .runLocked _ | .readEnded _
  | .response .. | .runReader _ | .invoke .. | .runInvoke _ | .sweep _ =>
      isTrue trivial

variable {codec : Codec Message Descriptor}
  {producers next : EtcdProducers Service Message}

/-- The activities before and after a worker has moved differ in those of the
worker. -/
theorem activities_advance {index : Nat} {worker : Worker Service Message}
    (present : producers.workers[index]? = some worker)
    (moved : Worker Service Message) (shared : Producers Service Message)
    (retry : Bool) :
    ∃ others, producers.activities.Perm (worker.activity ++ others) ∧
      (advance { producers with shared := shared } index moved
        retry).activities.Perm
        (moved.activity ++ moved.retries retry ++ others) := by
  obtain ⟨others, before, after⟩ := flatMap_replace Worker.activity present
  refine ⟨others ++ producers.timers, ?_, ?_⟩
  · rw [← List.append_assoc]
    exact before.append_right _
  · refine ((after moved).append_right _).trans ?_
    show (moved.activity ++ _ ++ (producers.timers ++ moved.retries retry)).Perm _
    rw [List.append_assoc, List.append_assoc, List.perm_append_left_iff,
      ← List.append_assoc]
    exact List.perm_append_comm

/-- A worker that leaves no more than it was keeps the nodes single. -/
theorem Single.advance (single : producers.Single) {index : Nat}
    {worker moved : Worker Service Message} {retry : Bool}
    {shared : Producers Service Message}
    (present : producers.workers[index]? = some worker)
    (fewer : (moved.activity ++ moved.retries retry).Sublist worker.activity) :
    (advance { producers with shared := shared } index moved retry).Single := by
  obtain ⟨others, before, after⟩ :=
    activities_advance present moved shared retry
  refine after.nodup_iff.mpr (List.Nodup.sublist ?_ (before.nodup_iff.mp single))
  exact fewer.append_right others

theorem Single.fire (single : producers.Single)
    (codec : Codec Message Descriptor) {timer : Nat} {attempt : Attempt}
    (fired : producers.fire timer attempt = some next) : next.Single := by
  obtain ⟨worker, moved, retry, isTimer, isFresh, present, moves, rfl⟩ :=
    fire_cases codec fired
  obtain ⟨bound, isKey⟩ := List.getElem?_eq_some_iff.mp isTimer
  have entered : (producers.enter timer worker).Single := by
    have timers : producers.timers.Perm
        (worker.key :: producers.timers.eraseIdx timer) := by
      rw [Worker.key, ← isKey]
      exact (List.getElem_cons_eraseIdx_perm bound).symm
    have active : worker.activity = [worker.key] := by
      rw [isFresh]
      rfl
    have same : (producers.enter timer worker).activities =
        producers.workers.flatMap Worker.activity ++
          (worker.key :: producers.timers.eraseIdx timer) := by
      simp [activities, enter, active]
    unfold Single
    rw [same]
    exact (timers.append_left _).nodup_iff.mp single
  exact entered.advance present (moves.activity_sublist (by simp))

/-- A failed write that has to wait for the reader leaves two activities. -/
theorem not_single_of_waiting {index : Nat}
    {worker moved : Worker Service Message}
    (present : producers.workers[index]? = some worker)
    (failed : worker.writeFailed = some moved)
    (refused : (worker.locker.lock ()).1 ≠ true) :
    ¬ (producers.advance index moved true).Single := by
  obtain ⟨_, key, activity⟩ := Worker.writeFailed_activity failed
  obtain ⟨others, _, after⟩ :=
    activities_advance present moved producers.shared true
  rw [activity, if_neg refused] at after
  intro single
  have nodup := after.nodup_iff.mp single
  simp [Worker.retries, key] at nodup

variable [DecidableEq Service]

theorem activities_poll (service : Service)
    (items : List (Option (Bytes × Bytes))) :
    (producers.produceFromEtcd service (.nodes items)).activities.Perm
      ((newKeys (producers.serviceNode service) items).map (service, ·) ++
        producers.activities) := by
  have started : ∀ keys : List Bytes, (keys.map fun key =>
      ({ service := service, node := key } : Worker Service Message)).flatMap
        Worker.activity = keys.map (service, ·) := by
    intro keys
    induction keys with
    | nil => rfl
    | cons key keys induction =>
        simp only [List.map_cons, List.flatMap_cons, induction]
        rfl
  simp only [produceFromEtcd, activities, List.flatMap_append, started,
    pollNodes_started]
  rw [← List.append_assoc]
  exact List.perm_append_comm.append_right _

/-- A poll keeps the nodes single exactly when its new nodes are new. -/
theorem single_poll_iff (single : producers.Single) (service : Service)
    (items : List (Option (Bytes × Bytes))) :
    (producers.produceFromEtcd service (.nodes items)).Single ↔
      producers.Tidy (.poll service (.nodes items)) := by
  unfold Single
  rw [(activities_poll service items).nodup_iff, List.nodup_append]
  have injective : Function.Injective fun key : Bytes => (service, key) :=
    fun _ _ same => (Prod.mk.inj same).2
  rw [List.nodup_map_iff injective]
  constructor
  · rintro ⟨nodup, _, disjoint⟩
    refine ⟨nodup, fun key member active => ?_⟩
    exact disjoint _ (List.mem_map_of_mem member) _ active rfl
  · rintro ⟨nodup, idle⟩
    refine ⟨nodup, single, ?_⟩
    rintro _ member active isActive rfl
    obtain ⟨key, isNew, rfl⟩ := List.mem_map.mp member
    exact idle key isNew isActive

/-- Events other than polls and failed writes keep the nodes single. -/
theorem Single.effect (single : producers.Single)
    {event : WorkerEvent Service Message}
    (effect : Effect codec producers next event)
    (notPoll : ∀ service result, event ≠ .poll service result)
    (notFailed : ∀ index, event ≠ .writeFailed index) : next.Single := by
  cases effect with
  | polled service result _ => exact absurd rfl (notPoll service result)
  | fired timer attempt fired => exact single.fire codec fired
  | moved index isMove present moves _ advanced =>
      subst advanced
      refine single.advance present (moves.activity_sublist ?_)
      rintro rfl
      cases event <;> simp [WorkerEvent.move?] at isMove notFailed
  | shared action _ _ same =>
      subst same
      exact single

/-- An event keeps the nodes single exactly when it is tidy. -/
theorem single_step_iff {event : WorkerEvent Service Message}
    (guarded : ∀ worker ∈ producers.workers, worker.Guarded)
    (single : producers.Single)
    (stepped : producers.step codec event = some next) :
    next.Single ↔ producers.Tidy event := by
  obtain ⟨_, _, acted⟩ := act_of_step stepped
  cases event with
  | poll service result =>
      obtain rfl := Option.some.inj acted
      cases result with
      | nothing => exact iff_of_true single trivial
      | nodes items => exact single_poll_iff single service items
  | writeFailed index =>
      obtain ⟨worker, present, continued⟩ := Option.bind_eq_some_iff.mp acted
      obtain ⟨moved, failed, rfl⟩ := Option.map_eq_some_iff.mp continued
      have granted :=
        (guarded worker (List.mem_of_getElem? present)).granted_iff failed
      have tidy : producers.Tidy (.writeFailed index) ↔
          (worker.locker.lock ()).1 = true := by
        rw [granted]
        simp [Tidy, present]
      rw [tidy]
      constructor
      · intro singleNext
        by_contra refused
        exact not_single_of_waiting present failed refused singleNext
      · intro isGranted
        have moves : worker.Moves codec .failed moved true := .failed failed
        exact single.advance present
          (moves.activity_sublist fun _ => isGranted)
  | _ =>
      exact iff_of_true (single.effect (act_effect acted) (by simp) (by simp))
        trivial

/-- At every moment of a run each node has at most one activity exactly when
all events of the run are tidy. -/
theorem one_activity_iff (codec : Codec Message Descriptor)
    {events : List (WorkerEvent Service Message)}
    {final : EtcdProducers Service Message}
    (reached : runWith (step codec) {} events = some final) :
    (∀ before, before <+: events → ∀ producers,
      runWith (step codec) {} before = some producers → producers.Single) ↔
      Throughout (step codec) Tidy {} events := by
  have kept : ∀ {state : EtcdProducers Service Message} {event next},
      (∀ worker ∈ state.workers, worker.Guarded) →
      state.step codec event = some next →
      ∀ worker ∈ next.workers, worker.Guarded :=
    fun guarded stepped =>
      forall_workers Worker.guarded_fresh Worker.Guarded.moves guarded stepped
  have start : ({} : EtcdProducers Service Message).Single := List.nodup_nil
  exact throughout_iff kept single_step_iff events (by simp) start reached

namespace Example

def node : Bytes := ascii "/natsu/kv/provider/1"

def other : Bytes := ascii "/natsu/kv/provider/2"

def address : Bytes := ascii "127.0.0.1:9383"

def found : Poll := .nodes [some (node, address)]

def vanished : Poll := .nodes [some (other, address)]

/-- A node disappears and comes back after its timer has found it gone. -/
def settled : List (WorkerEvent String Rpc.Example.ExampleMessage) :=
  [.poll "kv" found, .start 0 .connect, .connectReturned 0 false,
    .poll "kv" vanished, .fire 0 .connect, .poll "kv" found]

theorem one_activity_settled :
    (runWith (step Rpc.Example.exampleCodec) {} settled).isSome ∧
      ∀ before, before <+: settled → ∀ producers,
        runWith (step Rpc.Example.exampleCodec) {} before = some producers →
        producers.Single := by
  have happens : (runWith (step Rpc.Example.exampleCodec) {} settled).isSome := by
    decide +kernel
  refine ⟨happens, ?_⟩
  obtain ⟨final, reached⟩ := Option.isSome_iff_exists.mp happens
  exact (one_activity_iff Rpc.Example.exampleCodec reached).mpr
    (by decide +kernel)

/-- A node disappears and comes back while its worker serves it. -/
def flapping : List (WorkerEvent String Rpc.Example.ExampleMessage) :=
  [.poll "kv" found, .start 0 .connect, .connectReturned 0 true,
    .poll "kv" vanished, .poll "kv" found]

/-- Two workers for one node. -/
theorem two_workers_of_flapping :
    ∃ producers, runWith (step Rpc.Example.exampleCodec) {} flapping =
      some producers ∧ ¬ producers.Single := by
  have happens : (runWith (step Rpc.Example.exampleCodec) {} flapping).map
      (fun producers => decide producers.activities.Nodup) = some false := by
    decide +kernel
  obtain ⟨producers, reached, twice⟩ := Option.map_eq_some_iff.mp happens
  have notNodup : ¬ producers.activities.Nodup := of_decide_eq_false twice
  exact ⟨producers, reached, notNodup⟩

end Example

end EtcdProducers

end Natsu.Rpc
