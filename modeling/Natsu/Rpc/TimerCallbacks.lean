import Natsu.Rpc.Completion
import Natsu.Rpc.ExampleMessages
import Natsu.Rpc.Workers

/-!
# What timer callbacks wait for

Two callbacks can come to a channel: the sweep, which writes null to the calls
that are too old, and a worker that is started again.  Neither is a coroutine,
so where the channel is not ready the scheduler thread spins.
-/

namespace Natsu.Rpc

open Natsu.Foundation Natsu.Libgo

variable {Service Message Descriptor : Type}

namespace Producers

variable {producers next : Producers Service Message}

/-- The call waits in the read of its own channel and nothing has been written
to it. -/
def Awaits (producers : Producers Service Message) (call : Nat) : Prop :=
  producers.calls[call]?.any Call.reads = true ∧ call ∉ producers.addressed

instance (producers : Producers Service Message) (call : Nat) :
    Decidable (producers.Awaits call) :=
  inferInstanceAs (Decidable (_ ∧ _))

/-- Nobody waits to write to a call that has not been written to, and once it
reads, a write to it is ready. -/
def Unwritten (producers : Producers Service Message) : Prop :=
  ∀ (call : Nat) (value : Call Service Message),
    producers.calls[call]? = some value → call ∉ producers.addressed →
    value.channel.writeBlock.waitQueue = [] ∧
      (value.reads = true → 0 < value.channel.writeBlock.wakeup)

section Updates

variable {call : Nat} {value : Call Service Message}

theorem Unwritten.setCall (unwritten : producers.Unwritten)
    (present : producers.calls[call]? = some value)
    {next : Call Service Message}
    (fresh : call ∉ producers.addressed →
      next.channel.writeBlock.waitQueue = [] ∧
        (next.reads = true → 0 < next.channel.writeBlock.wakeup)) :
    (producers.setCall call next).Unwritten := by
  intro other current found unaddressed
  rcases of_getElem?_set present found with ⟨rfl, rfl⟩ | ⟨_, before⟩
  · exact fresh unaddressed
  · exact unwritten other current before unaddressed

theorem Unwritten.readReply (unwritten : producers.Unwritten)
    (present : producers.calls[call]? = some value) :
    (producers.readReply call value).Unwritten := by
  unfold Producers.readReply
  split
  · rename_i rsp channel taken
    obtain ⟨_, written, _⟩ := Channel.read_done taken
    refine unwritten.setCall present fun unaddressed => ?_
    obtain ⟨nobody, _⟩ := unwritten call value present unaddressed
    refine ⟨?_, by simp [Call.reads]⟩
    show channel.writeBlock.waitQueue = []
    simp [written, BlockObject.wake, nobody]
  · rename_i channel parked
    obtain ⟨written, _⟩ := Channel.read_parked parked
    refine unwritten.setCall present fun unaddressed => ?_
    obtain ⟨nobody, _⟩ := unwritten call value present unaddressed
    show channel.writeBlock.waitQueue = [] ∧
      (_ → 0 < channel.writeBlock.wakeup)
    simp [written, BlockObject.wake, nobody]

theorem Unwritten.register (unwritten : producers.Unwritten)
    (fresh : value.channel = {}) (writes : value.stage = .serviceWrite) :
    (producers.register value).Unwritten := by
  intro other current found unaddressed
  rcases of_getElem?_concat found with before | ⟨_, rfl⟩
  · exact unwritten other current before unaddressed
  · rw [fresh]
    exact ⟨rfl, by simp [Call.reads, writes]⟩

/-- A write that is noted leaves the calls alone. -/
theorem Unwritten.notePush (unwritten : producers.Unwritten) {ready : Bool} :
    (producers.notePush call ready).Unwritten := by
  intro other current found unaddressed
  refine unwritten other current found fun earlier => unaddressed ?_
  exact addressed_notePush.mpr (.inl earlier)

/-- The channel of a call that is written to may change as it likes. -/
theorem Unwritten.push (unwritten : producers.Unwritten)
    (present : producers.calls[call]? = some value)
    {ready : Bool} (next : Call Service Message) :
    ((producers.notePush call ready).setCall call next).Unwritten := by
  refine unwritten.notePush.setCall present fun unaddressed => ?_
  exact absurd mem_addressed_notePush unaddressed

theorem Unwritten.response (unwritten : producers.Unwritten) {reader : Nat}
    {rid : UInt64} {message : Message}
    (responded : producers.response reader rid message = some next) :
    next.Unwritten := by
  rcases response_cases responded with rfl |
    ⟨call, value, channel, _, present, ⟨_, rfl⟩ | ⟨_, rfl⟩⟩
  · exact unwritten
  · exact unwritten.push present _
  · exact unwritten.push present _

theorem Unwritten.runReader (unwritten : producers.Unwritten)
    (consistent : producers.Consistent) {reader : Nat}
    (resumed : producers.runReader reader = some next) : next.Unwritten := by
  obtain ⟨call, message, value, channel, waits, present, _, rfl⟩ :=
    runReader_cases resumed
  have touched := consistent.sound.blocked waits
  exact unwritten.setCall present fun unaddressed => absurd touched unaddressed

theorem Unwritten.pushNull (unwritten : producers.Unwritten)
    (present : producers.calls[call]? = some value) :
    (producers.pushNull call value).Unwritten := by
  rcases pushNull_cases producers call value with ⟨channel, _, pushed⟩ | pushed
  · rw [pushed]
    exact unwritten.push present _
  · rw [pushed]
    exact unwritten.notePush

/-- A write of null to a call that awaits it is ready, and the other calls
still await theirs. -/
theorem Awaits.pushNull (unwritten : producers.Unwritten)
    (awaits : producers.Awaits call)
    (present : producers.calls[call]? = some value) :
    (producers.pushNull call value).hung = producers.hung ∧
      ∀ other, other ≠ call → producers.Awaits other →
        (producers.pushNull call value).Awaits other := by
  have reads : value.reads = true := by simpa [Awaits, present] using awaits.1
  have signalled := (unwritten call value present awaits.2).2 reads
  have pushed : ∃ channel, producers.pushNull call value =
      (producers.notePush call value.parked).setCall call
        { value with channel := channel } := by
    simp only [Producers.pushNull, Channel.spinWrite,
      BlockObject.tryBlockWait, signalled, if_true, Option.map_some]
    exact ⟨_, rfl⟩
  obtain ⟨channel, pushed⟩ := pushed
  rw [pushed]
  refine ⟨rfl, fun other different otherAwaits => ⟨?_, ?_⟩⟩
  · show ((producers.calls.set call _)[other]?).any Call.reads = true
    rw [List.getElem?_set_ne different.symm]
    exact otherAwaits.1
  · show other ∉ (producers.notePush call value.parked).addressed
    rw [addressed_notePush, not_or]
    exact ⟨otherAwaits.2, different⟩

/-- A sweep over calls that await it comes to its end. -/
theorem pushNulls_ready (calls : List Nat) :
    ∀ {producers : Producers Service Message}, producers.Unwritten →
      producers.hung = false → calls.Nodup →
      (∀ call ∈ calls, producers.Awaits call) →
      (pushNulls calls producers).Unwritten ∧
        (pushNulls calls producers).hung = false := by
  induction calls with
  | nil => exact fun unwritten running _ _ => ⟨unwritten, running⟩
  | cons call calls induction =>
      intro producers unwritten running nodup awaits
      obtain ⟨notLater, nodupLater⟩ := List.nodup_cons.mp nodup
      unfold pushNulls
      rw [running]
      cases present : producers.calls[call]? with
      | none => exact ⟨unwritten, running⟩
      | some value =>
          obtain ⟨same, others⟩ :=
            (awaits call List.mem_cons_self).pushNull unwritten present
          refine induction (unwritten.pushNull present)
            (same.trans running) nodupLater ?_
          intro other member
          refine others other (fun isCall => notLater (isCall ▸ member)) ?_
          exact awaits other (List.mem_cons_of_mem call member)

end Updates

variable [DecidableEq Service]

theorem Unwritten.invoke (unwritten : producers.Unwritten) (id : UInt64)
    (service : Service) (msg : Message) :
    (producers.invoke id service msg).Unwritten := by
  let value : Call Service Message :=
    { id := id, service := service, msg := msg }
  have registered : (producers.register value).Unwritten :=
    unwritten.register rfl rfl
  simp only [Producers.invoke]
  split
  · exact registered
  · rename_i channel _
    have sent : ((producers.register value).setService service
        channel).Unwritten := registered
    exact sent.readReply List.getElem?_concat_length

theorem Unwritten.runInvoke (unwritten : producers.Unwritten) {call : Nat}
    (consistent : producers.Consistent)
    (resumed : producers.runInvoke call = some next) : next.Unwritten := by
  obtain ⟨value, present, ⟨channel, _, _, rfl⟩ |
    ⟨rsp, channel, _, read, rfl⟩⟩ := runInvoke_cases resumed
  · have sent : (producers.setService value.service channel).Unwritten :=
      unwritten
    exact sent.readReply present
  · obtain ⟨woken, _⟩ := Channel.resumeRead_done read
    refine unwritten.setCall present fun unaddressed => ?_
    obtain ⟨_, none, _⟩ := consistent.sound.untouched present unaddressed
    simp [none] at woken

/-- A sweep waits for nobody if it addresses only calls that await it, and no
other event of the producers lets the thread spin. -/
theorem act_ready (unwritten : producers.Unwritten)
    (consistent : producers.Consistent) (running : producers.hung = false)
    {event : Event Service Message}
    (awaited : ∀ n, event = .sweep n →
      ∀ call ∈ producers.expired n, producers.Awaits call)
    (acted : producers.act event = some next) :
    next.Unwritten ∧ next.hung = false := by
  cases event with
  | invoke id service msg =>
      obtain rfl := Option.some.inj acted
      refine ⟨unwritten.invoke id service msg, ?_⟩
      simp only [Producers.invoke, Producers.readReply]
      repeat' split
      all_goals exact running
  | runInvoke call =>
      refine ⟨unwritten.runInvoke consistent acted, ?_⟩
      obtain ⟨value, _, ⟨channel, _, _, rfl⟩ | ⟨rsp, channel, _, _, rfl⟩⟩ :=
        runInvoke_cases acted
      · unfold Producers.readReply
        split <;> exact running
      · exact running
  | workerRead worker service =>
      rcases workerRead_cases acted with ⟨_, _, _, rfl⟩ | ⟨_, _, rfl⟩
      · exact ⟨unwritten, running⟩
      · exact ⟨unwritten, running⟩
  | runWorker worker service =>
      obtain ⟨_, _, _, rfl⟩ := runWorker_cases acted
      exact ⟨unwritten, running⟩
  | response reader rid message =>
      refine ⟨unwritten.response acted, ?_⟩
      rcases response_cases acted with rfl |
        ⟨_, _, _, _, _, ⟨_, rfl⟩ | ⟨_, rfl⟩⟩
      · exact running
      · exact running
      · exact running
  | runReader reader =>
      refine ⟨unwritten.runReader consistent acted, ?_⟩
      obtain ⟨_, _, _, _, _, _, _, rfl⟩ := runReader_cases acted
      exact running
  | sweep n =>
      obtain rfl := Option.some.inj acted
      exact pushNulls_ready _ unwritten running
        (consistent.sound.expired_nodup n) (awaited n rfl)

end Producers

namespace Worker

variable {codec : Codec Message Descriptor}
  {worker moved : Worker Service Message} {move : Move} {retry : Bool}

/-- The worker has come to its loop and not returned. -/
def inLoop (worker : Worker Service Message) : Bool :=
  match worker.stage with
  | .serving | .receiving | .writing _ | .locking => true
  | .spawned | .connecting | .returned => false

theorem waits_of_not_inLoop (outside : worker.inLoop = false) :
    worker.waits = false := by
  unfold inLoop at outside
  unfold waits
  cases stage : worker.stage <;> simp [stage] at outside <;> rfl

theorem context_writeNext (rest : Bytes) :
    (worker.writeNext rest).context = worker.context := by
  unfold writeNext
  split <;> rfl

theorem Moves.context (moves : worker.Moves codec move moved retry) :
    moved.context = worker.context := by
  cases moves with
  | started present attempt _ =>
      unfold Worker.start
      split
      · split <;> rfl
      · rfl
  | connected connected _ =>
      unfold Worker.connectReturned
      split <;> rfl
  | received data _ received =>
      cases data with
      | none =>
          obtain rfl := Option.some.inj received
          rfl
      | some data =>
          obtain ⟨frame, _, rfl⟩ := receive_some received
          exact context_writeNext frame
  | wrote count written =>
      obtain ⟨rest, _, rfl⟩ := wrote_some written
      exact context_writeNext _
  | failed failed =>
      obtain ⟨rest, _, rfl⟩ := writeFailed_some failed
      rfl
  | unlocked resumed =>
      obtain ⟨_, locker, _, rfl⟩ := runLocked_some resumed
      rfl
  | ended ended =>
      obtain ⟨_, locker, _, rfl⟩ := readEnded_some ended
      rfl

/-- A worker comes to its loop only through a `connect` that succeeds. -/
theorem Moves.outside (moves : worker.Moves codec move moved retry)
    (outside : worker.inLoop = false) (refused : move ≠ .connected true) :
    moved.inLoop = false := by
  unfold inLoop at outside
  cases moves with
  | started present attempt _ =>
      unfold Worker.start
      split
      · split <;> rfl
      · rfl
  | connected connected _ =>
      cases connected with
      | true => exact absurd rfl refused
      | false => rfl
  | received data inLoop _ =>
      rcases inLoop with stage | stage <;> simp [stage] at outside
  | wrote count written =>
      obtain ⟨rest, writing, _⟩ := wrote_some written
      simp [writing] at outside
  | failed failed =>
      obtain ⟨rest, writing, _⟩ := writeFailed_some failed
      simp [writing] at outside
  | unlocked resumed =>
      obtain ⟨locking, _⟩ := runLocked_some resumed
      simp [locking] at outside
  | ended ended =>
      obtain ⟨_, locker, _, rfl⟩ := readEnded_some ended
      exact outside

end Worker

namespace EtcdProducers

/-- No callback spins at a channel, and no worker that a timer has started is
in its loop. -/
structure Prompt (producers : EtcdProducers Service Message) : Prop where
  running : producers.shared.hung = false
  outside : ∀ worker ∈ producers.workers, worker.context = .timer →
    worker.inLoop = false

/-- `connect` does not succeed for a worker that a timer has started, and a
sweep addresses only calls that wait in the read of their own channel and to
which nothing has been written. -/
def Ready (producers : EtcdProducers Service Message) :
    WorkerEvent Service Message → Prop
  | .connectReturned index true =>
      ∀ worker ∈ producers.workers[index]?, worker.context = .coroutine
  | .sweep n =>
      ∀ call ∈ producers.shared.expired n, producers.shared.Awaits call
  | _ => True

instance Ready.decidable (producers : EtcdProducers Service Message) :
    (event : WorkerEvent Service Message) → Decidable (producers.Ready event)
  | .connectReturned index true =>
      inferInstanceAs (Decidable (∀ worker ∈ producers.workers[index]?, _))
  | .sweep n =>
      inferInstanceAs (Decidable (∀ call ∈ producers.shared.expired n, _))
  | .connectReturned _ false | .poll .. | .start .. | .fire .. | .workerRead _
  | .runWorker _ | .wrote .. | .writeFailed _ | .runLocked _ | .readEnded _
  | .response .. | .runReader _ | .invoke .. | .runInvoke _ => isTrue trivial

variable {codec : Codec Message Descriptor}
  {producers next : EtcdProducers Service Message}

theorem Prompt.advance (prompt : producers.Prompt) {index : Nat}
    {move : Move} {worker moved : Worker Service Message} {retry : Bool}
    {shared : Producers Service Message} (running : shared.hung = false)
    (isWorker : worker ∈ producers.workers)
    (moves : worker.Moves codec move moved retry)
    (refused : worker.context = .timer → move ≠ .connected true) :
    (advance { producers with shared := shared } index moved retry).Prompt := by
  have outside : moved.context = .timer → moved.inLoop = false := by
    intro isTimer
    rw [moves.context] at isTimer
    exact moves.outside (prompt.outside worker isWorker isTimer)
      (refused isTimer)
  refine ⟨?_, ?_⟩
  · show (shared.hung || (moved.context = .timer && moved.waits)) = false
    rw [running, Bool.false_or]
    by_cases isTimer : moved.context = .timer
    · simp [Worker.waits_of_not_inLoop (outside isTimer)]
    · simp [isTimer]
  · intro other member isTimer
    rcases List.mem_or_eq_of_mem_set member with earlier | rfl
    · exact prompt.outside other earlier isTimer
    · exact outside isTimer

/-- What the shared state keeps through every run. -/
structure Sound (producers : EtcdProducers Service Message) : Prop where
  consistent : producers.shared.Consistent
  unwritten : producers.shared.Unwritten

theorem Sound.advance (sound : producers.Sound) (index : Nat)
    (moved : Worker Service Message) (retry : Bool) :
    (producers.advance index moved retry).Sound :=
  ⟨sound.consistent.hang _, sound.unwritten⟩

theorem Prompt.fire (prompt : producers.Prompt) (sound : producers.Sound)
    (codec : Codec Message Descriptor) {timer : Nat} {attempt : Attempt}
    (fired : producers.fire timer attempt = some next) :
    next.Sound ∧ next.Prompt := by
  obtain ⟨worker, moved, retry, _, isFresh, present, moves, rfl⟩ :=
    fire_cases codec fired
  have entered : (producers.enter timer worker).Prompt := by
    refine ⟨prompt.running, fun other member isTimer => ?_⟩
    rcases List.mem_append.mp member with earlier | isNew
    · exact prompt.outside other earlier isTimer
    · rw [List.mem_singleton.mp isNew, isFresh]
      rfl
  have enteredSound : (producers.enter timer worker).Sound :=
    ⟨sound.consistent, sound.unwritten⟩
  exact ⟨enteredSound.advance _ moved retry,
    entered.advance prompt.running (List.mem_of_getElem? present) moves
      (by simp)⟩

variable [DecidableEq Service]

theorem Prompt.step (prompt : producers.Prompt) (sound : producers.Sound)
    {event : WorkerEvent Service Message} (ready : producers.Ready event)
    (stepped : producers.step codec event = some next) :
    next.Sound ∧ next.Prompt := by
  obtain ⟨_, _, acted⟩ := act_of_step stepped
  have actReady : ∀ {action shared}, (∀ n, action = .sweep n → event = .sweep n) →
      producers.shared.act action = some shared →
      shared.Consistent ∧ shared.Unwritten ∧ shared.hung = false := by
    intro action shared isSweep happens
    have consistent : shared.Consistent := by
      apply Producers.step_consistent sound.consistent
      rw [Producers.step, prompt.running]
      exact happens
    refine ⟨consistent, Producers.act_ready sound.unwritten sound.consistent
      prompt.running ?_ happens⟩
    intro n isAction
    rw [isSweep n isAction] at ready
    exact ready
  cases act_effect acted with
  | polled service result polled =>
      subst polled
      cases result with
      | nothing => exact ⟨sound, prompt⟩
      | nodes items =>
          refine ⟨⟨sound.consistent, sound.unwritten⟩, prompt.running, ?_⟩
          intro worker member isTimer
          rcases List.mem_append.mp member with earlier | isNew
          · exact prompt.outside worker earlier isTimer
          · obtain ⟨key, _, rfl⟩ := List.mem_map.mp isNew
            simp at isTimer
  | fired timer attempt fired => exact prompt.fire sound codec fired
  | @moved _ index move worker moved retry shared isMove present moves shares
      advanced =>
      subst advanced
      have after : shared.Consistent ∧ shared.Unwritten ∧
          shared.hung = false := by
        rcases shares with rfl | read | read
        · exact ⟨sound.consistent, sound.unwritten, prompt.running⟩
        · have happens : producers.shared.act
              (.workerRead index worker.service) = some shared := read
          exact actReady (by simp) happens
        · have happens : producers.shared.act
              (.runWorker index worker.service) = some shared := read
          exact actReady (by simp) happens
      obtain ⟨consistent, unwritten, running⟩ := after
      have sharedSound : Sound { producers with shared := shared } :=
        ⟨consistent, unwritten⟩
      refine ⟨sharedSound.advance index moved retry,
        prompt.advance running (List.mem_of_getElem? present) moves ?_⟩
      rintro isTimer rfl
      cases event <;> simp [WorkerEvent.move?] at isMove
      obtain ⟨rfl, rfl⟩ := isMove
      have isCoroutine := ready _ present
      simp [isTimer] at isCoroutine
  | shared action isAction happens same =>
      subst same
      obtain ⟨consistent, unwritten, running⟩ := actReady (by
        rintro n rfl
        cases event <;> simp [WorkerEvent.action?] at isAction
        rw [isAction]) happens
      exact ⟨⟨consistent, unwritten⟩, running, prompt.outside⟩

/-- In every run in which no timer starts a worker that then connects, and in
which the sweeps address only calls that wait for them, no callback spins or
comes to the loop of a worker. -/
theorem callbacks_prompt (codec : Codec Message Descriptor)
    (events : List (WorkerEvent Service Message))
    (ready : Throughout (step codec) Ready {} events) :
    ∀ before, before <+: events → ∀ producers,
      runWith (step codec) {} before = some producers → producers.Prompt := by
  rintro before ⟨after, rfl⟩ producers reached
  have kept : ∀ {state : EtcdProducers Service Message} {event next},
      state.Sound ∧ state.Prompt → state.Ready event →
      state.step codec event = some next → next.Sound ∧ next.Prompt :=
    fun holds ready stepped => holds.2.step holds.1 ready stepped
  have sound : ({} : EtcdProducers Service Message).Sound :=
    ⟨Producers.initial_consistent, by simp [Producers.Unwritten]⟩
  have prompt : ({} : EtcdProducers Service Message).Prompt :=
    ⟨rfl, by simp⟩
  exact (invariant_of_throughout kept before ⟨sound, prompt⟩
    (ready.of_append before after) reached).2

namespace Example

open Rpc.Example

def providers : Poll :=
  .nodes [some (ascii "/natsu/kv/provider/1", ascii "127.0.0.1:9383"),
    some (ascii "/natsu/kv/provider/2", ascii "127.0.0.1:9384")]

/-- The first provider is not there, and again not for the timer.  The second
takes a request and does not answer in sixteen seconds. -/
def unanswered : List (WorkerEvent String ExampleMessage) :=
  [.poll "kv" providers, .start 0 .connect, .connectReturned 0 false,
    .start 1 .connect, .connectReturned 1 true, .workerRead 1,
    .invoke (Producers.Example.idAt 1480000000000) "kv" hello, .runWorker 1,
    .fire 0 .connect, .connectReturned 2 false,
    .sweep (Producers.Example.idAt 1480000016000)]

theorem callbacks_prompt_unanswered :
    ∃ producers : EtcdProducers String ExampleMessage,
      runWith (step exampleCodec) {} unanswered = some producers ∧
      producers.Prompt := by
  have happens : (runWith (step exampleCodec) {} unanswered).isSome := by
    decide +kernel
  obtain ⟨producers, reached⟩ := Option.isSome_iff_exists.mp happens
  refine ⟨producers, reached, ?_⟩
  exact callbacks_prompt exampleCodec unanswered (by decide +kernel) unanswered
    List.prefix_rfl producers reached

/-- The provider is there when the timer tries it again. -/
def reconnected : List (WorkerEvent String ExampleMessage) :=
  [.poll "kv" providers, .start 0 .connect, .connectReturned 0 false,
    .fire 0 .connect, .connectReturned 2 true, .workerRead 2]

/-- The worker spins on the scheduler thread for a request. -/
theorem reconnected_worker_spins :
    ∃ producers : EtcdProducers String ExampleMessage,
      runWith (step exampleCodec) {} reconnected = some producers ∧
      ¬ producers.Prompt ∧
      ∀ event, producers.step exampleCodec event = none := by
  have happens : (runWith (step exampleCodec) {} reconnected).map
      (fun producers => producers.shared.hung) = some true := by decide +kernel
  obtain ⟨producers, reached, hung⟩ := Option.map_eq_some_iff.mp happens
  refine ⟨producers, reached, ?_, ?_⟩
  · intro prompt
    simp [prompt.running] at hung
  · intro event
    simp [step, hung]

end Example

end EtcdProducers

end Natsu.Rpc
