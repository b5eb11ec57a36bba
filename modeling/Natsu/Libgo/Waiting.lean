import Natsu.Libgo.Interleaving

/-!
# Waits in every order of steps

A run starts with no task at all, and its events are the steps of any threads
in any order.
-/

namespace Natsu.Libgo

open Natsu.Foundation

/-- Who has a task that no thread is about to move. -/
inductive Custodian (β π : Type) where
  | place (place : Place (Line β π) π)
  | proc (proc : π)

variable {τ β π : Type}

def RuntimeEvent.wakes [DecidableEq β] (block : β) :
    RuntimeEvent τ β π → Bool
  | .wake other => other = block
  | _ => false

namespace Runtime

def Has (runtime : Runtime τ β π)
    (contents : Contents (Line β π) π (Hook (Line β π) τ) (Mark β)) :
    Custodian β π → τ → Prop
  | .place place, name => Hook.task name ∈ contents.members place
  | .proc proc, name => runtime.hand proc = some name

variable [DecidableEq τ] [DecidableEq β] [DecidableEq π]
  {maxWakeup signals : β → Nat} {event : RuntimeEvent τ β π}
  {events : List (RuntimeEvent τ β π)} {answer : RuntimeAnswer β}
  {results : List (RuntimeAnswer β)} {runtime next : Runtime τ β π}
  {contents : Contents (Line β π) π (Hook (Line β π) τ) (Mark β)}
  {name : τ} {proc : π} {block : β}

theorem Keeps.new (signals : β → Nat) :
    (Runtime.new signals : Runtime τ β π).Keeps Contents.new where
  represents := by
    have none : owners (Runtime.new signals : Runtime τ β π).task
        (Runtime.new signals : Runtime τ β π).timers = fun _ => 0 := by
      funext hook
      cases hook with
      | head line => rfl
      | task name => rfl
    rw [none]
    exact represents_new Hook.head Line.mark _
      fun _ _ same => Hook.head.inj same
  placed := ⟨fun _ => rfl, fun {_ _} listed => nomatch listed⟩
  handed _ _ := by simp [Runtime.new, Phase.proc]
  tasks _ := ⟨by simp [Runtime.new], by simp [Runtime.new],
    by simp [Runtime.new], by simp [Runtime.new]⟩
  timed := ⟨by simp [Runtime.new], by simp [Runtime.new],
    by simp [Runtime.new], by simp [Runtime.new]⟩
  signals _ := rfl

omit [DecidableEq τ] [DecidableEq β] [DecidableEq π] in
theorem Accounted.new (signals : β → Nat) :
    (Runtime.new signals : Runtime τ β π).Accounted where
  ways := by simp [Runtime.new, Task.OnWay]
  nodup _ := List.nodup_nil

/-- A step of a thread that is able to make it. -/
theorem Keeps.step (keeps : runtime.Keeps contents) (maxWakeup : β → Nat)
    (able : runtime.Able event) :
    ∃ answer next after, runtime.step maxWakeup event = some (answer, next) ∧
      next.Keeps after ∧ Effect runtime answer next := by
  obtain ⟨answer, next, after, executed, nextKeeps, effect⟩ :=
    keeps.exec maxWakeup able
  refine ⟨answer, next, after, ?_, nextKeeps, effect⟩
  rw [Runtime.step, if_pos able, executed]

theorem Keeps.stepped (keeps : runtime.Keeps contents)
    (stepped : runtime.step maxWakeup event = some (answer, next)) :
    runtime.Able event ∧ ∃ after, next.Keeps after ∧
      Effect runtime answer next := by
  by_cases able : runtime.Able event
  · obtain ⟨_, _, after, isStep, nextKeeps, effect⟩ :=
      keeps.step maxWakeup able
    rw [stepped] at isStep
    obtain ⟨rfl, rfl⟩ := Prod.mk.inj (Option.some.inj isStep)
    exact ⟨able, after, nextKeeps, effect⟩
  · simp [Runtime.step, able] at stepped

/-- Only `Wakeup` posts. -/
theorem wake_of_posted {event : RuntimeEvent τ β π}
    (stepped : runtime.step maxWakeup event = some (.posted block, next)) :
    event.wakes block := by
  have able : runtime.Able event := by
    by_contra notAble
    simp [Runtime.step, notAble] at stepped
  rw [Runtime.step, if_pos able] at stepped
  have noPost {result : Option (Runtime τ β π)}
      (ran : result.map ((RuntimeAnswer.quiet : RuntimeAnswer β), ·) =
        some (.posted block, next)) : event.wakes block := by
    obtain ⟨_, _, same⟩ := Option.map_eq_some_iff.mp ran
    cases (Prod.mk.inj same).1
  cases event with
  | createTask name => cases (Prod.mk.inj (Option.some.inj stepped)).1
  | addTaskRunnable name dispatch =>
      rw [Runtime.exec] at stepped
      exact noPost stepped
  | run proc =>
      simp only [Runtime.exec, Runtime.run] at stepped
      split at stepped
      · cases (Prod.mk.inj (Option.some.inj stepped)).1
      · split at stepped
        · cases (Prod.mk.inj (Option.some.inj stepped)).1
        · cases (Prod.mk.inj (Option.some.inj stepped)).1
      · cases stepped
  | coBlockWait proc other timeout =>
      obtain ⟨name, _, isNext⟩ := Option.map_eq_some_iff.mp stepped
      split at isNext
      · cases (Prod.mk.inj isNext).1
      · cases (Prod.mk.inj isNext).1
  | coYield proc => exact noPost stepped
  | finish proc => exact noPost stepped
  | switch proc => exact noPost stepped
  | grant proc => exact noPost stepped
  | tryBlockWait other =>
      have isNext := Option.some.inj stepped
      rw [Runtime.tryBlockWait] at isNext
      split at isNext
      · cases (Prod.mk.inj isNext).1
      · cases (Prod.mk.inj isNext).1
  | wake other =>
      simp only [Runtime.exec, Runtime.wake] at stepped
      split at stepped
      · split at stepped
        · have same := RuntimeAnswer.posted.inj
            (Prod.mk.inj (Option.some.inj stepped)).1
          simpa [RuntimeEvent.wakes] using same
        · cases (Prod.mk.inj (Option.some.inj stepped)).1
      · have same := RuntimeAnswer.posted.inj
          (Prod.mk.inj (Option.some.inj stepped)).1
        simpa [RuntimeEvent.wakes] using same
      · cases stepped
  | cancelTimer name => exact noPost stepped
  | releaseTimer name => cases (Prod.mk.inj (Option.some.inj stepped)).1
  | expire index => exact noPost stepped
  | compare index => exact noPost stepped
  | cancelWait index => exact noPost stepped
  | timeOut index dispatch => exact noPost stepped
  | release index => exact noPost stepped
  | stealHalf victim thief n => exact noPost stepped
  | unload thief => exact noPost stepped

/-- `Wakeup` succeeds below the largest number of signals. -/
theorem posts_of_room (keeps : runtime.Keeps contents)
    (room : runtime.wakeup block < maxWakeup block) :
    ∃ next, runtime.step maxWakeup (.wake block) =
      some (.posted block, next) := by
  have able : runtime.Able (.wake block) := trivial
  rw [Runtime.step, if_pos able]
  rcases keeps.placed.pop keeps.represents (.wait block) with
    ⟨pool, _, popped, _⟩ | ⟨name, _, pool, _, _, popped, _⟩
  · simp only [Runtime.exec, Runtime.wake, popped, if_pos room]
    exact ⟨_, rfl⟩
  · simp only [Runtime.exec, Runtime.wake, popped]
    exact ⟨_, rfl⟩

/-- What holds at the end of every run. -/
structure Reached (signals : β → Nat) (results : List (RuntimeAnswer β))
    (runtime : Runtime τ β π) : Prop where
  keeps : ∃ contents, runtime.Keeps contents
  accounted : runtime.Accounted
  total : ∀ block, runtime.balance block +
      results.count (.returned block true) + results.count (.taken block) =
    signals block + results.count (.posted block)

theorem Reached.new (signals : β → Nat) :
    Reached signals [] (Runtime.new signals : Runtime τ β π) :=
  ⟨⟨_, .new signals⟩, .new signals, fun _ => rfl⟩

theorem Reached.step (reached : Reached signals results runtime)
    (stepped : runtime.step maxWakeup event = some (answer, next)) :
    Reached signals (results ++ [answer]) next := by
  obtain ⟨contents, keeps⟩ := reached.keeps
  obtain ⟨_, after, nextKeeps, effect⟩ := keeps.stepped stepped
  obtain ⟨accounted, moved⟩ := effect.accounted reached.accounted
  refine ⟨⟨after, nextKeeps⟩, accounted, fun block => ?_⟩
  have before := reached.total block
  have here := moved block
  simp only [List.count_append]
  omega

/-- A step beside the runtime. -/
theorem Reached.quiet (reached : Reached signals results runtime) :
    Reached signals (results ++ [.quiet]) runtime := by
  obtain ⟨keeps, accounted, total⟩ := reached
  refine ⟨keeps, accounted, fun block => ?_⟩
  simpa using total block

theorem reached_of_run
    (ran : answers (Runtime.step maxWakeup) (Runtime.new signals) events =
      some (results, runtime)) : Reached signals results runtime := by
  have start : Reached signals [] (Runtime.new signals : Runtime τ β π) :=
    .new signals
  have anyway : Throughout
      (fun state event => (Runtime.step maxWakeup state event).map Prod.snd)
      (fun _ _ => True) (Runtime.new signals) events :=
    throughout_of_forall events fun _ _ => trivial
  exact invariant_of_answers (fun _ {_ _ _ _} reached _ stepped =>
    reached.step stepped) events start anyway ran

/-- A task in a queue or a list has its mark. -/
theorem Keeps.mark_of_mem (keeps : runtime.Keeps contents)
    {place : Place (Line β π) π}
    (member : Hook.task name ∈ contents.members place) :
    (runtime.task name).phase.mark = some
      (match place with
        | .queue line => line.mark
        | .list _ => .run) := by
  cases place with
  | queue line =>
      obtain ⟨_, same, marked⟩ := keeps.placed.of_mem keeps.represents member
      rwa [← Hook.task.inj same] at marked
  | list thief =>
      rw [← keeps.placed.marks]
      exact keeps.placed.lists member

theorem Keeps.place_of_mark (keeps : runtime.Keeps contents) {mark : Mark β}
    (marked : (runtime.task name).phase.mark = some mark) :
    ∃ place, Hook.task name ∈ contents.members place := by
  apply (keeps.represents.listed _).mp
  simp [keeps.placed.marks, marked]

theorem Keeps.nodup (keeps : runtime.Keeps contents)
    (place : Place (Line β π) π) : (contents.members place).Nodup := by
  cases place with
  | queue line =>
      exact (List.nodup_cons.mp (keeps.represents.queues line).distinct).2
  | list thief => exact (keeps.represents.lists thief).distinct

theorem Keeps.custodian_unique (keeps : runtime.Keeps contents)
    {first second : Custodian β π} (has : runtime.Has contents first name)
    (hasSecond : runtime.Has contents second name) : first = second := by
  have notBoth {place : Place (Line β π) π} {proc : π}
      (member : Hook.task name ∈ contents.members place)
      (isName : runtime.hand proc = some name) : False := by
    obtain ⟨unmarked, _⟩ := Phase.of_proc ((keeps.handed proc name).mp isName)
    simp [keeps.mark_of_mem member] at unmarked
  have inFootprint {place : Place (Line β π) π}
      (member : Hook.task name ∈ contents.members place) :
      Hook.task name ∈ contents.footprint Hook.head place := by
    cases place with
    | queue line => exact List.mem_cons_of_mem _ member
    | list thief => exact member
  cases first with
  | proc proc =>
      cases second with
      | proc other =>
          have here := (keeps.handed proc name).mp has
          rw [(keeps.handed other name).mp hasSecond] at here
          rw [Option.some.inj here]
      | place other => exact absurd has (notBoth hasSecond)
  | place place =>
      cases second with
      | proc proc => exact absurd hasSecond (notBoth has)
      | place other =>
          by_contra different
          have apart : place ≠ other :=
            fun same => different (congrArg Custodian.place same)
          exact keeps.represents.apart apart (inFootprint has)
            (inFootprint hasSecond)

theorem Keeps.waiting_iff (keeps : runtime.Keeps contents) :
    (runtime.task name).phase = .waiting block ↔
      runtime.Has contents (.place (.queue (.wait block))) name := by
  constructor
  · intro waiting
    have marked : (runtime.task name).phase.mark = some (.wait block) := by
      rw [waiting]
      rfl
    obtain ⟨place, member⟩ := keeps.place_of_mark marked
    have isMark := keeps.mark_of_mem member
    rw [marked] at isMark
    cases place with
    | list thief => simp at isMark
    | queue line =>
        cases line with
        | run proc => simp [Line.mark] at isMark
        | wait other =>
            obtain rfl : block = other := by simpa [Line.mark] using isMark
            exact member
  · intro has
    exact Phase.waiting_of_mark (keeps.mark_of_mem has)

theorem Keeps.ready_iff (keeps : runtime.Keeps contents) :
    (runtime.task name).phase = .ready ↔ ∃ proc,
      runtime.Has contents (.place (.queue (.run proc))) name ∨
        runtime.Has contents (.place (.list proc)) name := by
  constructor
  · intro ready
    have marked : (runtime.task name).phase.mark = some .run := by
      rw [ready]
      rfl
    obtain ⟨place, member⟩ := keeps.place_of_mark marked
    have isMark := keeps.mark_of_mem member
    rw [marked] at isMark
    cases place with
    | list thief => exact ⟨thief, .inr member⟩
    | queue line =>
        cases line with
        | wait other => simp [Line.mark] at isMark
        | run proc => exact ⟨proc, .inl member⟩
  · intro has
    obtain ⟨proc, queued | listed⟩ := has
    · exact Phase.ready_of_mark (keeps.mark_of_mem queued)
    · exact Phase.ready_of_mark (keeps.mark_of_mem listed)

theorem Keeps.refs (keeps : runtime.Keeps contents) (name : τ) :
    runtime.pool.heap.refs (.task name) =
      owners runtime.task runtime.timers (.task name : Hook (Line β π) τ) +
        if (runtime.task name).phase.mark = none then 0 else 1 := by
  rw [keeps.represents.refs, keeps.placed.marks]

section Runs

variable (ran : answers (Runtime.step maxWakeup) (Runtime.new signals) events =
  some (results, runtime))

include ran

/-- Nothing follows a null pointer or fails an assertion: no step that a
thread is able to make fails, whatever came before. -/
theorem able_steps_happen (able : runtime.Able event) :
    ∃ answer next, runtime.step maxWakeup event = some (answer, next) := by
  obtain ⟨contents, keeps⟩ := (reached_of_run ran).keeps
  obtain ⟨answer, next, _, stepped, _⟩ := keeps.step maxWakeup able
  exact ⟨answer, next, stepped⟩

/-- The queues and the lists of stealing processers are these lists, and a
task is in one of them, once, or at hand of one processer, or some thread is
about to move it. -/
theorem one_custodian :
    ∃ contents, Represents Hook.head Line.mark
        (owners runtime.task runtime.timers) runtime.pool contents ∧
      (∀ place, (contents.members place).Nodup) ∧
      ∀ name,
        (∀ {first second}, runtime.Has contents first name →
          runtime.Has contents second name → first = second) ∧
        (∀ block, (runtime.task name).phase = .waiting block ↔
          runtime.Has contents (.place (.queue (.wait block))) name) ∧
        ((runtime.task name).phase = .ready ↔ ∃ proc,
          runtime.Has contents (.place (.queue (.run proc))) name ∨
            runtime.Has contents (.place (.list proc)) name) ∧
        ∀ proc, (runtime.task name).phase.proc = some proc ↔
          runtime.Has contents (.proc proc) name := by
  obtain ⟨contents, keeps⟩ := (reached_of_run ran).keeps
  refine ⟨contents, keeps.represents, keeps.nodup, fun name => ⟨?_, ?_, ?_,
    ?_⟩⟩
  · intro first second has hasSecond
    exact keeps.custodian_unique has hasSecond
  · intro block
    exact keeps.waiting_iff
  · exact keeps.ready_iff
  · intro proc
    exact (keeps.handed proc name).symm

/-- A task is released exactly when it is over and no timer will still use
it. -/
theorem released_iff (name : τ) :
    runtime.pool.heap.refs (.task name) = 0 ↔
      (runtime.task name).phase = .free ∧
        ∀ timer ∈ runtime.timers, timer.task = name →
          timer.pending = false := by
  obtain ⟨contents, keeps⟩ := (reached_of_run ran).keeps
  have noTimer : pendingCount runtime.timers name = 0 ↔
      ∀ timer ∈ runtime.timers, timer.task = name →
        timer.pending = false := by
    simp [pendingCount, List.countP_eq_zero]
  rw [keeps.refs, owners, ← noTimer]
  by_cases free : (runtime.task name).phase = .free
  · simp [free, Phase.mark]
  · simp [free]

/-- A timer that may still call `CancelWait` is the one of a task that waits
or is being woken, in the wait that it was started for. -/
theorem timer_in_wait {index : Nat} {timer : CoTimer τ β}
    (present : runtime.timers[index]? = some timer) (live : timer.Live) :
    let task := runtime.task timer.task
    (task.phase = .waiting timer.block ∨ task.phase = .woken timer.block) ∧
      task.blockTimer = some index ∧
      task.blockSequence = timer.blockSequence := by
  obtain ⟨contents, keeps⟩ := (reached_of_run ran).keeps
  have sound := keeps.timed.sound present
  exact ⟨sound.inWait live, sound.current live, sound.sequence live⟩

/-- Every signal that an object had or was given is still there, or was
taken, or is on its way to a task, or was lost; and no task waits where a
signal is left. -/
theorem signals_kept (block : β) :
    runtime.wakeup block + (runtime.onWay block).length +
          runtime.lost block + results.count (.returned block true) +
          results.count (.taken block) =
        signals block + results.count (.posted block) ∧
      (runtime.onWay block).Nodup ∧
      (∀ name, name ∈ runtime.onWay block ↔
        (runtime.task name).OnWay block) ∧
      (0 < runtime.wakeup block → ∀ name,
        (runtime.task name).phase ≠ .waiting block) := by
  have reached := reached_of_run ran
  obtain ⟨contents, keeps⟩ := reached.keeps
  refine ⟨reached.total block, reached.accounted.nodup block,
    fun _ => reached.accounted.ways, ?_⟩
  intro signal name waiting
  have member : Hook.task name ∈ contents.queue (.wait block) :=
    keeps.waiting_iff.mp waiting
  simp [keeps.signals signal] at member

/-- A wait that returns false had a timeout, and it takes no signal. -/
theorem false_after_timeout
    (stepped : runtime.step maxWakeup event =
      some (.returned block false, next)) :
    ∃ name, (runtime.task name).frame = some block ∧
      (runtime.task name).phase = .ready ∧
      (runtime.task name).blockTimeout ≠ 0 ∧
      next.wakeup = runtime.wakeup ∧ next.onWay = runtime.onWay := by
  have reached := reached_of_run ran
  obtain ⟨contents, keeps⟩ := reached.keeps
  obtain ⟨_, after, _, effect⟩ := keeps.stepped stepped
  generalize isAnswer : RuntimeAnswer.returned block false = answer at effect
  cases effect with
  | take taken _ =>
      rcases taken with rfl | rfl
      · cases isAnswer
      · cases isAnswer
  | @back _ other name _ isFrame ready wakeup onWay _ _ _ =>
      obtain ⟨rfl, timedOut⟩ := RuntimeAnswer.returned.inj isAnswer
      have isTimeout : (runtime.task name).isBlockTimeout = true := by
        simpa using timedOut.symm
      have notThere : name ∉ runtime.onWay block := by
        rw [reached.accounted.ways]
        intro way
        simp [way.2.1] at isTimeout
      have inWait := (keeps.tasks name).inWait isFrame
      simp only [Task.InWait, ready] at inWait
      refine ⟨name, isFrame, ready, inWait isTimeout, wakeup, ?_⟩
      rw [onWay, List.erase_of_not_mem notThere, Function.update_eq_self]
  | quiet => cases isAnswer
  | post => cases isAnswer
  | grant => cases isAnswer
  | wake => cases isAnswer

end Runs

end Runtime

namespace Example

open Natsu.Libgo.Runtime

/-- No object has a signal at first. -/
def start : Runtime Bool Unit Unit := Runtime.new fun _ => 0

def step : Runtime Bool Unit Unit → RuntimeEvent Bool Unit Unit →
    Option (RuntimeAnswer Unit × Runtime Bool Unit Unit) :=
  Runtime.step fun _ => 1

/-- A task waits with a timeout. -/
def timedWait : List (RuntimeEvent Bool Unit Unit) :=
  [.createTask true, .addTaskRunnable true (), .run (),
    .coBlockWait () () 5, .switch ()]

/-- Its timer takes it out of the queue. -/
def expiry : List (RuntimeEvent Bool Unit Unit) :=
  timedWait ++ [.expire 0, .compare 0, .cancelWait 0, .timeOut 0 ()]

theorem able_steps_happen_expiry :
    ∃ results runtime, answers step start expiry = some (results, runtime) ∧
      ∃ answer next, step runtime (.run ()) = some (answer, next) := by
  have ran : ∃ results runtime, answers step start expiry =
      some (results, runtime) ∧ runtime.Able (.run ()) := ⟨_, _, rfl, rfl⟩
  obtain ⟨results, runtime, ran, able⟩ := ran
  exact ⟨results, runtime, ran, able_steps_happen ran able⟩

theorem one_custodian_waiting :
    ∃ results runtime contents,
      answers step start timedWait = some (results, runtime) ∧
      Represents Hook.head Line.mark (owners runtime.task runtime.timers)
        runtime.pool contents ∧
      runtime.Has contents (.place (.queue (.wait ()))) true := by
  have ran : ∃ results runtime, answers step start timedWait =
      some (results, runtime) ∧
        (runtime.task true).phase = .waiting () := ⟨_, _, rfl, rfl⟩
  obtain ⟨results, runtime, ran, waiting⟩ := ran
  obtain ⟨contents, represents, _, custodians⟩ := one_custodian ran
  obtain ⟨_, inQueue, _⟩ := custodians true
  exact ⟨results, runtime, contents, ran, represents,
    (inQueue ()).mp waiting⟩

theorem released_iff_expiry :
    ∃ results runtime, answers step start expiry = some (results, runtime) ∧
      (runtime.pool.heap.refs (.task true) = 0 ↔
        (runtime.task true).phase = .free ∧
          ∀ timer ∈ runtime.timers, timer.task = true →
            timer.pending = false) := by
  have ran : ∃ results runtime, answers step start expiry =
      some (results, runtime) := ⟨_, _, rfl⟩
  obtain ⟨results, runtime, ran⟩ := ran
  exact ⟨results, runtime, ran, released_iff ran true⟩

theorem timer_in_wait_first :
    ∃ results runtime, ∃ timer : CoTimer Bool Unit,
      answers step start timedWait = some (results, runtime) ∧
      runtime.timers[0]? = some timer ∧
      ((runtime.task timer.task).phase = .waiting timer.block ∨
        (runtime.task timer.task).phase = .woken timer.block) := by
  have ran : ∃ results runtime, ∃ timer : CoTimer Bool Unit,
      answers step start timedWait = some (results, runtime) ∧
        runtime.timers[0]? = some timer ∧ timer.active = true :=
    ⟨_, _, _, rfl, rfl, rfl⟩
  obtain ⟨results, runtime, timer, ran, present, active⟩ := ran
  exact ⟨results, runtime, timer, ran, present,
    (timer_in_wait ran present (.inl active)).1⟩

theorem signals_kept_waiting :
    ∃ results runtime,
      answers step start timedWait = some (results, runtime) ∧
      runtime.wakeup () + (runtime.onWay ()).length + runtime.lost () +
          results.count (.returned () true) + results.count (.taken ()) =
        results.count (.posted ()) := by
  have ran : ∃ results runtime, answers step start timedWait =
      some (results, runtime) := ⟨_, _, rfl⟩
  obtain ⟨results, runtime, ran⟩ := ran
  have kept := (signals_kept ran ()).1
  rw [Nat.zero_add] at kept
  exact ⟨results, runtime, ran, kept⟩

theorem false_after_timeout_expiry :
    ∃ results runtime next,
      answers step start expiry = some (results, runtime) ∧
      step runtime (.run ()) = some (.returned () false, next) ∧
      ∃ name, (runtime.task name).blockTimeout ≠ 0 := by
  have ran : ∃ results runtime next, answers step start expiry =
      some (results, runtime) ∧
        step runtime (.run ()) = some (.returned () false, next) :=
    ⟨_, _, _, rfl, rfl⟩
  obtain ⟨results, runtime, next, ran, stepped⟩ := ran
  obtain ⟨name, _, _, timeout, _⟩ := false_after_timeout ran stepped
  exact ⟨results, runtime, next, ran, stepped, name, timeout⟩

end Example

end Natsu.Libgo
