import Natsu.Libgo.Waiting

/-!
# Yields in the state of an earlier wait

A task that is given its signal when it is about to be put to wait runs on in
the state `sys_block`, which nothing resets.  When it yields, its processer
hands it to the object of that wait once more.  Without such yields no signal
is lost, and no timer outlives the wait that it was started for.
-/

namespace Natsu.Libgo

open Natsu.Foundation

namespace Runtime

variable {τ β π : Type}

/-- The task that yields is not in the state of an earlier wait. -/
def Fresh (runtime : Runtime τ β π) : RuntimeEvent τ β π → Prop
  | .coYield proc => ∀ name, runtime.hand proc = some name →
      (runtime.task name).state ≠ .sysBlock
  | _ => True

/-- Where a task waits, its coroutine is in a wait. -/
def Attended (runtime : Runtime τ β π) : Prop :=
  ∀ name, (runtime.task name).Waits → (runtime.task name).frame ≠ none

variable [DecidableEq τ] [DecidableEq β] [DecidableEq π]
  {maxWakeup signals : β → Nat} {event : RuntimeEvent τ β π}
  {events : List (RuntimeEvent τ β π)} {answer : RuntimeAnswer β}
  {results : List (RuntimeAnswer β)} {runtime next : Runtime τ β π}
  {contents : Contents (Line β π) π (Hook (Line β π) τ) (Mark β)}
  {name : τ} {proc : π} {block : β} {line : Line β π}

omit [DecidableEq τ] [DecidableEq β] [DecidableEq π] in
theorem Attended.same (attended : runtime.Attended)
    (isTask : next.task = runtime.task) : next.Attended := by
  intro name waits
  rw [isTask] at waits ⊢
  exact attended name waits

omit [DecidableEq β] [DecidableEq π] in
theorem Attended.update (attended : runtime.Attended) {changed : Task β π}
    (isTask : next.task = Function.update runtime.task name changed)
    (kept : changed.Waits → changed.frame ≠ none) : next.Attended := by
  intro other waits
  rw [isTask] at waits ⊢
  by_cases same : other = name
  · subst same
    rw [Function.update_self] at waits ⊢
    exact kept waits
  · rw [Function.update_of_ne same] at waits ⊢
    exact attended other waits

theorem task_push (pushed : runtime.push line name = some next) :
    next.task = runtime.task := by
  obtain ⟨_, _, rfl⟩ := Option.map_eq_some_iff.mp pushed
  rfl

theorem Attended.addTaskRunnable (attended : runtime.Attended)
    {dispatch : π}
    (added : runtime.addTaskRunnable name dispatch = some next) :
    next.Attended := by
  simp only [Runtime.addTaskRunnable] at added
  obtain ⟨pushed, isPushed, rfl⟩ := Option.map_eq_some_iff.mp added
  exact (attended.same (task_push isPushed)).update rfl
    (by simp [Task.Waits])

theorem Attended.run (attended : runtime.Attended)
    (ran : runtime.run proc = some (answer, next)) : next.Attended := by
  rw [Runtime.run] at ran
  split at ran
  · obtain ⟨_, rfl⟩ := Prod.mk.inj (Option.some.inj ran)
    exact attended.same rfl
  · dsimp only at ran
    split at ran
    · obtain ⟨_, rfl⟩ := Prod.mk.inj (Option.some.inj ran)
      exact attended.update rfl (by simp [Task.Waits])
    · obtain ⟨_, rfl⟩ := Prod.mk.inj (Option.some.inj ran)
      exact attended.update rfl (by simp [Task.Waits])
  · cases ran

omit [DecidableEq π] in
theorem Attended.coBlockWait (attended : runtime.Attended) {timeout : Int}
    (waited : runtime.coBlockWait proc block timeout = some (answer, next)) :
    next.Attended := by
  obtain ⟨name, _, isNext⟩ := Option.map_eq_some_iff.mp waited
  split at isNext
  · obtain ⟨_, rfl⟩ := Prod.mk.inj isNext
    exact attended.same rfl
  · obtain ⟨_, rfl⟩ := Prod.mk.inj isNext
    exact attended.update rfl (by simp)

/-- Only a task that waits is put in the queue of a block object. -/
theorem Attended.addWaitTask (attended : runtime.Attended) {waits : Bool}
    (added : runtime.addWaitTask block name = some (waits, next))
    (isFrame : (runtime.task name).frame ≠ none) : next.Attended := by
  rw [Runtime.addWaitTask] at added
  split at added
  · obtain ⟨_, rfl⟩ := Prod.mk.inj (Option.some.inj added)
    exact attended.same (task_give block name)
  · obtain ⟨pushed, isPushed, isNext⟩ := Option.map_eq_some_iff.mp added
    have before := attended.same (task_push isPushed)
    dsimp only at isNext
    split at isNext
    · obtain ⟨_, rfl⟩ := Prod.mk.inj isNext
      exact before.update rfl fun _ => isFrame
    · obtain ⟨_, rfl⟩ := Prod.mk.inj isNext
      exact before.update rfl fun _ => isFrame

theorem Attended.switch (attended : runtime.Attended)
    (able : runtime.atHand proc = some (.leaving proc))
    (switched : runtime.switch proc = some next) : next.Attended := by
  obtain ⟨name, isName, leaving⟩ := exists_of_atHand able
  rw [Runtime.switch, isName, Option.bind_some] at switched
  dsimp only at switched
  split at switched
  · obtain ⟨pushed, isPushed, rfl⟩ := Option.map_eq_some_iff.mp switched
    exact (attended.same (task_push isPushed)).update rfl
      (by simp [Task.Waits])
  · rename_i isState
    have isFrame : (runtime.task name).frame ≠ none :=
      attended name (by simpa [Task.Waits, leaving] using isState)
    obtain ⟨block, _, isNext⟩ := Option.bind_eq_some_iff.mp switched
    obtain ⟨⟨waits, added⟩, isAdded, rfl⟩ := Option.map_eq_some_iff.mp isNext
    have after := attended.addWaitTask isAdded isFrame
    cases waits with
    | true => exact after.same rfl
    | false => exact after.update rfl (by simp [Task.Waits])
  · cases switched
  · cases switched
  all_goals
    obtain rfl := Option.some.inj switched
    exact attended.update rfl (by simp [Task.Waits])

theorem Attended.wake (attended : runtime.Attended)
    (keeps : runtime.Keeps contents)
    (woke : runtime.wake maxWakeup block = some (answer, next)) :
    next.Attended := by
  rcases keeps.placed.pop keeps.represents (.wait block) with
    ⟨pool, _, popped, _⟩ | ⟨name, _, pool, _, _, popped, marked, _⟩
  · simp only [Runtime.wake, popped] at woke
    split at woke
    · obtain ⟨_, rfl⟩ := Prod.mk.inj (Option.some.inj woke)
      exact attended.same rfl
    · obtain ⟨_, rfl⟩ := Prod.mk.inj (Option.some.inj woke)
      exact attended.same rfl
  · have waiting : (runtime.task name).phase = .waiting block :=
      Phase.waiting_of_mark marked
    have isFrame : (runtime.task name).frame ≠ none :=
      attended name (by simp [Task.Waits, waiting])
    simp only [Runtime.wake, popped] at woke
    obtain ⟨_, rfl⟩ := Prod.mk.inj (Option.some.inj woke)
    have given : ({ runtime with pool := pool }.give block name).Attended :=
      attended.same (task_give block name)
    exact given.update rfl fun _ => isFrame

omit [DecidableEq β] [DecidableEq π] in
theorem Attended.cancelTimer (attended : runtime.Attended)
    (cancelled : runtime.cancelTimer name = some next) : next.Attended := by
  simp only [Runtime.cancelTimer] at cancelled
  split at cancelled
  · obtain rfl := Option.some.inj cancelled
    exact attended.update rfl (by simp [Task.Waits])
  · obtain ⟨timer, _, rfl⟩ := Option.map_eq_some_iff.mp cancelled
    split
    · exact attended.update rfl (by simp [Task.Waits])
    · exact attended.update rfl (by simp [Task.Waits])

theorem Attended.cancelWait (attended : runtime.Attended) {index : Nat}
    (cancelled : runtime.cancelWait index = some next) : next.Attended := by
  obtain ⟨timer, _, isNext⟩ := Option.bind_eq_some_iff.mp cancelled
  dsimp only at isNext
  split at isNext
  · obtain rfl := Option.some.inj isNext
    exact attended.same rfl
  · split at isNext
    · obtain rfl := Option.some.inj isNext
      exact attended.same rfl
    · split at isNext
      · obtain rfl := Option.some.inj isNext
        exact attended.update rfl (by simp [Task.Waits])
      · obtain rfl := Option.some.inj isNext
        exact attended.same rfl
      · cases isNext

theorem Attended.timeOut (attended : runtime.Attended) {index : Nat}
    {dispatch : π} (timedOut : runtime.timeOut index dispatch = some next) :
    next.Attended := by
  obtain ⟨timer, _, added⟩ := Option.bind_eq_some_iff.mp timedOut
  have changed : ((runtime.setTimer index
      { timer with phase := .leaving }).setTask timer.task
        { runtime.task timer.task with
          block := none, isBlockTimeout := true }).Attended :=
    attended.update rfl fun waits => attended timer.task waits
  exact changed.addTaskRunnable added

/-- Every step of a task that does not yield in the state of an earlier
wait. -/
theorem Attended.exec (attended : runtime.Attended)
    (keeps : runtime.Keeps contents) (able : runtime.Able event)
    (fresh : runtime.Fresh event)
    (executed : runtime.exec maxWakeup event = some (answer, next)) :
    next.Attended := by
  have quietly {result : Option (Runtime τ β π)}
      (ran : result.map ((RuntimeAnswer.quiet : RuntimeAnswer β), ·) =
        some (answer, next)) : result = some next := by
    obtain ⟨_, isResult, same⟩ := Option.map_eq_some_iff.mp ran
    rw [isResult, (Prod.mk.inj same).2]
  cases event with
  | createTask name =>
      obtain ⟨_, rfl⟩ := Prod.mk.inj (Option.some.inj executed)
      exact attended.update rfl (by simp [Task.Waits])
  | addTaskRunnable name dispatch =>
      exact attended.addTaskRunnable (quietly executed)
  | run proc => exact attended.run executed
  | coBlockWait proc block timeout => exact attended.coBlockWait executed
  | coYield proc =>
      obtain ⟨name, isName, rfl⟩ :=
        Option.map_eq_some_iff.mp (quietly executed)
      refine attended.update rfl fun waits => ?_
      exact absurd waits (fresh name isName)
  | finish proc =>
      obtain ⟨name, _, rfl⟩ := Option.map_eq_some_iff.mp (quietly executed)
      exact attended.update rfl (by simp [Task.Waits])
  | switch proc => exact attended.switch able (quietly executed)
  | grant proc =>
      obtain ⟨name, _, put⟩ := Option.bind_eq_some_iff.mp (quietly executed)
      obtain ⟨pushed, isPushed, rfl⟩ := Option.map_eq_some_iff.mp put
      exact (attended.same (task_push isPushed)).update rfl
        (by simp [Task.Waits])
  | tryBlockWait block =>
      have isNext := Option.some.inj executed
      rw [Runtime.tryBlockWait] at isNext
      split at isNext
      · obtain ⟨_, rfl⟩ := Prod.mk.inj isNext
        exact attended.same rfl
      · obtain ⟨_, rfl⟩ := Prod.mk.inj isNext
        exact attended
  | wake block => exact attended.wake keeps executed
  | cancelTimer name => exact attended.cancelTimer (quietly executed)
  | releaseTimer name =>
      obtain ⟨_, rfl⟩ := Prod.mk.inj (Option.some.inj executed)
      exact attended.update rfl (by simp [Task.Waits])
  | expire index =>
      obtain ⟨timer, _, rfl⟩ := Option.map_eq_some_iff.mp (quietly executed)
      split
      · exact attended.same rfl
      · exact attended
  | compare index =>
      obtain ⟨timer, _, rfl⟩ := Option.map_eq_some_iff.mp (quietly executed)
      exact attended.same rfl
  | cancelWait index => exact attended.cancelWait (quietly executed)
  | timeOut index dispatch => exact attended.timeOut (quietly executed)
  | release index =>
      obtain ⟨timer, _, rfl⟩ := Option.map_eq_some_iff.mp (quietly executed)
      exact attended.same rfl
  | stealHalf victim thief n =>
      obtain ⟨_, _, rfl⟩ := Option.map_eq_some_iff.mp (quietly executed)
      exact attended.same rfl
  | unload thief =>
      obtain ⟨_, _, rfl⟩ := Option.map_eq_some_iff.mp (quietly executed)
      exact attended.same rfl

omit [DecidableEq τ] [DecidableEq π] in
/-- A signal for a task whose coroutine is in the wait is not lost. -/
theorem Given.lost_eq (given : Given runtime block name next)
    (attended : runtime.Attended) : next.lost = runtime.lost := by
  obtain ⟨other, isFrame⟩ :=
    Option.ne_none_iff_exists'.mp (attended name given.waits)
  obtain rfl := given.frame other isFrame
  rw [given.lost, Runtime.give, if_pos isFrame]

omit [DecidableEq π] in
theorem Effect.lost_eq (effect : Effect runtime answer next)
    (attended : runtime.Attended) : next.lost = runtime.lost := by
  cases effect with
  | quiet _ _ lost _ => exact lost
  | take _ _ => rfl
  | post _ _ lost _ => exact lost
  | grant _ _ given => exact given.lost_eq attended
  | wake _ given => exact given.lost_eq attended
  | back _ _ _ _ lost _ _ => exact lost

/-- What holds at the end of a run without such yields. -/
structure Faithful (signals : β → Nat) (results : List (RuntimeAnswer β))
    (runtime : Runtime τ β π) : Prop where
  reached : Reached signals results runtime
  attended : runtime.Attended
  lost : ∀ block, runtime.lost block = 0

theorem Faithful.step (faithful : Faithful signals results runtime)
    (fresh : runtime.Fresh event)
    (stepped : runtime.step maxWakeup event = some (answer, next)) :
    Faithful signals (results ++ [answer]) next := by
  obtain ⟨contents, keeps⟩ := faithful.reached.keeps
  obtain ⟨able, after, _, effect⟩ := keeps.stepped stepped
  have executed := stepped
  rw [Runtime.step, if_pos able] at executed
  refine ⟨faithful.reached.step stepped,
    faithful.attended.exec keeps able fresh executed, fun block => ?_⟩
  rw [effect.lost_eq faithful.attended, faithful.lost]

section Runs

variable (ran : answers (Runtime.step maxWakeup) (Runtime.new signals) events =
    some (results, runtime))
  (fresh : Throughout
    (fun state event => (Runtime.step maxWakeup state event).map Prod.snd)
    Fresh (Runtime.new signals) events)

include ran fresh

theorem faithful_of_run : Faithful signals results runtime := by
  have start : Faithful signals []
      (Runtime.new signals : Runtime τ β π) :=
    ⟨.new signals, fun _ waits => waits.elim, fun _ => rfl⟩
  exact invariant_of_answers (fun _ {_ _ _ _} faithful fresh stepped =>
    faithful.step fresh stepped) events start fresh ran

/-- Without yields in the state of an earlier wait every signal is still
there, was taken or is on its way to a task that will take it. -/
theorem nothing_lost (block : β) :
    runtime.wakeup block + (runtime.onWay block).length +
          results.count (.returned block true) +
          results.count (.taken block) =
      signals block + results.count (.posted block) := by
  have faithful := faithful_of_run ran fresh
  have total := faithful.reached.total block
  rw [Runtime.balance, faithful.lost, Nat.add_zero] at total
  exact total

/-- And no timer that may still call `CancelWait` outlives the wait that it
was started for. -/
theorem timer_within_wait {index : Nat} {timer : CoTimer τ β}
    (present : runtime.timers[index]? = some timer) (live : timer.Live) :
    (runtime.task timer.task).frame = some timer.block := by
  have faithful := faithful_of_run ran fresh
  obtain ⟨contents, keeps⟩ := faithful.reached.keeps
  have sound := keeps.tasks timer.task
  have inWait := (keeps.timed.sound present).inWait live
  have isFrame : (runtime.task timer.task).frame ≠ none := by
    apply faithful.attended
    rcases inWait with waiting | woken
    · simp [Task.Waits, waiting]
    · simp [Task.Waits, woken]
  obtain ⟨block, isFrame⟩ := Option.ne_none_iff_exists'.mp isFrame
  have isBlock := sound.inWait isFrame
  rcases inWait with waiting | woken
  · simp only [Task.InWait, waiting] at isBlock
    rw [isFrame, isBlock.1]
  · simp only [Task.InWait, woken] at isBlock
    rw [isFrame, isBlock.1]

end Runs

section Stale

/-- What becomes of a task that its processer finds in the state of a wait
that it has returned from. -/
theorem Keeps.switch_stale (keeps : runtime.Keeps contents)
    (isName : runtime.hand proc = some name)
    (leaving : (runtime.task name).phase = .leaving proc)
    (stale : (runtime.task name).state = .sysBlock)
    (isBlock : (runtime.task name).block = some block)
    (noFrame : (runtime.task name).frame = none) :
    ∃ next, runtime.switch proc = some next ∧
      if 0 < runtime.wakeup block then
        next.wakeup block = runtime.wakeup block - 1 ∧
          next.lost block = runtime.lost block + 1
      else (next.task name).phase = .waiting block := by
  have able : runtime.atHand proc = some (.leaving proc) := by
    rw [Runtime.atHand, isName, Option.map_some, leaving]
  obtain ⟨next, after, switched, _⟩ := keeps.switch able
  refine ⟨next, switched, ?_⟩
  rw [Runtime.switch, isName, Option.bind_some] at switched
  simp only [stale, isBlock, Option.bind_some, Runtime.addWaitTask]
    at switched
  split
  · rename_i signal
    rw [if_pos signal] at switched
    obtain rfl := Option.some.inj switched
    have elsewhere : ¬ (runtime.task name).frame = some block := by
      simp [noFrame]
    simp [Runtime.give, Runtime.setWakeup, Runtime.setTask, elsewhere]
  · rename_i noSignal
    rw [if_neg noSignal] at switched
    obtain ⟨⟨waits, added⟩, isAdded, rfl⟩ :=
      Option.map_eq_some_iff.mp switched
    obtain ⟨pushed, _, isNext⟩ := Option.map_eq_some_iff.mp isAdded
    split at isNext
    · obtain ⟨rfl, rfl⟩ := Prod.mk.inj isNext
      simp [Runtime.setTask, Runtime.setHand]
    · obtain ⟨rfl, rfl⟩ := Prod.mk.inj isNext
      simp [Runtime.setTask, Runtime.setHand]

theorem Keeps.yield_stale (keeps : runtime.Keeps contents)
    (maxWakeup : β → Nat) (isName : runtime.hand proc = some name)
    (running : (runtime.task name).phase = .running proc)
    (stale : (runtime.task name).state = .sysBlock)
    (isBlock : (runtime.task name).block = some block) :
    ∃ left last,
      runtime.step maxWakeup (.coYield proc) = some (.quiet, left) ∧
      left.step maxWakeup (.switch proc) = some (.quiet, last) ∧
      if 0 < runtime.wakeup block then
        last.wakeup block = runtime.wakeup block - 1 ∧
          last.lost block = runtime.lost block + 1
      else (last.task name).phase = .waiting block := by
  have noFrame : (runtime.task name).frame = none :=
    Option.eq_none_iff_forall_ne_some.mpr fun _ =>
      (keeps.tasks name).noFrame running
  let changed : Task β π := { runtime.task name with
    phase := .leaving proc, proc := some proc }
  have atLeft : (runtime.setTask name changed).task name = changed :=
    Function.update_self ..
  have able : runtime.Able (.coYield proc) := by
    simp [Runtime.Able, Runtime.atHand, isName, running]
  obtain ⟨left, yielded, leftKeeps, _⟩ := keeps.coYield able
  have isLeft := yielded
  rw [Runtime.coYield, isName, Option.map_some] at isLeft
  obtain rfl := Option.some.inj isLeft
  obtain ⟨last, switched, outcome⟩ := leftKeeps.switch_stale isName
    (congrArg Task.phase atLeft) ((congrArg Task.state atLeft).trans stale)
    ((congrArg Task.block atLeft).trans isBlock)
    ((congrArg Task.frame atLeft).trans noFrame)
  have ableSwitch : (runtime.setTask name changed).Able (.switch proc) := by
    simp [Runtime.Able, Runtime.atHand, Runtime.setTask, isName, changed]
  refine ⟨runtime.setTask name changed, last, ?_, ?_, outcome⟩
  · rw [Runtime.step, if_pos able, Runtime.exec, yielded, Option.map_some]
  · rw [Runtime.step, if_pos ableSwitch, Runtime.exec, switched,
      Option.map_some]

/-- A task that runs in the state of an earlier wait and yields is put to
wait on the object of that wait, or it uses up a signal of it that no wait
returns. -/
theorem yield_waits_again
    (ran : answers (Runtime.step maxWakeup) (Runtime.new signals) events =
      some (results, runtime))
    (isName : runtime.hand proc = some name)
    (running : (runtime.task name).phase = .running proc)
    (stale : (runtime.task name).state = .sysBlock) :
    ∃ block last, (runtime.task name).block = some block ∧
      answers (Runtime.step maxWakeup) runtime [.coYield proc, .switch proc] =
        some ([.quiet, .quiet], last) ∧
      if 0 < runtime.wakeup block then
        last.wakeup block = runtime.wakeup block - 1 ∧
          last.lost block = runtime.lost block + 1
      else (last.task name).phase = .waiting block := by
  obtain ⟨contents, keeps⟩ := (reached_of_run ran).keeps
  have inProc : (runtime.task name).phase.proc ≠ none := by
    simp [running, Phase.proc]
  obtain ⟨block, isBlock⟩ := Option.ne_none_iff_exists'.mp
    ((keeps.tasks name).blocked stale (.inr inProc))
  obtain ⟨left, last, yielded, switched, outcome⟩ :=
    keeps.yield_stale maxWakeup isName running stale isBlock
  refine ⟨block, last, isBlock, ?_, outcome⟩
  simp only [answers, yielded, switched, Option.bind_some, Option.map_some]

end Stale

end Runtime

namespace Example

open Natsu.Libgo.Runtime

/-- One task waits, another one gives the signal, and the first returns. -/
def handover : List (RuntimeEvent Bool Unit Unit) :=
  timedWait ++ [.wake (), .cancelTimer true, .releaseTimer true,
    .addTaskRunnable true (), .run ()]

theorem nothing_lost_handover :
    ∃ results runtime, answers step start handover = some (results, runtime) ∧
      runtime.wakeup () + (runtime.onWay ()).length +
          results.count (.returned () true) + results.count (.taken ()) =
        results.count (.posted ()) := by
  have ran : ∃ results runtime, answers step start handover =
      some (results, runtime) := ⟨_, _, rfl⟩
  obtain ⟨results, runtime, ran⟩ := ran
  have fresh : Throughout (fun state event => (step state event).map Prod.snd)
      Fresh start handover := by
    repeat' constructor
  have kept := nothing_lost ran fresh ()
  rw [Nat.zero_add] at kept
  exact ⟨results, runtime, ran, kept⟩

theorem timer_within_wait_first :
    ∃ results runtime, ∃ timer : CoTimer Bool Unit,
      answers step start timedWait = some (results, runtime) ∧
      runtime.timers[0]? = some timer ∧
      (runtime.task timer.task).frame = some timer.block := by
  have ran : ∃ results runtime, ∃ timer : CoTimer Bool Unit,
      answers step start timedWait = some (results, runtime) ∧
        runtime.timers[0]? = some timer ∧ timer.active = true :=
    ⟨_, _, _, rfl, rfl, rfl⟩
  obtain ⟨results, runtime, timer, ran, present, active⟩ := ran
  have fresh : Throughout (fun state event => (step state event).map Prod.snd)
      Fresh start timedWait := by
    repeat' constructor
  exact ⟨results, runtime, timer, ran, present,
    timer_within_wait ran fresh present (.inl active)⟩

/-- The signal comes before the processer has looked at the task. -/
def lateSignal : List (RuntimeEvent Bool Unit Unit) :=
  [.createTask true, .addTaskRunnable true (), .run (),
    .coBlockWait () () 0, .wake (), .switch (), .grant (), .run ()]

theorem yield_waits_again_late :
    ∃ results runtime last,
      answers step start lateSignal = some (results, runtime) ∧
      results.getLast? = some (.returned () true) ∧
      answers step runtime [.coYield (), .switch ()] =
        some ([.quiet, .quiet], last) ∧
      (last.task true).phase = .waiting () := by
  have ran : ∃ results runtime, answers step start lateSignal =
      some (results, runtime) ∧
        results.getLast? = some (.returned () true) ∧
        runtime.hand () = some true ∧
        (runtime.task true).phase = .running () ∧
        (runtime.task true).state = .sysBlock ∧
        runtime.wakeup () = 0 := ⟨_, _, rfl, rfl, rfl, rfl, rfl, rfl⟩
  obtain ⟨results, runtime, ran, returned, isName, running, stale, none⟩ := ran
  obtain ⟨block, last, _, yielded, outcome⟩ :=
    yield_waits_again ran isName running stale
  have noSignal : ¬ 0 < runtime.wakeup block := by
    rw [show block = () from rfl, none]
    exact Nat.lt_irrefl 0
  rw [if_neg noSignal] at outcome
  exact ⟨results, runtime, last, ran, returned, yielded, outcome⟩

end Example

end Natsu.Libgo
