import Natsu.Libgo.Waiting

/-!
# What can always go on

No thread waits for a lock that is never given back, and a wait with a timeout
needs nobody but its timer to end.
-/

namespace Natsu.Libgo

open Natsu.Foundation

variable {τ β π : Type}

/-- The function of this timer makes the step. -/
def RuntimeEvent.OfTimer (index : Nat) : RuntimeEvent τ β π → Prop
  | .expire other => other = index
  | .compare other => other = index
  | .cancelWait other => other = index
  | .timeOut other _ => other = index
  | .release other => other = index
  | _ => False

/-- The step goes on with a function of libgo that some thread is in. -/
def RuntimeEvent.GoesOn : RuntimeEvent τ β π → Prop
  | .addTaskRunnable _ _ => True
  | .switch _ => True
  | .grant _ => True
  | .cancelTimer _ => True
  | .releaseTimer _ => True
  | .compare _ => True
  | .cancelWait _ => True
  | .timeOut _ _ => True
  | .release _ => True
  | _ => False

/-- No thread is about to move the task. -/
def Phase.Rests : Phase β π → Prop
  | .free => True
  | .ready => True
  | .running _ => True
  | .waiting _ => True
  | _ => False

namespace Runtime

variable [DecidableEq τ] [DecidableEq β] [DecidableEq π]
  {maxWakeup signals : β → Nat} {events : List (RuntimeEvent τ β π)}
  {results : List (RuntimeAnswer β)} {runtime next : Runtime τ β π}
  {contents : Contents (Line β π) π (Hook (Line β π) τ) (Mark β)}
  {event : RuntimeEvent τ β π} {answer : RuntimeAnswer β} {name : τ} {proc : π} {block : β} {index : Nat} {timer : CoTimer τ β}

omit [DecidableEq τ] [DecidableEq β] [DecidableEq π] in
theorem timerPhase_of_present {phase : TimerPhase}
    (present : runtime.timers[index]? = some timer)
    (isPhase : timer.phase = phase) :
    runtime.timerPhase index = some phase := by
  rw [Runtime.timerPhase, present, Option.map_some, isPhase]

omit [DecidableEq τ] [DecidableEq β] [DecidableEq π] in
theorem getElem_setTimer (changed : CoTimer τ β)
    (present : runtime.timers[index]? = some timer) :
    (runtime.setTimer index changed).timers[index]? = some changed := by
  obtain ⟨bound, _⟩ := List.getElem?_eq_some_iff.mp present
  exact List.getElem?_set_self bound

/-- A step that a thread is able to make, and that answers nothing, comes
first. -/
theorem leads_of_able {Kind : RuntimeEvent τ β π → Prop}
    {Goal : Runtime τ β π → Prop} {result : Option (Runtime τ β π)}
    (able : runtime.Able event) (ran : result = some next)
    (isResult : runtime.exec maxWakeup event = result.map (.quiet, ·))
    (kind : Kind event)
    (leads : Leads (Runtime.step maxWakeup) Kind Goal next) :
    Leads (Runtime.step maxWakeup) Kind Goal runtime := by
  have stepped : runtime.step maxWakeup event = some (.quiet, next) := by
    rw [Runtime.step, if_pos able, isResult, ran, Option.map_some]
  exact .cons kind stepped leads

section TimeOut

/-- The task is ready, and its wait has timed out. -/
def TimedOut (name : τ) (runtime : Runtime τ β π) : Prop :=
  (runtime.task name).phase = .ready ∧
    (runtime.task name).isBlockTimeout = true

theorem Keeps.holding_times_out (keeps : runtime.Keeps contents)
    (maxWakeup : β → Nat) (dispatch : π)
    (present : runtime.timers[index]? = some timer)
    (holding : timer.phase = .holding) :
    Leads (Runtime.step maxWakeup) (RuntimeEvent.OfTimer index)
      (TimedOut timer.task) runtime := by
  obtain ⟨next, after, timedOut, _, goal⟩ :=
    keeps.timeOut present holding dispatch
  have able : runtime.Able (.timeOut index dispatch) :=
    timerPhase_of_present present holding
  exact leads_of_able able timedOut rfl rfl (.here goal)

theorem Keeps.matched_times_out (keeps : runtime.Keeps contents)
    (maxWakeup : β → Nat) (dispatch : π)
    (present : runtime.timers[index]? = some timer)
    (matching : timer.phase = .matched)
    (waiting : (runtime.task timer.task).phase = .waiting timer.block) :
    Leads (Runtime.step maxWakeup) (RuntimeEvent.OfTimer index)
      (TimedOut timer.task) runtime := by
  obtain ⟨next, after, cancelled, ⟨nextKeeps, _⟩, outcome⟩ :=
    keeps.cancelWait present matching
  have able : runtime.Able (.cancelWait index) :=
    timerPhase_of_present present matching
  rcases outcome with ⟨_, isTimers⟩ | ⟨woken, _⟩
  · let held : CoTimer τ β := { timer with phase := .holding }
    have isHeld : next.timers[index]? = some held := by
      rw [isTimers]
      exact getElem_setTimer held present
    have leads :=
      nextKeeps.holding_times_out maxWakeup dispatch isHeld rfl
    exact leads_of_able able cancelled rfl rfl leads
  · simp [waiting] at woken

theorem Keeps.entered_times_out (keeps : runtime.Keeps contents)
    (maxWakeup : β → Nat) (dispatch : π)
    (present : runtime.timers[index]? = some timer)
    (entered : timer.phase = .entered)
    (waiting : (runtime.task timer.task).phase = .waiting timer.block) :
    Leads (Runtime.step maxWakeup) (RuntimeEvent.OfTimer index)
      (TimedOut timer.task) runtime := by
  obtain ⟨compared, nextKeeps, _⟩ := keeps.compare present entered
  have able : runtime.Able (.compare index) :=
    timerPhase_of_present present entered
  have leads := nextKeeps.matched_times_out maxWakeup dispatch
    (getElem_setTimer _ present) rfl waiting
  exact leads_of_able able compared rfl rfl leads

/-- Whatever its timer has done already, the wait can end by its steps. -/
theorem Keeps.times_out (keeps : runtime.Keeps contents)
    (maxWakeup : β → Nat) (dispatch : π)
    (waiting : (runtime.task name).phase = .waiting block)
    (timeout : (runtime.task name).blockTimeout ≠ 0) :
    ∃ index, Leads (Runtime.step maxWakeup) (RuntimeEvent.OfTimer index)
      (TimedOut name) runtime := by
  obtain ⟨index, timer, present, rfl, live⟩ :=
    keeps.timed.covered waiting timeout
  have sound := keeps.timed.sound present
  have isBlock : (runtime.task timer.task).phase = .waiting timer.block := by
    rcases sound.inWait live with waits | woken
    · exact waits
    · simp [waiting] at woken
  refine ⟨index, ?_⟩
  rcases live with active | entered | matching
  · obtain ⟨next, expired, ⟨nextKeeps, _⟩, isNext⟩ := keeps.expire present
    have able : runtime.Able (.expire index) :=
      timerPhase_of_present present (sound.idle active)
    obtain rfl := isNext active
    have leads := nextKeeps.entered_times_out maxWakeup dispatch
      (getElem_setTimer _ present) rfl isBlock
    exact leads_of_able able expired rfl rfl leads
  · exact keeps.entered_times_out maxWakeup dispatch present entered isBlock
  · exact keeps.matched_times_out maxWakeup dispatch present matching isBlock

end TimeOut

section Rest

/-- The task is where no thread is about to move it. -/
def AtRest (name : τ) (runtime : Runtime τ β π) : Prop :=
  (runtime.task name).phase.Rests

theorem Keeps.added_rests (keeps : runtime.Keeps contents)
    (maxWakeup : β → Nat) (dispatch : π)
    (able : (runtime.task name).phase = .made ∨
      (runtime.task name).phase = .unhooked) :
    Leads (Runtime.step maxWakeup) RuntimeEvent.GoesOn (AtRest name)
      runtime := by
  obtain ⟨next, after, added, _⟩ := keeps.addTaskRunnable able dispatch
  have isAble : runtime.Able (.addTaskRunnable name dispatch) := able
  refine leads_of_able isAble added rfl trivial (.here ?_)
  simp only [Runtime.addTaskRunnable] at added
  obtain ⟨_, _, rfl⟩ := Option.map_eq_some_iff.mp added
  simp [AtRest, Runtime.setTask, Phase.Rests]

theorem Keeps.cancelled_rests (keeps : runtime.Keeps contents)
    (maxWakeup : β → Nat) (dispatch : π)
    (cancelled : (runtime.task name).phase = .cancelled) :
    Leads (Runtime.step maxWakeup) RuntimeEvent.GoesOn (AtRest name)
      runtime := by
  obtain ⟨nextKeeps, _⟩ := keeps.releaseTimer cancelled
  have able : runtime.Able (.releaseTimer name) := cancelled
  have unhooked : ((runtime.releaseTimer name).task name).phase =
      .unhooked := by
    simp [Runtime.releaseTimer, Runtime.decrementRef, Runtime.setHeap,
      Runtime.setTask]
  exact leads_of_able able rfl rfl trivial
    (nextKeeps.added_rests maxWakeup dispatch (.inr unhooked))

/-- `Wakeup` with the lock of the timer at hand. -/
theorem Keeps.unlocked_rests (keeps : runtime.Keeps contents)
    (maxWakeup : β → Nat) (dispatch : π)
    (able : runtime.Able (.cancelTimer name)) :
    Leads (Runtime.step maxWakeup) RuntimeEvent.GoesOn (AtRest name)
      runtime := by
  obtain ⟨next, cancelled, nextKeeps, _⟩ := keeps.cancelTimer able
  have outcome : (next.task name).phase = .cancelled ∨
      (next.task name).phase = .unhooked := by
    simp only [Runtime.cancelTimer] at cancelled
    split at cancelled
    · obtain rfl := Option.some.inj cancelled
      simp [Runtime.setTask]
    · obtain ⟨timer, _, rfl⟩ := Option.map_eq_some_iff.mp cancelled
      split
      · simp [Runtime.setTask]
      · simp [Runtime.setTask]
  refine leads_of_able able cancelled rfl trivial ?_
  rcases outcome with isCancelled | unhooked
  · exact nextKeeps.cancelled_rests maxWakeup dispatch isCancelled
  · exact nextKeeps.added_rests maxWakeup dispatch (.inr unhooked)

omit [DecidableEq τ] [DecidableEq β] [DecidableEq π] in
theorem able_cancelTimer (woken : (runtime.task name).phase = .woken block)
    (isTimer : (runtime.task name).blockTimer = some index)
    (present : runtime.timers[index]? = some timer)
    (idle : timer.phase = .idle) :
    runtime.Able (.cancelTimer name) := by
  refine ⟨by rw [woken]; rfl, ?_⟩
  rw [isTimer, Option.bind_some, timerPhase_of_present present idle]
  rfl

/-- `Wakeup` waits for the lock of a timer whose function is at its end. -/
theorem Keeps.leaving_rests (keeps : runtime.Keeps contents)
    (maxWakeup : β → Nat) (dispatch : π)
    (woken : (runtime.task name).phase = .woken block)
    (isTimer : (runtime.task name).blockTimer = some index)
    (present : runtime.timers[index]? = some timer)
    (leaving : timer.phase = .leaving) :
    Leads (Runtime.step maxWakeup) RuntimeEvent.GoesOn (AtRest name)
      runtime := by
  obtain ⟨next, released, nextKeeps, _⟩ := keeps.release present leaving
  have able : runtime.Able (.release index) :=
    timerPhase_of_present present leaving
  have isNext := released
  rw [Runtime.release, present, Option.map_some] at isNext
  obtain rfl := Option.some.inj isNext
  have unlocked := nextKeeps.unlocked_rests maxWakeup dispatch
    (able_cancelTimer woken isTimer (getElem_setTimer _ present) rfl)
  exact leads_of_able able released rfl trivial unlocked

theorem Keeps.matched_rests (keeps : runtime.Keeps contents)
    (maxWakeup : β → Nat) (dispatch : π)
    (woken : (runtime.task name).phase = .woken block)
    (isTimer : (runtime.task name).blockTimer = some index)
    (present : runtime.timers[index]? = some timer)
    (isTask : timer.task = name) (matching : timer.phase = .matched) :
    Leads (Runtime.step maxWakeup) RuntimeEvent.GoesOn (AtRest name)
      runtime := by
  obtain ⟨next, after, cancelled, ⟨nextKeeps, _⟩, outcome⟩ :=
    keeps.cancelWait present matching
  have able : runtime.Able (.cancelWait index) :=
    timerPhase_of_present present matching
  rcases outcome with ⟨waiting, _⟩ | ⟨_, sameTask, isTimers⟩
  · simp [isTask, woken] at waiting
  · let left : CoTimer τ β := { timer with phase := .leaving }
    have isLeft : next.timers[index]? = some left := by
      rw [isTimers]
      exact getElem_setTimer left present
    have leads := nextKeeps.leaving_rests maxWakeup dispatch
      (by rw [sameTask]; exact woken) (by rw [sameTask]; exact isTimer)
      isLeft rfl
    exact leads_of_able able cancelled rfl trivial leads

/-- The lock of its timer does not keep a task from being woken. -/
theorem Keeps.woken_rests (keeps : runtime.Keeps contents)
    (maxWakeup : β → Nat) (dispatch : π)
    (woken : (runtime.task name).phase = .woken block) :
    Leads (Runtime.step maxWakeup) RuntimeEvent.GoesOn (AtRest name)
      runtime := by
  cases isTimer : (runtime.task name).blockTimer with
  | none =>
      apply keeps.unlocked_rests maxWakeup dispatch
      refine ⟨by rw [woken]; rfl, ?_⟩
      rw [isTimer]
      rfl
  | some index =>
      obtain ⟨timer, present, isTask⟩ :=
        Option.map_eq_some_iff.mp (keeps.timed.known isTimer)
      cases isPhase : timer.phase with
      | idle =>
          exact keeps.unlocked_rests maxWakeup dispatch
            (able_cancelTimer woken isTimer present isPhase)
      | entered =>
          obtain ⟨compared, nextKeeps, _⟩ := keeps.compare present isPhase
          have able : runtime.Able (.compare index) :=
            timerPhase_of_present present isPhase
          have leads := nextKeeps.matched_rests maxWakeup dispatch woken
            isTimer (getElem_setTimer _ present) isTask rfl
          exact leads_of_able able compared rfl trivial leads
      | matched =>
          exact keeps.matched_rests maxWakeup dispatch woken isTimer present
            isTask isPhase
      | holding =>
          have held := (keeps.timed.sound present).held isPhase
          simp [isTask, woken] at held
      | leaving =>
          exact keeps.leaving_rests maxWakeup dispatch woken isTimer present
            isPhase

theorem Keeps.erased_rests (keeps : runtime.Keeps contents)
    (maxWakeup : β → Nat) (dispatch : π)
    (erased : (runtime.task name).phase = .erased index) :
    Leads (Runtime.step maxWakeup) RuntimeEvent.GoesOn (AtRest name)
      runtime := by
  obtain ⟨timer, present, rfl, holding⟩ := keeps.timed.erased erased
  obtain ⟨next, after, timedOut, _, ready, _⟩ :=
    keeps.timeOut present holding dispatch
  have able : runtime.Able (.timeOut index dispatch) :=
    timerPhase_of_present present holding
  refine leads_of_able able timedOut rfl trivial (.here ?_)
  simp [AtRest, ready, Phase.Rests]

theorem Keeps.granted_rests (keeps : runtime.Keeps contents)
    (maxWakeup : β → Nat) (granted : (runtime.task name).phase = .granted proc) :
    Leads (Runtime.step maxWakeup) RuntimeEvent.GoesOn (AtRest name)
      runtime := by
  have isName : runtime.hand proc = some name := by
    rw [keeps.handed, granted]
    rfl
  have able : runtime.Able (.grant proc) := by
    simp [Runtime.Able, Runtime.atHand, isName, granted]
  obtain ⟨next, after, put, _⟩ := keeps.grant able
  refine leads_of_able able put rfl trivial (.here ?_)
  rw [Runtime.grant, isName, Option.bind_some] at put
  obtain ⟨_, _, rfl⟩ := Option.map_eq_some_iff.mp put
  simp [AtRest, Runtime.setTask, Runtime.setHand, Phase.Rests]

/-- What becomes of a task that a block object is asked to keep. -/
theorem rests_of_addWaitTask {waits : Bool}
    (added : runtime.addWaitTask block name = some (waits, next)) :
    waits = true → AtRest name next := by
  intro isTrue
  rw [Runtime.addWaitTask] at added
  split at added
  · obtain ⟨rfl, _⟩ := Prod.mk.inj (Option.some.inj added)
    cases isTrue
  · obtain ⟨pushed, _, isNext⟩ := Option.map_eq_some_iff.mp added
    dsimp only at isNext
    split at isNext
    · obtain ⟨_, rfl⟩ := Prod.mk.inj isNext
      simp [AtRest, Runtime.setTask, Phase.Rests]
    · obtain ⟨_, rfl⟩ := Prod.mk.inj isNext
      simp [AtRest, Runtime.setTask, Phase.Rests]

theorem rests_of_switch (isName : runtime.hand proc = some name)
    (switched : runtime.switch proc = some next) :
    AtRest name next ∨ (next.task name).phase = .granted proc := by
  rw [Runtime.switch, isName, Option.bind_some] at switched
  dsimp only at switched
  split at switched
  · obtain ⟨pushed, _, rfl⟩ := Option.map_eq_some_iff.mp switched
    left
    simp [AtRest, Runtime.setTask, Runtime.setHand, Phase.Rests]
  · obtain ⟨block, _, isNext⟩ := Option.bind_eq_some_iff.mp switched
    obtain ⟨⟨waits, added⟩, isAdded, rfl⟩ := Option.map_eq_some_iff.mp isNext
    cases waits with
    | true =>
        have rests := rests_of_addWaitTask isAdded rfl
        exact .inl rests
    | false =>
        right
        simp [Runtime.setTask]
  · cases switched
  · cases switched
  all_goals
    obtain rfl := Option.some.inj switched
    left
    simp [AtRest, Runtime.setTask, Runtime.setHand, Runtime.decrementRef,
      Runtime.setHeap, Phase.Rests]

theorem Keeps.switched_rests (keeps : runtime.Keeps contents)
    (maxWakeup : β → Nat) (leaving : (runtime.task name).phase = .leaving proc) :
    Leads (Runtime.step maxWakeup) RuntimeEvent.GoesOn (AtRest name)
      runtime := by
  have isName : runtime.hand proc = some name := by
    rw [keeps.handed, leaving]
    rfl
  have able : runtime.Able (.switch proc) := by
    simp [Runtime.Able, Runtime.atHand, isName, leaving]
  obtain ⟨next, after, switched, nextKeeps, _⟩ := keeps.switch able
  refine leads_of_able able switched rfl trivial ?_
  rcases rests_of_switch isName switched with rests | granted
  · exact .here rests
  · exact nextKeeps.granted_rests maxWakeup granted

/-- A task that threads work on comes to rest by what these do next. -/
theorem Keeps.comes_to_rest (keeps : runtime.Keeps contents)
    (maxWakeup : β → Nat) (dispatch : π) (name : τ) :
    Leads (Runtime.step maxWakeup) RuntimeEvent.GoesOn (AtRest name)
      runtime := by
  cases isPhase : (runtime.task name).phase with
  | free => exact .here (by simp [AtRest, isPhase, Phase.Rests])
  | ready => exact .here (by simp [AtRest, isPhase, Phase.Rests])
  | running proc => exact .here (by simp [AtRest, isPhase, Phase.Rests])
  | waiting block => exact .here (by simp [AtRest, isPhase, Phase.Rests])
  | made => exact keeps.added_rests maxWakeup dispatch (.inl isPhase)
  | unhooked => exact keeps.added_rests maxWakeup dispatch (.inr isPhase)
  | cancelled => exact keeps.cancelled_rests maxWakeup dispatch isPhase
  | woken block => exact keeps.woken_rests maxWakeup dispatch isPhase
  | erased index => exact keeps.erased_rests maxWakeup dispatch isPhase
  | granted proc => exact keeps.granted_rests maxWakeup isPhase
  | leaving proc => exact keeps.switched_rests maxWakeup isPhase

end Rest

section Runs

variable (ran : answers (Runtime.step maxWakeup) (Runtime.new signals) events =
  some (results, runtime))

include ran

/-- A wait with a timeout ends without a signal, whatever its timer has done
already. -/
theorem timed_wait_ends (waiting : (runtime.task name).phase = .waiting block)
    (timeout : (runtime.task name).blockTimeout ≠ 0) (dispatch : π) :
    ∃ index, Leads (Runtime.step maxWakeup) (RuntimeEvent.OfTimer index)
      (TimedOut name) runtime := by
  obtain ⟨contents, keeps⟩ := (reached_of_run ran).keeps
  exact keeps.times_out maxWakeup dispatch waiting timeout

/-- No task gets stuck between threads. -/
theorem tasks_come_to_rest (name : τ) (dispatch : π) :
    Leads (Runtime.step maxWakeup) RuntimeEvent.GoesOn (AtRest name)
      runtime := by
  obtain ⟨contents, keeps⟩ := (reached_of_run ran).keeps
  exact keeps.comes_to_rest maxWakeup dispatch name

end Runs

end Runtime

namespace Example

open Natsu.Libgo.Runtime

theorem timed_wait_ends_first :
    ∃ results runtime index,
      answers step start timedWait = some (results, runtime) ∧
      Leads step (RuntimeEvent.OfTimer index) (TimedOut true) runtime := by
  have ran : ∃ results runtime, answers step start timedWait =
      some (results, runtime) ∧
        (runtime.task true).phase = .waiting () ∧
        (runtime.task true).blockTimeout = 5 := ⟨_, _, rfl, rfl, rfl⟩
  obtain ⟨results, runtime, ran, waiting, timeout⟩ := ran
  have isTimed : (runtime.task true).blockTimeout ≠ 0 := by
    simp [timeout]
  obtain ⟨index, leads⟩ := timed_wait_ends ran waiting isTimed ()
  exact ⟨results, runtime, index, ran, leads⟩

/-- The timer of a task is called while another thread wakes it. -/
def race : List (RuntimeEvent Bool Unit Unit) :=
  timedWait ++ [.expire 0, .wake ()]

theorem tasks_come_to_rest_race :
    ∃ results runtime, answers step start race = some (results, runtime) ∧
      Leads step RuntimeEvent.GoesOn (AtRest true) runtime := by
  have ran : ∃ results runtime, answers step start race =
      some (results, runtime) := ⟨_, _, rfl⟩
  obtain ⟨results, runtime, ran⟩ := ran
  exact ⟨results, runtime, ran, tasks_come_to_rest ran true ()⟩

end Example

end Natsu.Libgo
