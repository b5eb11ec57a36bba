import Natsu.Libgo.Runtime

/-!
# Who has a task

Every task is in one queue, or one thread works on it.  A timer that can still
call `CancelWait` belongs to a task that waits on its object or is just being
woken, and every function that will still use a task holds a reference.
-/

namespace Natsu.Libgo

open Natsu.Foundation

variable {τ β π : Type}

namespace Phase

/-- The mark of a task whose threads have come so far. -/
def mark : Phase β π → Option (Mark β)
  | .ready => some .run
  | .waiting block => some (.wait block)
  | _ => none

/-- The processer that works on the task. -/
def proc : Phase β π → Option π
  | .running proc => some proc
  | .leaving proc => some proc
  | .granted proc => some proc
  | _ => none

/-- A task that waits in a `CoBlockWait` was given a signal or has timed
out. -/
def Settled : Phase β π → Prop
  | .ready => True
  | .granted _ => True
  | .woken _ => True
  | .cancelled => True
  | .unhooked => True
  | _ => False

/-- A timer may work on the task. -/
def Watched : Phase β π → Prop
  | .waiting _ => True
  | .woken _ => True
  | .erased _ => True
  | _ => False

end Phase

theorem Phase.waiting_of_mark {phase : Phase β π} {block : β}
    (marked : phase.mark = some (.wait block)) : phase = .waiting block := by
  cases phase <;> simp [Phase.mark] at marked ⊢
  exact marked

theorem Phase.ready_of_mark {phase : Phase β π}
    (marked : phase.mark = some .run) : phase = .ready := by
  cases phase <;> simp [Phase.mark] at marked ⊢

theorem Phase.of_proc {phase : Phase β π} {proc : π}
    (has : phase.proc = some proc) :
    phase.mark = none ∧ (phase ≠ .free ∧ phase ≠ .cancelled) ∧
      ¬ phase.Watched ∧ (∀ index, phase ≠ .erased index) ∧
      ∀ block, phase ≠ .waiting block := by
  cases phase <;> simp [Phase.proc, Phase.mark, Phase.Watched] at has ⊢

/-- `CancelWait` may still be called. -/
def CoTimer.Live (timer : CoTimer τ β) : Prop :=
  timer.active ∨ timer.phase = .entered ∨ timer.phase = .matched

/-- What a coroutine relies on while it is in the wait of a block object. -/
def Task.InWait (task : Task β π) (block : β) : Prop :=
  match task.phase with
  | .free => False
  | .made => False
  | .running _ => False
  | .ready => task.isBlockTimeout = true → task.blockTimeout ≠ 0
  | .leaving _ =>
      task.state = .sysBlock ∧ task.block = some block ∧
        task.isBlockTimeout = false
  | .waiting other => other = block ∧ task.isBlockTimeout = false
  | .woken other => other = block ∧ task.isBlockTimeout = false
  | .granted _ => task.isBlockTimeout = false
  | .cancelled => task.isBlockTimeout = false
  | .unhooked => task.isBlockTimeout = false
  | .erased _ => task.isBlockTimeout = false

/-- The task is in a wait queue, on its way into one or just out of it. -/
def Task.Waits (task : Task β π) : Prop :=
  match task.phase with
  | .leaving _ => task.state = .sysBlock
  | .waiting _ => True
  | .woken _ => True
  | _ => False

/-- The coroutine will return from its wait with a signal. -/
def Task.OnWay (task : Task β π) (block : β) : Prop :=
  task.frame = some block ∧ task.isBlockTimeout = false ∧ task.phase.Settled

structure TaskSound (task : Task β π) : Prop where
  states : task.state ≠ .ioBlock ∧ task.state ≠ .sleep
  blocked : task.state = .sysBlock → task.phase = .ready ∨
    task.phase.proc ≠ none → task.block ≠ none
  waits : ∀ {block}, task.phase = .waiting block → task.block = some block
  inWait : ∀ {block}, task.frame = some block → task.InWait block

theorem TaskSound.noFrame {task : Task β π} (sound : TaskSound task)
    {proc : π} (running : task.phase = .running proc) {block : β} :
    task.frame ≠ some block := by
  intro isFrame
  have inWait := sound.inWait isFrame
  simp [Task.InWait, running] at inWait

/-- A wait that a processer still has to see has not timed out. -/
theorem TaskSound.inTime {task : Task β π} (sound : TaskSound task) {proc : π}
    (has : task.phase.proc = some proc) {block : β}
    (isFrame : task.frame = some block) : task.isBlockTimeout = false := by
  have inWait := sound.inWait isFrame
  cases isPhase : task.phase <;>
    simp [isPhase, Phase.proc, Task.InWait] at has inWait
  · exact inWait.2.2
  · exact inWait

/-- What holds between a timer and its task. -/
structure TimerSound (task : Task β π) (index : Nat) (timer : CoTimer τ β) :
    Prop where
  idle : timer.active → timer.phase = .idle
  current : timer.Live → task.blockTimer = some index
  inWait : timer.Live → task.phase = .waiting timer.block ∨
    task.phase = .woken timer.block
  sequence : timer.Live → task.blockSequence = timer.blockSequence
  timeout : timer.Live ∨ timer.phase = .holding → task.blockTimeout ≠ 0
  held : timer.phase = .holding → task.phase = .erased index

structure Timed (task : τ → Task β π) (timers : List (CoTimer τ β)) :
    Prop where
  sound : ∀ {index timer}, timers[index]? = some timer →
    TimerSound (task timer.task) index timer
  erased : ∀ {name index}, (task name).phase = .erased index →
    ∃ timer, timers[index]? = some timer ∧ timer.task = name ∧
      timer.phase = .holding
  known : ∀ {name index}, (task name).blockTimer = some index →
    timers[index]?.map CoTimer.task = some name
  covered : ∀ {name block}, (task name).phase = .waiting block →
    (task name).blockTimeout ≠ 0 →
    ∃ (index : Nat) (timer : CoTimer τ β), timers[index]? = some timer ∧
      timer.task = name ∧ timer.Live

/-- The processers work on these tasks. -/
def Handed (hand : π → Option τ) (task : τ → Task β π) : Prop :=
  ∀ proc name, hand proc = some name ↔ (task name).phase.proc = some proc

/-- How many functions of timers will still release a task. -/
def pendingCount [DecidableEq τ] (timers : List (CoTimer τ β)) (name : τ) :
    Nat :=
  timers.countP fun timer => timer.task = name && timer.pending

/-- The references beside those of the queues. -/
def owners [DecidableEq τ] [DecidableEq β] [DecidableEq π]
    (task : τ → Task β π) (timers : List (CoTimer τ β)) :
    Hook (Line β π) τ → Nat
  | .head _ => 0
  | .task name =>
      (if (task name).phase = .free then 0 else 1) +
        pendingCount timers name +
        if (task name).phase = .cancelled then 1 else 0

structure Placed (task : τ → Task β π)
    (contents : Contents (Line β π) π (Hook (Line β π) τ) (Mark β)) :
    Prop where
  marks : ∀ name, contents.mark (.task name) = (task name).phase.mark
  lists : ∀ {thief hook}, hook ∈ contents.list thief →
    contents.mark hook = some .run

section Tasks

variable {task : τ → Task β π} {timers : List (CoTimer τ β)} {name : τ}
  {changed : Task β π} {hand : π → Option τ} {proc : π}

theorem TimerSound.of_dead {index : Nat} {timer : CoTimer τ β}
    (idle : timer.active → timer.phase = .idle)
    (dead : ¬ timer.Live ∧ timer.phase ≠ .holding) :
    TimerSound changed index timer :=
  ⟨idle, fun live => absurd live dead.1, fun live => absurd live dead.1,
    fun live => absurd live dead.1,
    fun engaged => engaged.elim (absurd · dead.1) (absurd · dead.2),
    fun holding => absurd holding dead.2⟩

theorem Timed.dead_of_unwatched (timed : Timed task timers) {index : Nat}
    {timer : CoTimer τ β} (present : timers[index]? = some timer)
    (unwatched : ¬ (task timer.task).phase.Watched) :
    ¬ timer.Live ∧ timer.phase ≠ .holding := by
  have sound := timed.sound present
  constructor
  · intro live
    apply unwatched
    rcases sound.inWait live with waits | woken
    · rw [waits]
      trivial
    · rw [woken]
      trivial
  · intro holding
    apply unwatched
    rw [sound.held holding]
    trivial

/-- A task has one timer that works on it. -/
theorem Timed.dead_of_other (timed : Timed task timers) {index other : Nat}
    {timer second : CoTimer τ β} (present : timers[index]? = some timer)
    (engaged : timer.Live ∨ timer.phase = .holding)
    (isSecond : timers[other]? = some second) (different : other ≠ index)
    (same : second.task = timer.task) :
    ¬ second.Live ∧ second.phase ≠ .holding := by
  have sound := timed.sound present
  have soundSecond := timed.sound isSecond
  rw [same] at soundSecond
  constructor
  · intro live
    rcases engaged with first | holding
    · have current := soundSecond.current live
      rw [sound.current first] at current
      exact different (Option.some.inj current).symm
    · have inWait := soundSecond.inWait live
      simp [sound.held holding] at inWait
  · intro holdingSecond
    have held := soundSecond.held holdingSecond
    rcases engaged with first | holding
    · have inWait := sound.inWait first
      simp [held] at inWait
    · rw [sound.held holding] at held
      exact different (Phase.erased.inj held).symm

variable [DecidableEq τ]

theorem forall_setTask {Sound : Task β π → Prop}
    (sound : ∀ name, Sound (task name)) (soundChanged : Sound changed)
    (other : τ) : Sound (Function.update task name changed other) := by
  by_cases same : other = name
  · rw [same, Function.update_self]
    exact soundChanged
  · rw [Function.update_of_ne same]
    exact sound other

/-- A change of one task that its timers allow. -/
theorem Timed.setTask (timed : Timed task timers)
    (sound : ∀ {index timer}, timers[index]? = some timer →
      timer.task = name → TimerSound changed index timer)
    (notErased : ∀ index, changed.phase ≠ .erased index)
    (known : ∀ index, changed.blockTimer = some index →
      timers[index]?.map CoTimer.task = some name)
    (untimed : ∀ block, changed.phase = .waiting block →
      changed.blockTimeout = 0) :
    Timed (Function.update task name changed) timers where
  sound := by
    intro index timer present
    by_cases same : timer.task = name
    · rw [same, Function.update_self]
      exact sound present same
    · rw [Function.update_of_ne same]
      exact timed.sound present
  erased := by
    intro other index isErased
    by_cases same : other = name
    · rw [same, Function.update_self] at isErased
      exact absurd isErased (notErased index)
    · rw [Function.update_of_ne same] at isErased
      exact timed.erased isErased
  known := by
    intro other index isTimer
    by_cases same : other = name
    · rw [same, Function.update_self] at isTimer
      rw [same]
      exact known index isTimer
    · rw [Function.update_of_ne same] at isTimer
      exact timed.known isTimer
  covered := by
    intro other block waits timeout
    by_cases same : other = name
    · rw [same, Function.update_self] at waits timeout
      exact absurd (untimed block waits) timeout
    · rw [Function.update_of_ne same] at waits timeout
      exact timed.covered waits timeout

/-- A change of a task that no timer works on. -/
theorem Timed.setUnwatched (timed : Timed task timers)
    (unwatched : ¬ (task name).phase.Watched)
    (notErased : ∀ index, changed.phase ≠ .erased index)
    (isTimer : changed.blockTimer = (task name).blockTimer ∨
      changed.blockTimer = none)
    (untimed : ∀ block, changed.phase = .waiting block →
      changed.blockTimeout = 0) :
    Timed (Function.update task name changed) timers := by
  refine timed.setTask ?_ notErased ?_ untimed
  · intro index timer present same
    subst same
    exact .of_dead (timed.sound present).idle
      (timed.dead_of_unwatched present unwatched)
  · intro index isIndex
    rcases isTimer with same | none
    · exact timed.known (same ▸ isIndex)
    · simp [none] at isIndex

/-- A step of a timer and its task. -/
theorem Timed.setTimer (timed : Timed task timers) {index : Nat}
    {timer changedTimer : CoTimer τ β}
    (present : timers[index]? = some timer)
    (same : changedTimer.task = timer.task)
    (sound : TimerSound changed index changedTimer)
    (others : ∀ {other second}, timers[other]? = some second →
      other ≠ index → second.task = timer.task →
      TimerSound changed other second)
    (erased : ∀ other, changed.phase = .erased other →
      other = index ∧ changedTimer.phase = .holding ∨
        other ≠ index ∧ (task timer.task).phase = .erased other)
    (known : ∀ other, changed.blockTimer = some other →
      timers[other]?.map CoTimer.task = some timer.task)
    (covered : ∀ block, changed.phase = .waiting block →
      changed.blockTimeout ≠ 0 → changedTimer.Live ∨
        ¬ timer.Live ∧ (task timer.task).phase = .waiting block ∧
          (task timer.task).blockTimeout ≠ 0) :
    Timed (Function.update task timer.task changed)
      (timers.set index changedTimer) := by
  obtain ⟨bound, _⟩ := List.getElem?_eq_some_iff.mp present
  have isChanged : (timers.set index changedTimer)[index]? =
      some changedTimer := List.getElem?_set_self bound
  have elsewhere {other : Nat} (different : other ≠ index) :
      (timers.set index changedTimer)[other]? = timers[other]? :=
    List.getElem?_set_ne (Ne.symm different)
  have tasks (other : Nat) :
      (timers.set index changedTimer)[other]?.map CoTimer.task =
        timers[other]?.map CoTimer.task := by
    by_cases isIndex : other = index
    · subst isIndex
      rw [isChanged, present, Option.map_some, Option.map_some, same]
    · rw [elsewhere isIndex]
  constructor
  · intro other second isSecond
    by_cases isIndex : other = index
    · subst isIndex
      obtain rfl := Option.some.inj (isChanged.symm.trans isSecond)
      rw [same, Function.update_self]
      exact sound
    · rw [elsewhere isIndex] at isSecond
      by_cases isTask : second.task = timer.task
      · rw [isTask, Function.update_self]
        exact others isSecond isIndex isTask
      · rw [Function.update_of_ne isTask]
        exact timed.sound isSecond
  · intro name other isErased
    by_cases here : name = timer.task ∧ other = index ∧
        changedTimer.phase = .holding
    · obtain ⟨rfl, rfl, holding⟩ := here
      exact ⟨changedTimer, isChanged, same, holding⟩
    · have before : other ≠ index ∧ (task name).phase = .erased other := by
        by_cases isTask : name = timer.task
        · subst isTask
          rw [Function.update_self] at isErased
          rcases erased other isErased with atIndex | before
          · exact absurd ⟨rfl, atIndex⟩ here
          · exact before
        · rw [Function.update_of_ne isTask] at isErased
          refine ⟨?_, isErased⟩
          intro isIndex
          obtain ⟨second, isSecond, isName, _⟩ := timed.erased isErased
          rw [isIndex, present] at isSecond
          exact isTask (isName ▸ (Option.some.inj isSecond) ▸ rfl)
      obtain ⟨second, isSecond, rest⟩ := timed.erased before.2
      exact ⟨second, by rw [elsewhere before.1, isSecond], rest⟩
  · intro name other isTimer
    rw [tasks]
    by_cases isTask : name = timer.task
    · rw [isTask, Function.update_self] at isTimer
      rw [isTask]
      exact known other isTimer
    · rw [Function.update_of_ne isTask] at isTimer
      exact timed.known isTimer
  · intro name block waits timeout
    by_cases here : name = timer.task ∧ changedTimer.Live
    · obtain ⟨rfl, live⟩ := here
      exact ⟨index, changedTimer, isChanged, same, live⟩
    · have before : (task name).phase = .waiting block ∧
          (task name).blockTimeout ≠ 0 ∧
          (name = timer.task → ¬ timer.Live) := by
        by_cases isTask : name = timer.task
        · subst isTask
          rw [Function.update_self] at waits timeout
          rcases covered block waits timeout with live | ⟨dead, before⟩
          · exact absurd ⟨rfl, live⟩ here
          · exact ⟨before.1, before.2, fun _ => dead⟩
        · rw [Function.update_of_ne isTask] at waits timeout
          exact ⟨waits, timeout, fun isName => absurd isName isTask⟩
      obtain ⟨waited, timedOut, dead⟩ := before
      obtain ⟨other, second, isSecond, isName, live⟩ :=
        timed.covered waited timedOut
      have different : other ≠ index := by
        intro isIndex
        rw [isIndex, present] at isSecond
        obtain rfl := Option.some.inj isSecond
        exact dead isName.symm live
      exact ⟨other, second, by rw [elsewhere different, isSecond], isName,
        live⟩

/-- A timer that can still call `CancelWait` goes on, and its task stays. -/
theorem Timed.advance (timed : Timed task timers) {index : Nat}
    {timer changedTimer : CoTimer τ β}
    (present : timers[index]? = some timer)
    (same : changedTimer = { timer with
      active := changedTimer.active, phase := changedTimer.phase })
    (live : timer.Live)
    (idle : changedTimer.active → changedTimer.phase = .idle)
    (notHolding : changedTimer.phase ≠ .holding)
    (goesOn : changedTimer.Live ∨
      ∃ block, (task timer.task).phase = .woken block) :
    Timed task (timers.set index changedTimer) := by
  have sound := timed.sound present
  have isTask : changedTimer.task = timer.task := by rw [same]
  have isBlock : changedTimer.block = timer.block := by rw [same]
  have isSequence : changedTimer.blockSequence = timer.blockSequence := by
    rw [same]
  have moved : Timed (Function.update task timer.task (task timer.task))
      (timers.set index changedTimer) := by
    apply timed.setTimer present isTask
    · refine ⟨idle, fun _ => sound.current live, fun _ => ?_, fun _ => ?_,
        fun _ => sound.timeout (.inl live),
        fun holding => absurd holding notHolding⟩
      · rw [isBlock]
        exact sound.inWait live
      · rw [isSequence]
        exact sound.sequence live
    · intro other second isSecond _ isName
      exact isName ▸ timed.sound isSecond
    · intro other isErased
      have inWait := sound.inWait live
      simp [isErased] at inWait
    · intro other isOther
      exact timed.known isOther
    · intro block waits _
      rcases goesOn with goes | woken
      · exact .inl goes
      · obtain ⟨_, woken⟩ := woken
        simp [waits] at woken
  rwa [Function.update_eq_self] at moved

/-- A timer for a task that starts to wait. -/
theorem Timed.append (timed : Timed task timers)
    (unwatched : ¬ (task name).phase.Watched) {timer : CoTimer τ β}
    (isName : timer.task = name) (active : timer.active)
    (idle : timer.phase = .idle)
    (isTimer : changed.blockTimer = some timers.length)
    (waits : changed.phase = .waiting timer.block)
    (sequence : changed.blockSequence = timer.blockSequence)
    (timeout : changed.blockTimeout ≠ 0) :
    Timed (Function.update task name changed) (timers ++ [timer]) where
  sound := by
    intro index second isSecond
    by_cases bound : index < timers.length
    · rw [List.getElem?_append_left bound] at isSecond
      by_cases same : second.task = name
      · subst same
        rw [Function.update_self]
        exact .of_dead (timed.sound isSecond).idle
          (timed.dead_of_unwatched isSecond unwatched)
      · rw [Function.update_of_ne same]
        exact timed.sound isSecond
    · rw [List.getElem?_append_right (Nat.le_of_not_lt bound),
        List.getElem?_singleton] at isSecond
      split at isSecond
      · rename_i isLast
        obtain rfl : index = timers.length := by omega
        obtain rfl := Option.some.inj isSecond
        rw [isName, Function.update_self]
        exact ⟨fun _ => idle, fun _ => isTimer, fun _ => .inl waits,
          fun _ => sequence, fun _ => timeout, by simp [idle]⟩
      · cases isSecond
  erased := by
    intro other index isErased
    by_cases same : other = name
    · rw [same, Function.update_self, waits] at isErased
      cases isErased
    · rw [Function.update_of_ne same] at isErased
      obtain ⟨second, isSecond, rest⟩ := timed.erased isErased
      obtain ⟨bound, _⟩ := List.getElem?_eq_some_iff.mp isSecond
      exact ⟨second, by rwa [List.getElem?_append_left bound], rest⟩
  known := by
    intro other index isIndex
    by_cases same : other = name
    · rw [same, Function.update_self, isTimer] at isIndex
      rw [← Option.some.inj isIndex, same]
      simpa using isName
    · rw [Function.update_of_ne same] at isIndex
      obtain ⟨second, isSecond, isTask⟩ :=
        Option.map_eq_some_iff.mp (timed.known isIndex)
      obtain ⟨bound, _⟩ := List.getElem?_eq_some_iff.mp isSecond
      rw [List.getElem?_append_left bound, isSecond, Option.map_some, isTask]
  covered := by
    intro other block isWaiting timeout
    by_cases same : other = name
    · subst same
      exact ⟨timers.length, timer, by simp, isName, .inl active⟩
    · rw [Function.update_of_ne same] at isWaiting timeout
      obtain ⟨index, second, isSecond, rest⟩ :=
        timed.covered isWaiting timeout
      obtain ⟨bound, _⟩ := List.getElem?_eq_some_iff.mp isSecond
      exact ⟨index, second, by rwa [List.getElem?_append_left bound], rest⟩

theorem Handed.setTask (handed : Handed hand task)
    (same : changed.phase.proc = (task name).phase.proc) :
    Handed hand (Function.update task name changed) := by
  intro proc other
  rw [handed]
  by_cases isName : other = name
  · rw [isName, Function.update_self, same]
  · rw [Function.update_of_ne isName]

variable {index : Nat} {timer changedTimer : CoTimer τ β}

theorem pendingCount_append (timers : List (CoTimer τ β))
    (timer : CoTimer τ β) (other : τ) :
    pendingCount (timers ++ [timer]) other = pendingCount timers other +
      if timer.task = other ∧ timer.pending then 1 else 0 := by
  simp [pendingCount, List.countP_cons]

theorem pendingCount_set (present : timers[index]? = some timer)
    (same : changedTimer.task = timer.task) (other : τ) :
    pendingCount (timers.set index changedTimer) other +
        (if timer.task = other ∧ timer.pending then 1 else 0) =
      pendingCount timers other +
        if timer.task = other ∧ changedTimer.pending then 1 else 0 := by
  obtain ⟨bound, isTimer⟩ := List.getElem?_eq_some_iff.mp present
  have member : timer ∈ timers := List.mem_of_getElem? present
  have positive (counted : timer.task = other ∧ timer.pending) :
      0 < pendingCount timers other :=
    List.countP_pos_iff.mpr ⟨timer, member, by simpa using counted⟩
  unfold pendingCount at positive ⊢
  rw [List.countP_set bound, isTimer]
  by_cases counted : timer.task = other ∧ timer.pending
  · have := positive counted
    simp only [same, Bool.and_eq_true, decide_eq_true_eq, counted, and_self,
      if_true, true_and]
    omega
  · simp [same, counted]

theorem pendingCount_set_of_ne (present : timers[index]? = some timer)
    (same : changedTimer.task = timer.task) {other : τ}
    (different : other ≠ timer.task) :
    pendingCount (timers.set index changedTimer) other =
      pendingCount timers other := by
  have counts := pendingCount_set present same other
  simpa [Ne.symm different] using counts

variable [DecidableEq π]

theorem Handed.take (handed : Handed hand task)
    (empty : hand proc = none) (before : (task name).phase.proc = none)
    (after : changed.phase.proc = some proc) :
    Handed (Function.update hand proc (some name))
      (Function.update task name changed) := by
  intro other who
  by_cases isProc : other = proc
  · subst isProc
    rw [Function.update_self]
    by_cases isName : who = name
    · simp [isName, after]
    · rw [Function.update_of_ne isName, ← handed, empty]
      simpa using Ne.symm isName
  · rw [Function.update_of_ne isProc]
    by_cases isName : who = name
    · subst isName
      rw [Function.update_self, after, handed, before]
      simpa using Ne.symm isProc
    · rw [Function.update_of_ne isName, handed]

theorem Handed.drop (handed : Handed hand task)
    (isName : hand proc = some name) (after : changed.phase.proc = none) :
    Handed (Function.update hand proc none)
      (Function.update task name changed) := by
  have before := (handed proc name).mp isName
  intro other who
  by_cases isProc : other = proc
  · subst isProc
    rw [Function.update_self]
    by_cases same : who = name
    · simp [same, after]
    · rw [Function.update_of_ne same, ← handed, isName]
      simpa using Ne.symm same
  · rw [Function.update_of_ne isProc]
    by_cases same : who = name
    · subst same
      rw [Function.update_self, after, handed, before]
      simpa using Ne.symm isProc
    · rw [Function.update_of_ne same, handed]

variable [DecidableEq β]

/-- The references change only where a task or its timers do. -/
theorem owners_update {later : List (CoTimer τ β)}
    (elsewhere : ∀ other, other ≠ name →
      pendingCount later other = pendingCount timers other) :
    owners (Function.update task name changed) later =
      Function.update (owners (π := π) task timers) (.task name)
        ((if changed.phase = .free then 0 else 1) + pendingCount later name +
          if changed.phase = .cancelled then 1 else 0) := by
  funext hook
  cases hook with
  | head line => simp [owners]
  | task other =>
      by_cases same : other = name
      · simp [owners, same]
      · simp [owners, same, elsewhere other same]

theorem owners_setTask
    (free : changed.phase = .free ↔ (task name).phase = .free)
    (cancelled : changed.phase = .cancelled ↔
      (task name).phase = .cancelled) :
    owners (Function.update task name changed) timers =
      owners task timers := by
  rw [owners_update fun _ _ => rfl, Function.update_eq_self_iff]
  simp only [owners, free, cancelled]

/-- The function of a timer will not release its task any more. -/
theorem owners_settle (present : timers[index]? = some timer)
    (same : changedTimer.task = timer.task) (pending : timer.pending)
    (settled : changedTimer.pending = false) (task : τ → Task β π)
    (changed : Task β π) :
    owners (Function.update task timer.task changed)
        (timers.set index changedTimer) =
      Function.update (owners (π := π) task timers) (.task timer.task)
        ((if changed.phase = .free then 0 else 1) +
          (pendingCount timers timer.task - 1) +
          if changed.phase = .cancelled then 1 else 0) ∧
      0 < pendingCount timers timer.task := by
  have counts := pendingCount_set present same timer.task
  simp only [pending, settled, and_self, Bool.false_eq_true, and_false,
    if_true, if_false] at counts
  refine ⟨?_, by omega⟩
  rw [owners_update fun other different =>
    pendingCount_set_of_ne present same different]
  have fewer : pendingCount (timers.set index changedTimer) timer.task =
      pendingCount timers timer.task - 1 := by omega
  rw [fewer]

/-- The function of a new timer holds a reference. -/
theorem owners_append (pending : timer.pending) :
    owners (π := π) task (timers ++ [timer]) =
      Function.update (owners task timers) (.task timer.task)
        (owners (π := π) task timers (.task timer.task) + 1) := by
  funext hook
  cases hook with
  | head line => simp [owners]
  | task other =>
      by_cases same : timer.task = other
      · subst same
        simp only [owners, pendingCount_append, pending, and_self, if_true,
          Function.update_self]
        omega
      · rw [Function.update_of_ne (by simpa using Ne.symm same)]
        simp [owners, pendingCount_append, same]

/-- A step of a timer that keeps its task. -/
theorem owners_setTimer (present : timers[index]? = some timer)
    (same : changedTimer.task = timer.task)
    (pending : changedTimer.pending = timer.pending) :
    owners (π := π) task (timers.set index changedTimer) =
      owners task timers := by
  funext hook
  cases hook with
  | head line => rfl
  | task other =>
      have counts := pendingCount_set present same other
      rw [pending] at counts
      simp only [owners, Nat.add_right_cancel counts]

end Tasks

section Queues

variable {task : τ → Task β π} {name : τ} {changed : Task β π}
  {owned : Hook (Line β π) τ → Nat}
  {pool : Pool (Line β π) π (Hook (Line β π) τ) (Mark β)}
  {contents : Contents (Line β π) π (Hook (Line β π) τ) (Mark β)}
  {line : Line β π}

/-- A hook in a queue is a task with the mark of the queue. -/
theorem Placed.of_mem (placed : Placed task contents)
    (represents : Represents Hook.head Line.mark owned pool contents)
    {hook : Hook (Line β π) τ} (member : hook ∈ contents.queue line) :
    ∃ name, hook = .task name ∧
      (task name).phase.mark = some line.mark := by
  have marked : contents.mark hook = some line.mark := by
    rw [← represents.check, ← represents.tokens line]
    exact (represents.queues line).checked hook member
  cases hook with
  | head other => simp [represents.unmarked_head] at marked
  | task name => exact ⟨name, rfl, by rw [← placed.marks, marked]⟩

/-- A hook is not both in a queue and in a list. -/
theorem Represents.not_listed
    (represents : Represents Hook.head Line.mark owned pool contents)
    {hook : Hook (Line β π) τ} (member : hook ∈ contents.queue line)
    (thief : π) : hook ∉ contents.list thief := by
  intro listed
  have different :
      (Place.queue line : Place (Line β π) π) ≠ .list thief := by simp
  have inQueue : hook ∈ contents.footprint Hook.head (.queue line) :=
    List.mem_cons_of_mem _ member
  exact represents.apart different inQueue listed

variable [DecidableEq τ]

theorem Placed.setTask (placed : Placed task contents)
    (same : changed.phase.mark = (task name).phase.mark) :
    Placed (Function.update task name changed) contents where
  marks := by
    intro other
    by_cases isName : other = name
    · rw [isName, Function.update_self, same, placed.marks]
    · rw [Function.update_of_ne isName, placed.marks]
  lists := placed.lists

variable [DecidableEq β] [DecidableEq π]

/-- A thread adds a task that it has to a queue. -/
theorem Placed.push (placed : Placed task contents)
    (represents : Represents Hook.head Line.mark owned pool contents)
    (line : Line β π) (unmarked : (task name).phase.mark = none)
    (marked : changed.phase.mark = some line.mark) :
    ∃ next after, pool.step (.push line (.task name)) = some (.done, next) ∧
      Represents Hook.head Line.mark owned next after ∧
      Placed (Function.update task name changed) after ∧
      after.queue = Function.update contents.queue line
        (contents.queue line ++ [.task name]) := by
  have free : contents.mark (.task name) = none := by
    rw [placed.marks, unmarked]
  obtain ⟨next, stepped, following⟩ := represents.step
    (.push line (.task name) free (by simp))
  refine ⟨next, _, stepped, following, ⟨?_, ?_⟩, rfl⟩
  · intro other
    by_cases same : other = name
    · simp [same, marked]
    · simp [same, placed.marks]
  · intro thief hook listed
    have isRun := placed.lists listed
    have different : hook ≠ .task name := by
      intro same
      simp [same, free] at isRun
    simpa [different] using isRun

/-- What is left of a queue when a thread has taken a task out of it. -/
theorem Placed.unhook (placed : Placed task contents)
    (represents : Represents Hook.head Line.mark owned pool contents)
    (member : .task name ∈ contents.queue line)
    (unmarked : changed.phase.mark = none)
    (rest : List (Hook (Line β π) τ)) :
    Placed (Function.update task name changed)
      ((contents.put line rest).setMark (.task name) none) where
  marks := by
    intro other
    by_cases same : other = name
    · simp [same, unmarked]
    · simp [same, placed.marks]
  lists := by
    intro thief hook listed
    have different : hook ≠ .task name := by
      intro same
      exact represents.not_listed member thief (same ▸ listed)
    simpa [different] using placed.lists listed

/-- A thread takes the first task of a queue, if there is one. -/
theorem Placed.pop (placed : Placed task contents)
    (represents : Represents Hook.head Line.mark owned pool contents)
    (line : Line β π) :
    (∃ next, contents.queue line = [] ∧
      pool.step (.pop line) = some (.popped none, next) ∧
      Represents Hook.head Line.mark owned next contents) ∨
    ∃ name rest next after, contents.queue line = .task name :: rest ∧
      pool.step (.pop line) = some (.popped (some (.task name)), next) ∧
      (task name).phase.mark = some line.mark ∧
      Represents Hook.head Line.mark owned next after ∧
      (∀ {changed : Task β π}, changed.phase.mark = none →
        Placed (Function.update task name changed) after) ∧
      after.queue = Function.update contents.queue line rest := by
  cases isQueue : contents.queue line with
  | nil =>
      obtain ⟨next, stepped, following⟩ :=
        represents.step (.popNone line isQueue)
      exact .inl ⟨next, rfl, stepped, following⟩
  | cons first rest =>
      have member : first ∈ contents.queue line := by simp [isQueue]
      obtain ⟨name, rfl, marked⟩ := placed.of_mem represents member
      obtain ⟨next, stepped, following⟩ :=
        represents.step (.pop line _ rest isQueue)
      exact .inr ⟨name, rest, next, _, rfl, stepped, marked, following,
        fun unmarked => placed.unhook represents member unmarked rest, rfl⟩

/-- A timer takes a task out of a queue, unless it is not there. -/
theorem Placed.erase (placed : Placed task contents)
    (represents : Represents Hook.head Line.mark owned pool contents)
    (block : β) (name : τ) :
    (∃ next, (task name).phase.mark ≠ some (.wait block) ∧
      pool.step (.erase (.wait block) (.task name)) =
        some (.erased false, next) ∧
      Represents Hook.head Line.mark owned next contents) ∨
    ∃ next after, (task name).phase.mark = some (.wait block) ∧
      .task name ∈ contents.queue (.wait block) ∧
      pool.step (.erase (.wait block) (.task name)) =
        some (.erased true, next) ∧
      Represents Hook.head Line.mark owned next after ∧
      (∀ {changed : Task β π}, changed.phase.mark = none →
        Placed (Function.update task name changed) after) ∧
      after.queue = Function.update contents.queue (.wait block)
        ((contents.queue (.wait block)).erase (.task name)) := by
  by_cases marked : (task name).phase.mark = some (.wait block)
  · have isMark : contents.mark (.task name) = some (.wait block) := by
      rw [placed.marks, marked]
    have member : .task name ∈ contents.queue (.wait block) := by
      obtain ⟨place, member⟩ :=
        (represents.listed (.task name)).mp (by simp [isMark])
      cases place with
      | list thief => simp [placed.lists member] at isMark
      | queue line =>
          obtain ⟨_, same, isLine⟩ := placed.of_mem represents member
          obtain rfl := Hook.task.inj same
          rw [marked] at isLine
          cases line with
          | run proc => simp [Line.mark] at isLine
          | wait other =>
              obtain rfl : block = other := by simpa [Line.mark] using isLine
              exact member
    obtain ⟨next, stepped, following⟩ :=
      represents.step (.erase (.wait block) (.task name) member)
    exact .inr ⟨next, _, marked, member, stepped, following,
      fun unmarked => placed.unhook represents member unmarked _, rfl⟩
  · have notMark : contents.mark (.task name) ≠
        some (Line.wait (π := π) block).mark := by
      rwa [placed.marks]
    obtain ⟨next, stepped, following⟩ :=
      represents.step (.eraseNone (.wait block) (.task name) notMark)
    exact .inl ⟨next, marked, stepped, following⟩

end Queues

variable [DecidableEq τ] [DecidableEq β] [DecidableEq π]

/-- The queues are these lists, and no signal is left where a task waits. -/
structure Runtime.Keeps (runtime : Runtime τ β π)
    (contents : Contents (Line β π) π (Hook (Line β π) τ) (Mark β)) :
    Prop where
  represents : Represents Hook.head Line.mark
    (owners runtime.task runtime.timers) runtime.pool contents
  placed : Placed runtime.task contents
  handed : Handed runtime.hand runtime.task
  tasks : ∀ name, TaskSound (runtime.task name)
  timed : Timed runtime.task runtime.timers
  signals : ∀ {block}, 0 < runtime.wakeup block →
    contents.queue (.wait block) = []

end Natsu.Libgo
