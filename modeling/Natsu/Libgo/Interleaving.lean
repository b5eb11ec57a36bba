import Natsu.Libgo.Signals

/-!
# What every step keeps

One lemma for each kind of step, and from them that no order of steps follows
a null pointer or fails an assertion.
-/

namespace Natsu.Libgo

open Natsu.Foundation

variable {τ β π : Type} [DecidableEq τ] [DecidableEq β] [DecidableEq π]
  {runtime : Runtime τ β π}
  {contents : Contents (Line β π) π (Hook (Line β π) τ) (Mark β)}
  {name : τ} {proc : π} {block : β}

namespace Runtime

omit [DecidableEq τ] in
/-- A change of a run queue leaves the waiting tasks alone. -/
theorem signals_run {wakeup : β → Nat}
    {queue changed : Line β π → List (Hook (Line β π) τ)}
    {elements : List (Hook (Line β π) τ)}
    (signals : ∀ {block}, 0 < wakeup block → queue (.wait block) = [])
    (isQueue : changed = Function.update queue (.run proc) elements)
    {block : β} (signal : 0 < wakeup block) : changed (.wait block) = [] := by
  rw [isQueue, Function.update_of_ne (by simp)]
  exact signals signal

theorem Keeps.createTask (keeps : runtime.Keeps contents)
    (free : (runtime.task name).phase = .free) :
    (runtime.createTask name).Keeps contents ∧
      Effect runtime .quiet (runtime.createTask name) := by
  refine ⟨⟨?_, ?_, ?_, ?_, ?_, keeps.signals⟩, .of_task rfl rfl rfl rfl ?_⟩
  · have owned : owners (Function.update runtime.task name
        { phase := .made }) runtime.timers = Function.update
          (owners runtime.task runtime.timers) (.task name)
          (owners runtime.task runtime.timers (.task name) + 1) := by
      rw [owners_update fun _ _ => rfl]
      simp [owners, free, Nat.add_comm]
    have represents := keeps.represents.incrementRef (.task name)
    rwa [← owned] at represents
  · exact keeps.placed.setTask (by rw [free]; rfl)
  · exact keeps.handed.setTask (by rw [free]; rfl)
  · exact forall_setTask keeps.tasks
      ⟨by simp, by simp, by simp, by simp⟩
  · apply keeps.timed.setUnwatched
    · rw [free]
      exact id
    · simp
    · exact .inr rfl
    · simp
  · exact onWay_of_unsettled (by rw [free]; exact id) id

/-- Only the pool matters to a queue. -/
theorem push_of_pool {other : Runtime τ β π} {line : Line β π}
    {pool : Pool (Line β π) π (Hook (Line β π) τ) (Mark β)}
    (pushed : runtime.push line name = some { runtime with pool := pool })
    (same : other.pool = runtime.pool) :
    other.push line name = some { other with pool := pool } := by
  obtain ⟨⟨outcome, next⟩, stepped, isNext⟩ :=
    Option.map_eq_some_iff.mp pushed
  obtain rfl : next = pool := congrArg Runtime.pool isNext
  rw [Runtime.push, same, stepped]
  rfl

/-- A thread adds its task to a queue. -/
theorem Keeps.push (keeps : runtime.Keeps contents) (line : Line β π)
    (unmarked : (runtime.task name).phase.mark = none)
    (alive : (runtime.task name).phase ≠ .free ∧
      (runtime.task name).phase ≠ .cancelled)
    {changed : Task β π} (marked : changed.phase.mark = some line.mark) :
    ∃ pool after, runtime.push line name = some { runtime with pool := pool } ∧
      Represents Hook.head Line.mark (owners
        (Function.update runtime.task name changed) runtime.timers) pool
        after ∧
      Placed (Function.update runtime.task name changed) after ∧
      after.queue = Function.update contents.queue line
        (contents.queue line ++ [.task name]) := by
  obtain ⟨pool, after, stepped, represents, placed, isQueue⟩ :=
    keeps.placed.push keeps.represents line unmarked marked
  have owned : owners (Function.update runtime.task name changed)
      runtime.timers = owners runtime.task runtime.timers := by
    apply owners_setTask
    · refine iff_of_false ?_ alive.1
      intro free
      simp [free, Phase.mark] at marked
    · refine iff_of_false ?_ alive.2
      intro cancelled
      simp [cancelled, Phase.mark] at marked
  refine ⟨pool, after, ?_, owned ▸ represents, placed, isQueue⟩
  rw [Runtime.push, stepped]
  rfl

theorem Keeps.addTaskRunnable (keeps : runtime.Keeps contents)
    (able : (runtime.task name).phase = .made ∨
      (runtime.task name).phase = .unhooked) (dispatch : π) :
    ∃ next after, runtime.addTaskRunnable name dispatch = some next ∧
      next.Keeps after ∧ Effect runtime .quiet next := by
  have sound := keeps.tasks name
  have before : (runtime.task name).phase.mark = none ∧
      (runtime.task name).phase.proc = none ∧
      ((runtime.task name).phase ≠ .free ∧
        (runtime.task name).phase ≠ .cancelled) ∧
      ¬ (runtime.task name).phase.Watched := by
    rcases able with made | unhooked
    · simp [made, Phase.mark, Phase.proc, Phase.Watched]
    · simp [unhooked, Phase.mark, Phase.proc, Phase.Watched]
  obtain ⟨unmarked, noProc, alive, unwatched⟩ := before
  have inTime {block : β} (isFrame : (runtime.task name).frame = some block) :
      (runtime.task name).phase = .unhooked ∧
        (runtime.task name).isBlockTimeout = false := by
    have inWait := sound.inWait isFrame
    rcases able with made | unhooked
    · simp [Task.InWait, made] at inWait
    · exact ⟨unhooked, by simpa [Task.InWait, unhooked] using inWait⟩
  let changed : Task β π :=
    { runtime.task name with phase := .ready, state := .runnable }
  have marked : changed.phase.mark = some (Line.mark (.run
      ((runtime.task name).proc.getD dispatch))) := rfl
  obtain ⟨pool, after, pushed, represents, placed, isQueue⟩ :=
    keeps.push _ unmarked alive marked
  refine ⟨{ runtime with pool := pool }.setTask name changed, after, ?_,
    ⟨represents, placed, ?_, ?_, ?_, signals_run keeps.signals isQueue⟩,
    .of_task rfl rfl rfl rfl ?_⟩
  · rw [Runtime.addTaskRunnable, pushed]
    rfl
  · exact keeps.handed.setTask noProc.symm
  · apply forall_setTask keeps.tasks
    refine ⟨by simp [changed], by simp [changed], by simp [changed], ?_⟩
    intro block isFrame timedOut
    exact absurd timedOut (by simp [changed, (inTime isFrame).2])
  · apply keeps.timed.setUnwatched unwatched
    · simp [changed]
    · exact .inl rfl
    · simp [changed]
  · intro block
    refine and_congr_right fun isFrame => and_congr_right fun _ =>
      iff_of_true trivial ?_
    rw [(inTime isFrame).1]
    trivial

theorem Keeps.run (keeps : runtime.Keeps contents)
    (able : runtime.hand proc = none) :
    ∃ answer next after, runtime.run proc = some (answer, next) ∧
      next.Keeps after ∧ Effect runtime answer next := by
  rcases keeps.placed.pop keeps.represents (.run proc) with
    ⟨pool, _, popped, represents⟩ |
    ⟨name, rest, pool, after, isFirst, popped, marked, represents, placed,
      isQueue⟩
  · refine ⟨.quiet, { runtime with pool := pool }, contents, ?_,
      ⟨represents, keeps.placed, keeps.handed, keeps.tasks, keeps.timed,
        keeps.signals⟩, .quiet rfl rfl rfl fun _ _ => .rfl⟩
    simp only [Runtime.run, popped]
  · have ready : (runtime.task name).phase = .ready :=
      Phase.ready_of_mark marked
    let changed : Task β π :=
      { runtime.task name with phase := .running proc, frame := none }
    let next := (({ runtime with pool := pool }).setHand proc
      (some name)).setTask name changed
    have nextKeeps (onWay : β → List τ) :
        { next with onWay := onWay }.Keeps after := by
      refine ⟨?_, placed rfl, ?_, ?_, ?_, signals_run keeps.signals isQueue⟩
      · have owned : owners (Function.update runtime.task name changed)
            runtime.timers = owners runtime.task runtime.timers :=
          owners_setTask (by simp [changed, ready]) (by simp [changed, ready])
        exact owned ▸ represents
      · apply keeps.handed.take able
        · rw [ready]
          rfl
        · rfl
      · apply forall_setTask keeps.tasks
        have sound := keeps.tasks name
        exact ⟨sound.states, fun isBlocked _ =>
          sound.blocked isBlocked (.inl ready), by simp [changed],
          by simp [changed]⟩
      · apply keeps.timed.setUnwatched
        · rw [ready]
          exact id
        · simp [changed]
        · exact .inl rfl
        · simp [changed]
    cases isFrame : (runtime.task name).frame with
    | none =>
        refine ⟨.quiet, next, after, ?_, nextKeeps next.onWay,
          .of_task rfl rfl rfl rfl fun block => ?_⟩
        · simp only [Runtime.run, popped, isFrame]
          rfl
        · simp [Task.OnWay, changed, isFrame]
    | some block =>
        refine ⟨.returned block !(runtime.task name).isBlockTimeout,
          { next with
            onWay := Function.update next.onWay block
              ((next.onWay block).erase name) }, after, ?_, nextKeeps _,
          .back isFrame ready rfl rfl rfl rfl rfl⟩
        simp only [Runtime.run, popped, isFrame]
        rfl

omit [DecidableEq τ] [DecidableEq β] [DecidableEq π] in
theorem exists_of_atHand {phase : Phase β π}
    (able : runtime.atHand proc = some phase) :
    ∃ name, runtime.hand proc = some name ∧
      (runtime.task name).phase = phase :=
  Option.map_eq_some_iff.mp able

/-- A signal is taken without a task. -/
theorem Keeps.setWakeup (keeps : runtime.Keeps contents) {signals : Nat}
    (fewer : signals ≤ runtime.wakeup block) :
    (runtime.setWakeup block signals).Keeps contents where
  represents := keeps.represents
  placed := keeps.placed
  handed := keeps.handed
  tasks := keeps.tasks
  timed := keeps.timed
  signals := by
    intro other signal
    apply keeps.signals
    by_cases same : other = block
    · subst same
      simp only [Runtime.setWakeup, Function.update_self] at signal
      omega
    · simpa [Runtime.setWakeup, same] using signal

/-- A processer goes on with its task. -/
theorem Keeps.setOwn (keeps : runtime.Keeps contents)
    (before : (runtime.task name).phase.proc = some proc)
    {changed : Task β π} (after : changed.phase.proc = some proc)
    (isTimer : changed.blockTimer = (runtime.task name).blockTimer)
    (sound : TaskSound changed) :
    (runtime.setTask name changed).Keeps contents := by
  obtain ⟨unmarked, alive, unwatched, _, _⟩ := Phase.of_proc before
  obtain ⟨noMark, stillAlive, _, notErased, notWaiting⟩ := Phase.of_proc after
  refine ⟨?_, ?_, ?_, forall_setTask keeps.tasks sound, ?_, keeps.signals⟩
  · have owned : owners (Function.update runtime.task name changed)
        runtime.timers = owners runtime.task runtime.timers :=
      owners_setTask (iff_of_false stillAlive.1 alive.1)
        (iff_of_false stillAlive.2 alive.2)
    exact owned ▸ keeps.represents
  · exact keeps.placed.setTask (noMark.trans unmarked.symm)
  · exact keeps.handed.setTask (after.trans before.symm)
  · apply keeps.timed.setUnwatched unwatched notErased (.inl isTimer)
    intro block waits
    exact absurd waits (notWaiting block)

theorem Keeps.coBlockWait (keeps : runtime.Keeps contents)
    (able : runtime.atHand proc = some (.running proc)) (block : β)
    (timeout : Int) :
    ∃ answer next, runtime.coBlockWait proc block timeout =
        some (answer, next) ∧ next.Keeps contents ∧
      Effect runtime answer next := by
  obtain ⟨name, isName, running⟩ := exists_of_atHand able
  have has := (keeps.handed proc name).mp isName
  rw [Runtime.coBlockWait, isName, Option.map_some]
  split
  · rename_i signal
    exact ⟨_, _, rfl, keeps.setWakeup (Nat.sub_le _ 1),
      .take (.inr rfl) signal⟩
  · refine ⟨_, _, rfl, keeps.setOwn has rfl rfl ?_,
      .of_task rfl rfl rfl rfl ?_⟩
    · refine ⟨by simp, by simp, by simp, ?_⟩
      intro other isFrame
      exact ⟨rfl, isFrame, rfl⟩
    · exact onWay_of_unsettled (by rw [running]; exact id) id

theorem Keeps.coYield (keeps : runtime.Keeps contents)
    (able : runtime.atHand proc = some (.running proc)) :
    ∃ next, runtime.coYield proc = some next ∧ next.Keeps contents ∧
      Effect runtime .quiet next := by
  obtain ⟨name, isName, running⟩ := exists_of_atHand able
  have has := (keeps.handed proc name).mp isName
  have sound := keeps.tasks name
  rw [Runtime.coYield, isName, Option.map_some]
  refine ⟨_, rfl, keeps.setOwn has rfl rfl ?_, .of_task rfl rfl rfl rfl ?_⟩
  · refine ⟨sound.states, fun isBlocked _ => ?_, by simp, ?_⟩
    · exact sound.blocked isBlocked (.inr (by simp [has]))
    · intro block isFrame
      exact (sound.noFrame running isFrame).elim
  · exact onWay_of_unsettled (by rw [running]; exact id) id

theorem Keeps.finish (keeps : runtime.Keeps contents)
    (able : runtime.atHand proc = some (.running proc)) :
    ∃ next, runtime.finish proc = some next ∧ next.Keeps contents ∧
      Effect runtime .quiet next := by
  obtain ⟨name, isName, running⟩ := exists_of_atHand able
  have has := (keeps.handed proc name).mp isName
  have sound := keeps.tasks name
  rw [Runtime.finish, isName, Option.map_some]
  refine ⟨_, rfl, keeps.setOwn has rfl rfl ?_, .of_task rfl rfl rfl rfl ?_⟩
  · refine ⟨by simp, by simp, by simp, ?_⟩
    intro block isFrame
    exact (sound.noFrame running isFrame).elim
  · exact onWay_of_unsettled (by rw [running]; exact id) id

theorem Keeps.tryBlockWait (keeps : runtime.Keeps contents) (block : β) :
    (runtime.tryBlockWait block).2.Keeps contents ∧
      Effect runtime (runtime.tryBlockWait block).1
        (runtime.tryBlockWait block).2 := by
  unfold Runtime.tryBlockWait
  split
  · rename_i signal
    exact ⟨keeps.setWakeup (Nat.sub_le _ 1), .take (.inl rfl) signal⟩
  · exact ⟨keeps, .quiet rfl rfl rfl fun _ _ => .rfl⟩

/-- A processer puts its task back to its queue. -/
theorem Keeps.putBack (keeps : runtime.Keeps contents)
    (isName : runtime.hand proc = some name) :
    ∃ pool after, runtime.push (.run proc) name =
        some { runtime with pool := pool } ∧
      (({ runtime with pool := pool }.setTask name
        { runtime.task name with phase := .ready }).setHand proc none).Keeps
          after := by
  have has := (keeps.handed proc name).mp isName
  obtain ⟨unmarked, alive, unwatched, _, _⟩ := Phase.of_proc has
  let changed : Task β π := { runtime.task name with phase := .ready }
  have marked : changed.phase.mark = some (Line.run proc : Line β π).mark :=
    rfl
  obtain ⟨pool, after, pushed, represents, placed, isQueue⟩ :=
    keeps.push _ unmarked alive marked
  refine ⟨pool, after, pushed, represents, placed, ?_, ?_, ?_,
    signals_run keeps.signals isQueue⟩
  · exact keeps.handed.drop isName rfl
  · apply forall_setTask keeps.tasks
    have sound := keeps.tasks name
    refine ⟨sound.states, fun isBlocked _ =>
      sound.blocked isBlocked (.inr (by simp [has])), by simp, ?_⟩
    intro block isFrame timedOut
    exact absurd timedOut (by simp [sound.inTime has isFrame])
  · apply keeps.timed.setUnwatched unwatched
    · simp
    · exact .inl rfl
    · simp

theorem Keeps.grant (keeps : runtime.Keeps contents)
    (able : runtime.atHand proc = some (.granted proc)) :
    ∃ next after, runtime.grant proc = some next ∧ next.Keeps after ∧
      Effect runtime .quiet next := by
  obtain ⟨name, isName, granted⟩ := exists_of_atHand able
  obtain ⟨pool, after, pushed, nextKeeps⟩ := keeps.putBack isName
  rw [Runtime.grant, isName, Option.bind_some, pushed, Option.map_some]
  refine ⟨_, after, rfl, nextKeeps, .of_task rfl rfl rfl rfl ?_⟩
  exact onWay_of_settled (by rw [granted]; trivial) trivial rfl rfl

theorem Keeps.give (keeps : runtime.Keeps contents) (block : β) (name : τ) :
    (runtime.give block name).Keeps contents := by
  unfold Runtime.give
  split
  · exact ⟨keeps.represents, keeps.placed, keeps.handed, keeps.tasks,
      keeps.timed, keeps.signals⟩
  · exact ⟨keeps.represents, keeps.placed, keeps.handed, keeps.tasks,
      keeps.timed, keeps.signals⟩

omit [DecidableEq τ] [DecidableEq π] in
theorem task_give (block : β) (name : τ) :
    (runtime.give block name).task = runtime.task := by
  unfold Runtime.give
  split <;> rfl

omit [DecidableEq τ] [DecidableEq π] in
theorem wakeup_give (block : β) (name : τ) :
    (runtime.give block name).wakeup = runtime.wakeup := by
  unfold Runtime.give
  split <;> rfl

omit [DecidableEq τ] [DecidableEq π] in
/-- Only the frame and the tasks on their way matter to a signal. -/
theorem ways_give {other : Runtime τ β π}
    (same : other.task = runtime.task ∧ other.onWay = runtime.onWay ∧
      other.lost = runtime.lost) (block : β) (name : τ) :
    (other.give block name).onWay = (runtime.give block name).onWay ∧
      (other.give block name).lost = (runtime.give block name).lost := by
  obtain ⟨task, onWay, lost⟩ := same
  unfold Runtime.give
  rw [task, onWay, lost]
  split
  · exact ⟨rfl, rfl⟩
  · exact ⟨rfl, rfl⟩

omit [DecidableEq τ] in
/-- A task joins the queue of a block object that has no signal. -/
theorem signals_wait {queue changed : Line β π → List (Hook (Line β π) τ)}
    {elements : List (Hook (Line β π) τ)} {wakeup : β → Nat}
    (signals : ∀ {block}, 0 < wakeup block → queue (.wait block) = [])
    (none : ¬ 0 < wakeup block)
    (isQueue : changed = Function.update queue (.wait block) elements)
    {other : β} (signal : 0 < wakeup other) : changed (.wait other) = [] := by
  have different : other ≠ block := by
    intro same
    exact none (same ▸ signal)
  rw [isQueue, Function.update_of_ne (by simpa using different)]
  exact signals signal

omit [DecidableEq π] in
/-- A task that was given a signal of the object it looks at. -/
theorem Given.of_setTask {next : Runtime τ β π} {changed : Task β π}
    (onWay : next.onWay = (runtime.give block name).onWay)
    (lost : next.lost = (runtime.give block name).lost)
    (isTask : next.task = Function.update runtime.task name changed)
    (waits : (runtime.task name).Waits)
    (unsettled : ¬ (runtime.task name).phase.Settled)
    (inWait : ∀ other, (runtime.task name).frame = some other →
      other = block ∧ (runtime.task name).isBlockTimeout = false)
    (frame : changed.frame = (runtime.task name).frame)
    (timeout : changed.isBlockTimeout = (runtime.task name).isBlockTimeout)
    (settled : changed.phase.Settled) : Given runtime block name next where
  onWay := onWay
  lost := lost
  others other different := by rw [isTask, Function.update_of_ne different]
  waits := waits
  unsettled := unsettled
  frame other isFrame := (inWait other isFrame).1
  settled other := by
    rw [isTask, Function.update_self, Task.OnWay, frame, timeout]
    constructor
    · intro way
      exact way.1
    · intro isFrame
      exact ⟨isFrame, (inWait other isFrame).2, settled⟩

/-- A processer hands its task to a block object. -/
theorem Keeps.addWaitTask (keeps : runtime.Keeps contents)
    (isName : runtime.hand proc = some name)
    (leaving : (runtime.task name).phase = .leaving proc)
    (blocked : (runtime.task name).state = .sysBlock)
    (isBlock : (runtime.task name).block = some block) :
    ∃ waits next after,
      runtime.addWaitTask block name = some (waits, next) ∧
      (if waits then next.setHand proc none
        else next.setTask name
          { runtime.task name with phase := .granted proc }).Keeps after ∧
      Effect runtime .quiet (if waits then next.setHand proc none
        else next.setTask name
          { runtime.task name with phase := .granted proc }) := by
  have has := (keeps.handed proc name).mp isName
  have sound := keeps.tasks name
  have inWait (other : β) (isFrame : (runtime.task name).frame = some other) :
      other = block ∧ (runtime.task name).isBlockTimeout = false := by
    have inWait := sound.inWait isFrame
    simp only [Task.InWait, leaving, isBlock, Option.some.injEq] at inWait
    exact ⟨inWait.2.1.symm, inWait.2.2⟩
  have unsettled : ¬ (runtime.task name).phase.Settled := by
    rw [leaving]
    exact id
  rw [Runtime.addWaitTask]
  by_cases signal : 0 < runtime.wakeup block
  · rw [if_pos signal]
    refine ⟨false, _, contents, rfl, ?_, ?_⟩
    · have given := (keeps.setWakeup
        (Nat.sub_le (runtime.wakeup block) 1)).give block name
      have same : ((runtime.setWakeup block
          (runtime.wakeup block - 1)).give block name).task name =
          runtime.task name := by
        rw [task_give]
        rfl
      refine given.setOwn (by rw [same]; exact has) rfl (by rw [same]) ?_
      refine ⟨sound.states, fun isBlocked _ =>
        sound.blocked isBlocked (.inr (by simp [has])), by simp, ?_⟩
      intro other isFrame
      exact (inWait other isFrame).2
    · let taken := runtime.setWakeup block (runtime.wakeup block - 1)
      have same : taken.task = runtime.task ∧
          taken.onWay = runtime.onWay ∧ taken.lost = runtime.lost :=
        ⟨rfl, rfl, rfl⟩
      have ways := ways_give same block name
      have isTask : (taken.give block name).task = runtime.task :=
        task_give block name
      refine .grant signal (wakeup_give block name) (.of_setTask ways.1 ways.2
        (congrArg (Function.update · name _) isTask)
        (by simpa [Task.Waits, leaving] using blocked) unsettled inWait rfl
        rfl trivial)
  · rw [if_neg signal]
    obtain ⟨unmarked, alive, unwatched, _, _⟩ := Phase.of_proc has
    have soundWaiting (timer : Option Nat) : TaskSound
        { runtime.task name with
          phase := .waiting block, blockTimer := timer } := by
      refine ⟨sound.states, by simp [Phase.proc], ?_, ?_⟩
      · intro other waits
        rw [← Phase.waiting.inj waits]
        exact isBlock
      · intro other isFrame
        exact ⟨(inWait other isFrame).1.symm, (inWait other isFrame).2⟩
    by_cases untimed : (runtime.task name).blockTimeout = 0
    · let changed : Task β π :=
        { runtime.task name with phase := .waiting block }
      have marked : changed.phase.mark =
          some (Line.wait block : Line β π).mark := rfl
      obtain ⟨pool, after, pushed, represents, placed, isQueue⟩ :=
        keeps.push _ unmarked alive marked
      rw [pushed, Option.map_some, if_pos untimed]
      refine ⟨true, _, after, rfl, ⟨represents, placed, ?_, ?_, ?_,
        signals_wait keeps.signals signal isQueue⟩,
        .of_task rfl rfl rfl rfl (onWay_of_unsettled unsettled id)⟩
      · exact keeps.handed.drop isName rfl
      · exact forall_setTask keeps.tasks (soundWaiting _)
      · apply keeps.timed.setUnwatched unwatched
        · simp
        · exact .inl rfl
        · intro other _
          exact untimed
    · let changed : Task β π := { runtime.task name with
        phase := .waiting block, blockTimer := some runtime.timers.length }
      let timer : CoTimer τ β := {
        task := name
        blockSequence := (runtime.task name).blockSequence
        block := block }
      have marked : changed.phase.mark =
          some (Line.wait block : Line β π).mark := rfl
      obtain ⟨pool, after, pushed, represents, placed, isQueue⟩ :=
        keeps.push _ unmarked alive marked
      rw [pushed, Option.map_some, if_neg untimed]
      refine ⟨true, _, after, rfl, ⟨?_, placed, ?_, ?_, ?_,
        signals_wait keeps.signals signal isQueue⟩,
        .of_task rfl rfl rfl rfl (onWay_of_unsettled unsettled id)⟩
      · have owned : owners (Function.update runtime.task name changed)
            (runtime.timers ++ [timer]) = Function.update _ (.task name) _ :=
          owners_append rfl
        have counted := represents.incrementRef (.task name)
        rwa [← owned] at counted
      · exact keeps.handed.drop isName rfl
      · exact forall_setTask keeps.tasks (soundWaiting _)
      · exact keeps.timed.append unwatched rfl rfl rfl rfl rfl rfl untimed

theorem Keeps.switch (keeps : runtime.Keeps contents)
    (able : runtime.atHand proc = some (.leaving proc)) :
    ∃ next after, runtime.switch proc = some next ∧ next.Keeps after ∧
      Effect runtime .quiet next := by
  obtain ⟨name, isName, leaving⟩ := exists_of_atHand able
  have has := (keeps.handed proc name).mp isName
  have sound := keeps.tasks name
  obtain ⟨unmarked, alive, unwatched, _, _⟩ := Phase.of_proc has
  have noFrame (notBlocked : (runtime.task name).state ≠ .sysBlock)
      {block : β} : (runtime.task name).frame ≠ some block := by
    intro isFrame
    have inWait := sound.inWait isFrame
    simp [Task.InWait, leaving, notBlocked] at inWait
  have ends (notBlocked : (runtime.task name).state ≠ .sysBlock) :
      ∃ next after, some (((runtime.setTask name
        { runtime.task name with phase := .free }).decrementRef name).setHand
          proc none) = some next ∧ next.Keeps after ∧
        Effect runtime .quiet next := by
    refine ⟨_, contents, rfl, ⟨?_, ?_, ?_, ?_, ?_, keeps.signals⟩,
      .of_task rfl rfl rfl rfl
        (onWay_of_unsettled (by rw [leaving]; exact id) id)⟩
    · have owned : owners (Function.update runtime.task name
          { runtime.task name with phase := .free }) runtime.timers =
          Function.update (owners runtime.task runtime.timers) (.task name)
            (owners runtime.task runtime.timers (.task name) - 1) := by
        rw [owners_update fun _ _ => rfl]
        simp [owners, alive.1, alive.2]
      have positive : 0 < owners runtime.task runtime.timers
          (.task name : Hook (Line β π) τ) := by
        simp only [owners, if_neg alive.1]
        omega
      have represents := keeps.represents.decrementRef positive
      rwa [← owned] at represents
    · exact keeps.placed.setTask unmarked.symm
    · exact keeps.handed.drop isName rfl
    · apply forall_setTask keeps.tasks
      exact ⟨sound.states, by simp [Phase.proc], by simp,
        fun isFrame => absurd isFrame (noFrame notBlocked)⟩
    · apply keeps.timed.setUnwatched unwatched
      · simp
      · exact .inl rfl
      · simp
  rw [Runtime.switch, isName, Option.bind_some]
  dsimp only
  split
  · rename_i isState
    obtain ⟨pool, after, pushed, nextKeeps⟩ := keeps.putBack isName
    rw [pushed, Option.map_some]
    refine ⟨_, after, rfl, nextKeeps, .of_task rfl rfl rfl rfl ?_⟩
    intro block
    refine iff_of_false ?_ ?_
    · intro way
      exact noFrame (by simp [isState]) way.1
    · intro way
      exact noFrame (by simp [isState]) way.1
  · rename_i isState
    have isBlock := sound.blocked isState (.inr (by simp [has]))
    obtain ⟨block, isBlock⟩ := Option.ne_none_iff_exists'.mp isBlock
    obtain ⟨waits, next, after, added, nextKeeps⟩ :=
      keeps.addWaitTask isName leaving isState isBlock
    refine ⟨_, after, Option.bind_eq_some_iff.mpr ⟨block, isBlock, ?_⟩,
      nextKeeps⟩
    rw [added]
    rfl
  · rename_i isState
    exact absurd isState sound.states.1
  · rename_i isState
    exact absurd isState sound.states.2
  · rename_i isState
    exact ends (by simp [isState])
  · rename_i isState
    exact ends (by simp [isState])
  · rename_i isState
    exact ends (by simp [isState])

theorem Keeps.wake (keeps : runtime.Keeps contents) (maxWakeup : β → Nat)
    (block : β) :
    ∃ answer next after, runtime.wake maxWakeup block = some (answer, next) ∧
      next.Keeps after ∧ Effect runtime answer next := by
  rcases keeps.placed.pop keeps.represents (.wait block) with
    ⟨pool, empty, popped, represents⟩ |
    ⟨name, rest, pool, after, isFirst, popped, marked, represents, placed,
      isQueue⟩
  · simp only [Runtime.wake, popped]
    split
    · refine ⟨_, _, contents, rfl, ⟨represents, keeps.placed, keeps.handed,
        keeps.tasks, keeps.timed, ?_⟩, .post rfl rfl rfl rfl⟩
      intro other signal
      by_cases isBlock : other = block
      · rw [isBlock]
        exact empty
      · apply keeps.signals
        simpa [Runtime.setWakeup, isBlock] using signal
    · exact ⟨_, _, contents, rfl, ⟨represents, keeps.placed, keeps.handed,
        keeps.tasks, keeps.timed, keeps.signals⟩,
        .quiet rfl rfl rfl fun _ _ => .rfl⟩
  · have waiting : (runtime.task name).phase = .waiting block :=
      Phase.waiting_of_mark marked
    have sound := keeps.tasks name
    have inWait (other : β) (isFrame : (runtime.task name).frame = some other) :
        other = block ∧ (runtime.task name).isBlockTimeout = false := by
      have inWait := sound.inWait isFrame
      simp only [Task.InWait, waiting] at inWait
      exact ⟨inWait.1.symm, inWait.2⟩
    have noSignal : ¬ 0 < runtime.wakeup block := by
      intro signal
      simp [keeps.signals signal] at isFirst
    let changed : Task β π := { runtime.task name with phase := .woken block }
    have woken : { runtime with
        pool := pool
        task := Function.update runtime.task name changed }.Keeps after := by
      refine ⟨?_, placed rfl, ?_, ?_, ?_, signals_wait keeps.signals noSignal
        isQueue⟩
      · have owned : owners (Function.update runtime.task name changed)
            runtime.timers = owners runtime.task runtime.timers :=
          owners_setTask (by simp [changed, waiting])
            (by simp [changed, waiting])
        exact owned ▸ represents
      · exact keeps.handed.setTask (by rw [waiting]; rfl)
      · apply forall_setTask keeps.tasks
        refine ⟨sound.states, by simp [changed, Phase.proc],
          by simp [changed], ?_⟩
        intro other isFrame
        exact ⟨(inWait other isFrame).1.symm, (inWait other isFrame).2⟩
      · apply keeps.timed.setTask
        · intro index timer present same
          subst same
          have sound := keeps.timed.sound present
          refine ⟨sound.idle, sound.current, ?_, sound.sequence,
            sound.timeout, ?_⟩
          · intro live
            have inWait := sound.inWait live
            simp only [waiting, Phase.waiting.injEq, reduceCtorEq, or_false]
              at inWait
            exact .inr (by rw [← inWait])
          · intro holding
            have held := sound.held holding
            simp [waiting] at held
        · simp [changed]
        · intro index isTimer
          exact keeps.timed.known isTimer
        · simp [changed]
    let popper : Runtime τ β π := { runtime with pool := pool }
    have same : popper.task = runtime.task ∧
        popper.onWay = runtime.onWay ∧ popper.lost = runtime.lost :=
      ⟨rfl, rfl, rfl⟩
    have ways := ways_give same block name
    have isTask : (popper.give block name).task = runtime.task :=
      task_give block name
    simp only [Runtime.wake, popped]
    refine ⟨_, _, after, rfl, ?_, .wake (wakeup_give block name) (.of_setTask
      ways.1 ways.2 (congrArg (Function.update · name _) isTask)
      (by simp [Task.Waits, waiting]) ?_ inWait rfl rfl trivial)⟩
    · unfold Runtime.give
      split
      · exact ⟨woken.represents, woken.placed, woken.handed, woken.tasks,
          woken.timed, woken.signals⟩
      · exact ⟨woken.represents, woken.placed, woken.handed, woken.tasks,
          woken.timed, woken.signals⟩
    · rw [waiting]
      exact id

/-- A woken task is made ready to be added when no timer works on it. -/
theorem Keeps.setUnhooked (keeps : runtime.Keeps contents)
    (woken : (runtime.task name).phase = .woken block)
    {changed : Task β π} (isChanged : changed = { runtime.task name with
      phase := .unhooked, block := none, blockTimer := none })
    (dead : ∀ {index : Nat} {timer : CoTimer τ β},
      runtime.timers[index]? = some timer → timer.task = name →
      ¬ timer.Live) :
    (runtime.setTask name changed).Keeps contents ∧
      Effect runtime .quiet (runtime.setTask name changed) := by
  subst isChanged
  refine ⟨⟨?_, ?_, ?_, ?_, ?_, keeps.signals⟩, .of_task rfl rfl rfl rfl
    (onWay_of_settled (by rw [woken]; trivial) trivial rfl rfl)⟩
  · have owned : owners (Function.update runtime.task name
        { runtime.task name with
          phase := .unhooked, block := none, blockTimer := none })
        runtime.timers = owners runtime.task runtime.timers :=
      owners_setTask (by simp [woken]) (by simp [woken])
    exact owned ▸ keeps.represents
  · exact keeps.placed.setTask (by rw [woken]; rfl)
  · exact keeps.handed.setTask (by rw [woken]; rfl)
  · apply forall_setTask keeps.tasks
    have sound := keeps.tasks name
    refine ⟨sound.states, by simp [Phase.proc], by simp, ?_⟩
    intro other isFrame
    have inWait := sound.inWait isFrame
    simp only [Task.InWait, woken] at inWait
    exact inWait.2
  · apply keeps.timed.setTask
    · intro index timer present same
      have sound := keeps.timed.sound present
      refine .of_dead sound.idle ⟨dead present same, ?_⟩
      intro holding
      have held := sound.held holding
      simp [same, woken] at held
    · simp
    · simp
    · simp

theorem Keeps.cancelTimer (keeps : runtime.Keeps contents)
    (able : runtime.Able (.cancelTimer name)) :
    ∃ next, runtime.cancelTimer name = some next ∧ next.Keeps contents ∧
      Effect runtime .quiet next := by
  obtain ⟨isWoken, unlocked⟩ := able
  obtain ⟨block, woken⟩ : ∃ block,
      (runtime.task name).phase = .woken block := by
    cases isPhase : (runtime.task name).phase <;>
      simp [isPhase, Phase.isWoken] at isWoken ⊢
  simp only [Runtime.cancelTimer]
  split
  · rename_i noTimer
    refine ⟨_, rfl, keeps.setUnhooked woken ?_ ?_⟩
    · have noTimer : (runtime.task name).blockTimer = none := noTimer
      rw [noTimer]
    intro index timer present same live
    have current := (keeps.timed.sound present).current live
    simp [same, noTimer] at current
  · rename_i index isTimer
    have known := keeps.timed.known isTimer
    obtain ⟨timer, present, isTask⟩ := Option.map_eq_some_iff.mp known
    have idle : timer.phase = .idle := by
      simpa [isTimer, Runtime.timerPhase, present] using unlocked
    have sound := keeps.timed.sound present
    subst isTask
    rw [present, Option.map_some]
    split
    · rename_i active
      let changed : Task β π := { runtime.task timer.task with
        block := none, phase := .cancelled }
      let inactive : CoTimer τ β := { timer with active := false }
      have same : inactive.task = timer.task := rfl
      have dead : ¬ inactive.Live ∧ inactive.phase ≠ .holding := by
        simp [CoTimer.Live, inactive, idle]
      have pending : timer.pending := by
        simp [CoTimer.pending, active]
      have settled : inactive.pending = false := by
        simp [CoTimer.pending, inactive, idle]
      refine ⟨_, rfl, ⟨?_, ?_, ?_, ?_, ?_, keeps.signals⟩,
        .of_task rfl rfl rfl rfl
          (onWay_of_settled (by rw [woken]; trivial) trivial rfl rfl)⟩
      · obtain ⟨owned, positive⟩ :=
          owners_settle present same pending settled runtime.task changed
        have total : owners (Function.update runtime.task timer.task changed)
            (runtime.timers.set index inactive) =
            owners runtime.task runtime.timers := by
          rw [owned, Function.update_eq_self_iff]
          simp only [owners, changed, woken, reduceCtorEq, if_true, if_false]
          omega
        exact total ▸ keeps.represents
      · exact keeps.placed.setTask (by rw [woken]; rfl)
      · exact keeps.handed.setTask (by rw [woken]; rfl)
      · apply forall_setTask keeps.tasks
        have sound := keeps.tasks timer.task
        refine ⟨sound.states, by simp [Phase.proc], by simp, ?_⟩
        intro other isFrame
        have inWait := sound.inWait isFrame
        simp only [Task.InWait, woken] at inWait
        exact inWait.2
      · apply keeps.timed.setTimer present same
        · exact .of_dead (fun _ => idle) dead
        · intro other second isSecond different same
          exact .of_dead (keeps.timed.sound isSecond).idle
            (keeps.timed.dead_of_other present (.inl (.inl active)) isSecond
              different same)
        · simp
        · intro other isOther
          exact keeps.timed.known isOther
        · simp
    · rename_i inactive
      refine ⟨_, rfl, keeps.setUnhooked woken rfl ?_⟩
      intro other second isSecond same live
      have current := (keeps.timed.sound isSecond).current live
      rw [same, isTimer] at current
      obtain rfl := Option.some.inj current
      rw [present] at isSecond
      obtain rfl := Option.some.inj isSecond
      simp [CoTimer.Live, inactive, idle] at live

theorem Keeps.releaseTimer (keeps : runtime.Keeps contents)
    (able : (runtime.task name).phase = .cancelled) :
    (runtime.releaseTimer name).Keeps contents ∧
      Effect runtime .quiet (runtime.releaseTimer name) := by
  let changed : Task β π := { runtime.task name with
    phase := .unhooked, blockTimer := none }
  refine ⟨⟨?_, ?_, ?_, ?_, ?_, keeps.signals⟩, .of_task rfl rfl rfl rfl
    (onWay_of_settled (by rw [able]; trivial) trivial rfl rfl)⟩
  · have owned : owners (Function.update runtime.task name changed)
        runtime.timers = Function.update
          (owners runtime.task runtime.timers) (.task name)
          (owners runtime.task runtime.timers (.task name) - 1) := by
      rw [owners_update fun _ _ => rfl]
      simp [owners, changed, able]
    have positive : 0 < owners runtime.task runtime.timers
        (.task name : Hook (Line β π) τ) := by
      simp [owners, able]
    have represents := keeps.represents.decrementRef positive
    rwa [← owned] at represents
  · exact keeps.placed.setTask (by rw [able]; rfl)
  · exact keeps.handed.setTask (by rw [able]; rfl)
  · apply forall_setTask keeps.tasks
    have sound := keeps.tasks name
    refine ⟨sound.states, by simp [Phase.proc], by simp, ?_⟩
    intro other isFrame
    have inWait := sound.inWait isFrame
    simp only [Task.InWait, able] at inWait
    exact inWait
  · apply keeps.timed.setUnwatched
    · rw [able]
      exact id
    · simp
    · exact .inr rfl
    · simp

/-- A step of a timer that its task does not see. -/
theorem Keeps.setTimer (keeps : runtime.Keeps contents) {index : Nat}
    {timer changed : CoTimer τ β}
    (present : runtime.timers[index]? = some timer)
    (same : changed.task = timer.task)
    (pending : changed.pending = timer.pending)
    (timed : Timed runtime.task (runtime.timers.set index changed)) :
    (runtime.setTimer index changed).Keeps contents ∧
      Effect runtime .quiet (runtime.setTimer index changed) := by
  refine ⟨⟨?_, keeps.placed, keeps.handed, keeps.tasks, timed, keeps.signals⟩,
    .quiet rfl rfl rfl fun _ _ => .rfl⟩
  have owned : owners runtime.task (runtime.timers.set index changed) =
      owners runtime.task runtime.timers :=
    owners_setTimer present same pending
  exact owned ▸ keeps.represents

omit [DecidableEq τ] [DecidableEq β] [DecidableEq π] in
theorem exists_of_timerPhase {index : Nat} {phase : TimerPhase}
    (able : runtime.timerPhase index = some phase) :
    ∃ timer, runtime.timers[index]? = some timer ∧ timer.phase = phase :=
  Option.map_eq_some_iff.mp able

theorem Keeps.expire (keeps : runtime.Keeps contents) {index : Nat}
    {timer : CoTimer τ β} (present : runtime.timers[index]? = some timer) :
    ∃ next, runtime.expire index = some next ∧
      (next.Keeps contents ∧ Effect runtime .quiet next) ∧
      (timer.active → next = runtime.setTimer index
        { timer with active := false, phase := .entered }) := by
  rw [Runtime.expire, present, Option.map_some]
  split
  · rename_i active
    let entered : CoTimer τ β :=
      { timer with active := false, phase := .entered }
    have isTask : entered.task = timer.task := rfl
    have pending : entered.pending = timer.pending := by
      simp [CoTimer.pending, entered, active]
    refine ⟨_, rfl, keeps.setTimer present isTask pending ?_, fun _ => rfl⟩
    apply keeps.timed.advance present rfl (.inl active)
    · simp
    · simp
    · exact .inl (.inr (.inl rfl))
  · rename_i inactive
    exact ⟨_, rfl, ⟨keeps, .quiet rfl rfl rfl fun _ _ => .rfl⟩,
      fun active => absurd active inactive⟩

/-- A timer whose function runs is not active. -/
theorem Keeps.inactive (keeps : runtime.Keeps contents) {index : Nat}
    {timer : CoTimer τ β} (present : runtime.timers[index]? = some timer)
    (runs : timer.phase ≠ .idle) : timer.active = false := by
  by_contra active
  exact runs ((keeps.timed.sound present).idle (by simpa using active))

/-- The comparison of the sequences never fails. -/
theorem Keeps.compare (keeps : runtime.Keeps contents) {index : Nat}
    {timer : CoTimer τ β} (present : runtime.timers[index]? = some timer)
    (entered : timer.phase = .entered) :
    runtime.compare index =
        some (runtime.setTimer index { timer with phase := .matched }) ∧
      (runtime.setTimer index { timer with phase := .matched }).Keeps
        contents ∧
      Effect runtime .quiet
        (runtime.setTimer index { timer with phase := .matched }) := by
  have sound := keeps.timed.sound present
  have live : timer.Live := .inr (.inl entered)
  let matching : CoTimer τ β := { timer with phase := .matched }
  have isTask : matching.task = timer.task := rfl
  have pending : matching.pending = timer.pending := by
    simp [CoTimer.pending, matching, entered]
  have inactive := keeps.inactive present (by simp [entered])
  refine ⟨?_, keeps.setTimer present isTask pending ?_⟩
  · rw [Runtime.compare, present, Option.map_some,
      if_pos (sound.sequence live)]
  · apply keeps.timed.advance present rfl live
    · simp [inactive]
    · simp
    · exact .inl (.inr (.inr rfl))

theorem Keeps.cancelWait (keeps : runtime.Keeps contents) {index : Nat}
    {timer : CoTimer τ β} (present : runtime.timers[index]? = some timer)
    (matching : timer.phase = .matched) :
    ∃ next after, runtime.cancelWait index = some next ∧
      (next.Keeps after ∧ Effect runtime .quiet next) ∧
      ((runtime.task timer.task).phase = .waiting timer.block ∧
          next.timers = runtime.timers.set index
            { timer with phase := .holding } ∨
        (runtime.task timer.task).phase = .woken timer.block ∧
          next.task = runtime.task ∧
          next.timers = runtime.timers.set index
            { timer with phase := .leaving }) := by
  have sound := keeps.timed.sound present
  have live : timer.Live := .inr (.inr matching)
  have inactive := keeps.inactive present (by simp [matching])
  let leaving : CoTimer τ β := { timer with phase := .leaving }
  have isTask : leaving.task = timer.task := rfl
  have pending : leaving.pending = timer.pending := by
    simp [CoTimer.pending, leaving, matching]
  have pool_keeps {pool : Pool (Line β π) π (Hook (Line β π) τ) (Mark β)}
      (represents : Represents Hook.head Line.mark
        (owners runtime.task runtime.timers) pool contents) :
      { runtime with pool := pool }.Keeps contents :=
    ⟨represents, keeps.placed, keeps.handed, keeps.tasks, keeps.timed,
      keeps.signals⟩
  have sameSequence : ¬ (runtime.task timer.task).blockSequence ≠
      timer.blockSequence := not_not.mpr (sound.sequence live)
  rw [Runtime.cancelWait, present, Option.bind_some]
  dsimp only
  rw [if_neg sameSequence]
  rcases keeps.placed.erase keeps.represents timer.block timer.task with
    ⟨pool, notWaiting, erased, represents⟩ |
    ⟨pool, after, marked, member, erased, represents, placed, isQueue⟩
  · -- The task is woken already.
    have woken : (runtime.task timer.task).phase = .woken timer.block := by
      rcases sound.inWait live with waiting | woken
      · exact absurd (by rw [waiting]; rfl) notWaiting
      · exact woken
    have timed : Timed runtime.task (runtime.timers.set index leaving) := by
      apply keeps.timed.advance present rfl live
      · simp [leaving, inactive]
      · simp [leaving]
      · exact .inr ⟨_, woken⟩
    split
    · exact ⟨_, contents, rfl, keeps.setTimer present isTask pending timed,
        .inr ⟨woken, rfl, rfl⟩⟩
    · rw [erased]
      obtain ⟨nextKeeps, _⟩ :=
        (pool_keeps represents).setTimer present isTask pending timed
      exact ⟨_, contents, rfl,
        ⟨nextKeeps, .quiet rfl rfl rfl fun _ _ => .rfl⟩,
        .inr ⟨woken, rfl, rfl⟩⟩
  · have waiting : (runtime.task timer.task).phase = .waiting timer.block :=
      Phase.waiting_of_mark marked
    have isBlock := (keeps.tasks timer.task).waits waiting
    have noSignal : ¬ 0 < runtime.wakeup timer.block := by
      intro signal
      simp [keeps.signals signal] at member
    let changed : Task β π :=
      { runtime.task timer.task with phase := .erased index }
    let holding : CoTimer τ β := { timer with phase := .holding }
    have stillTask : holding.task = timer.task := rfl
    have held : holding.pending = timer.pending := by
      simp [CoTimer.pending, holding, matching]
    rw [if_neg (by simpa using isBlock), erased]
    refine ⟨_, after, rfl, ⟨⟨?_, placed rfl, ?_, ?_, ?_,
      signals_wait keeps.signals noSignal isQueue⟩, .of_task rfl rfl rfl rfl
        (onWay_of_unsettled (by rw [waiting]; exact id) id)⟩,
      .inl ⟨waiting, rfl⟩⟩
    · have owned : owners (Function.update runtime.task timer.task changed)
          (runtime.timers.set index holding) =
          owners runtime.task runtime.timers := by
        rw [owners_setTimer present stillTask held]
        exact owners_setTask (by simp [changed, waiting])
          (by simp [changed, waiting])
      exact owned ▸ represents
    · exact keeps.handed.setTask (by rw [waiting]; rfl)
    · apply forall_setTask keeps.tasks
      have sound := keeps.tasks timer.task
      refine ⟨sound.states, by simp [Phase.proc], by simp, ?_⟩
      intro other isFrame
      have inWait := sound.inWait isFrame
      simp only [Task.InWait, waiting] at inWait
      exact inWait.2
    · apply keeps.timed.setTimer present stillTask
      · have dead : ¬ holding.Live := by
          simp [CoTimer.Live, holding, inactive]
        exact ⟨by simp [holding, inactive], fun isLive => absurd isLive dead,
          fun isLive => absurd isLive dead,
          fun isLive => absurd isLive dead,
          fun _ => sound.timeout (.inl live), fun _ => rfl⟩
      · intro other second isSecond different same
        exact .of_dead (keeps.timed.sound isSecond).idle
          (keeps.timed.dead_of_other present (.inl live) isSecond different
            same)
      · intro other isErased
        exact .inl ⟨(Phase.erased.inj isErased).symm, rfl⟩
      · intro other isOther
        exact keeps.timed.known isOther
      · simp

/-- A task whose wait has timed out is ready again. -/
theorem Keeps.timeOut (keeps : runtime.Keeps contents) {index : Nat}
    {timer : CoTimer τ β} (present : runtime.timers[index]? = some timer)
    (isHolding : timer.phase = .holding) (dispatch : π) :
    ∃ next after, runtime.timeOut index dispatch = some next ∧
      (next.Keeps after ∧ Effect runtime .quiet next) ∧
      (next.task timer.task).phase = .ready ∧
      (next.task timer.task).isBlockTimeout = true := by
  have sound := keeps.timed.sound present
  have erased := sound.held isHolding
  have inactive := keeps.inactive present (by simp [isHolding])
  let leaving : CoTimer τ β := { timer with phase := .leaving }
  have pending : leaving.pending = timer.pending := by
    simp [CoTimer.pending, leaving, isHolding]
  let changed : Task β π := { runtime.task timer.task with
    phase := .ready
    state := .runnable
    block := none
    isBlockTimeout := true }
  let intermediate := (runtime.setTimer index leaving).setTask timer.task
    { runtime.task timer.task with block := none, isBlockTimeout := true }
  have marked : changed.phase.mark = some (Line.mark (.run
      ((intermediate.task timer.task).proc.getD dispatch))) := rfl
  obtain ⟨pool, after, pushed, represents, placed, isQueue⟩ :=
    keeps.push _ (by rw [erased]; rfl) (by simp [erased]) marked
  have isTask : leaving.task = timer.task := rfl
  rw [Runtime.timeOut, present, Option.bind_some]
  refine ⟨{ runtime with
    pool := pool
    task := Function.update runtime.task timer.task changed
    timers := runtime.timers.set index leaving }, after, ?_, ⟨⟨?_, placed, ?_,
    ?_, ?_, signals_run keeps.signals isQueue⟩, .of_task rfl rfl rfl rfl ?_⟩,
    ?_⟩
  · have added : intermediate.push _ timer.task =
        some { intermediate with pool := pool } := push_of_pool pushed rfl
    rw [Runtime.addTaskRunnable, added]
    simp only [Runtime.setTask, intermediate, Function.update_self,
      Function.update_idem, Option.map_some]
    rfl
  · have owned : owners (Function.update runtime.task timer.task changed)
        (runtime.timers.set index leaving) =
        owners (Function.update runtime.task timer.task changed)
          runtime.timers := owners_setTimer present isTask pending
    exact owned ▸ represents
  · exact keeps.handed.setTask (by rw [erased]; rfl)
  · apply forall_setTask keeps.tasks
    refine ⟨by simp [changed], by simp [changed], by simp [changed], ?_⟩
    intro block _ _
    exact sound.timeout (.inr isHolding)
  · apply keeps.timed.setTimer present isTask
    · refine .of_dead (by simp [leaving, inactive]) ?_
      simp [CoTimer.Live, leaving, inactive]
    · intro other second isSecond different same
      exact .of_dead (keeps.timed.sound isSecond).idle
        (keeps.timed.dead_of_other present (.inr isHolding) isSecond different
          same)
    · simp [changed]
    · intro other isOther
      exact keeps.timed.known isOther
    · simp [changed]
  · intro block
    refine iff_of_false ?_ ?_
    · intro way
      simp [Task.OnWay, changed] at way
    · intro way
      have settled := way.2.2
      rw [erased] at settled
      exact settled
  · simp [changed]

theorem Keeps.release (keeps : runtime.Keeps contents) {index : Nat}
    {timer : CoTimer τ β} (present : runtime.timers[index]? = some timer)
    (leaving : timer.phase = .leaving) :
    ∃ next, runtime.release index = some next ∧ next.Keeps contents ∧
      Effect runtime .quiet next := by
  have sound := keeps.timed.sound present
  have inactive := keeps.inactive present (by simp [leaving])
  let idle : CoTimer τ β := { timer with phase := .idle }
  have isTask : idle.task = timer.task := rfl
  have pending : timer.pending := by
    simp [CoTimer.pending, leaving]
  have settled : idle.pending = false := by
    simp [CoTimer.pending, idle, inactive]
  have notLive : ¬ timer.Live := by
    simp [CoTimer.Live, inactive, leaving]
  rw [Runtime.release, present, Option.map_some]
  refine ⟨_, rfl, ⟨?_, keeps.placed, keeps.handed, keeps.tasks, ?_,
    keeps.signals⟩, .quiet rfl rfl rfl fun _ _ => .rfl⟩
  · obtain ⟨owned, positive⟩ := owners_settle present isTask pending settled
      runtime.task (runtime.task timer.task)
    rw [Function.update_eq_self] at owned
    have total : owners runtime.task (runtime.timers.set index idle) =
        Function.update (owners runtime.task runtime.timers)
          (.task timer.task)
          (owners runtime.task runtime.timers
            (.task timer.task : Hook (Line β π) τ) - 1) := by
      rw [owned]
      congr 1
      simp only [owners]
      omega
    have held : 0 < owners runtime.task runtime.timers
        (.task timer.task : Hook (Line β π) τ) := by
      simp only [owners]
      omega
    have represents := keeps.represents.decrementRef held
    rwa [← total] at represents
  · have timed : Timed
        (Function.update runtime.task timer.task (runtime.task timer.task))
        (runtime.timers.set index idle) := by
      apply keeps.timed.setTimer present isTask
      · refine .of_dead (by simp [idle]) ?_
        simp [CoTimer.Live, idle, inactive]
      · intro other second isSecond _ same
        exact same ▸ keeps.timed.sound isSecond
      · intro other isErased
        refine .inr ⟨?_, isErased⟩
        intro isIndex
        obtain ⟨second, isSecond, _, holding⟩ := keeps.timed.erased isErased
        rw [isIndex, present] at isSecond
        rw [← Option.some.inj isSecond, leaving] at holding
        cases holding
      · intro other isOther
        exact keeps.timed.known isOther
      · intro block waits timeout
        exact .inr ⟨notLive, waits, timeout⟩
    rwa [Function.update_eq_self] at timed

theorem Keeps.stealHalf (keeps : runtime.Keeps contents)
    (victim : π) {thief : π} (able : (runtime.pool.list thief).head = none)
    (n : Nat) :
    ∃ next after, runtime.stealHalf victim thief n = some next ∧
      next.Keeps after ∧ Effect runtime .quiet next := by
  have empty : contents.list thief = [] := by
    have isHead := (keeps.represents.lists thief).head
    rw [able] at isHead
    exact List.head?_eq_none_iff.mp isHead.symm
  obtain ⟨pool, stepped, represents⟩ := keeps.represents.step
    (.popBack (.run victim) ((n + 1) / 2) thief empty)
  rw [Runtime.stealHalf, stepped]
  refine ⟨_, _, rfl, ⟨represents, ⟨keeps.placed.marks, ?_⟩, keeps.handed,
    keeps.tasks, keeps.timed, ?_⟩, .quiet rfl rfl rfl fun _ _ => .rfl⟩
  · intro other hook listed
    by_cases isThief : other = thief
    · subst isThief
      have taken : hook ∈ contents.queue (.run victim) := by
        simp only [Contents.split, Contents.putList_list,
          Function.update_self] at listed
        exact List.mem_of_mem_drop listed
      obtain ⟨name, rfl, marked⟩ := keeps.placed.of_mem keeps.represents taken
      exact (keeps.placed.marks name).trans marked
    · have stays : hook ∈ contents.list other := by
        simpa [Contents.split, isThief] using listed
      exact keeps.placed.lists stays
  · intro block signal
    simpa [Contents.split] using keeps.signals signal

theorem Keeps.unload (keeps : runtime.Keeps contents) (thief : π) :
    ∃ next after, runtime.unload thief = some next ∧ next.Keeps after ∧
      Effect runtime .quiet next := by
  have marked : ∀ hook ∈ contents.list thief,
      contents.mark hook = some (Line.run thief : Line β π).mark :=
    fun _ listed => keeps.placed.lists listed
  obtain ⟨pool, stepped, represents⟩ := keeps.represents.step
    (.pushList (.run thief) thief marked)
  rw [Runtime.unload, stepped]
  refine ⟨_, _, rfl, ⟨represents, ⟨keeps.placed.marks, ?_⟩, keeps.handed,
    keeps.tasks, keeps.timed, ?_⟩, .quiet rfl rfl rfl fun _ _ => .rfl⟩
  · intro other hook listed
    by_cases isThief : other = thief
    · subst isThief
      simp [Contents.split] at listed
    · have stays : hook ∈ contents.list other := by
        simpa [Contents.split, isThief] using listed
      exact keeps.placed.lists stays
  · intro block signal
    simpa [Contents.split] using keeps.signals signal

/-- Nothing follows a null pointer or fails an assertion. -/
theorem Keeps.exec (keeps : runtime.Keeps contents) (maxWakeup : β → Nat)
    {event : RuntimeEvent τ β π} (able : runtime.Able event) :
    ∃ answer next after, runtime.exec maxWakeup event = some (answer, next) ∧
      next.Keeps after ∧ Effect runtime answer next := by
  have quietly {result : Option (Runtime τ β π)}
      (ran : ∃ next after, result = some next ∧ next.Keeps after ∧
        Effect runtime .quiet next) :
      ∃ answer next after,
        result.map ((RuntimeAnswer.quiet : RuntimeAnswer β), ·) =
          some (answer, next) ∧ next.Keeps after ∧
        Effect runtime answer next := by
    obtain ⟨next, after, rfl, nextKeeps⟩ := ran
    exact ⟨_, next, after, rfl, nextKeeps⟩
  cases event with
  | createTask name =>
      exact ⟨_, _, contents, rfl, keeps.createTask able.1⟩
  | addTaskRunnable name dispatch =>
      exact quietly (keeps.addTaskRunnable able dispatch)
  | run proc => exact keeps.run able
  | coBlockWait proc block timeout =>
      obtain ⟨answer, next, waited, nextKeeps⟩ :=
        keeps.coBlockWait able block timeout
      exact ⟨answer, next, contents, waited, nextKeeps⟩
  | coYield proc =>
      obtain ⟨next, left, nextKeeps⟩ := keeps.coYield able
      exact quietly ⟨next, contents, left, nextKeeps⟩
  | finish proc =>
      obtain ⟨next, left, nextKeeps⟩ := keeps.finish able
      exact quietly ⟨next, contents, left, nextKeeps⟩
  | switch proc => exact quietly (keeps.switch able)
  | grant proc => exact quietly (keeps.grant able)
  | tryBlockWait block =>
      exact ⟨_, _, contents, rfl, keeps.tryBlockWait block⟩
  | wake block => exact keeps.wake maxWakeup block
  | cancelTimer name =>
      obtain ⟨next, cancelled, nextKeeps⟩ := keeps.cancelTimer able
      exact quietly ⟨next, contents, cancelled, nextKeeps⟩
  | releaseTimer name =>
      exact ⟨_, _, contents, rfl, keeps.releaseTimer able⟩
  | expire index =>
      obtain ⟨timer, present, _⟩ := exists_of_timerPhase able
      obtain ⟨next, expired, nextKeeps, _⟩ := keeps.expire present
      exact quietly ⟨next, contents, expired, nextKeeps⟩
  | compare index =>
      obtain ⟨timer, present, entered⟩ := exists_of_timerPhase able
      obtain ⟨compared, nextKeeps⟩ := keeps.compare present entered
      exact quietly ⟨_, contents, compared, nextKeeps⟩
  | cancelWait index =>
      obtain ⟨timer, present, matching⟩ := exists_of_timerPhase able
      obtain ⟨next, after, cancelled, nextKeeps, _⟩ :=
        keeps.cancelWait present matching
      exact quietly ⟨next, after, cancelled, nextKeeps⟩
  | timeOut index dispatch =>
      obtain ⟨timer, present, holding⟩ := exists_of_timerPhase able
      obtain ⟨next, after, timedOut, nextKeeps, _⟩ :=
        keeps.timeOut present holding dispatch
      exact quietly ⟨next, after, timedOut, nextKeeps⟩
  | release index =>
      obtain ⟨timer, present, leaving⟩ := exists_of_timerPhase able
      obtain ⟨next, released, nextKeeps⟩ := keeps.release present leaving
      exact quietly ⟨next, contents, released, nextKeeps⟩
  | stealHalf victim thief n => exact quietly (keeps.stealHalf victim able n)
  | unload thief => exact quietly (keeps.unload thief)

end Runtime

end Natsu.Libgo
