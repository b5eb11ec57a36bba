import Natsu.Libgo.Custody

/-!
# Where the signals go

A signal of a block object is kept, or a task takes it, or it goes to a task
that waits for it and is on its way until that task returns.  A task that has
yielded in the state of an earlier wait is given signals as well, and these
are lost.
-/

namespace Natsu.Libgo

open Natsu.Foundation

variable {τ β π : Type} [DecidableEq τ] [DecidableEq β]

namespace Runtime

variable {runtime next : Runtime τ β π} {answer : RuntimeAnswer β} {block : β}
  {name : τ}

/-- A signal of an object went to a task. -/
structure Given (runtime : Runtime τ β π) (block : β) (name : τ)
    (next : Runtime τ β π) : Prop where
  onWay : next.onWay = (runtime.give block name).onWay
  lost : next.lost = (runtime.give block name).lost
  others : ∀ other, other ≠ name → next.task other = runtime.task other
  waits : (runtime.task name).Waits
  unsettled : ¬ (runtime.task name).phase.Settled
  frame : ∀ other, (runtime.task name).frame = some other → other = block
  settled : ∀ other, (next.task name).OnWay other ↔
    (runtime.task name).frame = some other

/-- What a step does to the signals. -/
inductive Effect (runtime : Runtime τ β π) :
    RuntimeAnswer β → Runtime τ β π → Prop where
  | quiet {next : Runtime τ β π} (wakeup : next.wakeup = runtime.wakeup)
      (onWay : next.onWay = runtime.onWay) (lost : next.lost = runtime.lost)
      (ways : ∀ name block, (next.task name).OnWay block ↔
        (runtime.task name).OnWay block) :
      Effect runtime .quiet next
  | take {answer : RuntimeAnswer β} {block : β}
      (isAnswer : answer = .taken block ∨ answer = .returned block true)
      (signal : 0 < runtime.wakeup block) :
      Effect runtime answer
        (runtime.setWakeup block (runtime.wakeup block - 1))
  | post {next : Runtime τ β π} {block : β}
      (wakeup : next.wakeup =
        Function.update runtime.wakeup block (runtime.wakeup block + 1))
      (onWay : next.onWay = runtime.onWay) (lost : next.lost = runtime.lost)
      (task : next.task = runtime.task) :
      Effect runtime (.posted block) next
  | grant {next : Runtime τ β π} {block : β} {name : τ}
      (signal : 0 < runtime.wakeup block)
      (wakeup : next.wakeup =
        Function.update runtime.wakeup block (runtime.wakeup block - 1))
      (given : Given runtime block name next) : Effect runtime .quiet next
  | wake {next : Runtime τ β π} {block : β} {name : τ}
      (wakeup : next.wakeup = runtime.wakeup)
      (given : Given runtime block name next) :
      Effect runtime (.posted block) next
  | back {next : Runtime τ β π} {block : β} {name : τ} {changed : Task β π}
      (isFrame : (runtime.task name).frame = some block)
      (ready : (runtime.task name).phase = .ready)
      (wakeup : next.wakeup = runtime.wakeup)
      (onWay : next.onWay = Function.update runtime.onWay block
        ((runtime.onWay block).erase name))
      (lost : next.lost = runtime.lost)
      (task : next.task = Function.update runtime.task name changed)
      (noFrame : changed.frame = none) :
      Effect runtime (.returned block !(runtime.task name).isBlockTimeout)
        next

/-- A step on one task that gives it no signal and takes none from it. -/
theorem Effect.of_task {changed : Task β π}
    (task : next.task = Function.update runtime.task name changed)
    (wakeup : next.wakeup = runtime.wakeup)
    (onWay : next.onWay = runtime.onWay) (lost : next.lost = runtime.lost)
    (ways : ∀ block, changed.OnWay block ↔
      (runtime.task name).OnWay block) :
    Effect runtime .quiet next := by
  refine .quiet wakeup onWay lost ?_
  intro other block
  rw [task]
  by_cases same : other = name
  · rw [same, Function.update_self]
    exact ways block
  · rw [Function.update_of_ne same]

omit [DecidableEq τ] [DecidableEq β] in
theorem onWay_of_unsettled {task changed : Task β π}
    (before : ¬ task.phase.Settled) (after : ¬ changed.phase.Settled)
    (block : β) : changed.OnWay block ↔ task.OnWay block :=
  iff_of_false (fun way => after way.2.2) fun way => before way.2.2

omit [DecidableEq τ] [DecidableEq β] in
theorem onWay_of_settled {task changed : Task β π}
    (before : task.phase.Settled) (after : changed.phase.Settled)
    (frame : changed.frame = task.frame)
    (timeout : changed.isBlockTimeout = task.isBlockTimeout) (block : β) :
    changed.OnWay block ↔ task.OnWay block := by
  unfold Task.OnWay
  rw [frame, timeout, iff_true_intro before, iff_true_intro after]

/-- The tasks on their way are those that will return with a signal. -/
structure Accounted (runtime : Runtime τ β π) : Prop where
  ways : ∀ {block name}, name ∈ runtime.onWay block ↔
    (runtime.task name).OnWay block
  nodup : ∀ block, (runtime.onWay block).Nodup

/-- The signals of an object that are still there, on their way or lost. -/
def balance (runtime : Runtime τ β π) (block : β) : Nat :=
  runtime.wakeup block + (runtime.onWay block).length + runtime.lost block

omit [DecidableEq τ] [DecidableEq β] in
theorem Accounted.same (accounted : runtime.Accounted)
    (onWay : next.onWay = runtime.onWay)
    (ways : ∀ name block, (next.task name).OnWay block ↔
      (runtime.task name).OnWay block) : next.Accounted where
  ways := by
    intro block name
    rw [onWay, accounted.ways, ways]
  nodup block := by
    rw [onWay]
    exact accounted.nodup block

omit [DecidableEq τ] [DecidableEq β] in
theorem balance_same (wakeup : next.wakeup = runtime.wakeup)
    (onWay : next.onWay = runtime.onWay) (lost : next.lost = runtime.lost)
    (block : β) : next.balance block = runtime.balance block := by
  simp only [balance, wakeup, onWay, lost]

theorem Given.accounted (given : Given runtime block name next)
    (accounted : runtime.Accounted) : next.Accounted := by
  have before (other : β) : ¬ (runtime.task name).OnWay other :=
    fun way => given.unsettled way.2.2
  have notThere (other : β) : name ∉ runtime.onWay other := by
    rw [accounted.ways]
    exact before other
  have onWay := given.onWay
  unfold Runtime.give at onWay
  constructor
  · intro other who
    by_cases isName : who = name
    · subst isName
      rw [given.settled, onWay]
      split
      · rename_i isFrame
        rw [isFrame, Option.some.injEq]
        by_cases isBlock : block = other
        · simp [isBlock]
        · simp [isBlock, Ne.symm isBlock, notThere]
      · rename_i notFrame
        refine iff_of_false (notThere other) ?_
        intro isFrame
        exact notFrame (given.frame other isFrame ▸ isFrame)
    · rw [given.others who isName, ← accounted.ways, onWay]
      split
      · by_cases isBlock : other = block
        · simp [isBlock, isName]
        · simp [isBlock]
      · rfl
  · intro other
    rw [onWay]
    split
    · by_cases isBlock : other = block
      · simpa [isBlock] using
          ⟨notThere block, accounted.nodup block⟩
      · simpa [isBlock] using accounted.nodup other
    · exact accounted.nodup other

omit [DecidableEq τ] in
/-- The signal is on its way or lost. -/
theorem Given.balance (given : Given runtime block name next) (other : β) :
    (next.onWay other).length + next.lost other =
      (runtime.onWay other).length + runtime.lost other +
        if block = other then 1 else 0 := by
  rw [given.onWay, given.lost]
  unfold Runtime.give
  by_cases isBlock : block = other
  · subst isBlock
    split
    · simp
      omega
    · simp
      omega
  · rw [if_neg isBlock]
    split
    · simp [Ne.symm isBlock]
    · simp [Ne.symm isBlock]

/-- A task that has returned is not on its way. -/
theorem Accounted.back (accounted : runtime.Accounted) {changed : Task β π}
    (isFrame : (runtime.task name).frame = some block)
    (onWay : next.onWay = Function.update runtime.onWay block
      ((runtime.onWay block).erase name))
    (task : next.task = Function.update runtime.task name changed)
    (noFrame : changed.frame = none) : next.Accounted where
  ways := by
    intro other who
    by_cases isName : who = name
    · subst isName
      rw [task, Function.update_self, onWay]
      refine iff_of_false ?_ fun way => by simp [way.1] at noFrame
      by_cases isBlock : other = block
      · subst isBlock
        rw [Function.update_self]
        exact (accounted.nodup other).not_mem_erase
      · rw [Function.update_of_ne isBlock, accounted.ways]
        intro way
        exact isBlock (Option.some.inj (way.1.symm.trans isFrame))
    · rw [task, Function.update_of_ne isName, onWay, ← accounted.ways]
      by_cases isBlock : other = block
      · subst isBlock
        rw [Function.update_self, List.mem_erase_of_ne isName]
      · rw [Function.update_of_ne isBlock]
  nodup := by
    intro other
    rw [onWay]
    by_cases isBlock : other = block
    · subst isBlock
      rw [Function.update_self]
      exact (accounted.nodup other).erase name
    · rw [Function.update_of_ne isBlock]
      exact accounted.nodup other

/-- Where the signal of a step is afterwards. -/
theorem Effect.accounted (effect : Effect runtime answer next)
    (accounted : runtime.Accounted) :
    next.Accounted ∧ ∀ block,
      next.balance block + [answer].count (.returned block true) +
          [answer].count (.taken block) =
        runtime.balance block + [answer].count (.posted block) := by
  cases effect with
  | quiet wakeup onWay lost ways =>
      refine ⟨accounted.same onWay ways, fun block => ?_⟩
      simp [balance_same wakeup onWay lost]
  | @take _ block isAnswer signal =>
      refine ⟨accounted.same rfl fun _ _ => .rfl, fun other => ?_⟩
      by_cases isBlock : block = other
      · subst isBlock
        rcases isAnswer with rfl | rfl
        · simp [Runtime.balance, Runtime.setWakeup]
          omega
        · simp [Runtime.balance, Runtime.setWakeup]
          omega
      · rcases isAnswer with rfl | rfl
        · simp [Runtime.balance, Runtime.setWakeup, isBlock, Ne.symm isBlock]
        · simp [Runtime.balance, Runtime.setWakeup, isBlock, Ne.symm isBlock]
  | @post _ block wakeup onWay lost task =>
      refine ⟨accounted.same onWay fun _ _ => by rw [task], fun other => ?_⟩
      by_cases isBlock : block = other
      · subst isBlock
        simp [Runtime.balance, wakeup, onWay, lost]
        omega
      · simp [Runtime.balance, wakeup, onWay, lost, isBlock, Ne.symm isBlock]
  | @grant _ block name signal wakeup given =>
      refine ⟨given.accounted accounted, fun other => ?_⟩
      have kept := given.balance other
      by_cases isBlock : block = other
      · subst isBlock
        simp [Runtime.balance, wakeup] at kept ⊢
        omega
      · simp [Runtime.balance, wakeup, isBlock, Ne.symm isBlock] at kept ⊢
        omega
  | @wake _ block name wakeup given =>
      refine ⟨given.accounted accounted, fun other => ?_⟩
      have kept := given.balance other
      by_cases isBlock : block = other
      · subst isBlock
        simp [Runtime.balance, wakeup] at kept ⊢
        omega
      · simp [Runtime.balance, wakeup, isBlock] at kept ⊢
        omega
  | @back _ block name changed isFrame ready wakeup onWay lost task noFrame =>
      have member : name ∈ runtime.onWay block ↔
          (runtime.task name).isBlockTimeout = false := by
        rw [accounted.ways, Task.OnWay, ready]
        simp [isFrame, Phase.Settled]
      refine ⟨accounted.back isFrame onWay task noFrame, fun other => ?_⟩
      by_cases isBlock : block = other
      · subst isBlock
        cases timeout : (runtime.task name).isBlockTimeout with
        | false =>
            have isMember := member.mpr timeout
            have positive := List.length_pos_of_mem isMember
            simp [Runtime.balance, wakeup, onWay, lost,
              List.length_erase_of_mem isMember]
            omega
        | true =>
            have notMember : name ∉ runtime.onWay block := by
              rw [member, timeout]
              simp
            simp [Runtime.balance, wakeup, onWay, lost,
              List.erase_of_not_mem notMember]
      · simp [Runtime.balance, wakeup, onWay, lost, isBlock, Ne.symm isBlock]

end Runtime

end Natsu.Libgo
