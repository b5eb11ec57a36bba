import Natsu.Libgo.QueuePool

/-!
# Tasks, processers and block objects

Several threads run the tasks of libgo.  What a thread does with a task or a
timer is cut where it takes or gives back a lock: between two such steps other
threads may do theirs.  How far a thread has come stands beside the task or
the timer that it works on.
-/

namespace Natsu.Libgo

open Natsu.Foundation

inductive Line (β π : Type) where
  | wait (block : β)
  | run (proc : π)
  deriving DecidableEq

/-- All processers give their run queues the same mark. -/
inductive Mark (β : Type) where
  | wait (block : β)
  | run
  deriving DecidableEq

def Line.mark {β π : Type} : Line β π → Mark β
  | .wait block => .wait block
  | .run _ => .run

inductive Hook (ι τ : Type) where
  | head (index : ι)
  | task (task : τ)
  deriving DecidableEq

inductive TaskState where
  | init
  | runnable
  | ioBlock
  | sysBlock
  | sleep
  | done
  | fatal
  deriving DecidableEq

/-- How far a thread has come with a task. -/
inductive Phase (β π : Type) where
  | free
  /-- `CreateTask` has not added it yet. -/
  | made
  /-- In a run queue, or between two of them. -/
  | ready
  | running (proc : π)
  /-- Switched out, and its processer has not looked at its state yet. -/
  | leaving (proc : π)
  /-- `AddWaitTask` has found a signal. -/
  | granted (proc : π)
  | waiting (block : β)
  /-- `Wakeup` has taken it out of the queue. -/
  | woken (block : β)
  /-- `Wakeup` has cancelled its timer and not released it yet. -/
  | cancelled
  /-- `Wakeup` has not added it yet. -/
  | unhooked
  /-- `CancelWait` in this timer has taken it out of the queue. -/
  | erased (timer : Nat)
  deriving DecidableEq

def Phase.isWoken {β π : Type} : Phase β π → Bool
  | .woken _ => true
  | _ => false

structure Task (β π : Type) where
  phase : Phase β π := .free
  /-- The object in whose `CoBlockWait` the coroutine is. -/
  frame : Option β := none
  state : TaskState := .init
  proc : Option π := none
  block : Option β := none
  blockSequence : UInt32 := 0
  blockTimer : Option Nat := none
  blockTimeout : Int := 0
  isBlockTimeout : Bool := false

/-- How far a thread has come with the function of a timer.  All but an idle
timer hold its lock. -/
inductive TimerPhase where
  | idle
  | entered
  /-- The sequence is that of the task. -/
  | matched
  /-- The task is out of the queue. -/
  | holding
  /-- Nothing is left but to release the task. -/
  | leaving
  deriving DecidableEq

/-- A timer with what its function has captured. -/
structure CoTimer (τ β : Type) where
  task : τ
  blockSequence : UInt32
  block : β
  active : Bool := true
  phase : TimerPhase := .idle

/-- The function of the timer will still release its task. -/
def CoTimer.pending {τ β : Type} (timer : CoTimer τ β) : Bool :=
  timer.active || timer.phase ≠ .idle

/-- `onWay` and `lost` are for the proofs only: the tasks that were given a
signal of a block object and have not returned from their wait, and how many
signals were given to tasks that were in no wait. -/
structure Runtime (τ β π : Type) where
  pool : Pool (Line β π) π (Hook (Line β π) τ) (Mark β)
  task : τ → Task β π
  hand : π → Option τ
  wakeup : β → Nat
  timers : List (CoTimer τ β)
  onWay : β → List τ
  lost : β → Nat

inductive RuntimeEvent (τ β π : Type) where
  | createTask (task : τ)
  | addTaskRunnable (task : τ) (dispatch : π)
  | run (proc : π)
  | coBlockWait (proc : π) (block : β) (timeout : Int)
  | coYield (proc : π)
  | finish (proc : π)
  | switch (proc : π)
  | grant (proc : π)
  | tryBlockWait (block : β)
  | wake (block : β)
  | cancelTimer (task : τ)
  | releaseTimer (task : τ)
  | expire (timer : Nat)
  | compare (timer : Nat)
  | cancelWait (timer : Nat)
  | timeOut (timer : Nat) (dispatch : π)
  | release (timer : Nat)
  | stealHalf (victim thief : π) (n : Nat)
  | unload (thief : π)

/-- What a step gives back. -/
inductive RuntimeAnswer (β : Type) where
  | quiet
  | posted (block : β)
  | taken (block : β)
  /-- A `CoBlockWaitTimed` returns. -/
  | returned (block : β) (result : Bool)
  deriving DecidableEq

namespace Runtime

variable {τ β π : Type}

def new (wakeup : β → Nat) : Runtime τ β π where
  pool := Pool.new Hook.head Line.mark fun _ => 0
  task _ := {}
  hand _ := none
  wakeup := wakeup
  timers := []
  onWay _ := []
  lost _ := 0

variable [DecidableEq τ] [DecidableEq β] [DecidableEq π]
  (maxWakeup : β → Nat) (runtime : Runtime τ β π)

def setTask (name : τ) (task : Task β π) : Runtime τ β π :=
  { runtime with task := Function.update runtime.task name task }

def setHand (proc : π) (name : Option τ) : Runtime τ β π :=
  { runtime with hand := Function.update runtime.hand proc name }

def setWakeup (block : β) (wakeup : Nat) : Runtime τ β π :=
  { runtime with wakeup := Function.update runtime.wakeup block wakeup }

def setTimer (index : Nat) (timer : CoTimer τ β) : Runtime τ β π :=
  { runtime with timers := runtime.timers.set index timer }

def setHeap (heap : Heap (Hook (Line β π) τ) (Mark β)) : Runtime τ β π :=
  { runtime with pool := { runtime.pool with heap := heap } }

def incrementRef (name : τ) : Runtime τ β π :=
  runtime.setHeap (runtime.pool.heap.incrementRef (.task name))

def decrementRef (name : τ) : Runtime τ β π :=
  runtime.setHeap (runtime.pool.heap.decrementRef (.task name))

/-- A signal goes to a task. -/
def give (block : β) (name : τ) : Runtime τ β π :=
  if (runtime.task name).frame = some block then
    { runtime with
      onWay :=
        Function.update runtime.onWay block (name :: runtime.onWay block) }
  else
    { runtime with
      lost := Function.update runtime.lost block (runtime.lost block + 1) }

def push (line : Line β π) (name : τ) : Option (Runtime τ β π) :=
  (runtime.pool.step (.push line (.task name))).map fun (_, pool) =>
    { runtime with pool := pool }

/-- A new task has one reference. -/
def createTask (name : τ) : Runtime τ β π :=
  (runtime.setTask name { phase := .made }).incrementRef name

def addTaskRunnable (name : τ) (dispatch : π) : Option (Runtime τ β π) :=
  let task := runtime.task name
  (runtime.push (.run (task.proc.getD dispatch)) name).map fun next =>
    next.setTask name { task with phase := .ready, state := .runnable }

/-- A step of `Processer::Run`: the first task of the queue is switched in. -/
def run (proc : π) : Option (RuntimeAnswer β × Runtime τ β π) :=
  match runtime.pool.step (.pop (.run proc)) with
  | some (.popped none, pool) => some (.quiet, { runtime with pool := pool })
  | some (.popped (some (.task name)), pool) =>
      let task := runtime.task name
      let next := (({ runtime with pool := pool }).setHand proc
        (some name)).setTask name
          { task with phase := .running proc, frame := none }
      match task.frame with
      | none => some (.quiet, next)
      | some block =>
          some (.returned block !task.isBlockTimeout,
            { next with
              onWay := Function.update next.onWay block
                ((next.onWay block).erase name) })
  | _ => none

/-- Both waits of a coroutine; without a timeout it is zero. -/
def coBlockWait (proc : π) (block : β) (timeout : Int) :
    Option (RuntimeAnswer β × Runtime τ β π) :=
  (runtime.hand proc).map fun name =>
    if 0 < runtime.wakeup block then
      (.returned block true,
        runtime.setWakeup block (runtime.wakeup block - 1))
    else
      let task := runtime.task name
      (.quiet, runtime.setTask name { task with
        phase := .leaving proc
        frame := some block
        state := .sysBlock
        proc := some proc
        block := some block
        blockSequence := task.blockSequence + 1
        blockTimeout := timeout
        isBlockTimeout := false })

def coYield (proc : π) : Option (Runtime τ β π) :=
  (runtime.hand proc).map fun name =>
    runtime.setTask name { runtime.task name with
      phase := .leaving proc, proc := some proc }

/-- The end of `Task_CB`. -/
def finish (proc : π) : Option (Runtime τ β π) :=
  (runtime.hand proc).map fun name =>
    runtime.setTask name { runtime.task name with
      phase := .leaving proc, proc := some proc, state := .done }

/-- `AddWaitTask`: a signal may have come in the meantime. -/
def addWaitTask (block : β) (name : τ) : Option (Bool × Runtime τ β π) :=
  if 0 < runtime.wakeup block then
    some (false,
      (runtime.setWakeup block (runtime.wakeup block - 1)).give block name)
  else
    (runtime.push (.wait block) name).map fun next =>
      let task := { runtime.task name with phase := .waiting block }
      if task.blockTimeout = 0 then (true, next.setTask name task)
      else
        let timer : CoTimer τ β := {
          task := name
          blockSequence := task.blockSequence
          block := block }
        (true, { (next.incrementRef name).setTask name
            { task with blockTimer := some next.timers.length } with
          timers := next.timers ++ [timer] })

/-- What `Processer::Run` does with a task that was switched out. -/
def switch (proc : π) : Option (Runtime τ β π) :=
  (runtime.hand proc).bind fun name =>
    let task := runtime.task name
    match task.state with
    | .runnable =>
        (runtime.push (.run proc) name).map fun next =>
          (next.setTask name { task with phase := .ready }).setHand proc none
    | .sysBlock =>
        task.block.bind fun block =>
          (runtime.addWaitTask block name).map fun (waits, next) =>
            if waits then next.setHand proc none
            else next.setTask name { task with phase := .granted proc }
    | .ioBlock | .sleep => none
    | .init | .done | .fatal =>
        some (((runtime.setTask name { task with phase := .free }).decrementRef
          name).setHand proc none)

/-- A task that was given a signal goes back to the queue. -/
def grant (proc : π) : Option (Runtime τ β π) :=
  (runtime.hand proc).bind fun name =>
    (runtime.push (.run proc) name).map fun next =>
      (next.setTask name { runtime.task name with phase := .ready }).setHand
        proc none

def tryBlockWait (block : β) : RuntimeAnswer β × Runtime τ β π :=
  if 0 < runtime.wakeup block then
    (.taken block, runtime.setWakeup block (runtime.wakeup block - 1))
  else (.quiet, runtime)

/-- `Wakeup`, as long as it holds the lock. -/
def wake (block : β) : Option (RuntimeAnswer β × Runtime τ β π) :=
  match runtime.pool.step (.pop (.wait block)) with
  | some (.popped none, pool) =>
      let next := { runtime with pool := pool }
      if runtime.wakeup block < maxWakeup block then
        some (.posted block,
          next.setWakeup block (runtime.wakeup block + 1))
      else some (.quiet, next)
  | some (.popped (some (.task name)), pool) =>
      let next := ({ runtime with pool := pool }).give block name
      some (.posted block, next.setTask name
        { runtime.task name with phase := .woken block })
  | _ => none

/-- `Wakeup` cancels the timer of the task. -/
def cancelTimer (name : τ) : Option (Runtime τ β π) :=
  let task := { runtime.task name with block := none }
  match task.blockTimer with
  | none => some (runtime.setTask name { task with phase := .unhooked })
  | some index =>
      runtime.timers[index]?.map fun timer =>
        if timer.active then
          (runtime.setTimer index { timer with active := false }).setTask name
            { task with phase := .cancelled }
        else
          runtime.setTask name
            { task with phase := .unhooked, blockTimer := none }

def releaseTimer (name : τ) : Runtime τ β π :=
  (runtime.setTask name { runtime.task name with
    phase := .unhooked, blockTimer := none }).decrementRef name

/-- The call of a timer. -/
def expire (index : Nat) : Option (Runtime τ β π) :=
  runtime.timers[index]?.map fun timer =>
    if timer.active then
      runtime.setTimer index { timer with active := false, phase := .entered }
    else runtime

def compare (index : Nat) : Option (Runtime τ β π) :=
  runtime.timers[index]?.map fun timer =>
    runtime.setTimer index { timer with
      phase := if (runtime.task timer.task).blockSequence =
        timer.blockSequence then .matched else .leaving }

/-- `CancelWait`, as long as it holds the lock. -/
def cancelWait (index : Nat) : Option (Runtime τ β π) :=
  runtime.timers[index]?.bind fun timer =>
    let task := runtime.task timer.task
    let left := runtime.setTimer index { timer with phase := .leaving }
    if task.block ≠ some timer.block then some left
    else if task.blockSequence ≠ timer.blockSequence then some left
    else
      match runtime.pool.step (.erase (.wait timer.block) (.task timer.task))
      with
      | some (.erased true, pool) =>
          some ((({ runtime with pool := pool }).setTimer index
            { timer with phase := .holding }).setTask timer.task
              { task with phase := .erased index })
      | some (.erased false, pool) => some { left with pool := pool }
      | _ => none

/-- The rest of `CancelWait`. -/
def timeOut (index : Nat) (dispatch : π) : Option (Runtime τ β π) :=
  runtime.timers[index]?.bind fun timer =>
    let task := { runtime.task timer.task with
      block := none, isBlockTimeout := true }
    ((runtime.setTimer index { timer with phase := .leaving }).setTask
      timer.task task).addTaskRunnable timer.task dispatch

def release (index : Nat) : Option (Runtime τ β π) :=
  runtime.timers[index]?.map fun timer =>
    (runtime.setTimer index { timer with phase := .idle }).decrementRef
      timer.task

/-- `StealHalf` up to its own list.  The number of tasks that it has read may
be out of date. -/
def stealHalf (victim thief : π) (n : Nat) : Option (Runtime τ β π) :=
  (runtime.pool.step (.popBack (.run victim) ((n + 1) / 2) thief)).map
    fun (_, pool) => { runtime with pool := pool }

def unload (thief : π) : Option (Runtime τ β π) :=
  (runtime.pool.step (.pushList (.run thief) thief)).map
    fun (_, pool) => { runtime with pool := pool }

/-- The phase of the task that a processer works on. -/
def atHand (proc : π) : Option (Phase β π) :=
  (runtime.hand proc).map fun name => (runtime.task name).phase

def timerPhase (index : Nat) : Option TimerPhase :=
  runtime.timers[index]?.map CoTimer.phase

/-- The step is the next one of a thread, and does not wait for a lock.  The
memory of a task is used again after its last reference only. -/
def Able : RuntimeEvent τ β π → Prop
  | .createTask name =>
      (runtime.task name).phase = .free ∧
        runtime.pool.heap.refs (.task name) = 0
  | .addTaskRunnable name _ =>
      (runtime.task name).phase = .made ∨
        (runtime.task name).phase = .unhooked
  | .run proc => runtime.hand proc = none
  | .coBlockWait proc _ _ => runtime.atHand proc = some (.running proc)
  | .coYield proc => runtime.atHand proc = some (.running proc)
  | .finish proc => runtime.atHand proc = some (.running proc)
  | .switch proc => runtime.atHand proc = some (.leaving proc)
  | .grant proc => runtime.atHand proc = some (.granted proc)
  | .tryBlockWait _ => True
  | .wake _ => True
  | .cancelTimer name =>
      (runtime.task name).phase.isWoken ∧
      ((runtime.task name).blockTimer.bind runtime.timerPhase).getD .idle =
        .idle
  | .releaseTimer name => (runtime.task name).phase = .cancelled
  | .expire index => runtime.timerPhase index = some .idle
  | .compare index => runtime.timerPhase index = some .entered
  | .cancelWait index => runtime.timerPhase index = some .matched
  | .timeOut index _ => runtime.timerPhase index = some .holding
  | .release index => runtime.timerPhase index = some .leaving
  | .stealHalf _ thief _ => (runtime.pool.list thief).head = none
  | .unload _ => True

def exec : RuntimeEvent τ β π → Option (RuntimeAnswer β × Runtime τ β π)
  | .createTask name => some (.quiet, runtime.createTask name)
  | .addTaskRunnable name dispatch =>
      (runtime.addTaskRunnable name dispatch).map (.quiet, ·)
  | .run proc => runtime.run proc
  | .coBlockWait proc block timeout => runtime.coBlockWait proc block timeout
  | .coYield proc => (runtime.coYield proc).map (.quiet, ·)
  | .finish proc => (runtime.finish proc).map (.quiet, ·)
  | .switch proc => (runtime.switch proc).map (.quiet, ·)
  | .grant proc => (runtime.grant proc).map (.quiet, ·)
  | .tryBlockWait block => some (runtime.tryBlockWait block)
  | .wake block => runtime.wake maxWakeup block
  | .cancelTimer name => (runtime.cancelTimer name).map (.quiet, ·)
  | .releaseTimer name => some (.quiet, runtime.releaseTimer name)
  | .expire index => (runtime.expire index).map (.quiet, ·)
  | .compare index => (runtime.compare index).map (.quiet, ·)
  | .cancelWait index => (runtime.cancelWait index).map (.quiet, ·)
  | .timeOut index dispatch =>
      (runtime.timeOut index dispatch).map (.quiet, ·)
  | .release index => (runtime.release index).map (.quiet, ·)
  | .stealHalf victim thief n =>
      (runtime.stealHalf victim thief n).map (.quiet, ·)
  | .unload thief => (runtime.unload thief).map (.quiet, ·)

instance Able.decidable :
    ∀ event : RuntimeEvent τ β π, Decidable (runtime.Able event)
  | .createTask _ => inferInstanceAs (Decidable (_ ∧ _))
  | .addTaskRunnable _ _ => inferInstanceAs (Decidable (_ ∨ _))
  | .run _ => inferInstanceAs (Decidable (_ = _))
  | .coBlockWait _ _ _ => inferInstanceAs (Decidable (_ = _))
  | .coYield _ => inferInstanceAs (Decidable (_ = _))
  | .finish _ => inferInstanceAs (Decidable (_ = _))
  | .switch _ => inferInstanceAs (Decidable (_ = _))
  | .grant _ => inferInstanceAs (Decidable (_ = _))
  | .tryBlockWait _ => isTrue trivial
  | .wake _ => isTrue trivial
  | .cancelTimer _ => inferInstanceAs (Decidable (_ ∧ _))
  | .releaseTimer _ => inferInstanceAs (Decidable (_ = _))
  | .expire _ => inferInstanceAs (Decidable (_ = _))
  | .compare _ => inferInstanceAs (Decidable (_ = _))
  | .cancelWait _ => inferInstanceAs (Decidable (_ = _))
  | .timeOut _ _ => inferInstanceAs (Decidable (_ = _))
  | .release _ => inferInstanceAs (Decidable (_ = _))
  | .stealHalf _ _ _ => inferInstanceAs (Decidable (_ = _))
  | .unload _ => isTrue trivial

/-- A step of any thread. -/
def step (event : RuntimeEvent τ β π) :
    Option (RuntimeAnswer β × Runtime τ β π) :=
  if runtime.Able event then runtime.exec maxWakeup event else none

end Runtime

end Natsu.Libgo
