import Mathlib.Data.List.Nodup

/-!
# Channels of coroutines

libgo runs coroutines on one thread; a coroutine gives way only where it
waits.  A `BlockObject` counts signals and queues the tasks that wait for one.
A woken task runs later: until then it stands in `woken`.  A channel is two
such objects and a queue of values.
-/

namespace Natsu.Libgo

structure BlockObject (τ : Type) where
  wakeup : Nat := 0
  waitQueue : List τ := []
  woken : List τ := []

namespace BlockObject

variable {τ : Type}

/-- `CoBlockWait` in a coroutine: take a signal, or join the queue. -/
def coBlockWait (block : BlockObject τ) (task : τ) : Bool × BlockObject τ :=
  if 0 < block.wakeup then (true, { block with wakeup := block.wakeup - 1 })
  else (false, { block with waitQueue := block.waitQueue ++ [task] })

/-- `TryBlockWait`. -/
def tryBlockWait (block : BlockObject τ) : Option (BlockObject τ) :=
  if 0 < block.wakeup then some { block with wakeup := block.wakeup - 1 }
  else none

/-- `Wakeup`: wake the first task of the queue, or leave a signal. -/
def wake (block : BlockObject τ) : BlockObject τ :=
  match block.waitQueue with
  | [] => { block with wakeup := block.wakeup + 1 }
  | task :: rest =>
      { block with waitQueue := rest, woken := block.woken ++ [task] }

/-- The scheduler runs a woken task. -/
def resume [DecidableEq τ] (block : BlockObject τ) (task : τ) :
    Option (BlockObject τ) :=
  if task ∈ block.woken then
    some { block with woken := block.woken.erase task }
  else none

/-- The tasks that wait and those that are woken and have not run. -/
def tasks (block : BlockObject τ) : List τ := block.waitQueue ++ block.woken

theorem tasks_wake (block : BlockObject τ) :
    block.wake.tasks.Perm block.tasks := by
  unfold wake tasks
  split
  · exact .refl _
  · rename_i task rest queued
    rw [queued, ← List.append_assoc]
    exact List.perm_append_singleton _ _

theorem tasks_coBlockWait (block : BlockObject τ) (task : τ) :
    ((block.coBlockWait task).1 = true ∧
      (block.coBlockWait task).2.tasks = block.tasks) ∨
    ((block.coBlockWait task).1 = false ∧
      (block.coBlockWait task).2.tasks.Perm (task :: block.tasks)) := by
  unfold coBlockWait tasks
  split
  · exact .inl ⟨rfl, rfl⟩
  · refine .inr ⟨rfl, ?_⟩
    simp

theorem tasks_resume [DecidableEq τ] {block next : BlockObject τ} {task : τ}
    (resumed : block.resume task = some next) :
    block.tasks.Perm (task :: next.tasks) := by
  unfold resume at resumed
  split at resumed
  · rename_i isWoken
    obtain rfl := Option.some.inj resumed
    unfold tasks
    exact ((List.perm_cons_erase isWoken).append_left _).trans List.perm_middle
  · simp at resumed

end BlockObject

/-- A mutex is a block object with one signal.  Its copies share it. -/
structure CoMutex (τ : Type) where
  block : BlockObject τ := { wakeup := 1 }

namespace CoMutex

variable {τ : Type}

/-- The start of a lock: whether it is already taken, and the mutex. -/
def lock (mutex : CoMutex τ) (task : τ) : Bool × CoMutex τ :=
  match mutex.block.coBlockWait task with
  | (granted, block) => (granted, { block := block })

/-- Unlocking a mutex that is not locked throws. -/
def unlock (mutex : CoMutex τ) : Option (CoMutex τ) :=
  if mutex.block.waitQueue = [] ∧ 1 ≤ mutex.block.wakeup then none
  else some { block := mutex.block.wake }

/-- A woken task holds the mutex. -/
def resume [DecidableEq τ] (mutex : CoMutex τ) (task : τ) :
    Option (CoMutex τ) :=
  (mutex.block.resume task).map fun block => { block := block }

/-- Nobody can take the mutex until it is unlocked. -/
structure Locked (mutex : CoMutex τ) : Prop where
  wakeup_eq : mutex.block.wakeup = 0
  woken_eq : mutex.block.woken = []

theorem locked_lock (task : τ) : (lock {} task).2.Locked :=
  ⟨rfl, rfl⟩

theorem Locked.lock {mutex : CoMutex τ} (locked : mutex.Locked) (task : τ) :
    (mutex.lock task).1 = false ∧ (mutex.lock task).2.Locked := by
  simp only [CoMutex.lock, BlockObject.coBlockWait, locked.wakeup_eq]
  exact ⟨rfl, rfl, locked.woken_eq⟩

theorem Locked.resume [DecidableEq τ] {mutex : CoMutex τ}
    (locked : mutex.Locked) (task : τ) : mutex.resume task = none := by
  simp [CoMutex.resume, BlockObject.resume, locked.woken_eq]

end CoMutex

/-- Tasks of type `ω` write and tasks of type `ρ` read.  There is a value for
every signal to a reader and for every woken reader. -/
structure Channel (α ω ρ : Type) where
  writeBlock : BlockObject ω := {}
  readBlock : BlockObject ρ := {}
  queue : List α := []
  balanced : queue.length = readBlock.wakeup + readBlock.woken.length := by rfl

namespace Channel

variable {α ω ρ : Type}

/-- The part of a write that follows the wait. -/
def push (channel : Channel α ω ρ) (value : α) : Channel α ω ρ :=
  { channel with
    queue := channel.queue ++ [value]
    readBlock := channel.readBlock.wake
    balanced := by
      have balanced := channel.balanced
      unfold BlockObject.wake
      split <;> simp <;> omega }

/-- The start of a write: whether it is already done, and the channel. -/
def write (channel : Channel α ω ρ) (task : ω) (value : α) :
    Bool × Channel α ω ρ :=
  match channel.writeBlock.coBlockWait task with
  | (true, block) => (true, push { channel with writeBlock := block } value)
  | (false, block) => (false, { channel with writeBlock := block })

/-- A write outside of a coroutine spins until it gets a signal.  While it
spins nothing else runs: `none` is a write that never returns. -/
def spinWrite (channel : Channel α ω ρ) (value : α) :
    Option (Channel α ω ρ) :=
  channel.writeBlock.tryBlockWait.map fun block =>
    push { channel with writeBlock := block } value

/-- A woken writer runs. -/
def resumeWrite [DecidableEq ω] (channel : Channel α ω ρ) (task : ω)
    (value : α) : Option (Channel α ω ρ) :=
  (channel.writeBlock.resume task).map fun block =>
    push { channel with writeBlock := block } value

/-- The start of a read: the value, if there is one, and the channel. -/
def read (channel : Channel α ω ρ) (task : ρ) :
    Option α × Channel α ω ρ :=
  if signalled : 0 < channel.readBlock.wakeup then
    have nonempty : channel.queue ≠ [] := by
      have balanced := channel.balanced
      intro empty
      simp only [empty, List.length_nil] at balanced
      omega
    (some (channel.queue.head nonempty),
      { channel with
        writeBlock := channel.writeBlock.wake
        readBlock :=
          { channel.readBlock with wakeup := channel.readBlock.wakeup - 1 }
        queue := channel.queue.tail
        balanced := by
          have balanced := channel.balanced
          simp only [List.length_tail]
          omega })
  else
    (none, { channel with
      writeBlock := channel.writeBlock.wake
      readBlock :=
        { channel.readBlock with
          waitQueue := channel.readBlock.waitQueue ++ [task] } })

/-- A woken reader runs. -/
def resumeRead [DecidableEq ρ] (channel : Channel α ω ρ) (task : ρ) :
    Option (α × Channel α ω ρ) :=
  if isWoken : task ∈ channel.readBlock.woken then
    have nonempty : channel.queue ≠ [] := by
      have balanced := channel.balanced
      have woken := List.length_pos_of_mem isWoken
      intro empty
      simp only [empty, List.length_nil] at balanced
      omega
    some (channel.queue.head nonempty,
      { channel with
        readBlock := { channel.readBlock with
          woken := channel.readBlock.woken.erase task }
        queue := channel.queue.tail
        balanced := by
          have balanced := channel.balanced
          have woken := List.length_pos_of_mem isWoken
          simp only [List.length_tail, List.length_erase_of_mem isWoken]
          omega })
  else none

section Effects

variable {channel next : Channel α ω ρ}

theorem write_done {task : ω} {value : α}
    (written : channel.write task value = (true, next)) :
    next.writeBlock.tasks = channel.writeBlock.tasks ∧
      next.readBlock = channel.readBlock.wake ∧
      next.queue = channel.queue ++ [value] := by
  unfold write at written
  split at written
  · rename_i block waited
    obtain ⟨_, rfl⟩ := Prod.mk.inj written
    refine ⟨?_, rfl, rfl⟩
    rcases channel.writeBlock.tasks_coBlockWait task with
      ⟨_, same⟩ | ⟨parked, _⟩
    · rwa [waited] at same
    · simp [waited] at parked
  · simp at written

theorem write_parked {task : ω} {value : α}
    (written : channel.write task value = (false, next)) :
    next.writeBlock.tasks.Perm (task :: channel.writeBlock.tasks) ∧
      next.readBlock = channel.readBlock ∧ next.queue = channel.queue := by
  unfold write at written
  split at written
  · simp at written
  · rename_i block waited
    obtain ⟨_, rfl⟩ := Prod.mk.inj written
    refine ⟨?_, rfl, rfl⟩
    rcases channel.writeBlock.tasks_coBlockWait task with
      ⟨granted, _⟩ | ⟨_, longer⟩
    · simp [waited] at granted
    · rwa [waited] at longer

theorem write_writeBlock (channel : Channel α ω ρ) (task : ω) (value : α) :
    (channel.write task value).2.writeBlock =
      (channel.writeBlock.coBlockWait task).2 := by
  unfold write
  split
  · rename_i block waited
    rw [waited]
    rfl
  · rename_i block waited
    rw [waited]

theorem spinWrite_done {value : α}
    (written : channel.spinWrite value = some next) :
    next.writeBlock.tasks = channel.writeBlock.tasks ∧
      next.readBlock = channel.readBlock.wake ∧
      next.queue = channel.queue ++ [value] := by
  obtain ⟨block, tried, rfl⟩ := Option.map_eq_some_iff.mp written
  refine ⟨?_, rfl, rfl⟩
  unfold BlockObject.tryBlockWait at tried
  split at tried
  · obtain rfl := Option.some.inj tried
    rfl
  · simp at tried

theorem resumeWrite_done [DecidableEq ω] {task : ω} {value : α}
    (written : channel.resumeWrite task value = some next) :
    channel.writeBlock.tasks.Perm (task :: next.writeBlock.tasks) ∧
      next.readBlock = channel.readBlock.wake ∧
      next.queue = channel.queue ++ [value] := by
  obtain ⟨block, resumed, rfl⟩ := Option.map_eq_some_iff.mp written
  exact ⟨BlockObject.tasks_resume resumed, rfl, rfl⟩

/-- A woken writer was no longer in the queue. -/
theorem resumeWrite_writeBlock [DecidableEq ω] {task : ω} {value : α}
    (written : channel.resumeWrite task value = some next) :
    next.writeBlock.wakeup = channel.writeBlock.wakeup ∧
      next.writeBlock.waitQueue = channel.writeBlock.waitQueue := by
  obtain ⟨block, resumed, rfl⟩ := Option.map_eq_some_iff.mp written
  unfold BlockObject.resume at resumed
  split at resumed
  · obtain rfl := Option.some.inj resumed
    exact ⟨rfl, rfl⟩
  · simp at resumed

theorem read_done {task : ρ} {value : α}
    (taken : channel.read task = (some value, next)) :
    0 < channel.readBlock.wakeup ∧
      next.writeBlock = channel.writeBlock.wake ∧
      next.readBlock.tasks = channel.readBlock.tasks ∧
      channel.queue = value :: next.queue := by
  unfold read at taken
  split at taken
  · rename_i signalled
    obtain ⟨first, rfl⟩ := Prod.mk.inj taken
    refine ⟨signalled, rfl, rfl, ?_⟩
    rw [← Option.some.inj first, List.cons_head_tail]
  · simp at taken

theorem read_parked {task : ρ}
    (taken : channel.read task = (none, next)) :
    next.writeBlock = channel.writeBlock.wake ∧
      next.readBlock = { channel.readBlock with
        waitQueue := channel.readBlock.waitQueue ++ [task] } ∧
      next.queue = channel.queue := by
  unfold read at taken
  split at taken
  · simp at taken
  · obtain ⟨_, rfl⟩ := Prod.mk.inj taken
    exact ⟨rfl, rfl, rfl⟩

theorem resumeRead_done [DecidableEq ρ] {task : ρ} {value : α}
    (taken : channel.resumeRead task = some (value, next)) :
    task ∈ channel.readBlock.woken ∧
      next.writeBlock = channel.writeBlock ∧
      channel.queue = value :: next.queue := by
  unfold resumeRead at taken
  split at taken
  · rename_i isWoken
    obtain ⟨first, rfl⟩ := Prod.mk.inj (Option.some.inj taken)
    refine ⟨isWoken, rfl, ?_⟩
    rw [← first, List.cons_head_tail]
  · simp at taken

theorem resumeRead_tasks [DecidableEq ρ] {task : ρ} {value : α}
    (taken : channel.resumeRead task = some (value, next)) :
    channel.readBlock.tasks.Perm (task :: next.readBlock.tasks) := by
  unfold resumeRead at taken
  split at taken
  · rename_i isWoken
    obtain ⟨_, rfl⟩ := Prod.mk.inj (Option.some.inj taken)
    exact ((List.perm_cons_erase isWoken).append_left _).trans
      List.perm_middle
  · simp at taken

/-- With a signal to take, a write is done at once, whether a coroutine makes
it or not. -/
theorem spinWrite_ready (ready : 0 < channel.writeBlock.wakeup) (value : α) :
    ∃ next, channel.spinWrite value = some next ∧
      next.writeBlock = { channel.writeBlock with
        wakeup := channel.writeBlock.wakeup - 1 } ∧
      next.readBlock = channel.readBlock.wake ∧
      next.queue = channel.queue ++ [value] := by
  have tried : channel.writeBlock.tryBlockWait = some
      { channel.writeBlock with wakeup := channel.writeBlock.wakeup - 1 } :=
    if_pos ready
  have written : channel.spinWrite value = some (push
      { channel with writeBlock :=
        { channel.writeBlock with wakeup := channel.writeBlock.wakeup - 1 } }
      value) := by
    simp only [spinWrite, tried, Option.map_some]
  exact ⟨_, written, rfl, rfl, rfl⟩

theorem write_ready (ready : 0 < channel.writeBlock.wakeup) (task : ω)
    {value : α} (written : channel.spinWrite value = some next) :
    channel.write task value = (true, next) := by
  have waited : channel.writeBlock.coBlockWait task = (true,
      { channel.writeBlock with wakeup := channel.writeBlock.wakeup - 1 }) :=
    if_pos ready
  have tried : channel.writeBlock.tryBlockWait = some
      { channel.writeBlock with wakeup := channel.writeBlock.wakeup - 1 } :=
    if_pos ready
  simp only [spinWrite, tried, Option.map_some] at written
  simp only [write, waited, Option.some.inj written]

end Effects

end Channel

end Natsu.Libgo
