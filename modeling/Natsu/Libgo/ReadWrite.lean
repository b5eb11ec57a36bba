import Natsu.Libgo.Yielding

/-!
# Locks for readers and writers

A `CoRWMutex` keeps the number of its readers beside a mutex for its writers.
Readers count themselves first and look at the mutex then, writers take the
mutex first and look at the number then.  The mutex is a block object of the
runtime, and the threads may do their steps in any order.
-/

namespace Natsu.Libgo

open Natsu.Foundation

/-- All but the runtime and `readersC` are for the proofs only: how many
threads have come how far. -/
structure CoRWMutex (τ β π : Type) where
  runtime : Runtime τ β π
  readersC : Int := 0
  /-- Readers that have counted themselves and not looked at the mutex. -/
  looking : Nat := 0
  reading : Nat := 0
  /-- Readers that have found the mutex locked. -/
  retreating : Nat := 0
  /-- Writers that have the mutex and have not found the number zero. -/
  holding : Nat := 0
  writing : Nat := 0

inductive RWEvent (τ β π : Type) where
  | runtime (event : RuntimeEvent τ β π)
  | readerCounts
  | readerLooks
  | readerRetreats
  | readerUnlocks
  | writerEnters
  /-- `w_try_lock` has found readers. -/
  | writerGivesUp
  | writerUnlocks

namespace CoRWMutex

variable {τ β π : Type} [DecidableEq τ] [DecidableEq β] [DecidableEq π]
  (maxWakeup : β → Nat) (mtx : β) (state : CoRWMutex τ β π)

def new (signals : β → Nat) : CoRWMutex τ β π where
  runtime := Runtime.new signals

/-- `CoMutex::unlock` throws where nothing was posted. -/
def unlock : Option (RuntimeAnswer β × CoRWMutex τ β π) :=
  (state.runtime.step maxWakeup (.wake mtx)).bind fun (answer, next) =>
    if answer = .posted mtx then
      some (answer, { state with runtime := next })
    else none

/-- A step of the runtime, in which a thread may get the mutex.  Only the lock
itself unlocks it. -/
def runtimeStep (event : RuntimeEvent τ β π) :
    Option (RuntimeAnswer β × CoRWMutex τ β π) :=
  if event.wakes mtx then none
  else
    (state.runtime.step maxWakeup event).map fun (answer, next) =>
      (answer, { state with
        runtime := next
        holding :=
          if answer = .returned mtx true ∨ answer = .taken mtx then
            state.holding + 1
          else state.holding })

/-- `r_lock` and `r_try_lock` behind the increment. -/
def readerLooks : CoRWMutex τ β π :=
  if 0 < state.runtime.wakeup mtx then
    { state with looking := state.looking - 1, reading := state.reading + 1 }
  else
    { state with
      looking := state.looking - 1
      retreating := state.retreating + 1 }

def step : RWEvent τ β π → Option (RuntimeAnswer β × CoRWMutex τ β π)
  | .runtime event => state.runtimeStep maxWakeup mtx event
  | .readerCounts => some (.quiet, { state with
      readersC := state.readersC + 1, looking := state.looking + 1 })
  | .readerLooks =>
      if 0 < state.looking then some (.quiet, state.readerLooks mtx) else none
  | .readerRetreats =>
      if 0 < state.retreating then
        some (.quiet, { state with
          readersC := state.readersC - 1
          retreating := state.retreating - 1 })
      else none
  | .readerUnlocks =>
      if 0 < state.reading ∧ 0 ≤ state.readersC - 1 then
        some (.quiet, { state with
          readersC := state.readersC - 1, reading := state.reading - 1 })
      else none
  | .writerEnters =>
      if 0 < state.holding ∧ state.readersC = 0 then
        some (.quiet, { state with
          holding := state.holding - 1, writing := state.writing + 1 })
      else none
  | .writerGivesUp =>
      if 0 < state.holding ∧ state.readersC ≠ 0 then
        { state with holding := state.holding - 1 }.unlock maxWakeup mtx
      else none
  | .writerUnlocks =>
      if 0 < state.writing then
        { state with writing := state.writing - 1 }.unlock maxWakeup mtx
      else none

section Exclusion

variable {maxWakeup mtx state} {signals : β → Nat} {block : β}
  {runtime after : Runtime τ β π} {results : List (RuntimeAnswer β)}
  {answer : RuntimeAnswer β} {next : CoRWMutex τ β π}
  {events : List (RWEvent τ β π)}

/-- What the functions of the lock keep. -/
structure Sound (signals : β → Nat) (mtx : β)
    (results : List (RuntimeAnswer β)) (state : CoRWMutex τ β π) : Prop where
  reached : Runtime.Reached signals results state.runtime
  held : results.count (.returned mtx true) + results.count (.taken mtx) =
    results.count (.posted mtx) + state.holding + state.writing
  counted : state.readersC =
    state.looking + state.reading + state.retreating
  apart : 0 < state.writing → state.reading = 0

/-- Its one signal is at the mutex, or a writer has it. -/
theorem Sound.one (sound : Sound signals mtx results state)
    (single : signals mtx = 1) :
    state.runtime.wakeup mtx + state.holding + state.writing ≤ 1 := by
  have total := sound.reached.total mtx
  have held := sound.held
  rw [Runtime.balance, single] at total
  omega

/-- A step that leaves the runtime alone. -/
theorem Sound.quiet (sound : Sound signals mtx results state)
    (same : next.runtime = state.runtime)
    (held : next.holding + next.writing = state.holding + state.writing)
    (counted : next.readersC = next.looking + next.reading + next.retreating)
    (apart : 0 < next.writing → next.reading = 0) :
    Sound signals mtx (results ++ [.quiet]) next where
  reached := same ▸ sound.reached.quiet
  held := by
    have before := sound.held
    simp only [List.count_append, List.count_singleton]
    simp
    omega
  counted := counted
  apart := apart

theorem Sound.unlock {held : CoRWMutex τ β π}
    (sound : Sound signals mtx results held)
    (unlocked : state.unlock maxWakeup mtx = some (answer, next))
    (same : state.runtime = held.runtime)
    (fewer : state.holding + state.writing + 1 = held.holding + held.writing)
    (counted : state.readersC =
      state.looking + state.reading + state.retreating)
    (apart : 0 < state.writing → state.reading = 0) :
    Sound signals mtx (results ++ [answer]) next := by
  obtain ⟨⟨posted, after⟩, stepped, isNext⟩ :=
    Option.bind_eq_some_iff.mp unlocked
  dsimp only at isNext
  split at isNext
  · rename_i isPosted
    obtain ⟨rfl, rfl⟩ := Prod.mk.inj (Option.some.inj isNext)
    subst isPosted
    rw [same] at stepped
    refine ⟨sound.reached.step stepped, ?_, counted, apart⟩
    have before := sound.held
    simp only [List.count_append, List.count_singleton]
    simp
    omega
  · cases isNext

theorem Sound.runtimeStep (sound : Sound signals mtx results state)
    {event : RuntimeEvent τ β π}
    (ran : state.runtimeStep maxWakeup mtx event = some (answer, next)) :
    Sound signals mtx (results ++ [answer]) next := by
  rw [CoRWMutex.runtimeStep] at ran
  split at ran
  · cases ran
  · rename_i notWake
    obtain ⟨⟨given, after⟩, stepped, isNext⟩ :=
      Option.map_eq_some_iff.mp ran
    obtain ⟨rfl, rfl⟩ := Prod.mk.inj isNext
    have notPosted : given ≠ .posted mtx := by
      intro posted
      exact notWake (Runtime.wake_of_posted (posted ▸ stepped))
    refine ⟨sound.reached.step stepped, ?_, sound.counted, sound.apart⟩
    have before := sound.held
    simp only [List.count_append, List.count_singleton]
    by_cases returned : given = .returned mtx true
    · subst returned
      simp
      omega
    · by_cases taken : given = .taken mtx
      · subst taken
        simp
        omega
      · simp [returned, taken, notPosted]
        omega

theorem Sound.readerLooks (sound : Sound signals mtx results state)
    (single : signals mtx = 1) (looking : 0 < state.looking) :
    Sound signals mtx (results ++ [.quiet]) (state.readerLooks mtx) := by
  have counted := sound.counted
  have one := sound.one single
  rw [CoRWMutex.readerLooks]
  split
  · rename_i unlocked
    apply sound.quiet
    · rfl
    · rfl
    · simp only
      omega
    · intro writing
      simp only at writing
      omega
  · apply sound.quiet
    · rfl
    · rfl
    · simp only
      omega
    · exact sound.apart

theorem Sound.step (sound : Sound signals mtx results state)
    (single : signals mtx = 1) {event : RWEvent τ β π}
    (stepped : state.step maxWakeup mtx event = some (answer, next)) :
    Sound signals mtx (results ++ [answer]) next := by
  have counted := sound.counted
  have apart := sound.apart
  cases event with
  | runtime event => exact sound.runtimeStep stepped
  | readerCounts =>
      obtain ⟨rfl, rfl⟩ := Prod.mk.inj (Option.some.inj stepped)
      apply sound.quiet
      · rfl
      · rfl
      · simp only
        omega
      · exact apart
  | readerLooks =>
      simp only [CoRWMutex.step] at stepped
      split at stepped
      · rename_i looking
        obtain ⟨rfl, rfl⟩ := Prod.mk.inj (Option.some.inj stepped)
        exact sound.readerLooks single looking
      · cases stepped
  | readerRetreats =>
      simp only [CoRWMutex.step] at stepped
      split at stepped
      · obtain ⟨rfl, rfl⟩ := Prod.mk.inj (Option.some.inj stepped)
        apply sound.quiet
        · rfl
        · rfl
        · simp only
          omega
        · exact apart
      · cases stepped
  | readerUnlocks =>
      simp only [CoRWMutex.step] at stepped
      split at stepped
      · obtain ⟨rfl, rfl⟩ := Prod.mk.inj (Option.some.inj stepped)
        apply sound.quiet
        · rfl
        · rfl
        · simp only
          omega
        · intro writing
          have none := apart writing
          simp only
          omega
      · cases stepped
  | writerEnters =>
      simp only [CoRWMutex.step] at stepped
      split at stepped
      · obtain ⟨rfl, rfl⟩ := Prod.mk.inj (Option.some.inj stepped)
        apply sound.quiet
        · rfl
        · simp only
          omega
        · exact counted
        · intro _
          simp only
          omega
      · cases stepped
  | writerGivesUp =>
      simp only [CoRWMutex.step] at stepped
      split at stepped
      · refine sound.unlock stepped rfl ?_ counted apart
        simp only
        omega
      · cases stepped
  | writerUnlocks =>
      simp only [CoRWMutex.step] at stepped
      split at stepped
      · rename_i writing
        refine sound.unlock stepped rfl ?_ counted fun _ => apart writing
        simp only
        omega
      · cases stepped

theorem sound_of_run (single : signals mtx = 1)
    (ran : answers (CoRWMutex.step maxWakeup mtx) (CoRWMutex.new signals)
      events = some (results, state)) : Sound signals mtx results state := by
  have start : Sound signals mtx []
      (CoRWMutex.new signals : CoRWMutex τ β π) :=
    ⟨.new signals, rfl, rfl, fun _ => rfl⟩
  have anyway : Throughout (fun state event =>
      (CoRWMutex.step maxWakeup mtx state event).map Prod.snd)
      (fun _ _ => True) (CoRWMutex.new signals) events :=
    throughout_of_forall events fun _ _ => trivial
  exact invariant_of_answers (fun _ {_ _ _ _} sound _ stepped =>
    sound.step single stepped) events start anyway ran

/-- In every order of steps there is one writer at most, and no reader beside
it. -/
theorem readers_or_writer (single : signals mtx = 1)
    (ran : answers (CoRWMutex.step maxWakeup mtx) (CoRWMutex.new signals)
      events = some (results, state)) :
    state.holding + state.writing ≤ 1 ∧
      (0 < state.writing → state.reading = 0) ∧
      state.readersC = state.looking + state.reading + state.retreating := by
  have sound := sound_of_run single ran
  have one := sound.one single
  exact ⟨by omega, sound.apart, sound.counted⟩

/-- A writer that has the mutex can unlock it. -/
theorem Sound.can_unlock {held : CoRWMutex τ β π}
    (sound : Sound signals mtx results held) (single : signals mtx = 1)
    (room : 0 < maxWakeup mtx) (has : 0 < held.holding + held.writing)
    (state : CoRWMutex τ β π) (same : state.runtime = held.runtime) :
    ∃ next, state.unlock maxWakeup mtx = some (.posted mtx, next) := by
  obtain ⟨contents, keeps⟩ := sound.reached.keeps
  have one := sound.one single
  obtain ⟨after, stepped⟩ := Runtime.posts_of_room keeps
    (show held.runtime.wakeup mtx < maxWakeup mtx by omega)
  refine ⟨{ state with runtime := after }, ?_⟩
  rw [CoRWMutex.unlock, same, stepped, Option.bind_some]
  exact if_pos rfl

/-- No unlock of a thread that has locked throws or fails its assertion. -/
theorem unlocks_succeed (single : signals mtx = 1)
    (room : 0 < maxWakeup mtx)
    (ran : answers (CoRWMutex.step maxWakeup mtx) (CoRWMutex.new signals)
      events = some (results, state)) :
    (0 < state.writing → ∃ next,
        state.step maxWakeup mtx .writerUnlocks =
          some (.posted mtx, next)) ∧
      (0 < state.holding → state.readersC ≠ 0 → ∃ next,
        state.step maxWakeup mtx .writerGivesUp =
          some (.posted mtx, next)) ∧
      (0 < state.reading → ∃ next,
        state.step maxWakeup mtx .readerUnlocks = some (.quiet, next)) := by
  have sound := sound_of_run single ran
  have counted := sound.counted
  refine ⟨?_, ?_, ?_⟩
  · intro writing
    obtain ⟨next, unlocked⟩ := sound.can_unlock single room (by omega)
      { state with writing := state.writing - 1 } rfl
    refine ⟨next, ?_⟩
    simp only [CoRWMutex.step, if_pos writing]
    exact unlocked
  · intro holding readers
    obtain ⟨next, unlocked⟩ := sound.can_unlock single room (by omega)
      { state with holding := state.holding - 1 } rfl
    refine ⟨next, ?_⟩
    simp only [CoRWMutex.step, if_pos (And.intro holding readers)]
    exact unlocked
  · intro reading
    have counts : 0 ≤ state.readersC - 1 := by omega
    simp only [CoRWMutex.step, if_pos (And.intro reading counts)]
    exact ⟨_, rfl⟩

theorem runtimeStep_quiet (state : CoRWMutex τ β π)
    {event : RuntimeEvent τ β π}
    (isStep : state.runtime.step maxWakeup event = some (.quiet, after))
    (notWake : event.wakes mtx = false) :
    state.step maxWakeup mtx (.runtime event) =
      some (.quiet, { state with runtime := after }) := by
  rw [CoRWMutex.step, CoRWMutex.runtimeStep, isStep]
  simp [notWake]

/-- A writer that was given the mutex before it was put to wait, and that
yields because there are readers, is put to wait for the mutex that it has. -/
theorem writer_waits_for_itself {proc : π} {name : τ}
    (single : signals mtx = 1)
    (ran : answers (CoRWMutex.step maxWakeup mtx) (CoRWMutex.new signals)
      events = some (results, state))
    (isName : state.runtime.hand proc = some name)
    (running : (state.runtime.task name).phase = .running proc)
    (stale : (state.runtime.task name).state = .sysBlock)
    (isBlock : (state.runtime.task name).block = some mtx)
    (has : 0 < state.holding) :
    ∃ last, answers (CoRWMutex.step maxWakeup mtx) state
        [.runtime (.coYield proc), .runtime (.switch proc)] =
        some ([.quiet, .quiet], last) ∧
      (last.runtime.task name).phase = .waiting mtx ∧
      last.holding = 1 ∧ last.writing = 0 ∧ last.runtime.wakeup mtx = 0 := by
  have sound := sound_of_run single ran
  have one := sound.one single
  have noSignal : ¬ 0 < state.runtime.wakeup mtx := by omega
  obtain ⟨contents, keeps⟩ := sound.reached.keeps
  obtain ⟨left, last, yielded, switched, waits⟩ :=
    keeps.yield_stale maxWakeup isName running stale isBlock
  rw [if_neg noSignal] at waits
  have first : state.step maxWakeup mtx (.runtime (.coYield proc)) = _ :=
    state.runtimeStep_quiet yielded rfl
  have soundFirst := sound.step single first
  have second : { state with runtime := left }.step maxWakeup mtx
      (.runtime (.switch proc)) = _ :=
    runtimeStep_quiet { state with runtime := left } switched rfl
  have soundSecond := soundFirst.step single second
  have oneAfter := soundSecond.one single
  simp only at oneAfter
  refine ⟨{ state with runtime := last }, ?_, waits, ?_, ?_, ?_⟩
  · simp only [answers, first, second, Option.bind_some, Option.map_some]
  · simp only
    omega
  · simp only
    omega
  · simp only
    omega

end Exclusion

end CoRWMutex

namespace Example

/-- As in a `CoMutex`. -/
def oneSignal (_ : Unit) : Nat := 1

theorem single : oneSignal () = 1 := rfl

def free : CoRWMutex Bool Unit Unit := .new oneSignal

def rwStep : CoRWMutex Bool Unit Unit → RWEvent Bool Unit Unit →
    Option (RuntimeAnswer Unit × CoRWMutex Bool Unit Unit) :=
  CoRWMutex.step oneSignal ()

/-- A reader is inside when a writer gets the mutex. -/
def readerFirst : List (RWEvent Bool Unit Unit) :=
  [.readerCounts, .readerLooks, .runtime (.tryBlockWait ()), .readerUnlocks,
    .writerEnters, .readerCounts]

theorem readers_or_writer_readerFirst :
    ∃ results state, answers rwStep free readerFirst = some (results, state) ∧
      state.writing = 1 ∧ state.reading = 0 := by
  have ran : ∃ results state, answers rwStep free readerFirst =
      some (results, state) ∧ state.writing = 1 := ⟨_, _, rfl, rfl⟩
  obtain ⟨results, state, ran, writing⟩ := ran
  obtain ⟨_, apart, _⟩ := CoRWMutex.readers_or_writer single ran
  exact ⟨results, state, ran, writing, apart (by omega)⟩

theorem unlocks_succeed_readerFirst :
    ∃ results state next,
      answers rwStep free readerFirst = some (results, state) ∧
      rwStep state .writerUnlocks = some (.posted (), next) := by
  have ran : ∃ results state, answers rwStep free readerFirst =
      some (results, state) ∧ state.writing = 1 := ⟨_, _, rfl, rfl⟩
  obtain ⟨results, state, ran, writing⟩ := ran
  obtain ⟨unlocks, _⟩ := CoRWMutex.unlocks_succeed single Nat.one_pos ran
  obtain ⟨next, unlocked⟩ := unlocks (by omega)
  exact ⟨results, state, next, ran, unlocked⟩

/-- A writer unlocks when the next one is about to wait, and a reader
comes. -/
def lateMutex : List (RWEvent Bool Unit Unit) :=
  [.runtime (.tryBlockWait ()), .writerEnters, .runtime (.createTask true),
    .runtime (.addTaskRunnable true ()), .runtime (.run ()),
    .runtime (.coBlockWait () () 0), .writerUnlocks, .runtime (.switch ()),
    .readerCounts, .runtime (.grant ()), .runtime (.run ())]

theorem writer_waits_for_itself_late :
    ∃ results state last,
      answers rwStep free lateMutex = some (results, state) ∧
      state.holding = 1 ∧ state.readersC = 1 ∧
      answers rwStep state [.runtime (.coYield ()), .runtime (.switch ())] =
        some ([.quiet, .quiet], last) ∧
      (last.runtime.task true).phase = .waiting () := by
  have ran : ∃ results state, answers rwStep free lateMutex =
      some (results, state) ∧ state.holding = 1 ∧ state.readersC = 1 ∧
        state.runtime.hand () = some true ∧
        (state.runtime.task true).phase = .running () ∧
        (state.runtime.task true).state = .sysBlock ∧
        (state.runtime.task true).block = some () :=
    ⟨_, _, rfl, rfl, rfl, rfl, rfl, rfl, rfl⟩
  obtain ⟨results, state, ran, holding, readers, isName, running, stale,
    isBlock⟩ := ran
  obtain ⟨last, yielded, waits, _⟩ := CoRWMutex.writer_waits_for_itself
    single ran isName running stale isBlock (by omega)
  exact ⟨results, state, last, ran, holding, readers, yielded, waits⟩

end Example

end Natsu.Libgo
