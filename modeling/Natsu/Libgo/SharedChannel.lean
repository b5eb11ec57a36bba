import Natsu.Libgo.Waiting

/-!
# Channels between threads

A channel is a queue of values between two block objects of the runtime.  A
writer needs a signal of the first one before it adds its value and gives one
to the second one then, a reader gives one to the first one before it needs a
signal of the second one.  The threads may do their steps in any order.
-/

namespace Natsu.Libgo

open Natsu.Foundation

/-- All but the runtime and the queue are for the proofs only. -/
structure SharedChannel (τ β π α : Type) where
  runtime : Runtime τ β π
  queue : List α := []
  pushed : List α := []
  popped : List α := []
  /-- Writers that were let in and have not added their value. -/
  writers : Nat := 0
  /-- Writers that have added their value and not told. -/
  telling : Nat := 0
  /-- Writers that have told an object that was full. -/
  refused : Nat := 0
  /-- Readers that were let in and have not taken a value. -/
  readers : Nat := 0
  /-- How many readers have come. -/
  comings : Nat := 0
  /-- How many readers have left without a value. -/
  leavings : Nat := 0

inductive ChannelEvent (τ β π α : Type) where
  | runtime (event : RuntimeEvent τ β π)
  | writerPushes (value : α)
  | writerTells
  | readerComes
  | readerPops
  /-- `TimedPop` and `TryPop` take back the signal that they gave. -/
  | readerLeaves

namespace SharedChannel

variable {τ β π α : Type} [DecidableEq τ] [DecidableEq β] [DecidableEq π]
  (maxWakeup : β → Nat) (writeBlock readBlock : β)
  (channel : SharedChannel τ β π α)

def new (signals : β → Nat) : SharedChannel τ β π α where
  runtime := Runtime.new signals

/-- A thread has got a signal of the object. -/
def gets (block : β) (answer : RuntimeAnswer β) : Bool :=
  answer = .returned block true || answer = .taken block

/-- A step of the runtime, in which a thread may be let in.  Only the channel
gives signals to its objects. -/
def runtimeStep (event : RuntimeEvent τ β π) :
    Option (RuntimeAnswer β × SharedChannel τ β π α) :=
  if event.wakes writeBlock || event.wakes readBlock then none
  else
    (channel.runtime.step maxWakeup event).map fun (answer, next) =>
      (answer, { channel with
        runtime := next
        writers := channel.writers + (gets writeBlock answer).toNat
        readers := channel.readers + (gets readBlock answer).toNat })

def step : ChannelEvent τ β π α →
    Option (RuntimeAnswer β × SharedChannel τ β π α)
  | .runtime event =>
      channel.runtimeStep maxWakeup writeBlock readBlock event
  | .writerPushes value =>
      if 0 < channel.writers then
        some (.quiet, { channel with
          queue := channel.queue ++ [value]
          pushed := channel.pushed ++ [value]
          writers := channel.writers - 1
          telling := channel.telling + 1 })
      else none
  | .writerTells =>
      if 0 < channel.telling then
        (channel.runtime.step maxWakeup (.wake readBlock)).map
          fun (answer, next) =>
            (answer, { channel with
              runtime := next
              telling := channel.telling - 1
              refused := channel.refused +
                if answer = .posted readBlock then 0 else 1 })
      else none
  | .readerComes =>
      (channel.runtime.step maxWakeup (.wake writeBlock)).map
        fun (answer, next) =>
          (answer, { channel with
            runtime := next, comings := channel.comings + 1 })
  | .readerPops =>
      if 0 < channel.readers then
        match channel.queue with
        | [] => none
        | value :: rest =>
            some (.quiet, { channel with
              queue := rest
              popped := channel.popped ++ [value]
              readers := channel.readers - 1 })
      else none
  | .readerLeaves =>
      (channel.runtime.step maxWakeup (.tryBlockWait writeBlock)).map
        fun (answer, next) =>
          (answer, { channel with
            runtime := next
            leavings := channel.leavings +
              (gets writeBlock answer).toNat })

section Values

variable {maxWakeup writeBlock readBlock channel} {signals : β → Nat}
  {block other : β} {runtime after : Runtime τ β π}
  {results : List (RuntimeAnswer β)} {answer : RuntimeAnswer β}
  {next : SharedChannel τ β π α} {events : List (ChannelEvent τ β π α)}

theorem answer_of_wake
    (stepped : runtime.step maxWakeup (.wake block) = some (answer, after)) :
    answer = .posted block ∨ answer = .quiet := by
  have able : runtime.Able (.wake block) := trivial
  rw [Runtime.step, if_pos able] at stepped
  simp only [Runtime.exec, Runtime.wake] at stepped
  split at stepped
  · split at stepped
    · exact .inl (Prod.mk.inj (Option.some.inj stepped)).1.symm
    · exact .inr (Prod.mk.inj (Option.some.inj stepped)).1.symm
  · exact .inl (Prod.mk.inj (Option.some.inj stepped)).1.symm
  · cases stepped

theorem answer_of_tryBlockWait
    (stepped : runtime.step maxWakeup (.tryBlockWait block) =
      some (answer, after)) :
    answer = .taken block ∨ answer = .quiet := by
  have able : runtime.Able (.tryBlockWait block) := trivial
  rw [Runtime.step, if_pos able] at stepped
  have isNext := Option.some.inj stepped
  rw [Runtime.tryBlockWait] at isNext
  split at isNext
  · exact .inl (Prod.mk.inj isNext).1.symm
  · exact .inr (Prod.mk.inj isNext).1.symm

/-- How many threads have got a signal of the object. -/
def gotten (block : β) (results : List (RuntimeAnswer β)) : Nat :=
  results.count (.returned block true) + results.count (.taken block)

theorem gotten_append (block : β) (results : List (RuntimeAnswer β))
    (answer : RuntimeAnswer β) :
    gotten block (results ++ [answer]) =
      gotten block results + (gets block answer).toNat := by
  simp only [gotten, gets, List.count_append, List.count_singleton]
  by_cases returned : answer = .returned block true
  · subst returned
    simp
    omega
  · by_cases taken : answer = .taken block
    · subst taken
      simp
      omega
    · simp [returned, taken]

theorem posted_append (block : β) (results : List (RuntimeAnswer β))
    (answer : RuntimeAnswer β) :
    (results ++ [answer]).count (.posted block) =
      results.count (.posted block) +
        if answer = .posted block then 1 else 0 := by
  simp [List.count_append, List.count_singleton]

/-- Where the threads of the channel are, and what became of its values. -/
structure Sound (signals : β → Nat) (writeBlock readBlock : β)
    (results : List (RuntimeAnswer β)) (channel : SharedChannel τ β π α) :
    Prop where
  reached : Runtime.Reached signals results channel.runtime
  admitted : gotten writeBlock results =
    channel.pushed.length + channel.writers + channel.leavings
  came : results.count (.posted writeBlock) ≤ channel.comings
  letIn : gotten readBlock results = channel.popped.length + channel.readers
  told : results.count (.posted readBlock) + channel.telling +
    channel.refused = channel.pushed.length
  order : channel.popped ++ channel.queue = channel.pushed

/-- Every reader that was let in has a value. -/
theorem Sound.claimed
    (sound : Sound signals writeBlock readBlock results channel)
    (empty : signals readBlock = 0) :
    channel.queue.length = channel.runtime.wakeup readBlock +
      (channel.runtime.onWay readBlock).length +
      channel.runtime.lost readBlock + channel.readers + channel.telling +
      channel.refused := by
  have total := sound.reached.total readBlock
  have letIn := sound.letIn
  have told := sound.told
  have length := congrArg List.length sound.order
  rw [List.length_append] at length
  rw [Runtime.balance, empty] at total
  rw [gotten] at letIn
  omega

theorem Sound.runtimeStep
    (sound : Sound signals writeBlock readBlock results channel)
    {event : RuntimeEvent τ β π}
    (ran : channel.runtimeStep maxWakeup writeBlock readBlock event =
      some (answer, next)) :
    Sound signals writeBlock readBlock (results ++ [answer]) next := by
  obtain ⟨reached, admitted, came, letIn, told, order⟩ := sound
  rw [SharedChannel.runtimeStep] at ran
  split at ran
  · cases ran
  · rename_i notWake
    obtain ⟨⟨given, after⟩, stepped, isNext⟩ :=
      Option.map_eq_some_iff.mp ran
    obtain ⟨rfl, rfl⟩ := Prod.mk.inj isNext
    simp only [Bool.or_eq_true, not_or] at notWake
    have notWrite : given ≠ .posted writeBlock := by
      intro posted
      exact notWake.1 (Runtime.wake_of_posted (posted ▸ stepped))
    have notRead : given ≠ .posted readBlock := by
      intro posted
      exact notWake.2 (Runtime.wake_of_posted (posted ▸ stepped))
    refine ⟨reached.step stepped, ?_, ?_, ?_, ?_, order⟩
    · rw [gotten_append, admitted]
      simp only
      omega
    · rw [posted_append, if_neg notWrite]
      exact came
    · rw [gotten_append, letIn]
      simp only
      omega
    · rw [posted_append, if_neg notRead]
      exact told

/-- A step that leaves the runtime alone. -/
theorem Sound.quiet
    (sound : Sound signals writeBlock readBlock results channel)
    (same : next.runtime = channel.runtime)
    (admitted : next.pushed.length + next.writers + next.leavings =
      channel.pushed.length + channel.writers + channel.leavings)
    (came : next.comings = channel.comings)
    (letIn : next.popped.length + next.readers =
      channel.popped.length + channel.readers)
    (told : next.pushed.length + channel.telling + channel.refused =
      channel.pushed.length + next.telling + next.refused)
    (order : next.popped ++ next.queue = next.pushed) :
    Sound signals writeBlock readBlock (results ++ [.quiet]) next where
  reached := same ▸ sound.reached.quiet
  admitted := by
    have before := sound.admitted
    rw [gotten_append]
    simp only [gets]
    simp
    omega
  came := by
    have before := sound.came
    rw [posted_append, came]
    simpa using before
  letIn := by
    have before := sound.letIn
    rw [gotten_append]
    simp only [gets]
    simp
    omega
  told := by
    have before := sound.told
    rw [posted_append]
    simp
    omega
  order := order

theorem Sound.writerTells
    (sound : Sound signals writeBlock readBlock results channel)
    (distinct : writeBlock ≠ readBlock) (telling : 0 < channel.telling)
    (stepped : channel.runtime.step maxWakeup (.wake readBlock) =
      some (answer, after)) :
    Sound signals writeBlock readBlock (results ++ [answer]) { channel with
      runtime := after
      telling := channel.telling - 1
      refused := channel.refused +
        if answer = .posted readBlock then 0 else 1 } := by
  obtain ⟨reached, admitted, came, letIn, told, order⟩ := sound
  have isReached := reached.step stepped
  rcases answer_of_wake stepped with rfl | rfl
  · refine ⟨isReached, ?_, ?_, ?_, ?_, order⟩
    · simpa [gotten_append, gets] using admitted
    · simpa [posted_append, Ne.symm distinct] using came
    · simpa [gotten_append, gets] using letIn
    · simp
      omega
  · refine ⟨isReached, ?_, ?_, ?_, ?_, order⟩
    · simpa [gotten_append, gets] using admitted
    · simpa [posted_append] using came
    · simpa [gotten_append, gets] using letIn
    · simp
      omega

theorem Sound.readerComes
    (sound : Sound signals writeBlock readBlock results channel)
    (distinct : writeBlock ≠ readBlock)
    (stepped : channel.runtime.step maxWakeup (.wake writeBlock) =
      some (answer, after)) :
    Sound signals writeBlock readBlock (results ++ [answer]) { channel with
      runtime := after, comings := channel.comings + 1 } := by
  obtain ⟨reached, admitted, came, letIn, told, order⟩ := sound
  have isReached := reached.step stepped
  rcases answer_of_wake stepped with rfl | rfl
  · refine ⟨isReached, ?_, ?_, ?_, ?_, order⟩
    · simpa [gotten_append, gets] using admitted
    · simpa [posted_append] using came
    · simpa [gotten_append, gets] using letIn
    · simpa [posted_append, distinct] using told
  · refine ⟨isReached, ?_, ?_, ?_, ?_, order⟩
    · simpa [gotten_append, gets] using admitted
    · simp
      omega
    · simpa [gotten_append, gets] using letIn
    · simpa [posted_append] using told

theorem Sound.readerLeaves
    (sound : Sound signals writeBlock readBlock results channel)
    (distinct : writeBlock ≠ readBlock)
    (stepped : channel.runtime.step maxWakeup (.tryBlockWait writeBlock) =
      some (answer, after)) :
    Sound signals writeBlock readBlock (results ++ [answer]) { channel with
      runtime := after
      leavings := channel.leavings + (gets writeBlock answer).toNat } := by
  obtain ⟨reached, admitted, came, letIn, told, order⟩ := sound
  have isReached := reached.step stepped
  rcases answer_of_tryBlockWait stepped with rfl | rfl
  · refine ⟨isReached, ?_, ?_, ?_, ?_, order⟩
    · simp [gotten_append, gets]
      omega
    · simpa [posted_append] using came
    · simpa [gotten_append, gets, distinct] using letIn
    · simpa [posted_append] using told
  · refine ⟨isReached, ?_, ?_, ?_, ?_, order⟩
    · simpa [gotten_append, gets] using admitted
    · simpa [posted_append] using came
    · simpa [gotten_append, gets] using letIn
    · simpa [posted_append] using told

theorem Sound.step
    (sound : Sound signals writeBlock readBlock results channel)
    (distinct : writeBlock ≠ readBlock) {event : ChannelEvent τ β π α}
    (stepped : channel.step maxWakeup writeBlock readBlock event =
      some (answer, next)) :
    Sound signals writeBlock readBlock (results ++ [answer]) next := by
  cases event with
  | runtime event => exact sound.runtimeStep stepped
  | writerPushes value =>
      simp only [SharedChannel.step] at stepped
      split at stepped
      · obtain ⟨rfl, rfl⟩ := Prod.mk.inj (Option.some.inj stepped)
        apply sound.quiet
        · rfl
        · simp only [List.length_append, List.length_singleton]
          omega
        · rfl
        · rfl
        · simp only [List.length_append, List.length_singleton]
          omega
        · simp only [← sound.order, List.append_assoc]
      · cases stepped
  | writerTells =>
      simp only [SharedChannel.step] at stepped
      split at stepped
      · rename_i telling
        obtain ⟨⟨given, after⟩, woke, isNext⟩ :=
          Option.map_eq_some_iff.mp stepped
        obtain ⟨rfl, rfl⟩ := Prod.mk.inj isNext
        exact sound.writerTells distinct telling woke
      · cases stepped
  | readerComes =>
      obtain ⟨⟨given, after⟩, woke, isNext⟩ :=
        Option.map_eq_some_iff.mp stepped
      obtain ⟨rfl, rfl⟩ := Prod.mk.inj isNext
      exact sound.readerComes distinct woke
  | readerPops =>
      simp only [SharedChannel.step] at stepped
      split at stepped
      · split at stepped
        · cases stepped
        · rename_i value rest isQueue
          obtain ⟨rfl, rfl⟩ := Prod.mk.inj (Option.some.inj stepped)
          apply sound.quiet
          · rfl
          · rfl
          · rfl
          · simp only [List.length_append, List.length_singleton]
            omega
          · rfl
          · simp only [← sound.order, isQueue, List.append_assoc,
              List.singleton_append]
      · cases stepped
  | readerLeaves =>
      simp only [SharedChannel.step] at stepped
      obtain ⟨⟨given, after⟩, tried, isNext⟩ :=
        Option.map_eq_some_iff.mp stepped
      obtain ⟨rfl, rfl⟩ := Prod.mk.inj isNext
      exact sound.readerLeaves distinct tried

theorem sound_of_run
    (distinct : writeBlock ≠ readBlock)
    (ran : answers (SharedChannel.step maxWakeup writeBlock readBlock)
      (SharedChannel.new signals) events = some (results, channel)) :
    Sound signals writeBlock readBlock results channel := by
  have start : Sound signals writeBlock readBlock []
      (SharedChannel.new signals : SharedChannel τ β π α) :=
    ⟨.new signals, rfl, Nat.zero_le 0, rfl, rfl, rfl⟩
  have anyway : Throughout (fun state event =>
      (SharedChannel.step maxWakeup writeBlock readBlock state event).map
        Prod.snd)
      (fun _ _ => True) (SharedChannel.new signals) events :=
    throughout_of_forall events fun _ _ => trivial
  exact invariant_of_answers (fun _ {_ _ _ _} sound _ stepped =>
    sound.step distinct stepped) events start anyway ran

/-- No value is lost, doubled or overtaken, every reader that is let in finds
one, and the values in the queue are those that readers have been or will be
let in for, those whose writer has not told yet, and those whose signal was
refused or used up by a yield. -/
theorem values_in_order
    (distinct : writeBlock ≠ readBlock)
    (ran : answers (SharedChannel.step maxWakeup writeBlock readBlock)
      (SharedChannel.new signals) events = some (results, channel))
    (empty : signals readBlock = 0) :
    channel.popped ++ channel.queue = channel.pushed ∧
      (0 < channel.readers → ∃ next,
        channel.step maxWakeup writeBlock readBlock .readerPops =
          some (.quiet, next)) ∧
      channel.queue.length = channel.runtime.wakeup readBlock +
        (channel.runtime.onWay readBlock).length +
        channel.runtime.lost readBlock + channel.readers + channel.telling +
        channel.refused := by
  have sound := sound_of_run distinct ran
  have claimed := sound.claimed empty
  refine ⟨sound.order, ?_, claimed⟩
  intro readers
  cases isQueue : channel.queue with
  | nil =>
      rw [isQueue, List.length_nil] at claimed
      omega
  | cons value rest =>
      simp only [SharedChannel.step, if_pos readers, isQueue]
      exact ⟨_, rfl⟩

/-- The values in the queue and the writers that were let in are not more than
the capacity and the readers that have come and neither left nor taken a
value. -/
theorem channel_bounded
    (distinct : writeBlock ≠ readBlock)
    (ran : answers (SharedChannel.step maxWakeup writeBlock readBlock)
      (SharedChannel.new signals) events = some (results, channel)) :
    channel.queue.length + channel.writers +
        (channel.leavings + channel.popped.length) ≤
      signals writeBlock + channel.comings := by
  have sound := sound_of_run distinct ran
  have total := sound.reached.total writeBlock
  have admitted := sound.admitted
  have came := sound.came
  have length := congrArg List.length sound.order
  rw [List.length_append] at length
  rw [gotten] at admitted
  omega

end Values

end SharedChannel

namespace Example

/-- The object for writers has one signal at first. -/
def capacity (block : Bool) : Nat := if block then 0 else 1

def channelStep : SharedChannel Bool Bool Unit Nat →
    ChannelEvent Bool Bool Unit Nat →
    Option (RuntimeAnswer Bool × SharedChannel Bool Bool Unit Nat) :=
  SharedChannel.step (fun _ => 9) false true

/-- A reader waits until a writer has told its value. -/
def delivery : List (ChannelEvent Bool Bool Unit Nat) :=
  [.readerComes, .runtime (.createTask true),
    .runtime (.addTaskRunnable true ()), .runtime (.run ()),
    .runtime (.coBlockWait () true 0), .runtime (.switch ()),
    .runtime (.tryBlockWait false), .writerPushes 7, .writerTells,
    .runtime (.cancelTimer true), .runtime (.addTaskRunnable true ()),
    .runtime (.run ())]

theorem values_in_order_delivery :
    ∃ results channel next,
      answers channelStep (.new capacity) delivery =
        some (results, channel) ∧
      channel.queue = [7] ∧
      channelStep channel .readerPops = some (.quiet, next) := by
  have ran : ∃ results channel, answers channelStep (.new capacity) delivery =
      some (results, channel) ∧ channel.queue = [7] ∧
        channel.readers = 1 := ⟨_, _, rfl, rfl, rfl⟩
  obtain ⟨results, channel, ran, isQueue, readers⟩ := ran
  have distinct : false ≠ true := Bool.false_ne_true
  have empty : capacity true = 0 := rfl
  obtain ⟨_, pops, _⟩ := SharedChannel.values_in_order distinct ran empty
  obtain ⟨next, popped⟩ := pops (by omega)
  exact ⟨results, channel, next, ran, isQueue, popped⟩

theorem channel_bounded_delivery :
    ∃ results channel,
      answers channelStep (.new capacity) delivery =
        some (results, channel) ∧
      channel.queue.length + channel.writers +
        (channel.leavings + channel.popped.length) ≤ 2 := by
  have ran : ∃ results channel, answers channelStep (.new capacity) delivery =
      some (results, channel) ∧ channel.comings = 1 := ⟨_, _, rfl, rfl⟩
  obtain ⟨results, channel, ran, comings⟩ := ran
  have distinct : false ≠ true := Bool.false_ne_true
  have bounded := SharedChannel.channel_bounded distinct ran
  rw [comings] at bounded
  exact ⟨results, channel, ran, bounded⟩

end Example

end Natsu.Libgo
