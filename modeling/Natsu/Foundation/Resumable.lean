import Natsu.Foundation.Loop

/-!
# Resumable loops

A parser that works on a buffer runs a loop that may find its input too short
and wait.  The input then arrives in pieces: each piece is appended to the
buffer and the loop is run again.  The laws below say when the pieces do not
matter.
-/

namespace Natsu.Foundation

namespace Loop

variable {σ ρ : Type}

/-- The states a run goes through. -/
def Passes (loop : Loop σ ρ) : σ → σ → Prop :=
  Relation.ReflTransGen fun state next => loop.body state = .inl next

theorem forall_passes_iff (loop : Loop σ ρ) (property : σ → Prop) (state : σ) :
    (∀ later, loop.Passes state later → property later) ↔
      property state ∧ ∀ next, loop.body state = .inl next →
        ∀ later, loop.Passes next later → property later := by
  constructor
  · intro all
    exact ⟨all state .refl, fun next round later passes =>
      all later (.head round passes)⟩
  · rintro ⟨here, further⟩ later passes
    rcases Relation.ReflTransGen.cases_head passes with rfl | ⟨next, round, rest⟩
    · exact here
    · exact further next round later rest

theorem Passes.run_eq {loop : Loop σ ρ} {state later : σ}
    (passes : loop.Passes state later) : loop.run state = loop.run later := by
  induction passes with
  | refl => rfl
  | tail _ round induction => rw [induction, loop.run_next round]

/-- A run ends in the state whose body leaves with the result. -/
theorem exists_last (loop : Loop σ ρ) (state : σ) :
    ∃ last, loop.Passes state last ∧ loop.body last = .inr (loop.run state) := by
  induction state using loop.induct with
  | round state induction =>
      cases round : loop.body state with
      | inl next =>
          obtain ⟨last, passes, leaves⟩ := induction next round
          rw [← loop.run_next round] at leaves
          exact ⟨last, .head round passes, leaves⟩
      | inr result =>
          rw [← loop.run_leave round] at round
          exact ⟨state, .refl, round⟩

/-- The loop that checks a property along the rounds of another. -/
def along (loop : Loop σ ρ) (property : σ → Prop)
    [DecidablePred property] : Loop σ Bool where
  body state :=
    if property state then loop.body state |>.map id fun _ => true
    else .inr false
  measure := loop.measure
  decreases := by
    intro state next round
    split at round
    · cases body : loop.body state with
      | inl other =>
          obtain rfl : other = next := by simpa [body] using round
          exact loop.decreases body
      | inr result => simp [body] at round
    · simp at round

theorem along_run (loop : Loop σ ρ) (property : σ → Prop)
    [DecidablePred property] (state : σ) :
    (loop.along property).run state = true ↔
      ∀ later, loop.Passes state later → property later := by
  induction state using loop.induct with
  | round state induction =>
      rw [forall_passes_iff, run_eq]
      by_cases holds : property state
      · cases round : loop.body state with
        | inl next => simp [along, holds, round, ← induction next round]
        | inr result => simp [along, holds, round]
      · simp [along, holds]

instance decidableForallPasses (loop : Loop σ ρ) (property : σ → Prop)
    [DecidablePred property] (state : σ) :
    Decidable (∀ later, loop.Passes state later → property later) :=
  decidable_of_iff _ (loop.along_run property state)

end Loop

/-- A loop whose states take more input.  A definite result is not disturbed
by more input as long as the extended state is `within` its limits, and
waiting changes nothing. -/
structure Resumable (σ α ν : Type) where
  loop : Loop σ (ν × σ)
  extend : σ → List α → σ
  wait : ν
  within : σ → Prop
  extend_nil : ∀ state, extend state [] = state
  extend_extend : ∀ state first second,
    extend (extend state first) second = extend state (first ++ second)
  next_extend : ∀ {state next} input, loop.body state = .inl next →
    loop.body (extend state input) = .inl (extend next input)
  leave_extend : ∀ {state verdict next} input,
    loop.body state = .inr (verdict, next) → verdict ≠ wait →
    within (extend state input) →
    loop.body (extend state input) = .inr (verdict, extend next input)
  wait_eq : ∀ {state next}, loop.body state = .inr (wait, next) →
    next = state

namespace Resumable

variable {σ α ν : Type} (machine : Resumable σ α ν)

/-- Every state the run from here goes through is within its limits. -/
def Limited (state : σ) : Prop :=
  ∀ later, machine.loop.Passes state later → machine.within later

variable {machine}

theorem Limited.next {state next : σ} (limited : machine.Limited state)
    (round : machine.loop.body state = .inl next) : machine.Limited next :=
  fun later passes => limited later (.head round passes)

/-- A run that waits stops in a state from which it waits at once. -/
theorem run_of_wait {state stopped : σ}
    (waits : machine.loop.run state = (machine.wait, stopped)) :
    machine.loop.run stopped = (machine.wait, stopped) := by
  induction state using machine.loop.induct with
  | round state induction =>
      cases round : machine.loop.body state with
      | inl next =>
          rw [machine.loop.run_next round] at waits
          exact induction next round waits
      | inr result =>
          rw [machine.loop.run_leave round] at waits
          subst waits
          obtain rfl := machine.wait_eq round
          exact machine.loop.run_leave round

/-- After waiting, a run resumes where a run with all the input would be. -/
theorem run_resume {state stopped : σ} (input : List α)
    (waits : machine.loop.run state = (machine.wait, stopped)) :
    machine.loop.run (machine.extend state input) =
      machine.loop.run (machine.extend stopped input) := by
  induction state using machine.loop.induct with
  | round state induction =>
      cases round : machine.loop.body state with
      | inl next =>
          rw [machine.loop.run_next round] at waits
          rw [machine.loop.run_next (machine.next_extend input round)]
          exact induction next round waits
      | inr result =>
          rw [machine.loop.run_leave round] at waits
          subst waits
          obtain rfl := machine.wait_eq round
          rfl

/-- The run that resumes stays within the limits of the other. -/
theorem Limited.resume {state stopped : σ} (input : List α)
    (limited : machine.Limited (machine.extend state input))
    (waits : machine.loop.run state = (machine.wait, stopped)) :
    machine.Limited (machine.extend stopped input) := by
  induction state using machine.loop.induct with
  | round state induction =>
      cases round : machine.loop.body state with
      | inl next =>
          rw [machine.loop.run_next round] at waits
          exact induction next round
            (limited.next (machine.next_extend input round)) waits
      | inr result =>
          rw [machine.loop.run_leave round] at waits
          subst waits
          obtain rfl := machine.wait_eq round
          exact limited

/-- A definite verdict is that of every longer input. -/
theorem run_extend_of_verdict {state stopped : σ} {verdict : ν}
    (input : List α) (definite : verdict ≠ machine.wait)
    (limited : machine.Limited (machine.extend state input))
    (run : machine.loop.run state = (verdict, stopped)) :
    machine.loop.run (machine.extend state input) =
      (verdict, machine.extend stopped input) := by
  induction state using machine.loop.induct with
  | round state induction =>
      cases round : machine.loop.body state with
      | inl next =>
          have extended := machine.next_extend input round
          rw [machine.loop.run_next round] at run
          rw [machine.loop.run_next extended]
          exact induction next round (limited.next extended) run
      | inr result =>
          rw [machine.loop.run_leave round] at run
          subst run
          exact machine.loop.run_leave
            (machine.leave_extend input round definite (limited _ .refl))

variable (machine) in
/-- Give the pieces one by one until the first definite verdict.  The result
holds the verdict, the state and the pieces that were not given. -/
def feed [DecidableEq ν] : σ → List (List α) → ν × σ × List (List α)
  | state, [] => (machine.wait, state, [])
  | state, piece :: pieces =>
      let (verdict, next) := machine.loop.run (machine.extend state piece)
      if verdict = machine.wait then feed next pieces
      else (verdict, next, pieces)

/-- The verdict on the last piece is that of one run on all pieces, whatever
the limits. -/
theorem run_of_feed [DecidableEq ν] (pieces : List (List α)) :
    ∀ {state final : σ} {verdict : ν},
      machine.loop.run state = (machine.wait, state) →
      machine.feed state pieces = (verdict, final, []) →
      machine.loop.run (machine.extend state pieces.flatten) =
        (verdict, final) := by
  induction pieces with
  | nil =>
      intro state final verdict waits fed
      obtain ⟨rfl, rfl⟩ : machine.wait = verdict ∧ state = final := by
        simpa [feed] using fed
      rwa [List.flatten_nil, machine.extend_nil]
  | cons piece pieces induction =>
      intro state final verdict _ fed
      rw [List.flatten_cons, ← machine.extend_extend]
      cases run : machine.loop.run (machine.extend state piece) with
      | mk result next =>
          simp only [feed, run] at fed
          by_cases isWait : result = machine.wait
          · subst isWait
            rw [if_pos rfl] at fed
            rw [run_resume pieces.flatten run]
            exact induction (run_of_wait run) fed
          · rw [if_neg isWait] at fed
            obtain ⟨rfl, rfl, rfl⟩ := fed
            rwa [List.flatten_nil, machine.extend_nil]

/-- The pieces that were given: before the last of them the machine waits. -/
theorem feed_split [DecidableEq ν] (pieces : List (List α)) (state : σ) :
    ∃ given, pieces = given ++ (machine.feed state pieces).2.2 ∧
      machine.feed state given = ((machine.feed state pieces).1,
        (machine.feed state pieces).2.1, []) ∧
      ∀ earlier later, given = earlier ++ later → later ≠ [] →
        ∃ next, machine.feed state earlier = (machine.wait, next, []) := by
  induction pieces generalizing state with
  | nil =>
      refine ⟨[], rfl, rfl, ?_⟩
      intro earlier later split nonempty
      exact absurd (List.append_eq_nil_iff.mp split.symm).2 nonempty
  | cons piece pieces induction =>
      cases run : machine.loop.run (machine.extend state piece) with
      | mk verdict next =>
          by_cases isWait : verdict = machine.wait
          · subst isWait
            have fed : ∀ pieces, machine.feed state (piece :: pieces) =
                machine.feed next pieces := by
              intro pieces
              simp [feed, run]
            obtain ⟨given, split, isGiven, waits⟩ := induction next
            refine ⟨piece :: given, ?_, ?_, ?_⟩
            · rw [fed, List.cons_append, ← split]
            · rw [fed, fed, isGiven]
            · intro earlier later isSplit nonempty
              cases earlier with
              | nil => exact ⟨state, rfl⟩
              | cons first earlier =>
                  obtain ⟨rfl, rest⟩ := List.cons.inj isSplit
                  rw [fed]
                  exact waits earlier later rest nonempty
          · have fed : ∀ pieces, machine.feed state (piece :: pieces) =
                (verdict, next, pieces) := by
              intro pieces
              simp [feed, run, isWait]
            refine ⟨[piece], ?_, ?_, ?_⟩
            · rw [fed]
              rfl
            · rw [fed, fed]
            · intro earlier later isSplit nonempty
              cases earlier with
              | nil => exact ⟨state, rfl⟩
              | cons first earlier =>
                  obtain ⟨_, rest⟩ := List.cons.inj isSplit
                  exact absurd (List.append_eq_nil_iff.mp rest.symm).2 nonempty

theorem unread_of_wait [DecidableEq ν] (pieces : List (List α)) (state : σ)
    (waits : (machine.feed state pieces).1 = machine.wait) :
    (machine.feed state pieces).2.2 = [] := by
  induction pieces generalizing state with
  | nil => rfl
  | cons piece pieces induction =>
      simp only [feed] at waits ⊢
      split at waits
      · rename_i isWait
        rw [if_pos isWait]
        exact induction _ waits
      · contradiction

/-- Feeding pieces to a waiting state is running it once on all of them. -/
theorem run_flatten [DecidableEq ν] (pieces : List (List α)) :
    ∀ state : σ, machine.loop.run state = (machine.wait, state) →
      machine.Limited (machine.extend state pieces.flatten) →
      machine.loop.run (machine.extend state pieces.flatten) =
        ((machine.feed state pieces).1,
          machine.extend (machine.feed state pieces).2.1
            (machine.feed state pieces).2.2.flatten) := by
  induction pieces with
  | nil =>
      intro state waits _
      simpa [feed, machine.extend_nil] using waits
  | cons piece pieces induction =>
      intro state waits limited
      rw [List.flatten_cons, ← machine.extend_extend] at limited ⊢
      cases run : machine.loop.run (machine.extend state piece) with
      | mk verdict next =>
          by_cases isWait : verdict = machine.wait
          · subst isWait
            have later := limited.resume pieces.flatten run
            rw [run_resume pieces.flatten run,
              induction next (run_of_wait run) later]
            simp [feed, run]
          · rw [run_extend_of_verdict pieces.flatten isWait limited run]
            simp [feed, run, isWait]

end Resumable

end Natsu.Foundation
