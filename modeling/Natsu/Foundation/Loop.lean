import Mathlib.Logic.Relation

/-!
# Loops with a decreasing measure

A `while` loop or a tail call is given by one activation of its body, which
either goes round again with a new state or leaves with a result.  The loop
carries the measure that every further round decreases, so running it is
total and still computes by structural recursion on a number of rounds.
-/

namespace Natsu.Foundation

/-- One activation of a loop body, together with the measure that shows
that the loop leaves. -/
structure Loop (σ ρ : Type) where
  body : σ → σ ⊕ ρ
  measure : σ → Nat
  decreases : ∀ {state next}, body state = .inl next →
    measure next < measure state

namespace Loop

variable {σ ρ : Type}

def runFor (loop : Loop σ ρ) :
    (rounds : Nat) → (state : σ) → loop.measure state < rounds → ρ
  | rounds + 1, state, enough =>
      match round : loop.body state with
      | .inl next =>
          loop.runFor rounds next
            (Nat.lt_of_lt_of_le (loop.decreases round)
              (Nat.le_of_lt_succ enough))
      | .inr result => result

/-- Run the loop until its body leaves. -/
def run (loop : Loop σ ρ) (state : σ) : ρ :=
  loop.runFor (loop.measure state + 1) state (Nat.lt_succ_self _)

private theorem runFor_eq (loop : Loop σ ρ) (rounds : Nat) :
    ∀ (state : σ) (enough : loop.measure state < rounds),
      loop.runFor rounds state enough = loop.run state := by
  induction rounds using Nat.strongRecOn with
  | ind rounds induction =>
      intro state enough
      cases rounds with
      | zero => exact absurd enough (Nat.not_lt_zero _)
      | succ rounds =>
          simp only [run, runFor]
          split
          · rename_i next round
            have smaller := loop.decreases round
            rw [induction rounds (Nat.lt_succ_self _) next,
              induction (loop.measure state) (by omega) next]
          · rfl

theorem run_next (loop : Loop σ ρ) {state next : σ}
    (round : loop.body state = .inl next) :
    loop.run state = loop.run next := by
  have unfolded : loop.run state =
      loop.runFor (loop.measure state) next (loop.decreases round) := by
    simp only [run, runFor]
    split
    · rename_i other otherRound
      obtain rfl : next = other := by
        simpa using round.symm.trans otherRound
      rfl
    · rename_i result otherRound
      simp [round] at otherRound
  exact unfolded.trans (loop.runFor_eq _ _ _)

theorem run_leave (loop : Loop σ ρ) {state : σ} {result : ρ}
    (round : loop.body state = .inr result) :
    loop.run state = result := by
  simp only [run, runFor]
  split
  · rename_i other otherRound
    simp [round] at otherRound
  · rename_i other otherRound
    simpa using otherRound.symm.trans round

/-- The loop unfolded by one round. -/
theorem run_eq (loop : Loop σ ρ) (state : σ) :
    loop.run state =
      match loop.body state with
      | .inl next => loop.run next
      | .inr result => result := by
  cases round : loop.body state with
  | inl next => exact loop.run_next round
  | inr result => exact loop.run_leave round

/-- Induction along the rounds of a loop. -/
theorem induct (loop : Loop σ ρ) {motive : σ → Prop}
    (round : ∀ state,
      (∀ next, loop.body state = .inl next → motive next) → motive state)
    (state : σ) : motive state := by
  induction bound : loop.measure state using Nat.strongRecOn
      generalizing state with
  | ind measure induction =>
      subst bound
      apply round
      intro next step
      exact induction (loop.measure next) (loop.decreases step) next rfl

end Loop

end Natsu.Foundation
