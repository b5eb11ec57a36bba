import Mathlib.Algebra.GroupWithZero.Nat
import Natsu.Foundation.Resumable

/-!
# Repeated calls of a loop

An object that keeps its state between calls runs the same loop for every
input it is given.  What its calls return is decided in the states in which
the body of the loop is activated, so a property of all calls is proved state
by state.
-/

namespace Natsu.Foundation

/-- A loop that is run once for every input.  `Leaves` relates the result of a
call to the states that the next call may find. -/
structure Callable (σ ι ρ : Type) where
  loop : Loop σ ρ
  enter : σ → ι → σ
  Leaves : ρ → σ → Prop

namespace Callable

variable {σ ι ρ : Type} (object : Callable σ ι ρ)

/-- The states in which the body is activated while the inputs are given one
after another. -/
inductive Activates : σ → List ι → σ → Prop where
  | now {start state : σ} {input : ι} {inputs : List ι}
      (passes : object.loop.Passes (object.enter start input) state) :
      Activates start (input :: inputs) state
  | later {start next state : σ} {input : ι} {inputs : List ι}
      (leaves : object.Leaves
        (object.loop.run (object.enter start input)) next)
      (rest : Activates next inputs state) :
      Activates start (input :: inputs) state

/-- The results of the calls. -/
inductive Returns : σ → List ι → ρ → Prop where
  | now {start : σ} {input : ι} {inputs : List ι} :
      Returns start (input :: inputs)
        (object.loop.run (object.enter start input))
  | later {start next : σ} {result : ρ} {input : ι} {inputs : List ι}
      (leaves : object.Leaves
        (object.loop.run (object.enter start input)) next)
      (rest : Returns next inputs result) :
      Returns start (input :: inputs) result

variable {object}

/-- A call returns what the last activation of its body leaves with. -/
theorem returns_iff {start : σ} {inputs : List ι} {result : ρ} :
    object.Returns start inputs result ↔
      ∃ last, object.Activates start inputs last ∧
        object.loop.body last = .inr result := by
  constructor
  · intro returns
    induction returns with
    | now =>
        obtain ⟨last, passes, leaves⟩ := object.loop.exists_last _
        exact ⟨last, .now passes, leaves⟩
    | later leaves _ induction =>
        obtain ⟨last, activates, leavesLast⟩ := induction
        exact ⟨last, .later leaves activates, leavesLast⟩
  · rintro ⟨last, activates, leavesLast⟩
    induction activates with
    | now passes =>
        rw [← object.loop.run_leave leavesLast, ← passes.run_eq]
        exact .now
    | later leaves _ induction => exact .later leaves (induction leavesLast)

/-- An invariant with a bound that every input raises by its weight, and that
the rounds of the loop and the calls keep, holds in every activation. -/
theorem invariant_of_kept {Holds : Nat → σ → Prop} {weight : ι → Nat}
    (grows : ∀ {bound more state}, bound ≤ more → Holds bound state →
      Holds more state)
    (entered : ∀ {bound state} input, Holds bound state →
      Holds (bound + weight input) (object.enter state input))
    (round : ∀ {bound state next}, Holds bound state →
      object.loop.body state = .inl next → Holds bound next)
    (left : ∀ {bound state result next}, Holds bound state →
      object.loop.body state = .inr result → object.Leaves result next →
      Holds bound next)
    {bound : Nat} {start state : σ} {inputs : List ι}
    (holds : Holds bound start)
    (activates : object.Activates start inputs state) :
    Holds (bound + (inputs.map weight).sum) state := by
  have passed : ∀ {bound first later}, Holds bound first →
      object.loop.Passes first later → Holds bound later := by
    intro bound first later holdsFirst passes
    induction passes with
    | refl => exact holdsFirst
    | tail _ step induction => exact round induction step
  induction activates generalizing bound with
  | now passes =>
      refine grows ?_ (passed (entered _ holds) passes)
      simp
  | later leaves _ induction =>
      obtain ⟨last, passes, leavesLast⟩ := object.loop.exists_last _
      rw [List.map_cons, List.sum_cons, ← Nat.add_assoc]
      exact induction (left (passed (entered _ holds) passes) leavesLast leaves)

end Callable

end Natsu.Foundation
