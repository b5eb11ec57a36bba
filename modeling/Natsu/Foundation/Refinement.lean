import Natsu.Foundation.Run

/-!
# Runs that give answers

A step function that can fail, beside a relation that tells what an event is
meant to do.  Where every event that is meant to happen happens, with the
answer that is meant, so does a run of such events.
-/

namespace Natsu.Foundation

variable {σ τ ε α : Type}

/-- The answers to the events, and the last state. -/
def answers (step : σ → ε → Option (α × σ)) (state : σ) :
    List ε → Option (List α × σ)
  | [] => some ([], state)
  | event :: events =>
      (step state event).bind fun (answer, next) =>
        (answers step next events).map fun (rest, final) =>
          (answer :: rest, final)

/-- What holds at the start and is kept by every event that fits holds after
the run, and may speak of the answers. -/
theorem invariant_of_answers {step : σ → ε → Option (α × σ)}
    {Fits : σ → ε → Prop} {Holds : List α → σ → Prop}
    (kept : ∀ past {state event answer next}, Holds past state →
      Fits state event → step state event = some (answer, next) →
      Holds (past ++ [answer]) next) (events : List ε) :
    ∀ {past results : List α} {state final : σ}, Holds past state →
      Throughout (fun state event => (step state event).map Prod.snd) Fits
        state events →
      answers step state events = some (results, final) →
      Holds (past ++ results) final := by
  induction events with
  | nil =>
      intro past results state final holds _ ran
      obtain ⟨rfl, rfl⟩ := Prod.mk.inj (Option.some.inj ran)
      simpa using holds
  | cons event events induction =>
      intro past results state final holds fits ran
      obtain ⟨⟨answer, next⟩, stepped, rest⟩ := Option.bind_eq_some_iff.mp ran
      obtain ⟨⟨later, last⟩, ranLater, isResult⟩ :=
        Option.map_eq_some_iff.mp rest
      obtain ⟨rfl, rfl⟩ := Prod.mk.inj isResult
      obtain ⟨fit, fits⟩ := fits
      simp only [stepped, Option.map_some] at fits
      have continued := induction (kept past holds fit stepped) fits ranLater
      rwa [List.append_assoc] at continued

/-- A run that is meant to happen. -/
inductive Follows (Does : τ → ε → α → τ → Prop) :
    τ → List ε → List α → τ → Prop where
  | nil (spec : τ) : Follows Does spec [] [] spec
  | cons {spec next final : τ} {event : ε} {answer : α} {events : List ε}
      {rest : List α} :
      Does spec event answer next →
      Follows Does next events rest final →
      Follows Does spec (event :: events) (answer :: rest) final

variable {Does : τ → ε → α → τ → Prop} {step : σ → ε → Option (α × σ)}
  {events : List ε} {results : List α} {spec final : τ}

/-- Forward simulation. -/
theorem Follows.simulated {Represents : σ → τ → Prop}
    (simulated : ∀ {state spec event answer after}, Represents state spec →
      Does spec event answer after →
      ∃ next, step state event = some (answer, next) ∧
        Represents next after)
    (follows : Follows Does spec events results final) {state : σ}
    (represents : Represents state spec) :
    ∃ last, answers step state events = some (results, last) ∧
      Represents last final := by
  induction follows generalizing state with
  | nil spec => exact ⟨state, rfl, represents⟩
  | cons does _ induction =>
      obtain ⟨next, stepped, following⟩ := simulated represents does
      obtain ⟨last, ran, reached⟩ := induction following
      refine ⟨last, ?_, reached⟩
      simp only [answers, stepped, Option.bind_some, ran, Option.map_some]

/-- Events of a kind lead from the state to one with the property. -/
def Leads (step : σ → ε → Option (α × σ)) (Kind : ε → Prop)
    (Goal : σ → Prop) (state : σ) : Prop :=
  ∃ events results last, (∀ event ∈ events, Kind event) ∧
    answers step state events = some (results, last) ∧ Goal last

section Leads

variable {Kind : ε → Prop} {Goal : σ → Prop} {state next : σ} {event : ε}
  {answer : α}

theorem Leads.here (goal : Goal state) : Leads step Kind Goal state :=
  ⟨[], [], state, by simp, rfl, goal⟩

theorem Leads.cons (kind : Kind event)
    (stepped : step state event = some (answer, next))
    (leads : Leads step Kind Goal next) : Leads step Kind Goal state := by
  obtain ⟨events, results, last, kinds, ran, goal⟩ := leads
  refine ⟨event :: events, answer :: results, last, ?_, ?_, goal⟩
  · intro other member
    rcases List.mem_cons.mp member with rfl | later
    · exact kind
    · exact kinds other later
  · simp only [answers, stepped, Option.bind_some, ran, Option.map_some]

end Leads

end Natsu.Foundation
