import Mathlib.Logic.Basic

/-!
# Runs of a partial step function

A system is given by what an event does to a state, or `none` where the event
cannot happen.  A run is a list of events that all happen.  A condition on the
events of a run may look at the state that each of them finds.
-/

namespace Natsu.Foundation

variable {σ ε : Type} (step : σ → ε → Option σ)

def runWith (state : σ) : List ε → Option σ
  | [] => some state
  | event :: events =>
      (step state event).bind fun next => runWith next events

/-- Every event of the run fits the state that it finds. -/
def Throughout (Fits : σ → ε → Prop) (state : σ) : List ε → Prop
  | [] => True
  | event :: events =>
      Fits state event ∧
        match step state event with
        | none => True
        | some next => Throughout Fits next events

instance Throughout.decidable (Fits : σ → ε → Prop)
    [∀ state event, Decidable (Fits state event)] :
    ∀ (events : List ε) (state : σ),
      Decidable (Throughout step Fits state events)
  | [], _ => isTrue trivial
  | event :: events, state =>
      have : Decidable (match step state event with
          | none => True
          | some next => Throughout step Fits next events) :=
        match step state event with
        | none => isTrue trivial
        | some next => decidable Fits events next
      inferInstanceAs (Decidable (Fits state event ∧ _))

variable {step}

theorem Throughout.of_append {Fits : σ → ε → Prop} (before after : List ε) :
    ∀ {state : σ}, Throughout step Fits state (before ++ after) →
      Throughout step Fits state before := by
  induction before with
  | nil =>
      intro state _
      trivial
  | cons event before induction =>
      rintro state ⟨fits, later⟩
      refine ⟨fits, ?_⟩
      split at later
      · trivial
      · exact induction later

theorem runWith_append (before after : List ε) :
    ∀ {state : σ}, runWith step state (before ++ after) =
      (runWith step state before).bind fun middle =>
        runWith step middle after := by
  induction before with
  | nil =>
      intro state
      rfl
  | cons event before induction =>
      intro state
      simp only [List.cons_append, runWith]
      cases step state event with
      | none => rfl
      | some next => exact induction

/-- What holds at the start and is kept by every event that fits holds
throughout a run of such events.  It may speak of the events that have
happened. -/
theorem invariant_of_past {Fits : σ → ε → Prop} {Holds : List ε → σ → Prop}
    (kept : ∀ past {state event next}, Holds past state → Fits state event →
      step state event = some next → Holds (past ++ [event]) next)
    (events : List ε) :
    ∀ {past : List ε} {state final : σ}, Holds past state →
      Throughout step Fits state events →
      runWith step state events = some final →
      Holds (past ++ events) final := by
  induction events with
  | nil =>
      intro past state final holds _ reached
      obtain rfl := Option.some.inj reached
      simpa using holds
  | cons event events induction =>
      rintro past state final holds ⟨fits, later⟩ reached
      obtain ⟨next, stepped, rest⟩ := Option.bind_eq_some_iff.mp reached
      rw [stepped] at later
      have continued := induction (kept past holds fits stepped) later rest
      rwa [List.append_assoc] at continued

theorem invariant_of_throughout {Fits : σ → ε → Prop} {Holds : σ → Prop}
    (kept : ∀ {state event next}, Holds state → Fits state event →
      step state event = some next → Holds next) (events : List ε)
    {state final : σ} (holds : Holds state)
    (fits : Throughout step Fits state events)
    (reached : runWith step state events = some final) : Holds final :=
  @invariant_of_past σ ε step Fits (fun _ => Holds) (fun _ => kept) events []
    state final holds fits reached

theorem throughout_of_forall {Fits : ε → Prop} (events : List ε) :
    ∀ {state : σ}, (∀ event ∈ events, Fits event) →
      Throughout step (fun _ event => Fits event) state events := by
  induction events with
  | nil =>
      intro state _
      trivial
  | cons event events induction =>
      intro state fits
      refine ⟨fits event List.mem_cons_self, ?_⟩
      split
      · trivial
      · exact induction fun later member =>
          fits later (List.mem_cons_of_mem _ member)

/-- The same for a condition that does not look at the state. -/
theorem invariant_of_forall {Fits : ε → Prop} {Holds : σ → Prop}
    (kept : ∀ {state event next}, Holds state → Fits event →
      step state event = some next → Holds next) (events : List ε)
    (fits : ∀ event ∈ events, Fits event) {state final : σ}
    (holds : Holds state) (reached : runWith step state events = some final) :
    Holds final := by
  have throughout : Throughout step (fun _ event => Fits event) state events :=
    throughout_of_forall events fits
  exact invariant_of_throughout kept events holds throughout reached

/-- The same without a condition. -/
theorem invariant_of_history {Holds : List ε → σ → Prop}
    (kept : ∀ {past state event next}, Holds past state →
      step state event = some next → Holds (past ++ [event]) next)
    (events : List ε) {past : List ε} {state final : σ}
    (holds : Holds past state)
    (reached : runWith step state events = some final) :
    Holds (past ++ events) final := by
  have anyway : Throughout step (fun _ _ => True) state events :=
    throughout_of_forall events fun _ _ => trivial
  exact invariant_of_past (fun _ {_ _ _} holds _ stepped => kept holds stepped)
    events holds anyway reached

/-- Where an event keeps a property exactly when it fits, the property holds
throughout a run exactly when all of its events fit. -/
theorem throughout_iff {Fits : σ → ε → Prop} {Sound Holds : σ → Prop}
    (kept : ∀ {state event next}, Sound state →
      step state event = some next → Sound next)
    (exact : ∀ {state event next}, Sound state → Holds state →
      step state event = some next → (Holds next ↔ Fits state event))
    (events : List ε) :
    ∀ {state final : σ}, Sound state → Holds state →
      runWith step state events = some final →
      ((∀ before, before <+: events → ∀ reached,
        runWith step state before = some reached → Holds reached) ↔
        Throughout step Fits state events) := by
  induction events with
  | nil =>
      intro state final _ holds _
      refine iff_of_true ?_ trivial
      intro before isPrefix reached run
      obtain rfl := List.prefix_nil.mp isPrefix
      obtain rfl := Option.some.inj run
      exact holds
  | cons event events induction =>
      intro state final sound holds reached
      obtain ⟨next, stepped, rest⟩ := Option.bind_eq_some_iff.mp reached
      have here := exact sound holds stepped
      have soundNext := kept sound stepped
      simp only [Throughout, stepped]
      constructor
      · intro always
        have holdsNext : Holds next := by
          apply always [event] (List.prefix_append [event] events)
          simp [runWith, stepped]
        refine ⟨here.mp holdsNext, (induction soundNext holdsNext rest).mp ?_⟩
        intro before isPrefix later run
        apply always (event :: before) (by simpa using isPrefix)
        simpa [runWith, stepped] using run
      · rintro ⟨fits, later⟩ before isPrefix other run
        have holdsNext := here.mpr fits
        cases before with
        | nil =>
            obtain rfl := Option.some.inj run
            exact holds
        | cons first before =>
            obtain ⟨rfl, shorter⟩ := List.cons_prefix_cons.mp isPrefix
            simp only [runWith, stepped] at run
            exact (induction soundNext holdsNext rest).mpr later before shorter
              other run

/-- The same where an event may also not happen: a run goes through with the
property in every state exactly when all of its events fit. -/
theorem throughout_iff_reaches {Fits : σ → ε → Prop} {Holds : σ → Prop}
    (exact : ∀ {state event}, Holds state →
      ((∃ next, step state event = some next ∧ Holds next) ↔
        Fits state event)) (events : List ε) :
    ∀ {state : σ}, Holds state →
      ((∀ before, before <+: events → ∃ reached,
        runWith step state before = some reached ∧ Holds reached) ↔
        Throughout step Fits state events) := by
  induction events with
  | nil =>
      intro state holds
      refine iff_of_true ?_ trivial
      intro before isPrefix
      obtain rfl := List.prefix_nil.mp isPrefix
      exact ⟨state, rfl, holds⟩
  | cons event events induction =>
      intro state holds
      constructor
      · intro always
        obtain ⟨next, run, holdsNext⟩ :=
          always [event] (List.prefix_append [event] events)
        have stepped : step state event = some next := by
          simpa [runWith] using run
        simp only [Throughout, stepped]
        refine ⟨(exact holds).mp ⟨next, stepped, holdsNext⟩,
          (induction holdsNext).mp ?_⟩
        intro before isPrefix
        obtain ⟨reached, later, holdsReached⟩ :=
          always (event :: before) (by simpa using isPrefix)
        exact ⟨reached, by simpa [runWith, stepped] using later, holdsReached⟩
      · intro throughout before isPrefix
        obtain ⟨fits, later⟩ := throughout
        obtain ⟨next, stepped, holdsNext⟩ := (exact holds).mpr fits
        rw [stepped] at later
        cases before with
        | nil => exact ⟨state, rfl, holds⟩
        | cons first before =>
            obtain ⟨rfl, shorter⟩ := List.cons_prefix_cons.mp isPrefix
            obtain ⟨reached, run, holdsReached⟩ :=
              (induction holdsNext).mpr later before shorter
            exact ⟨reached, by simpa [runWith, stepped] using run,
              holdsReached⟩

variable (step) in
/-- The step that keeps the events that have happened beside the state, for
conditions that look back. -/
def recording (state : σ × List ε) (event : ε) : Option (σ × List ε) :=
  (step state.1 event).map fun next => (next, state.2 ++ [event])

theorem runWith_recording (events : List ε) :
    ∀ {state : σ} {past : List ε},
      runWith (recording step) (state, past) events =
        (runWith step state events).map fun final =>
          (final, past ++ events) := by
  induction events with
  | nil =>
      intro state past
      simp [runWith]
  | cons event events induction =>
      intro state past
      simp only [runWith, recording]
      cases step state event with
      | none => rfl
      | some next => simp [induction]

end Natsu.Foundation
