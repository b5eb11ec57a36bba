import Natsu.Foundation.Run
import Natsu.Http.Parser

/-!
# The connection loop of the HTTP server

`NatsuApp::handle` reads from an accepted socket, parses, and answers.  Its
state is the system call whose result it waits for, together with the calls
made on `sockfd` so far.  The events are the results of these calls and the
outcome of the handlers that answer a request.

The `break` after a verdict leaves the `switch` and not the loop, so a
connection on which a request was answered or rejected is read once more
after it has been closed.
-/

namespace Natsu.App

open Natsu.Foundation Natsu.Http

/-- A call on `sockfd`. -/
inductive Syscall where
  | read
  | write
  | close
  deriving DecidableEq, Repr

/-- Where `handle` stands: in `read`, in the handlers, in `write` with this
much of the response left, or at its end. -/
inductive Stage where
  | reading
  | responding
  | writing (rest : Bytes)
  | ended
  deriving DecidableEq, Repr

/-- What `handle` learns next.  `readAgain` stands for `EAGAIN` and `EINTR`,
`escaped` for an exception that leaves the `catch` block. -/
inductive Event where
  | readAgain
  | readFailed
  | readEnd
  | readData (data : Bytes)
  | responded (text : Bytes)
  | escaped
  | wrote (count : Nat)
  | writeFailed
  deriving DecidableEq, Repr

structure Handle where
  parser : HttpParser := {}
  stage : Stage := .reading
  calls : List Syscall := [.read]

namespace Handle

/-- The top of the loop. -/
def readNext (handle : Handle) : Handle :=
  { handle with stage := .reading, calls := handle.calls ++ [.read] }

/-- `close(sockfd)` in a branch of the `switch`, which the loop goes on
after. -/
def closeAndRead (handle : Handle) : Handle :=
  readNext { handle with calls := handle.calls ++ [.close] }

/-- `close(sockfd)` in a branch that leaves the loop. -/
def closeAndEnd (handle : Handle) : Handle :=
  { handle with stage := .ended, calls := handle.calls ++ [.close] }

/-- `while (pos < len)`, with what is left of the response. -/
def writeNext (handle : Handle) (rest : Bytes) : Handle :=
  if rest = [] then handle.closeAndRead
  else
    { handle with stage := .writing rest, calls := handle.calls ++ [.write] }

/-- `switch (parser.parse(buf, n))`.  An exception of the parser ends
`handle`. -/
def switch (handle : Handle) : Verdict × HttpParser → Handle
  | (.error _, parser) => { handle with parser := parser, stage := .ended }
  | (.ok .failure, parser) => closeAndRead { handle with parser := parser }
  | (.ok .success, parser) =>
      { handle with parser := parser, stage := .responding }
  | (.ok .indeterminate, parser) => readNext { handle with parser := parser }

/-- What an event leads to, or `none` where it cannot happen. -/
def step (handle : Handle) (event : Event) : Option Handle :=
  match handle.stage, event with
  | .reading, .readAgain => some handle.readNext
  | .reading, .readFailed => some handle.closeAndEnd
  | .reading, .readEnd => some handle.closeAndEnd
  | .reading, .readData data =>
      if 0 < data.length ∧ data.length ≤ 1024 then
        some (handle.switch (handle.parser.parseData data))
      else none
  | .responding, .responded text => some (handle.writeNext text)
  | .responding, .escaped => some { handle with stage := .ended }
  | .writing rest, .wrote count =>
      if count ≤ rest.length then some (handle.writeNext (rest.drop count))
      else none
  | .writing _, .writeFailed => some handle.closeAndRead
  | _, _ => none

/-- Nothing is called on `sockfd` after it is closed, and it has been closed
once when `handle` ends. -/
structure Lifecycle (handle : Handle) : Prop where
  quiet : .close ∉ handle.calls.dropLast
  closed : handle.stage = .ended → handle.calls.count .close = 1

/-- The data read, if any, does not complete a request, nor make the parser
reject it or throw. -/
def NoVerdict (handle : Handle) : Event → Prop
  | .readData data =>
      (handle.parser.parseData data).1 = .ok .indeterminate
  | _ => True

/-- A request is being answered. -/
def Serving (handle : Handle) : Prop :=
  match handle.stage with
  | .responding => True
  | .writing _ => True
  | _ => False

section Steps

variable {handle next : Handle} {event : Event}

theorem writeNext_calls (handle : Handle) (rest : Bytes) :
    ∃ more, (handle.writeNext rest).calls = handle.calls ++ more := by
  unfold writeNext
  split
  · exact ⟨[.close, .read], by simp [closeAndRead, readNext]⟩
  · exact ⟨[.write], rfl⟩

theorem switch_calls (handle : Handle) (parsed : Verdict × HttpParser) :
    ∃ more, (handle.switch parsed).calls = handle.calls ++ more := by
  unfold switch
  split
  · exact ⟨[], by simp⟩
  · exact ⟨[.close, .read], by simp [closeAndRead, readNext]⟩
  · exact ⟨[], by simp⟩
  · exact ⟨[.read], rfl⟩

/-- What a step can do. -/
theorem step_cases (stepped : handle.step event = some next) :
    (handle.stage = .reading ∧ next = handle.readNext ∧
      handle.NoVerdict event) ∨
    (handle.stage = .reading ∧ next = handle.closeAndEnd ∧
      handle.NoVerdict event) ∨
    (handle.stage = .reading ∧ ∃ data, event = .readData data ∧
      next = handle.switch (handle.parser.parseData data)) ∨
    (handle.Serving ∧ ((∃ rest, next = handle.writeNext rest) ∨
      next = handle.closeAndRead ∨ next = { handle with stage := .ended })) := by
  unfold step at stepped
  split at stepped
  · rename_i reading
    exact .inl ⟨reading, (Option.some.inj stepped).symm, trivial⟩
  · rename_i reading
    exact .inr (.inl ⟨reading, (Option.some.inj stepped).symm, trivial⟩)
  · rename_i reading
    exact .inr (.inl ⟨reading, (Option.some.inj stepped).symm, trivial⟩)
  · rename_i data reading
    split at stepped
    · exact .inr (.inr (.inl ⟨reading, data, rfl,
        (Option.some.inj stepped).symm⟩))
    · simp at stepped
  · rename_i text responding
    refine .inr (.inr (.inr ⟨by simp [Serving, responding], .inl ?_⟩))
    exact ⟨text, (Option.some.inj stepped).symm⟩
  · rename_i responding
    refine .inr (.inr (.inr ⟨by simp [Serving, responding], .inr (.inr ?_)⟩))
    exact (Option.some.inj stepped).symm
  · rename_i rest count writing
    split at stepped
    · refine .inr (.inr (.inr ⟨by simp [Serving, writing], .inl ?_⟩))
      exact ⟨rest.drop count, (Option.some.inj stepped).symm⟩
    · simp at stepped
  · rename_i rest writing
    refine .inr (.inr (.inr ⟨by simp [Serving, writing], .inr (.inl ?_)⟩))
    exact (Option.some.inj stepped).symm
  · simp at stepped

/-- Calls are only added. -/
theorem step_calls (stepped : handle.step event = some next) :
    ∃ more, next.calls = handle.calls ++ more := by
  rcases step_cases stepped with ⟨_, rfl, _⟩ | ⟨_, rfl, _⟩ |
    ⟨_, data, _, rfl⟩ | ⟨_, ⟨rest, rfl⟩ | rfl | rfl⟩
  · exact ⟨[.read], rfl⟩
  · exact ⟨[.close], rfl⟩
  · exact switch_calls handle _
  · exact writeNext_calls handle rest
  · exact ⟨[.close, .read], by simp [closeAndRead, readNext]⟩
  · exact ⟨[], by simp⟩

end Steps

/-- So far nothing but reads, and a close at the end. -/
def Orderly (handle : Handle) : Prop :=
  (handle.stage = .reading ∧ .close ∉ handle.calls) ∨
    (handle.stage = .ended ∧
      ∃ before, handle.calls = before ++ [.close] ∧ .close ∉ before)

/-- There is a call after a close, or `handle` has ended without one, or a
request is being answered. -/
def Marred (handle : Handle) : Prop :=
  .close ∈ handle.calls.dropLast ∨
    (handle.calls.getLast? ≠ some .close ∧
      (handle.stage = .ended ∨ handle.Serving))

section Invariants

variable {handle next : Handle} {event : Event}

theorem Orderly.lifecycle (orderly : handle.Orderly) : handle.Lifecycle := by
  rcases orderly with ⟨reading, unclosed⟩ | ⟨_, before, split, unclosed⟩
  · constructor
    · intro closed
      exact unclosed (List.mem_of_mem_dropLast closed)
    · simp [reading]
  · constructor
    · rw [split, List.dropLast_concat]
      exact unclosed
    · intro _
      rw [split, List.count_append, List.count_eq_zero.mpr unclosed]
      rfl

/-- A parser that waits keeps the connection as it should be. -/
theorem Orderly.step (orderly : handle.Orderly)
    (quiet : handle.NoVerdict event)
    (stepped : handle.step event = some next) : next.Orderly := by
  rcases orderly with ⟨reading, unclosed⟩ | ⟨ended, _⟩
  · rcases step_cases stepped with ⟨_, rfl, _⟩ | ⟨_, rfl, _⟩ |
      ⟨_, data, rfl, rfl⟩ | ⟨serving, _⟩
    · exact .inl ⟨rfl, by simp [readNext, unclosed]⟩
    · exact .inr ⟨rfl, handle.calls, rfl, unclosed⟩
    · have waits : (handle.parser.parseData data).1 = .ok .indeterminate :=
        quiet
      cases parsed : handle.parser.parseData data with
      | mk verdict parser =>
          rw [parsed] at waits
          obtain rfl : verdict = .ok .indeterminate := waits
          exact .inl ⟨rfl, by simp [switch, readNext, unclosed]⟩
    · simp [Serving, reading] at serving
  · simp [Handle.step, ended] at stepped

theorem marred_closeAndRead (handle : Handle) :
    handle.closeAndRead.Marred := by
  refine .inl ?_
  simp [closeAndRead, readNext]

theorem marred_writeNext (handle : Handle) (rest : Bytes) :
    (handle.writeNext rest).Marred := by
  unfold writeNext
  split
  · exact marred_closeAndRead handle
  · exact .inr ⟨by simp, .inr trivial⟩

/-- A verdict mars the connection. -/
theorem Orderly.marred (orderly : handle.Orderly)
    (verdict : ¬ handle.NoVerdict event)
    (stepped : handle.step event = some next) : next.Marred := by
  rcases orderly with ⟨reading, unclosed⟩ | ⟨ended, _⟩
  · rcases step_cases stepped with ⟨_, _, quiet⟩ | ⟨_, _, quiet⟩ |
      ⟨_, data, rfl, rfl⟩ | ⟨serving, _⟩
    · exact absurd quiet verdict
    · exact absurd quiet verdict
    · have unclosedLast : handle.calls.getLast? ≠ some .close := by
        intro last
        exact unclosed (List.mem_of_getLast? last)
      cases parsed : handle.parser.parseData data with
      | mk outcome parser =>
          have outcome_ne : outcome ≠ .ok .indeterminate := by
            rintro rfl
            exact verdict (by simp [NoVerdict, parsed])
          match outcome with
          | .error _ => exact .inr ⟨unclosedLast, .inl rfl⟩
          | .ok .failure =>
              exact marred_closeAndRead { handle with parser := parser }
          | .ok .success => exact .inr ⟨unclosedLast, .inr trivial⟩
          | .ok .indeterminate => exact absurd rfl outcome_ne
    · simp [Serving, reading] at serving
  · simp [Handle.step, ended] at stepped

theorem Marred.step (marred : handle.Marred)
    (stepped : handle.step event = some next) : next.Marred := by
  rcases marred with early | ⟨unclosedLast, ended | serving⟩
  · obtain ⟨more, split⟩ := step_calls stepped
    refine .inl ?_
    rw [split]
    by_cases silent : more = []
    · rwa [silent, List.append_nil]
    · rw [List.dropLast_append_of_ne_nil silent]
      exact List.mem_append_left _ (List.mem_of_mem_dropLast early)
  · simp [Handle.step, ended] at stepped
  · rcases step_cases stepped with ⟨reading, _⟩ | ⟨reading, _⟩ |
      ⟨reading, _⟩ | ⟨_, ⟨rest, rfl⟩ | rfl | rfl⟩
    · simp [Serving, reading] at serving
    · simp [Serving, reading] at serving
    · simp [Serving, reading] at serving
    · exact marred_writeNext handle rest
    · exact marred_closeAndRead handle
    · exact .inr ⟨unclosedLast, .inl rfl⟩

/-- A marred connection that is not being served has violated its
lifecycle. -/
theorem Marred.not_lifecycle (marred : handle.Marred)
    (idle : ¬ handle.Serving) : ¬ handle.Lifecycle := by
  rintro ⟨quiet, closed⟩
  rcases marred with early | ⟨unclosedLast, ended | serving⟩
  · exact quiet early
  · have present : .close ∈ handle.calls := by
      rw [← List.count_pos_iff, closed ended]
      omega
    obtain ⟨last, ends⟩ := Option.ne_none_iff_exists'.mp
      (List.getLast?_eq_none_iff.not.mpr (List.ne_nil_of_mem present))
    rw [← List.dropLast_append_getLast? last ends] at present
    rcases List.mem_append.mp present with early | atEnd
    · exact quiet early
    · rw [List.mem_singleton.mp atEnd] at unclosedLast
      exact unclosedLast ends
  · exact idle serving

/-- A run without a verdict is orderly, and any other one is marred. -/
theorem orderly_or_marred (events : List Event) :
    ∀ {handle final : Handle}, handle.Orderly →
      runWith Handle.step handle events = some final →
      (Throughout Handle.step NoVerdict handle events ∧ final.Orderly) ∨
        final.Marred := by
  induction events with
  | nil =>
      intro handle final orderly reached
      obtain rfl := Option.some.inj reached
      exact .inl ⟨trivial, orderly⟩
  | cons event events induction =>
      intro handle final orderly reached
      obtain ⟨next, stepped, rest⟩ := Option.bind_eq_some_iff.mp reached
      by_cases quiet : handle.NoVerdict event
      · rcases induction (orderly.step quiet stepped) rest with
          ⟨throughout, finalOrderly⟩ | marred
        · refine .inl ⟨⟨quiet, ?_⟩, finalOrderly⟩
          rw [stepped]
          exact throughout
        · exact .inr marred
      · have kept : ∀ {state later following}, state.Marred → True →
            Handle.step state later = some following → following.Marred :=
          fun marred _ laterStep => marred.step laterStep
        exact .inr (invariant_of_forall kept events (fun _ _ => trivial)
          (orderly.marred quiet stepped) rest)

end Invariants

theorem orderly_start : Orderly {} := .inl ⟨rfl, by decide⟩

end Handle

/-- As long as no read brings the parser to a verdict, the descriptor is
closed once and not used again.  After a verdict it is not, except while the
request is still being answered. -/
theorem handle_lifecycle {events : List Event} {final : Handle}
    (reached : runWith Handle.step {} events = some final) :
    (Throughout Handle.step Handle.NoVerdict {} events → final.Lifecycle) ∧
    (¬ final.Serving → final.Lifecycle →
      Throughout Handle.step Handle.NoVerdict {} events) := by
  constructor
  · intro throughout
    have orderly : final.Orderly :=
      invariant_of_throughout Handle.Orderly.step events Handle.orderly_start
        throughout reached
    exact orderly.lifecycle
  · intro idle lifecycle
    rcases Handle.orderly_or_marred events Handle.orderly_start reached with
      ⟨throughout, _⟩ | marred
    · exact throughout
    · exact absurd lifecycle (marred.not_lifecycle idle)

namespace Example

/-- A peer that sends half of a request line and closes. -/
def abandoned : List Event :=
  [.readAgain, .readData (ascii "GET / HT"), .readEnd]

theorem handle_lifecycle_abandoned :
    ∃ final, runWith Handle.step {} abandoned = some final ∧
      final.Lifecycle := by
  let final : Handle :=
    { parser := { cache := ascii "GET / HT" }
      stage := .ended
      calls := [.read, .read, .read, .close] }
  have reached : runWith Handle.step {} abandoned = some final := rfl
  have quiet : Throughout Handle.step Handle.NoVerdict {} abandoned :=
    ⟨trivial, rfl, trivial, trivial⟩
  exact ⟨final, reached, (handle_lifecycle reached).1 quiet⟩

/-- A first line that is too short is rejected: the descriptor is closed and
then read. -/
theorem rejected_read_after_close :
    ∃ final,
      runWith Handle.step {} [.readData (ascii "x\r\n")] = some final ∧
      ¬ final.Lifecycle := by
  let final : Handle := { calls := [.read, .close, .read] }
  have reached : runWith Handle.step {} [.readData (ascii "x\r\n")] =
      some final := rfl
  refine ⟨final, reached, ?_⟩
  rintro ⟨quiet, _⟩
  revert quiet
  decide

end Example

end Natsu.App
