import Natsu.Redis.Keys

/-!
# Sending a command again

`do_redis_command` hands its `va_list` to `redisvCommand` a second time when
the first call has no reply and a new connection works.  The first call has
read the arguments, so the second finds none.
-/

namespace Natsu.Redis

open Natsu.Foundation

variable {World Context : Type}

/-- The bytes of the commands that an operation transmits.  There are none
where hiredis reads past the `va_list`. -/
def Operation.transmittedBytes (hiredis : Hiredis World Context)
    (session : Session World Context) (operation : Operation) :
    List (Option Bytes) :=
  (operation.transmitted hiredis session).map (·.map Resp.encode)

/-- A second command has the bytes of the first. -/
def Transparent (hiredis : Hiredis World Context)
    (session : Session World Context) (operation : Operation) : Prop :=
  ∀ first second,
    operation.transmittedBytes hiredis session = [first, second] →
    ∃ bytes, first = some bytes ∧ second = some bytes

section Transmitting

variable {hiredis : Hiredis World Context} {session : Session World Context}
  {operation : Operation} {fmt : Bytes} {va : List VaArg}

/-- An operation that sends its command again has no second command. -/
theorem transmittedBytes_of_retries (advances : hiredis.Advances)
    (single : operation.request = .args fmt va)
    (retries : Retries hiredis { session with calls := [] } fmt va) :
    operation.transmittedBytes hiredis session =
      [some (Resp.encode (operation.name :: operation.sent)), none] := by
  have formatted := formatFrom_request single
  have exhausted := formatFrom_exhausted single
  rcases transmitted_cases hiredis session single with
    ⟨apart, _⟩ | ⟨_, once, _⟩ | ⟨_, _, world, context, twice⟩
  · obtain ⟨context, ready, _, _, _, _, _, ensured, _⟩ := retries
    have connected := connected_of_ensureContext ensured
    exact absurd connected apart
  · exact absurd retries once
  · rw [advances world context fmt va _ _ formatted] at twice
    simp [Operation.transmittedBytes, twice, formatArguments, formatted,
      exhausted]

/-- Without a second command there are fewer than two. -/
theorem length_transmittedBytes
    (single : operation.request = .args fmt va)
    (once : ¬ Retries hiredis { session with calls := [] } fmt va) :
    (operation.transmittedBytes hiredis session).length < 2 := by
  rw [Operation.transmittedBytes, List.length_map]
  rcases transmitted_cases hiredis session single with
    ⟨_, nothing⟩ | ⟨_, _, one⟩ | ⟨_, retries, _⟩
  · simp [nothing]
  · simp [one]
  · exact absurd retries once

end Transmitting

/-- Whenever the first call has no reply and the reconnect succeeds, the
second call reads past the arguments; the two commands are the same exactly
when there is no second one. -/
theorem retry_transparent_iff (hiredis : Hiredis World Context)
    (advances : hiredis.Advances) (session : Session World Context)
    {operation : Operation} {fmt : Bytes} {va : List VaArg}
    (single : operation.request = .args fmt va) :
    (Retries hiredis { session with calls := [] } fmt va →
      operation.transmittedBytes hiredis session =
        [some (Resp.encode (operation.name :: operation.sent)), none]) ∧
    (Transparent hiredis session operation ↔
      ¬ Retries hiredis { session with calls := [] } fmt va) := by
  refine ⟨transmittedBytes_of_retries advances single, ?_, ?_⟩
  · intro transparent retries
    obtain ⟨bytes, _, second⟩ := transparent _ _
      (transmittedBytes_of_retries advances single retries)
    exact absurd second (Option.some_ne_none bytes).symm
  · intro once first second twice
    have fewer := length_transmittedBytes single once
    rw [twice] at fewer
    exact absurd fewer (Nat.lt_irrefl 2)

namespace Example

theorem retry_transparent_iff_hget :
    (redis true).Advances ∧
      Transparent (redis true) { world := 0 }
        (.hget (ascii "user:1") (ascii "name")) := by
  refine ⟨redis_advances true, ?_⟩
  exact (retry_transparent_iff (redis true) (redis_advances true)
    { world := 0 } rfl).2.mpr (redis_answers _ _)

/-- The connection drops during `hget`, and the new one works. -/
theorem second_hget_has_no_arguments :
    (redis false).Advances ∧
      ¬ Transparent (redis false) { world := 0 }
        (.hget (ascii "user:1") (ascii "name")) := by
  refine ⟨redis_advances false, ?_⟩
  intro transparent
  obtain ⟨bytes, _, second⟩ := transparent
    (some (Resp.encode [ascii "hget", ascii "user:1", ascii "name"])) none
    (by decide +kernel)
  exact absurd second (Option.some_ne_none bytes).symm

end Example

end Natsu.Redis
