import Natsu.Redis.Client

/-!
# Ways through a command

The ways a command can take through the calls to hiredis, one constructor for
each place where the source returns.
-/

namespace Natsu.Redis

open Natsu.Foundation

section Format

theorem formatElements_eq (v others : List Bytes) {payload : Bytes}
    (second : v[1]? = some payload) :
    ∃ built, formatElements v others = .ok built := by
  induction others with
  | nil => exact ⟨[], rfl⟩
  | cons bytes others induction =>
      obtain ⟨rest, built⟩ := induction
      simp [formatElements, element, second, built, Except.map]

/-- The build faults for exactly the vectors of one element. -/
theorem formatCommand_fault (cmd : Bytes) (v : List Bytes) :
    formatCommand cmd v = .error .outOfRange ↔ v.length = 1 := by
  match v with
  | [] => simp [formatCommand, formatElements, Except.map]
  | [only] => simp [formatCommand, formatElements, element, Except.map]
  | first :: second :: others =>
      obtain ⟨built, equality⟩ := formatElements_eq
        (first :: second :: others) (first :: second :: others) rfl
      simp [formatCommand, equality, Except.map]

end Format

namespace Session

variable {World Context : Type} (hiredis : Hiredis World Context)
  (session : Session World Context)

/-- The outcomes of a connection attempt. -/
theorem reconnect_cases :
    (∃ context world,
      hiredis.redisConnectWithTimeout session.world = (some context, world) ∧
      hiredis.err context = 0 ∧
      session.reconnect hiredis = (some context,
        session.after (some context) world (.connect (some context)))) ∨
    ∃ context world,
      hiredis.redisConnectWithTimeout session.world = (context, world) ∧
      (∀ failed, context = some failed → hiredis.err failed ≠ 0) ∧
      session.reconnect hiredis = (none,
        (session.after context world (.connect context)).noteError hiredis) := by
  cases connected : hiredis.redisConnectWithTimeout session.world with
  | mk context world =>
      cases context with
      | none =>
          exact .inr ⟨none, world, rfl, by simp, by
            simp only [reconnect, connected]⟩
      | some context =>
          by_cases works : hiredis.err context = 0
          · exact .inl ⟨context, world, rfl, works, by
              simp [reconnect, connected, works]⟩
          · exact .inr ⟨some context, world, rfl, by simpa using works, by
              simp [reconnect, connected, works]⟩

/-- The outcomes of the checks before a command. -/
theorem ensureContext_cases :
    (∃ context, session.client.redisContext = some context ∧
      hiredis.err context = 0 ∧
      session.ensureContext hiredis = (some context, session)) ∨
    ((∀ context, session.client.redisContext = some context →
        hiredis.err context ≠ 0) ∧
      session.ensureContext hiredis = session.reconnect hiredis) := by
  unfold ensureContext
  cases shape : session.client.redisContext with
  | none =>
      refine .inr ⟨by simp, ?_⟩
      rcases session.reconnect_cases hiredis with
        ⟨context, world, _, works, connected⟩ | ⟨context, world, _, _, failed⟩
      · simp only [connected, works, ne_eq, not_true_eq_false, if_false]
      · simp only [failed]
  | some context =>
      by_cases works : hiredis.err context = 0
      · exact .inl ⟨context, rfl, works, by simp [works]⟩
      · exact .inr ⟨by simpa using works, by simp [works]⟩

/-- The ways through `do_redis_command_format` once there is a context. -/
inductive Sent (cmd : Bytes) (context : Context) :
    Bool × Session World Context → Prop where
  | accepted {next : Context} {appended : Session World Context}
      (append : session.appendCommand hiredis context cmd =
        (.REDIS_OK, next, appended)) :
      Sent cmd context (false, appended.noteError hiredis)
  | answered {refusing silent : Context}
      {refused read : Session World Context} {reply : Reply}
      (append : session.appendCommand hiredis context cmd =
        (.REDIS_ERR, refusing, refused))
      (block : refused.redisBlockForReply hiredis refusing =
        (some reply, silent, read)) :
      Sent cmd context (read.finish hiredis silent (some reply))
  | lost {refusing silent : Context}
      {refused read disconnected : Session World Context}
      (append : session.appendCommand hiredis context cmd =
        (.REDIS_ERR, refusing, refused))
      (block : refused.redisBlockForReply hiredis refusing =
        (none, silent, read))
      (reconnect : read.reconnect hiredis = (none, disconnected)) :
      Sent cmd context (false, disconnected)
  | acceptedAgain {refusing silent other next : Context}
      {refused read connected appended : Session World Context}
      (append : session.appendCommand hiredis context cmd =
        (.REDIS_ERR, refusing, refused))
      (block : refused.redisBlockForReply hiredis refusing =
        (none, silent, read))
      (reconnect : read.reconnect hiredis = (some other, connected))
      (appendAgain : connected.appendCommand hiredis other cmd =
        (.REDIS_OK, next, appended)) :
      Sent cmd context (false, appended.noteError hiredis)
  | concluded {refusing silent other refusingAgain last : Context}
      {refused read connected refusedAgain final : Session World Context}
      {reply : Option Reply}
      (append : session.appendCommand hiredis context cmd =
        (.REDIS_ERR, refusing, refused))
      (block : refused.redisBlockForReply hiredis refusing =
        (none, silent, read))
      (reconnect : read.reconnect hiredis = (some other, connected))
      (appendAgain : connected.appendCommand hiredis other cmd =
        (.REDIS_ERR, refusingAgain, refusedAgain))
      (blockAgain : refusedAgain.redisBlockForReply hiredis refusingAgain =
        (reply, last, final)) :
      Sent cmd context (final.finish hiredis last reply)

theorem sendFormatted_sent (context : Context) (cmd : Bytes) :
    Sent hiredis session cmd context
      (session.sendFormatted hiredis context cmd) := by
  unfold sendFormatted
  split
  · exact .accepted ‹_›
  · split
    · exact .answered ‹_› ‹_›
    · split
      · exact .lost ‹_› ‹_› ‹_›
      · split
        · exact .acceptedAgain ‹_› ‹_› ‹_› ‹_›
        · exact .concluded ‹_› ‹_› ‹_› ‹_› rfl

/-- The ways through `do_redis_command` once there is a context. -/
inductive Asked (fmt : Bytes) (va : List VaArg) (context : Context) :
    Bool × Session World Context → Prop where
  | answered {next : Context} {read : Session World Context} {reply : Reply}
      {rest : List VaArg}
      (command : session.vCommand hiredis context fmt va =
        (some reply, rest, next, read)) :
      Asked fmt va context (read.finish hiredis next (some reply))
  | lost {next : Context} {read disconnected : Session World Context}
      {rest : List VaArg}
      (command : session.vCommand hiredis context fmt va =
        (none, rest, next, read))
      (reconnect : read.reconnect hiredis = (none, disconnected)) :
      Asked fmt va context (false, disconnected)
  | concluded {next other last : Context}
      {read connected final : Session World Context}
      {rest left : List VaArg} {reply : Option Reply}
      (command : session.vCommand hiredis context fmt va =
        (none, rest, next, read))
      (reconnect : read.reconnect hiredis = (some other, connected))
      (commandAgain : connected.vCommand hiredis other fmt rest =
        (reply, left, last, final)) :
      Asked fmt va context (final.finish hiredis last reply)

theorem doRedisCommandArgs_cases (fmt : Bytes) (va : List VaArg) :
    (∃ stopped, session.clear.ensureContext hiredis = (none, stopped) ∧
      session.doRedisCommandArgs hiredis fmt va = (false, stopped)) ∨
    ∃ context ready,
      session.clear.ensureContext hiredis = (some context, ready) ∧
      Asked hiredis ready fmt va context
        (session.doRedisCommandArgs hiredis fmt va) := by
  unfold doRedisCommandArgs
  split
  · exact .inl ⟨_, ‹_›, rfl⟩
  · refine .inr ⟨_, _, ‹_›, ?_⟩
    split
    · exact .answered ‹_›
    · split
      · exact .lost ‹_› ‹_›
      · exact .concluded ‹_› ‹_› rfl

/-- The session in which a vector command looks for its context. -/
def built (command : Bytes) : Session World Context :=
  { session.clear with client :=
    { session.clear.client with cmdCache := command } }

theorem doRedisCommandFormat_cases {cmd : Bytes} {v : List Bytes}
    {result : Bool × Session World Context}
    (run : session.doRedisCommandFormat hiredis cmd v = .ok result) :
    ∃ command, formatCommand cmd v = .ok command ∧
      ((∃ stopped,
        (session.built command).ensureContext hiredis = (none, stopped) ∧
        result = (false, stopped)) ∨
      ∃ context ready,
        (session.built command).ensureContext hiredis =
          (some context, ready) ∧
        Sent hiredis ready cmd context result) := by
  unfold doRedisCommandFormat at run
  cases formatted : formatCommand cmd v with
  | error fault => simp [formatted, Except.map] at run
  | ok command =>
      refine ⟨command, rfl, ?_⟩
      rw [formatted] at run
      have equality := Except.ok.inj run
      dsimp only at equality
      split at equality
      · exact .inl ⟨_, ‹_›, equality.symm⟩
      · subst equality
        exact .inr ⟨_, _, ‹_›, sendFormatted_sent hiredis _ _ _⟩

variable {hiredis} {session} in
theorem formatCommand_of_fault {cmd : Bytes} {v : List Bytes} {fault : Fault}
    (run : session.doRedisCommandFormat hiredis cmd v = .error fault) :
    formatCommand cmd v = .error .outOfRange := by
  cases fault
  cases formatted : formatCommand cmd v with
  | error fault =>
      cases fault
      rfl
  | ok command => simp [doRedisCommandFormat, formatted, Except.map] at run

section Calls

variable {hiredis} {session}

theorem calls_noteError :
    (session.noteError hiredis).calls = session.calls := rfl

theorem calls_finish (context : Context) (reply : Option Reply) :
    (session.finish hiredis context reply).2.calls = session.calls := by
  cases reply <;> rfl

theorem calls_reconnect {context : Option Context}
    {next : Session World Context}
    (reconnect : session.reconnect hiredis = (context, next)) :
    ∃ result, next.calls = session.calls ++ [.connect result] := by
  rcases session.reconnect_cases hiredis with
    ⟨result, world, _, _, outcome⟩ | ⟨result, world, _, _, outcome⟩ <;>
    · rw [reconnect] at outcome
      obtain ⟨rfl, rfl⟩ := Prod.mk.inj outcome
      exact ⟨_, rfl⟩

/-- Looking for a context connects at most once. -/
theorem calls_ensureContext {context : Option Context}
    {ready : Session World Context}
    (ensured : session.ensureContext hiredis = (context, ready)) :
    ready.calls = session.calls ∨
      ∃ result, ready.calls = session.calls ++ [.connect result] := by
  rcases session.ensureContext_cases hiredis with
    ⟨_, _, _, kept⟩ | ⟨_, reconnected⟩
  · rw [kept] at ensured
    obtain ⟨_, rfl⟩ := Prod.mk.inj ensured
    exact .inl rfl
  · rw [reconnected] at ensured
    exact .inr (calls_reconnect ensured)

theorem calls_vCommand {context next : Context} {fmt : Bytes}
    {va rest : List VaArg} {reply : Option Reply}
    {read : Session World Context}
    (command : session.vCommand hiredis context fmt va =
      (reply, rest, next, read)) :
    read.calls = session.calls ++ [.vCommand context fmt va reply] ∧
      (hiredis.redisvCommand session.world context fmt va).2.1 = rest := by
  unfold vCommand at command
  cases got : hiredis.redisvCommand session.world context fmt va with
  | mk answer others =>
      simp only [got, Prod.mk.injEq] at command
      obtain ⟨rfl, rfl, _, rfl⟩ := command
      exact ⟨rfl, rfl⟩

theorem calls_appendCommand {context next : Context} {command : Bytes}
    {status : Status} {appended : Session World Context}
    (append : session.appendCommand hiredis context command =
      (status, next, appended)) :
    appended.calls = session.calls ++ [.append context command status] := by
  unfold appendCommand at append
  obtain ⟨rfl, rest⟩ := Prod.mk.inj append
  obtain ⟨rfl, rfl⟩ := Prod.mk.inj rest
  rfl

theorem calls_redisBlockForReply {context next : Context}
    {reply : Option Reply} {read : Session World Context}
    (block : session.redisBlockForReply hiredis context =
      (reply, next, read)) :
    read.calls = session.calls ∧ reply = none ∨
      read.calls = session.calls ++ [.getReply context reply] := by
  unfold redisBlockForReply at block
  split at block
  · obtain ⟨rfl, rest⟩ := Prod.mk.inj block
    obtain ⟨rfl, rfl⟩ := Prod.mk.inj rest
    exact .inr rfl
  · obtain ⟨rfl, rest⟩ := Prod.mk.inj block
    obtain ⟨rfl, rfl⟩ := Prod.mk.inj rest
    exact .inl ⟨rfl, rfl⟩

/-- The first call of a connected vector command hands over the bare command
name. -/
theorem Sent.calls_prefix {cmd : Bytes} {context : Context}
    {result : Bool × Session World Context}
    (sent : Sent hiredis session cmd context result) :
    ∃ status, session.calls ++ [.append context cmd status] <+:
      result.2.calls := by
  have blockPrefix : ∀ {session : Session World Context} {context next reply
      read}, session.redisBlockForReply hiredis context = (reply, next, read) →
      session.calls <+: read.calls := by
    intro session context next reply read block
    rcases calls_redisBlockForReply block with ⟨same, _⟩ | more
    · rw [same]
    · rw [more]
      exact List.prefix_append _ _
  cases sent with
  | accepted append =>
      exact ⟨_, by rw [← calls_appendCommand append]; exact List.prefix_rfl⟩
  | answered append block =>
      refine ⟨.REDIS_ERR, ?_⟩
      rw [calls_finish, ← calls_appendCommand append]
      exact blockPrefix block
  | lost append block reconnect =>
      obtain ⟨_, connects⟩ := calls_reconnect reconnect
      refine ⟨.REDIS_ERR, ?_⟩
      rw [connects, ← calls_appendCommand append]
      exact (blockPrefix block).trans (List.prefix_append _ _)
  | acceptedAgain append block reconnect appendAgain =>
      obtain ⟨_, connects⟩ := calls_reconnect reconnect
      refine ⟨.REDIS_ERR, ?_⟩
      rw [calls_noteError, calls_appendCommand appendAgain, connects,
        ← calls_appendCommand append]
      exact ((blockPrefix block).trans (List.prefix_append _ _)).trans
        (List.prefix_append _ _)
  | concluded append block reconnect appendAgain blockAgain =>
      obtain ⟨_, connects⟩ := calls_reconnect reconnect
      refine ⟨.REDIS_ERR, ?_⟩
      rw [calls_finish]
      refine List.IsPrefix.trans ?_ (blockPrefix blockAgain)
      rw [calls_appendCommand appendAgain, connects,
        ← calls_appendCommand append]
      exact ((blockPrefix block).trans (List.prefix_append _ _)).trans
        (List.prefix_append _ _)

end Calls

end Session

end Natsu.Redis
