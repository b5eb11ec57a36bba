import Natsu.Redis.Outcomes

/-!
# Commands and replies over whole runs

hiredis queues commands in the context and returns the replies first in,
first out.  A reply is the answer to the command just sent only if no older
command waits for its reply.
-/

namespace Natsu.Redis

open Natsu.Foundation

variable {World Context : Type}

/-- What the client relies on.  `outstanding` counts the commands of a context
that were appended or sent and whose reply has not been read.  A context whose
`err` is set cannot be used again. -/
structure Hiredis.Lawful (hiredis : Hiredis World Context)
    (outstanding : Context → Nat) : Prop where
  connect : ∀ {world context next},
    hiredis.redisConnectWithTimeout world = (some context, next) →
    outstanding context = 0
  append_ok : ∀ {world context command after next},
    hiredis.redisAppendFormattedCommand world context command =
      (.REDIS_OK, after, next) →
    outstanding after = outstanding context + 1 ∧
      hiredis.err after = hiredis.err context
  append_err : ∀ {world context command after next},
    hiredis.redisAppendFormattedCommand world context command =
      (.REDIS_ERR, after, next) → hiredis.err after ≠ 0
  getReply_ok : ∀ {world context reply after next},
    hiredis.redisGetReply world context = (.REDIS_OK, some reply, after, next) →
    outstanding context = outstanding after + 1 ∧
      hiredis.err after = hiredis.err context
  getReply_failed : ∀ {world context status reply after next},
    hiredis.redisGetReply world context = (status, reply, after, next) →
    hiredis.err context ≠ 0 → status = .REDIS_ERR ∧ hiredis.err after ≠ 0
  vCommand_reply : ∀ {world context fmt va reply rest after next},
    hiredis.redisvCommand world context fmt va =
      (some reply, rest, after, next) →
    outstanding after = outstanding context ∧
      hiredis.err after = hiredis.err context
  vCommand_none : ∀ {world context fmt va rest after next},
    hiredis.redisvCommand world context fmt va = (none, rest, after, next) →
    hiredis.err after ≠ 0

variable (hiredis : Hiredis World Context) (outstanding : Context → Nat)

/-- A call whose reply, if it returns one, answers the command of the same
operation. -/
def Call.Paired : Call Context → Prop
  | .vCommand context _ _ (some _) => outstanding context = 0
  | .getReply context (some _) => outstanding context = 1
  | _ => True

/-- No command of a usable context waits for its reply. -/
def Session.Clean (session : Session World Context) : Prop :=
  ∀ context, session.client.redisContext = some context →
    hiredis.err context = 0 → outstanding context = 0

/-- The client is between commands, and every reply so far was the answer to
its own command. -/
structure Session.InStep (session : Session World Context) : Prop where
  clean : session.Clean hiredis outstanding
  paired : ∀ call ∈ session.calls, call.Paired outstanding

/-- `redisAppendFormattedCommand` has accepted a command. -/
def Session.Accepted (session : Session World Context) : Prop :=
  ∃ context command, .append context command .REDIS_OK ∈ session.calls

/-- The sessions after each operation of a run, up to the first fault. -/
def sessions (session : Session World Context) :
    List Operation → List (Session World Context)
  | [] => []
  | operation :: operations =>
      match operation.perform hiredis session with
      | .error _ => []
      | .ok (_, next) => next :: sessions next operations

/-- Every call so far is paired and none was an accepted append. -/
def Session.Quiet (session : Session World Context) : Prop :=
  ∀ call ∈ session.calls, call.Paired outstanding ∧
    ∀ context command, call ≠ .append context command .REDIS_OK

namespace Session

variable {hiredis} {outstanding} {session : Session World Context}

theorem Quiet.after (quiet : session.Quiet outstanding)
    {context : Option Context} {world : World} {call : Call Context}
    (paired : call.Paired outstanding)
    (refused : ∀ context command, call ≠ .append context command .REDIS_OK) :
    (session.after context world call).Quiet outstanding := by
  intro other member
  rcases List.mem_append.mp member with earlier | last
  · exact quiet other earlier
  · obtain rfl := List.mem_singleton.mp last
    exact ⟨paired, refused⟩

theorem quiet_iff : session.Quiet outstanding ↔
    (∀ call ∈ session.calls, call.Paired outstanding) ∧
      ¬ session.Accepted := by
  constructor
  · intro quiet
    refine ⟨fun call member => (quiet call member).1, ?_⟩
    rintro ⟨context, command, member⟩
    exact (quiet _ member).2 context command rfl
  · rintro ⟨paired, refused⟩ call member
    refine ⟨paired call member, ?_⟩
    rintro context command rfl
    exact refused ⟨context, command, member⟩

section Primitives

variable (lawful : hiredis.Lawful outstanding)

include lawful

theorem reconnect_quiet (quiet : session.Quiet outstanding)
    {result : Option Context} {next : Session World Context}
    (reconnect : session.reconnect hiredis = (result, next)) :
    next.Quiet outstanding ∧
      (result = none → next.Clean hiredis outstanding) ∧
      ∀ context, result = some context →
        hiredis.err context = 0 ∧ outstanding context = 0 := by
  rcases session.reconnect_cases hiredis with
    ⟨fresh, world, connected, works, outcome⟩ |
    ⟨fresh, world, _, failed, outcome⟩
  · rw [reconnect] at outcome
    obtain ⟨rfl, rfl⟩ := Prod.mk.inj outcome
    refine ⟨quiet.after trivial (by simp), by simp, ?_⟩
    rintro context ⟨⟩
    exact ⟨works, lawful.connect connected⟩
  · rw [reconnect] at outcome
    obtain ⟨rfl, rfl⟩ := Prod.mk.inj outcome
    have noted : (session.after fresh world (.connect fresh)).Quiet
        outstanding := quiet.after trivial (by simp)
    refine ⟨noted, ?_, by simp⟩
    intro _ context stored works
    exact absurd works (failed context stored)

theorem ensureContext_quiet {result : Option Context}
    {next : Session World Context}
    (ensured : session.ensureContext hiredis = (result, next))
    (quiet : session.Quiet outstanding)
    (clean : session.Clean hiredis outstanding) :
    next.Quiet outstanding ∧
      (result = none → next.Clean hiredis outstanding) ∧
      ∀ context, result = some context →
        hiredis.err context = 0 ∧ outstanding context = 0 := by
  rcases session.ensureContext_cases hiredis with
    ⟨own, stored, works, kept⟩ | ⟨_, reconnected⟩
  · rw [ensured] at kept
    obtain ⟨rfl, rfl⟩ := Prod.mk.inj kept
    refine ⟨quiet, by simp, ?_⟩
    rintro context ⟨⟩
    exact ⟨works, clean own stored works⟩
  · rw [ensured] at reconnected
    exact reconnect_quiet lawful quiet reconnected.symm

/-- An accepted command waits for a reply that nobody reads. -/
theorem appendCommand_accepted {context next : Context} {command : Bytes}
    {appended : Session World Context} (works : hiredis.err context = 0)
    (append : session.appendCommand hiredis context command =
      (.REDIS_OK, next, appended)) :
    (appended.noteError hiredis).Accepted ∧
      ¬ (appended.noteError hiredis).Clean hiredis outstanding := by
  have calls := calls_appendCommand append
  refine ⟨⟨context, command, by rw [calls_noteError, calls]; simp⟩, ?_⟩
  unfold appendCommand at append
  cases sent : hiredis.redisAppendFormattedCommand session.world context
      command with
  | mk status rest =>
      obtain ⟨following, world⟩ := rest
      simp only [sent, Prod.mk.injEq] at append
      obtain ⟨rfl, rfl, rfl⟩ := append
      obtain ⟨grown, error⟩ := lawful.append_ok sent
      intro clean
      have zero := clean following rfl (error.trans works)
      omega

theorem appendCommand_refused (quiet : session.Quiet outstanding)
    {context next : Context} {command : Bytes}
    {refused : Session World Context}
    (append : session.appendCommand hiredis context command =
      (.REDIS_ERR, next, refused)) :
    refused.Quiet outstanding ∧ hiredis.err next ≠ 0 ∧
      refused.client.redisContext = some next := by
  unfold appendCommand at append
  cases sent : hiredis.redisAppendFormattedCommand session.world context
      command with
  | mk status rest =>
      obtain ⟨following, world⟩ := rest
      simp only [sent, Prod.mk.injEq] at append
      obtain ⟨rfl, rfl, rfl⟩ := append
      exact ⟨quiet.after trivial (by simp), lawful.append_err sent, rfl⟩

/-- A failed context gives no reply. -/
theorem redisBlockForReply_failed (quiet : session.Quiet outstanding)
    {context next : Context} {reply : Option Reply}
    {read : Session World Context} (failed : hiredis.err context ≠ 0)
    (stored : session.client.redisContext = some context)
    (block : session.redisBlockForReply hiredis context =
      (reply, next, read)) :
    reply = none ∧ read.Quiet outstanding ∧ hiredis.err next ≠ 0 ∧
      read.client.redisContext = some next := by
  unfold redisBlockForReply at block
  split at block
  · cases got : hiredis.redisGetReply session.world context with
    | mk status rest =>
        obtain ⟨answer, following, world⟩ := rest
        simp only [got, Prod.mk.injEq] at block
        obtain ⟨rfl, rfl, rfl⟩ := block
        obtain ⟨rfl, stillFailed⟩ := lawful.getReply_failed got failed
        exact ⟨rfl, quiet.after trivial (by simp), stillFailed, rfl⟩
  · obtain ⟨rfl, rest⟩ := Prod.mk.inj block
    obtain ⟨rfl, rfl⟩ := Prod.mk.inj rest
    exact ⟨rfl, quiet, failed, stored⟩

/-- There is no reply to a command that was refused. -/
theorem no_reply_of_refused (quiet : session.Quiet outstanding)
    {context refusing next : Context} {command : Bytes}
    {reply : Option Reply} {refused read : Session World Context}
    (append : session.appendCommand hiredis context command =
      (.REDIS_ERR, refusing, refused))
    (block : refused.redisBlockForReply hiredis refusing =
      (reply, next, read)) :
    reply = none ∧ read.Quiet outstanding ∧ hiredis.err next ≠ 0 ∧
      read.client.redisContext = some next := by
  obtain ⟨stillQuiet, failed, stored⟩ :=
    appendCommand_refused lawful quiet append
  exact redisBlockForReply_failed lawful stillQuiet failed stored block

theorem vCommand_quiet (quiet : session.Quiet outstanding)
    {context next : Context} {fmt : Bytes} {va rest : List VaArg}
    {reply : Option Reply} {read : Session World Context}
    (idle : outstanding context = 0)
    (command : session.vCommand hiredis context fmt va =
      (reply, rest, next, read)) :
    read.Quiet outstanding ∧ read.Clean hiredis outstanding := by
  unfold vCommand at command
  cases got : hiredis.redisvCommand session.world context fmt va with
  | mk answer parts =>
      obtain ⟨left, following, world⟩ := parts
      simp only [got, Prod.mk.injEq] at command
      obtain ⟨rfl, rfl, rfl, rfl⟩ := command
      cases answer with
      | none =>
          refine ⟨quiet.after trivial (by simp), ?_⟩
          rintro other ⟨⟩ works
          exact absurd works (lawful.vCommand_none got)
      | some reply =>
          refine ⟨quiet.after idle (by simp), ?_⟩
          rintro other ⟨⟩ _
          rw [(lawful.vCommand_reply got).1, idle]

end Primitives

theorem Clean.finish (clean : session.Clean hiredis outstanding)
    (context : Context) (reply : Option Reply) :
    (session.finish hiredis context reply).2.Clean hiredis outstanding := by
  cases reply <;> exact clean

theorem Quiet.finish (quiet : session.Quiet outstanding)
    (context : Context) (reply : Option Reply) :
    (session.finish hiredis context reply).2.Quiet outstanding := by
  cases reply <;> exact quiet

theorem clean_of_failed {context : Context}
    (failed : hiredis.err context ≠ 0)
    (stored : session.client.redisContext = some context) :
    session.Clean hiredis outstanding := by
  intro other isOther works
  rw [stored] at isOther
  cases isOther
  exact absurd works failed

/-- What an operation leaves: either all is in order, or a command has been
accepted and waits. -/
def Settled (hiredis : Hiredis World Context) (outstanding : Context → Nat)
    (session : Session World Context) : Prop :=
  (session.Quiet outstanding ∧ session.Clean hiredis outstanding) ∨
    (session.Accepted ∧ ¬ session.Clean hiredis outstanding)

section Operations

variable (lawful : hiredis.Lawful outstanding)

include lawful

theorem Sent.settled {cmd : Bytes} {context : Context}
    {result : Bool × Session World Context}
    (sent : Sent hiredis session cmd context result)
    (quiet : session.Quiet outstanding) (works : hiredis.err context = 0) :
    Settled hiredis outstanding result.2 := by
  cases sent with
  | accepted append =>
      exact .inr (appendCommand_accepted lawful works append)
  | answered append block =>
      obtain ⟨noReply, _⟩ := no_reply_of_refused lawful quiet append block
      simp at noReply
  | lost append block reconnect =>
      obtain ⟨_, read, _⟩ := no_reply_of_refused lawful quiet append block
      obtain ⟨stillQuiet, clean, _⟩ := reconnect_quiet lawful read reconnect
      exact .inl ⟨stillQuiet, clean rfl⟩
  | acceptedAgain append block reconnect appendAgain =>
      obtain ⟨_, read, _⟩ := no_reply_of_refused lawful quiet append block
      obtain ⟨_, _, usable⟩ := reconnect_quiet lawful read reconnect
      exact .inr (appendCommand_accepted lawful (usable _ rfl).1 appendAgain)
  | concluded append block reconnect appendAgain blockAgain =>
      obtain ⟨_, read, _⟩ := no_reply_of_refused lawful quiet append block
      obtain ⟨connected, _, _⟩ := reconnect_quiet lawful read reconnect
      obtain ⟨_, final, lastFailed, lastStored⟩ :=
        no_reply_of_refused lawful connected appendAgain blockAgain
      exact .inl ⟨final.finish _ _,
        (clean_of_failed lastFailed lastStored).finish _ _⟩

theorem Asked.settled {fmt : Bytes} {va : List VaArg} {context : Context}
    {result : Bool × Session World Context}
    (asked : Asked hiredis session fmt va context result)
    (quiet : session.Quiet outstanding) (idle : outstanding context = 0) :
    Settled hiredis outstanding result.2 := by
  cases asked with
  | answered command =>
      obtain ⟨read, clean⟩ := vCommand_quiet lawful quiet idle command
      exact .inl ⟨read.finish _ _, clean.finish _ _⟩
  | lost command reconnect =>
      obtain ⟨read, _⟩ := vCommand_quiet lawful quiet idle command
      obtain ⟨stillQuiet, clean, _⟩ := reconnect_quiet lawful read reconnect
      exact .inl ⟨stillQuiet, clean rfl⟩
  | concluded command reconnect commandAgain =>
      obtain ⟨read, _⟩ := vCommand_quiet lawful quiet idle command
      obtain ⟨connected, _, usable⟩ := reconnect_quiet lawful read reconnect
      obtain ⟨final, clean⟩ :=
        vCommand_quiet lawful connected (usable _ rfl).2 commandAgain
      exact .inl ⟨final.finish _ _, clean.finish _ _⟩

/-- One operation from an orderly session. -/
theorem perform_settled (quiet : session.Quiet outstanding)
    (clean : session.Clean hiredis outstanding) {operation : Operation}
    {result : Bool × Session World Context}
    (run : operation.perform hiredis session = .ok result) :
    Settled hiredis outstanding result.2 := by
  unfold Operation.perform at run
  split at run
  · rename_i fmt va _
    obtain rfl := Except.ok.inj run
    rcases session.doRedisCommandArgs_cases hiredis fmt va with
      ⟨stopped, ensured, outcome⟩ | ⟨context, ready, ensured, asked⟩
    · obtain ⟨stillQuiet, stopClean, _⟩ :=
        ensureContext_quiet lawful ensured quiet clean
      rw [outcome]
      exact .inl ⟨stillQuiet, stopClean rfl⟩
    · obtain ⟨readyQuiet, _, usable⟩ :=
        ensureContext_quiet lawful ensured quiet clean
      exact asked.settled lawful readyQuiet (usable context rfl).2
  · obtain ⟨command, _, outcome⟩ := session.doRedisCommandFormat_cases hiredis run
    rcases outcome with ⟨stopped, ensured, rfl⟩ | ⟨context, ready, ensured, sent⟩
    · obtain ⟨stillQuiet, stopClean, _⟩ :=
        ensureContext_quiet lawful ensured quiet clean
      exact .inl ⟨stillQuiet, stopClean rfl⟩
    · obtain ⟨readyQuiet, _, usable⟩ :=
        ensureContext_quiet lawful ensured quiet clean
      exact sent.settled lawful readyQuiet (usable context rfl).1

/-- A run from an orderly session stays in step exactly as long as no command
is accepted. -/
theorem sessions_inStep_iff (operations : List Operation) :
    ∀ session : Session World Context, session.Quiet outstanding →
      session.Clean hiredis outstanding →
      ((∀ later ∈ sessions hiredis session operations,
          later.InStep hiredis outstanding) ↔
        ∀ later ∈ sessions hiredis session operations, ¬ later.Accepted) := by
  induction operations with
  | nil => simp [sessions]
  | cons operation operations induction =>
      intro session quiet clean
      cases run : operation.perform hiredis session with
      | error fault => simp [sessions, run]
      | ok result =>
          obtain ⟨returned, next⟩ := result
          simp only [sessions, run, List.forall_mem_cons]
          rcases perform_settled lawful quiet clean run with
            ⟨nextQuiet, nextClean⟩ | ⟨accepted, unclean⟩
          · obtain ⟨paired, refused⟩ := quiet_iff.mp nextQuiet
            rw [induction next nextQuiet nextClean]
            simp [refused, InStep.mk nextClean paired]
          · constructor
            · rintro ⟨inStep, _⟩
              exact absurd inStep.clean unclean
            · rintro ⟨refused, _⟩
              exact absurd accepted refused

end Operations

end Session

/-- After every operation of a run of a new client, each reply read was the
answer to its own command and nothing is left waiting. -/
def StaysPaired (hiredis : Hiredis World Context) (outstanding : Context → Nat)
    (world : World) (operations : List Operation) : Prop :=
  ∀ session ∈ sessions hiredis { world := world } operations,
    session.InStep hiredis outstanding

/-- A run stays paired if and only if `redisAppendFormattedCommand` accepts no
command in it. -/
theorem replies_stay_paired {hiredis : Hiredis World Context}
    {outstanding : Context → Nat} (lawful : hiredis.Lawful outstanding)
    (world : World) (operations : List Operation) :
    StaysPaired hiredis outstanding world operations ↔
      ∀ session ∈ sessions hiredis { world := world } operations,
        ¬ session.Accepted :=
  Session.sessions_inStep_iff lawful operations _ (by simp [Session.Quiet])
    (by simp [Session.Clean])

namespace Example

/-- The reply of a server that holds one value: a bare `set` is refused for
want of arguments. -/
def answer (command : Bytes) : Reply :=
  if command = ascii "set" then
    .error (ascii "ERR wrong number of arguments for 'set' command")
  else .string (ascii "v")

/-- A connection that never fails.  The context holds the commands that wait
for their reply, the oldest first. -/
def queueing : Hiredis Unit (List Bytes) where
  err _ := 0
  errstr _ := []
  block _ := true
  redisConnectWithTimeout world := (some [], world)
  redisAppendFormattedCommand world context command :=
    (.REDIS_OK, context ++ [command], world)
  redisGetReply world context :=
    match context with
    | [] => (.REDIS_ERR, none, [], world)
    | oldest :: rest => (.REDIS_OK, some (answer oldest), rest, world)
  redisvCommand world context fmt va :=
    match context ++ [fmt] with
    | [] => (none, va, [], world)
    | oldest :: rest => (some (answer oldest), [], rest, world)

theorem queueing_lawful : queueing.Lawful List.length where
  connect := by
    intro world context next connected
    obtain rfl : [] = context := Option.some.inj (Prod.mk.inj connected).1
    rfl
  append_ok := by
    intro world context command after next appended
    obtain ⟨_, rest⟩ := Prod.mk.inj appended
    obtain rfl := (Prod.mk.inj rest).1
    exact ⟨by simp, rfl⟩
  append_err := by simp [queueing]
  getReply_ok := by
    intro world context reply after next got
    cases context with
    | nil => simp [queueing] at got
    | cons oldest rest =>
        obtain ⟨_, parts⟩ := Prod.mk.inj got
        obtain ⟨_, parts⟩ := Prod.mk.inj parts
        obtain rfl := (Prod.mk.inj parts).1
        exact ⟨rfl, rfl⟩
  getReply_failed := by simp [queueing]
  vCommand_reply := by
    intro world context fmt va reply rest after next got
    refine ⟨?_, rfl⟩
    cases context with
    | nil =>
        obtain ⟨_, parts⟩ := Prod.mk.inj got
        obtain ⟨_, parts⟩ := Prod.mk.inj parts
        obtain rfl := (Prod.mk.inj parts).1
        rfl
    | cons oldest others =>
        obtain ⟨_, parts⟩ := Prod.mk.inj got
        obtain ⟨_, parts⟩ := Prod.mk.inj parts
        obtain rfl := (Prod.mk.inj parts).1
        simp
  vCommand_none := by
    intro world context fmt va rest after next got
    cases context <;> simp [queueing] at got

theorem replies_stay_paired_get :
    StaysPaired queueing List.length ()
      [.get (ascii "k"), .exists (ascii "k"), .get (ascii "k")] := by
  refine (replies_stay_paired queueing_lawful () _).mpr ?_
  rintro session member ⟨context, command, accepted⟩
  simp [sessions, Operation.perform, Operation.request,
    Session.doRedisCommandArgs, Session.ensureContext, Session.reconnect,
    Session.vCommand, Session.finish, Session.clear, Session.after,
    queueing] at member
  rcases member with rfl | rfl | rfl <;> simp at accepted

/-- After a `set` the next `get` reads the reply to the `set`. -/
theorem replies_shift_after_set :
    queueing.Lawful List.length ∧
      (sessions queueing { world := () } [.set (ascii "k") (ascii "v"),
        .get (ascii "k")]).map (·.client.redisReply) =
        [none, some (answer (ascii "set"))] ∧
      ¬ StaysPaired queueing List.length ()
          [.set (ascii "k") (ascii "v"), .get (ascii "k")] := by
  refine ⟨queueing_lawful, rfl, ?_⟩
  intro inStep
  have waiting := (inStep _ (List.mem_cons_self ..)).clean [ascii "set"] rfl rfl
  simp at waiting

end Example

end Natsu.Redis
