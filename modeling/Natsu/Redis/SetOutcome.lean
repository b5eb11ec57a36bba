import Natsu.Redis.Outcomes

/-!
# What `set` reports

The three overloads of `set` return a flag and an error.  Where no reply was
obtained they `return ""`, and a string literal is true.
-/

namespace Natsu.Redis

open Natsu.Foundation

variable {World Context : Type} (hiredis : Hiredis World Context)

def mismatch : Bytes := ascii "unexcepted reply"

namespace Session

/-- What the `set` overloads make of a command that is done. -/
def setResult (session : Session World Context) (err : RedisError) :
    (done : Bool) → Option Reply → Bool × RedisError
  | false, _ => (true, session.client.redisError)
  | true, some (.status str) =>
      (if str.length > 0 then strcaseeq str (ascii "ok") else false, err)
  | true, some (.error str) =>
      (if str.length > 0 then strcaseeq str (ascii "ok") else false, err)
  | true, _ => (false, { code := -1, reason := mismatch })

def doSet (session : Session World Context) (v : List Bytes)
    (err : RedisError) :
    Except Fault (Bool × RedisError × Session World Context) :=
  (session.doRedisCommandFormat hiredis (ascii "set") v).map
    fun (done, session) =>
      let (returned, err) :=
        session.setResult err done session.client.redisReply
      (returned, err, session)

def set (session : Session World Context) (key value : Bytes)
    (err : RedisError) :=
  session.doSet hiredis [key, value] err

def setWhen (session : Session World Context) (key value : Bytes)
    (setWhenExist : Bool) (err : RedisError) :=
  session.doSet hiredis [key, value, existText setWhenExist] err

def setFor (session : Session World Context) (key value : Bytes)
    (millisecond : Int) (setWhenExist : Bool) (err : RedisError) :=
  session.doSet hiredis [key, value, ascii "PX", printInt millisecond,
    existText setWhenExist] err

end Session

/-- The reply that a call has read. -/
def Call.reply : Call Context → Option Reply
  | .getReply _ reply => reply
  | _ => none

def replies (calls : List (Call Context)) : List Reply :=
  calls.filterMap Call.reply

/-- The server has replied with the status OK to a command it was sent. -/
def OkReplied (calls : List (Call Context)) : Prop :=
  ∃ before on command source str after,
    calls = before ++ .append on command .REDIS_OK ::
        .getReply source (some (.status str)) :: after ∧
      strcaseeq str (ascii "ok")

/-- The call reports success only for the status OK, and an error where no
reply or an error reply came. -/
structure Honest (calls : List (Call Context)) (returned : Bool)
    (err : RedisError) : Prop where
  success : returned = true → OkReplied calls
  failure : ¬ OkReplied calls →
    (replies calls = [] ∨ ∃ str, .error str ∈ replies calls) →
    err.ok = false

/-- A reply that is neither an error nor the status OK. -/
def Reply.Other : Reply → Prop
  | .error _ => False
  | .status str => ¬ strcaseeq str (ascii "ok")
  | _ => True

section Calls

variable {hiredis} {session : Session World Context}

theorem replies_append (calls : List (Call Context)) (call : Call Context) :
    replies (calls ++ [call]) = replies calls ++ call.reply.toList := by
  cases reply : call.reply <;> simp [replies, reply]

theorem OkReplied.replied {calls : List (Call Context)}
    (okReplied : OkReplied calls) :
    (∃ on command, Call.append on command .REDIS_OK ∈ calls) ∧
      replies calls ≠ [] := by
  obtain ⟨before, on, command, source, str, after, rfl, _⟩ := okReplied
  refine ⟨⟨on, command, by simp⟩, ?_⟩
  simp [replies, Call.reply]

/-- How a vector command ends: without a reply, or with exactly one, which it
then stores, and then no command was accepted. -/
def Ended (result : Bool × Session World Context) : Prop :=
  (result.1 = false ∧ replies result.2.calls = []) ∨
    ∃ reply, result.1 = true ∧ result.2.client.redisReply = some reply ∧
      replies result.2.calls = [reply] ∧
      ∀ on command, Call.append on command .REDIS_OK ∉ result.2.calls

/-- No call so far has read a reply or was an accepted append. -/
def Untouched (session : Session World Context) : Prop :=
  replies session.calls = [] ∧
    ∀ on command, Call.append on command .REDIS_OK ∉ session.calls

theorem Untouched.connected (untouched : Untouched session)
    {next : Session World Context} {result : Option Context}
    (calls : next.calls = session.calls ++ [.connect result]) :
    Untouched next := by
  constructor
  · rw [calls, replies_append, untouched.1]
    rfl
  · intro on command
    rw [calls]
    simp [untouched.2 on command]

theorem reconnect_untouched (untouched : Untouched session)
    {context : Option Context} {next : Session World Context}
    (reconnect : session.reconnect hiredis = (context, next)) :
    Untouched next := by
  obtain ⟨result, calls⟩ := Session.calls_reconnect reconnect
  exact untouched.connected calls

theorem appendCommand_untouched (untouched : Untouched session)
    {context next : Context} {command : Bytes}
    {refused : Session World Context}
    (append : session.appendCommand hiredis context command =
      (.REDIS_ERR, next, refused)) :
    Untouched refused := by
  have calls := Session.calls_appendCommand append
  constructor
  · rw [calls, replies_append, untouched.1]
    rfl
  · intro on command
    rw [calls]
    simp [untouched.2 on command]

theorem appendCommand_ended (untouched : Untouched session)
    {context next : Context} {command : Bytes}
    {appended : Session World Context}
    (append : session.appendCommand hiredis context command =
      (.REDIS_OK, next, appended)) :
    Ended (false, appended.noteError hiredis) := by
  refine .inl ⟨rfl, ?_⟩
  rw [Session.calls_noteError, Session.calls_appendCommand append,
    replies_append, untouched.1]
  rfl

theorem redisBlockForReply_untouched (untouched : Untouched session)
    {context next : Context} {reply : Option Reply}
    {read : Session World Context}
    (block : session.redisBlockForReply hiredis context =
      (reply, next, read)) :
    replies read.calls = reply.toList ∧
      ∀ on command, Call.append on command .REDIS_OK ∉ read.calls := by
  rcases Session.calls_redisBlockForReply block with ⟨same, rfl⟩ | more
  · rw [same]
    exact untouched
  · constructor
    · rw [more, replies_append, untouched.1]
      rfl
    · intro on command
      rw [more]
      simp [untouched.2 on command]

theorem finish_ended {context : Context} {reply : Option Reply}
    (read : replies session.calls = reply.toList ∧
      ∀ on command, Call.append on command .REDIS_OK ∉ session.calls) :
    Ended (session.finish hiredis context reply) := by
  cases reply with
  | none => exact .inl ⟨rfl, read.1⟩
  | some reply => exact .inr ⟨reply, rfl, rfl, read.1, read.2⟩

theorem sent_ended (untouched : Untouched session) {cmd : Bytes}
    {context : Context} {result : Bool × Session World Context}
    (sent : Session.Sent hiredis session cmd context result) :
    Ended result := by
  cases sent with
  | accepted append => exact appendCommand_ended untouched append
  | answered append block =>
      have refused := appendCommand_untouched untouched append
      exact finish_ended (redisBlockForReply_untouched refused block)
  | lost append block reconnect =>
      have refused := appendCommand_untouched untouched append
      have read := redisBlockForReply_untouched refused block
      exact .inl ⟨rfl, (reconnect_untouched read reconnect).1⟩
  | acceptedAgain append block reconnect appendAgain =>
      have refused := appendCommand_untouched untouched append
      have read := redisBlockForReply_untouched refused block
      exact appendCommand_ended (reconnect_untouched read reconnect) appendAgain
  | concluded append block reconnect appendAgain blockAgain =>
      have refused := appendCommand_untouched untouched append
      have read := redisBlockForReply_untouched refused block
      have connected := reconnect_untouched read reconnect
      have refusedAgain := appendCommand_untouched connected appendAgain
      exact finish_ended (redisBlockForReply_untouched refusedAgain blockAgain)

theorem doRedisCommandFormat_ended (fresh : session.calls = [])
    {cmd : Bytes} {v : List Bytes} {result : Bool × Session World Context}
    (run : session.doRedisCommandFormat hiredis cmd v = .ok result) :
    Ended result := by
  obtain ⟨command, _, outcome⟩ := session.doRedisCommandFormat_cases hiredis run
  have untouched : Untouched (session.built command) := by
    have none : (session.built command).calls = [] := fresh
    simp [Untouched, none, replies]
  have ready : ∀ {context next},
      (session.built command).ensureContext hiredis = (context, next) →
      Untouched next := by
    intro context next ensured
    rcases Session.calls_ensureContext ensured with same | ⟨result, calls⟩
    · rw [Untouched, same]
      exact untouched
    · exact untouched.connected calls
  rcases outcome with ⟨stopped, ensured, rfl⟩ | ⟨context, connected, ensured, sent⟩
  · exact .inl ⟨rfl, (ready ensured).1⟩
  · exact sent_ended (ready ensured) sent

end Calls

section Report

variable {session : Session World Context}

theorem honest_of_silent (silent : replies session.calls = []) :
    ¬ Honest session.calls true session.client.redisError := by
  intro honest
  exact (honest.success rfl).replied.2 silent

/-- The report of a `set` that started with a fresh error. -/
theorem honest_iff_of_reply {reply : Reply}
    (read : replies session.calls = [reply])
    (refused : ∀ on command,
      Call.append on command .REDIS_OK ∉ session.calls) :
    Honest session.calls (session.setResult {} true (some reply)).1
        (session.setResult {} true (some reply)).2 ↔ reply.Other := by
  have notOk : ¬ OkReplied session.calls := by
    intro okReplied
    obtain ⟨on, command, accepted⟩ := okReplied.replied.1
    exact refused on command accepted
  have mismatched : ∀ {err : RedisError}, err.ok = false →
      Honest session.calls false err := fun failed =>
    ⟨fun success => absurd success (by simp), fun _ _ => failed⟩
  cases reply with
  | error str =>
      refine ⟨fun honest => ?_, fun other => other.elim⟩
      have failed := honest.failure notOk (.inr ⟨str, by simp [read]⟩)
      simp [Session.setResult, RedisError.ok] at failed
  | status str =>
      have empty : strcaseeq [] (ascii "ok") = false := by decide
      constructor
      · intro honest isOk
        have nonempty : str.length > 0 := by
          cases str with
          | nil => simp [empty] at isOk
          | cons => simp
        exact notOk (honest.success (by simp [Session.setResult, nonempty, isOk]))
      · intro other
        have unequal : strcaseeq str (ascii "ok") = false := by
          simpa [Reply.Other] using other
        refine ⟨fun success => ?_, fun _ cause => ?_⟩
        · simp [Session.setResult, unequal] at success
        · simp [read] at cause
  | string str => exact ⟨fun _ => trivial, fun _ => mismatched rfl⟩
  | array elements => exact ⟨fun _ => trivial, fun _ => mismatched rfl⟩
  | integer value => exact ⟨fun _ => trivial, fun _ => mismatched rfl⟩
  | nil => exact ⟨fun _ => trivial, fun _ => mismatched rfl⟩

end Report

/-- A run of `set` that ends, with what its report and the replies it has read
have to do with each other. -/
def ReportsOnReply
    (run : Except Fault (Bool × RedisError × Session World Context)) : Prop :=
  ∃ returned err final, run = .ok (returned, err, final) ∧
    (Honest final.calls returned err ↔
      ∃ reply ∈ replies final.calls, reply.Other)

theorem doSet_reports {session : Session World Context}
    (fresh : session.calls = []) (first second : Bytes)
    (others : List Bytes) :
    ReportsOnReply
      (session.doSet hiredis (first :: second :: others) {}) := by
  cases run : session.doRedisCommandFormat hiredis (ascii "set")
      (first :: second :: others) with
  | error fault =>
      have faults := Session.formatCommand_of_fault run
      obtain ⟨built, equality⟩ := formatElements_eq
        (first :: second :: others) (first :: second :: others) rfl
      simp [formatCommand, equality, Except.map] at faults
  | ok result =>
      obtain ⟨done, final⟩ := result
      refine ⟨(final.setResult {} done final.client.redisReply).1,
        (final.setResult {} done final.client.redisReply).2, final,
        by rw [Session.doSet, run]; rfl, ?_⟩
      rcases doRedisCommandFormat_ended fresh run with
        ⟨failed, silent⟩ | ⟨reply, worked, stored, read, refused⟩
      · obtain rfl : done = false := failed
        have silence : replies final.calls = [] := silent
        have dishonest := honest_of_silent silence
        simp only [silence, List.not_mem_nil, false_and, exists_false,
          iff_false]
        exact dishonest
      · obtain rfl : done = true := worked
        have isStored : final.client.redisReply = some reply := stored
        have isRead : replies final.calls = [reply] := read
        have reported := honest_iff_of_reply isRead refused
        simp only [isStored, isRead, List.mem_singleton, exists_eq_left]
        exact reported

/-- Each overload of `set` reports honestly exactly when a reply was read that
is neither an error nor the status OK. -/
theorem set_honest_iff (client : RedisClientImpl Context) (world : World)
    (key value : Bytes) :
    ReportsOnReply (Session.set hiredis
        { client := client, world := world } key value {}) ∧
      (∀ setWhenExist, ReportsOnReply (Session.setWhen hiredis
        { client := client, world := world } key value setWhenExist {})) ∧
      ∀ millisecond setWhenExist, ReportsOnReply (Session.setFor hiredis
        { client := client, world := world } key value millisecond
        setWhenExist {}) :=
  ⟨doSet_reports hiredis rfl _ _ _,
    fun _ => doSet_reports hiredis rfl _ _ _,
    fun _ _ => doSet_reports hiredis rfl _ _ _⟩

namespace Example

/-- A server that refuses the connection. -/
def refusing : Hiredis Unit Unit where
  err _ := 1
  errstr _ := ascii "Connection refused"
  block _ := true
  redisConnectWithTimeout world := (some (), world)
  redisAppendFormattedCommand world _ _ := (.REDIS_OK, (), world)
  redisGetReply world _ := (.REDIS_ERR, none, (), world)
  redisvCommand world _ _ va := (none, va, (), world)

/-- Without a connection `set` returns true. -/
theorem set_succeeds_without_server :
    ∃ final, Session.set refusing { world := () } (ascii "k") (ascii "v") {} =
        .ok (true, { code := 1, reason := ascii "Connection refused" },
          final) ∧
      ¬ Honest final.calls true
        { code := 1, reason := ascii "Connection refused" } := by
  refine ⟨_, rfl, ?_⟩
  intro honest
  exact (honest.success rfl).replied.2 rfl

end Example

end Natsu.Redis
