import Natsu.Redis.Keys
import Natsu.Redis.SetOutcome

/-!
# What the readers report

The operations with one key or member share one way of reporting: no reply
gives the error of the client, a reply of another type gives -1, and the
result is then neutral.  `get` and `hget` return 0 for a reply of another
type, which makes a string from a null pointer.  A command that is sent a
second time reads past the end of its `va_list`.
-/

namespace Natsu.Redis

open Natsu.Foundation

variable {World Context Value : Type}

inductive ReplyType where
  | REDIS_REPLY_STRING
  | REDIS_REPLY_ARRAY
  | REDIS_REPLY_INTEGER
  | REDIS_REPLY_NIL
  | REDIS_REPLY_STATUS
  | REDIS_REPLY_ERROR
  deriving DecidableEq, Repr

namespace Reply

def type : Reply → ReplyType
  | .string _ => .REDIS_REPLY_STRING
  | .array _ => .REDIS_REPLY_ARRAY
  | .integer _ => .REDIS_REPLY_INTEGER
  | .nil => .REDIS_REPLY_NIL
  | .status _ => .REDIS_REPLY_STATUS
  | .error _ => .REDIS_REPLY_ERROR

/-- The `len` bytes at `str`: none where the pointer is null. -/
def str : Reply → Bytes
  | .string str | .status str | .error str => str
  | .array _ | .integer _ | .nil => []

/-- The member `integer`, narrowed to an `int`. -/
def int : Reply → Int
  | .integer value => toInt value
  | _ => 0

def elements : Reply → List Reply
  | .array elements => elements
  | _ => []

/-- The reason for a reply of another type. -/
def reason (reply : Reply) : Bytes :=
  if reply.type = .REDIS_REPLY_ERROR then cstr reply.str else mismatch

end Reply

/-- What ends an operation early: the `logic_error` of a string that is made
from a null pointer, and a command that reads past the end of its `va_list`,
whose result is undefined. -/
inductive Thrown where
  | constructionFromNull
  | readPastArguments
  deriving DecidableEq, Repr

/-- How an operation ends: what it returns or throws, and what `err` and the
session are then. -/
structure Outcome (World Context Value : Type) where
  returned : Except Thrown Value
  err : RedisError
  session : Session World Context

section Operations

variable (hiredis : Hiredis World Context)

/-- The body that the operations share: the command, the type of reply it
expects and the value of one, and the results for another type and for no
reply. -/
def Session.report (session : Session World Context) (fmt : Bytes) (va : List VaArg)
    (err : RedisError) (expected : ReplyType) (value : Reply → Value)
    (mismatched : Except Thrown Value) (neutral : Value) :
    Outcome World Context Value :=
  let (done, session) := session.doRedisCommandArgs hiredis fmt va
  -- The second `redisvCommand` is given the list that the first has read.
  if none ∈ commands session.calls then
    ⟨.error .readPastArguments, err, session⟩
  else
    match done, session.client.redisReply with
    | true, some reply =>
        if reply.type ≠ expected then
          ⟨mismatched, { code := -1, reason := reply.reason }, session⟩
        else ⟨.ok (value reply), err, session⟩
    | _, _ => ⟨.ok neutral, session.client.redisError, session⟩

def Session.del (session : Session World Context) (key : Bytes) (err : RedisError) :
    Outcome World Context Int :=
  session.report hiredis (ascii "del %s") [.pointer key] err
    .REDIS_REPLY_INTEGER Reply.int (.ok 0) 0

def Session.exists (session : Session World Context) (key : Bytes)
    (err : RedisError) : Outcome World Context Bool :=
  session.report hiredis (ascii "exists %b") (binary key) err
    .REDIS_REPLY_INTEGER (fun reply => reply.int == 1) (.ok false) false

def Session.get (session : Session World Context) (key : Bytes) (err : RedisError) :
    Outcome World Context Bytes :=
  session.report hiredis (ascii "get %s") [.pointer key] err
    .REDIS_REPLY_STRING Reply.str (.error .constructionFromNull) []

def Session.hset (session : Session World Context) (key field value : Bytes)
    (err : RedisError) : Outcome World Context Int :=
  session.report hiredis (ascii "hset %b %b %b")
    (binary key ++ binary field ++ binary value) err
    .REDIS_REPLY_INTEGER Reply.int (.ok 0) 0

def Session.hget (session : Session World Context) (key field : Bytes)
    (err : RedisError) : Outcome World Context Bytes :=
  session.report hiredis (ascii "hget %b %b") (binary key ++ binary field) err
    .REDIS_REPLY_STRING Reply.str (.error .constructionFromNull) []

def Session.hdel (session : Session World Context) (key field : Bytes)
    (err : RedisError) : Outcome World Context Int :=
  session.report hiredis (ascii "hdel %b %b") (binary key ++ binary field) err
    .REDIS_REPLY_INTEGER Reply.int (.ok 0) 0

def Session.sadd (session : Session World Context) (key value : Bytes)
    (err : RedisError) : Outcome World Context Int :=
  session.report hiredis (ascii "sadd %b %b") (binary key ++ binary value) err
    .REDIS_REPLY_INTEGER Reply.int (.ok 0) 0

/-- The set that the loop of `smembers` fills. -/
def members (reply : Reply) : Std.ExtTreeSet Bytes :=
  reply.elements.foldl (fun result member => result.insert member.str) ∅

def Session.smembers (session : Session World Context) (key : Bytes)
    (err : RedisError) : Outcome World Context (Std.ExtTreeSet Bytes) :=
  session.report hiredis (ascii "smembers %b") (binary key) err
    .REDIS_REPLY_ARRAY members (.ok ∅) ∅

end Operations

/-- The replies that `redisvCommand` has returned. -/
def received (calls : List (Call Context)) : List Reply :=
  calls.filterMap fun
    | .vCommand _ _ _ reply => reply
    | _ => none

/-- The replies to the command of an operation. -/
def Operation.received (hiredis : Hiredis World Context)
    (session : Session World Context) (operation : Operation) : List Reply :=
  match operation.perform hiredis session with
  | .error _ => []
  | .ok result => Natsu.Redis.received result.2.calls

/-- The command of an operation is sent a second time. -/
def Operation.SentAgain (hiredis : Hiredis World Context)
    (session : Session World Context) (operation : Operation) : Prop :=
  ∃ fmt va, operation.request = .args fmt va ∧
    Retries hiredis { session with calls := [] } fmt va

/-- The operation returns, with `err` clear exactly when a reply of the type
was received, and otherwise with the neutral result. -/
structure Reports (outcome : Outcome World Context Value)
    (expected : ReplyType) (neutral : Value) : Prop where
  returns : ∃ value, outcome.returned = .ok value ∧
    (outcome.err.ok = false → value = neutral)
  clear : outcome.err.ok = true ↔
    ∃ reply ∈ received outcome.session.calls, reply.type = expected

section Received

variable {hiredis : Hiredis World Context} {session : Session World Context}

theorem received_reconnect {context : Option Context}
    {next : Session World Context}
    (reconnect : session.reconnect hiredis = (context, next)) :
    received next.calls = received session.calls := by
  obtain ⟨result, calls⟩ := Session.calls_reconnect reconnect
  simp [calls, received]

theorem received_ensureContext {context : Option Context}
    {ready : Session World Context}
    (ensured : session.ensureContext hiredis = (context, ready)) :
    received ready.calls = received session.calls := by
  rcases Session.calls_ensureContext ensured with same | ⟨result, calls⟩
  · rw [same]
  · simp [calls, received]

theorem received_vCommand {context next : Context} {fmt : Bytes}
    {va rest : List VaArg} {reply : Option Reply}
    {read : Session World Context}
    (command : session.vCommand hiredis context fmt va =
      (reply, rest, next, read)) :
    received read.calls = received session.calls ++ reply.toList := by
  have calls := (Session.calls_vCommand command).1
  cases reply <;> simp [calls, received]

/-- The error that a failed connection leaves. -/
theorem code_reconnect {stopped : Session World Context}
    (reconnect : session.reconnect hiredis = (none, stopped)) :
    stopped.client.redisError.code ≠ 0 := by
  rcases session.reconnect_cases hiredis with
    ⟨_, _, _, _, connected⟩ | ⟨context, world, _, unusable, failed⟩
  · simp [connected] at reconnect
  · rw [failed] at reconnect
    obtain ⟨_, rfl⟩ := Prod.mk.inj reconnect
    cases context with
    | none => exact Int.neg_ne_zero.mpr Int.one_ne_zero
    | some context => exact unusable context rfl

theorem code_ensureContext {stopped : Session World Context}
    (ensured : session.ensureContext hiredis = (none, stopped)) :
    stopped.client.redisError.code ≠ 0 := by
  rcases session.ensureContext_cases hiredis with
    ⟨_, _, _, kept⟩ | ⟨_, reconnected⟩
  · simp [kept] at ensured
  · rw [reconnected] at ensured
    exact code_reconnect ensured

/-- How a command ends: with an error and without a reply, or with one. -/
def Answered (result : Bool × Session World Context) : Prop :=
  (result.1 = false ∧ result.2.client.redisError.code ≠ 0 ∧
      received result.2.calls = []) ∨
    ∃ reply, result.1 = true ∧ result.2.client.redisReply = some reply ∧
      received result.2.calls = [reply]

theorem finish_answered {context : Context} {reply : Option Reply}
    (read : received session.calls = reply.toList) :
    Answered (session.finish hiredis context reply) := by
  cases reply with
  | some reply => exact .inr ⟨reply, rfl, rfl, read⟩
  | none =>
      refine .inl ⟨rfl, ?_, read⟩
      by_cases works : hiredis.err context = 0
      · simp [Session.finish, works]
      · simp [Session.finish, works]

variable (hiredis) in
theorem doRedisCommandArgs_answered (fresh : session.calls = [])
    (fmt : Bytes) (va : List VaArg) :
    Answered (session.doRedisCommandArgs hiredis fmt va) := by
  have nothing : received session.clear.calls = [] := by
    rw [Session.clear, fresh]
    rfl
  rcases session.doRedisCommandArgs_cases hiredis fmt va with
    ⟨stopped, ensured, run⟩ | ⟨context, ready, ensured, asked⟩
  · rw [run]
    exact .inl ⟨rfl, code_ensureContext ensured,
      (received_ensureContext ensured).trans nothing⟩
  · have before := (received_ensureContext ensured).trans nothing
    generalize session.doRedisCommandArgs hiredis fmt va = result at asked
    cases asked with
    | answered command =>
        apply finish_answered
        rw [received_vCommand command, before, List.nil_append]
    | lost command reconnect =>
        refine .inl ⟨rfl, code_reconnect reconnect, ?_⟩
        rw [received_reconnect reconnect, received_vCommand command, before]
        rfl
    | concluded command reconnect commandAgain =>
        apply finish_answered
        rw [received_vCommand commandAgain, received_reconnect reconnect,
          received_vCommand command, before]
        rfl

end Received

section Reporting

variable (hiredis : Hiredis World Context) {session : Session World Context}

theorem sentAgain_iff {operation : Operation} {fmt : Bytes} {va : List VaArg}
    (single : operation.request = .args fmt va) :
    operation.SentAgain hiredis session ↔
      Retries hiredis { session with calls := [] } fmt va := by
  constructor
  · intro sentAgain
    obtain ⟨otherFmt, otherVa, same, retries⟩ := sentAgain
    obtain ⟨rfl, rfl⟩ : fmt = otherFmt ∧ va = otherVa := by
      simpa [single] using same
    exact retries
  · intro retries
    exact ⟨fmt, va, single, retries⟩

/-- A command reads past its arguments exactly when it is sent again. -/
theorem readPast_iff_sentAgain (advances : hiredis.Advances)
    (fresh : session.calls = []) {operation : Operation} {fmt : Bytes}
    {va : List VaArg} (single : operation.request = .args fmt va) :
    none ∈ commands (session.doRedisCommandArgs hiredis fmt va).2.calls ↔
      operation.SentAgain hiredis session := by
  have asNew : { session with calls := [] } = session := by
    rw [← fresh]
  have performs : operation.transmitted hiredis session =
      commands (session.doRedisCommandArgs hiredis fmt va).2.calls := by
    simp only [Operation.transmitted, Operation.perform, single, asNew]
  have formatted := formatFrom_request single
  have first : formatArguments fmt va =
      some (operation.name :: operation.sent) := by
    simp only [formatArguments, formatted, Option.map_some]
  have exhausted : formatArguments fmt [] = none := by
    simp only [formatArguments, formatFrom_exhausted single, Option.map_none]
  rw [sentAgain_iff hiredis single, ← performs]
  rcases transmitted_cases hiredis session single with
    ⟨apart, nothing⟩ | ⟨_, once, one⟩ | ⟨_, twice, world, context, two⟩
  · have notAgain : ¬ Retries hiredis { session with calls := [] } fmt va := by
      intro retries
      obtain ⟨context, ready, _, _, _, _, _, ensured, _⟩ := retries
      have connected := connected_of_ensureContext ensured
      exact apart connected
    simp [nothing, notAgain]
  · simp [one, first, once]
  · rw [advances world context fmt va _ _ formatted, exhausted] at two
    simp [two, twice]

/-- The shared body reports as it should unless the command is sent again or a
mismatch throws. -/
theorem report_reports_iff (advances : hiredis.Advances)
    (fresh : session.calls = []) {operation : Operation} {fmt : Bytes}
    {va : List VaArg} (single : operation.request = .args fmt va)
    (expected : ReplyType) (value : Reply → Value)
    {mismatched : Except Thrown Value} {neutral : Value}
    (thrownOrNeutral : ∀ other, mismatched = .ok other → other = neutral) :
    Reports (session.report hiredis fmt va {} expected value mismatched
        neutral) expected neutral ↔
      ¬ operation.SentAgain hiredis session ∧
        (mismatched = .ok neutral ∨
          ∀ reply ∈ operation.received hiredis session,
            reply.type = expected) := by
  have past := readPast_iff_sentAgain hiredis advances fresh single
  have receives : operation.received hiredis session =
      received (session.doRedisCommandArgs hiredis fmt va).2.calls := by
    simp only [Operation.received, Operation.perform, single]
  rw [receives]
  simp only [Session.report]
  by_cases again : operation.SentAgain hiredis session
  · have isPast := past.mpr again
    refine iff_of_false ?_ fun settled => settled.1 again
    rw [if_pos isPast]
    intro reports
    obtain ⟨⟨value, returned, _⟩, _⟩ := reports
    cases returned
  rw [if_neg (mt past.mp again)]
  simp only [again, not_false_eq_true, true_and]
  rcases doRedisCommandArgs_answered hiredis fresh fmt va with
    ⟨undone, failed, nothing⟩ | ⟨reply, isDone, stored, read⟩
  · have notOk : (session.doRedisCommandArgs hiredis fmt
        va).2.client.redisError.ok = false := by
      simpa [RedisError.ok] using failed
    refine iff_of_true ⟨?_, ?_⟩ (.inr (by simp [nothing]))
    · exact ⟨neutral, by simp [undone], fun _ => rfl⟩
    · simp [undone, notOk, nothing]
  · by_cases same : reply.type = expected
    · refine iff_of_true ⟨?_, ?_⟩ (.inr (by simp [read, same]))
      · refine ⟨value reply, by simp [isDone, stored, same], ?_⟩
        simp [isDone, stored, same, RedisError.ok]
      · simp [isDone, stored, same, read, RedisError.ok]
    · have other : ¬ ∀ reply ∈ received
          (session.doRedisCommandArgs hiredis fmt va).2.calls,
            reply.type = expected := by
        simp [read, same]
      simp only [other, or_false]
      constructor
      · rintro ⟨⟨result, returned, _⟩, _⟩
        have isMismatched : mismatched = .ok result := by
          simpa [isDone, stored, same] using returned
        rw [isMismatched, thrownOrNeutral result isMismatched]
      · intro isNeutral
        refine ⟨⟨neutral, ?_, fun _ => rfl⟩, ?_⟩
        · simpa [isDone, stored, same] using isNeutral
        · simp [isDone, stored, same, read, RedisError.ok]

/-- Each operation reports as it should, for every reply and every failure of
the connection, exactly when its command is not sent a second time and, for
`get` and `hget`, the reply is a string. -/
theorem readers_report_iff (advances : hiredis.Advances)
    (client : RedisClientImpl Context) (world : World)
    (key field value : Bytes) :
    let session : Session World Context := { client := client, world := world }
    (Reports (session.get hiredis key {}) .REDIS_REPLY_STRING [] ↔
      ¬ (Operation.get key).SentAgain hiredis session ∧
        ∀ reply ∈ (Operation.get key).received hiredis session,
          reply.type = .REDIS_REPLY_STRING) ∧
    (Reports (session.hget hiredis key field {}) .REDIS_REPLY_STRING [] ↔
      ¬ (Operation.hget key field).SentAgain hiredis session ∧
        ∀ reply ∈ (Operation.hget key field).received hiredis session,
          reply.type = .REDIS_REPLY_STRING) ∧
    (Reports (session.exists hiredis key {}) .REDIS_REPLY_INTEGER false ↔
      ¬ (Operation.exists key).SentAgain hiredis session) ∧
    (Reports (session.del hiredis key {}) .REDIS_REPLY_INTEGER 0 ↔
      ¬ (Operation.del key).SentAgain hiredis session) ∧
    (Reports (session.hset hiredis key field value {})
        .REDIS_REPLY_INTEGER 0 ↔
      ¬ (Operation.hset key field value).SentAgain hiredis session) ∧
    (Reports (session.hdel hiredis key field {}) .REDIS_REPLY_INTEGER 0 ↔
      ¬ (Operation.hdel key field).SentAgain hiredis session) ∧
    (Reports (session.sadd hiredis key value {}) .REDIS_REPLY_INTEGER 0 ↔
      ¬ (Operation.sadd key value).SentAgain hiredis session) ∧
    (Reports (session.smembers hiredis key {}) .REDIS_REPLY_ARRAY ∅ ↔
      ¬ (Operation.smembers key).SentAgain hiredis session) := by
  intro session
  have fresh : session.calls = [] := rfl
  have reads : ∀ {operation : Operation} {fmt va},
      operation.request = .args fmt va →
      (Reports (session.report hiredis fmt va {} .REDIS_REPLY_STRING Reply.str
          (.error .constructionFromNull) []) .REDIS_REPLY_STRING [] ↔
        ¬ operation.SentAgain hiredis session ∧
          ∀ reply ∈ operation.received hiredis session,
            reply.type = .REDIS_REPLY_STRING) := by
    intro operation fmt va single
    rw [report_reports_iff hiredis advances fresh single .REDIS_REPLY_STRING
      Reply.str (by simp)]
    simp
  have others : ∀ {Value : Type} {operation : Operation} {fmt va},
      operation.request = .args fmt va →
      ∀ (expected : ReplyType) (read : Reply → Value) (neutral : Value),
      (Reports (session.report hiredis fmt va {} expected read (.ok neutral)
          neutral) expected neutral ↔
        ¬ operation.SentAgain hiredis session) := by
    intro Value operation fmt va single expected read neutral
    rw [report_reports_iff hiredis advances fresh single expected read]
    · simp
    · intro other same
      exact (Except.ok.inj same).symm
  exact ⟨reads rfl, reads rfl, others rfl _ _ _, others rfl _ _ _,
    others rfl _ _ _, others rfl _ _ _, others rfl _ _ _, others rfl _ _ _⟩

end Reporting

namespace Example

/-- A server that answers at once is heard. -/
theorem readers_report_iff_exists :
    Reports (Session.exists (redis true) { world := 0 } (ascii "k") {})
      .REDIS_REPLY_INTEGER false := by
  have iff := (readers_report_iff (redis true) (redis_advances true) {} 0
    (ascii "k") (ascii "f") (ascii "v")).2.2.1
  refine iff.mpr fun again => ?_
  obtain ⟨fmt, va, _, retries⟩ := again
  exact redis_answers fmt va retries

/-- `get` of a key that is not there throws, and a command that is sent again
reads past its arguments. -/
theorem get_missing_throws :
    (Session.get (redis true) { world := 0 } (ascii "k") {}).returned =
        .error .constructionFromNull ∧
      ¬ Reports (Session.get (redis true) { world := 0 } (ascii "k") {})
        .REDIS_REPLY_STRING [] ∧
      (Session.exists (redis false) { world := 0 } (ascii "k") {}).returned =
        .error .readPastArguments ∧
      ¬ Reports (Session.exists (redis false) { world := 0 } (ascii "k") {})
        .REDIS_REPLY_INTEGER false := by
  have thrown : (Session.get (redis true) { world := 0 } (ascii "k")
      {}).returned = .error .constructionFromNull := by decide +kernel
  have past : (Session.exists (redis false) { world := 0 } (ascii "k")
      {}).returned = .error .readPastArguments := by decide +kernel
  refine ⟨thrown, ?_, past, ?_⟩
  · intro reports
    obtain ⟨⟨value, returned, _⟩, _⟩ := reports
    exact absurd (thrown.symm.trans returned) (by simp)
  · intro reports
    obtain ⟨⟨value, returned, _⟩, _⟩ := reports
    exact absurd (past.symm.trans returned) (by simp)

end Example

end Natsu.Redis
