import Natsu.Foundation.Resp
import Natsu.Redis.Outcomes

/-!
# The vector commands on the wire

`do_redis_command_format` builds a RESP array in `cmd_cache_` and then hands
over the bare command name.  Building it reads element 1 for every element.
-/

namespace Natsu.Redis

open Natsu.Foundation

variable {World Context : Type}

/-- The name of the command. -/
def Operation.name : Operation → Bytes
  | del _ | delKeys _ => ascii "del"
  | .exists _ => ascii "exists"
  | get _ => ascii "get"
  | set .. | setWhen .. | setFor .. => ascii "set"
  | hset .. => ascii "hset"
  | hget .. => ascii "hget"
  | hdel .. | hdelFields .. => ascii "hdel"
  | sadd .. | saddValues .. => ascii "sadd"
  | smembers _ => ascii "smembers"

/-- The arguments of the operation, in order. -/
def Operation.arguments : Operation → List Bytes
  | del key | .exists key | get key | smembers key => [key]
  | delKeys keys => keys
  | set key value => [key, value]
  | setWhen key value setWhenExist => [key, value, existText setWhenExist]
  | setFor key value millisecond setWhenExist =>
      [key, value, ascii "PX", printInt millisecond, existText setWhenExist]
  | hset key field value => [key, field, value]
  | hget key field | hdel key field => [key, field]
  | hdelFields key fields => key :: fields
  | sadd key value => [key, value]
  | saddValues key values => key :: values

/-- The operation builds its command without leaving the argument vector, and
whatever it hands to `redisAppendFormattedCommand` is the RESP array of its
name and arguments. -/
def MeetsWireLaw (hiredis : Hiredis World Context)
    (session : Session World Context) (operation : Operation) : Prop :=
  ∃ result, operation.perform hiredis { session with calls := [] } =
      .ok result ∧
    ∀ context command status, .append context command status ∈ result.2.calls →
      Resp.decode command = some (operation.name :: operation.arguments)

/-- There is a context to send on: the one the client has works, or a new
connection would. -/
def Connected (hiredis : Hiredis World Context)
    (session : Session World Context) : Prop :=
  (∃ context, session.client.redisContext = some context ∧
      hiredis.err context = 0) ∨
    ∃ context, (hiredis.redisConnectWithTimeout session.world).1 =
      some context ∧ hiredis.err context = 0

/-- The vector operations hand over a name and no array. -/
theorem decode_request {operation : Operation} {cmd : Bytes}
    {v : List Bytes} (vector : operation.request = .format cmd v) :
    Resp.decode cmd = none := by
  cases operation <;> cases vector <;> decide

section Connecting

variable {hiredis : Hiredis World Context} {session : Session World Context}

/-- Looking for a context hands nothing over. -/
theorem append_not_mem_ensureContext {context : Option Context}
    {ready : Session World Context}
    (ensured : session.ensureContext hiredis = (context, ready))
    (fresh : session.calls = []) :
    ∀ on command status, Call.append on command status ∉ ready.calls := by
  intro on command status member
  rcases Session.calls_ensureContext ensured with same | ⟨result, calls⟩
  · simp [same, fresh] at member
  · simp [calls, fresh] at member

theorem connected_of_ensureContext {context : Context}
    {ready : Session World Context}
    (ensured : session.ensureContext hiredis = (some context, ready)) :
    Connected hiredis session := by
  rcases session.ensureContext_cases hiredis with
    ⟨own, stored, works, _⟩ | ⟨_, reconnected⟩
  · exact .inl ⟨own, stored, works⟩
  · rw [reconnected] at ensured
    rcases session.reconnect_cases hiredis with
      ⟨fresh, world, connected, works, _⟩ | ⟨_, _, _, _, failed⟩
    · exact .inr ⟨fresh, by rw [connected], works⟩
    · simp [failed] at ensured

theorem not_connected_of_ensureContext {stopped : Session World Context}
    (ensured : session.ensureContext hiredis = (none, stopped)) :
    ¬ Connected hiredis session := by
  rcases session.ensureContext_cases hiredis with
    ⟨own, stored, works, kept⟩ | ⟨unusable, reconnected⟩
  · simp [kept] at ensured
  · rw [reconnected] at ensured
    rcases session.reconnect_cases hiredis with
      ⟨_, _, _, _, connected⟩ | ⟨result, world, attempt, failed, _⟩
    · simp [connected] at ensured
    · rintro (⟨context, stored, works⟩ | ⟨context, fresh, works⟩)
      · exact unusable context stored works
      · rw [attempt] at fresh
        exact failed context fresh works

end Connecting

/-- A vector operation never hands over the array it should: it meets the law
exactly when it hands over nothing, for want of a connection, and its vector
does not have one element. -/
theorem vector_command_meets_law (hiredis : Hiredis World Context)
    (session : Session World Context) {operation : Operation} {cmd : Bytes}
    {v : List Bytes} (vector : operation.request = .format cmd v) :
    MeetsWireLaw hiredis session operation ↔
      v.length ≠ 1 ∧ ¬ Connected hiredis session := by
  have performs : operation.perform hiredis { session with calls := [] } =
      Session.doRedisCommandFormat hiredis { session with calls := [] } cmd
        v := by
    simp only [Operation.perform, vector]
  constructor
  · rintro ⟨result, run, law⟩
    rw [performs] at run
    obtain ⟨command, formatted, outcome⟩ :=
      Session.doRedisCommandFormat_cases hiredis _ run
    constructor
    · intro single
      rw [(formatCommand_fault cmd v).mpr single] at formatted
      simp at formatted
    · rcases outcome with ⟨stopped, ensured, _⟩ | ⟨context, ready, _, sent⟩
      · have apart := not_connected_of_ensureContext ensured
        exact apart
      · obtain ⟨status, handed⟩ := sent.calls_prefix
        have decoded := law context cmd status (handed.subset (by simp))
        simp [decode_request vector] at decoded
  · rintro ⟨several, disconnected⟩
    cases run : Session.doRedisCommandFormat hiredis
        { session with calls := [] } cmd v with
    | error fault =>
        exact absurd ((formatCommand_fault cmd v).mp
          (Session.formatCommand_of_fault run)) several
    | ok result =>
        obtain ⟨command, _, outcome⟩ :=
          Session.doRedisCommandFormat_cases hiredis _ run
        rcases outcome with ⟨stopped, ensured, rfl⟩ | ⟨context, ready, ensured, _⟩
        · refine ⟨_, performs.trans run, ?_⟩
          intro context command status member
          exact absurd member (append_not_mem_ensureContext ensured rfl
            context command status)
        · have connected := connected_of_ensureContext ensured
          exact absurd connected disconnected

namespace Example

/-- A server that takes every connection and every command and answers each
with the status OK. -/
def willing : Hiredis Unit Unit where
  err _ := 0
  errstr _ := []
  block _ := true
  redisConnectWithTimeout world := (some (), world)
  redisAppendFormattedCommand world _ _ := (.REDIS_OK, (), world)
  redisGetReply world _ := (.REDIS_OK, some (.status (ascii "OK")), (), world)
  redisvCommand world _ _ va := (some (.status (ascii "OK")), va, (), world)

/-- A server that refuses the connection. -/
def unreachable : Hiredis Unit Unit :=
  { willing with
    err := fun _ => 1
    errstr := fun _ => ascii "Connection refused" }

theorem vector_command_meets_law_unreachable :
    MeetsWireLaw unreachable { world := () } (.set (ascii "k") (ascii "v")) :=
  (vector_command_meets_law unreachable { world := () } rfl).mpr
    ⟨by decide, by simp [Connected, unreachable]⟩

/-- `set` hands over three bytes, and `del` with one key reads outside its
vector. -/
theorem vector_commands_malformed :
    ¬ MeetsWireLaw willing { world := () } (.set (ascii "k") (ascii "v")) ∧
      ¬ MeetsWireLaw willing { world := () } (.delKeys [ascii "k"]) ∧
      Resp.decode (Resp.encode [ascii "set", ascii "k", ascii "v"]) =
        some [ascii "set", ascii "k", ascii "v"] := by
  refine ⟨?_, ?_, Resp.decode_encode _⟩
  · rintro ⟨result, run, law⟩
    obtain rfl := Except.ok.inj run
    have handed : Call.append () (ascii "set") .REDIS_OK ∈
        [Call.connect (some ()), .append () (ascii "set") .REDIS_OK] := by simp
    exact absurd (law () (ascii "set") .REDIS_OK handed) (by decide)
  · rintro ⟨result, run, _⟩
    simp [Operation.perform, Operation.request, Session.doRedisCommandFormat,
      (formatCommand_fault _ [ascii "k"]).mpr rfl, Except.map] at run

end Example

end Natsu.Redis
