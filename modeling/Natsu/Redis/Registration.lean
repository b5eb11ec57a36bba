import Natsu.Foundation.CInteger
import Natsu.Foundation.Json
import Natsu.Redis.Pool

/-!
# Registering a pool

`add_redis_server` puts an empty channel under a new name and then builds the
clients for it one by one.  The constructor reads the configuration, and
throws where that is not what it expects.
-/

namespace Natsu.Redis

open Natsu.Foundation Natsu.Libgo

structure RedisConfig where
  addr : Bytes
  port : Nat
  conntimeout : Nat
  deriving DecidableEq, Repr

/-- `connect_timeout`, which is 5 where it cannot be read or is 0. -/
def connectTimeout (object : Json) : Nat :=
  match (object.member (ascii "connect_timeout")).bind Json.asInt with
  | none => 5
  | some value =>
      let conntimeout := (value % 2 ^ 32).toNat
      if conntimeout < 1 then 5 else conntimeout

/-- The constructor of `RedisClientImpl`, where `parse` is `Json::Parse`.
There is no result where it throws. -/
def RedisConfig.read (parse : Bytes → Option Json) (config : Bytes) :
    Option RedisConfig :=
  match parse (cstr config) with
  | none => none
  | some .null => none
  | some object => do
      let addr ← (← object.member (ascii "server_addr")).asString
      let port ← (← object.member (ascii "server_port")).asInt
      return {
        addr := addr
        port := (port % 2 ^ 16).toNat
        conntimeout := connectTimeout object }

namespace RedisManager

variable (parse : Bytes → Option Json) (redisname config : Bytes)

/-- The loop of `add_redis_server`: whether it throws, and the pools then. -/
def buildClients : Nat → RedisManager → Bool × RedisManager
  | 0, manager => (false, manager)
  | link + 1, manager =>
      match RedisConfig.read parse config with
      | none => (true, manager)
      | some _ =>
          let data := manager.redisName.length
          let manager :=
            { manager with redisName := manager.redisName ++ [redisname] }
          match manager.redis[redisname]?.bind (·.spinWrite data) with
          | none => (false, { manager with stopped := true })
          | some channel =>
              buildClients link
                { manager with redis := manager.redis.insert redisname channel }

theorem emptyPool_balanced :
    ([] : List Nat).length =
      ({} : BlockObject Nat).wakeup + ({} : BlockObject Nat).woken.length :=
  rfl

/-- `new co_chan<RedisClientImpl*>(link)`. -/
def emptyPool (link : Nat) : Channel Nat Nat Nat where
  writeBlock := { wakeup := link }
  readBlock := {}
  queue := []
  balanced := emptyPool_balanced

/-- `redisInit` with the text of the configuration. -/
def redisInit (manager : RedisManager) (link : Nat) : Bool × RedisManager :=
  buildClients parse redisname config link
    (if redisname ∈ manager.redis then manager
    else { manager with
      redis := manager.redis.insert redisname (emptyPool link) })

/-- Whether the configuration can be read. -/
def valid : Bool := (RedisConfig.read parse config).isSome

theorem buildClients_eq (link : Nat) :
    ∀ manager : RedisManager,
      buildClients parse redisname config link manager =
        (!valid parse config && decide (0 < link),
          addClients redisname (valid parse config) link manager) := by
  induction link with
  | zero =>
      intro manager
      simp [buildClients, addClients]
  | succ link induction =>
      intro manager
      cases built : RedisConfig.read parse config with
      | none => simp [buildClients, addClients, valid, built]
      | some read =>
          have isValid : valid parse config = true := by
            rw [valid, built]
            rfl
          cases written : manager.redis[redisname]?.bind
              (·.spinWrite manager.redisName.length) with
          | none =>
              simp [buildClients, addClients, built, isValid, written]
          | some channel =>
              simp [buildClients, addClients, built, isValid, written,
                induction]

/-- The configuration is read before the first client is built: the events of
a pool only need to know whether it can be. -/
theorem redisInit_eq (manager : RedisManager) (link : Nat) :
    manager.redisInit parse redisname config link =
      (!valid parse config && decide (0 < link),
        manager.addRedisServer redisname (valid parse config) link) :=
  buildClients_eq parse redisname config link _

/-- A call that throws leaves everything as it was, and a name that was not
registered stays so. -/
def AllOrNothing (manager : RedisManager) (link : Nat) : Prop :=
  (manager.redisInit parse redisname config link).1 = true →
    (manager.redisInit parse redisname config link).2 = manager ∧
      (redisname ∉ manager.redis → ∀ task,
        ((manager.redisInit parse redisname config link).2.getRedisServer
          redisname task).1 = .live none)

/-- The configuration is an object with a text `server_addr` and a number
`server_port`. -/
def Readable : Prop :=
  ∃ object addr port, parse (cstr config) = some object ∧
    object.member (ascii "server_addr") = some (.string addr) ∧
    object.member (ascii "server_port") = some (.number port)

theorem valid_iff : valid parse config = true ↔ Readable parse config := by
  rw [valid, Option.isSome_iff_exists]
  constructor
  · rintro ⟨read, built⟩
    unfold RedisConfig.read at built
    split at built
    · cases built
    · cases built
    · rename_i object _ isObject
      obtain ⟨first, isFirst, built⟩ := Option.bind_eq_some_iff.mp built
      obtain ⟨addr, isAddr, built⟩ := Option.bind_eq_some_iff.mp built
      obtain ⟨second, isSecond, built⟩ := Option.bind_eq_some_iff.mp built
      obtain ⟨port, isPort, _⟩ := Option.bind_eq_some_iff.mp built
      cases first with
      | string text =>
          cases second with
          | number value =>
              exact ⟨object, text, value, isObject, isFirst, isSecond⟩
          | _ => cases isPort
      | _ => cases isAddr
  · rintro ⟨object, addr, port, parsed, isAddr, isPort⟩
    cases object with
    | object members =>
        simp [RedisConfig.read, parsed, isAddr, isPort, Json.asString,
          Json.asInt]
    | _ => cases isAddr

variable {parse config}

/-- A configuration that cannot be read leaves the name with an empty
channel. -/
theorem addRedisServer_invalid (manager : RedisManager) (link : Nat) :
    manager.addRedisServer redisname false link =
      if redisname ∈ manager.redis then manager
      else { manager with
        redis := manager.redis.insert redisname (emptyPool link) } := by
  unfold addRedisServer
  cases link <;> rfl

/-- A first call whose configuration cannot be read throws and leaves a pool
without clients. -/
theorem redisInit_unreadable {manager : RedisManager} {link : Nat}
    (unreadable : ¬ Readable parse config) (several : link ≠ 0)
    (unknown : redisname ∉ manager.redis) :
    (manager.redisInit parse redisname config link).1 = true ∧
      redisname ∈ (manager.redisInit parse redisname config link).2.redis ∧
      ∀ task, ((manager.redisInit parse redisname config
        link).2.getRedisServer redisname task).1 = .waiting := by
  have invalid : valid parse config = false :=
    Bool.eq_false_iff.mpr (mt (valid_iff parse config).mp unreadable)
  rw [redisInit_eq, invalid, addRedisServer_invalid, if_neg unknown]
  refine ⟨by simpa using Nat.pos_of_ne_zero several, by simp, ?_⟩
  intro task
  simp [getRedisServer, Channel.read, emptyPool]

/-- `redisInit` is all or nothing exactly when the configuration can be read,
no client is to be built, or the name has a pool already.  Otherwise the name
is left with a pool without clients, on which `newRedisInstance` waits. -/
theorem redisInit_allOrNothing_iff (parse : Bytes → Option Json)
    (manager : RedisManager) (redisname config : Bytes) (link : Nat) :
    (AllOrNothing parse redisname config manager link ↔
      Readable parse config ∨ link = 0 ∨ redisname ∈ manager.redis) ∧
    (¬ (Readable parse config ∨ link = 0 ∨ redisname ∈ manager.redis) →
      (manager.redisInit parse redisname config link).1 = true ∧
      redisname ∈ (manager.redisInit parse redisname config link).2.redis ∧
      ∀ task, ((manager.redisInit parse redisname config
        link).2.getRedisServer redisname task).1 = .waiting) := by
  refine ⟨⟨?_, ?_⟩, ?_⟩
  · intro allOrNothing
    by_contra otherwise
    obtain ⟨unreadable, several, unknown⟩ : ¬ Readable parse config ∧
        link ≠ 0 ∧ redisname ∉ manager.redis := by
      simpa [not_or] using otherwise
    obtain ⟨throws, _, waits⟩ :=
      redisInit_unreadable redisname unreadable several unknown
    have unregistered := (allOrNothing throws).2 unknown 0
    rw [waits 0] at unregistered
    cases unregistered
  · intro condition throws
    rw [redisInit_eq] at throws ⊢
    obtain ⟨isInvalid, several⟩ := Bool.and_eq_true_iff.mp throws
    have invalid : valid parse config = false := by simpa using isInvalid
    rcases condition with readable | none | known
    · rw [(valid_iff parse config).mpr readable] at invalid
      cases invalid
    · simp [none] at several
    · rw [invalid, addRedisServer_invalid, if_pos known]
      exact ⟨rfl, fun unknown => absurd known unknown⟩
  · intro otherwise
    obtain ⟨unreadable, several, unknown⟩ : ¬ Readable parse config ∧
        link ≠ 0 ∧ redisname ∉ manager.redis := by
      simpa [not_or] using otherwise
    exact redisInit_unreadable redisname unreadable several unknown

namespace Example

/-- `Json::Parse` on an empty array. -/
def parseEmpty (text : Bytes) : Option Json :=
  if text = ascii "[]" then some (.array []) else none

/-- A first `redisInit` with a configuration that is no object. -/
theorem failed_init_registers :
    (redisInit parseEmpty (ascii "im") (ascii "[]") {} 2).1 = true ∧
      ascii "im" ∈
        (redisInit parseEmpty (ascii "im") (ascii "[]") {} 2).2.redis ∧
      ¬ AllOrNothing parseEmpty (ascii "im") (ascii "[]") {} 2 := by
  have throws :
      (redisInit parseEmpty (ascii "im") (ascii "[]") {} 2).1 = true := by
    decide +kernel
  have registered : ascii "im" ∈
      (redisInit parseEmpty (ascii "im") (ascii "[]") {} 2).2.redis := by
    decide +kernel
  refine ⟨throws, registered, ?_⟩
  intro allOrNothing
  rw [(allOrNothing throws).1] at registered
  exact absurd registered (by decide +kernel)

end Example

end RedisManager

end Natsu.Redis
