import Natsu.Redis.Wire

/-!
# The keys of the argument commands

The operations with one key go through `redisvCommand`, which builds the
arguments of a command from a format and a `va_list`.  A `%s` stops at the
first NUL byte.  When the command is sent a second time, over a new
connection, the `va_list` has been read already.
-/

namespace Natsu.Redis

open Natsu.Foundation

variable {World Context : Type}

/-- The arguments that hiredis makes of a format, and what it leaves of the
`va_list`.  `argument` is the one that it has begun.  There is no result where
a placeholder reads past the list. -/
def formatFrom : Bytes → List VaArg → Option Bytes →
    Option (List Bytes × List VaArg)
  | [], va, argument => some (argument.toList, va)
  | byte :: fmt, va, argument =>
      if byte = 32 then
        (formatFrom fmt va none).map fun (arguments, rest) =>
          (argument.toList ++ arguments, rest)
      else if byte = 37 then
        match fmt, va with
        | 115 :: fmt, .pointer bytes :: va =>
            formatFrom fmt va (some (argument.getD [] ++ cstr bytes))
        | 98 :: fmt, .pointer bytes :: .size size :: va =>
            formatFrom fmt va (some (argument.getD [] ++ bytes.take size))
        | _, _ => none
      else formatFrom fmt va (some (argument.getD [] ++ [byte]))

def formatArguments (fmt : Bytes) (va : List VaArg) : Option (List Bytes) :=
  (formatFrom fmt va none).map Prod.fst

/-- `redisvCommand` reads the `va_list` of its caller. -/
def Hiredis.Advances (hiredis : Hiredis World Context) : Prop :=
  ∀ world context fmt va arguments rest,
    formatFrom fmt va none = some (arguments, rest) →
    (hiredis.redisvCommand world context fmt va).2.1 = rest

/-- The arguments of the commands among the calls. -/
def commands (calls : List (Call Context)) : List (Option (List Bytes)) :=
  calls.filterMap fun
    | .vCommand _ fmt va _ => some (formatArguments fmt va)
    | _ => none

/-- The commands that an operation has transmitted. -/
def Operation.transmitted (hiredis : Hiredis World Context)
    (session : Session World Context) (operation : Operation) :
    List (Option (List Bytes)) :=
  match operation.perform hiredis { session with calls := [] } with
  | .error _ => []
  | .ok result => commands result.2.calls

/-- Every command that is transmitted has the name and the arguments of the
operation. -/
def Addresses (hiredis : Hiredis World Context)
    (session : Session World Context) (operation : Operation) : Prop :=
  ∀ sent ∈ operation.transmitted hiredis session,
    sent = some (operation.name :: operation.arguments)

/-- The key of a command, after its name. -/
def keyOf (sent : Option (List Bytes)) : Option Bytes :=
  sent.bind fun arguments => arguments[1]?

def Operation.key (operation : Operation) : Option Bytes :=
  operation.arguments.head?

/-- No NUL byte in a key that is passed as `%s`. -/
def Operation.Plain : Operation → Prop
  | del key | get key => (0 : UInt8) ∉ key
  | _ => True

/-- The command is sent a second time: `redisvCommand` returns nothing, and a
new connection works. -/
def Retries (hiredis : Hiredis World Context) (session : Session World Context)
    (fmt : Bytes) (va : List VaArg) : Prop :=
  ∃ context ready rest next read other connected,
    session.clear.ensureContext hiredis = (some context, ready) ∧
      ready.vCommand hiredis context fmt va = (none, rest, next, read) ∧
      read.reconnect hiredis = (some other, connected)

section Formats

/-- What the formats of the operations make of their arguments. -/
def Operation.sent : Operation → List Bytes
  | del key | get key => [cstr key]
  | operation => operation.arguments

theorem formatFrom_request {operation : Operation} {fmt : Bytes}
    {va : List VaArg} (single : operation.request = .args fmt va) :
    formatFrom fmt va none =
      some (operation.name :: operation.sent, []) := by
  cases operation <;> cases single <;>
    simp [ascii, formatFrom, binary, Operation.name, Operation.sent,
      Operation.arguments]

/-- A placeholder of each format is left without an argument. -/
theorem formatFrom_exhausted {operation : Operation} {fmt : Bytes}
    {va : List VaArg} (single : operation.request = .args fmt va) :
    formatFrom fmt [] none = none := by
  cases operation <;> cases single <;> simp [ascii, formatFrom]

theorem cstr_eq_self_iff (bytes : Bytes) :
    cstr bytes = bytes ↔ (0 : UInt8) ∉ bytes := by
  constructor
  · intro same member
    rw [← same] at member
    have nonzero := List.mem_takeWhile_imp member
    simp at nonzero
  · exact cstr_eq_self

theorem sent_eq_arguments_iff (operation : Operation) :
    operation.sent = operation.arguments ↔ operation.Plain := by
  cases operation with
  | del key | get key =>
      simp only [Operation.sent, Operation.arguments, Operation.Plain,
        List.cons.injEq, and_true]
      exact cstr_eq_self_iff key
  | _ => exact iff_of_true rfl trivial

end Formats

section Transmission

variable {hiredis : Hiredis World Context} {session : Session World Context}

theorem commands_reconnect {context : Option Context}
    {next : Session World Context}
    (reconnect : session.reconnect hiredis = (context, next)) :
    commands next.calls = commands session.calls := by
  obtain ⟨result, calls⟩ := Session.calls_reconnect reconnect
  simp [calls, commands]

theorem commands_vCommand {context next : Context} {fmt : Bytes}
    {va rest : List VaArg} {reply : Option Reply}
    {read : Session World Context}
    (command : session.vCommand hiredis context fmt va =
      (reply, rest, next, read)) :
    commands read.calls =
      commands session.calls ++ [formatArguments fmt va] := by
  simp [(Session.calls_vCommand command).1, commands]

theorem commands_ensureContext {context : Option Context}
    {ready : Session World Context}
    (ensured : session.ensureContext hiredis = (context, ready)) :
    commands ready.calls = commands session.calls := by
  rcases Session.calls_ensureContext ensured with same | ⟨result, calls⟩
  · rw [same]
  · simp [calls, commands]

variable (hiredis session) in
/-- What an operation transmits: nothing without a context, its arguments
once, or its arguments and then what the `va_list` still yields. -/
theorem transmitted_cases {operation : Operation} {fmt : Bytes}
    {va : List VaArg} (single : operation.request = .args fmt va) :
    (¬ Connected hiredis session ∧
      operation.transmitted hiredis session = []) ∨
    (Connected hiredis session ∧
      ¬ Retries hiredis { session with calls := [] } fmt va ∧
      operation.transmitted hiredis session = [formatArguments fmt va]) ∨
    (Connected hiredis session ∧
      Retries hiredis { session with calls := [] } fmt va ∧
      ∃ world context, operation.transmitted hiredis session =
        [formatArguments fmt va, formatArguments fmt
          (hiredis.redisvCommand world context fmt va).2.1]) := by
  have performs : operation.transmitted hiredis session =
      commands (Session.doRedisCommandArgs hiredis
        { session with calls := [] } fmt va).2.calls := by
    simp only [Operation.transmitted, Operation.perform, single]
  rw [performs]
  rcases Session.doRedisCommandArgs_cases hiredis
      { session with calls := [] } fmt va with
    ⟨stopped, ensured, run⟩ | ⟨context, ready, ensured, asked⟩
  · have apart := not_connected_of_ensureContext ensured
    refine .inl ⟨apart, ?_⟩
    rw [run]
    exact commands_ensureContext ensured
  · have connected := connected_of_ensureContext ensured
    have nothing : commands ready.calls = [] := commands_ensureContext ensured
    have once : ∀ {reply rest next read},
        ready.vCommand hiredis context fmt va = (reply, rest, next, read) →
        commands read.calls = [formatArguments fmt va] := by
      intro reply rest next read command
      rw [commands_vCommand command, nothing, List.nil_append]
    generalize Session.doRedisCommandArgs hiredis
      { session with calls := [] } fmt va = result at asked
    cases asked with
    | answered command =>
        refine .inr (.inl ⟨connected, ?_, ?_⟩)
        · rintro ⟨again, same, _, _, _, _, _, ensuredAgain, silent, _⟩
          obtain ⟨isContext, rfl⟩ :=
            Prod.mk.inj (ensured.symm.trans ensuredAgain)
          obtain rfl := Option.some.inj isContext
          simp [command] at silent
        · rw [Session.calls_finish]
          exact once command
    | lost command reconnect =>
        refine .inr (.inl ⟨connected, ?_, ?_⟩)
        · rintro ⟨again, same, _, _, _, _, _, ensuredAgain, silent, another⟩
          obtain ⟨isContext, rfl⟩ :=
            Prod.mk.inj (ensured.symm.trans ensuredAgain)
          obtain rfl := Option.some.inj isContext
          rw [command] at silent
          simp only [Prod.mk.injEq, true_and] at silent
          obtain ⟨_, _, rfl⟩ := silent
          simp [reconnect] at another
        · rw [commands_reconnect reconnect]
          exact once command
    | concluded command reconnect commandAgain =>
        refine .inr (.inr ⟨connected, ⟨_, _, _, _, _, _, _, ensured, command,
          reconnect⟩, ready.world, context, ?_⟩)
        rw [Session.calls_finish, commands_vCommand commandAgain,
          commands_reconnect reconnect, once command,
          (Session.calls_vCommand command).2]
        rfl

end Transmission

/-- An argument operation transmits its own key and arguments, whenever it has
a context to send on, exactly when no NUL byte stands in a key passed as `%s`
and the command is not sent a second time.  Then commands have the same key
exactly when their operations have. -/
theorem operations_address_keys_iff (hiredis : Hiredis World Context)
    (advances : hiredis.Advances) (session : Session World Context)
    {operation : Operation} {fmt : Bytes} {va : List VaArg}
    (single : operation.request = .args fmt va) :
    (Addresses hiredis session operation ↔
      (Connected hiredis session → operation.Plain ∧
        ¬ Retries hiredis { session with calls := [] } fmt va)) ∧
    ((∀ sent ∈ (operation.transmitted hiredis session).head?,
        sent = some (operation.name :: operation.arguments)) ↔
      (Connected hiredis session → operation.Plain)) ∧
    ∀ (later : Session World Context) (other : Operation),
      Addresses hiredis session operation → Addresses hiredis later other →
      ∀ sent ∈ operation.transmitted hiredis session,
      ∀ otherSent ∈ other.transmitted hiredis later,
        (keyOf sent = keyOf otherSent ↔ operation.key = other.key) := by
  have formatted := formatFrom_request single
  have first : formatArguments fmt va =
      some (operation.name :: operation.sent) := by
    simp only [formatArguments, formatted, Option.map_some]
  have plain : some (operation.name :: operation.sent) =
      some (operation.name :: operation.arguments) ↔ operation.Plain := by
    simp only [Option.some.injEq, List.cons.injEq, true_and]
    exact sent_eq_arguments_iff operation
  refine ⟨?_, ?_, ?_⟩
  · unfold Addresses
    rcases transmitted_cases hiredis session single with
      ⟨apart, nothing⟩ | ⟨connected, once, one⟩ |
        ⟨connected, twice, world, context, two⟩
    · simp [nothing, apart]
    · simp [one, first, plain, connected, once]
    · rw [advances world context fmt va _ _ formatted] at two
      have exhausted : formatArguments fmt [] = none := by
        simp only [formatArguments, formatFrom_exhausted single,
          Option.map_none]
      simp [two, exhausted, connected, twice]
  · rcases transmitted_cases hiredis session single with
      ⟨apart, nothing⟩ | ⟨connected, _, one⟩ | ⟨connected, _, _, _, two⟩
    · simp [nothing, apart]
    · simp [one, first, plain, connected]
    · simp [two, first, plain, connected]
  · intro later other addresses otherAddresses sent member otherSent otherMember
    rw [addresses sent member, otherAddresses otherSent otherMember]
    simp [keyOf, Operation.key, List.head?_eq_getElem?]

namespace Example

/-- A server that answers every command on its second connection, and the
ones before it only where `patient`. -/
def redis (patient : Bool) : Hiredis Nat Bool where
  err _ := 0
  errstr _ := []
  block _ := true
  redisConnectWithTimeout world := (some (patient || 0 < world), world + 1)
  redisAppendFormattedCommand world context _ := (.REDIS_OK, context, world)
  redisGetReply world context := (.REDIS_OK, some .nil, context, world)
  redisvCommand world context fmt va :=
    (if context then some .nil else none,
      ((formatFrom fmt va none).map Prod.snd).getD [], context, world)

theorem redis_advances (patient : Bool) : (redis patient).Advances := by
  intro world context fmt va arguments rest formatted
  simp [redis, formatted]

/-- A server that answers is not asked again. -/
theorem redis_answers (fmt : Bytes) (va : List VaArg) :
    ¬ Retries (redis true) { world := 0 } fmt va := by
  rintro ⟨context, ready, rest, next, read, other, connected, ensured, silent,
    _⟩
  have answered : context = true := by
    simp [Session.ensureContext, Session.reconnect, Session.clear, redis]
      at ensured
    exact ensured.1
  simp [Session.vCommand, redis, answered] at silent

theorem operations_address_keys_iff_hget :
    Addresses (redis true) { world := 0 }
      (.hget (ascii "a" ++ 0 :: ascii "b") (ascii "field")) :=
  (operations_address_keys_iff (redis true) (redis_advances true)
    { world := 0 } rfl).1.mpr fun _ => ⟨trivial, redis_answers _ _⟩

/-- `get` cuts the key, so that two keys are one; and a command that is sent
again has no arguments. -/
theorem key_cut_at_nul :
    ¬ Addresses (redis true) { world := 0 }
        (.get (ascii "a" ++ 0 :: ascii "b")) ∧
      ¬ Addresses (redis true) { world := 0 }
        (.del (ascii "a" ++ 0 :: ascii "b")) ∧
      (Operation.get (ascii "a" ++ 0 :: ascii "b")).transmitted (redis true)
          { world := 0 } =
        (Operation.get (ascii "a")).transmitted (redis true) { world := 0 } ∧
      ¬ Addresses (redis false) { world := 0 } (.exists (ascii "a")) := by
  refine ⟨?_, ?_, by decide +kernel, ?_⟩
  · intro addresses
    have cut := addresses (some [ascii "get", ascii "a"]) (by decide +kernel)
    revert cut
    decide
  · intro addresses
    have cut := addresses (some [ascii "del", ascii "a"]) (by decide +kernel)
    revert cut
    decide
  · intro addresses
    have nothing := addresses none (by decide +kernel)
    simp at nothing

end Example

end Natsu.Redis
