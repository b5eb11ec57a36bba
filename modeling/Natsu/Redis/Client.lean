import Natsu.Foundation.CInteger

/-!
# The Redis client

`RedisClientImpl` drives a hiredis context.  The library itself is not part
of the repository: its functions are parameters that take and return the
outside world.  A session keeps the calls made to it, in order.
-/

namespace Natsu.Redis

open Natsu.Foundation

/-- `NatsuError`. -/
structure RedisError where
  code : Int := 0
  reason : Bytes := []
  deriving DecidableEq, Repr

def RedisError.ok (error : RedisError) : Bool := error.code == 0

inductive Reply where
  | string (str : Bytes)
  | array (elements : List Reply)
  | integer (value : Int)
  | nil
  | status (str : Bytes)
  | error (str : Bytes)

inductive Status where
  | REDIS_OK
  | REDIS_ERR
  deriving DecidableEq, Repr

/-- An argument after the format string: a pointer to bytes, or a size. -/
inductive VaArg where
  | pointer (bytes : Bytes)
  | size (value : Nat)
  deriving DecidableEq, Repr

/-- The part of hiredis that the client uses.  `redisvCommand` also returns
the `va_list` it has advanced. -/
structure Hiredis (World Context : Type) where
  err : Context → Int
  errstr : Context → Bytes
  block : Context → Bool
  redisConnectWithTimeout : World → Option Context × World
  redisAppendFormattedCommand : World → Context → Bytes →
    Status × Context × World
  redisGetReply : World → Context → Status × Option Reply × Context × World
  redisvCommand : World → Context → Bytes → List VaArg →
    Option Reply × List VaArg × Context × World

/-- A call to hiredis: the context it was given and what it returned. -/
inductive Call (Context : Type) where
  | connect (result : Option Context)
  | append (context : Context) (command : Bytes) (status : Status)
  | getReply (context : Context) (reply : Option Reply)
  | vCommand (context : Context) (fmt : Bytes) (va : List VaArg)
      (reply : Option Reply)

structure RedisClientImpl (Context : Type) where
  redisContext : Option Context := none
  redisReply : Option Reply := none
  redisError : RedisError := {}
  cmdCache : Bytes := []

structure Session (World Context : Type) where
  client : RedisClientImpl Context := {}
  world : World
  calls : List (Call Context) := []

inductive Fault where
  | outOfRange
  deriving DecidableEq, Repr

variable {World Context : Type}

/-- `v[index]`. -/
def element (v : List Bytes) (index : Nat) : Except Fault Bytes :=
  match v[index]? with
  | some bytes => .ok bytes
  | none => .error .outOfRange

/-- The pieces that the loop of `do_redis_command_format` appends for the
elements of `v`. -/
def formatElements (v : List Bytes) : List Bytes → Except Fault Bytes
  | [] => .ok []
  | bytes :: others =>
      match element v 1 with
      | .error fault => .error fault
      | .ok payload =>
          (formatElements v others).map fun rest =>
            (ascii "$" ++ printInt (toInt bytes.length) ++ crlf) ++ payload ++
              crlf ++ rest

/-- The contents of `cmd_cache_`. -/
def formatCommand (cmd : Bytes) (v : List Bytes) : Except Fault Bytes :=
  (formatElements v v).map fun elements =>
    ascii "*" ++ printInt (toInt (v.length + 1 : Nat)) ++ crlf ++ ascii "$" ++
      printInt (toInt cmd.length) ++ crlf ++ cstr cmd ++ crlf ++ elements

namespace Session

variable (hiredis : Hiredis World Context)

/-- Store the context that a call left, and note the call. -/
def after (session : Session World Context) (context : Option Context)
    (world : World) (call : Call Context) : Session World Context :=
  { client := { session.client with redisContext := context }
    world := world
    calls := session.calls ++ [call] }

/-- The error of the context, or -1 without one. -/
def noteError (session : Session World Context) : Session World Context :=
  { session with client := { session.client with
      redisError :=
        match session.client.redisContext with
        | some context =>
            { code := hiredis.err context, reason := hiredis.errstr context }
        | none => { code := -1 } } }

/-- Connect, and note the error when there is no usable context. -/
def reconnect (session : Session World Context) :
    Option Context × Session World Context :=
  let (context, world) := hiredis.redisConnectWithTimeout session.world
  let session := session.after context world (.connect context)
  match context with
  | some context =>
      if hiredis.err context ≠ 0 then (none, session.noteError hiredis)
      else (some context, session)
  | none => (none, session.noteError hiredis)

/-- The checks before a command: connect when there is no context, and again
when the context has failed. -/
def ensureContext (session : Session World Context) :
    Option Context × Session World Context :=
  match session.client.redisContext with
  | none =>
      match session.reconnect hiredis with
      | (none, session) => (none, session)
      | (some context, session) =>
          if hiredis.err context ≠ 0 then session.reconnect hiredis
          else (some context, session)
  | some context =>
      if hiredis.err context ≠ 0 then session.reconnect hiredis
      else (some context, session)

def appendCommand (session : Session World Context) (context : Context)
    (command : Bytes) : Status × Context × Session World Context :=
  let (status, next, world) :=
    hiredis.redisAppendFormattedCommand session.world context command
  (status, next,
    session.after (some next) world (.append context command status))

def redisBlockForReply (session : Session World Context)
    (context : Context) : Option Reply × Context × Session World Context :=
  if hiredis.block context then
    let (status, reply, next, world) :=
      hiredis.redisGetReply session.world context
    let reply := if status ≠ .REDIS_OK then none else reply
    (reply, next, session.after (some next) world (.getReply context reply))
  else (none, context, session)

def vCommand (session : Session World Context) (context : Context)
    (fmt : Bytes) (va : List VaArg) :
    Option Reply × List VaArg × Context × Session World Context :=
  let (reply, rest, next, world) :=
    hiredis.redisvCommand session.world context fmt va
  (reply, rest, next,
    session.after (some next) world (.vCommand context fmt va reply))

/-- Store the reply, or the error when there is none. -/
def finish (session : Session World Context) (context : Context) :
    Option Reply → Bool × Session World Context
  | some reply =>
      (true, { session with client :=
        { session.client with redisReply := some reply } })
  | none =>
      (false, { session with client := { session.client with
        redisError :=
          if hiredis.err context ≠ 0 then
            { code := hiredis.err context, reason := hiredis.errstr context }
          else { code := -1 } } })

/-- Both members that a command starts by clearing. -/
def clear (session : Session World Context) : Session World Context :=
  { session with client :=
    { session.client with redisReply := none, redisError := {} } }

/-- `do_redis_command_format` from the first append on. -/
def sendFormatted (session : Session World Context) (context : Context)
    (cmd : Bytes) : Bool × Session World Context :=
  match session.appendCommand hiredis context cmd with
  | (.REDIS_OK, _, session) => (false, session.noteError hiredis)
  | (.REDIS_ERR, context, session) =>
      match session.redisBlockForReply hiredis context with
      | (some reply, context, session) =>
          session.finish hiredis context (some reply)
      | (none, _, session) =>
          match session.reconnect hiredis with
          | (none, session) => (false, session)
          | (some context, session) =>
              match session.appendCommand hiredis context cmd with
              | (.REDIS_OK, _, session) => (false, session.noteError hiredis)
              | (.REDIS_ERR, context, session) =>
                  let (reply, context, session) :=
                    session.redisBlockForReply hiredis context
                  session.finish hiredis context reply

/-- The vector commands.  What is sent is `cmd`; `cmd_cache_` is only
built. -/
def doRedisCommandFormat (session : Session World Context) (cmd : Bytes)
    (v : List Bytes) : Except Fault (Bool × Session World Context) :=
  (formatCommand cmd v).map fun built =>
    let session := { session.clear with client :=
      { session.clear.client with cmdCache := built } }
    match session.ensureContext hiredis with
    | (none, session) => (false, session)
    | (some context, session) => session.sendFormatted hiredis context cmd

/-- The argument commands: `do_redis_command_args` and `do_redis_command`. -/
def doRedisCommandArgs (session : Session World Context) (fmt : Bytes)
    (va : List VaArg) : Bool × Session World Context :=
  match session.clear.ensureContext hiredis with
  | (none, session) => (false, session)
  | (some context, session) =>
      match session.vCommand hiredis context fmt va with
      | (some reply, _, context, session) =>
          session.finish hiredis context (some reply)
      | (none, va, _, session) =>
          match session.reconnect hiredis with
          | (none, session) => (false, session)
          | (some context, session) =>
              let (reply, _, context, session) :=
                session.vCommand hiredis context fmt va
              session.finish hiredis context reply

end Session

/-- The operations of the client.  The two overloads that take a list have
`Keys`, `Fields` or `Values` in their name. -/
inductive Operation where
  | del (key : Bytes)
  | delKeys (keys : List Bytes)
  | exists (key : Bytes)
  | get (key : Bytes)
  | set (key value : Bytes)
  | setWhen (key value : Bytes) (setWhenExist : Bool)
  | setFor (key value : Bytes) (millisecond : Int) (setWhenExist : Bool)
  | hset (key field value : Bytes)
  | hget (key field : Bytes)
  | hdel (key field : Bytes)
  | hdelFields (key : Bytes) (fields : List Bytes)
  | sadd (key value : Bytes)
  | saddValues (key : Bytes) (values : List Bytes)
  | smembers (key : Bytes)

/-- How an operation sends its command. -/
inductive Request where
  | args (fmt : Bytes) (va : List VaArg)
  | format (cmd : Bytes) (v : List Bytes)

/-- The two arguments that a `%b` reads. -/
def binary (bytes : Bytes) : List VaArg :=
  [.pointer bytes, .size bytes.length]

def existText (setWhenExist : Bool) : Bytes :=
  if setWhenExist then ascii "XX" else ascii "NX"

def Operation.request : Operation → Request
  | del key => .args (ascii "del %s") [.pointer key]
  | delKeys keys => .format (ascii "del") keys
  | .exists key => .args (ascii "exists %b") (binary key)
  | get key => .args (ascii "get %s") [.pointer key]
  | set key value => .format (ascii "set") [key, value]
  | setWhen key value setWhenExist =>
      .format (ascii "set") [key, value, existText setWhenExist]
  | setFor key value millisecond setWhenExist =>
      .format (ascii "set") [key, value, ascii "PX", printInt millisecond,
        existText setWhenExist]
  | hset key field value =>
      .args (ascii "hset %b %b %b") (binary key ++ binary field ++ binary value)
  | hget key field => .args (ascii "hget %b %b") (binary key ++ binary field)
  | hdel key field => .args (ascii "hdel %b %b") (binary key ++ binary field)
  | hdelFields key fields => .format (ascii "hdel") (key :: fields)
  | sadd key value => .args (ascii "sadd %b %b") (binary key ++ binary value)
  | saddValues _ values => .format (ascii "sadd") values
  | smembers key => .args (ascii "smembers %b") (binary key)

/-- What an operation does to the session before it looks at the reply. -/
def Operation.perform (hiredis : Hiredis World Context)
    (operation : Operation) (session : Session World Context) :
    Except Fault (Bool × Session World Context) :=
  match operation.request with
  | .args fmt va => .ok (session.doRedisCommandArgs hiredis fmt va)
  | .format cmd v => session.doRedisCommandFormat hiredis cmd v

end Natsu.Redis
