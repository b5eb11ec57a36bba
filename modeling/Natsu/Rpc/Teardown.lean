import Natsu.Foundation.Run
import Natsu.Libgo.Channel
import Natsu.Rpc.Reassembly

/-!
# The end of a provider connection

`EtcdProvider::handle` locks `locker`, starts `sendrpc`, and locks `locker`
again when its read loop is over.  The second lock waits for the unlock that
stands behind the loop of `sendrpc`.  That loop is `while (true)`, and the
`break` after a failed write leaves only the inner loop.

An event of a run is what one of the coroutines of a connection does between
two places where it gives way.
-/

namespace Natsu.Rpc

open Natsu.Foundation Natsu.Libgo

variable {Message Descriptor Occasion : Type}

def kMaxChannelSize : Nat := 1024

/-- Where `handle` stands: in `read`, in its second `locker.lock()`, or behind
`close(sockfd)`. -/
inductive HandleStage where
  | reading
  | locking
  | closed
  deriving DecidableEq, Repr

/-- Where `sendrpc` stands: before or in `channel_write >> buf`, in `write`
with this much of the buffer left, behind its loop, or at its end. -/
inductive SendStage where
  | receiving
  | parked
  | writing (rest : Bytes)
  | behindLoop
  | returned
  deriving DecidableEq, Repr

/-- Where a `handle_parse` coroutine stands: before or in the method, in the
write to the channel, or at its end. -/
inductive HandlerStage (Message : Type) where
  | running (message : Message) (rid : Int64)
  | blocked (buf : Option Bytes)
  | returned

inductive TeardownEvent (Occasion : Type) where
  | readAgain
  | readEnded
  | readData (data : Bytes)
  | runHandle
  | receive
  | runSendrpc
  | wrote (count : Nat)
  | writeFailed
  | unlock
  | handleParse (handler : Nat) (occasion : Occasion)
  | runHandler (handler : Nat)

/-- The coroutines of one connection and what they share. -/
structure ProviderConnection (Message : Type) where
  rpcParser : RpcPacketParser Message := {}
  locker : CoMutex Unit := (CoMutex.lock {} ()).2
  channelWrite : Channel (Option Bytes) Nat Unit :=
    { writeBlock := { wakeup := kMaxChannelSize } }
  handle : HandleStage := .reading
  sendrpc : SendStage := .receiving
  handlers : List (HandlerStage Message) := []

/-- The buffer that a request is answered with, if there is a method for it
and the method has a response.  The response may depend on the occasion, that
is, on anything besides the message. -/
def handleParse (codec : Codec Message Descriptor)
    (kRpcMethod : Bytes → Option (Occasion → Message → Option Message))
    (occasion : Occasion) (message : Message) (rid : Int64) :
    Except Fault (Option Bytes) :=
  match kRpcMethod (codec.getTypeName message) with
  | none => .ok none
  | some func =>
      match func occasion message with
      | none => .ok none
      | some resp => (codec.encode resp rid).map some

namespace ProviderConnection

section Handle

variable (codec : Codec Message Descriptor)
  (connection : ProviderConnection Message)

/-- `locker.lock()` behind the read loop. -/
def lockAgain : ProviderConnection Message :=
  match connection.locker.lock () with
  | (true, locker) => { connection with locker := locker, handle := .closed }
  | (false, locker) => { connection with locker := locker, handle := .locking }

/-- Decode what was read and start a coroutine for every message.  Where the
decoder reads outside its buffer nothing more is said of the run. -/
def dispatch (data : Bytes) : Option (ProviderConnection Message) :=
  match connection.rpcParser.receive codec data with
  | .error _ => none
  | .ok (taken, next) =>
      some { connection with
        rpcParser := next
        handlers := connection.handlers ++
          taken.map fun request => .running request.2 request.1 }

end Handle

section Sendrpc

variable (connection : ProviderConnection Message)

/-- `while (pos < len)`, with what is left of the buffer. -/
def writeNext (rest : Bytes) : ProviderConnection Message :=
  if rest = [] then { connection with sendrpc := .receiving }
  else { connection with sendrpc := .writing rest }

/-- `if(!buf) continue`. -/
def send : Option Bytes → ProviderConnection Message
  | none => { connection with sendrpc := .receiving }
  | some buf => connection.writeNext buf

/-- `channel_write >> buf`. -/
def receive : ProviderConnection Message :=
  match connection.channelWrite.read () with
  | (some buf, channel) => send { connection with channelWrite := channel } buf
  | (none, channel) =>
      { connection with channelWrite := channel, sendrpc := .parked }

end Sendrpc

section Handlers

variable (connection : ProviderConnection Message)

def setHandler (handler : Nat) (stage : HandlerStage Message) :
    ProviderConnection Message :=
  { connection with handlers := connection.handlers.set handler stage }

/-- `channel_write << buf`. -/
def reply (handler : Nat) (buf : Option Bytes) : ProviderConnection Message :=
  match connection.channelWrite.write handler buf with
  | (true, channel) =>
      setHandler { connection with channelWrite := channel } handler .returned
  | (false, channel) =>
      setHandler { connection with channelWrite := channel } handler
        (.blocked buf)

end Handlers

/-- What an event does, or `none` where it cannot happen. -/
def step (codec : Codec Message Descriptor)
    (kRpcMethod : Bytes → Option (Occasion → Message → Option Message))
    (connection : ProviderConnection Message) :
    TeardownEvent Occasion → Option (ProviderConnection Message)
  | .readAgain =>
      if connection.handle = .reading then some connection else none
  | .readEnded =>
      if connection.handle = .reading then some connection.lockAgain else none
  | .readData data =>
      if connection.handle = .reading ∧ 0 < data.length ∧ data.length ≤ 1024
      then connection.dispatch codec data
      else none
  | .runHandle =>
      if connection.handle = .locking then
        (connection.locker.resume ()).map fun locker =>
          { connection with locker := locker, handle := .closed }
      else none
  | .receive =>
      if connection.sendrpc = .receiving then some connection.receive else none
  | .runSendrpc =>
      if connection.sendrpc = .parked then
        (connection.channelWrite.resumeRead ()).map fun (buf, channel) =>
          send { connection with channelWrite := channel } buf
      else none
  | .wrote count =>
      match connection.sendrpc with
      | .writing rest =>
          if count ≤ rest.length then
            some (connection.writeNext (rest.drop count))
          else none
      | _ => none
  | .writeFailed =>
      match connection.sendrpc with
      | .writing _ => some { connection with sendrpc := .receiving }
      | _ => none
  | .unlock =>
      if connection.sendrpc = .behindLoop then
        connection.locker.unlock.map fun locker =>
          { connection with locker := locker, sendrpc := .returned }
      else none
  | .handleParse handler occasion =>
      match connection.handlers[handler]? with
      | some (.running message rid) =>
          match Rpc.handleParse codec kRpcMethod occasion message rid with
          | .error _ => none
          | .ok none => some (connection.setHandler handler .returned)
          | .ok (some buf) => some (connection.reply handler (some buf))
      | _ => none
  | .runHandler handler =>
      match connection.handlers[handler]? with
      | some (.blocked buf) =>
          (connection.channelWrite.resumeWrite handler buf).map fun channel =>
            setHandler { connection with channelWrite := channel } handler
              .returned
      | _ => none

/-- `handle` does not hold `locker` again and `sendrpc` is inside its loop. -/
structure Held (connection : ProviderConnection Message) : Prop where
  locked : connection.locker.Locked
  unclosed : connection.handle ≠ .closed
  inLoop : connection.sendrpc ≠ .behindLoop

section Invariant

variable {connection next : ProviderConnection Message}

theorem held_start : Held ({} : ProviderConnection Message) where
  locked := CoMutex.locked_lock ()
  unclosed := by simp
  inLoop := by simp

theorem Held.lockAgain (held : connection.Held) :
    connection.lockAgain.Held := by
  obtain ⟨refused, locked⟩ := held.locked.lock ()
  unfold ProviderConnection.lockAgain
  split
  · rename_i locker granted
    simp [granted] at refused
  · rename_i locker waits
    rw [waits] at locked
    exact ⟨locked, by simp, held.inLoop⟩

theorem Held.dispatch {codec : Codec Message Descriptor} {data : Bytes}
    (held : connection.Held)
    (dispatched : connection.dispatch codec data = some next) : next.Held := by
  unfold ProviderConnection.dispatch at dispatched
  split at dispatched
  · simp at dispatched
  · obtain rfl := Option.some.inj dispatched
    exact ⟨held.locked, held.unclosed, held.inLoop⟩

theorem Held.writeNext (held : connection.Held) (rest : Bytes) :
    (connection.writeNext rest).Held := by
  unfold ProviderConnection.writeNext
  split
  · exact ⟨held.locked, held.unclosed, by simp⟩
  · exact ⟨held.locked, held.unclosed, by simp⟩

/-- Neither a null buffer nor a buffer that is written leads out of the
loop. -/
theorem Held.send (held : connection.Held) (buf : Option Bytes) :
    (connection.send buf).Held := by
  cases buf with
  | none => exact ⟨held.locked, held.unclosed, by simp [ProviderConnection.send]⟩
  | some buf => exact held.writeNext buf

theorem Held.withChannel (held : connection.Held)
    (channel : Channel (Option Bytes) Nat Unit) :
    Held { connection with channelWrite := channel } :=
  ⟨held.locked, held.unclosed, held.inLoop⟩

theorem Held.receive (held : connection.Held) : connection.receive.Held := by
  unfold ProviderConnection.receive
  split
  · rename_i buf channel _
    exact (held.withChannel channel).send buf
  · exact ⟨held.locked, held.unclosed, by simp⟩

theorem Held.setHandler (held : connection.Held) (handler : Nat)
    (stage : HandlerStage Message) : (connection.setHandler handler stage).Held :=
  ⟨held.locked, held.unclosed, held.inLoop⟩

theorem Held.reply (held : connection.Held) (handler : Nat)
    (buf : Option Bytes) : (connection.reply handler buf).Held := by
  unfold ProviderConnection.reply
  split
  · rename_i channel _
    exact (held.withChannel channel).setHandler handler _
  · rename_i channel _
    exact (held.withChannel channel).setHandler handler _

/-- No event of any coroutine unlocks the mutex or leaves the loop of
`sendrpc`. -/
theorem Held.step {codec : Codec Message Descriptor}
    {kRpcMethod : Bytes → Option (Occasion → Message → Option Message)}
    {event : TeardownEvent Occasion} (held : connection.Held)
    (stepped : connection.step codec kRpcMethod event = some next) :
    next.Held := by
  cases event with
  | readAgain =>
      obtain ⟨_, happens⟩ := Option.ite_none_right_eq_some.mp stepped
      obtain rfl := Option.some.inj happens
      exact held
  | readEnded =>
      obtain ⟨_, happens⟩ := Option.ite_none_right_eq_some.mp stepped
      obtain rfl := Option.some.inj happens
      exact held.lockAgain
  | readData data =>
      obtain ⟨_, happens⟩ := Option.ite_none_right_eq_some.mp stepped
      exact held.dispatch happens
  | runHandle =>
      obtain ⟨_, happens⟩ := Option.ite_none_right_eq_some.mp stepped
      simp [held.locked.resume] at happens
  | receive =>
      obtain ⟨_, happens⟩ := Option.ite_none_right_eq_some.mp stepped
      obtain rfl := Option.some.inj happens
      exact held.receive
  | runSendrpc =>
      obtain ⟨_, happens⟩ := Option.ite_none_right_eq_some.mp stepped
      obtain ⟨⟨buf, channel⟩, _, rfl⟩ := Option.map_eq_some_iff.mp happens
      exact (held.withChannel channel).send buf
  | wrote count =>
      simp only [ProviderConnection.step] at stepped
      split at stepped
      · obtain ⟨_, happens⟩ := Option.ite_none_right_eq_some.mp stepped
        obtain rfl := Option.some.inj happens
        exact held.writeNext _
      · simp at stepped
  | writeFailed =>
      simp only [ProviderConnection.step] at stepped
      split at stepped
      · obtain rfl := Option.some.inj stepped
        exact ⟨held.locked, held.unclosed, by simp⟩
      · simp at stepped
  | unlock =>
      obtain ⟨behindLoop, _⟩ := Option.ite_none_right_eq_some.mp stepped
      exact absurd behindLoop held.inLoop
  | handleParse handler occasion =>
      simp only [ProviderConnection.step] at stepped
      split at stepped
      · split at stepped
        · simp at stepped
        · obtain rfl := Option.some.inj stepped
          exact held.setHandler handler _
        · obtain rfl := Option.some.inj stepped
          exact held.reply handler _
      · simp at stepped
  | runHandler handler =>
      simp only [ProviderConnection.step] at stepped
      split at stepped
      · obtain ⟨channel, _, rfl⟩ := Option.map_eq_some_iff.mp stepped
        exact (held.withChannel channel).setHandler handler _
      · simp at stepped

/-- Everything that the coroutines can do keeps the connection open. -/
theorem Held.run {codec : Codec Message Descriptor}
    {kRpcMethod : Bytes → Option (Occasion → Message → Option Message)}
    (held : connection.Held) (events : List (TeardownEvent Occasion))
    (reached : runWith (ProviderConnection.step codec kRpcMethod) connection
      events = some next) : next.Held := by
  have kept : ∀ {state event following}, Held state → True →
      ProviderConnection.step codec kRpcMethod state event = some following →
      following.Held :=
    fun held _ stepped => held.step stepped
  exact invariant_of_forall kept events (fun _ _ => trivial) held reached

end Invariant

/-- Some continuation lets `handle` take `locker` and close the socket. -/
def CanClose (codec : Codec Message Descriptor)
    (kRpcMethod : Bytes → Option (Occasion → Message → Option Message))
    (connection : ProviderConnection Message) : Prop :=
  ∃ events final,
    runWith (step codec kRpcMethod) connection events = some final ∧
      final.handle = .closed

theorem Held.not_canClose {codec : Codec Message Descriptor}
    {kRpcMethod : Bytes → Option (Occasion → Message → Option Message)}
    {connection : ProviderConnection Message} (held : connection.Held) :
    ¬ connection.CanClose codec kRpcMethod := by
  rintro ⟨events, final, reached, closed⟩
  exact (held.run events reached).unclosed closed

end ProviderConnection

/-- In every reachable state in which `handle` has left its read loop it waits
for `locker`, and no continuation closes the connection. -/
theorem teardown_blocked (codec : Codec Message Descriptor)
    (kRpcMethod : Bytes → Option (Occasion → Message → Option Message))
    {events : List (TeardownEvent Occasion)} {connection : ProviderConnection Message}
    (reached : runWith (ProviderConnection.step codec kRpcMethod) {} events =
      some connection)
    (left : connection.handle ≠ .reading) :
    connection.handle = .locking ∧
      ¬ connection.CanClose codec kRpcMethod := by
  have start : ProviderConnection.Held
      ({} : ProviderConnection Message) := ProviderConnection.held_start
  have held := start.run events reached
  refine ⟨?_, held.not_canClose⟩
  cases stage : connection.handle with
  | reading => exact absurd stage left
  | locking => rfl
  | closed => exact absurd stage held.unclosed

namespace Example

/-- The connection after the peer has closed it. -/
def afterEnd : ProviderConnection ExampleMessage :=
  ProviderConnection.lockAgain {}

/-- Every request is answered with itself. -/
def echo : Bytes → Option (Unit → ExampleMessage → Option ExampleMessage) :=
  fun _ => some fun _ message => some message

theorem teardown_blocked_afterEnd :
    ¬ afterEnd.CanClose exampleCodec echo := by
  have reached : runWith (ProviderConnection.step exampleCodec echo) {}
      [.readEnded] = some afterEnd := rfl
  exact (teardown_blocked exampleCodec echo reached (by decide)).2

theorem peer_end_not_closed :
    ∃ connection : ProviderConnection ExampleMessage,
      runWith (ProviderConnection.step exampleCodec echo) {} [.readEnded] =
        some connection ∧
      connection.handle ≠ .reading ∧
      ¬ connection.CanClose exampleCodec echo := by
  refine ⟨afterEnd, rfl, by decide, ?_⟩
  exact ProviderConnection.held_start.lockAgain.not_canClose

end Example

end Natsu.Rpc
