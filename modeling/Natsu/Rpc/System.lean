import Natsu.Rpc.Calls

/-!
# Producers and providers

The requests that the workers take reach the providers as frames, and the
responses of the handlers come back as frames.  Frames arrive intact: late,
out of order, again or never, but not changed.  A handler runs in a coroutine
of its own and may wait, so handlers finish in any order.
-/

namespace Natsu.Rpc

open Natsu.Foundation

variable {Service Message Occasion : Type}

/-- What the providers share with their callers: the name of the type of a
message and the handlers of each provider.  The result of a handler may depend
on the occasion, that is, on anything besides the message. -/
structure Methods (Message Occasion : Type) where
  getTypeName : Message → String
  kRpcMethod : Nat → String → Option (Occasion → Message → Option Message)

/-- A response and how it came about. -/
structure Handled (methods : Methods Message Occasion) where
  data : RpcChannelData Message
  provider : Nat
  func : Occasion → Message → Option Message
  registered :
    methods.kRpcMethod provider (methods.getTypeName data.msg) = some func
  occasion : Occasion
  resp : Message
  produced : func occasion data.msg = some resp

structure System (Service : Type) (methods : Methods Message Occasion) where
  producers : Producers Service Message := {}
  handling : List (Nat × RpcChannelData Message) := []
  handled : List (Handled methods) := []

inductive SystemEvent (Service Message Occasion : Type) where
  | producer (event : Event Service Message)
  | request (provider frame : Nat)
  | handlerReturns (coroutine : Nat) (occasion : Occasion)
  | response (reader frame : Nat)

namespace System

variable {methods : Methods Message Occasion}

def produce [DecidableEq Service] (system : System Service methods)
    (event : Event Service Message) : Option (System Service methods) :=
  (system.producers.step event).map fun producers =>
    { system with producers := producers }

/-- `EtcdProvider::handle_parse` from the call of the handler on. -/
def handleParse (system : System Service methods) (provider : Nat)
    (data : RpcChannelData Message) (occasion : Occasion) :
    System Service methods :=
  match registered :
      methods.kRpcMethod provider (methods.getTypeName data.msg) with
  | none => system
  | some func =>
      match produced : func occasion data.msg with
      | none => system
      | some resp =>
          { system with handled := system.handled ++
              [⟨data, provider, func, registered, occasion, resp, produced⟩] }

/-- One event.  Frames are named by their position among those that have been
sent, and the coroutines of handlers by that among those that were started.  A
response reaches the producers only as a frame. -/
def step [DecidableEq Service] (system : System Service methods) :
    SystemEvent Service Message Occasion → Option (System Service methods)
  | .producer event =>
      if event.isResponse then none else system.produce event
  | .request provider frame =>
      system.producers.taken[frame]?.map fun data =>
        { system with handling := system.handling ++ [(provider, data)] }
  | .handlerReturns coroutine occasion =>
      system.handling[coroutine]?.map fun (provider, data) =>
        { system with handling := system.handling.eraseIdx coroutine }
          |>.handleParse provider data occasion
  | .response reader frame =>
      system.handled[frame]?.bind fun response =>
        system.produce (.response reader response.data.id response.resp)

def run [DecidableEq Service] (system : System Service methods)
    (events : List (SystemEvent Service Message Occasion)) :
    Option (System Service methods) :=
  runWith step system events

end System

/-- The request of an event that begins a call. -/
def SystemEvent.request? :
    SystemEvent Service Message Occasion → Option (RpcChannelData Message)
  | .producer event => event.request?
  | _ => none

def requests (events : List (SystemEvent Service Message Occasion)) :
    List (RpcChannelData Message) :=
  events.filterMap SystemEvent.request?

end Natsu.Rpc
