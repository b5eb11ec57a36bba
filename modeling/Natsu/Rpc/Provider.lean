import Natsu.Rpc.Bounds

/-!
# Connections of a provider

All `handle` coroutines of one `EtcdProvider` decode into its single
`rpc_parser_` member.  A coroutine yields only in `read`, so one event of the
run is one read result together with the dispatch that follows it.  A run does
not go on behind a read outside the buffer.
-/

namespace Natsu.Rpc

open Natsu.Foundation

variable {Message Descriptor : Type}

/-- What `read` returns to the loop of one connection. -/
inductive ProviderEvent where
  | data (connection : Nat) (bytes : Bytes)
  | interrupted (connection : Nat)
  | ended (connection : Nat)

/-- The shared parser, the connections that left their loop, and the requests
handed to `handle_parse` so far. -/
structure EtcdProvider (Message : Type) where
  rpcParser : RpcPacketParser Message := {}
  ended : List Nat := []
  dispatched : List (Nat × Int64 × Message) := []

namespace EtcdProvider

variable (codec : Codec Message Descriptor)

/-- One turn of the read loop of `handle`. -/
def handle (provider : EtcdProvider Message) :
    ProviderEvent → Except Fault (EtcdProvider Message)
  | .data connection bytes =>
      if connection ∈ provider.ended then .ok provider
      else
        match provider.rpcParser.receive codec bytes with
        | .error fault => .error fault
        | .ok (taken, next) =>
            .ok { provider with
              rpcParser := next
              dispatched := provider.dispatched ++
                taken.map fun request => (connection, request) }
  | .interrupted _ => .ok provider
  | .ended connection =>
      .ok { provider with ended := connection :: provider.ended }

def run (provider : EtcdProvider Message) :
    List ProviderEvent → Except Fault (EtcdProvider Message)
  | [] => .ok provider
  | event :: events =>
      match provider.handle codec event with
      | .error fault => .error fault
      | .ok next => next.run events

/-- The requests dispatched on behalf of a connection, in order. -/
def requests (provider : EtcdProvider Message) (connection : Nat) :
    List (Int64 × Message) :=
  (provider.dispatched.filter (·.1 = connection)).map Prod.snd

end EtcdProvider

/-- The reads of one connection, until it leaves its loop. -/
def readsOf (connection : Nat) : List Nat → List ProviderEvent → List Bytes
  | _, [] => []
  | ended, .data other bytes :: events =>
      if other = connection ∧ other ∉ ended then
        bytes :: readsOf connection ended events
      else readsOf connection ended events
  | ended, .interrupted _ :: events => readsOf connection ended events
  | ended, .ended other :: events =>
      readsOf connection (other :: ended) events

/-- Every connection is served as by a parser of its own: nothing outside the
buffer is read, and the requests are those of a private parser. -/
def Isolated (codec : Codec Message Descriptor)
    (events : List ProviderEvent) : Prop :=
  match EtcdProvider.run codec {} events with
  | .ok provider => ∀ connection, ∃ final,
      RpcPacketParser.receiveAll codec {} (readsOf connection [] events) =
        .ok (provider.requests connection, final)
  | .error _ => False

/-- Whenever a read is decoded for another connection than the one before,
the shared buffer is empty; and no read leaves a frame that is cut early
behind complete ones. -/
def SwitchesEmpty (codec : Codec Message Descriptor) :
    EtcdProvider Message → Option Nat → List ProviderEvent → Prop
  | _, _, [] => True
  | provider, last, event :: events =>
      match event with
      | .data connection bytes =>
          if connection ∈ provider.ended then
            SwitchesEmpty codec provider last events
          else
            (last = some connection ∨ provider.rpcParser.buffer = []) ∧
              Behind (¬ CutEarly ·) (provider.rpcParser.buffer ++ bytes) ∧
              match provider.handle codec (.data connection bytes) with
              | .error _ => True
              | .ok next => SwitchesEmpty codec next (some connection) events
      | .interrupted _ => SwitchesEmpty codec provider last events
      | .ended connection =>
          SwitchesEmpty codec
            { provider with ended := connection :: provider.ended } last events

instance SwitchesEmpty.decidable (codec : Codec Message Descriptor) :
    ∀ (events : List ProviderEvent) (provider : EtcdProvider Message)
      (last : Option Nat), Decidable (SwitchesEmpty codec provider last events)
  | [], _, _ => isTrue trivial
  | .data connection bytes :: events, provider, last =>
      have : Decidable (match provider.handle codec (.data connection bytes) with
          | .error _ => True
          | .ok next => SwitchesEmpty codec next (some connection) events) :=
        match provider.handle codec (.data connection bytes) with
        | .error _ => isTrue trivial
        | .ok next => decidable codec events next (some connection)
      have := decidable codec events provider last
      have : Decidable
          (Behind (¬ CutEarly ·) (provider.rpcParser.buffer ++ bytes)) :=
        decidable_of_iff _
          (RpcPacketParser.decode_ok_iff codec provider.rpcParser bytes)
      inferInstanceAs (Decidable (if connection ∈ provider.ended then _ else _))
  | .interrupted _ :: events, provider, last =>
      decidable codec events provider last
  | .ended connection :: events, provider, last =>
      decidable codec events
        { provider with ended := connection :: provider.ended } last

/-- The condition on a run is a condition on each of its initial parts. -/
theorem SwitchesEmpty.of_append {codec : Codec Message Descriptor}
    (before after : List ProviderEvent) :
    ∀ (provider : EtcdProvider Message) (last : Option Nat),
      SwitchesEmpty codec provider last (before ++ after) →
      SwitchesEmpty codec provider last before := by
  induction before with
  | nil => exact fun _ _ _ => trivial
  | cons event before induction =>
      intro provider last switches
      cases event with
      | data connection bytes =>
          simp only [List.cons_append, SwitchesEmpty] at switches ⊢
          split at switches
          · rename_i closed
            rw [if_pos closed]
            exact induction _ _ switches
          · rename_i live
            rw [if_neg live]
            obtain ⟨switch, whole, later⟩ := switches
            refine ⟨switch, whole, ?_⟩
            split at later
            · trivial
            · exact induction _ _ later
      | interrupted connection => exact induction _ _ switches
      | ended connection => exact induction _ _ switches

theorem RpcPacketParser.receive_message {codec : Codec Message Descriptor}
    {parser next : RpcPacketParser Message} {data : Bytes}
    {taken : List (Int64 × Message)}
    (received : parser.receive codec data = .ok (taken, next)) :
    next.message = ∅ := by
  unfold RpcPacketParser.receive at received
  cases decoded : parser.decode codec data with
  | error fault => simp [decoded, Except.map] at received
  | ok filled =>
      rw [decoded] at received
      have equality : filled.drain = (taken, next) := Except.ok.inj received
      rw [RpcPacketParser.drain_eq] at equality
      exact (congrArg RpcPacketParser.message
        (Prod.mk.inj equality).2).symm

/-- The shared parser is the private one of the connection read last, and
every other private parser is between two frames. -/
structure Agrees (provider : EtcdProvider Message) (last : Option Nat)
    (own : Nat → RpcPacketParser Message) : Prop where
  sharedMessage : provider.rpcParser.message = ∅
  ownMessage : ∀ connection, (own connection).message = ∅
  start : last = none → provider.rpcParser.buffer = []
  owner : ∀ connection, last = some connection →
    (own connection).buffer = provider.rpcParser.buffer
  others : ∀ connection, last ≠ some connection →
    (own connection).buffer = []

namespace Agrees

variable {provider : EtcdProvider Message} {last : Option Nat}
  {own : Nat → RpcPacketParser Message} {connection : Nat}

theorem own_eq_shared (agrees : Agrees provider last own)
    (switch : last = some connection ∨ provider.rpcParser.buffer = []) :
    own connection = provider.rpcParser := by
  have buffers : (own connection).buffer = provider.rpcParser.buffer := by
    by_cases isLast : last = some connection
    · exact agrees.owner connection isLast
    · rw [agrees.others connection isLast, switch.resolve_left isLast]
  have messages : (own connection).message = provider.rpcParser.message := by
    rw [agrees.ownMessage connection, agrees.sharedMessage]
  cases shared : provider.rpcParser
  cases mine : own connection
  simp_all

/-- A read that meets the condition keeps the agreement. -/
theorem receive (agrees : Agrees provider last own)
    (switch : last = some connection ∨ provider.rpcParser.buffer = [])
    {next : RpcPacketParser Message} (empty : next.message = ∅)
    (dispatched : List (Nat × Int64 × Message)) :
    Agrees { provider with rpcParser := next, dispatched := dispatched }
      (some connection) (Function.update own connection next) := by
  constructor
  · exact empty
  · intro other
    by_cases same : other = connection
    · subst same
      simpa using empty
    · simpa [Function.update_of_ne same] using agrees.ownMessage other
  · simp
  · intro other isLast
    obtain rfl : connection = other := by simpa using isLast
    simp
  · intro other notLast
    have different : other ≠ connection := by
      rintro rfl
      exact notLast rfl
    rw [Function.update_of_ne different]
    rcases switch with isLast | emptyBuffer
    · exact agrees.others other (by simp [isLast, Ne.symm different])
    · by_cases wasLast : last = some other
      · rw [agrees.owner other wasLast, emptyBuffer]
      · exact agrees.others other wasLast

end Agrees

/-- The statement of isolation from any point of a run on. -/
private def IsolatedFrom (codec : Codec Message Descriptor)
    (provider : EtcdProvider Message) (own : Nat → RpcPacketParser Message)
    (events : List ProviderEvent) : Prop :=
  match provider.run codec events with
  | .ok later => ∀ connection, ∃ more final,
      (own connection).receiveAll codec
          (readsOf connection provider.ended events) = .ok (more, final) ∧
        later.requests connection = provider.requests connection ++ more
  | .error _ => False

section Data

variable {codec : Codec Message Descriptor}
  {provider : EtcdProvider Message} {own : Nat → RpcPacketParser Message}
  {connection : Nat} {bytes : Bytes} {events : List ProviderEvent}

private theorem isolatedFrom_data {taken : List (Int64 × Message)}
    {next : RpcPacketParser Message} (live : connection ∉ provider.ended)
    (same : own connection = provider.rpcParser)
    (received : provider.rpcParser.receive codec bytes = .ok (taken, next))
    (rest : IsolatedFrom codec
      { provider with
        rpcParser := next
        dispatched := provider.dispatched ++
          taken.map fun request => (connection, request) }
      (Function.update own connection next) events) :
    IsolatedFrom codec provider own (.data connection bytes :: events) := by
  have step : provider.handle codec (.data connection bytes) =
      .ok { provider with
        rpcParser := next
        dispatched := provider.dispatched ++
          taken.map fun request => (connection, request) } := by
    simp [EtcdProvider.handle, live, received]
  simp only [IsolatedFrom, EtcdProvider.run, step] at rest ⊢
  have ownReads : ∀ other, (own other).receiveAll codec
      (readsOf other provider.ended (.data connection bytes :: events)) =
      if other = connection then
        ((Function.update own connection next other).receiveAll codec
          (readsOf other provider.ended events)).map
            fun result => (taken ++ result.1, result.2)
      else (Function.update own connection next other).receiveAll codec
        (readsOf other provider.ended events) := by
    intro other
    by_cases isSame : other = connection
    · subst isSame
      simp only [readsOf, live, not_false_eq_true, and_self, if_true,
        RpcPacketParser.receiveAll, same, received, Function.update_self, bind,
        Except.bind]
      rfl
    · rw [if_neg isSame, Function.update_of_ne isSame]
      simp only [readsOf, Ne.symm isSame, false_and, if_false]
  split at rest
  · intro other
    obtain ⟨more, final, run, grown⟩ := rest other
    rw [ownReads, run]
    by_cases isSame : other = connection
    · subst isSame
      refine ⟨taken ++ more, final, by simp [Except.map], ?_⟩
      rw [grown]
      simp [EtcdProvider.requests, List.filter_map, Function.comp_def]
    · refine ⟨more, final, by simp [isSame], ?_⟩
      rw [grown]
      simp [EtcdProvider.requests, List.filter_map, Function.comp_def,
        Ne.symm isSame]
  · exact rest

end Data

private theorem isolatedFrom_of_switchesEmpty
    (codec : Codec Message Descriptor) (events : List ProviderEvent) :
    ∀ (provider : EtcdProvider Message) (last : Option Nat)
      (own : Nat → RpcPacketParser Message),
      Agrees provider last own → SwitchesEmpty codec provider last events →
      IsolatedFrom codec provider own events := by
  induction events with
  | nil =>
      intro provider last own _ _
      exact fun connection => ⟨[], own connection, rfl, by simp⟩
  | cons event events induction =>
      intro provider last own agrees switches
      cases event with
      | data connection bytes =>
          simp only [SwitchesEmpty] at switches
          split at switches
          · rename_i closed
            have rest := induction provider last own agrees switches
            simpa [IsolatedFrom, EtcdProvider.run, EtcdProvider.handle, closed,
              readsOf] using rest
          · rename_i live
            obtain ⟨switch, whole, later⟩ := switches
            have same := agrees.own_eq_shared switch
            have decodes := (RpcPacketParser.decode_ok_iff codec
              provider.rpcParser bytes).mpr whole
            cases received : provider.rpcParser.receive codec bytes with
            | error fault =>
                cases decoded : provider.rpcParser.decode codec bytes with
                | error other =>
                    simp [decoded, Except.isOk, Except.toBool] at decodes
                | ok next =>
                    simp [RpcPacketParser.receive, decoded, Except.map]
                      at received
            | ok result =>
                obtain ⟨taken, next⟩ := result
                have handled : EtcdProvider.handle codec provider
                    (.data connection bytes) = .ok { provider with
                      rpcParser := next
                      dispatched := provider.dispatched ++
                        taken.map fun request => (connection, request) } := by
                  simp only [EtcdProvider.handle, live, if_false, received]
                have nextAgrees := agrees.receive switch
                  (RpcPacketParser.receive_message received)
                rw [handled] at later
                exact isolatedFrom_data live same received
                  (induction _ _ _ (nextAgrees _) later)
      | interrupted connection =>
          exact induction provider last own agrees switches
      | ended connection =>
          exact induction { provider with ended := _ } last own
            ⟨agrees.sharedMessage, agrees.ownMessage, agrees.start,
              agrees.owner, agrees.others⟩ switches

/-- In every run in which the shared buffer is empty whenever the provider
turns to another connection, and no frame is cut early, every connection is
isolated at every moment. -/
theorem connections_isolated (codec : Codec Message Descriptor)
    (events : List ProviderEvent)
    (switches : SwitchesEmpty codec {} none events) :
    ∀ before, before <+: events → Isolated codec before := by
  rintro before ⟨after, rfl⟩
  have agrees : Agrees ({} : EtcdProvider Message) none fun _ => {} :=
    ⟨rfl, fun _ => rfl, fun _ => rfl, by simp, fun _ _ => rfl⟩
  have isolated := isolatedFrom_of_switchesEmpty codec before {} none _ agrees
    (switches.of_append before after)
  unfold IsolatedFrom at isolated
  unfold Isolated
  split at isolated
  · intro connection
    obtain ⟨more, final, received, grown⟩ := isolated connection
    refine ⟨final, ?_⟩
    rw [grown]
    exact received
  · exact isolated

namespace Example

/-- One connection sends its frame in two reads and closes in the middle of
the next one, after another connection has been served. -/
theorem connections_isolated_hello :
    Isolated exampleCodec [.data 0 (frames.flatten.take 20),
      .data 0 ((frames.flatten.take 35).drop 20), .interrupted 1,
      .data 1 (frames.flatten.drop 35), .data 0 (frames.flatten.take 20),
      .ended 0] :=
  connections_isolated exampleCodec _ (by decide) _ List.prefix_rfl

/-- A frame that arrives while another connection's frame is incomplete is
decoded behind the foreign bytes. -/
theorem connections_interfere :
    ¬ Isolated exampleCodec
      [.data 0 (frames.flatten.take 20), .data 1 (frames.flatten.drop 35)] := by
  have shared : (EtcdProvider.run exampleCodec {} [.data 0
      (frames.flatten.take 20), .data 1 (frames.flatten.drop 35)]).toOption.map
      (·.requests 1) = some [] := by decide
  have own : (RpcPacketParser.receiveAll exampleCodec {}
      [frames.flatten.drop 35]).toOption.map Prod.fst = some [(8, world)] := by
    decide
  unfold Isolated
  split
  · rename_i provider run
    intro isolated
    obtain ⟨final, received⟩ := isolated 1
    have reads : readsOf 1 [] [.data 0 (frames.flatten.take 20),
        .data 1 (frames.flatten.drop 35)] = [frames.flatten.drop 35] := rfl
    rw [reads] at received
    rw [received] at own
    rw [run] at shared
    have mine : provider.requests 1 = [(8, world)] := Option.some.inj own
    have none : provider.requests 1 = [] := Option.some.inj shared
    simp [mine] at none
  · rename_i fault run
    rw [run] at shared
    cases shared

end Example

end Natsu.Rpc
