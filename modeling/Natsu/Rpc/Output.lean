import Mathlib.Data.List.ReduceOption
import Natsu.Rpc.Teardown

/-!
# Frames on the socket of a provider

`sendrpc` takes the buffers of `channel_write` one by one and writes each in as
many parts as `write` makes of it.  A failed write ends the buffer, not the
connection: the next buffer follows behind whatever part was written.

A transcript keeps, beside the connection, the buffers in the order in which
they entered the channel and what has been written of each buffer taken.
-/

namespace Natsu.Rpc

open Natsu.Foundation Natsu.Libgo

variable {Message Descriptor Occasion : Type}

/-- A buffer that `sendrpc` has taken and what is on the socket of it. -/
structure SentFrame where
  frame : Bytes
  sent : Bytes := []
  deriving DecidableEq

namespace SentFrame

/-- A frame is not on the socket behind a frame that was cut short. -/
def Follows (later earlier : SentFrame) : Prop :=
  earlier.sent = earlier.frame ∨ later.sent = []

instance (later earlier : SentFrame) : Decidable (Follows later earlier) :=
  inferInstanceAs (Decidable (_ ∨ _))

end SentFrame

/-- The frames stand in the order in which they were taken, the last one
first. -/
structure Transcript (Message : Type) where
  connection : ProviderConnection Message := {}
  queued : List (Option Bytes) := []
  frames : List SentFrame := []

namespace TeardownEvent

/-- A `write` that returned -1. -/
def fails : TeardownEvent Occasion → Bool
  | .writeFailed => true
  | _ => false

/-- A `write` that returned a positive number. -/
def delivers : TeardownEvent Occasion → Bool
  | .wrote count => 0 < count
  | _ => false

end TeardownEvent

/-- No `write` puts bytes on the socket after one that failed. -/
def SilentAfterFailure (events : List (TeardownEvent Occasion)) : Prop :=
  events.Pairwise fun earlier later =>
    earlier.fails = true → later.delivers = false

instance (events : List (TeardownEvent Occasion)) :
    Decidable (SilentAfterFailure events) :=
  inferInstanceAs (Decidable (List.Pairwise _ events))

namespace ProviderConnection

variable (codec : Codec Message Descriptor)
  (kRpcMethod : Bytes → Option (Occasion → Message → Option Message))
  (connection : ProviderConnection Message)

/-- What an event adds to the channel. -/
def queues : TeardownEvent Occasion → List (Option Bytes)
  | .handleParse handler occasion =>
      match connection.handlers[handler]? with
      | some (.running message rid) =>
          match Rpc.handleParse codec kRpcMethod occasion message rid with
          | .ok (some buf) =>
              if (connection.channelWrite.write handler (some buf)).1 then
                [some buf]
              else []
          | _ => []
      | _ => []
  | .runHandler handler =>
      match connection.handlers[handler]? with
      | some (.blocked buf) => [buf]
      | _ => []
  | _ => []

/-- The buffer that `sendrpc` takes with an event, unless it is null. -/
def takes : TeardownEvent Occasion → Option Bytes
  | .receive => (connection.channelWrite.read ()).1.bind id
  | .runSendrpc => (connection.channelWrite.resumeRead ()).bind Prod.fst
  | _ => none

/-- What an event puts on the socket. -/
def puts : TeardownEvent Occasion → Bytes
  | .wrote count =>
      match connection.sendrpc with
      | .writing rest => rest.take count
      | _ => []
  | _ => []

/-- What is left of the buffer that `sendrpc` writes. -/
def rest? : Option Bytes :=
  match connection.sendrpc with
  | .writing rest => some rest
  | _ => none

/-- What an event can do to the channel and to the buffer being written. -/
inductive Effect (event : TeardownEvent Occasion)
    (next : ProviderConnection Message) : Prop where
  | quiet (queues : connection.queues codec kRpcMethod event = [])
      (takes : connection.takes event = none) (puts : connection.puts event = [])
      (result : event.fails = false ∧ event.delivers = false)
      (queue : next.channelWrite.queue = connection.channelWrite.queue)
      (rest : next.rest? = connection.rest?)
  | queued (buf : Option Bytes)
      (queues : connection.queues codec kRpcMethod event = [buf])
      (takes : connection.takes event = none) (puts : connection.puts event = [])
      (result : event.fails = false ∧ event.delivers = false)
      (queue : next.channelWrite.queue = connection.channelWrite.queue ++ [buf])
      (rest : next.rest? = connection.rest?)
  | took (buf : Option Bytes)
      (queues : connection.queues codec kRpcMethod event = [])
      (takes : connection.takes event = buf) (puts : connection.puts event = [])
      (result : event.fails = false ∧ event.delivers = false)
      (queue : connection.channelWrite.queue = buf :: next.channelWrite.queue)
      (idle : connection.rest? = none)
      (rest : next.rest? = buf.filter (· ≠ []))
  | wrote (rest : Bytes) (count : Nat) (isWrite : event = .wrote count)
      (writing : connection.rest? = some rest) (bound : count ≤ rest.length)
      (queue : next.channelWrite.queue = connection.channelWrite.queue)
      (left : next.rest? = (some (rest.drop count)).filter (· ≠ []))
  | failed (rest : Bytes) (isFailure : event = .writeFailed)
      (writing : connection.rest? = some rest)
      (queue : next.channelWrite.queue = connection.channelWrite.queue)
      (left : next.rest? = none)

section Effects

variable {connection}

theorem rest?_writeNext (rest : Bytes) :
    (connection.writeNext rest).rest? = (some rest).filter (· ≠ []) := by
  unfold writeNext
  split
  · rename_i empty
    simp [rest?, Option.filter, empty]
  · rename_i nonempty
    simp [rest?, Option.filter, nonempty]

theorem channelWrite_writeNext (rest : Bytes) :
    (connection.writeNext rest).channelWrite = connection.channelWrite := by
  unfold writeNext
  split <;> rfl

theorem rest?_send (buf : Option Bytes) :
    (connection.send buf).rest? = buf.filter (· ≠ []) := by
  cases buf with
  | none => rfl
  | some buf => exact rest?_writeNext buf

theorem channelWrite_send (buf : Option Bytes) :
    (connection.send buf).channelWrite = connection.channelWrite := by
  cases buf with
  | none => rfl
  | some buf => exact channelWrite_writeNext buf

theorem receive_effect (receiving : connection.sendrpc = .receiving) :
    Effect codec kRpcMethod connection .receive connection.receive := by
  have idle : connection.rest? = none := by simp [rest?, receiving]
  cases read : connection.channelWrite.read () with
  | mk taken channel =>
      have received : connection.receive = match taken with
          | some buf => send { connection with channelWrite := channel } buf
          | none => { connection with
              channelWrite := channel, sendrpc := .parked } := by
        simp only [receive, read]
        cases taken <;> rfl
      cases taken with
      | none =>
          obtain ⟨_, _, queue⟩ := Channel.read_parked read
          refine .quiet rfl (by simp [takes, read]) rfl ⟨rfl, rfl⟩ ?_ ?_
          · rw [received]
            exact queue
          · rw [received, idle]
            rfl
      | some buf =>
          obtain ⟨_, _, _, queue⟩ := Channel.read_done read
          refine .took buf rfl (by simp [takes, read]) rfl ⟨rfl, rfl⟩ ?_ idle ?_
          · rw [received]
            dsimp only
            rw [channelWrite_send]
            exact queue
          · rw [received]
            exact rest?_send buf

theorem reply_effect {handler : Nat} {occasion : Occasion} {message : Message}
    {rid : Int64} {buf : Bytes}
    (running : connection.handlers[handler]? = some (.running message rid))
    (handled : Rpc.handleParse codec kRpcMethod occasion message rid =
      .ok (some buf)) :
    Effect codec kRpcMethod connection (.handleParse handler occasion)
      (connection.reply handler (some buf)) := by
  cases written : connection.channelWrite.write handler (some buf) with
  | mk done channel =>
      cases done with
      | true =>
          obtain ⟨_, _, queue⟩ := Channel.write_done written
          refine .queued (some buf) ?_ rfl rfl ⟨rfl, rfl⟩ ?_ ?_
          · simp [queues, running, handled, written]
          · simpa [reply, written, setHandler] using queue
          · simp [reply, written, setHandler, rest?]
      | false =>
          obtain ⟨_, _, queue⟩ := Channel.write_parked written
          refine .quiet ?_ rfl rfl ⟨rfl, rfl⟩ ?_ ?_
          · simp [queues, running, handled, written]
          · simpa [reply, written, setHandler] using queue
          · simp [reply, written, setHandler, rest?]

theorem step_effect {event : TeardownEvent Occasion}
    {next : ProviderConnection Message}
    (stepped : connection.step codec kRpcMethod event = some next) :
    Effect codec kRpcMethod connection event next := by
  cases event with
  | readAgain =>
      obtain ⟨_, happens⟩ := Option.ite_none_right_eq_some.mp stepped
      obtain rfl := Option.some.inj happens
      exact .quiet rfl rfl rfl ⟨rfl, rfl⟩ rfl rfl
  | readEnded =>
      obtain ⟨_, happens⟩ := Option.ite_none_right_eq_some.mp stepped
      obtain rfl := Option.some.inj happens
      refine .quiet rfl rfl rfl ⟨rfl, rfl⟩ ?_ ?_ <;>
        (unfold lockAgain; split <;> rfl)
  | readData data =>
      obtain ⟨_, happens⟩ := Option.ite_none_right_eq_some.mp stepped
      unfold dispatch at happens
      split at happens
      · simp at happens
      · obtain rfl := Option.some.inj happens
        exact .quiet rfl rfl rfl ⟨rfl, rfl⟩ rfl rfl
  | runHandle =>
      obtain ⟨_, happens⟩ := Option.ite_none_right_eq_some.mp stepped
      obtain ⟨locker, _, rfl⟩ := Option.map_eq_some_iff.mp happens
      exact .quiet rfl rfl rfl ⟨rfl, rfl⟩ rfl rfl
  | receive =>
      obtain ⟨receiving, happens⟩ := Option.ite_none_right_eq_some.mp stepped
      obtain rfl := Option.some.inj happens
      exact receive_effect codec kRpcMethod receiving
  | runSendrpc =>
      obtain ⟨parked, happens⟩ := Option.ite_none_right_eq_some.mp stepped
      obtain ⟨⟨buf, channel⟩, read, rfl⟩ := Option.map_eq_some_iff.mp happens
      obtain ⟨_, _, queue⟩ := Channel.resumeRead_done read
      refine .took buf rfl (by simp [takes, read]) rfl ⟨rfl, rfl⟩ ?_ ?_ ?_
      · rw [channelWrite_send]
        exact queue
      · simp [rest?, parked]
      · exact rest?_send buf
  | wrote count =>
      simp only [step] at stepped
      split at stepped
      · rename_i rest writing
        obtain ⟨bound, happens⟩ := Option.ite_none_right_eq_some.mp stepped
        obtain rfl := Option.some.inj happens
        refine .wrote rest count rfl (by simp [rest?, writing]) bound ?_
          (rest?_writeNext _)
        rw [channelWrite_writeNext]
      · simp at stepped
  | writeFailed =>
      simp only [step] at stepped
      split at stepped
      · rename_i rest writing
        obtain rfl := Option.some.inj stepped
        exact .failed rest rfl (by simp [rest?, writing]) rfl rfl
      · simp at stepped
  | unlock =>
      obtain ⟨behindLoop, happens⟩ := Option.ite_none_right_eq_some.mp stepped
      obtain ⟨locker, _, rfl⟩ := Option.map_eq_some_iff.mp happens
      refine .quiet rfl rfl rfl ⟨rfl, rfl⟩ rfl ?_
      simp [rest?, behindLoop]
  | handleParse handler occasion =>
      simp only [step] at stepped
      split at stepped
      · rename_i message rid running
        split at stepped
        · simp at stepped
        · rename_i handled
          obtain rfl := Option.some.inj stepped
          refine .quiet ?_ rfl rfl ⟨rfl, rfl⟩ rfl rfl
          simp [queues, running, handled]
        · rename_i buf handled
          obtain rfl := Option.some.inj stepped
          exact reply_effect codec kRpcMethod running handled
      · simp at stepped
  | runHandler handler =>
      simp only [step] at stepped
      split at stepped
      · rename_i buf blocked
        obtain ⟨channel, resumed, rfl⟩ := Option.map_eq_some_iff.mp stepped
        obtain ⟨_, _, queue⟩ := Channel.resumeWrite_done resumed
        refine .queued buf ?_ rfl rfl ⟨rfl, rfl⟩ queue rfl
        simp [queues, blocked]
      · simp at stepped

end Effects

end ProviderConnection

namespace Transcript

/-- Bytes go to the frame that was taken last. -/
def put (bytes : Bytes) : List SentFrame → List SentFrame
  | [] => []
  | last :: earlier => { last with sent := last.sent ++ bytes } :: earlier

def step (codec : Codec Message Descriptor)
    (kRpcMethod : Bytes → Option (Occasion → Message → Option Message))
    (transcript : Transcript Message) (event : TeardownEvent Occasion) :
    Option (Transcript Message) :=
  (transcript.connection.step codec kRpcMethod event).map fun next =>
    { connection := next
      queued := transcript.queued ++
        transcript.connection.queues codec kRpcMethod event
      frames := (transcript.connection.takes event).toList.map
          (fun frame => { frame := frame }) ++
        put (transcript.connection.puts event) transcript.frames }

/-- The bytes on the socket. -/
def sent (transcript : Transcript Message) : Bytes :=
  (transcript.frames.reverse.map SentFrame.sent).flatten

/-- The bytes on the socket are a prefix of the buffers in the order of the
queue, and no frame is cut short and followed by another. -/
structure Intact (transcript : Transcript Message) : Prop where
  isPrefix : transcript.sent <+: transcript.queued.reduceOption.flatten
  follows : transcript.frames.Pairwise SentFrame.Follows

/-- The frames that `sendrpc` has done with. -/
def settled (transcript : Transcript Message) : List SentFrame :=
  match transcript.connection.rest? with
  | some _ => transcript.frames.tail
  | none => transcript.frames

@[simp] theorem put_nil (frames : List SentFrame) : put [] frames = frames := by
  cases frames with
  | nil => rfl
  | cons last earlier => simp [put]

/-- Where no frame is cut short and followed, the parts that were sent are a
prefix of the frames. -/
theorem sent_before {frames : List SentFrame}
    (prefixes : ∀ frame ∈ frames, frame.sent <+: frame.frame)
    (follows : frames.Pairwise fun earlier later => later.Follows earlier) :
    (frames.map SentFrame.sent).flatten <+:
      (frames.map SentFrame.frame).flatten := by
  induction frames with
  | nil => exact List.prefix_rfl
  | cons first later induction =>
      obtain ⟨behind, follows⟩ := List.pairwise_cons.mp follows
      simp only [List.map_cons, List.flatten_cons]
      by_cases complete : first.sent = first.frame
      · rw [complete]
        apply (List.prefix_append_right_inj first.frame).mpr
        exact induction (fun frame member =>
          prefixes frame (List.mem_cons_of_mem first member)) follows
      · have nothing : (later.map SentFrame.sent).flatten = [] := by
          apply List.flatten_eq_nil_iff.mpr
          intro part member
          obtain ⟨frame, isLater, rfl⟩ := List.mem_map.mp member
          exact (behind frame isLater).resolve_left complete
        rw [nothing, List.append_nil]
        exact (prefixes first List.mem_cons_self).trans
          (List.prefix_append _ _)

/-- What holds of the transcript after the events. -/
structure Recorded (events : List (TeardownEvent Occasion))
    (transcript : Transcript Message) : Prop where
  queued : transcript.queued.reduceOption =
    (transcript.frames.map SentFrame.frame).reverse ++
      transcript.connection.channelWrite.queue.reduceOption
  prefixes : ∀ frame ∈ transcript.frames, frame.sent <+: frame.frame
  current : ∀ rest, transcript.connection.rest? = some rest → rest ≠ [] ∧
    ∃ last earlier, transcript.frames = last :: earlier ∧
      last.frame = last.sent ++ rest
  cut : (∃ event ∈ events, event.fails = true) ↔
    ∃ frame ∈ transcript.settled, frame.sent ≠ frame.frame
  silent : transcript.frames.Pairwise SentFrame.Follows ↔
    SilentAfterFailure events

section Recorded

variable {codec : Codec Message Descriptor}
  {kRpcMethod : Bytes → Option (Occasion → Message → Option Message)}
  {events : List (TeardownEvent Occasion)} {event : TeardownEvent Occasion}
  {transcript next : Transcript Message}

theorem silent_concat :
    SilentAfterFailure (events ++ [event]) ↔ SilentAfterFailure events ∧
      (event.delivers = true → ¬ ∃ earlier ∈ events, earlier.fails = true) := by
  unfold SilentAfterFailure
  rw [List.pairwise_append]
  simp only [List.pairwise_singleton, true_and, List.mem_singleton,
    forall_eq, not_exists, not_and]
  refine and_congr_right fun _ => ?_
  constructor
  · intro silent delivers earlier member fails
    simp [silent earlier member fails] at delivers
  · intro silent earlier member fails
    cases delivers : event.delivers with
    | false => rfl
    | true => exact absurd fails (silent delivers earlier member)

theorem fails_concat (quiet : event.fails = false) :
    (∃ earlier ∈ events ++ [event], earlier.fails = true) ↔
      ∃ earlier ∈ events, earlier.fails = true := by
  constructor
  · rintro ⟨earlier, member, fails⟩
    rcases List.mem_append.mp member with before | isNew
    · exact ⟨earlier, before, fails⟩
    · rw [List.mem_singleton.mp isNew, quiet] at fails
      simp at fails
  · rintro ⟨earlier, member, fails⟩
    exact ⟨earlier, List.mem_append_left _ member, fails⟩

/-- An event that neither fails nor delivers, by its effect on the frames. -/
theorem Recorded.extend (recorded : transcript.Recorded events)
    (result : event.fails = false ∧ event.delivers = false)
    (queued : next.queued.reduceOption =
      (next.frames.map SentFrame.frame).reverse ++
        next.connection.channelWrite.queue.reduceOption)
    (frames : next.frames = transcript.frames)
    (rest : next.connection.rest? = transcript.connection.rest?) :
    next.Recorded (events ++ [event]) where
  queued := queued
  prefixes := by
    rw [frames]
    exact recorded.prefixes
  current := by
    rw [frames, rest]
    exact recorded.current
  cut := by
    have settled : next.settled = transcript.settled := by
      simp only [settled, rest, frames]
    rw [fails_concat result.1, settled]
    exact recorded.cut
  silent := by
    rw [frames, silent_concat, result.2]
    simpa using recorded.silent

/-- A buffer is taken when none is being written. -/
theorem Recorded.take (recorded : transcript.Recorded events)
    (result : event.fails = false ∧ event.delivers = false) {buf : Bytes}
    (queued : next.queued.reduceOption =
      (next.frames.map SentFrame.frame).reverse ++
        next.connection.channelWrite.queue.reduceOption)
    (frames : next.frames = { frame := buf } :: transcript.frames)
    (idle : transcript.connection.rest? = none)
    (rest : next.connection.rest? = (some buf).filter (· ≠ [])) :
    next.Recorded (events ++ [event]) where
  queued := queued
  prefixes := by
    rw [frames]
    intro frame member
    rcases List.mem_cons.mp member with rfl | earlier
    · exact List.nil_prefix
    · exact recorded.prefixes frame earlier
  current := by
    intro left writing
    rw [rest] at writing
    obtain ⟨isBuf, nonempty⟩ := Option.filter_eq_some_iff.mp writing
    obtain rfl := Option.some.inj isBuf
    exact ⟨by simpa using nonempty, _, _, frames, rfl⟩
  cut := by
    have before : transcript.settled = transcript.frames := by
      simp only [settled, idle]
    rw [fails_concat result.1, recorded.cut, before]
    by_cases empty : buf = []
    · have after : next.settled = { frame := buf } :: transcript.frames := by
        simp [settled, rest, frames, Option.filter, empty]
      simp [after, empty]
    · have after : next.settled = transcript.frames := by
        simp [settled, rest, frames, Option.filter, empty]
      rw [after]
  silent := by
    rw [frames, silent_concat, result.2, List.pairwise_cons]
    simpa [SentFrame.Follows] using recorded.silent

/-- A part of the current buffer is written. -/
theorem Recorded.write (recorded : transcript.Recorded events) {rest : Bytes}
    {count : Nat} (writing : transcript.connection.rest? = some rest)
    (queued : next.queued.reduceOption =
      (next.frames.map SentFrame.frame).reverse ++
        next.connection.channelWrite.queue.reduceOption)
    (frames : next.frames = put (rest.take count) transcript.frames)
    (left : next.connection.rest? = (some (rest.drop count)).filter (· ≠ [])) :
    next.Recorded (events ++ [.wrote count]) := by
  obtain ⟨nonempty, last, earlier, shape, whole⟩ :=
    recorded.current rest writing
  have before : transcript.settled = earlier := by
    simp only [settled, writing, shape, List.tail_cons]
  have parts : last.frame =
      last.sent ++ rest.take count ++ rest.drop count := by
    rw [whole, List.append_assoc, List.take_append_drop]
  rw [shape] at frames
  have cut : (∃ event ∈ events, event.fails = true) ↔
      ∃ frame ∈ earlier, frame.sent ≠ frame.frame := by
    rw [← before]
    exact recorded.cut
  refine ⟨queued, ?_, ?_, ?_, ?_⟩
  · rw [frames]
    intro frame member
    rcases List.mem_cons.mp member with rfl | isEarlier
    · rw [parts]
      exact List.prefix_append _ _
    · exact recorded.prefixes frame (shape ▸ List.mem_cons_of_mem _ isEarlier)
  · intro other stillWriting
    rw [left] at stillWriting
    obtain ⟨isRest, remains⟩ := Option.filter_eq_some_iff.mp stillWriting
    obtain rfl := Option.some.inj isRest
    exact ⟨by simpa using remains, _, _, frames, parts⟩
  · rw [fails_concat rfl, cut]
    by_cases done : rest.drop count = []
    · have after : next.settled =
          put (rest.take count) (last :: earlier) := by
        simp [settled, left, frames, Option.filter, done]
      rw [done, List.append_nil] at parts
      simp [after, put, ← parts]
    · have after : next.settled = earlier := by
        simp [settled, left, frames, Option.filter, done, put]
      rw [after]
  · have same := recorded.silent
    rw [shape, List.pairwise_cons] at same
    rw [frames, silent_concat, ← same, cut]
    simp only [put, List.pairwise_cons, TeardownEvent.delivers,
      decide_eq_true_eq, SentFrame.Follows, List.append_eq_nil_iff,
      List.take_eq_nil_iff, nonempty, or_false]
    constructor
    · rintro ⟨follows, pairwise⟩
      refine ⟨⟨fun frame member => ?_, pairwise⟩, ?_⟩
      · exact (follows frame member).imp_right And.left
      · rintro positive ⟨frame, member, isCut⟩
        have silent := (follows frame member).resolve_left isCut
        omega
    · rintro ⟨⟨follows, pairwise⟩, silent⟩
      refine ⟨fun frame member => ?_, pairwise⟩
      by_cases complete : frame.sent = frame.frame
      · exact .inl complete
      · refine .inr ⟨(follows frame member).resolve_left complete, ?_⟩
        by_contra positive
        exact silent (by omega) ⟨frame, member, complete⟩

/-- The current buffer is given up. -/
theorem Recorded.fail (recorded : transcript.Recorded events) {rest : Bytes}
    (writing : transcript.connection.rest? = some rest)
    (queued : next.queued.reduceOption =
      (next.frames.map SentFrame.frame).reverse ++
        next.connection.channelWrite.queue.reduceOption)
    (frames : next.frames = transcript.frames)
    (left : next.connection.rest? = none) :
    next.Recorded (events ++ [.writeFailed]) := by
  obtain ⟨nonempty, last, earlier, shape, whole⟩ :=
    recorded.current rest writing
  refine ⟨queued, ?_, ?_, ?_, ?_⟩
  · rw [frames]
    exact recorded.prefixes
  · intro other stillWriting
    rw [left] at stillWriting
    simp at stillWriting
  · have after : next.settled = last :: earlier := by
      simp only [settled, left, frames, shape]
    rw [after]
    refine iff_of_true ⟨.writeFailed, by simp, rfl⟩ ⟨last, by simp, ?_⟩
    intro complete
    rw [complete] at whole
    exact nonempty (List.self_eq_append_right.mp whole)
  · rw [frames, silent_concat]
    simpa [TeardownEvent.delivers] using recorded.silent

theorem Recorded.step (recorded : transcript.Recorded events)
    (stepped : transcript.step codec kRpcMethod event = some next) :
    next.Recorded (events ++ [event]) := by
  obtain ⟨connection, connected, rfl⟩ := Option.map_eq_some_iff.mp stepped
  have queued := recorded.queued
  cases ProviderConnection.step_effect codec kRpcMethod connected with
  | quiet queues takes puts result queue rest =>
      refine recorded.extend result ?_ (by simp [takes, puts]) rest
      simpa [queues, takes, puts, queue] using queued
  | queued buf queues takes puts result queue rest =>
      refine recorded.extend result ?_ (by simp [takes, puts]) rest
      simp [queues, takes, puts, queue, List.reduceOption_append, queued]
  | took buf queues takes puts result queue idle rest =>
      rw [queue] at queued
      cases buf with
      | none =>
          refine recorded.extend result ?_ (by simp [takes, puts])
            (rest.trans idle.symm)
          simpa [queues, takes, puts, List.reduceOption_cons_of_none] using
            queued
      | some buf =>
          refine recorded.take result ?_ (by simp [takes, puts]) idle rest
          simpa [queues, takes, puts, List.reduceOption_cons_of_some] using
            queued
  | wrote rest count isWrite writing bound queue left =>
      subst isWrite
      have isWriting : transcript.connection.sendrpc = .writing rest := by
        unfold ProviderConnection.rest? at writing
        split at writing
        · rename_i other stage
          rw [stage, Option.some.inj writing]
        · simp at writing
      have puts : transcript.connection.puts
          (.wrote count : TeardownEvent Occasion) = rest.take count := by
        simp only [ProviderConnection.puts, isWriting]
      have unchanged : (put (rest.take count) transcript.frames).map
          SentFrame.frame = transcript.frames.map SentFrame.frame := by
        cases transcript.frames <;> rfl
      refine recorded.write writing ?_ (by rw [puts]; rfl) left
      simpa [ProviderConnection.queues, ProviderConnection.takes, puts,
        unchanged, queue] using queued
  | failed rest isFailure writing queue left =>
      subst isFailure
      refine recorded.fail writing ?_
        (by simp [ProviderConnection.takes, ProviderConnection.puts]) left
      simpa [ProviderConnection.queues, ProviderConnection.takes,
        ProviderConnection.puts, queue] using queued

theorem recorded_start :
    ({} : Transcript Message).Recorded ([] : List (TeardownEvent Occasion)) where
  queued := rfl
  prefixes := by simp
  current := by simp [ProviderConnection.rest?]
  cut := by simp [settled, ProviderConnection.rest?]
  silent := by simp [SilentAfterFailure]

theorem Recorded.intact_iff (recorded : transcript.Recorded events) :
    transcript.Intact ↔ SilentAfterFailure events := by
  refine ⟨fun intact => recorded.silent.mp intact.follows, fun silent => ?_⟩
  have follows := recorded.silent.mpr silent
  refine ⟨?_, follows⟩
  rw [recorded.queued, List.flatten_append, ← List.map_reverse]
  refine (sent_before ?_ ?_).trans (List.prefix_append _ _)
  · intro frame member
    exact recorded.prefixes frame (List.mem_reverse.mp member)
  · exact List.pairwise_reverse.mpr follows

end Recorded

end Transcript

/-- In every run the bytes on the socket are a prefix of the queued buffers,
with no frame cut short and followed by another, exactly when no `write` puts
bytes on the socket after one that failed. -/
theorem output_intact_iff (codec : Codec Message Descriptor)
    (kRpcMethod : Bytes → Option (Occasion → Message → Option Message))
    {events : List (TeardownEvent Occasion)} {transcript : Transcript Message}
    (reached : runWith (Transcript.step codec kRpcMethod) {} events =
      some transcript) :
    transcript.Intact ↔ SilentAfterFailure events := by
  have recorded : transcript.Recorded ([] ++ events) :=
    invariant_of_history Transcript.Recorded.step events
      Transcript.recorded_start reached
  exact recorded.intact_iff

namespace Example

/-- Two requests arrive and both are answered with themselves. -/
def requested : List (TeardownEvent Unit) :=
  [.readData (((exampleCodec.encode hello 1).toOption.getD []) ++
      ((exampleCodec.encode hello 2).toOption.getD [])),
    .handleParse 0 (), .handleParse 1 ()]

/-- The first answer is written in two parts, and the second fails. -/
def lastCut : List (TeardownEvent Unit) :=
  requested ++ [.receive, .wrote 5, .wrote 30, .receive, .wrote 3, .writeFailed]

theorem output_intact_lastCut :
    ∃ transcript : Transcript ExampleMessage,
      runWith (Transcript.step exampleCodec echo) {} lastCut =
        some transcript ∧ transcript.Intact := by
  have happens : (runWith (Transcript.step exampleCodec echo) {}
      lastCut).isSome := by decide +kernel
  obtain ⟨transcript, reached⟩ := Option.isSome_iff_exists.mp happens
  refine ⟨transcript, reached, ?_⟩
  exact (output_intact_iff exampleCodec echo reached).mpr (by decide)

/-- The write of the first answer fails after five bytes, and the second
follows. -/
def firstCut : List (TeardownEvent Unit) :=
  requested ++ [.receive, .wrote 5, .writeFailed, .receive, .wrote 35]

theorem frame_cut_and_followed :
    ∃ transcript : Transcript ExampleMessage,
      runWith (Transcript.step exampleCodec echo) {} firstCut =
        some transcript ∧
      ¬ transcript.sent <+: transcript.queued.reduceOption.flatten ∧
      ¬ transcript.frames.Pairwise SentFrame.Follows := by
  have happens : (runWith (Transcript.step exampleCodec echo) {}
      firstCut).map (fun transcript =>
        (decide (transcript.sent <+: transcript.queued.reduceOption.flatten),
          decide (transcript.frames.Pairwise SentFrame.Follows))) =
      some (false, false) := by decide +kernel
  obtain ⟨transcript, reached, broken⟩ := Option.map_eq_some_iff.mp happens
  obtain ⟨notPrefix, notFollows⟩ := Prod.mk.inj broken
  exact ⟨transcript, reached, of_decide_eq_false notPrefix,
    of_decide_eq_false notFollows⟩

end Example

end Natsu.Rpc
