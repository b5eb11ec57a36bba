import Natsu.Foundation.OrderedMap
import Natsu.Rpc.FrameDecoding
import Natsu.Rpc.ExampleMessages

/-!
# Reassembly of the frame stream

A stream of encoded frames is cut into reads.  The completeness test of
`parseStream` compares the buffer with the body length alone, so a read that
ends inside the last 12 bytes of a frame makes the parser take the frame too
early.  `CutShort` names these positions; away from them every message is
recovered.
-/

namespace Natsu.Rpc

open Natsu.Foundation

variable {Message Descriptor : Type} {codec : Codec Message Descriptor}

/-- The offset falls into a frame whose header is there and of which between
`least` and `most` bytes are missing.  The list holds the frame sizes. -/
def CutShort (least most : Nat) : List Nat → Nat → Prop
  | [], _ => False
  | width :: widths, offset =>
      if offset < width then
        kHeaderLen ≤ offset ∧ offset + least ≤ width ∧ width ≤ offset + most
      else CutShort least most widths (offset - width)

instance decidableCutShort (least most : Nat) :
    (widths : List Nat) → (offset : Nat) →
      Decidable (CutShort least most widths offset)
  | [], _ => inferInstanceAs (Decidable False)
  | width :: widths, offset =>
      have := decidableCutShort least most widths (offset - width)
      inferInstanceAs (Decidable (if offset < width then
        kHeaderLen ≤ offset ∧ offset + least ≤ width ∧ width ≤ offset + most
      else CutShort least most widths (offset - width)))

/-- The offsets at which the reads end. -/
def boundaries : Nat → List Bytes → List Nat
  | _, [] => []
  | start, data :: reads =>
      (start + data.length) :: boundaries (start + data.length) reads

section Offsets

theorem cutShort_append {least most : Nat} (done pending : List Nat)
    (offset : Nat) :
    CutShort least most (done ++ pending) (done.sum + offset) ↔
      CutShort least most pending offset := by
  induction done with
  | nil => simp
  | cons width done induction =>
      have past : ¬ width + done.sum + offset < width := by omega
      have rest : width + done.sum + offset - width = done.sum + offset := by
        omega
      rw [List.cons_append, List.sum_cons, CutShort, if_neg past, rest]
      exact induction

/-- A cut that is short by one to `most` bytes is short by one byte or by at
least two. -/
theorem cutShort_two {widths : List Nat} {offset most : Nat}
    (short : CutShort 1 most widths offset)
    (notOne : ¬ CutShort 1 1 widths offset) :
    CutShort 2 most widths offset := by
  induction widths generalizing offset with
  | nil => exact short
  | cons width widths induction =>
      unfold CutShort at short notOne ⊢
      split at short
      · rename_i inside
        rw [if_pos inside] at notOne ⊢
        omega
      · rename_i outside
        rw [if_neg outside] at notOne ⊢
        exact induction short notOne

theorem boundaries_shift (shift start : Nat) (reads : List Bytes) :
    boundaries (shift + start) reads =
      (boundaries start reads).map (shift + ·) := by
  induction reads generalizing start with
  | nil => rfl
  | cons data reads induction =>
      simp only [boundaries, List.map_cons, Nat.add_assoc, induction]

end Offsets

def stream (packets : List (Packet codec)) : Bytes :=
  (packets.map Packet.bytes).flatten

def widths (packets : List (Packet codec)) : List Nat :=
  packets.map fun packet => packet.bytes.length

theorem length_stream (packets : List (Packet codec)) :
    (stream packets).length = (widths packets).sum := by
  simp [stream, widths, List.length_flatten, List.map_map,
    Function.comp_def]

/-- The messages stored by the frames of one read. -/
def stored (message : Std.ExtTreeMap Int64 Message)
    (packets : List (Packet codec)) : Std.ExtTreeMap Int64 Message :=
  packets.foldl (fun map packet => map.insert packet.rid packet.message)
    message

namespace RpcPacketParser

section Loop

theorem decodeLoop_next {parser next : RpcPacketParser Message}
    (again : parseStream codec parser = .ok (true, next)) :
    (decodeLoop codec).run parser = (decodeLoop codec).run next :=
  (decodeLoop codec).run_next (by simp [decodeLoop, again])

theorem decodeLoop_stop {parser next : RpcPacketParser Message}
    (stop : parseStream codec parser = .ok (false, next)) :
    (decodeLoop codec).run parser = .ok next :=
  (decodeLoop codec).run_leave (by simp [decodeLoop, stop])

theorem decodeLoop_fault {parser : RpcPacketParser Message} {fault : Fault}
    (faults : parseStream codec parser = .error fault) :
    (decodeLoop codec).run parser = .error fault :=
  (decodeLoop codec).run_leave (by simp [decodeLoop, faults])

/-- A complete frame at the front of the buffer is taken off it and the loop
goes on behind it. -/
theorem decodeLoop_frame {rid : Int64} {body tail : Bytes}
    {decoded : Option Message} (fits : body.length ≤ packetSizeMax)
    (decodes : decodeMessage codec body body.length = .ok decoded)
    (message : Std.ExtTreeMap Int64 Message) :
    (decodeLoop codec).run
        { buffer := frame rid body ++ tail, message := message } =
      (decodeLoop codec).run
        { buffer := tail
          message := decoded.elim message (message.insert rid) } :=
  decodeLoop_next (parseStream_frame fits decodes rfl)

theorem decodeLoop_packet (packet : Packet codec) (tail : Bytes)
    (message : Std.ExtTreeMap Int64 Message) :
    (decodeLoop codec).run
        { buffer := packet.bytes ++ tail, message := message } =
      (decodeLoop codec).run
        { buffer := tail
          message := message.insert packet.rid packet.message } :=
  decodeLoop_frame packet.fits packet.valid message

end Loop

/-- The residue of a stream in the buffer: a proper part of the next
frame. -/
def Residue (buffer : Bytes) (pending : List (Packet codec)) : Prop :=
  ∀ packet ∈ pending.head?, buffer.length < packet.bytes.length

private theorem inside_or_outside {packet : Packet codec}
    {buffer future tail : Bytes}
    (split : buffer ++ future = packet.bytes ++ tail) :
    ((∃ missing, buffer ++ missing = packet.bytes) ∧
      buffer.length < packet.bytes.length) ∨
    ∃ rest, buffer = packet.bytes ++ rest ∧ rest ++ future = tail := by
  have cut : buffer <+: packet.bytes ++ tail := ⟨future, split⟩
  rcases within_or_behind cut with inside | ⟨rest, rfl, _⟩
  · exact .inl inside
  · rw [List.append_assoc] at split
    exact .inr ⟨rest, rfl, List.append_cancel_left split⟩

theorem stream_cons (packet : Packet codec)
    (packets : List (Packet codec)) :
    stream (packet :: packets) = packet.bytes ++ stream packets := by
  simp [stream]

private theorem length_bytes (packet : Packet codec) :
    packet.bytes.length = kHeaderLen + packet.body.length :=
  length_frame packet.rid packet.body

/-- A part of a frame stays in the buffer unless it lacks at most the length
of a header. -/
private theorem parseStream_part {packet : Packet codec}
    {buffer missing : Bytes} {message : Std.ExtTreeMap Int64 Message}
    (isPrefix : buffer ++ missing = packet.bytes)
    (early : ¬ (kHeaderLen ≤ buffer.length ∧
      packet.bytes.length ≤ buffer.length + kHeaderLen)) :
    parseStream codec { buffer := buffer, message := message } =
      .ok (false, { buffer := buffer, message := message }) := by
  have width := length_bytes packet
  simp only [kHeaderLen] at early width
  by_cases short : buffer.length < 12
  · exact parseStream_short short
  · have header : 12 ≤ buffer.length := Nat.le_of_not_lt short
    have field : packetlen ({ buffer := buffer, message := message } :
        RpcPacketParser Message) = packet.body.length :=
      packetlen_of_prefix (length_narrow packet.fits) header isPrefix
    exact parseStream_wait header (by rw [field]; simp only; omega)

/-- A part of a frame that lacks two to twelve bytes is read past its end. -/
private theorem parseStream_early {packet : Packet codec}
    {buffer missing : Bytes} {message : Std.ExtTreeMap Int64 Message}
    (isPrefix : buffer ++ missing = packet.bytes)
    (header : kHeaderLen ≤ buffer.length)
    (short : buffer.length + 2 ≤ packet.bytes.length)
    (early : packet.bytes.length ≤ buffer.length + kHeaderLen) :
    parseStream codec { buffer := buffer, message := message } =
      .error .outOfBounds := by
  have width := length_bytes packet
  simp only [kHeaderLen] at header early width
  have field : packetlen ({ buffer := buffer, message := message } :
      RpcPacketParser Message) = packet.body.length :=
    packetlen_of_prefix (length_narrow packet.fits) header isPrefix
  refine parseStream_fault header (by rw [field]; simp only; omega)
    (by rw [field]; exact packet.fits) ?_
  rw [field]
  exact decodeMessage_short packet.long packet.fits
    (by simp [kHeaderLen]; omega)

/-- Decoding a prefix of the stream takes its complete frames, provided the
prefix does not end short of a frame. -/
theorem decodeLoop_prefix (packets : List (Packet codec)) :
    ∀ (buffer future : Bytes) (message : Std.ExtTreeMap Int64 Message),
      buffer ++ future = stream packets →
      ¬ CutShort 1 kHeaderLen (widths packets) buffer.length →
      ∃ done pending rest,
        packets = done ++ pending ∧ buffer = stream done ++ rest ∧
        rest ++ future = stream pending ∧ Residue rest pending ∧
        (decodeLoop codec).run { buffer := buffer, message := message } =
          .ok { buffer := rest, message := stored message done } := by
  induction packets with
  | nil =>
      intro buffer future message split _
      obtain ⟨rfl, rfl⟩ : buffer = [] ∧ future = [] := by
        simpa [stream] using split
      refine ⟨[], [], [], rfl, rfl, rfl, by simp [Residue], ?_⟩
      exact decodeLoop_stop (parseStream_short (by simp))
  | cons packet packets induction =>
      intro buffer future message split uncut
      rw [stream_cons] at split
      rw [widths, List.map_cons, CutShort] at uncut
      rcases inside_or_outside split with
        ⟨⟨missing, isPrefix⟩, inside⟩ | ⟨rest, rfl, restSplit⟩
      · rw [if_pos inside] at uncut
        refine ⟨[], packet :: packets, buffer, rfl, by simp [stream],
          by rw [stream_cons, split], by simpa [Residue] using inside, ?_⟩
        exact decodeLoop_stop (parseStream_part isPrefix (by omega))
      · rw [List.length_append, if_neg (by omega), Nat.add_sub_cancel_left]
          at uncut
        obtain ⟨done, pending, last, rfl, rfl, lastSplit, residue, run⟩ :=
          induction rest future (message.insert packet.rid packet.message)
            restSplit uncut
        refine ⟨packet :: done, pending, last, rfl, ?_, lastSplit, residue, ?_⟩
        · rw [stream_cons, List.append_assoc]
        · rw [decodeLoop_packet, run]
          rfl

/-- Decoding a prefix that ends two to twelve bytes short of a frame reads
outside the buffer. -/
theorem decodeLoop_early (packets : List (Packet codec)) :
    ∀ (buffer future : Bytes) (message : Std.ExtTreeMap Int64 Message),
      buffer ++ future = stream packets →
      CutShort 2 kHeaderLen (widths packets) buffer.length →
      (decodeLoop codec).run { buffer := buffer, message := message } =
        .error .outOfBounds := by
  induction packets with
  | nil =>
      intro buffer future message _ cut
      exact cut.elim
  | cons packet packets induction =>
      intro buffer future message split cut
      rw [stream_cons] at split
      rw [widths, List.map_cons, CutShort] at cut
      rcases inside_or_outside split with
        ⟨⟨missing, isPrefix⟩, inside⟩ | ⟨rest, rfl, restSplit⟩
      · rw [if_pos inside] at cut
        obtain ⟨header, short, early⟩ := cut
        exact decodeLoop_fault
          (parseStream_early isPrefix header short early)
      · rw [List.length_append, if_neg (by omega), Nat.add_sub_cancel_left]
          at cut
        rw [decodeLoop_packet]
        exact induction rest future _ restSplit cut

private theorem drainLoop_run
    (state : RpcPacketParser Message × List (Int64 × Message)) :
    drainLoop.run state = (state.2 ++ state.1.message.toList,
      { state.1 with message := ∅ }) := by
  induction state using drainLoop.induct with
  | round state induction =>
      cases entries : state.1.message.toList with
      | nil =>
          have empty : state.1.message = ∅ :=
            Std.ExtTreeMap.toList_eq_nil_iff.mp entries
          have leaves : drainLoop.body state = .inr (state.2, state.1) := by
            simp [drainLoop, getMessage, entries]
          rw [drainLoop.run_leave leaves, ← empty, List.append_nil]
      | cons entry rest =>
          obtain ⟨rid, message⟩ := entry
          have round : drainLoop.body state = .inl
              ({ state.1 with message := state.1.message.erase rid },
                state.2 ++ [(rid, message)]) := by
            simp [drainLoop, getMessage, entries]
          rw [drainLoop.run_next round, induction _ round,
            OrderedMap.toList_erase_first _ entries]
          simp

/-- Draining takes the stored messages in the order of their ids and leaves
none. -/
theorem drain_eq (parser : RpcPacketParser Message) :
    drain parser =
      (parser.message.toList, { parser with message := ∅ }) := by
  rw [drain, drainLoop_run, List.nil_append]

/-- Frames with distinct ids are all kept. -/
theorem stored_toList (packets : List (Packet codec))
    (distinct : (packets.map Packet.rid).Nodup) :
    (stored ∅ packets).toList.Perm (packets.map Packet.pair) := by
  have inserted : stored ∅ packets = OrderedMap.insertAll ∅
      (packets.map Packet.pair) := by
    rw [OrderedMap.insertAll, List.foldl_map]
    rfl
  rw [inserted]
  apply OrderedMap.toList_insertAll
  simpa [List.map_map, Function.comp_def, Packet.pair] using distinct

section Reads

variable {buffer data future : Bytes} {packets : List (Packet codec)}

/-- A read that does not end short of a frame hands over the messages of
exactly the frames it completes. -/
theorem receive_uncut
    (split : buffer ++ data ++ future = stream packets)
    (distinct : (packets.map Packet.rid).Nodup)
    (uncut : ¬ CutShort 1 kHeaderLen (widths packets)
      (buffer.length + data.length)) :
    ∃ done pending rest taken,
      packets = done ++ pending ∧ rest ++ future = stream pending ∧
      Residue rest pending ∧
      buffer.length + data.length = (widths done).sum + rest.length ∧
      taken.Perm (done.map Packet.pair) ∧
      receive codec { buffer := buffer, message := ∅ } data =
        .ok (taken, { buffer := rest, message := ∅ }) := by
  obtain ⟨done, pending, rest, rfl, whole, restSplit, residue, run⟩ :=
    decodeLoop_prefix packets (buffer ++ data) future ∅ split
      (by rwa [List.length_append])
  have doneDistinct : (done.map Packet.rid).Nodup := by
    rw [List.map_append] at distinct
    exact distinct.of_append_left
  refine ⟨done, pending, rest, (stored ∅ done).toList, rfl, restSplit,
    residue, ?_, ?_, ?_⟩
  · have lengths := congrArg List.length whole
    simpa [length_stream] using lengths
  · exact stored_toList done doneDistinct
  · rw [receive, decode, run]
    exact congrArg Except.ok (drain_eq _)

private theorem boundaries_after {done pending : List (Packet codec)}
    {rest : Bytes} {reads : List Bytes} {least most : Nat}
    (offset : buffer.length + data.length =
      (widths done).sum + rest.length) :
    (∀ cut ∈ boundaries (buffer.length + data.length) reads,
        ¬ CutShort least most (widths (done ++ pending)) cut) ↔
      ∀ cut ∈ boundaries rest.length reads,
        ¬ CutShort least most (widths pending) cut := by
  rw [offset, boundaries_shift]
  simp only [List.forall_mem_map, widths, List.map_append, cutShort_append]

theorem receiveAll_uncut (reads : List Bytes) :
    ∀ (buffer : Bytes) (packets : List (Packet codec)),
      buffer ++ reads.flatten = stream packets → Residue buffer packets →
      (packets.map Packet.rid).Nodup →
      (∀ cut ∈ boundaries buffer.length reads,
        ¬ CutShort 1 kHeaderLen (widths packets) cut) →
      ∃ taken final,
        receiveAll codec { buffer := buffer, message := ∅ } reads =
          .ok (taken, final) ∧ taken.Perm (packets.map Packet.pair) := by
  induction reads with
  | nil =>
      intro buffer packets split residue _ _
      cases packets with
      | nil => exact ⟨[], _, rfl, List.Perm.refl _⟩
      | cons packet packets =>
          have partly : buffer.length < packet.bytes.length := by
            simpa [Residue] using residue
          have lengths := congrArg List.length split
          simp only [List.flatten_nil, List.append_nil, stream_cons,
            List.length_append] at lengths
          omega
  | cons data reads induction =>
      intro buffer packets split _ distinct uncut
      obtain ⟨uncutHere, uncutLater⟩ : ¬ CutShort 1 kHeaderLen
          (widths packets) (buffer.length + data.length) ∧ _ := by
        simpa only [boundaries, List.forall_mem_cons] using uncut
      rw [List.flatten_cons, ← List.append_assoc] at split
      obtain ⟨done, pending, rest, taken, rfl, restSplit, residue, offset,
        perm, received⟩ := receive_uncut split distinct uncutHere
      obtain ⟨later, final, run, laterPerm⟩ := induction rest pending restSplit
        residue (by rw [List.map_append] at distinct
                    exact distinct.of_append_right)
        ((boundaries_after offset).mp uncutLater)
      refine ⟨taken ++ later, final, ?_, ?_⟩
      · simp only [receiveAll, received, run, bind, Except.bind, pure,
          Except.pure]
      · rw [List.map_append]
        exact perm.append laterPerm

/-- Without a cut that is short by exactly one byte, a short cut makes the
parser read outside its buffer. -/
theorem receiveAll_cut (reads : List Bytes) :
    ∀ (buffer : Bytes) (packets : List (Packet codec)),
      buffer ++ reads.flatten = stream packets →
      (packets.map Packet.rid).Nodup →
      (∀ cut ∈ boundaries buffer.length reads,
        ¬ CutShort 1 1 (widths packets) cut) →
      (∃ cut ∈ boundaries buffer.length reads,
        CutShort 1 kHeaderLen (widths packets) cut) →
      receiveAll codec { buffer := buffer, message := ∅ } reads =
        .error .outOfBounds := by
  induction reads with
  | nil =>
      intro buffer packets _ _ _ cutSomewhere
      simp [boundaries] at cutSomewhere
  | cons data reads induction =>
      intro buffer packets split distinct notOne cutSomewhere
      obtain ⟨notOneHere, notOneLater⟩ : ¬ CutShort 1 1
          (widths packets) (buffer.length + data.length) ∧ _ := by
        simpa only [boundaries, List.forall_mem_cons] using notOne
      rw [List.flatten_cons, ← List.append_assoc] at split
      by_cases cutHere : CutShort 1 kHeaderLen (widths packets)
          (buffer.length + data.length)
      · have run := decodeLoop_early packets (buffer ++ data) reads.flatten ∅
          split (by rw [List.length_append]
                    exact cutShort_two cutHere notOneHere)
        simp only [receiveAll, receive, decode, run, Except.map, bind,
          Except.bind]
      · obtain ⟨done, pending, rest, taken, rfl, restSplit, _, offset, _,
          received⟩ := receive_uncut split distinct cutHere
        have cutLater : ∃ cut ∈ boundaries rest.length reads,
            CutShort 1 kHeaderLen (widths pending) cut := by
          by_contra uncutRest
          push Not at uncutRest
          obtain ⟨cut, member, short⟩ := cutSomewhere
          rcases List.mem_cons.mp member with rfl | laterMember
          · exact cutHere short
          · exact (boundaries_after offset).mpr uncutRest cut laterMember short
        have run := induction rest pending restSplit
          (by rw [List.map_append] at distinct
              exact distinct.of_append_right)
          ((boundaries_after offset).mp notOneLater) cutLater
        simp only [receiveAll, received, run, bind, Except.bind]

end Reads

end RpcPacketParser

/-- The reads give back exactly the encoded messages. -/
def Reassembles (codec : Codec Message Descriptor)
    (messages : List (Int64 × Message)) (reads : List Bytes) : Prop :=
  ∃ taken final, RpcPacketParser.receiveAll codec {} reads =
    .ok (taken, final) ∧ taken.Perm messages

/-- `frames` are the non-empty outputs of `encode` for the messages. -/
def Encodes (codec : Codec Message Descriptor)
    (messages : List (Int64 × Message)) (frames : List Bytes) : Prop :=
  List.Forall₂ (fun entry bytes =>
    codec.encode entry.2 entry.1 = .ok bytes ∧ bytes ≠ []) messages frames

private theorem packets_of_encodes (lawful : codec.Lawful)
    {messages : List (Int64 × Message)} {frames : List Bytes}
    (encoded : Encodes codec messages frames)
    (bounded : ∀ bytes ∈ frames, bytes.length ≤ kHeaderLen + packetSizeMax) :
    ∃ packets : List (Packet codec),
      packets.map Packet.pair = messages ∧
      packets.map Packet.bytes = frames := by
  induction encoded with
  | nil => exact ⟨[], rfl, rfl⟩
  | @cons entry bytes messages frames head _ induction =>
      obtain ⟨packet, pair, wire⟩ := packet_of_encode lawful head.1 head.2
        (bounded bytes (by simp))
      obtain ⟨packets, pairs, wires⟩ := induction
        fun other member => bounded other (by simp [member])
      exact ⟨packet :: packets, by simp [pair, pairs], by simp [wire, wires]⟩

/-- Every cut of a stream of encoded messages that ends no read inside the
last 12 bytes of a frame gives back exactly those messages.  Where no read
ends exactly one byte short of a frame, these are the only cuts that do. -/
theorem reads_reassemble (lawful : codec.Lawful)
    {messages : List (Int64 × Message)} {frames : List Bytes}
    (encoded : Encodes codec messages frames)
    (bounded : ∀ bytes ∈ frames, bytes.length ≤ kHeaderLen + packetSizeMax)
    (distinct : (messages.map Prod.fst).Nodup)
    {reads : List Bytes} (cut : reads.flatten = frames.flatten) :
    ((∀ offset ∈ boundaries 0 reads,
        ¬ CutShort 1 kHeaderLen (frames.map List.length) offset) →
      Reassembles codec messages reads) ∧
    ((∀ offset ∈ boundaries 0 reads,
        ¬ CutShort 1 1 (frames.map List.length) offset) →
      Reassembles codec messages reads →
      ∀ offset ∈ boundaries 0 reads,
        ¬ CutShort 1 kHeaderLen (frames.map List.length) offset) := by
  obtain ⟨packets, rfl, rfl⟩ := packets_of_encodes lawful encoded bounded
  have ridsDistinct : (packets.map Packet.rid).Nodup := by
    simpa [List.map_map, Function.comp_def, Packet.pair] using distinct
  have sizes : (packets.map Packet.bytes).map List.length = widths packets := by
    simp [widths, List.map_map, Function.comp_def]
  rw [sizes]
  constructor
  · intro uncut
    have residue : RpcPacketParser.Residue [] packets := by
      intro packet _
      simp [Packet.bytes, kHeaderLen]
    exact RpcPacketParser.receiveAll_uncut reads [] packets cut residue
      ridsDistinct uncut
  · rintro notOne ⟨taken, final, run, _⟩ offset member short
    have faults := RpcPacketParser.receiveAll_cut reads [] packets cut
      ridsDistinct notOne ⟨offset, member, short⟩
    simp [run] at faults

namespace Example

/-- The frames of `hello` with id 7 and of `world` with id 8. -/
def frames : List Bytes :=
  [(exampleCodec.encode hello 7).toOption.getD [],
    (exampleCodec.encode world 8).toOption.getD []]

private theorem frames_encode :
    Encodes exampleCodec [(7, hello), (8, world)] frames :=
  .cons (by decide) (.cons (by decide) .nil)

/-- The second read ends in the middle of the second frame's header. -/
theorem reads_reassemble_hello :
    Reassembles exampleCodec [(7, hello), (8, world)]
      [frames.flatten.take 20, (frames.flatten.drop 20).take 22,
        frames.flatten.drop 42] :=
  (reads_reassemble exampleCodec_lawful frames_encode (by decide) (by decide)
    (by decide)).1 (by decide)

/-- A read that ends one byte short of the frame loses the message: the
missing checksum byte is read as the terminating NUL of the buffer. -/
theorem reads_lose_hello :
    exampleCodec.Lawful ∧ Encodes exampleCodec [(7, hello), (8, world)] frames ∧
      (∀ bytes ∈ frames, bytes.length ≤ kHeaderLen + packetSizeMax) ∧
      ([((7 : Int64), hello), (8, world)].map Prod.fst).Nodup ∧
      [frames.flatten.take 34, frames.flatten.drop 34].flatten =
        frames.flatten ∧
      ¬ Reassembles exampleCodec [(7, hello), (8, world)]
        [frames.flatten.take 34, frames.flatten.drop 34] := by
  refine ⟨exampleCodec_lawful, frames_encode, by decide, by decide, by decide, ?_⟩
  rintro ⟨taken, final, run, perm⟩
  have received : (RpcPacketParser.receiveAll exampleCodec {}
      [frames.flatten.take 34, frames.flatten.drop 34]).toOption.map Prod.fst =
      some [] := by decide
  rw [run] at received
  obtain rfl : taken = [] := Option.some.inj received
  simpa using perm.length_eq

end Example

end Natsu.Rpc
