import Natsu.Rpc.Reassembly

/-!
# Streams of complete frames

A read that consists of complete frames is taken apart frame by frame.  A
frame with an invalid body is skipped, a valid one is stored under its id.
Where the frames have ids in increasing order, and only there, the messages
come out as the frames stand in the stream.  A frame beyond the size limit
makes the parser drop everything it holds.
-/

namespace Natsu.Rpc

open Natsu.Foundation

variable {Message Descriptor : Type}

namespace Codec

variable (codec : Codec Message Descriptor)

/-- The length of the type name, as the body of a frame gives it. -/
def nameLen (body : Bytes) : Int := toInt (ofLittleEndian (body.take 4))

def typeName (body : Bytes) : Bytes :=
  (body.drop 4).take (nameLen body).toNat

/-- What stands between the type name and the checksum. -/
def payload (body : Bytes) : Bytes :=
  (body.drop (4 + (nameLen body).toNat)).take
    (body.length - 8 - (nameLen body).toNat)

/-- The body is long enough, ends with its checksum, and has room for the name
it announces. -/
structure WellFormed (body : Bytes) : Prop where
  long : 10 ≤ body.length
  sealed : codec.checksum (body.take (body.length - 4)) =
    ofLittleEndian (body.drop (body.length - 4))
  named : 2 ≤ nameLen body
  room : nameLen body ≤ body.length - 8

/-- The body is that of a valid frame with this message. -/
def Valid (body : Bytes) (message : Message) : Prop :=
  codec.WellFormed body ∧
    ∃ fresh, codec.createMessage (typeName body) = some fresh ∧
      codec.parseFromArray fresh (payload body) = some message

end Codec

variable {codec : Codec Message Descriptor}

/-- The body of a complete frame decodes to a message exactly if it is valid
with it. -/
theorem decodeMessage_eq_some {body : Bytes} {message : Message}
    (fits : body.length ≤ packetSizeMax) :
    decodeMessage codec body body.length = .ok (some message) ↔
      codec.Valid body message := by
  have width : toInt body.length = body.length :=
    toInt_of_lt (by simp only [packetSizeMax] at fits; omega)
  unfold decodeMessage
  simp only [width]
  by_cases long : 10 ≤ body.length
  · have trailer : (body.drop (body.length - 4)).take 4 =
        body.drop (body.length - 4) :=
      List.take_of_length_le (by simp; omega)
    have summed : ((body.length : Int) - 4).toNat = body.length - 4 := by
      omega
    rw [if_pos (by omega), readBytes_of_le (by omega), ok_bind,
      readBytes_of_le (by omega), ok_bind, trailer, summed, List.drop_zero]
    by_cases sealed : codec.checksum (body.take (body.length - 4)) =
        ofLittleEndian (body.drop (body.length - 4))
    · have folded : toInt (ofLittleEndian (body.take 4)) =
          Codec.nameLen body := rfl
      rw [if_pos sealed, readBytes_of_le (by omega), ok_bind, List.drop_zero]
      simp only [folded]
      by_cases named : 2 ≤ Codec.nameLen body ∧
          Codec.nameLen body ≤ body.length - 8
      · have formed : codec.WellFormed body :=
          ⟨long, sealed, named.1, named.2⟩
        clear folded width
        have name : readBytes body 4 (Codec.nameLen body).toNat =
            .ok (Codec.typeName body) := readBytes_of_le (by omega)
        have rest : ((body.length : Int) - Codec.nameLen body - 8).toNat =
            body.length - 8 - (Codec.nameLen body).toNat := by omega
        have data : readBytes body (4 + (Codec.nameLen body).toNat)
            (body.length - 8 - (Codec.nameLen body).toNat) =
            .ok (Codec.payload body) := readBytes_of_le (by omega)
        rw [if_pos named, name, ok_bind, rest, data]
        cases created : codec.createMessage (Codec.typeName body) with
        | none =>
            refine iff_of_false (by simp [pure, Except.pure]) ?_
            rintro ⟨_, fresh, found, _⟩
            simp [created] at found
        | some fresh =>
            simp only [ok_bind, pure, Except.pure, Except.ok.injEq]
            constructor
            · intro parsed
              exact ⟨formed, fresh, created, parsed⟩
            · rintro ⟨_, other, found, parsed⟩
              rw [created] at found
              rwa [Option.some.inj found]
      · rw [if_neg named]
        refine iff_of_false (by simp [pure, Except.pure]) ?_
        rintro ⟨formed, _⟩
        exact named ⟨formed.named, formed.room⟩
    · rw [if_neg sealed]
      refine iff_of_false (by simp [pure, Except.pure]) ?_
      rintro ⟨formed, _⟩
      exact sealed formed.sealed
  · rw [if_neg (by omega)]
    refine iff_of_false (by simp [pure, Except.pure]) ?_
    rintro ⟨formed, _⟩
    exact long formed.long

/-- The bytes of complete frames, each given by its id and its body. -/
def wire (frames : List (Int64 × Bytes)) : Bytes :=
  (frames.map fun entry => frame entry.1 entry.2).flatten

theorem wire_cons (rid : Int64) (body : Bytes)
    (frames : List (Int64 × Bytes)) :
    wire ((rid, body) :: frames) = frame rid body ++ wire frames := by
  simp [wire]

/-- The messages of the valid frames, in the order of the frames. -/
inductive Delivers (codec : Codec Message Descriptor) :
    List (Int64 × Bytes) → List (Int64 × Message) → Prop where
  | nil : Delivers codec [] []
  | valid {rid : Int64} {body : Bytes} {message : Message}
      {frames : List (Int64 × Bytes)} {pairs : List (Int64 × Message)}
      (head : codec.Valid body message) (tail : Delivers codec frames pairs) :
      Delivers codec ((rid, body) :: frames) ((rid, message) :: pairs)
  | invalid {rid : Int64} {body : Bytes}
      {frames : List (Int64 × Bytes)} {pairs : List (Int64 × Message)}
      (head : ∀ message, ¬ codec.Valid body message)
      (tail : Delivers codec frames pairs) :
      Delivers codec ((rid, body) :: frames) pairs

theorem Codec.Valid.unique {body : Bytes} {message other : Message}
    (valid : codec.Valid body message) (otherValid : codec.Valid body other) :
    message = other := by
  obtain ⟨_, fresh, created, parsed⟩ := valid
  obtain ⟨_, otherFresh, otherCreated, otherParsed⟩ := otherValid
  obtain rfl : fresh = otherFresh :=
    Option.some.inj (created.symm.trans otherCreated)
  exact Option.some.inj (parsed.symm.trans otherParsed)

theorem Delivers.unique {frames : List (Int64 × Bytes)}
    {pairs others : List (Int64 × Message)}
    (delivers : Delivers codec frames pairs)
    (otherwise : Delivers codec frames others) : pairs = others := by
  induction delivers generalizing others with
  | nil =>
      cases otherwise
      rfl
  | valid head _ induction =>
      cases otherwise with
      | valid otherHead otherTail =>
          rw [head.unique otherHead, induction otherTail]
      | invalid otherHead _ => exact absurd head (otherHead _)
  | invalid head _ induction =>
      cases otherwise with
      | valid otherHead _ => exact absurd otherHead (head _)
      | invalid _ otherTail => exact induction otherTail

namespace RpcPacketParser

/-- The loop stores the messages of the valid frames and passes over the
others. -/
theorem decodeLoop_wire (frames : List (Int64 × Bytes)) :
    ∀ map : Std.ExtTreeMap Int64 Message,
      (∀ entry ∈ frames, entry.2.length ≤ packetSizeMax) →
      ∃ pairs, Delivers codec frames pairs ∧
        (decodeLoop codec).run { buffer := wire frames, message := map } =
          .ok { buffer := [], message := OrderedMap.insertAll map pairs } := by
  induction frames with
  | nil =>
      intro map _
      exact ⟨[], .nil, decodeLoop_stop (parseStream_short (by simp [wire]))⟩
  | cons entry frames induction =>
      intro map fits
      obtain ⟨rid, body⟩ := entry
      obtain ⟨headFits, tailFits⟩ := List.forall_mem_cons.mp fits
      obtain ⟨decoded, decodes⟩ : ∃ decoded,
          decodeMessage codec body body.length = .ok decoded :=
        decodeMessage_complete headFits
      obtain ⟨pairs, delivers, run⟩ :=
        induction (decoded.elim map (map.insert rid)) tailFits
      rw [wire_cons, decodeLoop_frame headFits decodes, run]
      cases decoded with
      | none =>
          refine ⟨pairs, .invalid ?_ delivers, rfl⟩
          intro message valid
          rw [(decodeMessage_eq_some headFits).mpr valid] at decodes
          simp at decodes
      | some message =>
          have valid := (decodeMessage_eq_some headFits).mp decodes
          exact ⟨(rid, message) :: pairs, .valid valid delivers, rfl⟩

theorem decodeLoop_stream (packets : List (Packet codec)) :
    ∀ map : Std.ExtTreeMap Int64 Message,
      (decodeLoop codec).run { buffer := stream packets, message := map } =
        .ok { buffer := [], message := stored map packets } := by
  induction packets with
  | nil =>
      intro map
      exact decodeLoop_stop (parseStream_short (by simp [stream]))
  | cons packet packets induction =>
      intro map
      rw [stream_cons, decodeLoop_packet, induction]
      rfl

end RpcPacketParser

/-- One `Decode` call takes every frame off the stream, and draining returns
the messages of the valid ones.  What `encode` produces is valid. -/
theorem frames_isolated (codec : Codec Message Descriptor)
    (frames : List (Int64 × Bytes))
    (fits : ∀ entry ∈ frames, entry.2.length ≤ packetSizeMax) :
    (∃ pairs,
      (∀ others, Delivers codec frames others ↔ others = pairs) ∧
      ((pairs.map Prod.fst).Nodup →
        ∃ parser taken,
          RpcPacketParser.decode codec {} (wire frames) = .ok parser ∧
          parser.buffer = [] ∧
          RpcPacketParser.drain parser = (taken, {}) ∧
          taken.Perm pairs)) ∧
    (codec.Lawful → ∀ (message : Message) (rid : Int64) (encoded : Bytes),
      codec.encode message rid = .ok encoded → encoded ≠ [] →
      encoded.length ≤ kHeaderLen + packetSizeMax →
      ∃ body, encoded = frame rid body ∧ codec.Valid body message) := by
  constructor
  · obtain ⟨pairs, delivers, run⟩ : ∃ pairs, Delivers codec frames pairs ∧ _ :=
      RpcPacketParser.decodeLoop_wire frames ∅ fits
    refine ⟨pairs, ?_, ?_⟩
    · intro others
      constructor
      · intro otherwise
        exact otherwise.unique delivers
      · rintro rfl
        exact delivers
    · intro distinct
      refine ⟨_, _, run, rfl, RpcPacketParser.drain_eq _, ?_⟩
      exact OrderedMap.toList_insertAll distinct
  · intro lawful message rid encoded success nonempty bounded
    obtain ⟨packet, pair, rfl⟩ :=
      packet_of_encode lawful success nonempty bounded
    obtain ⟨rfl, rfl⟩ := Prod.mk.inj pair
    exact ⟨packet.body, rfl,
      (decodeMessage_eq_some packet.fits).mp packet.valid⟩

namespace Example

def helloBody : Bytes :=
  ((exampleCodec.encode hello 7).toOption.getD []).drop kHeaderLen

def worldBody : Bytes :=
  ((exampleCodec.encode world 8).toOption.getD []).drop kHeaderLen

/-- A frame that is too short to hold anything stands between two valid
ones. -/
def mixedFrames : List (Int64 × Bytes) :=
  [(8, worldBody), (9, [1, 2, 3]), (7, helloBody)]

private theorem mixedFrames_deliver :
    Delivers exampleCodec mixedFrames [(8, world), (7, hello)] := by
  apply Delivers.valid ((decodeMessage_eq_some (by decide)).mp (by decide))
  apply Delivers.invalid
  · intro message valid
    have short := valid.1.long
    simp at short
  · apply Delivers.valid ((decodeMessage_eq_some (by decide)).mp (by decide))
    exact .nil

theorem frames_isolated_mixed :
    ∃ parser taken,
      RpcPacketParser.decode exampleCodec {} (wire mixedFrames) =
        .ok parser ∧
      parser.buffer = [] ∧ RpcPacketParser.drain parser = (taken, {}) ∧
      taken.Perm [(8, world), (7, hello)] := by
  obtain ⟨pairs, delivered, received⟩ := (frames_isolated exampleCodec
    mixedFrames (by decide)).1
  obtain rfl := (delivered _).mp mixedFrames_deliver
  exact received (by decide)

end Example

private theorem receive_stream (packets : List (Packet codec)) :
    RpcPacketParser.receive codec {} (stream packets) =
      .ok ((stored ∅ packets).toList, {}) := by
  rw [RpcPacketParser.receive, RpcPacketParser.decode]
  simp only [List.nil_append]
  rw [RpcPacketParser.decodeLoop_stream packets ∅]
  exact congrArg Except.ok (RpcPacketParser.drain_eq _)

/-- One `Decode` call and the draining after it return the messages of valid
frames as these stand in the stream exactly if their ids increase. -/
theorem receive_in_order_iff (codec : Codec Message Descriptor)
    (packets : List (Packet codec)) :
    RpcPacketParser.receive codec {} (stream packets) =
        .ok (packets.map Packet.pair, {}) ↔
      (packets.map Packet.rid).Pairwise (· < ·) := by
  rw [receive_stream]
  constructor
  · intro same
    have listed : (stored ∅ packets).toList = packets.map Packet.pair :=
      (Prod.mk.inj (Except.ok.inj same)).1
    have ordered := (stored ∅ packets).ordered_keys_toList
    rw [listed, List.pairwise_map] at ordered
    rw [List.pairwise_map]
    refine ordered.imp ?_
    intro left right before
    exact Std.compare_eq_lt.mp before
  · intro increasing
    have distinct : (packets.map Packet.rid).Nodup :=
      increasing.imp fun before => Std.ne_of_lt before
    have perm := RpcPacketParser.stored_toList packets distinct
    rw [OrderedMap.toList_eq_of_perm _ perm]
    rw [List.pairwise_map]
    rw [List.pairwise_map] at increasing
    refine increasing.imp ?_
    intro left right before
    exact Std.compare_eq_lt.mpr before

namespace Example

def helloPacket (rid : Int64) : Packet exampleCodec where
  rid := rid
  message := hello
  body := helloBody
  long := by decide
  fits := by decide
  valid := by decide

def worldPacket (rid : Int64) : Packet exampleCodec where
  rid := rid
  message := world
  body := worldBody
  long := by decide
  fits := by decide
  valid := by decide

/-- A later frame with the smaller id overtakes, and of two frames with one id
the first is lost. -/
theorem receive_out_of_order :
    RpcPacketParser.receive exampleCodec {}
        (stream [worldPacket 8, helloPacket 7]) ≠
      .ok ([(8, world), (7, hello)], {}) ∧
    RpcPacketParser.receive exampleCodec {}
        (stream [helloPacket 7, worldPacket 7]) ≠
      .ok ([(7, hello), (7, world)], {}) := by
  have overtaken : (RpcPacketParser.receive exampleCodec {}
      (stream [worldPacket 8, helloPacket 7])).toOption.map Prod.fst =
      some [(7, hello), (8, world)] := by decide
  have lost : (RpcPacketParser.receive exampleCodec {}
      (stream [helloPacket 7, worldPacket 7])).toOption.map Prod.fst =
      some [(7, world)] := by decide
  constructor
  · intro same
    rw [same] at overtaken
    revert overtaken
    decide
  · intro same
    rw [same] at lost
    revert lost
    decide

end Example

/-- The sizes that protobuf allows: a message serialises to less than 2 GiB,
and so does the descriptor of a file, in which a type name stands with the
tags and lengths around it. -/
structure Codec.SizeLimited (codec : Codec Message Descriptor) : Prop where
  payload : ∀ {message payload}, codec.appendToString message = some payload →
    payload.length < 2 ^ 31
  typeName : ∀ message, (codec.getTypeName message).length + 8 < 2 ^ 31

/-- A fresh parser that is given `encoded` and then the other frames yields
the message and all the following ones. -/
def Yields (codec : Codec Message Descriptor) (entry : Int64 × Message)
    (encoded : Bytes) (following : List (Packet codec)) : Prop :=
  ∃ taken final,
    RpcPacketParser.receive codec {} (encoded ++ stream following) =
      .ok (taken, final) ∧
    taken.Perm (entry :: following.map Packet.pair)

private theorem yields_iff_distinct (packet : Packet codec)
    (following : List (Packet codec)) :
    Yields codec packet.pair packet.bytes following ↔
      (packet.rid :: following.map Packet.rid).Nodup := by
  rw [Yields, ← RpcPacketParser.stream_cons, receive_stream]
  constructor
  · rintro ⟨taken, final, received, perm⟩
    obtain ⟨rfl, _⟩ := Prod.mk.inj (Except.ok.inj received)
    have distinct := (perm.map Prod.fst).nodup_iff.mp
      (OrderedMap.nodup_keys _)
    simpa [Packet.pair, List.map_map, Function.comp_def] using distinct
  · intro distinct
    exact ⟨_, _, rfl,
      RpcPacketParser.stored_toList (packet :: following) distinct⟩

/-- A frame beyond the limit makes the parser drop its whole buffer. -/
private theorem receive_oversize {rid : Int64} {body : Bytes}
    (oversize : packetSizeMax < body.length) (narrow : body.length < 2 ^ 32)
    (following : Bytes) :
    RpcPacketParser.receive codec {} (frame rid body ++ following) =
      .ok ([], {}) := by
  let parser : RpcPacketParser Message :=
    { buffer := frame rid body ++ following }
  have field : parser.packetlen = body.length :=
    RpcPacketParser.packetlen_frame narrow rfl
  have width : parser.buffer.length =
      kHeaderLen + body.length + following.length := by
    simp [parser]
  simp only [kHeaderLen] at width
  have drops : RpcPacketParser.parseStream codec parser =
      .ok (false, { parser with buffer := [] }) :=
    RpcPacketParser.parseStream_oversize (by omega) (by omega) (by omega)
  rw [RpcPacketParser.receive, RpcPacketParser.decode]
  simp only [List.nil_append]
  rw [RpcPacketParser.decodeLoop_stop drops]
  exact congrArg Except.ok (RpcPacketParser.drain_eq _)

private theorem not_yields_oversize {entry : Int64 × Message}
    {rid : Int64} {body : Bytes} (oversize : packetSizeMax < body.length)
    (narrow : body.length < 2 ^ 32) (following : List (Packet codec)) :
    ¬ Yields codec entry (frame rid body) following := by
  rintro ⟨taken, final, received, perm⟩
  rw [receive_oversize oversize narrow] at received
  obtain ⟨rfl, _⟩ := Prod.mk.inj (Except.ok.inj received)
  simpa using perm.length_eq

private theorem length_body_narrow (limited : codec.SizeLimited)
    {message : Message} {payload : Bytes} {checksum : Nat}
    (serialized : codec.appendToString message = some payload) :
    (summedPart codec message payload ++
      littleEndian 4 checksum).length < 2 ^ 32 := by
  have small := limited.payload serialized
  have name := limited.typeName message
  simp only [summedPart, List.length_append, length_littleEndian,
    List.length_singleton]
  omega

/-- A frame that `encode` produces and any valid frames behind it are all
received exactly if its body is within the limit of the decoder and no two of
the frames have the same id. -/
theorem encoded_yields_iff (lawful : codec.Lawful)
    (limited : codec.SizeLimited) {message : Message} {rid : Int64}
    {encoded : Bytes} (success : codec.encode message rid = .ok encoded)
    (nonempty : encoded ≠ []) (following : List (Packet codec)) :
    Yields codec (rid, message) encoded following ↔
      encoded.length ≤ kHeaderLen + packetSizeMax ∧
        (rid :: following.map Packet.rid).Nodup := by
  by_cases bounded : encoded.length ≤ kHeaderLen + packetSizeMax
  · obtain ⟨packet, pair, rfl⟩ :=
      packet_of_encode lawful success nonempty bounded
    obtain ⟨rfl, rfl⟩ := Prod.mk.inj pair
    rw [and_iff_right bounded]
    exact yields_iff_distinct packet following
  · obtain ⟨payload, serialized, rfl⟩ :=
      encode_frame lawful success nonempty
    refine iff_of_false ?_ fun within => bounded within.1
    rw [length_frame] at bounded
    exact not_yields_oversize (by omega)
      (length_body_narrow limited serialized) following

namespace Example

theorem exampleCodec_sizeLimited : exampleCodec.SizeLimited where
  payload := by
    intro message payload serialized
    obtain rfl := Option.some.inj serialized
    have short := message.short
    simp only [List.length_cons]
    omega
  typeName message := by
    cases kind : message.kind <;> simp only [exampleCodec, kind] <;> decide

theorem encoded_yields_hello :
    Yields exampleCodec (7, hello) (frame 7 helloBody) [worldPacket 8] :=
  (encoded_yields_iff exampleCodec_lawful exampleCodec_sizeLimited
    (by decide) (by decide) [worldPacket 8]).mpr (by decide)

/-- A request of `example/rpc.proto` with a text of up to 16383 bytes. -/
structure LongRequest where
  data : Bytes
  bounded : data.length < 16384

/-- The length of a text in base 128. -/
def varint (number : Nat) : Bytes :=
  if number < 128 then [UInt8.ofNat number]
  else [UInt8.ofNat (number % 128 + 128), UInt8.ofNat (number / 128)]

def parseLongRequest : Bytes → Option LongRequest
  | 10 :: rest =>
      let data := rest.drop (if rest.length ≤ 128 then 1 else 2)
      if bounded : data.length < 16384 then
        if varint data.length ++ data = rest then
          some { data := data, bounded := bounded }
        else none
      else none
  | _ => none

def longCodec : Codec LongRequest Unit where
  adler32 := adler32
  getTypeName _ := Kind.req.name
  appendToString message :=
    some (10 :: (varint message.data.length ++ message.data))
  findMessageTypeByName name :=
    if cstr name = Kind.req.name then some () else none
  getPrototype _ := some { data := [], bounded := by decide }
  new message := message
  parseFromArray _ := parseLongRequest

private theorem length_varint (number : Nat) :
    (varint number).length = if number < 128 then 1 else 2 := by
  unfold varint
  split <;> rfl

private theorem parseLongRequest_serialized (message : LongRequest) :
    parseLongRequest (10 :: (varint message.data.length ++ message.data)) =
      some message := by
  have stripped : (varint message.data.length ++ message.data).drop
      (if (varint message.data.length ++ message.data).length ≤ 128
        then 1 else 2) = message.data := by
    apply List.drop_left'
    rw [List.length_append, length_varint]
    split <;> split <;> omega
  simp only [parseLongRequest, stripped]
  rw [dif_pos message.bounded, if_pos True.intro]

theorem longCodec_lawful : longCodec.Lawful where
  typeName_ne_nil _ := by simp only [longCodec]; decide
  typeName_short _ := by simp only [longCodec]; decide
  typeName_noNul _ := by simp only [longCodec]; decide
  find_cstr name := by simp only [longCodec, cstr_cstr]
  registered _ := ⟨{ data := [], bounded := by decide }, rfl⟩
  parse_serialize := by
    intro message payload fresh serialized _
    obtain rfl := Option.some.inj serialized
    exact parseLongRequest_serialized message

theorem longCodec_sizeLimited : longCodec.SizeLimited where
  payload := by
    intro message payload serialized
    obtain rfl := Option.some.inj serialized
    have bounded := message.bounded
    simp only [List.length_cons, List.length_append, length_varint]
    split <;> omega
  typeName _ := by simp only [longCodec]; decide

/-- A request with 5000 letters. -/
def longRequest : LongRequest where
  data := List.replicate 5000 97
  bounded := by rw [List.length_replicate]; omega

theorem long_request_lost :
    longCodec.Lawful ∧ longCodec.SizeLimited ∧
      ∃ encoded, longCodec.encode longRequest 7 = .ok encoded ∧
        encoded ≠ [] ∧ ¬ Yields longCodec (7, longRequest) encoded [] := by
  refine ⟨longCodec_lawful, longCodec_sizeLimited, _,
    encode_of_serialized longCodec_lawful rfl, ?_, ?_⟩
  · apply List.ne_nil_of_length_pos
    rw [length_frame, kHeaderLen]
    omega
  · apply not_yields_oversize
    · have text : longRequest.data.length = 5000 := List.length_replicate
      simp only [summedPart, packetSizeMax, List.length_append,
        List.length_cons, text]
      omega
    · exact length_body_narrow longCodec_sizeLimited rfl

end Example

end Natsu.Rpc
