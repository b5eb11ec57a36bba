import Natsu.Rpc.Packet

/-!
# Decoding of complete frames

A frame that is completely in the buffer is decoded from its own bytes alone,
and `encode` produces frames that decode to the encoded message.
-/

namespace Natsu.Rpc

open Natsu.Foundation

variable {Message Descriptor : Type} {codec : Codec Message Descriptor}

section Reads

theorem ok_bind {α β : Type} (value : α) (next : α → Except Fault β) :
    (Except.ok value >>= next) = next value := rfl

theorem readBytes_of_le {memory : Bytes} {offset count : Nat}
    (inside : offset + count ≤ memory.length) :
    readBytes memory offset count = .ok ((memory.drop offset).take count) :=
  if_pos inside

theorem readBytes_append {memory : Bytes} {offset count : Nat}
    (inside : offset + count ≤ memory.length) (tail : Bytes) :
    readBytes (memory ++ tail) offset count =
      readBytes memory offset count := by
  rw [readBytes_of_le inside, readBytes_of_le (by simp; omega),
    List.drop_append_of_le_length (by omega),
    List.take_append_of_le_length (by simp; omega)]

theorem readBytes_outside {memory : Bytes} {offset count : Nat}
    (outside : memory.length < offset + count) :
    readBytes memory offset count = .error .outOfBounds :=
  if_neg (Nat.not_le.mpr outside)

end Reads

section Bodies

variable {body : Bytes} (fits : body.length ≤ packetSizeMax)

include fits

theorem length_narrow : body.length < 2 ^ 32 := by
  simp only [packetSizeMax] at fits
  omega

private theorem toInt_length : toInt body.length = body.length :=
  toInt_of_lt (by simp only [packetSizeMax] at fits; omega)

/-- Decoding a body that is completely there reads nothing after it. -/
theorem decodeMessage_append (tail : Bytes) :
    decodeMessage codec (body ++ tail) body.length =
      decodeMessage codec body body.length := by
  unfold decodeMessage
  simp only [toInt_length fits]
  split
  · rename_i long
    rw [readBytes_append (by omega), readBytes_of_le (by omega), ok_bind,
      ok_bind, readBytes_append (by omega), readBytes_of_le (by omega),
      ok_bind, ok_bind]
    split
    · rw [readBytes_append (by omega), readBytes_of_le (by omega), ok_bind,
        ok_bind]
      split
      · rename_i nameBounds
        rw [readBytes_append (by omega), readBytes_of_le (by omega), ok_bind,
          ok_bind]
        split
        · rw [readBytes_append (by omega)]
        · rfl
      · rfl
    · rfl
  · rfl

/-- Decoding a body that is completely there does not read outside it. -/
theorem decodeMessage_complete :
    ∃ decoded, decodeMessage codec body body.length = .ok decoded := by
  unfold decodeMessage
  simp only [toInt_length fits]
  split
  · rename_i long
    rw [readBytes_of_le (by omega), ok_bind, readBytes_of_le (by omega),
      ok_bind]
    split
    · rw [readBytes_of_le (by omega), ok_bind]
      split
      · rename_i nameBounds
        rw [readBytes_of_le (by omega), ok_bind]
        split
        · rw [readBytes_of_le (by omega)]
          exact ⟨_, rfl⟩
        · exact ⟨_, rfl⟩
      · exact ⟨_, rfl⟩
    · exact ⟨_, rfl⟩
  · exact ⟨_, rfl⟩

end Bodies

/-- A body that is not completely there is read past its end. -/
theorem decodeMessage_short {buf : Bytes} {bufferlength : Nat}
    (long : 10 ≤ bufferlength) (fits : bufferlength ≤ packetSizeMax)
    (short : buf.length < bufferlength) :
    decodeMessage codec buf bufferlength = .error .outOfBounds := by
  unfold decodeMessage
  rw [toInt_of_lt (by simp only [packetSizeMax] at fits; omega)]
  simp only
  rw [if_pos (by omega), readBytes_outside (by omega)]
  rfl

def frame (rid : Int64) (body : Bytes) : Bytes :=
  littleEndian 4 body.length ++ littleEndian 8 rid.toUInt64.toNat ++ body

@[simp] theorem length_frame (rid : Int64) (body : Bytes) :
    (frame rid body).length = kHeaderLen + body.length := by
  simp only [frame, kHeaderLen, List.length_append, length_littleEndian]

namespace RpcPacketParser

variable {parser : RpcPacketParser Message} {rid : Int64} {body : Bytes}

/-- The length field is readable as soon as the header is there. -/
theorem packetlen_of_prefix {rest : Bytes}
    (narrow : body.length < 2 ^ 32)
    (header : 12 ≤ parser.buffer.length)
    (isPrefix : parser.buffer ++ rest = frame rid body) :
    parser.packetlen = body.length := by
  have field : parser.buffer.take 4 = littleEndian 4 body.length := by
    have taken := congrArg (List.take 4) isPrefix
    rw [List.take_append_of_le_length (by omega)] at taken
    rw [taken, frame, List.append_assoc,
      List.take_append_of_le_length (by simp)]
    exact List.take_of_length_le (by simp)
  rw [packetlen, field, ofLittleEndian_littleEndian]
  omega

private theorem rid_frame {tail : Bytes}
    (holds : parser.buffer = frame rid body ++ tail) : parser.rid = rid := by
  have field : (parser.buffer.drop 4).take 8 =
      littleEndian 8 rid.toUInt64.toNat := by
    rw [holds, frame, List.append_assoc, List.append_assoc,
      List.drop_append_of_le_length (by simp),
      List.drop_of_length_le (by simp), List.nil_append,
      List.take_append_of_le_length (by simp)]
    exact List.take_of_length_le (by simp)
  have small : rid.toUInt64.toNat < 2 ^ 64 := rid.toUInt64.toNat_lt
  rw [RpcPacketParser.rid, field, ofLittleEndian_littleEndian,
    Nat.mod_eq_of_lt (by omega), UInt64.ofNat_toNat]
  exact rid.toInt64_toUInt64

theorem packetlen_frame {tail : Bytes}
    (narrow : body.length < 2 ^ 32)
    (holds : parser.buffer = frame rid body ++ tail) :
    parser.packetlen = body.length := by
  have same : parser.packetlen =
      packetlen { parser with buffer := frame rid body } := by
    simp only [packetlen, holds]
    rw [List.take_append_of_le_length (by simp [kHeaderLen]; omega)]
  rw [same]
  have whole : frame rid body ++ [] = frame rid body := List.append_nil _
  exact packetlen_of_prefix narrow (by simp [kHeaderLen]) whole

/-- A complete frame at the front of the buffer is taken off it, whatever
follows. -/
theorem parseStream_frame {tail : Bytes} {decoded : Option Message}
    (fits : body.length ≤ packetSizeMax)
    (valid : decodeMessage codec body body.length = .ok decoded)
    (holds : parser.buffer = frame rid body ++ tail) :
    parseStream codec parser = .ok (true,
      { buffer := tail
        message := decoded.elim parser.message
          (parser.message.insert rid) }) := by
  have lengths := congrArg List.length holds
  simp only [List.length_append, length_frame, kHeaderLen] at lengths
  have field := packetlen_frame (length_narrow fits) holds
  have memory : (parser.buffer ++ [0]).drop kHeaderLen =
      body ++ (tail ++ [0]) := by
    rw [holds, frame, List.append_assoc, List.append_assoc]
    exact List.drop_left' (by simp [kHeaderLen])
  have taken : parser.buffer.drop (body.length + kHeaderLen) = tail := by
    rw [holds]
    exact List.drop_left' (by simp [Nat.add_comm])
  have decodes : decodeMessage codec ((parser.buffer ++ [0]).drop kHeaderLen)
      parser.packetlen = .ok decoded := by
    rw [field, memory, decodeMessage_append fits, valid]
  rw [parseStream_take (by omega) (by omega) (by omega) decodes]
  simp only [consume, field, taken, rid_frame holds]
  cases decoded <;> rfl

end RpcPacketParser

/-- A frame whose body decodes to a message. -/
structure Packet (codec : Codec Message Descriptor) where
  rid : Int64
  message : Message
  body : Bytes
  long : 10 ≤ body.length
  fits : body.length ≤ packetSizeMax
  valid : decodeMessage codec body body.length = .ok (some message)

namespace Packet

def bytes (packet : Packet codec) : Bytes := frame packet.rid packet.body

def pair (packet : Packet codec) : Int64 × Message :=
  (packet.rid, packet.message)

end Packet

section Encoding

variable {message : Message} {rid : Int64} {encoded : Bytes}

/-- The body of a frame before its checksum. -/
def summedPart (codec : Codec Message Descriptor) (message : Message)
    (payload : Bytes) : Bytes :=
  littleEndian 4 ((codec.getTypeName message).length + 1) ++
    (codec.getTypeName message ++ [0]) ++ payload

private theorem toInt_nameLen (lawful : codec.Lawful) (message : Message) :
    toInt ((codec.getTypeName message).length + 1) =
      ((codec.getTypeName message).length + 1 : Nat) :=
  toInt_of_lt (lawful.typeName_short message)

theorem encode_of_serialized (lawful : codec.Lawful) {payload : Bytes}
    (serialized : codec.appendToString message = some payload) :
    codec.encode message rid = .ok (frame rid
      (summedPart codec message payload ++
        littleEndian 4 (codec.checksum (summedPart codec message payload)))) := by
  simp only [Codec.encode, toInt_nameLen lawful]
  rw [if_neg (by omega), serialized, Int.toNat_natCast]
  simp only
  rw [List.take_of_length_le (by simp)]
  rfl

theorem encode_frame (lawful : codec.Lawful)
    (success : codec.encode message rid = .ok encoded)
    (nonempty : encoded ≠ []) :
    ∃ payload, codec.appendToString message = some payload ∧
      encoded = frame rid (summedPart codec message payload ++
        littleEndian 4
          (codec.checksum (summedPart codec message payload))) := by
  cases serialized : codec.appendToString message with
  | none =>
      simp only [Codec.encode, serialized, toInt_nameLen lawful] at success
      rw [if_neg (by omega)] at success
      exact absurd (Except.ok.inj success).symm nonempty
  | some payload =>
      rw [encode_of_serialized lawful serialized] at success
      exact ⟨payload, rfl, (Except.ok.inj success).symm⟩

private theorem readBytes_middle {before middle after : Bytes}
    {offset count : Nat} (start : before.length = offset)
    (width : middle.length = count) :
    readBytes (before ++ middle ++ after) offset count = .ok middle := by
  rw [readBytes_of_le (by simp; omega), List.append_assoc,
    List.drop_left' start, List.take_left' width]

private theorem encoded_body_valid (lawful : codec.Lawful)
    {payload summed : Bytes}
    (serialized : codec.appendToString message = some payload)
    (shape : summed = summedPart codec message payload)
    (fits : summed.length + 4 ≤ packetSizeMax) :
    decodeMessage codec (summed ++ littleEndian 4 (codec.checksum summed))
      (summed.length + 4) = .ok (some message) := by
  obtain ⟨fresh, created⟩ := lawful.registered message
  have nameNonempty : 0 < (codec.getTypeName message).length :=
    List.length_pos_of_ne_nil (lawful.typeName_ne_nil message)
  have widths : summed.length =
      4 + ((codec.getTypeName message).length + 1) + payload.length := by
    simp [shape, summedPart]
    omega
  have trailer : readBytes (summed ++ littleEndian 4 (codec.checksum summed))
      (summed.length + 4 - 4) 4 =
      .ok (littleEndian 4 (codec.checksum summed)) := by
    rw [← List.append_nil (summed ++ littleEndian 4 (codec.checksum summed))]
    exact readBytes_middle (by omega) (by simp)
  have checked : ofLittleEndian (littleEndian 4 (codec.checksum summed)) =
      codec.checksum summed := by
    have small : codec.checksum summed < 2 ^ 32 := UInt32.toNat_lt _
    rw [ofLittleEndian_littleEndian]
    omega
  have whole : readBytes (summed ++ littleEndian 4 (codec.checksum summed)) 0
      (((summed.length + 4 : Nat) : Int) - 4).toNat = .ok summed := by
    have start : ([] : Bytes).length = 0 := rfl
    have width : summed.length =
        (((summed.length + 4 : Nat) : Int) - 4).toNat := by omega
    exact readBytes_middle start width
  have nameField : readBytes
      (summed ++ littleEndian 4 (codec.checksum summed)) 0 4 =
      .ok (littleEndian 4 ((codec.getTypeName message).length + 1)) := by
    rw [shape, summedPart, List.append_assoc, List.append_assoc,
      ← List.nil_append
      (littleEndian 4 ((codec.getTypeName message).length + 1) ++ _),
      ← List.append_assoc]
    exact readBytes_middle rfl (by simp)
  have nameLen : toInt (ofLittleEndian
      (littleEndian 4 ((codec.getTypeName message).length + 1))) =
      ((codec.getTypeName message).length + 1 : Nat) := by
    simp only [packetSizeMax] at fits
    rw [ofLittleEndian_littleEndian, Nat.mod_eq_of_lt (by omega)]
    exact toInt_of_lt (by omega)
  have name : readBytes
      (summed ++ littleEndian 4 (codec.checksum summed)) 4
      ((codec.getTypeName message).length + 1) =
      .ok (codec.getTypeName message ++ [0]) := by
    rw [shape, summedPart, List.append_assoc]
    exact readBytes_middle (by simp) (by simp)
  have lookup : codec.createMessage (codec.getTypeName message ++ [0]) =
      some fresh := by
    rw [lawful.createMessage_cstr,
      cstr_append_nul (lawful.typeName_noNul message)]
    exact created
  have data : readBytes
      (summed ++ littleEndian 4 (codec.checksum summed))
      (4 + ((codec.getTypeName message).length + 1)) payload.length =
      .ok payload := by
    rw [shape, summedPart]
    exact readBytes_middle (by simp) rfl
  have dataLen : (((summed.length + 4 : Nat) : Int) -
      ((codec.getTypeName message).length + 1 : Nat) - 8).toNat =
      payload.length := by omega
  unfold decodeMessage
  rw [toInt_of_lt (by simp only [packetSizeMax] at fits; omega)]
  simp only
  rw [if_pos (by omega), trailer, ok_bind, whole, ok_bind, if_pos checked.symm,
    nameField, ok_bind, nameLen, if_pos (by omega), Int.toNat_natCast, name,
    ok_bind, lookup, dataLen]
  simp only
  rw [data, ok_bind, lawful.parse_serialize serialized created]
  rfl

/-- Every frame that `encode` produces within the size limit decodes to the
encoded message. -/
theorem packet_of_encode (lawful : codec.Lawful)
    (success : codec.encode message rid = .ok encoded)
    (nonempty : encoded ≠ [])
    (bounded : encoded.length ≤ kHeaderLen + packetSizeMax) :
    ∃ packet : Packet codec,
      packet.pair = (rid, message) ∧ packet.bytes = encoded := by
  obtain ⟨payload, serialized, rfl⟩ :=
    encode_frame lawful success nonempty
  obtain ⟨summed, shape⟩ : ∃ summed,
      summed = summedPart codec message payload := ⟨_, rfl⟩
  rw [← shape] at bounded ⊢
  have nameNonempty : 0 < (codec.getTypeName message).length :=
    List.length_pos_of_ne_nil (lawful.typeName_ne_nil message)
  have width : (summed ++ littleEndian 4 (codec.checksum summed)).length =
      summed.length + 4 := by simp
  have long : 6 ≤ summed.length := by
    simp [shape, summedPart]
    omega
  have fits : summed.length + 4 ≤ packetSizeMax := by
    simpa [kHeaderLen] using bounded
  exact ⟨{ rid := rid
           message := message
           body := summed ++ littleEndian 4 (codec.checksum summed)
           long := by omega
           fits := by omega
           valid := by
             rw [width]
             exact encoded_body_valid lawful serialized shape fits },
    rfl, rfl⟩

end Encoding

end Natsu.Rpc
