import Natsu.Foundation.Loop
import Natsu.Foundation.CInteger

/-!
# RPC packets

`RpcPacketParser` packs protobuf messages into frames and unpacks a byte
stream into messages.  A frame is a 4-byte length, which does not count the
12-byte header, an 8-byte request id and a body of name length, NUL-ended
type name, payload and checksum.

Protobuf and zlib are parameters, collected in `Codec`.  A read outside the
memory of `buffer_`, its terminating NUL included, is a fault.
-/

namespace Natsu.Rpc

open Natsu.Foundation

inductive Fault where
  | outOfBounds
  | lengthError
  deriving DecidableEq, Repr

/-- The functions of protobuf and zlib that the parser calls. -/
structure Codec (Message Descriptor : Type) where
  adler32 : Bytes → UInt32
  getTypeName : Message → Bytes
  appendToString : Message → Option Bytes
  findMessageTypeByName : Bytes → Option Descriptor
  getPrototype : Descriptor → Option Message
  new : Message → Message
  parseFromArray : Message → Bytes → Option Message

def packetSizeMax : Nat := 4096

def kHeaderLen : Nat := 12

variable {Message Descriptor : Type}

namespace Codec

def createMessage (codec : Codec Message Descriptor) (typeName : Bytes) :
    Option Message := do
  let descriptor ← codec.findMessageTypeByName typeName
  let «prototype» ← codec.getPrototype descriptor
  pure (codec.new «prototype»)

/-- `adler32(1, data, length)`, whose length argument has 32 bits. -/
def checksum (codec : Codec Message Descriptor) (data : Bytes) : Nat :=
  (codec.adler32 (data.take (data.length % 2 ^ 32))).toNat

/-- What the frame format relies on: type names are non-empty C strings of
registered types (shorter than the 2 GiB that protobuf allows a descriptor),
lookup stops at the first NUL, and parsing inverts serialisation. -/
structure Lawful (codec : Codec Message Descriptor) : Prop where
  typeName_ne_nil : ∀ message, codec.getTypeName message ≠ []
  typeName_short : ∀ message, (codec.getTypeName message).length + 1 < 2 ^ 31
  typeName_noNul : ∀ message, 0 ∉ codec.getTypeName message
  find_cstr : ∀ name,
    codec.findMessageTypeByName name = codec.findMessageTypeByName (cstr name)
  registered : ∀ message,
    ∃ fresh, codec.createMessage (codec.getTypeName message) = some fresh
  parse_serialize : ∀ {message payload fresh},
    codec.appendToString message = some payload →
    codec.createMessage (codec.getTypeName message) = some fresh →
    codec.parseFromArray fresh payload = some message

theorem Lawful.createMessage_cstr {codec : Codec Message Descriptor}
    (lawful : codec.Lawful) (name : Bytes) :
    codec.createMessage name = codec.createMessage (cstr name) := by
  simp only [createMessage, lawful.find_cstr name]

/-- Encode a message, or return the empty string where protobuf cannot
serialise it. -/
def encode (codec : Codec Message Descriptor) (message : Message)
    (rid : Int64) : Except Fault Bytes :=
  let typeName := codec.getTypeName message
  let nameLen := toInt (typeName.length + 1)
  if nameLen < 0 then .error .lengthError
  else
    match codec.appendToString message with
    | none => .ok []
    | some payload =>
        let summed := littleEndian 4 nameLen.toNat ++
          (typeName ++ [0]).take nameLen.toNat ++ payload
        let body := summed ++ littleEndian 4 (codec.checksum summed)
        .ok (littleEndian 4 body.length ++
          littleEndian 8 rid.toUInt64.toNat ++ body)

end Codec

def readBytes (memory : Bytes) (offset count : Nat) : Except Fault Bytes :=
  if offset + count ≤ memory.length then
    .ok ((memory.drop offset).take count)
  else .error .outOfBounds

/-- Decode a frame body of `bufferlength` bytes at the start of `buf`, the
memory that may be read there. -/
def decodeMessage (codec : Codec Message Descriptor) (buf : Bytes)
    (bufferlength : Nat) : Except Fault (Option Message) :=
  let len := toInt bufferlength
  if 10 ≤ len then do
    let expectedChecksum ← readBytes buf (bufferlength - 4) 4
    let summed ← readBytes buf 0 (len - 4).toNat
    if codec.checksum summed = ofLittleEndian expectedChecksum then
      let nameField ← readBytes buf 0 4
      let nameLen := toInt (ofLittleEndian nameField)
      if 2 ≤ nameLen ∧ nameLen ≤ len - 8 then
        let typeName ← readBytes buf 4 nameLen.toNat
        match codec.createMessage typeName with
        | some message =>
            let data ← readBytes buf (4 + nameLen.toNat)
              (len - nameLen - 8).toNat
            pure (codec.parseFromArray message data)
        | none => pure none
      else pure none
    else pure none
  else pure none

structure RpcPacketParser (Message : Type) where
  buffer : Bytes := []
  message : Std.ExtTreeMap Int64 Message := ∅

namespace RpcPacketParser

variable (codec : Codec Message Descriptor)

/-- The length field of the first frame in the buffer. -/
def packetlen (parser : RpcPacketParser Message) : Nat :=
  ofLittleEndian (parser.buffer.take 4)

def rid (parser : RpcPacketParser Message) : Int64 :=
  (UInt64.ofNat (ofLittleEndian ((parser.buffer.drop 4).take 8))).toInt64

/-- Erase the first frame and keep the message decoded from it. -/
def consume (parser : RpcPacketParser Message) (decoded : Option Message) :
    RpcPacketParser Message :=
  { buffer := parser.buffer.drop (parser.packetlen + kHeaderLen)
    message :=
      match decoded with
      | some message => parser.message.insert parser.rid message
      | none => parser.message }

/-- Take one frame off the buffer; the boolean is the returned one. -/
def parseStream (parser : RpcPacketParser Message) :
    Except Fault (Bool × RpcPacketParser Message) :=
  if parser.buffer.length < 12 then .ok (false, parser)
  else if parser.buffer.length < parser.packetlen then .ok (false, parser)
  else if packetSizeMax < parser.packetlen then
    .ok (false, { parser with buffer := [] })
  else
    match decodeMessage codec ((parser.buffer ++ [0]).drop kHeaderLen)
        parser.packetlen with
    | .error fault => .error fault
    | .ok decoded =>
        .ok (true, parser.consume decoded)

section Steps

variable {codec} {parser : RpcPacketParser Message}

theorem parseStream_short (short : parser.buffer.length < 12) :
    parseStream codec parser = .ok (false, parser) := by
  rw [parseStream, if_pos short]

theorem parseStream_wait (long : 12 ≤ parser.buffer.length)
    (incomplete : parser.buffer.length < parser.packetlen) :
    parseStream codec parser = .ok (false, parser) := by
  rw [parseStream, if_neg (Nat.not_lt.mpr long), if_pos incomplete]

theorem parseStream_oversize (long : 12 ≤ parser.buffer.length)
    (complete : parser.packetlen ≤ parser.buffer.length)
    (oversize : packetSizeMax < parser.packetlen) :
    parseStream codec parser = .ok (false, { parser with buffer := [] }) := by
  rw [parseStream, if_neg (Nat.not_lt.mpr long),
    if_neg (Nat.not_lt.mpr complete), if_pos oversize]

theorem parseStream_take (long : 12 ≤ parser.buffer.length)
    (complete : parser.packetlen ≤ parser.buffer.length)
    (fits : parser.packetlen ≤ packetSizeMax)
    {decoded : Option Message}
    (body : decodeMessage codec ((parser.buffer ++ [0]).drop kHeaderLen)
      parser.packetlen = .ok decoded) :
    parseStream codec parser = .ok (true, parser.consume decoded) := by
  rw [parseStream, if_neg (Nat.not_lt.mpr long),
    if_neg (Nat.not_lt.mpr complete), if_neg (Nat.not_lt.mpr fits), body]

theorem parseStream_fault (long : 12 ≤ parser.buffer.length)
    (complete : parser.packetlen ≤ parser.buffer.length)
    (fits : parser.packetlen ≤ packetSizeMax) {fault : Fault}
    (body : decodeMessage codec ((parser.buffer ++ [0]).drop kHeaderLen)
      parser.packetlen = .error fault) :
    parseStream codec parser = .error fault := by
  rw [parseStream, if_neg (Nat.not_lt.mpr long),
    if_neg (Nat.not_lt.mpr complete), if_neg (Nat.not_lt.mpr fits), body]

/-- What one call of `ParseStream` can do. -/
theorem parseStream_cases (codec : Codec Message Descriptor)
    (parser : RpcPacketParser Message) :
    (parser.buffer.length < 12 ∧
      parseStream codec parser = .ok (false, parser)) ∨
    (12 ≤ parser.buffer.length ∧ parser.buffer.length < parser.packetlen ∧
      parseStream codec parser = .ok (false, parser)) ∨
    (12 ≤ parser.buffer.length ∧ parser.packetlen ≤ parser.buffer.length ∧
      packetSizeMax < parser.packetlen ∧
      parseStream codec parser = .ok (false, { parser with buffer := [] })) ∨
    (12 ≤ parser.buffer.length ∧ parser.packetlen ≤ parser.buffer.length ∧
      parser.packetlen ≤ packetSizeMax ∧
      ((∃ fault, parseStream codec parser = .error fault) ∨
        ∃ decoded,
          parseStream codec parser = .ok (true, parser.consume decoded))) := by
  by_cases short : parser.buffer.length < 12
  · exact .inl ⟨short, parseStream_short short⟩
  have long := Nat.le_of_not_lt short
  by_cases incomplete : parser.buffer.length < parser.packetlen
  · exact .inr (.inl ⟨long, incomplete, parseStream_wait long incomplete⟩)
  have complete := Nat.le_of_not_lt incomplete
  by_cases oversize : packetSizeMax < parser.packetlen
  · exact .inr (.inr (.inl ⟨long, complete, oversize,
      parseStream_oversize long complete oversize⟩))
  have fits := Nat.le_of_not_lt oversize
  refine .inr (.inr (.inr ⟨long, complete, fits, ?_⟩))
  cases body : decodeMessage codec ((parser.buffer ++ [0]).drop kHeaderLen)
      parser.packetlen with
  | error fault =>
      exact .inl ⟨fault, parseStream_fault long complete fits body⟩
  | ok decoded =>
      exact .inr ⟨decoded, parseStream_take long complete fits body⟩

end Steps

theorem parseStream_shrinks {parser next : RpcPacketParser Message}
    (again : parseStream codec parser = .ok (true, next)) :
    next.buffer.length < parser.buffer.length := by
  rcases parseStream_cases codec parser with
    ⟨_, stays⟩ | ⟨_, _, stays⟩ | ⟨_, _, _, drops⟩ |
    ⟨long, _, _, ⟨fault, faults⟩ | ⟨decoded, takes⟩⟩
  · simp [stays] at again
  · simp [stays] at again
  · simp [drops] at again
  · simp [faults] at again
  · rw [takes] at again
    obtain ⟨_, rfl⟩ := Prod.mk.inj (Except.ok.inj again)
    simp only [consume, List.length_drop, kHeaderLen]
    omega

/-- `while (ParseStream()) {}`. -/
def decodeLoop : Loop (RpcPacketParser Message)
    (Except Fault (RpcPacketParser Message)) where
  body parser :=
    match parseStream codec parser with
    | .error fault => .inr (.error fault)
    | .ok (true, next) => .inl next
    | .ok (false, next) => .inr (.ok next)
  measure parser := parser.buffer.length
  decreases := by
    intro parser next round
    split at round
    · simp at round
    · rename_i following again
      obtain rfl : following = next := by simpa using round
      exact parseStream_shrinks codec again
    · simp at round

def decode (parser : RpcPacketParser Message) (data : Bytes) :
    Except Fault (RpcPacketParser Message) :=
  (decodeLoop codec).run { parser with buffer := parser.buffer ++ data }

/-- Take the message at `message_.begin()`, the one with the least request
id. -/
def getMessage (parser : RpcPacketParser Message) :
    Option (Int64 × Message) × RpcPacketParser Message :=
  match parser.message.toList.head? with
  | some (rid, message) =>
      (some (rid, message),
        { parser with message := parser.message.erase rid })
  | none => (none, parser)

theorem getMessage_shrinks {parser next : RpcPacketParser Message}
    {entry : Int64 × Message}
    (taken : getMessage parser = (some entry, next)) :
    next.message.size < parser.message.size := by
  unfold getMessage at taken
  split at taken
  · rename_i rid message first
    obtain rfl : _ = next := (Prod.mk.inj taken).2
    have member : (rid, message) ∈ parser.message.toList :=
      List.mem_of_mem_head? first
    have present : rid ∈ parser.message := by
      rw [Std.ExtTreeMap.mem_toList_iff_getElem?_eq_some] at member
      exact Std.ExtTreeMap.mem_iff_isSome_getElem?.mpr (by simp [member])
    have nonempty : parser.message.size ≠ 0 := by
      intro empty
      rw [← Std.ExtTreeMap.eq_empty_iff_size_eq_zero] at empty
      simp [empty] at present
    rw [Std.ExtTreeMap.size_erase,
      if_pos (Std.ExtTreeMap.contains_iff_mem.mpr present)]
    omega
  · simp at taken

/-- The caller's loop that takes messages until there is none. -/
def drainLoop : Loop (RpcPacketParser Message × List (Int64 × Message))
    (List (Int64 × Message) × RpcPacketParser Message) where
  body state :=
    match getMessage state.1 with
    | (some entry, next) => .inl (next, state.2 ++ [entry])
    | (none, next) => .inr (state.2, next)
  measure state := state.1.message.size
  decreases := by
    intro state next round
    split at round
    · rename_i entry following taken
      obtain rfl : (following, state.2 ++ [entry]) = next := by
        simpa using round
      exact getMessage_shrinks taken
    · simp at round

def drain (parser : RpcPacketParser Message) :
    List (Int64 × Message) × RpcPacketParser Message :=
  drainLoop.run (parser, [])

/-- One read of a connection loop: decode it, then take every message. -/
def receive (parser : RpcPacketParser Message) (data : Bytes) :
    Except Fault (List (Int64 × Message) × RpcPacketParser Message) :=
  (decode codec parser data).map drain

/-- All reads of a connection, with everything taken along the way. -/
def receiveAll (parser : RpcPacketParser Message) :
    List Bytes → Except Fault (List (Int64 × Message) × RpcPacketParser Message)
  | [] => .ok ([], parser)
  | data :: reads => do
      let (taken, next) ← receive codec parser data
      let (later, final) ← receiveAll next reads
      pure (taken ++ later, final)

end RpcPacketParser

end Natsu.Rpc
