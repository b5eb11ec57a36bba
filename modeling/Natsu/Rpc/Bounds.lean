import Natsu.Foundation.Calls
import Natsu.Foundation.Run
import Natsu.Rpc.Frames

/-!
# What the decoder reads and keeps

Any byte strings may be passed to `Decode`.  Whether every read stays inside
`buffer_`, and whether the buffer stays below the size of one maximal frame,
is decided by what stands behind the complete frames.  The completeness test
leaves the header out and stands before the size limit: the first lets a call
read past the buffer, the second lets the buffer grow.
-/

namespace Natsu.Rpc

open Natsu.Foundation

variable {Message Descriptor : Type}

namespace RpcPacketParser

section Calls

variable (codec : Codec Message Descriptor)

/-- The parser under repeated calls of `Decode`.  Messages may be taken
between two calls, which leaves `buffer_` as it is. -/
def decoder : Callable (RpcPacketParser Message) Bytes
    (Except Fault (RpcPacketParser Message)) where
  loop := decodeLoop codec
  enter parser data := { parser with buffer := parser.buffer ++ data }
  Leaves result next :=
    ∃ parser, result = .ok parser ∧ next.buffer = parser.buffer

/-- The reads of one `ParseStream` call, held against `buffer_` alone.  The
terminating NUL does not belong to it. -/
def inspect (parser : RpcPacketParser Message) : Except Fault Unit :=
  if parser.buffer.length < 12 then .ok ()
  else do
    let lengthField ← readBytes parser.buffer 0 4
    let packetlen := ofLittleEndian lengthField
    if parser.buffer.length < packetlen then pure ()
    else if packetSizeMax < packetlen then pure ()
    else
      let _ ← readBytes parser.buffer 4 8
      let _ ← decodeMessage codec (parser.buffer.drop kHeaderLen) packetlen
      pure ()

end Calls

/-- The call takes a frame whose last bytes are not there yet. -/
def TakesEarly (parser : RpcPacketParser Message) : Prop :=
  kHeaderLen ≤ parser.buffer.length ∧
    10 ≤ parser.packetlen ∧ parser.packetlen ≤ packetSizeMax ∧
    parser.packetlen ≤ parser.buffer.length ∧
    parser.buffer.length < parser.packetlen + kHeaderLen

variable {codec : Codec Message Descriptor}

private theorem decodeMessage_tiny {buf : Bytes} {bufferlength : Nat}
    (tiny : bufferlength < 10) :
    decodeMessage codec buf bufferlength = .ok none := by
  rw [decodeMessage, toInt_of_lt (by omega)]
  exact if_neg (by omega)

private theorem decodeMessage_inside {buf : Bytes} {bufferlength : Nat}
    (fits : bufferlength ≤ packetSizeMax) (inside : bufferlength ≤ buf.length) :
    ∃ decoded, decodeMessage codec buf bufferlength = .ok decoded := by
  obtain ⟨body, tail, rfl, rfl⟩ : ∃ body tail,
      buf = body ++ tail ∧ bufferlength = body.length :=
    ⟨buf.take bufferlength, buf.drop bufferlength,
      (List.take_append_drop _ _).symm, by simp [inside]⟩
  rw [decodeMessage_append fits]
  exact decodeMessage_complete fits

/-- Nothing is read of a body that is too short, and else only the body. -/
private theorem decodeMessage_given {buf : Bytes} {bufferlength : Nat}
    (fits : bufferlength ≤ packetSizeMax)
    (given : bufferlength < 10 ∨ bufferlength ≤ buf.length) :
    ∃ decoded, decodeMessage codec buf bufferlength = .ok decoded := by
  rcases given with tiny | inside
  · exact ⟨none, decodeMessage_tiny tiny⟩
  · exact decodeMessage_inside fits inside

private theorem inspect_header {parser : RpcPacketParser Message}
    (long : 12 ≤ parser.buffer.length) :
    inspect codec parser =
      if parser.buffer.length < parser.packetlen then .ok ()
      else if packetSizeMax < parser.packetlen then .ok ()
      else (decodeMessage codec (parser.buffer.drop kHeaderLen)
        parser.packetlen).map fun _ => () := by
  have field : ofLittleEndian ((parser.buffer.drop 0).take 4) =
      parser.packetlen := by rw [List.drop_zero, packetlen]
  rw [inspect, if_neg (by omega), readBytes_of_le (by omega), ok_bind]
  simp only [field]
  rw [readBytes_of_le (by omega), ok_bind]
  split
  · rfl
  · split
    · rfl
    · cases decodeMessage codec (parser.buffer.drop kHeaderLen)
        parser.packetlen <;> rfl

/-- A call reads inside the buffer exactly if it does not take a frame
early. -/
theorem inspect_eq_ok_iff (parser : RpcPacketParser Message) :
    inspect codec parser = .ok () ↔ ¬ parser.TakesEarly := by
  by_cases short : parser.buffer.length < 12
  · refine iff_of_true (if_pos short) ?_
    rintro ⟨header, _⟩
    simp only [kHeaderLen] at header
    omega
  have long := Nat.le_of_not_lt short
  rw [inspect_header long]
  by_cases incomplete : parser.buffer.length < parser.packetlen
  · refine iff_of_true (if_pos incomplete) ?_
    rintro ⟨_, _, _, complete, _⟩
    omega
  rw [if_neg incomplete]
  by_cases oversize : packetSizeMax < parser.packetlen
  · refine iff_of_true (if_pos oversize) ?_
    rintro ⟨_, _, fits, _⟩
    omega
  rw [if_neg oversize]
  have fits := Nat.le_of_not_lt oversize
  have available : (parser.buffer.drop kHeaderLen).length =
      parser.buffer.length - kHeaderLen := List.length_drop
  by_cases present : parser.packetlen + kHeaderLen ≤ parser.buffer.length
  · obtain ⟨decoded, decodes⟩ : ∃ decoded, decodeMessage codec
        (parser.buffer.drop kHeaderLen) parser.packetlen = .ok decoded :=
      decodeMessage_inside fits (by omega)
    rw [decodes]
    refine iff_of_true rfl ?_
    rintro ⟨_, _, _, _, early⟩
    omega
  by_cases tiny : parser.packetlen < 10
  · rw [decodeMessage_tiny tiny]
    refine iff_of_true rfl ?_
    rintro ⟨_, content, _⟩
    omega
  · have header : kHeaderLen ≤ parser.buffer.length := long
    rw [decodeMessage_short (by omega) fits (by omega)]
    refine iff_of_false (by simp [Except.map]) ?_
    intro notEarly
    apply notEarly
    exact ⟨header, by omega, fits, by omega, by omega⟩

/-- A call that inspects well does not fault. -/
theorem parseStream_of_inspect {parser : RpcPacketParser Message}
    (inspects : inspect codec parser = .ok ()) :
    ∃ result, parseStream codec parser = .ok result := by
  rcases parseStream_cases codec parser with
    ⟨_, stays⟩ | ⟨_, _, stays⟩ | ⟨_, _, _, drops⟩ |
    ⟨long, complete, fits, ⟨fault, faults⟩ | ⟨decoded, takes⟩⟩
  · exact ⟨_, stays⟩
  · exact ⟨_, stays⟩
  · exact ⟨_, drops⟩
  · have notEarly := (inspect_eq_ok_iff parser).mp inspects
    obtain ⟨decoded, decodes⟩ : ∃ decoded, decodeMessage codec
        ((parser.buffer ++ [0]).drop kHeaderLen) parser.packetlen =
          .ok decoded := by
      refine decodeMessage_given fits ?_
      rw [List.length_drop, List.length_append, List.length_singleton]
      by_contra outside
      exact notEarly ⟨long, by omega, fits, complete, by omega⟩
    exact ⟨_, parseStream_take long complete fits decodes⟩
  · exact ⟨_, takes⟩

end RpcPacketParser

/-- Along any `Decode` calls every read stays inside the buffer exactly if no
call of `ParseStream` takes a frame early. -/
theorem reads_inside_iff (codec : Codec Message Descriptor)
    (reads : List Bytes) :
    (∀ parser, (RpcPacketParser.decoder codec).Activates {} reads parser →
      RpcPacketParser.inspect codec parser = .ok ()) ↔
    ∀ parser, (RpcPacketParser.decoder codec).Activates {} reads parser →
      ¬ parser.TakesEarly := by
  simp only [RpcPacketParser.inspect_eq_ok_iff]

namespace Example

/-- The first 30 bytes of a frame of 35 are taken for the whole. -/
theorem hello_read_outside :
    ∃ parser,
      (RpcPacketParser.decoder exampleCodec).Activates {}
        [frames.flatten.take 30] parser ∧
      RpcPacketParser.inspect exampleCodec parser ≠ .ok () :=
  ⟨{ buffer := frames.flatten.take 30 }, .now .refl, by decide⟩

end Example

/-- Where every read stays inside the buffer, every `Decode` call returns. -/
theorem returns_of_inside (codec : Codec Message Descriptor)
    {reads : List Bytes}
    (inside : ∀ parser,
      (RpcPacketParser.decoder codec).Activates {} reads parser →
      RpcPacketParser.inspect codec parser = .ok ())
    {result : Except Fault (RpcPacketParser Message)}
    (returns : (RpcPacketParser.decoder codec).Returns {} reads result) :
    ∃ parser, result = .ok parser := by
  obtain ⟨last, activates, stops⟩ := Callable.returns_iff.mp returns
  obtain ⟨⟨again, next⟩, parsed⟩ :=
    RpcPacketParser.parseStream_of_inspect (inside last activates)
  simp only [RpcPacketParser.decoder, RpcPacketParser.decodeLoop, parsed]
    at stops
  cases again with
  | true => cases stops
  | false => exact ⟨next, (Sum.inr.inj stops).symm⟩

/-- The number in the length field at the front of the bytes. -/
def lengthField (bytes : Bytes) : Nat := ofLittleEndian (bytes.take 4)

/-- A frame that lacks from two to twelve of its last bytes. -/
def CutEarly (rest : Bytes) : Prop :=
  kHeaderLen ≤ rest.length ∧
    10 ≤ lengthField rest ∧ lengthField rest ≤ packetSizeMax ∧
    lengthField rest ≤ rest.length ∧
    rest.length + 1 < lengthField rest + kHeaderLen

/-- As many bytes as a maximal frame has, and a length field beyond them. -/
def Endless (rest : Bytes) : Prop :=
  kHeaderLen + packetSizeMax ≤ rest.length ∧ rest.length < lengthField rest

/-- The property holds of what stands behind complete frames. -/
def Behind (Holds : Bytes → Prop) (bytes : Bytes) : Prop :=
  ∀ frames rest, (∀ entry ∈ frames, entry.2.length ≤ packetSizeMax) →
    bytes = wire frames ++ rest → Holds rest

/-- A complete frame stands at the front of the bytes. -/
def FrameFirst (bytes : Bytes) : Prop :=
  lengthField bytes ≤ packetSizeMax ∧
    lengthField bytes + kHeaderLen ≤ bytes.length

section Front

variable {Holds : Bytes → Prop} {rid : Int64} {body rest : Bytes}

theorem lengthField_frame (fits : body.length ≤ packetSizeMax) :
    lengthField (frame rid body ++ rest) = body.length := by
  have taken : (frame rid body ++ rest).take 4 =
      littleEndian 4 body.length := by
    rw [frame, List.append_assoc, List.append_assoc]
    exact List.take_left' (length_littleEndian _ _)
  rw [lengthField, taken, ofLittleEndian_littleEndian]
  have narrow := length_narrow fits
  omega

theorem frameFirst_frame (fits : body.length ≤ packetSizeMax) :
    FrameFirst (frame rid body ++ rest) := by
  unfold FrameFirst
  rw [lengthField_frame fits, List.length_append, length_frame]
  exact ⟨fits, by omega⟩

/-- Bytes with a complete frame at the front are that frame and a rest. -/
theorem exists_frame {bytes : Bytes} (first : FrameFirst bytes) :
    ∃ rid body rest, body.length ≤ packetSizeMax ∧
      bytes = frame rid body ++ rest := by
  obtain ⟨fits, complete⟩ := first
  simp only [kHeaderLen] at complete
  let number := (bytes.drop 4).take 8
  have numberWidth : number.length = 8 := by
    simp only [number, List.length_take, List.length_drop]
    omega
  have numberSmall := ofLittleEndian_lt number
  rw [numberWidth] at numberSmall
  let rid := (UInt64.ofNat (ofLittleEndian number)).toInt64
  let body := (bytes.drop 12).take (lengthField bytes)
  have bodyWidth : body.length = lengthField bytes := by
    simp only [body, List.length_take, List.length_drop]
    omega
  have lengthBytes : littleEndian 4 body.length = bytes.take 4 := by
    have width : (bytes.take 4).length = 4 := by
      rw [List.length_take]
      omega
    have same := littleEndian_ofLittleEndian (bytes.take 4)
    rw [width] at same
    rw [bodyWidth]
    exact same
  have ridBytes : littleEndian 8 rid.toUInt64.toNat = number := by
    have same := littleEndian_ofLittleEndian number
    rw [numberWidth] at same
    have value : rid.toUInt64.toNat = ofLittleEndian number := by
      simp only [rid, UInt64.toUInt64_toInt64]
      exact UInt64.toNat_ofNat_of_lt' numberSmall
    rw [value]
    exact same
  refine ⟨rid, body, (bytes.drop 12).drop (lengthField bytes), by omega, ?_⟩
  rw [frame, lengthBytes, ridBytes, List.append_assoc, List.append_assoc,
    List.take_append_drop]
  have behindNumber : bytes.drop 12 = (bytes.drop 4).drop 8 := by
    rw [List.drop_drop]
  rw [behindNumber, List.take_append_drop, List.take_append_drop]

theorem behind_of_no_frame {bytes : Bytes} (noFrame : ¬ FrameFirst bytes) :
    Behind Holds bytes ↔ Holds bytes := by
  constructor
  · intro behind
    exact behind [] bytes (by simp) rfl
  · intro holds frames rest fits split
    cases frames with
    | nil =>
        obtain rfl : bytes = rest := split
        exact holds
    | cons entry frames =>
        refine absurd ?_ noFrame
        rw [split, wire_cons, List.append_assoc]
        exact frameFirst_frame (fits entry List.mem_cons_self)

theorem behind_frame (fits : body.length ≤ packetSizeMax)
    (here : Holds (frame rid body ++ rest)) :
    Behind Holds (frame rid body ++ rest) ↔ Behind Holds rest := by
  constructor
  · intro behind frames later laterFits split
    refine behind ((rid, body) :: frames) later ?_ ?_
    · exact List.forall_mem_cons.mpr ⟨fits, laterFits⟩
    · rw [split, wire_cons, List.append_assoc]
  · intro behind frames later framesFit split
    cases frames with
    | nil =>
        rw [show frame rid body ++ rest = later from split] at here
        exact here
    | cons entry frames =>
        obtain ⟨entryFits, othersFit⟩ := List.forall_mem_cons.mp framesFit
        refine behind frames later othersFit ?_
        rw [wire_cons, List.append_assoc] at split
        have mine : lengthField (frame rid body ++ rest) = body.length :=
          lengthField_frame fits
        have sameLength : body.length = entry.2.length := by
          rw [← mine, split, lengthField_frame entryFits]
        exact List.append_inj_right split (by simp [sameLength])

theorem not_cutEarly_of_frame {bytes : Bytes} (first : FrameFirst bytes) :
    ¬ CutEarly bytes := by
  intro early
  obtain ⟨_, complete⟩ := first
  obtain ⟨_, _, _, _, lacks⟩ := early
  omega

theorem not_endless_of_frame {bytes : Bytes} (first : FrameFirst bytes) :
    ¬ Endless bytes := by
  intro endless
  obtain ⟨_, complete⟩ := first
  obtain ⟨_, waits⟩ := endless
  omega

end Front

namespace RpcPacketParser

variable {codec : Codec Message Descriptor}

/-- What the loop does where no complete frame stands at the front: it reads
past the buffer, or it stops and keeps too much only of an endless frame. -/
theorem decodeLoop_last {parser : RpcPacketParser Message}
    (noFrame : ¬ FrameFirst parser.buffer) :
    (CutEarly parser.buffer ∧
      ∃ fault, (decodeLoop codec).run parser = .error fault) ∨
    (¬ CutEarly parser.buffer ∧
      ∃ next, (decodeLoop codec).run parser = .ok next ∧
        (next.buffer.length < kHeaderLen + packetSizeMax ↔
          ¬ Endless parser.buffer)) := by
  have field : parser.packetlen = lengthField parser.buffer := rfl
  have possible := parseStream_cases codec parser
  simp only [field] at possible
  rcases possible with
    ⟨short, stays⟩ | ⟨_, waits, stays⟩ | ⟨_, complete, oversize, drops⟩ |
    ⟨long, complete, fits, _⟩
  · refine .inr ⟨?_, parser, decodeLoop_stop stays, ?_⟩
    · intro early
      have header := early.1
      simp only [kHeaderLen] at header
      omega
    · simp only [Endless, kHeaderLen]
      omega
  · refine .inr ⟨?_, parser, decodeLoop_stop stays, ?_⟩
    · intro early
      obtain ⟨_, _, _, complete, _⟩ := early
      omega
    · simp only [Endless, waits, and_true]
      omega
  · refine .inr ⟨?_, _, decodeLoop_stop drops, ?_⟩
    · intro early
      obtain ⟨_, _, fits, _⟩ := early
      omega
    · refine iff_of_true (by simp [kHeaderLen]) ?_
      intro endless
      obtain ⟨_, waits⟩ := endless
      omega
  · unfold FrameFirst at noFrame
    by_cases early : CutEarly parser.buffer
    · refine .inl ⟨early, .outOfBounds, decodeLoop_fault ?_⟩
      obtain ⟨_, content, _, _, lacks⟩ := early
      refine parseStream_fault long complete fits
        (decodeMessage_short (by omega) fits ?_)
      rw [List.length_drop, List.length_append, List.length_singleton]
      omega
    · -- The length is below 10, or the NUL stands for the last byte.
      obtain ⟨decoded, decodes⟩ : ∃ decoded, decodeMessage codec
          ((parser.buffer ++ [0]).drop kHeaderLen) parser.packetlen =
            .ok decoded := by
        refine decodeMessage_given fits ?_
        rw [field, List.length_drop, List.length_append, List.length_singleton]
        by_contra outside
        exact early ⟨long, by omega, fits, complete, by omega⟩
      have takes := parseStream_take long complete fits decodes
      have empty : (parser.consume decoded).buffer = [] :=
        List.drop_eq_nil_of_le (by omega)
      refine .inr ⟨early, parser.consume decoded, ?_, ?_⟩
      · rw [decodeLoop_next takes]
        exact decodeLoop_stop (parseStream_short (by simp [empty]))
      · refine iff_of_true (by simp [empty, kHeaderLen]) ?_
        intro endless
        obtain ⟨_, waits⟩ := endless
        omega

variable (codec) in
/-- The loop stays inside the buffer exactly when no frame behind complete ones
is cut early, and then keeps too much exactly of an endless one. -/
theorem decodeLoop_kept (parser : RpcPacketParser Message) :
    (¬ Behind (¬ CutEarly ·) parser.buffer ∧
      ∃ fault, (decodeLoop codec).run parser = .error fault) ∨
    (Behind (¬ CutEarly ·) parser.buffer ∧
      ∃ next, (decodeLoop codec).run parser = .ok next ∧
        (next.buffer.length < kHeaderLen + packetSizeMax ↔
          Behind (¬ Endless ·) parser.buffer)) := by
  induction parser using (decodeLoop codec).induct with
  | round parser induction =>
      by_cases first : FrameFirst parser.buffer
      · obtain ⟨rid, body, rest, fits, isFrame⟩ := exists_frame first
        obtain ⟨decoded, decodes⟩ : ∃ decoded,
            decodeMessage codec body body.length = .ok decoded :=
          decodeMessage_complete fits
        have takes := parseStream_frame fits decodes isFrame
        have early : ¬ CutEarly (frame rid body ++ rest) :=
          not_cutEarly_of_frame (isFrame ▸ first)
        have endless : ¬ Endless (frame rid body ++ rest) :=
          not_endless_of_frame (isFrame ▸ first)
        have earlyBehind : Behind (¬ CutEarly ·) (frame rid body ++ rest) ↔
            Behind (¬ CutEarly ·) rest := behind_frame fits early
        have endlessBehind : Behind (¬ Endless ·) (frame rid body ++ rest) ↔
            Behind (¬ Endless ·) rest := behind_frame fits endless
        have later := induction
          { buffer := rest
            message := decoded.elim parser.message
              (parser.message.insert rid) }
          (by simp only [decodeLoop, takes])
        rw [isFrame, earlyBehind, endlessBehind, decodeLoop_next takes]
        exact later
      · rw [behind_of_no_frame first, behind_of_no_frame first, not_not]
        exact decodeLoop_last first

end RpcPacketParser

/-- `Decode` stays inside the buffer exactly when no frame behind complete ones
is cut early. -/
theorem RpcPacketParser.decode_ok_iff (codec : Codec Message Descriptor)
    (parser : RpcPacketParser Message) (data : Bytes) :
    (parser.decode codec data).isOk = true ↔
      Behind (¬ CutEarly ·) (parser.buffer ++ data) := by
  unfold RpcPacketParser.decode
  rcases decodeLoop_kept codec
      { parser with buffer := parser.buffer ++ data } with
    ⟨outside, fault, faults⟩ | ⟨inside, next, runs, _⟩
  · rw [faults]
    exact iff_of_false (by simp [Except.isOk, Except.toBool]) outside
  · rw [runs]
    exact iff_of_true rfl inside

/-- The calls of the two public members. -/
inductive ParserCall where
  | decode (data : Bytes)
  | getMessage

namespace RpcPacketParser

/-- There is no next state where the call reads outside the buffer. -/
def perform (codec : Codec Message Descriptor)
    (parser : RpcPacketParser Message) :
    ParserCall → Option (RpcPacketParser Message)
  | .decode data => (parser.decode codec data).toOption
  | .getMessage => some parser.getMessage.2

/-- Behind the complete frames, the buffer and the bytes passed in are neither
a frame that is cut early nor an endless one. -/
def Modest (parser : RpcPacketParser Message) : ParserCall → Prop
  | .decode data =>
      Behind (fun rest => ¬ CutEarly rest ∧ ¬ Endless rest)
        (parser.buffer ++ data)
  | .getMessage => True

theorem getMessage_buffer (parser : RpcPacketParser Message) :
    parser.getMessage.2.buffer = parser.buffer := by
  unfold getMessage
  split <;> rfl

/-- One call keeps the buffer below a maximal frame exactly when it is
modest. -/
theorem perform_bounded_iff (codec : Codec Message Descriptor)
    {parser : RpcPacketParser Message} {call : ParserCall}
    (bounded : parser.buffer.length < kHeaderLen + packetSizeMax) :
    (∃ next, parser.perform codec call = some next ∧
      next.buffer.length < kHeaderLen + packetSizeMax) ↔
    parser.Modest call := by
  cases call with
  | getMessage =>
      refine iff_of_true ⟨parser.getMessage.2, rfl, ?_⟩ trivial
      rwa [getMessage_buffer]
  | decode data =>
      have both : parser.Modest (.decode data) ↔
          Behind (¬ CutEarly ·) (parser.buffer ++ data) ∧
            Behind (¬ Endless ·) (parser.buffer ++ data) := by
        simp only [Modest, Behind, imp_and, forall_and]
      rw [both]
      simp only [perform, decode]
      rcases decodeLoop_kept codec
          { parser with buffer := parser.buffer ++ data } with
        ⟨outside, fault, faults⟩ | ⟨inside, next, runs, kept⟩
      · rw [faults]
        refine iff_of_false ?_ fun modest => outside modest.1
        intro reached
        obtain ⟨next, reached, _⟩ := reached
        cases reached
      · rw [runs]
        constructor
        · intro reached
          obtain ⟨other, same, small⟩ := reached
          obtain rfl : next = other := Option.some.inj same
          exact ⟨inside, kept.mp small⟩
        · intro modest
          exact ⟨next, rfl, kept.mpr modest.2⟩

end RpcPacketParser

/-- After every call of any sequence the buffer is smaller than a maximal
frame, and nothing outside it has been read, exactly if every call is
modest. -/
theorem kept_bounded_iff (codec : Codec Message Descriptor)
    (calls : List ParserCall) :
    (∀ before, before <+: calls → ∃ parser,
      runWith (RpcPacketParser.perform codec) {} before = some parser ∧
      parser.buffer.length < kHeaderLen + packetSizeMax) ↔
    Throughout (RpcPacketParser.perform codec) RpcPacketParser.Modest {}
      calls :=
  throughout_iff_reaches (RpcPacketParser.perform_bounded_iff codec) calls
    (Nat.zero_lt_succ _)

namespace Example

/-- A header with the greatest length, and then zeros up to the size of a
maximal frame. -/
def endlessFrame : Bytes :=
  littleEndian 4 (2 ^ 32 - 1) ++ List.replicate 4104 0

theorem endless_frame_kept :
    ∃ parser,
      runWith (RpcPacketParser.perform exampleCodec) {}
        [.decode endlessFrame] = some parser ∧
      ¬ parser.buffer.length < kHeaderLen + packetSizeMax := by
  let parser : RpcPacketParser ExampleMessage := { buffer := endlessFrame }
  have size : parser.buffer.length = 4108 := by
    simp only [parser, endlessFrame, List.length_append, length_littleEndian,
      List.length_replicate]
  have field : parser.packetlen = 2 ^ 32 - 1 := by
    have taken : parser.buffer.take 4 = littleEndian 4 (2 ^ 32 - 1) :=
      List.take_left' (length_littleEndian _ _)
    rw [RpcPacketParser.packetlen, taken, ofLittleEndian_littleEndian]
    omega
  have waits : RpcPacketParser.parseStream exampleCodec parser =
      .ok (false, parser) :=
    RpcPacketParser.parseStream_wait (by omega) (by omega)
  have decodes : RpcPacketParser.decode exampleCodec {} endlessFrame =
      .ok parser :=
    RpcPacketParser.decodeLoop_stop waits
  refine ⟨parser, ?_, ?_⟩
  · simp [runWith, RpcPacketParser.perform, decodes, Except.toOption]
  · rw [size]
    decide

end Example

end Natsu.Rpc
