import Natsu.Rpc.Packet

/-!
# The messages of `example/rpc.proto`

A codec for the two message types of the example program, `rpc.req` and
`rpc.rsp`, each with one required string field.  Protobuf writes the field as
its tag, a length and the text; the texts here are short enough for a length
of one byte.
-/

namespace Natsu.Rpc.Example

open Natsu.Foundation

inductive Kind where
  | req
  | rsp
  deriving DecidableEq, Repr

structure ExampleMessage where
  kind : Kind
  data : Bytes
  short : data.length < 128
  deriving DecidableEq

def Kind.name : Kind → Bytes
  | .req => ascii "rpc.req"
  | .rsp => ascii "rpc.rsp"

def adler32 (data : Bytes) : UInt32 :=
  let sums := data.foldl (fun (sums : Nat × Nat) byte =>
    let low := (sums.1 + byte.toNat) % 65521
    (low, (sums.2 + low) % 65521)) (1, 0)
  UInt32.ofNat (sums.2 * 65536 + sums.1)

def parseFromArray (message : ExampleMessage) : Bytes → Option ExampleMessage
  | 10 :: width :: data =>
      if short : data.length < 128 then
        if width = UInt8.ofNat data.length then
          some { kind := message.kind, data := data, short := short }
        else none
      else none
  | _ => none

def exampleCodec : Codec ExampleMessage Kind where
  adler32 := adler32
  getTypeName message := message.kind.name
  appendToString message :=
    some (10 :: UInt8.ofNat message.data.length :: message.data)
  findMessageTypeByName name :=
    if cstr name = Kind.req.name then some .req
    else if cstr name = Kind.rsp.name then some .rsp
    else none
  getPrototype kind := some { kind := kind, data := [], short := by decide }
  new message := message
  parseFromArray := parseFromArray

theorem cstr_cstr (bytes : Bytes) : cstr (cstr bytes) = cstr bytes := by
  simp only [cstr, List.takeWhile_takeWhile, and_self, Bool.decide_eq_true]

private theorem createMessage_name (kind : Kind) :
    exampleCodec.createMessage kind.name =
      some { kind := kind, data := [], short := by decide } := by
  cases kind <;> rfl

theorem exampleCodec_lawful : exampleCodec.Lawful where
  typeName_ne_nil message := by
    cases kind : message.kind <;> simp only [exampleCodec, kind] <;> decide
  typeName_short message := by
    cases kind : message.kind <;> simp only [exampleCodec, kind] <;> decide
  typeName_noNul message := by
    cases kind : message.kind <;> simp only [exampleCodec, kind] <;> decide
  find_cstr name := by simp only [exampleCodec, cstr_cstr]
  registered message := ⟨_, createMessage_name message.kind⟩
  parse_serialize := by
    intro message payload fresh serialized created
    obtain rfl : 10 :: UInt8.ofNat message.data.length :: message.data =
        payload := Option.some.inj serialized
    have same : ({ kind := message.kind, data := [], short := by decide } :
        ExampleMessage) = fresh :=
      Option.some.inj ((createMessage_name message.kind).symm.trans created)
    subst same
    simp [exampleCodec, parseFromArray, message.short]

def hello : ExampleMessage :=
  { kind := .req, data := ascii "hello", short := by decide }

def world : ExampleMessage :=
  { kind := .rsp, data := ascii "world", short := by decide }

end Natsu.Rpc.Example
