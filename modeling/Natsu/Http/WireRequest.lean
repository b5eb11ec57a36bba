import Mathlib.Data.Bool.AllAny
import Natsu.Http.Parser

/-!
# Requests on the wire

The requests that a client may send, with the conditions of their parts, and
the bytes they are written as.  The parser is compared with this description
in the modules that follow.
-/

namespace Natsu.Http

open Natsu.Foundation

/-- A header line `name: value` with any number of spaces before the
value. -/
structure Header where
  name : Bytes
  padding : Nat := 1
  value : Bytes
  nameNonempty : name ≠ []
  nameClean : ∀ byte ∈ name, byte ≠ 58 ∧ byte ≠ 13 ∧ byte ≠ 10
  nameTrimmed : name.getLast? ≠ some 32
  valueClean : ∀ byte ∈ value, byte ≠ 13 ∧ byte ≠ 10
  valueTrimmed : value.head? ≠ some 32

namespace Header

def line (header : Header) : Bytes :=
  header.name ++ 58 :: (List.replicate header.padding 32 ++ header.value)

def bytes (headers : List Header) : Bytes :=
  (headers.map fun header => header.line ++ crlf).flatten

/-- The last value given for a name, whatever its case. -/
def lastValue (headers : List Header) (name : Bytes) : Bytes :=
  ((headers.filter (lower ·.name = lower name)).getLast?.map value).getD []

/-- The request after the headers have been stored one by one. -/
def store (headers : List Header) (request : HttpRequest) : HttpRequest :=
  headers.foldl
    (fun request header => request.setHeader (lower header.name) header.value)
    request

end Header

/-- The size line of a chunk: hexadecimal digits that denote `size`, and an
extension. -/
structure SizeLine (size : Nat) where
  digits : Bytes
  extension : Bytes := []
  nonempty : digits ≠ []
  hexadecimal : ∀ byte ∈ digits, (digitValue byte).any (· < 16)
  denotes : digitsValue 16 (leadingDigits 16 digits) = size
  separated : Separated extension
  clean : (13 : UInt8) ∉ extension

def SizeLine.text {size : Nat} (line : SizeLine size) : Bytes :=
  line.digits ++ line.extension

structure Chunk where
  data : Bytes
  size : SizeLine data.length
  nonempty : data ≠ []

namespace Chunk

def bytes (chunk : Chunk) : Bytes :=
  chunk.size.text ++ crlf ++ chunk.data ++ crlf

def payload (chunks : List Chunk) : Bytes := (chunks.map data).flatten

end Chunk

/-- The ways a request delimits its body, each with the header that
announces it.  A body is a `std::string` and bounded like one. -/
inductive Framing where
  | none
  | length (header : Header) (body : Bytes)
      (named : lower header.name = ascii "content-length")
      (announced : header.value = printNat 10 body.length)
      (bounded : body.length ≤ maxSize)
  | chunked (header : Header) (chunks : List Chunk) (last : SizeLine 0)
      (named : lower header.name = ascii "transfer-encoding")
      (announced : lower header.value = ascii "chunked")
      (bounded : (Chunk.payload chunks).length ≤ maxSize)

/-- The header that announces the length of a body. -/
def Header.contentLength (body : Bytes) : Header where
  name := ascii "Content-Length"
  value := printNat 10 body.length
  nameNonempty := by decide
  nameClean := List.all_iff_forall_prop.mp (by decide)
  nameTrimmed := by decide
  valueClean byte member := by
    obtain ⟨_, noReturn, noFeed, _⟩ :=
      printNat_avoids (by omega) (by omega) body.length byte member
    exact ⟨noReturn, noFeed⟩
  valueTrimmed leading := by
    obtain ⟨_, _, _, noSpace, _⟩ := printNat_avoids (by omega) (by omega)
      body.length 32 (List.mem_of_mem_head? leading)
    exact noSpace rfl

namespace Framing

def ofBody (body : Bytes) (bounded : body.length ≤ maxSize) : Framing :=
  length (.contentLength body) body rfl rfl bounded

def headers : Framing → List Header
  | none => []
  | length header _ _ _ _ => [header]
  | chunked header _ _ _ _ _ => [header]

/-- The body that the framing carries. -/
def body : Framing → Bytes
  | none => []
  | length _ body _ _ _ => body
  | chunked _ chunks _ _ _ _ => Chunk.payload chunks

/-- What follows the empty line. -/
def bytes : Framing → Bytes
  | none => []
  | length _ body _ _ _ => body
  | chunked _ chunks last _ _ _ =>
      (chunks.map Chunk.bytes).flatten ++ last.text ++ crlf ++ crlf

/-- No body, or one with an announced length that fits an `int`. -/
def Short : Framing → Prop
  | none => True
  | length _ body _ _ _ => body.length < 2 ^ 31
  | chunked .. => False

instance decidableShort : (framing : Framing) → Decidable framing.Short
  | none => isTrue trivial
  | length _ body _ _ _ => inferInstanceAs (Decidable (body.length < 2 ^ 31))
  | chunked .. => isFalse id

end Framing

inductive Version where
  | http10
  | http11

def Version.text : Version → Bytes
  | http10 => ascii "HTTP/1.0"
  | http11 => ascii "HTTP/1.1"

def Method.text : Method → Bytes
  | PUT => ascii "PUT"
  | GET => ascii "GET"
  | POST => ascii "POST"
  | DELETE => ascii "DELETE"

structure WireRequest where
  method : Method
  path : Bytes
  version : Version := .http11
  before : List Header := []
  framing : Framing := .none
  after : List Header := []
  pathNonempty : path ≠ []
  pathClean : ∀ byte ∈ path, byte ≠ 32 ∧ byte ≠ 13 ∧ byte ≠ 10
  unframed : ∀ header ∈ before ++ after,
    lower header.name ≠ ascii "transfer-encoding" ∧
      lower header.name ≠ ascii "content-length"

namespace WireRequest

def line (request : WireRequest) : Bytes :=
  request.method.text ++ 32 :: (request.path ++ 32 :: request.version.text)

def headers (request : WireRequest) : List Header :=
  request.before ++ request.framing.headers ++ request.after

def bytes (request : WireRequest) : Bytes :=
  request.line ++ crlf ++ Header.bytes request.headers ++ crlf ++
    request.framing.bytes

/-- The request object after the head has been read. -/
def head (request : WireRequest) : HttpRequest :=
  Header.store request.headers
    { method := some request.method, path := request.path }

/-- The request object that a parser should build. -/
def parsed (request : WireRequest) : HttpRequest :=
  { request.head with body := request.framing.body }

end WireRequest

/-- A request line alone. -/
structure RequestLine where
  method : Method
  path : Bytes
  version : Version := .http11
  pathNonempty : path ≠ []
  pathClean : ∀ byte ∈ path, byte ≠ 32 ∧ byte ≠ 13 ∧ byte ≠ 10

theorem unframed_nil : ∀ header ∈ ([] : List Header) ++ [],
    lower header.name ≠ ascii "transfer-encoding" ∧
      lower header.name ≠ ascii "content-length" := by
  simp

/-- The request with this line, without headers and without a body. -/
def RequestLine.bare (line : RequestLine) : WireRequest where
  method := line.method
  path := line.path
  version := line.version
  pathNonempty := line.pathNonempty
  pathClean := line.pathClean
  unframed := unframed_nil

end Natsu.Http
