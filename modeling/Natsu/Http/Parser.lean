import Natsu.Foundation.CInteger
import Natsu.Foundation.Resumable
import Natsu.Http.Request

/-!
# The HTTP request parser

`HttpParser` keeps the member function to resume with in `parse_func_` and the
bytes not yet used in `cache_`.  Every call that one of these functions makes
to itself or through `parse_func_` is its last action, as is a further turn of
the chunk loop.  Each function is therefore given as one activation, which
either goes on with the parser it left (`Sum.inl`) or returns.
-/

namespace Natsu.Http

open Natsu.Foundation

inductive Tribool where
  | success
  | failure
  | indeterminate
  deriving DecidableEq, Repr

/-- What a call that does not return ends with: the `std::length_error` of
`std::string::append`, or the use of an empty `req_`. -/
inductive Fault where
  | lengthError
  | nullRequest
  deriving DecidableEq, Repr

abbrev Verdict := Except Fault Tribool

inductive ParseFunction where
  | parseFirstLine
  | parseHeaders
  | parseBodyWithLength
  | parseBodyWithChunk
  deriving DecidableEq, Repr

structure HttpParser where
  parseFunc : ParseFunction := .parseFirstLine
  contentLength : Nat := 0
  req : Option HttpRequest := none
  cache : Bytes := []

def minLine : Nat := 14
def maxUrl : Nat := 1024
def maxHeader : Nat := 1024
def maxChunkNum : Nat := 10

/-- The number of spaces at the start. -/
def trimleft (text : Bytes) : Nat := (text.takeWhile (· == 32)).length

/-- The last position after the first byte that is no space, and otherwise
the first position. -/
def trimright (text : Bytes) : Nat :=
  (text.tail.reverse.dropWhile (· == 32)).length

def stringtoint (text : Bytes) : Int := toInt (strtol 16 text)

namespace HttpParser

/-- Either the parser to go on with, or the returned verdict and the parser
left behind. -/
abbrev Activation := HttpParser ⊕ (Verdict × HttpParser)

def returns (parser : HttpParser) (verdict : Tribool) : Activation :=
  .inr (.ok verdict, parser)

def throws (parser : HttpParser) (fault : Fault) : Activation :=
  .inr (.error fault, parser)

def methodOf (text : Bytes) : Option Method :=
  if strcaseeq (ascii "GET") text then some .GET
  else if strcaseeq (ascii "POST") text then some .POST
  else if strcaseeq (ascii "PUT") text then some .PUT
  else if strcaseeq (ascii "DELETE") text then some .DELETE
  else none

/-- Take the line at the front of the cache and go on with it.  Without a
line end the parser waits, up to a limit. -/
def readLine (parser : HttpParser) (limit : Nat)
    (use : HttpParser → Bytes → Activation) : Activation :=
  match find crlf parser.cache with
  | some position =>
      use { parser with cache := parser.cache.drop (position + 2) }
        (parser.cache.take position)
  | none =>
      if parser.cache.length > limit then parser.returns .failure
      else parser.returns .indeterminate

def requestLine (parser : HttpParser) (line : Bytes) : Activation :=
  if minLine > line.length then parser.returns .failure
  else if strcaseeq (ascii "HTTP/1.") (line.take 7) then
    parser.returns .failure
  else
    match find [32] line with
    | none => parser.returns .failure
    | some first =>
        match findFrom [32] (first + 1) line with
        | none => parser.returns .failure
        | some second =>
            let path := (line.drop (first + 1)).take (second - first - 1)
            match methodOf (line.take first) with
            | none =>
                { parser with req := some { path := path } }.returns .failure
            | some method =>
                .inl { parser with
                  req := some { path := path, method := some method }
                  parseFunc := .parseHeaders }

def parseFirstLine (parser : HttpParser) : Activation :=
  parser.readLine maxUrl requestLine

/-- The length that `Content-Length` announces, 0 without it. -/
def announcedLength (request : HttpRequest) : Nat :=
  let len := request.header (ascii "content-length")
  if len.length ≠ 0 then toSizeT (atoi len) else 0

/-- The end of the header block, where the way to read the body is chosen. -/
def endHeaders (parser : HttpParser) (request : HttpRequest) : Activation :=
  let encode := request.header (ascii "transfer-encoding")
  if encode.length ≠ 0 then
    if strcaseeq (ascii "CHUNKED") encode then
      .inl { parser with parseFunc := .parseBodyWithChunk }
    else .inl { parser with parseFunc := .parseBodyWithLength }
  else
    let parser := { parser with
      parseFunc := .parseBodyWithLength
      contentLength := announcedLength request }
    if announcedLength request = 0 then parser.returns .success
    else .inl parser

/-- The name and the value that a header line gives. -/
def headerOf (line : Bytes) : Option (Bytes × Bytes) :=
  match find [58] line with
  | none => none
  | some mid =>
      let key := line.take mid
      let value := line.drop (mid + 1)
      if key = [] then none
      else some (lower (key.take (trimright key + 1)),
        value.drop (trimleft value))

def headerLine (parser : HttpParser) (line : Bytes) : Activation :=
  if line = [] then
    match parser.req with
    | none => parser.throws .nullRequest
    | some request => parser.endHeaders request
  else
    match headerOf line with
    | none => parser.returns .failure
    | some (key, value) =>
        match parser.req with
        | none => parser.throws .nullRequest
        | some request =>
            .inl { parser with req := some (request.setHeader key value) }

def parseHeaders (parser : HttpParser) : Activation :=
  parser.readLine maxHeader headerLine

def parseBodyWithLength (parser : HttpParser) : Activation :=
  if parser.cache.length ≥ parser.contentLength then
    match parser.req with
    | none => parser.throws .nullRequest
    | some request =>
        { parser with
          req := some { request with
            body := parser.cache.take parser.contentLength }
          cache := parser.cache.drop parser.contentLength }.returns .success
  else parser.returns .indeterminate

/-- Move the chunk behind its size line to the body. -/
def appendChunk (parser : HttpParser) (position len : Nat) : Activation :=
  let parser := { parser with cache := parser.cache.drop (position + 2) }
  match parser.req with
  | none => parser.throws .nullRequest
  | some request =>
      if maxSize - request.body.length < len then parser.throws .lengthError
      else
        .inl { parser with
          req := some { request with
            body := request.body ++ parser.cache.take len }
          cache := parser.cache.drop (len + 2) }

def parseBodyWithChunk (parser : HttpParser) : Activation :=
  match find crlf parser.cache with
  | none =>
      if parser.cache.length > maxChunkNum then parser.returns .failure
      else parser.returns .indeterminate
  | some position =>
      let len := toSizeT (stringtoint (parser.cache.take position))
      if len = 0 then parser.returns .success
      else if parser.cache.length - position < (len + 4) % 2 ^ 64 then
        parser.returns .indeterminate
      else parser.appendChunk position len

/-- One call through `parse_func_`. -/
def activate (parser : HttpParser) : Activation :=
  match parser.parseFunc with
  | .parseFirstLine => parser.parseFirstLine
  | .parseHeaders => parser.parseHeaders
  | .parseBodyWithLength => parser.parseBodyWithLength
  | .parseBodyWithChunk => parser.parseBodyWithChunk

/-- `cache_.append(pData, len)`. -/
def append (parser : HttpParser) (data : Bytes) : HttpParser :=
  { parser with cache := parser.cache ++ data }

section Rounds

theorem requestLine_cache {parser next : HttpParser} {line : Bytes}
    (round : parser.requestLine line = .inl next) :
    next.cache = parser.cache := by
  unfold requestLine at round
  repeat' split at round
  all_goals simp only [returns, reduceCtorEq, Sum.inl.injEq] at round
  rw [← round]

theorem endHeaders_cache {parser next : HttpParser} {request : HttpRequest}
    (round : parser.endHeaders request = .inl next) :
    next.cache = parser.cache := by
  unfold endHeaders at round
  dsimp only at round
  repeat' split at round
  all_goals
    simp only [returns, reduceCtorEq, Sum.inl.injEq] at round
    try rw [← round]

theorem headerLine_cache {parser next : HttpParser} {line : Bytes}
    (round : parser.headerLine line = .inl next) :
    next.cache = parser.cache := by
  unfold headerLine at round
  repeat' split at round
  all_goals
    first
    | exact endHeaders_cache round
    | simp only [returns, throws, reduceCtorEq, Sum.inl.injEq] at round
  rw [← round]

theorem readLine_shrinks {parser next : HttpParser} {limit : Nat}
    {use : HttpParser → Bytes → Activation}
    (keeps : ∀ {parser next : HttpParser} {line : Bytes},
      use parser line = .inl next → next.cache = parser.cache)
    (round : parser.readLine limit use = .inl next) :
    next.cache.length < parser.cache.length := by
  unfold readLine at round
  split at round
  · rename_i position found
    have bound := find_bound found
    have width : crlf.length = 2 := rfl
    rw [keeps round, List.length_drop]
    omega
  · split at round <;> simp [returns] at round

theorem appendChunk_shrinks {parser next : HttpParser} {position len : Nat}
    (bound : position + 2 ≤ parser.cache.length)
    (round : parser.appendChunk position len = .inl next) :
    next.cache.length < parser.cache.length := by
  unfold appendChunk at round
  dsimp only at round
  repeat' split at round
  all_goals simp only [throws, reduceCtorEq, Sum.inl.injEq] at round
  rw [← round]
  simp only [List.length_drop]
  omega

theorem parseBodyWithChunk_shrinks {parser next : HttpParser}
    (round : parser.parseBodyWithChunk = .inl next) :
    next.cache.length < parser.cache.length := by
  unfold parseBodyWithChunk at round
  split at round
  · split at round <;> simp [returns] at round
  · rename_i position found
    dsimp only at round
    split at round
    · simp [returns] at round
    · split at round
      · simp [returns] at round
      · exact appendChunk_shrinks (find_bound found) round

theorem activate_shrinks {parser next : HttpParser}
    (round : parser.activate = .inl next) :
    next.cache.length < parser.cache.length := by
  unfold activate at round
  split at round
  · exact readLine_shrinks requestLine_cache round
  · exact readLine_shrinks headerLine_cache round
  · unfold parseBodyWithLength at round
    repeat' split at round
    all_goals simp [returns, throws] at round
  · exact parseBodyWithChunk_shrinks round

end Rounds

/-- The calls through `parse_func_` up to the one that returns. -/
def loop : Loop HttpParser (Verdict × HttpParser) where
  body := activate
  measure parser := parser.cache.length
  decreases := activate_shrinks

/-- `parse(pData, len)`. -/
def parseData (parser : HttpParser) (data : Bytes) : Verdict × HttpParser :=
  loop.run (parser.append data)

theorem parseData_fresh (data : Bytes) :
    parseData {} data = loop.run { cache := data } := rfl

/-- `parse()`: everything but the cache starts afresh. -/
def parse (parser : HttpParser) : Verdict × HttpParser :=
  loop.run { cache := parser.cache }

end HttpParser

end Natsu.Http
