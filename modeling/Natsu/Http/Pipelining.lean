import Natsu.Http.RoundTrip

/-!
# Pipelined requests

Requests may follow one another in the cache.  A request without a body or
with an announced length that fits an `int` is taken off exactly.  The last
chunk of a chunked body stays in the cache, where the next `parse()` takes it
for a request line.
-/

namespace Natsu.Http

open Natsu.Foundation

namespace HttpParser

/-- A fresh parser takes the request off the bytes that follow it, and the
next `parse()` is that of a fresh parser given these bytes. -/
def Exact (request : WireRequest) (rest : Bytes) : Prop :=
  ∃ parser, parseData {} (request.bytes ++ rest) = (.ok .success, parser) ∧
    parser.req = some request.parsed ∧ parser.cache = rest ∧
    parser.parse = parseData {} rest

/-- After a first result, call `parse()` up to `calls` times as long as it
succeeds.  The requests are collected. -/
def parseRest : (calls : Nat) → Verdict × HttpParser →
    List HttpRequest × Verdict × HttpParser
  | calls + 1, (.ok .success, parser) =>
      let (requests, result) := parseRest calls parser.parse
      (parser.req.toList ++ requests, result)
  | _, result => ([], result)

/-- The concatenated requests are parsed into exactly themselves, and then
the parser waits for more with nothing left. -/
def Pipelined (requests : List WireRequest) : Prop :=
  parseRest requests.length
      (parseData {} (requests.map WireRequest.bytes).flatten) =
    (requests.map WireRequest.parsed, .ok .indeterminate, {})

theorem exact_of_short {request : WireRequest}
    (short : request.framing.Short) (rest : Bytes) : Exact request rest :=
  ⟨_, run_short request short rest, rfl, rfl, rfl⟩

theorem pipelined_of_short {requests : List WireRequest}
    (short : ∀ request ∈ requests, request.framing.Short) :
    Pipelined requests := by
  unfold Pipelined
  induction requests with
  | nil => exact congrArg (Prod.mk []) (loop.run_leave rfl)
  | cons request requests induction =>
      have rest := induction fun other member => short other (by simp [member])
      have first : parseData {} ((request :: requests).map
          WireRequest.bytes).flatten = _ :=
        run_short request (short request (by simp)) _
      have next : ∀ parser : HttpParser,
          parser.cache = (requests.map WireRequest.bytes).flatten →
          parser.parse = parseData {}
            (requests.map WireRequest.bytes).flatten := by
        intro parser cached
        rw [parse, cached]
        rfl
      rw [first]
      simp only [List.length_cons, parseRest]
      rw [next _ rfl, rest]
      rfl

section Length

variable {request : WireRequest} {header : Header} {body : Bytes}
  {named : lower header.name = ascii "content-length"}
  {announced : header.value = printNat 10 body.length}
  {bounded : body.length ≤ maxSize}

/-- The announced length is read through an `int`. -/
private theorem announcedLength_ne
    (framed : request.framing = .length header body named announced bounded)
    (long : 2 ^ 31 ≤ body.length) :
    announcedLength request.head ≠ body.length := by
  have value := request.header_head_of_framing
    (fun header member => (request.unframed header member).2)
    (by rw [framed]; rfl) named
  have nonempty : (printNat 10 body.length).length ≠ 0 := by
    simpa using printNat_ne_nil 10 body.length
  unfold announcedLength
  rw [value, announced]
  simp only [nonempty, ne_eq, not_false_eq_true, if_true, atoi]
  unfold maxSize at bounded
  rcases toSizeT_toInt (strtol 10 (printNat 10 body.length)) with
    small | large <;> omega

theorem not_exact_of_long
    (framed : request.framing = .length header body named announced bounded)
    (long : 2 ^ 31 ≤ body.length) (rest : Bytes) : ¬ Exact request rest := by
  rintro ⟨parser, run, _, left, _⟩
  have different := announcedLength_ne framed long
  have wire : request.framing.bytes = body := by rw [framed]; rfl
  have encoding := request.transferEncoding_of_length
    (by simpa [framed, Framing.headers] using named)
  have whole := run_delimited request rest encoding
  rw [← parseData_fresh, run, wire] at whole
  dsimp only at whole
  split at whole
  · rename_i enough
    have cached := congrArg (fun result => result.2.cache.length) whole
    simp only [left, List.length_drop, List.length_append] at cached enough
    omega
  · simp at whole

end Length

section Chunked

theorem parseBodyWithChunk_next {parser next : HttpParser}
    (round : parser.parseBodyWithChunk = .inl next) :
    next.parseFunc = parser.parseFunc := by
  unfold parseBodyWithChunk appendChunk at round
  dsimp only at round
  repeat' split at round
  all_goals simp only [returns, throws, reduceCtorEq, Sum.inl.injEq] at round
  rw [← round]

theorem parseBodyWithChunk_success {parser final : HttpParser}
    (leaves : parser.parseBodyWithChunk = .inr (.ok .success, final)) :
    ∃ position, find crlf final.cache = some position := by
  unfold parseBodyWithChunk appendChunk at leaves
  dsimp only at leaves
  repeat' split at leaves
  all_goals
    simp only [returns, throws, reduceCtorEq, Sum.inr.injEq, Prod.mk.injEq,
      Except.ok.injEq, true_and, false_and] at leaves
  subst leaves
  exact ⟨_, ‹_›⟩

/-- A chunked body that is read to its end leaves a line in the cache. -/
theorem find_crlf_of_success (parser : HttpParser) :
    parser.parseFunc = .parseBodyWithChunk → ∀ {final},
      loop.run parser = (.ok .success, final) →
      ∃ position, find crlf final.cache = some position := by
  induction parser using loop.induct with
  | round parser induction =>
      intro inBody final run
      have body : loop.body parser = parser.parseBodyWithChunk := by
        show parser.activate = _
        simp only [activate, inBody]
      cases round : parser.parseBodyWithChunk with
      | inl next =>
          rw [loop.run_next (body.trans round)] at run
          exact induction next (body.trans round)
            ((parseBodyWithChunk_next round).trans inBody) run
      | inr result =>
          rw [loop.run_leave (body.trans round)] at run
          subst run
          exact parseBodyWithChunk_success round

variable {request : WireRequest} {header : Header} {chunks : List Chunk}
  {last : SizeLine 0}
  {named : lower header.name = ascii "transfer-encoding"}
  {announced : lower header.value = ascii "chunked"}
  {bounded : (Chunk.payload chunks).length ≤ maxSize}

private theorem strcaseeq_chunked
    (announced : lower header.value = ascii "chunked") :
    strcaseeq (ascii "CHUNKED") header.value = true := by
  have noNul : (0 : UInt8) ∉ header.value := by
    intro member
    have lowered : tolower 0 ∈ lower header.value :=
      List.mem_map_of_mem member
    rw [announced] at lowered
    exact absurd lowered (by decide)
  unfold strcaseeq
  rw [cstr_eq_self noNul, announced]
  decide

/-- After the head of a chunked request the chunks are read. -/
theorem run_encoded
    (framed : request.framing =
      .chunked header chunks last named announced bounded) (rest : Bytes) :
    loop.run { cache := request.bytes ++ rest } = loop.run {
      parseFunc := .parseBodyWithChunk
      req := some request.head
      cache := request.framing.bytes ++ rest } := by
  have value := request.header_head_of_framing
    (fun header member => (request.unframed header member).1)
    (by rw [framed]; rfl) named
  have nonempty : header.value.length ≠ 0 := by
    have width := congrArg List.length announced
    simp only [lower, List.length_map] at width
    rw [width]
    decide
  have blank := body_blank {
    parseFunc := .parseHeaders
    req := some request.head
    cache := crlf ++ (request.framing.bytes ++ rest) } rfl rfl rfl
  simp only [endHeaders, value, nonempty, ne_eq, not_false_eq_true, if_true,
    strcaseeq_chunked announced] at blank
  rw [run_head, loop.run_next blank]

theorem stringtoint_text {size : Nat} (line : SizeLine size)
    (small : size < 2 ^ 31) : stringtoint line.text = size := by
  unfold stringtoint SizeLine.text
  rw [strtol_digits (by omega) line.nonempty line.hexadecimal line.separated,
    line.denotes]
  have inRange : min (2 ^ 63 - 1) (size : Int) = size := by omega
  rw [inRange]
  exact toInt_of_lt small

theorem find_crlf_text {size : Nat} (line : SizeLine size) :
    find crlf line.text = none := by
  apply find_crlf_eq_none
  intro member
  rcases List.mem_append.mp member with inDigits | inExtension
  · exact (digit_avoids (line.hexadecimal 13 inDigits)).2.1 rfl
  · exact line.clean inExtension

theorem len_text {size : Nat} (line : SizeLine size) (small : size < 2 ^ 31) :
    toSizeT (stringtoint line.text) = size := by
  rw [stringtoint_text line small]
  exact toSizeT_of_lt (by omega)

/-- What is done with a size line and the bytes behind it. -/
theorem body_line {parser : HttpParser} {filled : HttpRequest}
    {line part : Bytes} (inBody : parser.parseFunc = .parseBodyWithChunk)
    (started : parser.req = some filled) (unbroken : find crlf line = none)
    (cached : parser.cache = line ++ crlf ++ part) {len : Nat}
    (isLen : toSizeT (stringtoint line) = len) :
    loop.body parser =
      if len = 0 then parser.returns .success
      else if part.length + 2 < (len + 4) % 2 ^ 64 then
        parser.returns .indeterminate
      else if maxSize - filled.body.length < len then
        { parser with cache := part }.throws .lengthError
      else
        .inl { parser with
          req := some { filled with body := filled.body ++ part.take len }
          cache := part.drop (len + 2) } := by
  have found : find crlf parser.cache = some line.length := by
    rw [cached]
    exact find_crlf_line unbroken part
  have front : parser.cache.take line.length = line := by
    rw [cached, List.append_assoc, List.take_left]
  have behind : parser.cache.drop (line.length + 2) = part := by
    rw [cached, show line.length + 2 = (line ++ crlf).length by simp [crlf],
      List.drop_left]
  have remaining : parser.cache.length - line.length = part.length + 2 := by
    rw [cached]
    simp only [List.length_append, crlf, List.length_cons, List.length_nil]
    omega
  show parser.activate = _
  simp only [activate, inBody, parseBodyWithChunk, found, front, isLen,
    remaining, appendChunk, started, behind]

/-- One chunk at the front of the cache goes to the body. -/
theorem body_chunk {parser : HttpParser} {filled : HttpRequest}
    (chunk : Chunk) {rest : Bytes}
    (inBody : parser.parseFunc = .parseBodyWithChunk)
    (started : parser.req = some filled)
    (cached : parser.cache = chunk.bytes ++ rest)
    (small : chunk.data.length < 2 ^ 31)
    (room : filled.body.length + chunk.data.length ≤ maxSize) :
    loop.body parser = .inl { parser with
      req := some { filled with body := filled.body ++ chunk.data }
      cache := rest } := by
  have shape : parser.cache = chunk.size.text ++ crlf ++
      (chunk.data ++ (crlf ++ rest)) := by
    rw [cached]
    simp [Chunk.bytes]
  have nonzero : chunk.data.length ≠ 0 := by simpa using chunk.nonempty
  have complete : ¬ (chunk.data ++ (crlf ++ rest)).length + 2 <
      (chunk.data.length + 4) % 2 ^ 64 := by
    simp only [List.length_append, crlf, List.length_cons, List.length_nil]
    omega
  have fits : ¬ maxSize - filled.body.length < chunk.data.length := by omega
  have skipped : (chunk.data ++ (crlf ++ rest)).drop
      (chunk.data.length + 2) = rest := by
    rw [← List.drop_drop, List.drop_left]
    rfl
  rw [body_line inBody started (find_crlf_text chunk.size) shape
    (len_text chunk.size small), if_neg nonzero, if_neg complete, if_neg fits,
    skipped, List.take_left]

/-- The chunks are moved to the body one by one. -/
theorem run_chunks (chunks : List Chunk) (rest : Bytes)
    (small : ∀ chunk ∈ chunks, chunk.data.length < 2 ^ 31) :
    ∀ (parser : HttpParser) (filled : HttpRequest),
      parser.parseFunc = .parseBodyWithChunk → parser.req = some filled →
      parser.cache = (chunks.map Chunk.bytes).flatten ++ rest →
      filled.body.length + (Chunk.payload chunks).length ≤ maxSize →
      loop.run parser = loop.run { parser with
        req := some { filled with
          body := filled.body ++ Chunk.payload chunks }
        cache := rest } := by
  induction chunks with
  | nil =>
      intro parser filled _ started cached _
      obtain rfl : parser.cache = rest := cached
      simp only [Chunk.payload, List.map_nil, List.flatten_nil,
        List.append_nil]
      rw [← started]
  | cons chunk chunks induction =>
      intro parser filled inBody started cached room
      have payload : Chunk.payload (chunk :: chunks) =
          chunk.data ++ Chunk.payload chunks := by simp [Chunk.payload]
      rw [payload, List.length_append] at room
      have front : parser.cache = chunk.bytes ++
          ((chunks.map Chunk.bytes).flatten ++ rest) := by
        rw [cached]
        simp
      rw [loop.run_next (body_chunk chunk inBody started front
        (small chunk (by simp)) (by omega)), payload, ← List.append_assoc]
      have enough : (filled.body ++ chunk.data).length +
          (Chunk.payload chunks).length ≤ maxSize := by
        rw [List.length_append]
        omega
      exact induction (fun other member => small other (by simp [member]))
        { parser with
          req := some { filled with body := filled.body ++ chunk.data }
          cache := (chunks.map Chunk.bytes).flatten ++ rest }
        { filled with body := filled.body ++ chunk.data }
        inBody rfl rfl enough

/-- The last chunk ends the body and stays in the cache. -/
theorem run_last {parser : HttpParser} (last : SizeLine 0) {rest : Bytes}
    (inBody : parser.parseFunc = .parseBodyWithChunk)
    (cached : parser.cache = last.text ++ crlf ++ rest) :
    loop.run parser = (.ok .success, parser) := by
  have found : find crlf parser.cache = some last.text.length := by
    rw [cached]
    exact find_crlf_line (find_crlf_text last) rest
  have line : parser.cache.take last.text.length = last.text := by
    rw [cached, List.append_assoc, List.take_left]
  have zero := len_text last (by omega)
  apply loop.run_leave
  show parser.activate = _
  simp only [activate, inBody, parseBodyWithChunk, found, line, zero, if_true,
    returns]

/-- A chunked request is read back, but its last chunk and the final line
end stay in the cache. -/
theorem run_chunked
    (framed : request.framing =
      .chunked header chunks last named announced bounded)
    (small : ∀ chunk ∈ chunks, chunk.data.length < 2 ^ 31) (rest : Bytes) :
    loop.run { cache := request.bytes ++ rest } = (.ok .success, {
      parseFunc := .parseBodyWithChunk
      req := some request.parsed
      cache := last.text ++ crlf ++ (crlf ++ rest) }) := by
  have wire : request.framing.bytes ++ rest =
      (chunks.map Chunk.bytes).flatten ++
        (last.text ++ crlf ++ (crlf ++ rest)) := by
    rw [framed]
    simp [Framing.bytes]
  have payload : request.framing.body = Chunk.payload chunks := by
    rw [framed]
    rfl
  rw [run_encoded framed, wire, run_chunks chunks _ small _ request.head rfl
    rfl rfl (by rw [request.head_body]; simpa using bounded),
    run_last last rfl rfl]
  simp only [WireRequest.parsed, payload, request.head_body, List.nil_append]

theorem not_exact_of_chunked
    (framed : request.framing =
      .chunked header chunks last named announced bounded) :
    ¬ Exact request [] := by
  rintro ⟨parser, run, _, left, _⟩
  rw [parseData_fresh, run_encoded framed] at run
  obtain ⟨position, found⟩ := find_crlf_of_success _ rfl run
  rw [left] at found
  simp [find, crlf] at found

end Chunked

end HttpParser

/-- A request is taken off exactly, whatever follows it, if and only if it has
no body or a body whose announced length is below 2^31.  Sequences of such
requests are parsed into exactly themselves. -/
theorem requests_consumed_exactly (request : WireRequest)
    (requests : List WireRequest) :
    ((∀ rest, HttpParser.Exact request rest) ↔ request.framing.Short) ∧
      ((∀ following ∈ requests, following.framing.Short) →
        HttpParser.Pipelined requests) := by
  refine ⟨?_, HttpParser.pipelined_of_short⟩
  constructor
  · intro exact
    cases framing : request.framing with
    | none => trivial
    | length header body named announced bounded =>
        by_contra long
        have large : 2 ^ 31 ≤ body.length := Nat.le_of_not_lt long
        exact HttpParser.not_exact_of_long framing large [] (exact [])
    | chunked header chunks last named announced bounded =>
        exact HttpParser.not_exact_of_chunked framing (exact [])
  · exact HttpParser.exact_of_short

namespace Example

def get : WireRequest :=
  { method := .GET
    path := ascii "/"
    pathNonempty := by decide
    pathClean := List.all_iff_forall_prop.mp (by decide)
    unframed := by decide }

def chunkedCoding : Header :=
  { name := ascii "Transfer-Encoding", value := ascii "chunked"
    nameNonempty := by decide
    nameClean := List.all_iff_forall_prop.mp (by decide)
    nameTrimmed := by decide
    valueClean := List.all_iff_forall_prop.mp (by decide)
    valueTrimmed := by decide }

def hello : Chunk :=
  { data := ascii "hello", nonempty := by decide
    size :=
      { digits := ascii "5", nonempty := by decide
        hexadecimal := List.all_iff_forall_prop.mp (by decide)
        denotes := by decide, separated := .inl rfl, clean := by simp } }

def lastChunk : SizeLine 0 :=
  { digits := ascii "0", nonempty := by decide
    hexadecimal := List.all_iff_forall_prop.mp (by decide)
    denotes := by decide, separated := .inl rfl, clean := by simp }

/-- A chunked request with one chunk. -/
def put : WireRequest :=
  { method := .PUT
    path := ascii "/key"
    framing := .chunked chunkedCoding [hello] lastChunk (by decide) (by decide)
      (by decide)
    pathNonempty := by decide
    pathClean := List.all_iff_forall_prop.mp (by decide)
    unframed := by decide }

theorem requests_consumed_exactly_post :
    (∀ rest, HttpParser.Exact post rest) ∧
      HttpParser.Pipelined [post, get, post] :=
  ⟨(requests_consumed_exactly post []).1.2 (by decide),
    (requests_consumed_exactly post [post, get, post]).2 (by decide)⟩

/-- The next request starts with the last chunk of this one. -/
theorem chunked_request_left_over :
    HttpParser.parseData {} (put.bytes ++ get.bytes) = (.ok .success, {
      parseFunc := .parseBodyWithChunk
      req := some put.parsed
      cache := ascii "0\r\n\r\n" ++ get.bytes }) ∧
      ¬ HttpParser.Exact put get.bytes ∧
      ¬ HttpParser.Pipelined [put, get] := by
  have run : HttpParser.parseData {} (put.bytes ++ get.bytes) = _ :=
    HttpParser.run_chunked rfl (by decide) get.bytes
  refine ⟨run, ?_, ?_⟩
  · rintro ⟨parser, success, _, left, _⟩
    rw [run] at success
    have cached := congrArg (fun result => result.2.cache.length) success
    rw [left] at cached
    exact absurd cached (by decide)
  · intro pipelined
    have verdict := congrArg (fun result => result.2.1) pipelined
    exact absurd verdict (by decide)

end Example

end Natsu.Http
