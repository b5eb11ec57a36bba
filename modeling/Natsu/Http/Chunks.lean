import Natsu.Http.Pipelining
import Natsu.Http.Segmentation

/-!
# Chunked bodies in pieces

The chunks of a body, cut into reads anywhere, are put together again.  Up to
the line of the last chunk the parser waits: what it holds of a size line is
below its limit, and what it holds of a chunk is too short to be taken.
-/

namespace Natsu.Http

open Natsu.Foundation

namespace SizeLine

variable {size : Nat} {length : Bytes}

theorem digitValue_spelled (spelled : lower length = printNat 16 size) :
    ∀ byte ∈ length, (digitValue byte).any (· < 16) := by
  intro byte member
  have lowered : tolower byte ∈ printNat 16 size := by
    rw [← spelled]
    exact List.mem_map_of_mem member
  rw [← digitValue_tolower]
  exact digitValue_printNat (by omega) (by omega) size _ lowered

theorem spelled_ne_nil (spelled : lower length = printNat 16 size) :
    length ≠ [] := by
  rintro rfl
  exact printNat_ne_nil 16 size spelled.symm

theorem digitsValue_spelled (spelled : lower length = printNat 16 size) :
    digitsValue 16 (leadingDigits 16 length) = size := by
  rw [← leadingDigits_lower, spelled,
    leadingDigits_printNat (by omega) (by omega), digitsValue_baseDigits]

/-- The size in hexadecimal, where the letters may be of either case. -/
def ofSpelled (length : Bytes) (spelled : lower length = printNat 16 size) :
    SizeLine size where
  digits := length
  nonempty := spelled_ne_nil spelled
  hexadecimal := digitValue_spelled spelled
  denotes := digitsValue_spelled spelled
  separated := separated_nil
  clean := List.not_mem_nil

theorem text_ofSpelled (spelled : lower length = printNat 16 size) :
    (ofSpelled length spelled).text = length :=
  List.append_nil length

end SizeLine

/-- A chunk with its length in hexadecimal. -/
structure HexChunk where
  data : Bytes
  length : Bytes
  nonempty : data ≠ []
  small : data.length < 2 ^ 31
  spelled : lower length = printNat 16 data.length

namespace HexChunk

def bytes (chunk : HexChunk) : Bytes :=
  chunk.length ++ crlf ++ chunk.data ++ crlf

/-- The chunks up to the line of the last, empty one. -/
def throughLast (chunks : List HexChunk) : Bytes :=
  (chunks.map bytes).flatten ++ (ascii "0" ++ crlf)

def encoding (chunks : List HexChunk) : Bytes := throughLast chunks ++ crlf

def payload (chunks : List HexChunk) : Bytes := (chunks.map data).flatten

def lastLine : SizeLine 0 := .ofSpelled (ascii "0") (by decide)

def chunk (chunk : HexChunk) : Chunk where
  data := chunk.data
  size := .ofSpelled chunk.length chunk.spelled
  nonempty := chunk.nonempty

/-- A length below 2^31 has at most eight digits. -/
theorem length_width (chunk : HexChunk) :
    chunk.chunk.size.text.length ≤ 8 := by
  have same : chunk.length.length =
      (printNat 16 chunk.data.length).length := by
    rw [← chunk.spelled]
    simp [lower]
  have bound := chunk.small
  show (SizeLine.ofSpelled chunk.length chunk.spelled).text.length ≤ 8
  rw [SizeLine.text_ofSpelled, same]
  exact length_printNat_le (by omega) (by omega) (by omega)

theorem bytes_chunk (chunk : HexChunk) : chunk.chunk.bytes = chunk.bytes := by
  show (SizeLine.ofSpelled chunk.length chunk.spelled).text ++ crlf ++
    chunk.data ++ crlf = _
  rw [SizeLine.text_ofSpelled]
  rfl

theorem map_bytes_chunk (chunks : List HexChunk) :
    (chunks.map chunk).map Chunk.bytes = chunks.map bytes := by
  rw [List.map_map]
  exact List.map_congr_left fun chunk _ => chunk.bytes_chunk

theorem payload_chunk (chunks : List HexChunk) :
    Chunk.payload (chunks.map chunk) = payload chunks := by
  unfold Chunk.payload payload
  rw [List.map_map]
  rfl

end HexChunk

namespace HttpParser

/-- The parser has just entered `parse_body_with_chunk` for `request`, whose
body is still empty. -/
structure Entered (parser : HttpParser) (request : HttpRequest) : Prop where
  inBody : parser.parseFunc = .parseBodyWithChunk
  started : parser.req = some request
  empty : request.body = []
  unread : parser.cache = []

/-- Call `parse(pData, len)` for every read.  The result is that of the last
call. -/
def parseEach (parser : HttpParser) (reads : List Bytes) :
    Verdict × HttpParser :=
  reads.foldl (fun result data => result.2.parseData data)
    (.ok .indeterminate, parser)

section Parts

variable {parser : HttpParser}

/-- A line that has not ended stays below the limit if the whole line
does. -/
theorem run_unended {line rest : Bytes}
    (inBody : parser.parseFunc = .parseBodyWithChunk)
    (unbroken : find crlf line = none) (short : line.length < maxChunkNum)
    (part : parser.cache <+: line ++ crlf ++ rest)
    (absent : find crlf parser.cache = none) :
    loop.run parser = (.ok .indeterminate, parser) := by
  obtain ⟨more, whole⟩ := part
  have ended : find crlf (parser.cache ++ more) = some line.length := by
    rw [whole]
    exact find_crlf_line unbroken rest
  have bound := length_lt_of_find_append absent ended
  have width : crlf.length = 2 := rfl
  have below : ¬ parser.cache.length > maxChunkNum := by omega
  apply loop.run_leave
  show parser.activate = _
  simp only [activate, inBody, parseBodyWithChunk, absent, below, if_false,
    returns]

/-- A chunk that has not arrived to its end is waited for. -/
theorem run_partial_chunk (chunk : Chunk) {rest : Bytes}
    (inBody : parser.parseFunc = .parseBodyWithChunk)
    (small : chunk.data.length < 2 ^ 31)
    (short : chunk.size.text.length < maxChunkNum)
    (part : parser.cache <+: chunk.bytes ++ rest)
    (incomplete : parser.cache.length < chunk.bytes.length) :
    loop.run parser = (.ok .indeterminate, parser) := by
  have shape : chunk.bytes ++ rest = chunk.size.text ++ crlf ++
      (chunk.data ++ (crlf ++ rest)) := by
    simp [Chunk.bytes]
  have unbroken := find_crlf_text chunk.size
  rw [shape] at part
  cases found : find crlf parser.cache with
  | none => exact run_unended inBody unbroken short part found
  | some position =>
      obtain ⟨more, whole⟩ := part
      obtain rfl : position = chunk.size.text.length := by
        have first := find_append found more
        rw [whole, find_crlf_line unbroken] at first
        exact (Option.some.inj first).symm
      have bound := find_bound found
      have line : parser.cache.take chunk.size.text.length =
          chunk.size.text := by
        have same := congrArg (List.take chunk.size.text.length) whole
        rwa [List.take_append_of_le_length (by omega), List.append_assoc,
          List.take_left] at same
      have len := len_text chunk.size small
      have nonzero : chunk.data.length ≠ 0 := by simpa using chunk.nonempty
      have missing : parser.cache.length - chunk.size.text.length <
          (chunk.data.length + 4) % 2 ^ 64 := by
        simp only [Chunk.bytes, crlf, List.length_append, List.length_cons,
          List.length_nil] at incomplete
        omega
      apply loop.run_leave
      show parser.activate = _
      simp only [activate, inBody, parseBodyWithChunk, found, line, len,
        nonzero, missing, if_false, if_true, returns]

end Parts

section Encoding

variable {chunks : List HexChunk} {parser : HttpParser}
  {filled : HttpRequest}

/-- Once the line of the last chunk is there the body is complete. -/
theorem run_throughLast {rest : Bytes}
    (inBody : parser.parseFunc = .parseBodyWithChunk)
    (started : parser.req = some filled)
    (cached : parser.cache = HexChunk.throughLast chunks ++ rest)
    (room : filled.body.length + (HexChunk.payload chunks).length ≤
      maxSize) :
    loop.run parser = (.ok .success, { parser with
      req := some { filled with
        body := filled.body ++ HexChunk.payload chunks }
      cache := ascii "0" ++ crlf ++ rest }) := by
  have front : parser.cache =
      ((chunks.map HexChunk.chunk).map Chunk.bytes).flatten ++
        (ascii "0" ++ crlf ++ rest) := by
    rw [cached, HexChunk.map_bytes_chunk]
    simp [HexChunk.throughLast]
  have small : ∀ chunk ∈ chunks.map HexChunk.chunk,
      chunk.data.length < 2 ^ 31 := by
    intro chunk member
    obtain ⟨hexChunk, _, rfl⟩ := List.mem_map.mp member
    exact hexChunk.small
  rw [← HexChunk.payload_chunk] at room
  rw [run_chunks _ _ small parser filled inBody started front room,
    HexChunk.payload_chunk]
  exact run_last HexChunk.lastLine inBody rfl

/-- A part of the last chunk's line is waited for. -/
theorem run_partial_last
    (inBody : parser.parseFunc = .parseBodyWithChunk)
    (part : parser.cache <+: HexChunk.encoding [])
    (early : ¬ HexChunk.throughLast [] <+: parser.cache) :
    loop.run parser = (.ok .indeterminate, parser) := by
  refine run_unended inBody (by decide) (by decide) part ?_
  cases found : find crlf parser.cache with
  | none => rfl
  | some position =>
      have bound := find_bound found
      obtain ⟨more, whole⟩ := part
      have first := find_append found more
      have line : find crlf (HexChunk.encoding []) = some 1 := by decide
      rw [whole, line] at first
      obtain rfl : 1 = position := Option.some.inj first
      exact absurd (List.prefix_of_prefix_length_le
        (List.prefix_append (HexChunk.throughLast []) crlf)
        ⟨more, whole⟩ bound) early

/-- Before the line of the last chunk the parser waits. -/
theorem run_waits : ∀ (parser : HttpParser) (filled : HttpRequest),
    parser.parseFunc = .parseBodyWithChunk → parser.req = some filled →
    parser.cache <+: HexChunk.encoding chunks →
    ¬ HexChunk.throughLast chunks <+: parser.cache →
    filled.body.length + (HexChunk.payload chunks).length ≤ maxSize →
    ∃ waiting, loop.run parser = (.ok .indeterminate, waiting) := by
  induction chunks with
  | nil =>
      intro parser filled inBody _ part early _
      exact ⟨parser, run_partial_last inBody part early⟩
  | cons chunk chunks induction =>
      intro parser filled inBody started part early room
      have split : HexChunk.encoding (chunk :: chunks) =
          chunk.chunk.bytes ++ HexChunk.encoding chunks := by
        rw [HexChunk.bytes_chunk]
        simp [HexChunk.encoding, HexChunk.throughLast]
      have through : HexChunk.throughLast (chunk :: chunks) =
          chunk.chunk.bytes ++ HexChunk.throughLast chunks := by
        rw [HexChunk.bytes_chunk]
        simp [HexChunk.throughLast]
      have payload : HexChunk.payload (chunk :: chunks) =
          chunk.data ++ HexChunk.payload chunks := by
        simp [HexChunk.payload]
      rw [split] at part
      rw [through] at early
      rw [payload, List.length_append] at room
      rcases within_or_behind part with
        ⟨_, incomplete⟩ | ⟨behind, cached, begun⟩
      · have width : chunk.chunk.size.text.length < maxChunkNum :=
          Nat.lt_of_le_of_lt chunk.length_width (by decide)
        exact ⟨parser, run_partial_chunk chunk.chunk inBody chunk.small width
          part incomplete⟩
      · rw [cached, List.prefix_append_right_inj] at early
        have fits : filled.body.length + chunk.chunk.data.length ≤ maxSize := by
          show filled.body.length + chunk.data.length ≤ maxSize
          omega
        rw [loop.run_next (body_chunk chunk.chunk inBody started cached
          chunk.small fits)]
        refine induction _ { filled with body := filled.body ++ chunk.data }
          inBody rfl begun early ?_
        rw [List.length_append]
        omega

end Encoding

section Reads

variable {parser : HttpParser} {request : HttpRequest}

/-- How far the parser is after the reads that make up `seen`. -/
inductive Progress (parser : HttpParser) (request : HttpRequest)
    (chunks : List HexChunk) (seen : Bytes) : Verdict × HttpParser → Prop where
  | waiting (next : HttpParser) :
      ¬ HexChunk.throughLast chunks <+: seen →
      (∀ data, next.parseData data = parser.parseData (seen ++ data)) →
      Progress parser request chunks seen (.ok .indeterminate, next)
  | complete (next : HttpParser) (rest : Bytes) :
      HexChunk.throughLast chunks <+: seen →
      next.parseFunc = .parseBodyWithChunk →
      next.req = some { request with body := HexChunk.payload chunks } →
      next.cache = ascii "0" ++ crlf ++ rest →
      Progress parser request chunks seen (.ok .success, next)

/-- One call with all the bytes seen so far. -/
theorem progress_parseData {chunks : List HexChunk} {seen : Bytes}
    (entered : parser.Entered request)
    (bounded : (HexChunk.payload chunks).length ≤ maxSize)
    (part : seen <+: HexChunk.encoding chunks) :
    Progress parser request chunks seen (parser.parseData seen) := by
  have cached : (parser.append seen).cache = seen := by
    rw [append_cache, entered.unread, List.nil_append]
  have room : request.body.length + (HexChunk.payload chunks).length ≤
      maxSize := by
    rw [entered.empty]
    simpa using bounded
  by_cases arrived : HexChunk.throughLast chunks <+: seen
  · obtain ⟨rest, whole⟩ := arrived
    have called : parser.parseData seen = _ := run_throughLast entered.inBody
      entered.started (cached.trans whole.symm) room
    rw [called, entered.empty, List.nil_append]
    exact .complete _ rest ⟨rest, whole⟩ entered.inBody rfl rfl
  · obtain ⟨next, waits⟩ := run_waits (parser.append seen) request
      entered.inBody entered.started (cached.symm ▸ part)
      (cached.symm ▸ arrived) room
    have called : parser.parseData seen = _ := waits
    rw [called]
    refine .waiting next arrived fun data => ?_
    have resumed := machine.run_resume data waits
    exact resumed.symm.trans
      (congrArg loop.run (machine.extend_extend parser seen data))

theorem progress_step {chunks : List HexChunk} {seen data : Bytes}
    {result : Verdict × HttpParser}
    (entered : parser.Entered request)
    (bounded : (HexChunk.payload chunks).length ≤ maxSize)
    (part : seen ++ data <+: HexChunk.encoding chunks)
    (progress : Progress parser request chunks seen result) :
    Progress parser request chunks (seen ++ data)
      (result.2.parseData data) := by
  cases progress with
  | waiting next early resumes =>
      rw [resumes]
      exact progress_parseData entered bounded part
  | complete next rest arrived inBody filled cached =>
      have last : (next.append data).cache =
          ascii "0" ++ crlf ++ (rest ++ data) := by
        rw [append_cache, cached]
        simp
      have called : next.parseData data = _ :=
        run_last HexChunk.lastLine inBody last
      rw [called]
      exact .complete _ (rest ++ data)
        (arrived.trans (List.prefix_append seen data)) inBody filled last

theorem progress_parseEach {chunks : List HexChunk}
    (entered : parser.Entered request)
    (bounded : (HexChunk.payload chunks).length ≤ maxSize)
    (reads : List Bytes)
    (part : reads.flatten <+: HexChunk.encoding chunks) :
    Progress parser request chunks reads.flatten
      (parser.parseEach reads) := by
  induction reads using List.reverseRecOn with
  | nil =>
      have early : ¬ HexChunk.throughLast chunks <+: [] := by
        intro arrived
        have empty := List.prefix_nil.mp arrived
        simp [HexChunk.throughLast, crlf] at empty
      exact .waiting parser early fun data => rfl
  | append_singleton reads data induction =>
      rw [List.flatten_append, List.flatten_singleton] at part ⊢
      unfold parseEach at induction ⊢
      rw [List.foldl_append]
      exact progress_step entered bounded part
        (induction ((List.prefix_append _ _).trans part))

end Reads

end HttpParser

/-- However the chunks are cut into reads, the calls return `indeterminate`
until the line of the last chunk has arrived, and then `success` with the
concatenated chunks as the body.  A body is a `std::string` and bounded like
one. -/
theorem chunks_read_back (chunks : List HexChunk)
    (bounded : (HexChunk.payload chunks).length ≤ maxSize)
    (parser : HttpParser) (request : HttpRequest)
    (entered : parser.Entered request) (reads : List Bytes)
    (cut : reads.flatten = HexChunk.encoding chunks)
    (given : List Bytes) (soFar : given <+: reads) :
    (¬ HexChunk.throughLast chunks <+: given.flatten →
      (parser.parseEach given).1 = .ok .indeterminate) ∧
    (HexChunk.throughLast chunks <+: given.flatten →
      (parser.parseEach given).1 = .ok .success ∧
        (parser.parseEach given).2.req =
          some { request with body := HexChunk.payload chunks }) := by
  obtain ⟨later, rfl⟩ := soFar
  have part : given.flatten <+: HexChunk.encoding chunks := by
    rw [← cut, List.flatten_append]
    exact List.prefix_append _ _
  have progress := HttpParser.progress_parseEach entered bounded given part
  generalize parser.parseEach given = result at progress
  cases progress with
  | waiting next early _ => exact ⟨fun _ => rfl, fun now => absurd now early⟩
  | complete next rest arrived _ filled _ =>
      exact ⟨fun early => absurd arrived early, fun _ => ⟨rfl, filled⟩⟩

namespace Example

/-- A chunk of eleven bytes that look like the end of a body. -/
def lookalike : HexChunk where
  data := ascii "a\r\nb\r\n0\r\n\r\n"
  length := ascii "B"
  nonempty := by decide
  small := by decide
  spelled := by decide

def entered : HttpParser :=
  { parseFunc := .parseBodyWithChunk
    req := some { method := some .PUT, path := ascii "/key" } }

def cuts : List Bytes :=
  [ascii "B\r", ascii "\na\r\nb\r\n0\r\n\r", ascii "\n\r\n0",
    ascii "\r\n\r", ascii "\n"]

theorem chunks_read_back_lookalike :
    (entered.parseEach (cuts.take 3)).1 = .ok .indeterminate ∧
      (entered.parseEach (cuts.take 4)).1 = .ok .success ∧
      (entered.parseEach (cuts.take 4)).2.req = some {
        method := some .PUT
        path := ascii "/key"
        body := lookalike.data } := by
  have isEntered : entered.Entered
      { method := some .PUT, path := ascii "/key" } := ⟨rfl, rfl, rfl, rfl⟩
  have whole : cuts.flatten = HexChunk.encoding [lookalike] := by decide
  have early := (chunks_read_back [lookalike] (by decide) entered _ isEntered
    cuts whole (cuts.take 3) (List.take_prefix 3 cuts)).1 (by decide)
  have late := (chunks_read_back [lookalike] (by decide) entered _ isEntered
    cuts whole (cuts.take 4) (List.take_prefix 4 cuts)).2 (by decide)
  exact ⟨early, late⟩

end Example

end Natsu.Http
