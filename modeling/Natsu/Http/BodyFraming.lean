import Mathlib.Data.List.DropRight
import Natsu.Http.ContentLength

/-!
# The way to read a body

Names are stored without the spaces behind them, and values without those in
front.  What the end of the header block then finds under `transfer-encoding`
is compared with `chunked` as a whole.  An encoding that is not this word has
the body read with a length that was never set.
-/

namespace Natsu.Http

open Natsu.Foundation

/-- Without the spaces around it. -/
def trimmed (text : Bytes) : Bytes :=
  (text.dropWhile (· == 32)).rdropWhile (· == 32)

/-- A header line, with any spaces. -/
structure HeaderLine where
  key : Bytes
  value : Bytes
  nonempty : key ≠ []
  noColon : (58 : UInt8) ∉ key
  unbroken : find crlf (key ++ 58 :: value) = none

namespace HeaderLine

def text (field : HeaderLine) : Bytes := field.key ++ 58 :: field.value

/-- The name and the value under which the parser stores the line. -/
def stored (field : HeaderLine) : Bytes × Bytes :=
  (lower (field.key.take (trimright field.key + 1)),
    field.value.drop (trimleft field.value))

/-- The values given for a name that are not empty. -/
def carried (fields : List HeaderLine) (name : Bytes) : List Bytes :=
  ((fields.filter fun field => lower (trimmed field.key) = name).map
    fun field => trimmed field.value).filter (· ≠ [])

/-- The value that the parser finds for a name. -/
def seen (fields : List HeaderLine) (name : Bytes) : Bytes :=
  (((fields.map stored).filter (·.1 = name)).getLast?.map Prod.snd).getD []

end HeaderLine

/-- The last of the codings that a `Transfer-Encoding` lists. -/
def lastCoding (encoding : Bytes) : Option Bytes :=
  (((encoding.splitOn 44).map fun coding =>
    lower (trimmed coding)).filter (· ≠ [])).getLast?

/-- A request line and header lines, and the empty line. -/
structure HeaderBlock extends RequestLine where
  fields : List HeaderLine

namespace HeaderBlock

def bytes (block : HeaderBlock) : Bytes :=
  block.bare.line ++ crlf ++
    ((block.fields.map fun field => field.text ++ crlf).flatten ++ crlf)

/-- The request object after the block has been read. -/
def stored (block : HeaderBlock) : HttpRequest :=
  HttpRequest.setHeaders { method := some block.method, path := block.path }
    (block.fields.map HeaderLine.stored)

/-- Some `Transfer-Encoding` has `chunked` as its last coding. -/
def Chunked (block : HeaderBlock) : Prop :=
  ∃ encoding ∈ HeaderLine.carried block.fields (ascii "transfer-encoding"),
    lastCoding encoding = some (ascii "chunked")

/-- There is no transfer encoding, and no length but zero. -/
def Bodiless (block : HeaderBlock) : Prop :=
  HeaderLine.carried block.fields (ascii "transfer-encoding") = [] ∧
    ∀ length ∈ HeaderLine.carried block.fields (ascii "content-length"),
      ∀ byte ∈ length, byte = 48

/-- The body of a request with a chunked encoding is read as one, and the empty
line ends only a request without a body. -/
structure Framed (block : HeaderBlock) (after : Bytes) (verdict : Verdict)
    (final : HttpParser) : Prop where
  chunked : block.Chunked → (verdict, final) = HttpParser.loop.run {
    parseFunc := .parseBodyWithChunk
    req := some block.stored
    cache := after }
  direct : after = [] → verdict = .ok .success → block.Bodiless

/-- So it is for all that may follow, in every cut. -/
def AlwaysFramed (block : HeaderBlock) : Prop :=
  ∀ given verdict final after, given.flatten = block.bytes ++ after →
    HttpParser.parseReads {} given = (verdict, final, []) →
    block.Framed after verdict final

end HeaderBlock

section Trimming

theorem trimmed_of_head {first : UInt8} (notSpace : first ≠ 32)
    (rest : Bytes) :
    trimmed (first :: rest) = first :: rest.rdropWhile (· == 32) := by
  have kept : (first :: rest).dropWhile (· == 32) = first :: rest := by
    simp [notSpace]
  rw [trimmed, kept, List.rdropWhile, List.rdropWhile, List.reverse_cons,
    List.dropWhile_append]
  split
  · rename_i spaces
    rw [List.isEmpty_iff] at spaces
    simp [spaces, notSpace]
  · simp

theorem take_trimright (first : UInt8) (rest : Bytes) :
    (first :: rest).take (trimright (first :: rest) + 1) =
      first :: rest.rdropWhile (· == 32) := by
  have isFront : rest.rdropWhile (· == 32) <+: rest :=
    List.rdropWhile_prefix _ _
  have width : trimright (first :: rest) =
      (rest.rdropWhile (· == 32)).length := by
    simp [trimright, List.rdropWhile]
  rw [width, List.take_succ_cons, ← List.prefix_iff_eq_take.mp isFront]

theorem drop_trimleft (text : Bytes) :
    text.drop (trimleft text) = text.dropWhile (· == 32) := by
  have whole : text.takeWhile (· == 32) ++ text.dropWhile (· == 32) = text :=
    List.takeWhile_append_dropWhile
  calc text.drop (trimleft text)
      = (text.takeWhile (· == 32) ++ text.dropWhile (· == 32)).drop
          (text.takeWhile (· == 32)).length := by rw [whole, trimleft]
    _ = text.dropWhile (· == 32) := List.drop_left

theorem trimmed_ne_nil {text : Bytes}
    (remains : text.dropWhile (· == 32) ≠ []) : trimmed text ≠ [] := by
  intro empty
  have spaces := List.rdropWhile_eq_nil_iff.mp empty
  have isSpace := spaces _ (List.head_mem remains)
  have notSpace := List.head_dropWhile_not (· == (32 : UInt8)) remains
  rw [isSpace] at notSpace
  exact absurd notSpace (by decide)

/-- A line stored under a name that begins with no space carries that name. -/
theorem HeaderLine.name_of_stored {field : HeaderLine} {name : Bytes}
    (isStored : field.stored.1 = name) (leading : name.head? ≠ some 32) :
    lower (trimmed field.key) = name := by
  obtain ⟨first, rest, isKey⟩ := List.exists_cons_of_ne_nil field.nonempty
  rw [HeaderLine.stored, isKey, take_trimright] at isStored
  have notSpace : first ≠ 32 := by
    rintro rfl
    rw [← isStored] at leading
    exact leading rfl
  rw [isKey, trimmed_of_head notSpace]
  exact isStored

/-- What the parser finds was carried. -/
theorem HeaderLine.carried_of_seen {fields : List HeaderLine} {name : Bytes}
    (leading : name.head? ≠ some 32) (found : seen fields name ≠ []) :
    carried fields name ≠ [] := by
  cases isLast : ((fields.map stored).filter (·.1 = name)).getLast? with
  | none =>
      rw [seen, isLast] at found
      exact absurd rfl found
  | some pair =>
      have isSeen : seen fields name = pair.2 := by
        rw [seen, isLast]
        rfl
      obtain ⟨member, isName⟩ :=
        List.mem_filter.mp (List.mem_of_getLast? isLast)
      obtain ⟨field, inFields, rfl⟩ := List.mem_map.mp member
      rw [isSeen, HeaderLine.stored, drop_trimleft] at found
      have named := field.name_of_stored (of_decide_eq_true isName) leading
      have isCarried : trimmed field.value ∈ carried fields name := by
        apply List.mem_filter.mpr
        refine ⟨List.mem_map.mpr ⟨field, ?_, rfl⟩, ?_⟩
        · exact List.mem_filter.mpr ⟨inFields, decide_eq_true named⟩
        · exact decide_eq_true (trimmed_ne_nil found)
      exact List.ne_nil_of_mem isCarried

end Trimming

namespace HeaderBlock

variable {block : HeaderBlock} {after : Bytes}

theorem header_stored (name : Bytes) :
    block.stored.header name = HeaderLine.seen block.fields name := by
  rw [stored, HttpRequest.header_setHeaders, HeaderLine.seen]
  rfl

/-- The parser comes to the empty line with all lines stored. -/
theorem run_block (block : HeaderBlock) (after : Bytes) :
    HttpParser.loop.run { cache := block.bytes ++ after } =
      HttpParser.loop.run {
        parseFunc := .parseHeaders
        req := some block.stored
        cache := crlf ++ after } := by
  have front : block.bytes ++ after = block.bare.line ++ crlf ++
      ((block.fields.map fun field => field.text ++ crlf).flatten ++
        (crlf ++ after)) := by
    simp [bytes]
  have run := HttpParser.run_fields
    (block.fields.map fun field => (field.text, field.stored)) (crlf ++ after)
    (by
      intro field member
      obtain ⟨line, _, rfl⟩ := List.mem_map.mp member
      exact ⟨line.unbroken, by simp [HeaderLine.text],
        HttpParser.headerOf_split line.nonempty line.noColon line.value⟩)
    {
      parseFunc := .parseHeaders
      req := some { method := some block.method, path := block.path }
      cache := (block.fields.map fun field => field.text ++ crlf).flatten ++
        (crlf ++ after) }
    _ rfl rfl (by simp [Function.comp_def])
  rw [front, HttpParser.run_request_line]
  rw [List.map_map] at run
  exact run

/-- The word `chunked` is recognised. -/
theorem run_recognised
    (recognised : strcaseeq (ascii "CHUNKED")
      (HeaderLine.seen block.fields (ascii "transfer-encoding"))) :
    HttpParser.loop.run { cache := block.bytes ++ after } =
      HttpParser.loop.run {
        parseFunc := .parseBodyWithChunk
        req := some block.stored
        cache := after } := by
  rw [← header_stored] at recognised
  have nonempty : (block.stored.header (ascii "transfer-encoding")).length ≠
      0 := by
    intro empty
    rw [List.eq_nil_of_length_eq_zero empty] at recognised
    exact absurd recognised (by decide)
  rw [run_block]
  apply HttpParser.loop.run_next
  rw [HttpParser.body_blank _ rfl rfl rfl, HttpParser.endHeaders]
  simp only [if_pos nonempty, recognised, if_true]

/-- Another encoding ends the request at the empty line. -/
theorem run_unrecognised (after : Bytes)
    (present : HeaderLine.seen block.fields (ascii "transfer-encoding") ≠ [])
    (unrecognised : strcaseeq (ascii "CHUNKED")
      (HeaderLine.seen block.fields (ascii "transfer-encoding")) = false) :
    HttpParser.loop.run { cache := block.bytes ++ after } =
      (.ok .success, {
        parseFunc := .parseBodyWithLength
        req := some { block.stored with body := [] }
        cache := after }) := by
  rw [← header_stored] at present unrecognised
  have nonempty : (block.stored.header (ascii "transfer-encoding")).length ≠
      0 := by
    simpa using present
  have blank := HttpParser.body_blank {
    parseFunc := .parseHeaders
    req := some block.stored
    cache := crlf ++ after } rfl rfl rfl
  rw [HttpParser.endHeaders] at blank
  simp only [if_pos nonempty, unrecognised, Bool.false_eq_true, if_false]
    at blank
  rw [run_block, HttpParser.loop.run_next blank]
  apply HttpParser.loop.run_leave
  simp [HttpParser.loop, HttpParser.activate, HttpParser.parseBodyWithLength,
    HttpParser.returns]

/-- Without an encoding the length decides. -/
theorem run_unencoded (after : Bytes)
    (absent : HeaderLine.seen block.fields (ascii "transfer-encoding") = []) :
    HttpParser.loop.run { cache := block.bytes ++ after } =
      if HttpParser.announcedLength block.stored ≤ after.length then
        (.ok .success, {
          parseFunc := .parseBodyWithLength
          contentLength := HttpParser.announcedLength block.stored
          req := some { block.stored with
            body := after.take (HttpParser.announcedLength block.stored) }
          cache := after.drop (HttpParser.announcedLength block.stored) })
      else
        (.ok .indeterminate, {
          parseFunc := .parseBodyWithLength
          contentLength := HttpParser.announcedLength block.stored
          req := some block.stored
          cache := after }) := by
  rw [← header_stored] at absent
  rw [run_block]
  exact HttpParser.run_blank absent
    (HttpRequest.setHeaders_parts _ _).2.2 after

theorem announcedLength_eq_zero :
    HttpParser.announcedLength block.stored = 0 ↔
      atoi (HeaderLine.seen block.fields (ascii "content-length")) = 0 := by
  rw [HttpParser.announcedLength, header_stored]
  split
  · have range := toInt_range (strtol 10
      (HeaderLine.seen block.fields (ascii "content-length")))
    unfold atoi toSizeT
    omega
  · rename_i empty
    rw [List.eq_nil_of_length_eq_zero (not_not.mp empty)]
    decide

theorem not_bodiless_of_seen
    (present : HeaderLine.seen block.fields (ascii "transfer-encoding") ≠ []) :
    ¬ block.Bodiless := by
  rintro ⟨unencoded, _⟩
  exact HeaderLine.carried_of_seen (by decide) present unencoded

/-- Without a chunk the parser stays in a chunked body. -/
theorem run_no_chunk (request : HttpRequest) :
    HttpParser.loop.run {
        parseFunc := .parseBodyWithChunk
        req := some request } =
      (.ok .indeterminate, {
        parseFunc := .parseBodyWithChunk
        req := some request }) :=
  HttpParser.loop.run_leave rfl

theorem not_chunked_of_framed {verdict : Verdict} {final : HttpParser}
    (framed : block.Framed [] verdict final)
    (byLength : final.parseFunc = .parseBodyWithLength) :
    ¬ block.Chunked := by
  intro chunked
  have inBody := (framed.chunked chunked).trans (run_no_chunk block.stored)
  rw [(Prod.mk.inj inBody).2] at byLength
  cases byLength

/-- The block in one read, with nothing behind it. -/
theorem framed_of_run {verdict : Verdict} {final : HttpParser}
    (framed : block.AlwaysFramed)
    (run : HttpParser.loop.run { cache := block.bytes ++ [] } =
      (verdict, final)) : block.Framed [] verdict final := by
  rw [List.append_nil] at run
  have called : HttpParser.parseData {} block.bytes = (verdict, final) := run
  exact framed [block.bytes] verdict final [] (by simp)
    (HttpParser.parseReads_single called)

theorem framed_of_recognised
    (recognised : strcaseeq (ascii "CHUNKED")
      (HeaderLine.seen block.fields (ascii "transfer-encoding")))
    {verdict : Verdict} {final : HttpParser}
    (run : HttpParser.loop.run { cache := block.bytes ++ after } =
      (verdict, final)) : block.Framed after verdict final := by
  rw [run_recognised recognised] at run
  constructor
  · intro _
    exact run.symm
  · rintro rfl rfl
    rw [run_no_chunk] at run
    cases (Prod.mk.inj run).1

theorem beyond_nothing {length : Nat} (nonzero : length ≠ 0) :
    ¬ length ≤ ([] : Bytes).length :=
  Nat.not_le.mpr (Nat.pos_of_ne_zero nonzero)

theorem framed_of_unencoded
    (absent : HeaderLine.seen block.fields (ascii "transfer-encoding") = [])
    (unasked : ¬ block.Chunked)
    (direct : atoi (HeaderLine.seen block.fields (ascii "content-length")) = 0 →
      block.Bodiless)
    {verdict : Verdict} {final : HttpParser}
    (run : HttpParser.loop.run { cache := block.bytes ++ after } =
      (verdict, final)) : block.Framed after verdict final := by
  rw [run_unencoded after absent] at run
  constructor
  · intro chunked
    exact absurd chunked unasked
  · rintro rfl rfl
    apply direct
    rw [← announcedLength_eq_zero]
    by_contra present
    rw [if_neg (beyond_nothing present)] at run
    cases (Prod.mk.inj run).1

theorem unencoded_of_framed
    (absent : HeaderLine.seen block.fields (ascii "transfer-encoding") = [])
    (framed : block.AlwaysFramed) :
    ¬ block.Chunked ∧
      (atoi (HeaderLine.seen block.fields (ascii "content-length")) = 0 →
        block.Bodiless) := by
  have run := run_unencoded [] absent
  by_cases zero : HttpParser.announcedLength block.stored = 0
  · have none : HttpParser.announcedLength block.stored ≤
        ([] : Bytes).length := Nat.le_of_eq zero
    rw [if_pos none] at run
    have ended := framed_of_run framed run
    exact ⟨not_chunked_of_framed ended rfl, fun _ => ended.direct rfl rfl⟩
  · rw [if_neg (beyond_nothing zero)] at run
    refine ⟨not_chunked_of_framed (framed_of_run framed run) rfl, ?_⟩
    intro isZero
    exact absurd (announcedLength_eq_zero.mpr isZero) zero

theorem not_framed_of_unrecognised
    (present : HeaderLine.seen block.fields (ascii "transfer-encoding") ≠ [])
    (unrecognised : strcaseeq (ascii "CHUNKED")
      (HeaderLine.seen block.fields (ascii "transfer-encoding")) = false) :
    ¬ block.AlwaysFramed := by
  intro framed
  have run := run_unrecognised [] present unrecognised
  exact not_bodiless_of_seen present ((framed_of_run framed run).direct rfl rfl)

/-- The way to read a body is the one that the block asks for exactly when the
last `Transfer-Encoding` without leading spaces is the word `chunked`, or empty
with no other line that asks for chunks, and a length that is found, or no
body. -/
theorem body_framed_iff (block : HeaderBlock) :
    block.AlwaysFramed ↔
      strcaseeq (ascii "CHUNKED")
          (HeaderLine.seen block.fields (ascii "transfer-encoding")) ∨
        HeaderLine.seen block.fields (ascii "transfer-encoding") = [] ∧
          ¬ block.Chunked ∧
          (atoi (HeaderLine.seen block.fields (ascii "content-length")) = 0 →
            block.Bodiless) := by
  constructor
  · intro framed
    by_cases recognised : strcaseeq (ascii "CHUNKED")
        (HeaderLine.seen block.fields (ascii "transfer-encoding"))
    · exact .inl recognised
    · by_cases absent :
          HeaderLine.seen block.fields (ascii "transfer-encoding") = []
      · exact .inr ⟨absent, unencoded_of_framed absent framed⟩
      · exact absurd framed (not_framed_of_unrecognised absent
          (eq_false_of_ne_true recognised))
  · intro condition given verdict final after cut parsed
    have called : HttpParser.loop.run { cache := given.flatten } =
        (verdict, final) := HttpParser.run_of_parseReads parsed
    rw [cut] at called
    rcases condition with recognised | ⟨absent, unasked, direct⟩
    · exact framed_of_recognised recognised called
    · exact framed_of_unencoded absent unasked direct called

end HeaderBlock

namespace Example

theorem encodingKey_nonempty : ascii "Transfer-Encoding" ≠ [] := by decide

theorem encodingKey_noColon : (58 : UInt8) ∉ ascii "Transfer-Encoding" := by
  decide

theorem padded_unbroken :
    find crlf (ascii "Transfer-Encoding" ++ 58 :: ascii " chunked ") =
      none := by decide

theorem list_unbroken :
    find crlf (ascii "Transfer-Encoding" ++ 58 :: ascii " gzip, chunked") =
      none := by decide

def padded : HeaderLine where
  key := ascii "Transfer-Encoding"
  value := ascii " chunked "
  nonempty := encodingKey_nonempty
  noColon := encodingKey_noColon
  unbroken := padded_unbroken

def codings : HeaderLine where
  key := ascii "Transfer-Encoding"
  value := ascii " gzip, chunked"
  nonempty := encodingKey_nonempty
  noColon := encodingKey_noColon
  unbroken := list_unbroken

def sending (fields : List HeaderLine) : HeaderBlock where
  method := .POST
  path := ascii "/upload"
  fields := fields
  pathNonempty := upload_nonempty
  pathClean := upload_clean

/-- A space behind `chunked`, or a coding before it, and the request is
accepted at the empty line. -/
theorem chunked_body_dropped :
    ¬ (sending [padded]).AlwaysFramed ∧ ¬ (sending [codings]).AlwaysFramed ∧
      (HttpParser.parseReads {} [(sending [padded]).bytes]).1 = .ok .success ∧
      (HttpParser.parseReads {} [(sending [codings]).bytes]).1 =
        .ok .success := by
  refine ⟨?_, ?_, by decide +kernel, by decide +kernel⟩
  · exact HeaderBlock.not_framed_of_unrecognised (by decide) (by decide)
  · exact HeaderBlock.not_framed_of_unrecognised (by decide) (by decide)

end Example

end Natsu.Http
