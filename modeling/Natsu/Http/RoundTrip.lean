import Natsu.Http.WireRequest

/-!
# Reading a request back

The parser takes a serialised request apart into exactly the method, the
path, the headers and the body it was built from.
-/

namespace Natsu.Http

open Natsu.Foundation

section Lines

private theorem trimright_of_trimmed {text : Bytes} (nonempty : text ≠ [])
    (trimmed : text.getLast? ≠ some 32) :
    trimright text + 1 = text.length := by
  cases text with
  | nil => exact absurd rfl nonempty
  | cons first rest =>
      have kept : rest.reverse.dropWhile (· == 32) = rest.reverse := by
        cases shape : rest.reverse with
        | nil => rfl
        | cons last others =>
            have isLast : (first :: rest).getLast? = some last := by
              rw [List.getLast?_cons, ← List.head?_reverse, shape]
              rfl
            have notSpace : (last == 32) = false := by
              rw [isLast] at trimmed
              simpa using trimmed
            simp [notSpace]
      simp [trimright, kept]

private theorem trimleft_padded (padding : Nat) {value : Bytes}
    (trimmed : value.head? ≠ some 32) :
    trimleft (List.replicate padding 32 ++ value) = padding := by
  induction padding with
  | zero =>
      cases value with
      | nil => rfl
      | cons first rest =>
          have notSpace : (first == 32) = false := by simpa using trimmed
          simp [trimleft, notSpace]
  | succ padding induction =>
      simpa [trimleft, List.replicate_succ] using induction

/-- The name and the value are what stands around the first colon. -/
theorem HttpParser.headerOf_split {key : Bytes} (nonempty : key ≠ [])
    (noColon : (58 : UInt8) ∉ key) (value : Bytes) :
    headerOf (key ++ 58 :: value) =
      some (lower (key.take (trimright key + 1)),
        value.drop (trimleft value)) := by
  have front : (key ++ 58 :: value).take key.length = key := List.take_left
  have behind : (key ++ 58 :: value).drop (key.length + 1) = value := by
    rw [← List.drop_drop, List.drop_left]
    rfl
  simp only [headerOf, find_byte 58 noColon value, front, behind,
    if_neg nonempty]

theorem HttpParser.headerOf_line (header : Header) :
    headerOf header.line = some (lower header.name, header.value) := by
  have noColon : (58 : UInt8) ∉ header.name := fun member =>
    (header.nameClean 58 member).1 rfl
  rw [Header.line, headerOf_split header.nameNonempty noColon,
    trimleft_padded header.padding header.valueTrimmed,
    trimright_of_trimmed header.nameNonempty header.nameTrimmed]
  simp

theorem Header.find_crlf_line (header : Header) :
    find crlf header.line = none := by
  apply find_crlf_eq_none
  intro member
  simp only [Header.line, List.mem_append, List.mem_cons,
    List.mem_replicate] at member
  rcases member with inName | colon | spaces | inValue
  · exact (header.nameClean 13 inName).2.1 rfl
  · simp at colon
  · simp at spaces
  · exact (header.valueClean 13 inValue).1 rfl

theorem Method.text_spec (method : Method) :
    (32 : UInt8) ∉ method.text ∧ (13 : UInt8) ∉ method.text ∧
      3 ≤ method.text.length ∧
      HttpParser.methodOf method.text = some method ∧
      ∃ first rest, method.text = first :: rest ∧ first ≠ 0 ∧
        tolower first ≠ 104 := by
  cases method <;>
    exact ⟨by decide, by decide, by decide, by decide, _, _, rfl, by decide,
      by decide⟩

theorem Version.text_spec (version : Version) :
    (13 : UInt8) ∉ version.text ∧ version.text.length = 8 := by
  cases version <;> decide

theorem WireRequest.find_crlf_line (request : WireRequest) :
    find crlf request.line = none := by
  apply find_crlf_eq_none
  intro member
  simp only [WireRequest.line, List.mem_append, List.mem_cons] at member
  rcases member with inMethod | space | inPath | space | inVersion
  · exact request.method.text_spec.2.1 inMethod
  · simp at space
  · exact (request.pathClean 13 inPath).2.1 rfl
  · simp at space
  · exact request.version.text_spec.1 inVersion

/-- A request line is not taken for the status line of a response. -/
private theorem line_not_response (request : WireRequest) :
    strcaseeq (ascii "HTTP/1.") (request.line.take 7) = false := by
  obtain ⟨first, rest, text, nonzero, different⟩ :=
    request.method.text_spec.2.2.2.2
  have view : ∀ tail, cstr (first :: tail) = first :: cstr tail := by
    intro tail
    simp [cstr, nonzero]
  unfold WireRequest.line strcaseeq
  rw [text, List.cons_append, List.take_succ_cons, view]
  apply beq_eq_false_iff_ne.mpr
  intro same
  have head : (104 : UInt8) = tolower first := (List.cons.inj same).1
  exact different head.symm

theorem HttpParser.requestLine_line (parser : HttpParser)
    (request : WireRequest) :
    parser.requestLine request.line = .inl { parser with
      req := some { path := request.path, method := some request.method }
      parseFunc := .parseHeaders } := by
  obtain ⟨noSpace, _, methodLong, method, _⟩ := request.method.text_spec
  have versionLong := request.version.text_spec.2
  have pathLong : 0 < request.path.length :=
    List.length_pos_of_ne_nil request.pathNonempty
  have pathSpace : (32 : UInt8) ∉ request.path := fun member =>
    (request.pathClean 32 member).1 rfl
  have long : ¬ minLine > request.line.length := by
    simp only [WireRequest.line, List.length_append, List.length_cons,
      versionLong, minLine]
    omega
  have skipped : request.line.drop (request.method.text.length + 1) =
      request.path ++ 32 :: request.version.text := by
    unfold WireRequest.line
    rw [← List.drop_drop, List.drop_left]
    rfl
  have first : find [32] request.line = some request.method.text.length :=
    find_byte 32 noSpace _
  have second : findFrom [32] (request.method.text.length + 1) request.line =
      some (request.path.length + (request.method.text.length + 1)) := by
    unfold findFrom
    rw [skipped, find_byte 32 pathSpace]
    rfl
  have named : request.line.take request.method.text.length =
      request.method.text := List.take_left
  have width : request.path.length + (request.method.text.length + 1) -
      request.method.text.length - 1 = request.path.length := by omega
  unfold requestLine
  rw [if_neg long, line_not_response]
  simp only [Bool.false_eq_true, if_false, first, second, named, method,
    skipped, width, List.take_left]

theorem Header.store_eq (headers : List Header) (request : HttpRequest) :
    store headers request = request.setHeaders
      (headers.map fun header => (lower header.name, header.value)) := by
  rw [HttpRequest.setHeaders, List.foldl_map, store]

end Lines

namespace HttpParser

/-- One line at the front of the cache. -/
theorem readLine_line (parser : HttpParser) (limit : Nat)
    (use : HttpParser → Bytes → Activation) {line rest : Bytes}
    (unbroken : find crlf line = none)
    (cached : parser.cache = line ++ crlf ++ rest) :
    parser.readLine limit use = use { parser with cache := rest } line := by
  have found := find_crlf_line unbroken rest
  unfold readLine
  rw [cached, found]
  dsimp only
  have width : line.length + 2 = (line ++ crlf).length := by simp [crlf]
  rw [width, List.drop_left, List.append_assoc, List.take_left]

/-- Header lines with these names and values are stored one by one. -/
theorem run_fields (fields : List (Bytes × Bytes × Bytes)) (rest : Bytes)
    (formed : ∀ field ∈ fields, find crlf field.1 = none ∧ field.1 ≠ [] ∧
      headerOf field.1 = some field.2) :
    ∀ (parser : HttpParser) (request : HttpRequest),
      parser.parseFunc = .parseHeaders → parser.req = some request →
      parser.cache = (fields.map fun field => field.1 ++ crlf).flatten ++
        rest →
      loop.run parser = loop.run { parser with
        req := some (request.setHeaders (fields.map Prod.snd))
        cache := rest } := by
  induction fields with
  | nil =>
      intro parser request _ filled cached
      obtain rfl : parser.cache = rest := cached
      rw [show request.setHeaders ([].map Prod.snd) = request from rfl,
        ← filled]
  | cons field fields induction =>
      intro parser request inHeaders filled cached
      obtain ⟨unbroken, nonempty, isHeader⟩ := formed field List.mem_cons_self
      have front : parser.cache = field.1 ++ crlf ++
          ((fields.map fun field => field.1 ++ crlf).flatten ++ rest) := by
        rw [cached]
        simp
      have round : loop.body parser = .inl { parser with
          cache := (fields.map fun field => field.1 ++ crlf).flatten ++ rest
          req := some (request.setHeader field.2.1 field.2.2) } := by
        show parser.activate = _
        simp only [activate, inHeaders, parseHeaders,
          parser.readLine_line maxHeader headerLine unbroken front,
          headerLine, nonempty, if_false, isHeader, filled]
      rw [loop.run_next round]
      exact induction (fun other member =>
        formed other (List.mem_cons_of_mem _ member)) _ _ inHeaders rfl rfl

/-- The headers are stored one by one. -/
theorem run_headers (headers : List Header) (rest : Bytes)
    (parser : HttpParser) (request : HttpRequest)
    (inHeaders : parser.parseFunc = .parseHeaders)
    (filled : parser.req = some request)
    (cached : parser.cache = Header.bytes headers ++ rest) :
    loop.run parser = loop.run { parser with
      req := some (Header.store headers request)
      cache := rest } := by
  have run := run_fields
    (headers.map fun header => (header.line, lower header.name, header.value))
    rest (by
      intro field member
      obtain ⟨header, _, rfl⟩ := List.mem_map.mp member
      exact ⟨header.find_crlf_line, by simp [Header.line],
        headerOf_line header⟩)
    parser request inHeaders filled (by
      rw [cached]
      simp [Header.bytes, Function.comp_def])
  rw [Header.store_eq]
  rwa [List.map_map] at run

/-- A fresh parser reads the line of a request. -/
theorem run_request_line (request : WireRequest) (after : Bytes) :
    loop.run { cache := request.line ++ crlf ++ after } = loop.run {
      parseFunc := .parseHeaders
      req := some { method := some request.method, path := request.path }
      cache := after } := by
  apply loop.run_next
  show readLine _ _ _ = _
  rw [readLine_line _ maxUrl requestLine request.find_crlf_line rfl,
    requestLine_line]

/-- A fresh parser reads the line of a request and header lines behind it. -/
theorem run_lines (request : WireRequest) (headers : List Header)
    (after : Bytes) :
    loop.run { cache := request.line ++ crlf ++
      (Header.bytes headers ++ after) } = loop.run {
        parseFunc := .parseHeaders
        req := some (Header.store headers
          { method := some request.method, path := request.path })
        cache := after } := by
  rw [run_request_line]
  exact run_headers headers _ _ _ rfl rfl rfl

/-- A fresh parser that has read the head of a request stands before the
empty line, with all headers stored. -/
theorem run_head (request : WireRequest) (rest : Bytes) :
    loop.run { cache := request.bytes ++ rest } = loop.run {
      parseFunc := .parseHeaders
      req := some request.head
      cache := crlf ++ (request.framing.bytes ++ rest) } := by
  have front : request.bytes ++ rest = request.line ++ crlf ++
      (Header.bytes request.headers ++
        (crlf ++ (request.framing.bytes ++ rest))) := by
    simp [WireRequest.bytes]
  rw [front]
  exact run_lines request request.headers _

/-- The empty line ends the headers. -/
theorem body_blank (parser : HttpParser) {request : HttpRequest}
    {rest : Bytes} (inHeaders : parser.parseFunc = .parseHeaders)
    (filled : parser.req = some request)
    (cached : parser.cache = crlf ++ rest) :
    loop.body parser =
      { parser with cache := rest }.endHeaders request := by
  have front : parser.cache = [] ++ crlf ++ rest := cached
  show parser.activate = _
  simp only [activate, inHeaders, parseHeaders,
    parser.readLine_line maxHeader headerLine (find_crlf_eq_none (by simp))
      front, headerLine, if_true, filled]

end HttpParser

namespace Header

theorem store_append (first second : List Header) (request : HttpRequest) :
    store (first ++ second) request = store second (store first request) :=
  List.foldl_append

theorem store_parts (headers : List Header) (request : HttpRequest) :
    (store headers request).method = request.method ∧
      (store headers request).path = request.path ∧
      (store headers request).body = request.body := by
  rw [store_eq]
  exact request.setHeaders_parts _

theorem header_store_eq (headers : List Header) (name : Bytes)
    (request : HttpRequest) :
    (store headers request).header name =
      ((headers.filter (lower ·.name = name)).getLast?.map value).getD
        (request.header name) := by
  rw [store_eq, HttpRequest.header_setHeaders, List.filter_map,
    List.getLast?_map, Option.map_map]
  rfl

theorem header_store_of_ne {headers : List Header} {name : Bytes}
    (absent : ∀ header ∈ headers, lower header.name ≠ name)
    (request : HttpRequest) :
    (store headers request).header name = request.header name := by
  have none : headers.filter (lower ·.name = name) = [] := by
    simpa [List.filter_eq_nil_iff] using absent
  rw [header_store_eq, none]
  rfl

/-- Of several headers with one name the last is kept. -/
theorem header_store (headers : List Header) (name : Bytes)
    (request : HttpRequest) (fresh : request.header (lower name) = []) :
    (store headers request).header (lower name) = lastValue headers name := by
  rw [header_store_eq, fresh, lastValue]

end Header

namespace WireRequest

variable (request : WireRequest)

theorem header_parsed (name : Bytes) :
    request.parsed.header (lower name) =
      Header.lastValue request.headers name :=
  Header.header_store request.headers name _ (by simp [HttpRequest.header])

/-- A name that only the framing can carry. -/
theorem header_head {name : Bytes}
    (absent : ∀ header ∈ request.before ++ request.after,
      lower header.name ≠ name) :
    ∃ earlier : HttpRequest, earlier.header name = [] ∧
      request.head.header name =
        (Header.store request.framing.headers earlier).header name := by
  refine ⟨Header.store request.before
    { method := some request.method, path := request.path }, ?_, ?_⟩
  · rw [Header.header_store_of_ne fun header member =>
      absent header (by simp [member])]
    simp [HttpRequest.header]
  · rw [head, headers, Header.store_append, Header.store_append]
    exact Header.header_store_of_ne
      (fun header member => absent header (by simp [member])) _

theorem header_head_of_ne {name : Bytes}
    (absent : ∀ header ∈ request.headers, lower header.name ≠ name) :
    request.head.header name = [] := by
  rw [head, Header.header_store_of_ne absent]
  simp [HttpRequest.header]

theorem header_head_of_framing {name : Bytes} {header : Header}
    (absent : ∀ header ∈ request.before ++ request.after,
      lower header.name ≠ name)
    (framed : request.framing.headers = [header])
    (named : lower header.name = name) :
    request.head.header name = header.value := by
  obtain ⟨earlier, _, equality⟩ := request.header_head absent
  rw [equality, framed, ← named]
  exact HttpRequest.header_setHeader_self _ _ _

theorem head_body : request.head.body = [] := (Header.store_parts _ _).2.2

/-- Only a chunked body is announced by a transfer encoding. -/
theorem transferEncoding_of_length
    (delimited : ∀ header ∈ request.framing.headers,
      lower header.name = ascii "content-length") :
    request.head.header (ascii "transfer-encoding") = [] := by
  apply request.header_head_of_ne
  intro header member
  simp only [headers, List.mem_append] at member
  rcases member with (before | framed) | after
  · exact (request.unframed header (by simp [before])).1
  · rw [delimited header framed]
    decide
  · exact (request.unframed header (by simp [after])).1

theorem announcedLength_of_short (short : request.framing.Short) :
    HttpParser.announcedLength request.head =
      request.framing.body.length := by
  unfold HttpParser.announcedLength
  cases framing : request.framing with
  | none =>
      have absent : request.head.header (ascii "content-length") = [] := by
        apply request.header_head_of_ne
        intro header member
        exact (request.unframed header
          (by simpa [headers, framing, Framing.headers] using member)).2
      rw [absent]
      rfl
  | length header body named announced bounded =>
      have value := request.header_head_of_framing
        (fun header member => (request.unframed header member).2)
        (by rw [framing]; rfl) named
      have small : body.length < 2 ^ 31 := by
        simpa [framing, Framing.Short] using short
      have nonempty : (printNat 10 body.length).length ≠ 0 := by
        simpa using printNat_ne_nil 10 body.length
      rw [value, announced]
      simp only [nonempty, not_false_eq_true, if_true, atoi_printNat small,
        ne_eq]
      exact toSizeT_of_lt (by omega)
  | chunked => simp [framing, Framing.Short] at short

end WireRequest

namespace HttpParser

/-- Behind the empty line the body is as long as announced, where there is no
transfer encoding. -/
theorem run_blank {head : HttpRequest}
    (encoding : head.header (ascii "transfer-encoding") = [])
    (empty : head.body = []) (after : Bytes) :
    loop.run {
        parseFunc := .parseHeaders
        req := some head
        cache := crlf ++ after } =
      if announcedLength head ≤ after.length then
        (.ok .success, {
          parseFunc := .parseBodyWithLength
          contentLength := announcedLength head
          req := some { head with body := after.take (announcedLength head) }
          cache := after.drop (announcedLength head) })
      else
        (.ok .indeterminate, {
          parseFunc := .parseBodyWithLength
          contentLength := announcedLength head
          req := some head
          cache := after }) := by
  have blank := body_blank {
    parseFunc := .parseHeaders
    req := some head
    cache := crlf ++ after } rfl rfl rfl
  simp only [endHeaders, encoding, List.length_nil, ne_eq, not_true_eq_false,
    if_false] at blank
  by_cases zero : announcedLength head = 0
  · rw [if_pos zero] at blank
    rw [loop.run_leave blank]
    simp only [zero, Nat.zero_le, if_true, List.take_zero, List.drop_zero]
    rw [← empty]
  · rw [if_neg zero] at blank
    rw [loop.run_next blank]
    apply loop.run_leave
    show parseBodyWithLength _ = _
    simp only [parseBodyWithLength, returns, ge_iff_le]
    split <;> rfl

/-- Without a transfer encoding the body is as long as announced. -/
theorem run_delimited (request : WireRequest) (rest : Bytes)
    (encoding : request.head.header (ascii "transfer-encoding") = []) :
    loop.run { cache := request.bytes ++ rest } =
      let parser : HttpParser := {
        parseFunc := .parseBodyWithLength
        contentLength := announcedLength request.head
        req := some request.head
        cache := request.framing.bytes ++ rest }
      if parser.contentLength ≤ parser.cache.length then
        (.ok .success, { parser with
          req := some { request.head with
            body := parser.cache.take parser.contentLength }
          cache := parser.cache.drop parser.contentLength })
      else (.ok .indeterminate, parser) := by
  rw [run_head, run_blank encoding request.head_body]

theorem bytes_of_short {request : WireRequest}
    (short : request.framing.Short) :
    request.framing.bytes = request.framing.body := by
  cases framing : request.framing with
  | none => rfl
  | length => rfl
  | chunked => simp [framing, Framing.Short] at short

theorem encoding_of_short {request : WireRequest}
    (short : request.framing.Short) :
    request.head.header (ascii "transfer-encoding") = [] := by
  apply request.transferEncoding_of_length
  cases framing : request.framing with
  | none => simp [Framing.headers]
  | length header body named => simpa [Framing.headers] using named
  | chunked => simp [framing, Framing.Short] at short

/-- A request with no body or a short one is read to its end. -/
theorem run_short (request : WireRequest)
    (short : request.framing.Short) (rest : Bytes) :
    loop.run { cache := request.bytes ++ rest } = (.ok .success, {
      parseFunc := .parseBodyWithLength
      contentLength := request.framing.body.length
      req := some request.parsed
      cache := rest }) := by
  rw [run_delimited request rest (encoding_of_short short),
    request.announcedLength_of_short short, bytes_of_short short]
  simp [WireRequest.parsed]

end HttpParser

/-- Every request with no body or with a body of an announced length below
2^31 is read back: its method, its path, for each name the last value given,
and its body. -/
theorem parseData_bytes (request : WireRequest)
    (short : request.framing.Short) :
    ∃ parser parsed,
      HttpParser.parseData {} request.bytes = (.ok .success, parser) ∧
        parser.req = some parsed ∧ parsed.method = some request.method ∧
        parsed.path = request.path ∧
        (∀ name, parsed.header (lower name) =
          Header.lastValue request.headers name) ∧
        parsed.body = request.framing.body := by
  have run := HttpParser.run_short request short []
  rw [List.append_nil] at run
  obtain ⟨method, path, _⟩ := Header.store_parts request.headers
    { method := some request.method, path := request.path }
  exact ⟨_, _, run, rfl, method, path, request.header_parsed, rfl⟩

namespace Example

def tag (value : Bytes) (clean : ∀ byte ∈ value, byte ≠ 13 ∧ byte ≠ 10)
    (trimmed : value.head? ≠ some 32) : Header :=
  { name := ascii "X-Tag", value := value, nameNonempty := by decide
    nameClean := List.all_iff_forall_prop.mp (by decide)
    nameTrimmed := by decide
    valueClean := clean, valueTrimmed := trimmed }

/-- A request with a repeated header and a body that looks like another
one. -/
def post : WireRequest :=
  { method := .POST
    path := ascii "/items?id=1"
    before := [
      tag (ascii "old") (List.all_iff_forall_prop.mp (by decide)) (by decide),
      tag (ascii "new: 2 ") (List.all_iff_forall_prop.mp (by decide))
        (by decide)]
    framing := .ofBody (ascii "GET /x HTTP/1.1\r\n\r\n") (by decide)
    pathNonempty := by decide
    pathClean := List.all_iff_forall_prop.mp (by decide)
    unframed := by decide }

theorem parseData_bytes_post : ∃ parser parsed,
    HttpParser.parseData {} post.bytes = (.ok .success, parser) ∧
      parser.req = some parsed ∧ parsed.method = some post.method ∧
      parsed.path = post.path ∧
      (∀ name, parsed.header (lower name) =
        Header.lastValue post.headers name) ∧
      parsed.body = post.framing.body :=
  parseData_bytes post (by decide)

end Example

end Natsu.Http
