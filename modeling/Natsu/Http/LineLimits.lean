import Natsu.Http.RoundTrip
import Natsu.Http.Segmentation

/-!
# The limit on lines

The parser only looks at the length of a line while its end has not arrived.
Whether a long line is rejected is therefore decided by the reads: one of them
must end inside the line, behind its first 1024 bytes.
-/

namespace Natsu.Http

open Natsu.Foundation

/-- The lines one behind another, each with its line end. -/
def written (lines : List Bytes) : Bytes := (lines.map (· ++ crlf)).flatten

/-- After some read more than 1024 bytes of a line have arrived, but not its
line end. -/
def Caught (lines reads : List Bytes) : Prop :=
  ∃ front line back, lines = front ++ line :: back ∧
    ∃ given later, reads = given ++ later ∧
      (written front).length + 1024 < given.flatten.length ∧
      given.flatten.length ≤ (written front).length + line.length + 1

/-- A request line and header lines. -/
def linesOf (line : Bytes) (headers : List Header) : List Bytes :=
  line :: headers.map Header.line

def WireRequest.lines (request : WireRequest) : List Bytes :=
  linesOf request.line request.headers

section Cuts

variable {lines : List Bytes} {line bytes rest : Bytes}

theorem written_cons (line : Bytes) (lines : List Bytes) :
    written (line :: lines) = line ++ crlf ++ written lines := rfl

theorem mem_tail_append {front back : List Bytes}
    (member : line ∈ front.tail) : line ∈ (front ++ back).tail := by
  cases front with
  | nil => simp at member
  | cons first front => exact List.mem_append_left _ member

theorem find_crlf_of_append {more : Bytes}
    (unbroken : find crlf (bytes ++ more) = none) : find crlf bytes = none := by
  cases found : find crlf bytes with
  | none => rfl
  | some position => simp [find_append found more] at unbroken

/-- A part of a line that does not reach behind its line end has none. -/
theorem unbroken_of_short (unbroken : find crlf line = none)
    (part : bytes <+: line ++ crlf ++ rest)
    (short : bytes.length < line.length + 2) : find crlf bytes = none := by
  obtain ⟨more, whole⟩ := part
  cases found : find crlf bytes with
  | none => rfl
  | some position =>
      have bound := find_bound found
      have first := find_append found more
      rw [whole, find_crlf_line unbroken] at first
      obtain rfl := Option.some.inj first
      have width : crlf.length = 2 := rfl
      omega

/-- Where bytes are cut: inside a line or its line end, or behind all
lines. -/
theorem cut_written (unbroken : ∀ line ∈ lines, find crlf line = none)
    (cut : bytes <+: written lines ++ rest) :
    (∃ front line back part, lines = front ++ line :: back ∧
      bytes = written front ++ part ∧ part.length < line.length + 2 ∧
      find crlf part = none) ∨
    ∃ part, bytes = written lines ++ part ∧ part <+: rest := by
  induction lines generalizing bytes with
  | nil => exact .inr ⟨bytes, rfl, cut⟩
  | cons line lines induction =>
      rw [written_cons, List.append_assoc] at cut
      have lineUnbroken := unbroken line List.mem_cons_self
      rcases within_or_behind cut with ⟨_, short⟩ | ⟨more, rfl, behind⟩
      · rw [List.length_append] at short
        exact .inl ⟨[], line, lines, bytes, rfl, rfl, short,
          unbroken_of_short lineUnbroken cut short⟩
      · rcases induction (fun other member =>
            unbroken other (List.mem_cons_of_mem _ member)) behind with
          ⟨front, other, back, part, rfl, rfl, inside, partUnbroken⟩ |
          ⟨part, rfl, isPart⟩
        · refine .inl ⟨line :: front, other, back, part, rfl, ?_, inside,
            partUnbroken⟩
          rw [written_cons, List.append_assoc (line ++ crlf)]
        · refine .inr ⟨part, ?_, isPart⟩
          rw [written_cons, List.append_assoc (line ++ crlf)]

end Cuts

namespace HttpParser

section Partial

variable {parser : HttpParser} {part : Bytes}

/-- What the parser does with a part of a line. -/
theorem readLine_part {limit : Nat} {use : HttpParser → Bytes → Activation}
    (unbroken : find crlf parser.cache = none) :
    parser.readLine limit use =
      if parser.cache.length > limit then parser.returns .failure
      else parser.returns .indeterminate := by
  simp only [readLine, unbroken]

/-- The parser waits for the rest of a line, or rejects what there is. -/
def Unfinished (part : Bytes) (verdict : Verdict) : Prop :=
  verdict = .ok .failure ∨
    (verdict = .ok .indeterminate ∧ part.length ≤ 1024)

/-- Header lines that are not empty, and a part of the next one. -/
theorem run_header_lines {lines : List Bytes}
    (unbroken : ∀ line ∈ lines, find crlf line = none)
    (nonempty : ∀ line ∈ lines, line ≠ [])
    (partUnbroken : find crlf part = none) :
    ∀ (parser : HttpParser) (request : HttpRequest),
      parser.parseFunc = .parseHeaders → parser.req = some request →
      parser.cache = written lines ++ part →
      Unfinished part (loop.run parser).1 := by
  induction lines with
  | nil =>
      intro parser request inHeaders _ cached
      obtain rfl : parser.cache = part := cached
      have body : loop.body parser = parser.readLine maxHeader headerLine := by
        show parser.activate = _
        simp only [activate, inHeaders, parseHeaders]
      rw [readLine_part partUnbroken] at body
      split at body
      · rw [loop.run_leave body]
        exact .inl rfl
      · rename_i short
        rw [loop.run_leave body]
        exact .inr ⟨rfl, Nat.le_of_not_lt short⟩
  | cons line lines induction =>
      intro parser request inHeaders started cached
      rw [written_cons, List.append_assoc] at cached
      have body : loop.body parser =
          headerLine { parser with cache := written lines ++ part } line := by
        have activated : parser.activate = parser.parseHeaders := by
          simp only [activate, inHeaders]
        exact activated.trans (readLine_line parser maxHeader headerLine
          (unbroken line List.mem_cons_self) cached)
      simp only [headerLine, if_neg (nonempty line List.mem_cons_self),
        started] at body
      cases isHeader : headerOf line with
      | none =>
          rw [isHeader] at body
          rw [loop.run_leave body]
          exact .inl rfl
      | some header =>
          rw [isHeader] at body
          rw [loop.run_next body]
          exact induction
            (fun other member => unbroken other (List.mem_cons_of_mem _ member))
            (fun other member => nonempty other (List.mem_cons_of_mem _ member))
            { parser with
              req := some (request.setHeader header.1 header.2)
              cache := written lines ++ part }
            (request.setHeader header.1 header.2) inHeaders rfl rfl

theorem requestLine_cases (parser : HttpParser) (line : Bytes) :
    (∃ next, parser.requestLine line = .inr (.ok .failure, next)) ∨
      ∃ request, parser.requestLine line = .inl { parser with
        req := some request
        parseFunc := .parseHeaders } := by
  unfold requestLine
  dsimp only
  split
  · exact .inl ⟨_, rfl⟩
  · split
    · exact .inl ⟨_, rfl⟩
    · split
      · exact .inl ⟨_, rfl⟩
      · split
        · exact .inl ⟨_, rfl⟩
        · split
          · exact .inl ⟨_, rfl⟩
          · exact .inr ⟨_, rfl⟩

/-- The lines of a head that has not ended, and a part of the next one. -/
theorem run_written {lines : List Bytes}
    (unbroken : ∀ line ∈ lines, find crlf line = none)
    (nonempty : ∀ line ∈ lines.tail, line ≠ [])
    (partUnbroken : find crlf part = none) :
    Unfinished part (loop.run { cache := written lines ++ part }).1 := by
  cases lines with
  | nil =>
      have body : loop.body { cache := part } =
          ({ cache := part } : HttpParser).readLine maxUrl requestLine := rfl
      rw [readLine_part partUnbroken] at body
      show Unfinished part (loop.run { cache := part }).1
      split at body
      · rw [loop.run_leave body]
        exact .inl rfl
      · rename_i short
        rw [loop.run_leave body]
        exact .inr ⟨rfl, Nat.le_of_not_lt short⟩
  | cons line lines =>
      rw [written_cons, List.append_assoc (line ++ crlf)]
      have body : loop.body { cache := line ++ crlf ++ (written lines ++ part) } =
          ({ cache := written lines ++ part } : HttpParser).requestLine line :=
        readLine_line _ maxUrl requestLine (unbroken line List.mem_cons_self)
          rfl
      rcases requestLine_cases { cache := written lines ++ part } line with
        ⟨next, fails⟩ | ⟨request, goesOn⟩
      · rw [fails] at body
        rw [loop.run_leave body]
        exact .inl rfl
      · rw [goesOn] at body
        rw [loop.run_next body]
        exact run_header_lines (fun other member =>
          unbroken other (List.mem_cons_of_mem _ member)) nonempty
          partUnbroken _ request rfl rfl rfl

end Partial

section Rejection

variable {lines reads : List Bytes} {rest : Bytes}

/-- Nothing is accepted before the head has ended. -/
theorem not_success_of_part {bytes part : Bytes}
    (unbroken : ∀ line ∈ lines, find crlf line = none)
    (nonempty : ∀ line ∈ lines.tail, line ≠ [])
    (partUnbroken : find crlf part = none)
    (isPart : bytes <+: written lines ++ part) :
    (loop.run { cache := bytes }).1 ≠ .ok .success := by
  have refuted : ∀ {lines part}, (∀ line ∈ lines, find crlf line = none) →
      (∀ line ∈ lines.tail, line ≠ []) → find crlf part = none →
      bytes = written lines ++ part →
      (loop.run { cache := bytes }).1 ≠ .ok .success := by
    rintro lines part unbroken nonempty partUnbroken rfl success
    have unfinished := run_written unbroken nonempty partUnbroken
    rw [success] at unfinished
    rcases unfinished with fails | ⟨waits, _⟩
    · simp at fails
    · simp at waits
  rcases cut_written unbroken isPart with
    ⟨front, line, back, begun, rfl, isCut, _, begunUnbroken⟩ |
    ⟨begun, isCut, ⟨more, whole⟩⟩
  · refine refuted (fun other member =>
      unbroken other (List.mem_append_left _ member)) ?_ begunUnbroken isCut
    exact fun other member => nonempty other (mem_tail_append member)
  · refine refuted unbroken nonempty ?_ isCut
    rw [← whole] at partUnbroken
    exact find_crlf_of_append partUnbroken

/-- What a caught line has left in the cache. -/
theorem Caught.part {front back seen later : List Bytes} {line : Bytes}
    (unbroken : find crlf line = none)
    (cut : (seen ++ later).flatten = written (front ++ line :: back) ++ rest)
    (behind : (written front).length + 1024 < seen.flatten.length)
    (inside : seen.flatten.length ≤
      (written front).length + line.length + 1) :
    ∃ part, seen.flatten = written front ++ part ∧ 1024 < part.length ∧
      find crlf part = none := by
  have whole : written (front ++ line :: back) ++ rest =
      written front ++ (line ++ crlf ++ (written back ++ rest)) := by
    simp [written]
  have isPart : seen.flatten <+:
      written front ++ (line ++ crlf ++ (written back ++ rest)) := by
    rw [← whole, ← cut, List.flatten_append]
    exact List.prefix_append _ _
  rcases within_or_behind isPart with ⟨_, short⟩ | ⟨part, isSeen, begun⟩
  · omega
  · rw [isSeen, List.length_append] at behind inside
    exact ⟨part, isSeen, by omega,
      unbroken_of_short unbroken begun (by omega)⟩

/-- The call after which a line is caught does not wait. -/
theorem not_indeterminate_of_caught
    (unbroken : ∀ line ∈ lines, find crlf line = none)
    (nonempty : ∀ line ∈ lines.tail, line ≠ []) {given : List Bytes}
    (cut : given.flatten <+: written lines ++ rest) {verdict : Verdict}
    {final : HttpParser} (parsed : parseReads {} given = (verdict, final, []))
    (caught : Caught lines given) :
    verdict ≠ .ok .indeterminate ∧
      given.flatten.length < (written lines).length := by
  obtain ⟨front, line, back, rfl, seen, later, rfl, behind, inside⟩ := caught
  obtain ⟨more, whole⟩ := cut
  have extended : (seen ++ (later ++ [more])).flatten =
      written (front ++ line :: back) ++ rest := by
    rw [← whole]
    simp
  obtain ⟨part, isSeen, long, partUnbroken⟩ :=
    Caught.part (unbroken line (by simp)) extended behind inside
  have unfinished := run_written
    (fun other member => unbroken other (List.mem_append_left _ member))
    (fun other member => nonempty other (mem_tail_append member)) partUnbroken
  rw [← isSeen] at unfinished
  obtain ⟨given, isGiven, _, waits⟩ := parseReads_split {} (seen ++ later)
  rw [parsed, List.append_nil] at isGiven
  by_cases last : later = []
  · rw [last, List.append_nil] at parsed ⊢
    rw [run_of_parseReads parsed] at unfinished
    have width : (written (front ++ line :: back)).length =
        (written front).length + (line.length + 2 + (written back).length) := by
      simp [written, crlf]
      omega
    refine ⟨?_, by omega⟩
    rcases unfinished with fails | ⟨_, short⟩
    · intro waiting
      cases fails.symm.trans waiting
    · omega
  · obtain ⟨next, waiting⟩ := waits seen later isGiven.symm last
    rw [run_of_parseReads waiting] at unfinished
    rcases unfinished with fails | ⟨_, short⟩
    · cases fails
    · omega

/-- A line that is caught is never part of a request that is accepted. -/
theorem not_success_of_caught
    (unbroken : ∀ line ∈ lines, find crlf line = none)
    (nonempty : ∀ line ∈ lines.tail, line ≠ [])
    (cut : reads.flatten = written lines ++ rest) (caught : Caught lines reads) :
    (parseReads {} reads).1 ≠ .ok .success := by
  obtain ⟨front, line, back, rfl, seen, later, isSplit, behind, inside⟩ := caught
  have frontUnbroken : ∀ line ∈ front, find crlf line = none :=
    fun other member => unbroken other (List.mem_append_left _ member)
  have frontNonempty : ∀ line ∈ front.tail, line ≠ [] :=
    fun other member => nonempty other (mem_tail_append member)
  rw [isSplit] at cut
  obtain ⟨part, isSeen, long, partUnbroken⟩ :=
    Caught.part (unbroken line (by simp)) cut behind inside
  obtain ⟨given, isGiven, parsed, waits⟩ := parseReads_split {} reads
  intro success
  rw [success] at parsed
  have called := run_of_parseReads parsed
  by_cases rejected : ∃ further, given = seen ++ further ∧ further ≠ []
  · obtain ⟨further, isLonger, remains⟩ := rejected
    obtain ⟨next, waiting⟩ := waits seen further isLonger remains
    have atRead : loop.run { cache := seen.flatten } =
        (.ok .indeterminate, next) := run_of_parseReads waiting
    have unfinished := run_written frontUnbroken frontNonempty partUnbroken
    rw [← isSeen, atRead] at unfinished
    rcases unfinished with fails | ⟨_, short⟩
    · simp at fails
    · omega
  · have isPart : given.flatten <+: written front ++ part := by
      rw [← isSeen]
      rw [isSplit] at isGiven
      rcases List.append_eq_append_iff.mp isGiven with
        ⟨further, isLonger, _⟩ | ⟨further, isShorter, _⟩
      · by_cases same : further = []
        · rw [isLonger, same, List.append_nil]
        · exact absurd ⟨further, isLonger, same⟩ rejected
      · rw [isShorter, List.flatten_append]
        exact List.prefix_append _ _
    have accepted : (loop.run { cache := given.flatten }).1 =
        .ok .success := congrArg Prod.fst called
    exact not_success_of_part frontUnbroken frontNonempty partUnbroken isPart
      accepted

end Rejection

section Acceptance

variable {request : WireRequest}

theorem lines_unbroken (request : WireRequest) (headers : List Header) :
    ∀ line ∈ linesOf request.line headers, find crlf line = none := by
  intro line member
  rcases List.mem_cons.mp member with rfl | isHeader
  · exact request.find_crlf_line
  · obtain ⟨header, _, rfl⟩ := List.mem_map.mp isHeader
    exact header.find_crlf_line

theorem lines_nonempty (line : Bytes) (headers : List Header) :
    ∀ other ∈ (linesOf line headers).tail, other ≠ [] := by
  intro other member
  obtain ⟨header, _, rfl⟩ := List.mem_map.mp member
  simp [Header.line]

theorem written_linesOf (line : Bytes) (headers : List Header) :
    written (linesOf line headers) =
      line ++ crlf ++ Header.bytes headers := by
  simp [linesOf, written, Header.bytes, Function.comp_def]

/-- The lines of a head, and a part of the next one. -/
theorem run_part (request : WireRequest) (headers : List Header)
    {front : List Bytes} {part : Bytes}
    (begun : front <+: linesOf request.line headers)
    (unbroken : find crlf part = none) :
    (loop.run { cache := written front ++ part }).1 =
      if part.length > 1024 then .ok .failure else .ok .indeterminate := by
  have ends : ∀ {parser : HttpParser} {use},
      parser.cache = part → loop.body parser = parser.readLine 1024 use →
      (loop.run parser).1 =
        if part.length > 1024 then .ok .failure else .ok .indeterminate := by
    intro parser use isPart body
    rw [readLine_part (by rw [isPart]; exact unbroken), isPart] at body
    by_cases long : part.length > 1024
    · rw [if_pos long] at body ⊢
      rw [loop.run_leave body]
    · rw [if_neg long] at body ⊢
      rw [loop.run_leave body]
  cases front with
  | nil => exact ends rfl rfl
  | cons line lines =>
      obtain ⟨rfl, begunHeaders⟩ := List.cons_prefix_cons.mp begun
      obtain ⟨earlier, _, rfl⟩ := List.prefix_map_iff.mp begunHeaders
      have sameLines :
          written (request.line :: earlier.map Header.line) =
            request.line ++ crlf ++ Header.bytes earlier :=
        written_linesOf request.line earlier
      rw [sameLines, List.append_assoc (request.line ++ crlf), run_lines]
      exact ends rfl rfl

/-- Before the end of the head the parser waits, unless a line is caught. -/
theorem run_head_cut (request : WireRequest) (headers : List Header)
    {bytes : Bytes}
    (cut : bytes <+: written (linesOf request.line headers) ++ crlf)
    (incomplete : bytes.length <
      (written (linesOf request.line headers) ++ crlf).length) :
    (loop.run { cache := bytes }).1 = .ok .indeterminate ∨
      (loop.run { cache := bytes }).1 = .ok .failure ∧
      ∃ front line back,
        linesOf request.line headers = front ++ line :: back ∧
        (written front).length + 1024 < bytes.length ∧
        bytes.length ≤ (written front).length + line.length + 1 := by
  rcases cut_written (lines_unbroken request headers) cut with
    ⟨front, line, back, part, isSplit, rfl, inside, unbroken⟩ |
    ⟨part, rfl, isPart⟩
  · rw [run_part request headers ⟨_, isSplit.symm⟩ unbroken]
    by_cases long : part.length > 1024
    · refine .inr ⟨if_pos long, front, line, back, isSplit, ?_, ?_⟩
      · rw [List.length_append]
        omega
      · rw [List.length_append]
        omega
    · exact .inl (if_neg long)
  · rw [List.length_append, List.length_append] at incomplete
    have width : crlf.length = 2 := rfl
    have blank : (part : Bytes) <+: [] ++ crlf ++ [] := isPart
    have unbroken : find crlf part = none :=
      unbroken_of_short rfl blank (by rw [List.length_nil]; omega)
    have short : ¬ part.length > 1024 := by omega
    rw [run_part request headers List.prefix_rfl unbroken]
    exact .inl (if_neg short)

/-- Before its end a request is waited for, unless a line is caught. -/
theorem run_cut (short : request.framing.Short) {bytes : Bytes}
    (cut : bytes <+: request.bytes)
    (incomplete : bytes.length < request.bytes.length) :
    (loop.run { cache := bytes }).1 = .ok .indeterminate ∨
      ∃ front line back, request.lines = front ++ line :: back ∧
        (written front).length + 1024 < bytes.length ∧
        bytes.length ≤ (written front).length + line.length + 1 := by
  have whole : request.bytes =
      written request.lines ++ crlf ++ request.framing.bytes := by
    rw [WireRequest.lines, written_linesOf]
    rfl
  rw [whole] at cut incomplete
  rcases within_or_behind cut with ⟨begun, inHead⟩ | ⟨part, rfl, _⟩
  · exact (run_head_cut request request.headers begun inHead).imp_right
      And.right
  · have width := congrArg List.length (bytes_of_short short)
    simp only [List.length_append] at incomplete
    have missing : ¬ announcedLength request.head ≤ part.length := by
      rw [request.announcedLength_of_short short]
      omega
    have cached : written request.lines ++ crlf ++ part = request.line ++
        crlf ++ (Header.bytes request.headers ++ (crlf ++ part)) := by
      rw [WireRequest.lines, written_linesOf]
      simp
    rw [cached, run_lines]
    have waits := run_blank (encoding_of_short short) request.head_body part
    rw [if_neg missing] at waits
    exact .inl (congrArg Prod.fst waits)

/-- A well-formed request is accepted exactly when no line is caught. -/
theorem success_iff_not_caught (short : request.framing.Short)
    {reads : List Bytes} {rest : Bytes}
    (cut : reads.flatten = request.bytes ++ rest) :
    (parseReads {} reads).1 = .ok .success ↔ ¬ Caught request.lines reads := by
  constructor
  · intro success caught
    have lines : reads.flatten =
        written request.lines ++ (crlf ++ request.framing.bytes ++ rest) := by
      rw [cut, WireRequest.lines, written_linesOf, WireRequest.bytes]
      simp
    exact not_success_of_caught (lines_unbroken request request.headers)
      (lines_nonempty request.line request.headers) lines caught success
  · intro free
    obtain ⟨given, isGiven, parsed, _⟩ := parseReads_split {} reads
    have called : (loop.run { cache := given.flatten }).1 =
        (parseReads {} reads).1 := congrArg Prod.fst (run_of_parseReads parsed)
    have isPart : given.flatten <+: request.bytes ++ rest := by
      have split := congrArg List.flatten isGiven
      rw [List.flatten_append, cut] at split
      exact ⟨_, split.symm⟩
    rcases within_or_behind isPart with
      ⟨begun, incomplete⟩ | ⟨more, isMore, _⟩
    · rcases run_cut short begun incomplete with waits | isCaught
      · rw [called] at waits
        have whole := congrArg (List.length ∘ List.flatten) isGiven
        simp only [unread_of_indeterminate waits, List.append_nil,
          Function.comp_apply, cut, List.length_append] at whole
        omega
      · obtain ⟨front, line, back, isLines, behind, inside⟩ := isCaught
        exact absurd ⟨front, line, back, isLines, given, _, isGiven, behind,
          inside⟩ free
    · rw [← called, isMore, run_short request short]

end Acceptance

end HttpParser

section Reads

variable {lines reads : List Bytes} {rest : Bytes}

/-- Short reads end somewhere in every stretch of 1024 bytes. -/
theorem exists_read_end (reads : List Bytes)
    (short : ∀ read ∈ reads, read.length ≤ 1024) :
    ∀ offset, offset < reads.flatten.length →
      ∃ given later, reads = given ++ later ∧
        offset < given.flatten.length ∧
        given.flatten.length ≤ offset + 1024 := by
  induction reads with
  | nil =>
      intro offset inside
      simp at inside
  | cons read reads induction =>
      intro offset inside
      have width := short read List.mem_cons_self
      by_cases here : offset < read.length
      · refine ⟨[read], reads, rfl, ?_, ?_⟩
        · rwa [List.flatten_singleton]
        · rw [List.flatten_singleton]
          omega
      · rw [List.flatten_cons, List.length_append] at inside
        obtain ⟨given, later, rfl, behind, near⟩ := induction
          (fun other member => short other (List.mem_cons_of_mem _ member))
          (offset - read.length) (by omega)
        refine ⟨read :: given, later, rfl, ?_, ?_⟩
        · rw [List.flatten_cons, List.length_append]
          omega
        · rw [List.flatten_cons, List.length_append]
          omega

/-- Short reads catch every line of 2047 bytes and more. -/
theorem caught_of_long (short : ∀ read ∈ reads, read.length ≤ 1024)
    (cut : reads.flatten = written lines ++ rest) {line : Bytes}
    (member : line ∈ lines) (long : 2047 ≤ line.length) :
    Caught lines reads := by
  obtain ⟨front, back, rfl⟩ := List.append_of_mem member
  have total : (written front).length + 1024 < reads.flatten.length := by
    rw [cut]
    simp only [written, List.map_append, List.flatten_append, List.map_cons,
      List.flatten_cons, List.length_append]
    omega
  obtain ⟨given, later, isSplit, behind, near⟩ :=
    exists_read_end reads short _ total
  exact ⟨front, line, back, rfl, given, later, isSplit, behind, by omega⟩

/-- A request is not accepted when a line is caught, as lines of 2047 bytes
always are in reads of at most 1024.  A well-formed request in which no line is
caught is accepted, however long its lines are. -/
theorem long_lines_rejected
    (unbroken : ∀ line ∈ lines, find crlf line = none)
    (nonempty : ∀ line ∈ lines.tail, line ≠ [])
    (cut : reads.flatten = written lines ++ rest) :
    (Caught lines reads →
      (HttpParser.parseReads {} reads).1 ≠ .ok .success) ∧
    ((∀ read ∈ reads, read.length ≤ 1024) →
      (∃ line ∈ lines, 2047 ≤ line.length) → Caught lines reads) ∧
    ∀ (request : WireRequest) (more : Bytes), request.framing.Short →
      reads.flatten = request.bytes ++ more →
      ((HttpParser.parseReads {} reads).1 ≠ .ok .success ↔
        Caught request.lines reads) := by
  refine ⟨HttpParser.not_success_of_caught unbroken nonempty cut, ?_, ?_⟩
  · rintro short ⟨line, member, long⟩
    exact caught_of_long short cut member long
  · intro request more short isRequest
    rw [ne_eq, HttpParser.success_iff_not_caught short isRequest, not_not]

end Reads

namespace Example

def overlongPath : Bytes := ascii "/" ++ List.replicate 1100 97

theorem overlongPath_clean :
    ∀ byte ∈ overlongPath, byte ≠ 32 ∧ byte ≠ 13 ∧ byte ≠ 10 :=
  List.all_iff_forall_prop.mp (by decide +kernel)

theorem overlongPath_nonempty : overlongPath ≠ [] := by decide

/-- The request line has 1114 bytes. -/
def overlong : WireRequest where
  method := .GET
  path := overlongPath
  pathNonempty := overlongPath_nonempty
  pathClean := overlongPath_clean
  unframed := unframed_nil

/-- Cut where the line has not arrived by 90 bytes. -/
def fullReads : List Bytes :=
  [overlong.bytes.take 1024, overlong.bytes.drop 1024]

/-- A read ends inside the line, behind 1024 bytes. -/
def caughtReads : List Bytes :=
  [overlong.bytes.take 1000, (overlong.bytes.drop 1000).take 100,
    overlong.bytes.drop 1100]

theorem overlong_line_accepted :
    1024 < overlong.line.length ∧ fullReads.flatten = overlong.bytes ∧
      (fullReads.all fun read => read.length ≤ 1024) = true ∧
      (HttpParser.parseReads {} fullReads).1 = .ok .success := by
  decide +kernel

theorem long_lines_rejected_overlong :
    Caught overlong.lines caughtReads ∧
      (HttpParser.parseReads {} caughtReads).1 ≠ .ok .success := by
  have cut : caughtReads.flatten = written overlong.lines ++ crlf := by
    decide +kernel
  have caught : Caught overlong.lines caughtReads :=
    ⟨[], overlong.line, [], rfl, caughtReads.take 2, caughtReads.drop 2, rfl,
      by decide +kernel, by decide +kernel⟩
  exact ⟨caught, (long_lines_rejected
    (HttpParser.lines_unbroken overlong overlong.headers)
    (HttpParser.lines_nonempty overlong.line overlong.headers) cut).1 caught⟩

end Example

end Natsu.Http
