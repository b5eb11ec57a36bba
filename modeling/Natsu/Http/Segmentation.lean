import Natsu.Http.Parser

/-!
# Segmentation of the input

Where the reads end makes no difference to the parser, as long as no line is
so long that an unfinished part of it already exceeds the limit at which the
parser gives up.
-/

namespace Natsu.Http

open Natsu.Foundation

namespace HttpParser

/-- The line at the front of the cache, if it is complete, is short enough
for the function that reads it. -/
def Within (parser : HttpParser) : Prop :=
  ∀ position ∈ find crlf parser.cache,
    match parser.parseFunc with
    | .parseFirstLine => position < maxUrl
    | .parseHeaders => position < maxHeader
    | .parseBodyWithLength => True
    | .parseBodyWithChunk => position < maxChunkNum

instance decidableWithin (parser : HttpParser) : Decidable parser.Within :=
  have : ∀ position, Decidable (match parser.parseFunc with
      | .parseFirstLine => position < maxUrl
      | .parseHeaders => position < maxHeader
      | .parseBodyWithLength => True
      | .parseBodyWithChunk => position < maxChunkNum) := fun position =>
    match parser.parseFunc with
    | .parseFirstLine => inferInstanceAs (Decidable (position < maxUrl))
    | .parseHeaders => inferInstanceAs (Decidable (position < maxHeader))
    | .parseBodyWithLength => isTrue trivial
    | .parseBodyWithChunk =>
        inferInstanceAs (Decidable (position < maxChunkNum))
  inferInstanceAs (Decidable (∀ position ∈ find crlf parser.cache, _))

/-- An activation after more bytes have been appended to the cache. -/
def Activation.append (activation : Activation) (data : Bytes) : Activation :=
  activation.map (fun next => next.append data)
    fun result => (result.1, result.2.append data)

/-- An activation that does not return `indeterminate`. -/
def Definite (activation : Activation) : Prop :=
  ∀ next, activation ≠ .inr (.ok .indeterminate, next)

section Append

variable {parser : HttpParser} (data : Bytes)

@[simp] theorem append_parseFunc :
    (parser.append data).parseFunc = parser.parseFunc := rfl

@[simp] theorem append_contentLength :
    (parser.append data).contentLength = parser.contentLength := rfl

@[simp] theorem append_req : (parser.append data).req = parser.req := rfl

@[simp] theorem append_cache :
    (parser.append data).cache = parser.cache ++ data := rfl

theorem requestLine_append (line : Bytes) :
    (parser.append data).requestLine line =
      (parser.requestLine line).append data := by
  unfold requestLine
  repeat' split
  all_goals rfl

theorem endHeaders_append (request : HttpRequest) :
    (parser.append data).endHeaders request =
      (parser.endHeaders request).append data := by
  unfold endHeaders
  dsimp only
  repeat' split
  all_goals rfl

theorem headerLine_append (line : Bytes) :
    (parser.append data).headerLine line =
      (parser.headerLine line).append data := by
  unfold headerLine
  simp only [append_req]
  repeat' split
  all_goals
    first
    | exact endHeaders_append data _
    | rfl

/-- A complete line is the same line when bytes follow. -/
theorem readLine_append_of_some {limit position : Nat}
    {use : HttpParser → Bytes → Activation}
    (uses : ∀ parser line,
      use (append parser data) line = (use parser line).append data)
    (found : find crlf parser.cache = some position) :
    (parser.append data).readLine limit use =
      (parser.readLine limit use).append data := by
  have bound := find_bound found
  have width : crlf.length = 2 := rfl
  unfold readLine
  rw [append_cache, find_append found data, found]
  dsimp only
  rw [List.take_append_of_le_length (by omega),
    List.drop_append_of_le_length (by omega)]
  exact uses { parser with cache := parser.cache.drop (position + 2) } _

/-- Bytes that complete an overlong line complete one above the limit. -/
theorem find_append_of_long {limit : Nat}
    (absent : find crlf parser.cache = none)
    (long : parser.cache.length > limit)
    (within : ∀ position, find crlf (parser.cache ++ data) = some position →
      position < limit) :
    find crlf (parser.cache ++ data) = none := by
  cases found : find crlf (parser.cache ++ data) with
  | none => rfl
  | some position =>
      have bound := length_lt_of_find_append absent found
      have width : crlf.length = 2 := rfl
      have limited := within position found
      omega

theorem readLine_append {limit : Nat}
    {use : HttpParser → Bytes → Activation}
    (uses : ∀ parser line,
      use (append parser data) line = (use parser line).append data)
    (definite : Definite (parser.readLine limit use))
    (within : ∀ position, find crlf (parser.cache ++ data) = some position →
      position < limit) :
    (parser.append data).readLine limit use =
      (parser.readLine limit use).append data := by
  cases found : find crlf parser.cache with
  | some position => exact readLine_append_of_some data uses found
  | none =>
      have long : parser.cache.length > limit := by
        by_contra short
        exact definite parser (by simp [readLine, found, short, returns])
      have longer : (parser.cache ++ data).length > limit := by
        rw [List.length_append]
        omega
      unfold readLine
      rw [append_cache, find_append_of_long data found long within, found]
      dsimp only
      rw [if_pos long, if_pos longer]
      rfl

theorem parseBodyWithLength_append
    (definite : Definite parser.parseBodyWithLength) :
    (parser.append data).parseBodyWithLength =
      parser.parseBodyWithLength.append data := by
  have enough : parser.contentLength ≤ parser.cache.length := by
    by_contra short
    exact definite parser (by simp [parseBodyWithLength, short, returns])
  have still : parser.contentLength ≤ (parser.cache ++ data).length := by
    rw [List.length_append]
    omega
  unfold parseBodyWithLength
  simp only [append_cache, append_contentLength, append_req, ge_iff_le,
    enough, still, if_true]
  cases parser.req with
  | none => rfl
  | some request =>
      dsimp only
      rw [List.take_append_of_le_length enough,
        List.drop_append_of_le_length enough]
      rfl

theorem appendChunk_append {position len : Nat}
    (bound : position + 2 ≤ parser.cache.length)
    (complete : (len + 4) % 2 ^ 64 ≤ parser.cache.length - position) :
    (parser.append data).appendChunk position len =
      (parser.appendChunk position len).append data := by
  unfold appendChunk
  simp only [append_cache, append_req, List.drop_append_of_le_length bound]
  cases parser.req with
  | none => rfl
  | some request =>
      dsimp only
      by_cases tooLong : maxSize - request.body.length < len
      · rw [if_pos tooLong, if_pos tooLong]
        rfl
      · have small : len ≤ 2 ^ 63 := by
          unfold maxSize at tooLong
          omega
        have inside : len + 2 ≤
            (parser.cache.drop (position + 2)).length := by
          rw [List.length_drop]
          omega
        rw [if_neg tooLong, if_neg tooLong,
          List.take_append_of_le_length (by omega),
          List.drop_append_of_le_length inside]
        rfl

theorem parseBodyWithChunk_append_of_some {position : Nat}
    (found : find crlf parser.cache = some position)
    (definite : Definite parser.parseBodyWithChunk) :
    (parser.append data).parseBodyWithChunk =
      parser.parseBodyWithChunk.append data := by
  have bound : position + 2 ≤ parser.cache.length := find_bound found
  have sameLine : (parser.cache ++ data).take position =
      parser.cache.take position :=
    List.take_append_of_le_length (by omega)
  unfold parseBodyWithChunk at definite ⊢
  simp only [append_cache, find_append found data, found, sameLine]
    at definite ⊢
  generalize toSizeT (stringtoint (parser.cache.take position)) = len
    at definite ⊢
  by_cases last : len = 0
  · rw [if_pos last, if_pos last]
    rfl
  rw [if_neg last] at definite
  rw [if_neg last, if_neg last]
  have complete : ¬ parser.cache.length - position < (len + 4) % 2 ^ 64 := by
    intro short
    exact definite parser (by rw [if_pos short]; rfl)
  have stillComplete :
      ¬ (parser.cache ++ data).length - position < (len + 4) % 2 ^ 64 := by
    rw [List.length_append]
    omega
  rw [if_neg complete, if_neg stillComplete]
  exact appendChunk_append data bound (Nat.le_of_not_lt complete)

theorem parseBodyWithChunk_append
    (definite : Definite parser.parseBodyWithChunk)
    (within : ∀ position, find crlf (parser.cache ++ data) = some position →
      position < maxChunkNum) :
    (parser.append data).parseBodyWithChunk =
      parser.parseBodyWithChunk.append data := by
  cases found : find crlf parser.cache with
  | some position =>
      exact parseBodyWithChunk_append_of_some data found definite
  | none =>
      have long : parser.cache.length > maxChunkNum := by
        by_contra short
        exact definite parser
          (by simp [parseBodyWithChunk, found, short, returns])
      have longer : (parser.cache ++ data).length > maxChunkNum := by
        rw [List.length_append]
        omega
      unfold parseBodyWithChunk
      rw [append_cache, find_append_of_long data found long within, found]
      dsimp only
      rw [if_pos long, if_pos longer]
      rfl

/-- An activation that does not wait does the same when bytes follow. -/
theorem activate_append (definite : Definite parser.activate)
    (within : (parser.append data).Within) :
    (parser.append data).activate = parser.activate.append data := by
  unfold Within at within
  unfold activate at definite ⊢
  cases shape : parser.parseFunc <;>
    simp only [append_parseFunc, append_cache, shape] at definite within ⊢
  · exact readLine_append data (fun _ => requestLine_append data) definite
      within
  · exact readLine_append data (fun _ => headerLine_append data) definite
      within
  · exact parseBodyWithLength_append data definite
  · exact parseBodyWithChunk_append data definite within

/-- An activation that goes on has a complete line and needs no limit. -/
theorem activate_append_of_next {next : HttpParser}
    (round : parser.activate = .inl next) :
    (parser.append data).activate = .inl (next.append data) := by
  have definite : Definite parser.activate := by
    intro other waits
    simp [round] at waits
  suffices same : (parser.append data).activate =
      parser.activate.append data by
    rw [same, round]
    rfl
  have lineOf : ∀ {limit use}, parser.readLine limit use = .inl next →
      ∃ position, find crlf parser.cache = some position := by
    intro limit use line
    unfold readLine at line
    split at line
    · exact ⟨_, ‹_›⟩
    · split at line <;> simp [returns] at line
  unfold activate at round definite ⊢
  cases shape : parser.parseFunc <;>
    simp only [append_parseFunc, shape] at round definite ⊢
  · obtain ⟨position, found⟩ := lineOf round
    exact readLine_append_of_some data (fun _ => requestLine_append data) found
  · obtain ⟨position, found⟩ := lineOf round
    exact readLine_append_of_some data (fun _ => headerLine_append data) found
  · exact parseBodyWithLength_append data definite
  · cases found : find crlf parser.cache with
    | some position =>
        exact parseBodyWithChunk_append_of_some data found definite
    | none =>
        simp only [parseBodyWithChunk, found] at round
        split at round <;> simp [returns] at round

end Append

section Waiting

variable {parser next : HttpParser}

theorem requestLine_ne_wait (line : Bytes) :
    parser.requestLine line ≠ .inr (.ok .indeterminate, next) := by
  unfold requestLine
  repeat' split
  all_goals simp [returns]

theorem endHeaders_ne_wait (request : HttpRequest) :
    parser.endHeaders request ≠ .inr (.ok .indeterminate, next) := by
  unfold endHeaders
  dsimp only
  repeat' split
  all_goals simp [returns]

theorem headerLine_ne_wait (line : Bytes) :
    parser.headerLine line ≠ .inr (.ok .indeterminate, next) := by
  unfold headerLine
  repeat' split
  all_goals
    first
    | exact endHeaders_ne_wait _
    | simp [returns, throws]

theorem readLine_wait_eq {limit : Nat} {use : HttpParser → Bytes → Activation}
    (uses : ∀ parser line, use parser line ≠ .inr (.ok .indeterminate, next))
    (waits : parser.readLine limit use = .inr (.ok .indeterminate, next)) :
    next = parser := by
  unfold readLine at waits
  split at waits
  · exact absurd waits (uses _ _)
  · split at waits
    · simp [returns] at waits
    · simpa [returns] using waits.symm

theorem parseBodyWithChunk_wait_eq
    (waits : parser.parseBodyWithChunk = .inr (.ok .indeterminate, next)) :
    next = parser := by
  unfold parseBodyWithChunk appendChunk at waits
  dsimp only at waits
  repeat' split at waits
  all_goals simp_all [returns, throws]

/-- A parser that waits is left as it was. -/
theorem activate_wait_eq
    (waits : parser.activate = .inr (.ok .indeterminate, next)) :
    next = parser := by
  unfold activate at waits
  split at waits
  · exact readLine_wait_eq (fun _ => requestLine_ne_wait) waits
  · exact readLine_wait_eq (fun _ => headerLine_ne_wait) waits
  · unfold parseBodyWithLength at waits
    repeat' split at waits
    all_goals simp_all [returns, throws]
  · exact parseBodyWithChunk_wait_eq waits

end Waiting

/-- The parser as a resumable loop over its cache. -/
def machine : Resumable HttpParser UInt8 Verdict where
  loop := loop
  extend := append
  wait := .ok .indeterminate
  within := Within
  extend_nil parser := by simp [append]
  extend_extend parser first second := by simp [append]
  next_extend data round := activate_append_of_next data round
  leave_extend := by
    intro parser verdict next data round definite within
    have isDefinite : Definite parser.activate := by
      intro other waits
      have same : (verdict, next) = (.ok .indeterminate, other) :=
        Sum.inr.inj (round.symm.trans waits)
      exact definite (Prod.mk.inj same).1
    have left : parser.activate = .inr (verdict, next) := round
    show (parser.append data).activate = _
    rw [activate_append data isDefinite within, left]
    rfl
  wait_eq := activate_wait_eq

/-- Call `parse(pData, len)` read by read until the first result other than
`indeterminate`.  The last component holds the reads not yet given. -/
def parseReads : HttpParser → List Bytes → Verdict × HttpParser × List Bytes
  | parser, [] => (.ok .indeterminate, parser, [])
  | parser, data :: reads =>
      let (verdict, next) := parser.parseData data
      if verdict = .ok .indeterminate then parseReads next reads
      else (verdict, next, reads)

theorem feed_eq_parseReads (reads : List Bytes) (parser : HttpParser) :
    machine.feed parser reads = parser.parseReads reads := by
  induction reads generalizing parser with
  | nil => rfl
  | cons data reads induction =>
      simp only [Resumable.feed, parseReads, ← induction]
      rfl

/-- The verdict on the last read is that of one call on all bytes, whatever
their lines. -/
theorem parseData_of_parseReads {parser final : HttpParser}
    {verdict : Verdict} {given : List Bytes}
    (waits : loop.run parser = (.ok .indeterminate, parser))
    (parsed : parser.parseReads given = (verdict, final, [])) :
    parser.parseData given.flatten = (verdict, final) := by
  rw [← feed_eq_parseReads] at parsed
  exact machine.run_of_feed given waits parsed

theorem run_fresh : loop.run {} = (.ok .indeterminate, {}) :=
  loop.run_leave rfl

theorem run_of_parseReads {final : HttpParser} {verdict : Verdict}
    {given : List Bytes}
    (parsed : parseReads {} given = (verdict, final, [])) :
    loop.run { cache := given.flatten } = (verdict, final) :=
  parseData_of_parseReads run_fresh parsed

theorem parseReads_single {parser final : HttpParser} {verdict : Verdict}
    {data : Bytes} (called : parser.parseData data = (verdict, final)) :
    parser.parseReads [data] = (verdict, final, []) := by
  simp only [parseReads, called]
  split
  · rename_i waits
    rw [waits]
  · rfl

/-- The reads up to the first definite verdict, before the last of which the
parser waits. -/
theorem parseReads_split (parser : HttpParser) (reads : List Bytes) :
    ∃ given, reads = given ++ (parser.parseReads reads).2.2 ∧
      parser.parseReads given = ((parser.parseReads reads).1,
        (parser.parseReads reads).2.1, []) ∧
      ∀ earlier later, given = earlier ++ later → later ≠ [] →
        ∃ next, parser.parseReads earlier =
          (.ok .indeterminate, next, []) := by
  have split := machine.feed_split reads parser
  simp only [feed_eq_parseReads] at split
  exact split

theorem unread_of_indeterminate {parser : HttpParser} {reads : List Bytes}
    (waits : (parser.parseReads reads).1 = .ok .indeterminate) :
    (parser.parseReads reads).2.2 = [] := by
  rw [← feed_eq_parseReads] at waits ⊢
  exact machine.unread_of_wait reads parser waits

/-- Each complete line that the parser takes from the input `data` as the
request line or as a header is shorter than 1024 bytes, and each chunk-size
line shorter than 10. -/
def LinesWithin (data : Bytes) : Prop :=
  ∀ later, loop.Passes ({ cache := data } : HttpParser) later → later.Within

instance decidableLinesWithin (data : Bytes) : Decidable (LinesWithin data) :=
  loop.decidableForallPasses Within _

end HttpParser

/-- Feeding a fresh parser read by read gives the verdict of one call on all
the bytes, and the same parser up to the reads not yet given. -/
theorem parseReads_eq_parseData (reads : List Bytes)
    (lines : HttpParser.LinesWithin reads.flatten) :
    ∃ verdict parser unread,
      HttpParser.parseReads {} reads = (verdict, parser, unread) ∧
        HttpParser.parseData {} reads.flatten =
          (verdict, { parser with cache := parser.cache ++ unread.flatten }) := by
  refine ⟨_, _, _, rfl, ?_⟩
  have limited : HttpParser.machine.Limited
      (HttpParser.append {} reads.flatten) := lines
  have whole := HttpParser.machine.run_flatten reads {} HttpParser.run_fresh
    limited
  rw [HttpParser.feed_eq_parseReads] at whole
  exact whole

/-- A chunked request in reads that end between CR and LF and inside the
chunk. -/
theorem parseReads_chunked : ∃ verdict parser unread,
    HttpParser.parseReads {} [ascii "PUT /key HTTP/1.1\r",
      ascii "\nTransfer-Encoding: chunked\r\n\r\n5\r\nhel",
      ascii "lo\r\n0\r\n\r\n", ascii "GET"] = (verdict, parser, unread) ∧
      HttpParser.parseData {} [ascii "PUT /key HTTP/1.1\r",
        ascii "\nTransfer-Encoding: chunked\r\n\r\n5\r\nhel",
        ascii "lo\r\n0\r\n\r\n", ascii "GET"].flatten =
      (verdict, { parser with cache := parser.cache ++ unread.flatten }) :=
  parseReads_eq_parseData _ (by decide)

end Natsu.Http
