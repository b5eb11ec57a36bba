import Natsu.Http.Chunks

/-!
# What is accepted as a chunked body

The size line of a chunk is given to `strtol`, which reads a number from any
line, and the two bytes behind a chunk are erased unseen.  Bytes whose size
lines are well formed, as far as the parser comes, are only accepted when they
begin with a chunked body.
-/

namespace Natsu.Http

open Natsu.Foundation

def isHexDigit (byte : UInt8) : Bool := (digitValue byte).any (· < 16)

/-- The size that a line gives: hexadecimal digits, and behind them nothing or
a semicolon and an extension. -/
def sizeOf? (line : Bytes) : Option Nat :=
  let digits := line.takeWhile isHexDigit
  let extension := line.dropWhile isHexDigit
  if digits ≠ [] ∧ (extension = [] ∨ extension.head? = some 59) then
    some (digitsValue 16 (leadingDigits 16 digits))
  else none

/-- The bytes begin with a chunked body with this payload. -/
inductive StartsChunked : Bytes → Bytes → Prop where
  | last {line rest : Bytes} (unbroken : find crlf line = none)
      (size : sizeOf? line = some 0) :
      StartsChunked (line ++ crlf ++ rest) []
  | chunk {line data rest payload : Bytes} (unbroken : find crlf line = none)
      (size : sizeOf? line = some data.length) (nonempty : data ≠ [])
      (more : StartsChunked rest payload) :
      StartsChunked (line ++ crlf ++ (data ++ crlf ++ rest)) (data ++ payload)

/-- As far as the chunks go, every size line is well formed and gives a number
below `2 ^ 31`, and every complete chunk is followed by a line end. -/
inductive WellSized : Bytes → Prop where
  | unended {bytes : Bytes} (unbroken : find crlf bytes = none) :
      WellSized bytes
  | last {line rest : Bytes} (unbroken : find crlf line = none)
      (size : sizeOf? line = some 0) : WellSized (line ++ crlf ++ rest)
  | cut {line part : Bytes} {length : Nat} (unbroken : find crlf line = none)
      (size : sizeOf? line = some length) (small : length < 2 ^ 31)
      (nonzero : length ≠ 0) (incomplete : part.length < length + 2) :
      WellSized (line ++ crlf ++ part)
  | chunk {line data rest : Bytes} (unbroken : find crlf line = none)
      (size : sizeOf? line = some data.length) (small : data.length < 2 ^ 31)
      (nonempty : data ≠ []) (more : WellSized rest) :
      WellSized (line ++ crlf ++ (data ++ crlf ++ rest))

/-- Behind well-formed chunks there is a size line with a number from
`2 ^ 32` on, which an `int` takes for a smaller one. -/
inductive Wide : Bytes → Prop where
  | here {line rest : Bytes} {length : Nat} (unbroken : find crlf line = none)
      (size : sizeOf? line = some length) (wide : 2 ^ 32 ≤ length) :
      Wide (line ++ crlf ++ rest)
  | later {line data rest : Bytes} (unbroken : find crlf line = none)
      (size : sizeOf? line = some data.length) (small : data.length < 2 ^ 31)
      (nonempty : data ≠ []) (more : Wide rest) :
      Wide (line ++ crlf ++ (data ++ crlf ++ rest))

section Sizes

variable {line : Bytes} {length : Nat}

theorem strtol_of_sizeOf? (size : sizeOf? line = some length) :
    strtol 16 line = min (2 ^ 63 - 1) (length : Int) := by
  unfold sizeOf? at size
  dsimp only at size
  split at size
  · rename_i formed
    obtain rfl := Option.some.inj size
    have digits : ∀ byte ∈ line.takeWhile isHexDigit,
        (digitValue byte).any (· < 16) := by
      intro byte member
      have isDigit : isHexDigit byte = true := List.mem_takeWhile_imp member
      exact isDigit
    have read := strtol_digits (Nat.le_refl 16) formed.1 digits formed.2
    rwa [List.takeWhile_append_dropWhile] at read
  · simp at size

/-- A size below `2 ^ 31` is read as it is. -/
theorem len_of_sizeOf? (size : sizeOf? line = some length)
    (small : length < 2 ^ 31) : toSizeT (stringtoint line) = length := by
  have inRange : min (2 ^ 63 - 1) (length : Int) = length := by omega
  rw [stringtoint, strtol_of_sizeOf? size, inRange, toInt_of_lt small]
  exact toSizeT_of_lt (by omega)

/-- A size between `2 ^ 31` and `2 ^ 32` is read as a negative number. -/
theorem len_of_negative (size : sizeOf? line = some length)
    (large : 2 ^ 31 ≤ length) (narrow : length < 2 ^ 32) :
    2 ^ 64 - 2 ^ 31 ≤ toSizeT (stringtoint line) := by
  have inRange : min (2 ^ 63 - 1) (length : Int) = length := by omega
  rw [stringtoint, strtol_of_sizeOf? size, inRange]
  unfold toSizeT toInt
  rw [Int.bmod_def]
  omega

end Sizes

namespace HttpParser

/-- The call returns, and where it accepts, the bytes begin with a chunked body
whose payload follows what the request already had. -/
def SoundFrom (filled : HttpRequest) (bytes : Bytes)
    (result : Verdict × HttpParser) : Prop :=
  (∃ verdict, result.1 = .ok verdict) ∧
    (result.1 = .ok .success → ∃ payload, StartsChunked bytes payload ∧
      result.2.req =
        some { filled with body := filled.body ++ payload })

section Acceptance

variable {parser final : HttpParser} {filled : HttpRequest}
  {line part bytes : Bytes}

theorem run_unbroken (inBody : parser.parseFunc = .parseBodyWithChunk)
    (unbroken : find crlf parser.cache = none) :
    loop.run parser = (.ok .failure, parser) ∨
      loop.run parser = (.ok .indeterminate, parser) := by
  have body : loop.body parser =
      if parser.cache.length > maxChunkNum then parser.returns .failure
      else parser.returns .indeterminate := by
    show parser.activate = _
    simp only [activate, inBody, parseBodyWithChunk, unbroken]
  split at body
  · exact .inl (loop.run_leave body)
  · exact .inr (loop.run_leave body)

/-- A complete chunk below `2 ^ 31` goes to the body, if it fits there. -/
theorem body_sized_chunk {data rest : Bytes}
    (inBody : parser.parseFunc = .parseBodyWithChunk)
    (started : parser.req = some filled) (unbroken : find crlf line = none)
    (size : sizeOf? line = some data.length) (small : data.length < 2 ^ 31)
    (nonempty : data ≠ [])
    (cached : parser.cache = line ++ crlf ++ (data ++ crlf ++ rest)) :
    loop.body parser =
      if maxSize - filled.body.length < data.length then
        { parser with cache := data ++ crlf ++ rest }.throws .lengthError
      else
        .inl { parser with
          req := some { filled with body := filled.body ++ data }
          cache := rest } := by
  have nonzero : data.length ≠ 0 := by simpa using nonempty
  have complete : ¬ (data ++ crlf ++ rest).length + 2 <
      (data.length + 4) % 2 ^ 64 := by
    simp only [List.length_append, crlf, List.length_cons, List.length_nil]
    omega
  have taken : (data ++ crlf ++ rest).take data.length = data := by
    rw [List.append_assoc, List.take_left]
  have skipped : (data ++ crlf ++ rest).drop (data.length + 2) = rest := by
    rw [show data.length + 2 = (data ++ crlf).length by simp [crlf],
      List.drop_left]
  rw [body_line inBody started unbroken cached (len_of_sizeOf? size small),
    if_neg nonzero, if_neg complete, taken, skipped]

/-- Well-sized bytes are only accepted when they begin with a chunked body. -/
theorem sound_of_wellSized (sized : WellSized bytes) :
    ∀ (parser : HttpParser) (filled : HttpRequest),
      parser.parseFunc = .parseBodyWithChunk → parser.req = some filled →
      parser.cache = bytes → filled.body.length + bytes.length ≤ maxSize →
      SoundFrom filled bytes (loop.run parser) := by
  induction sized with
  | unended unbroken =>
      intro parser filled inBody _ cached _
      rw [← cached] at unbroken
      rcases run_unbroken inBody unbroken with run | run
      · rw [run]
        exact ⟨⟨_, rfl⟩, by simp⟩
      · rw [run]
        exact ⟨⟨_, rfl⟩, by simp⟩
  | last unbroken size =>
      intro parser filled inBody started cached _
      have zero := len_of_sizeOf? size (by omega)
      have body := body_line inBody started unbroken cached zero
      rw [if_pos rfl] at body
      rw [loop.run_leave body]
      refine ⟨⟨_, rfl⟩, fun _ => ⟨[], .last unbroken size, ?_⟩⟩
      rw [List.append_nil]
      exact started
  | @cut line part length unbroken size small nonzero incomplete =>
      intro parser filled inBody started cached _
      have body := body_line inBody started unbroken cached
        (len_of_sizeOf? size small)
      have short : part.length + 2 < (length + 4) % 2 ^ 64 := by omega
      rw [if_neg nonzero, if_pos short] at body
      rw [loop.run_leave body]
      exact ⟨⟨_, rfl⟩, by simp⟩
  | @chunk line data rest unbroken size small nonempty _ induction =>
      intro parser filled inBody started cached room
      simp only [List.length_append] at room
      have fits : ¬ maxSize - filled.body.length < data.length := by omega
      have body := body_sized_chunk inBody started unbroken size small nonempty
        cached
      rw [if_neg fits] at body
      rw [loop.run_next body]
      obtain ⟨returned, accepted⟩ := induction
        { parser with
          req := some { filled with body := filled.body ++ data }
          cache := rest }
        { filled with body := filled.body ++ data } inBody rfl rfl
        (by simp only [List.length_append]; omega)
      refine ⟨returned, fun success => ?_⟩
      obtain ⟨payload, starts, isBody⟩ := accepted success
      refine ⟨data ++ payload, .chunk unbroken size nonempty starts, ?_⟩
      rw [isBody, List.append_assoc]

/-- A size that is read as a negative number is waited for, or makes the call
throw. -/
theorem not_success_of_negative {length : Nat}
    (inBody : parser.parseFunc = .parseBodyWithChunk)
    (started : parser.req = some filled) (unbroken : find crlf line = none)
    (cached : parser.cache = line ++ crlf ++ part)
    (size : sizeOf? line = some length) (large : 2 ^ 31 ≤ length)
    (narrow : length < 2 ^ 32) : (loop.run parser).1 ≠ .ok .success := by
  have huge := len_of_negative size large narrow
  have body := body_line inBody started unbroken cached rfl
  have nonzero : toSizeT (stringtoint line) ≠ 0 := by omega
  have tooLong : maxSize - filled.body.length < toSizeT (stringtoint line) := by
    unfold maxSize
    omega
  rw [if_neg nonzero, if_pos tooLong] at body
  split at body
  · rw [loop.run_leave body]
    simp
  · rw [loop.run_leave body]
    simp

/-- Where a chunked body is accepted, its sizes were read as they are. -/
theorem wellSized_of_accepted {payload : Bytes}
    (starts : StartsChunked bytes payload) :
    ∀ (parser : HttpParser) (filled : HttpRequest),
      parser.parseFunc = .parseBodyWithChunk → parser.req = some filled →
      parser.cache = bytes → (loop.run parser).1 = .ok .success →
      WellSized bytes ∨ Wide bytes := by
  induction starts with
  | last unbroken size =>
      intro _ _ _ _ _ _
      exact .inl (.last unbroken size)
  | @chunk line data rest payload unbroken size nonempty _ induction =>
      intro parser filled inBody started cached success
      by_cases wide : 2 ^ 32 ≤ data.length
      · exact .inr (.here unbroken size wide)
      by_cases small : data.length < 2 ^ 31
      · have body := body_sized_chunk inBody started unbroken size small
          nonempty cached
        split at body
        · rw [loop.run_leave body] at success
          simp at success
        · rw [loop.run_next body] at success
          have behind := induction
            { parser with
              req := some { filled with body := filled.body ++ data }
              cache := rest }
            { filled with body := filled.body ++ data } inBody rfl rfl success
          rcases behind with sized | isWide
          · exact .inl (.chunk unbroken size small nonempty sized)
          · exact .inr (.later unbroken size small nonempty isWide)
      · exact absurd success (not_success_of_negative inBody started unbroken
          cached size (by omega) (by omega))

end Acceptance

/-- The parser as it enters the body waits. -/
theorem Entered.waits {parser : HttpParser} {request : HttpRequest}
    (entered : parser.Entered request) :
    loop.run parser = (.ok .indeterminate, parser) := by
  apply loop.run_leave
  show parser.activate = _
  simp only [activate, entered.inBody, parseBodyWithChunk, entered.unread]
  rfl

end HttpParser

/-- Bytes that are well sized, however they are cut, are accepted only if they
begin with a chunked body, which becomes the body of the request.  Bytes that
are rightly accepted are well sized, or have a size that an `int` does not
hold. -/
theorem chunked_accepted {parser final : HttpParser} {request : HttpRequest}
    (entered : parser.Entered request) {verdict : Verdict}
    {given : List Bytes}
    (parsed : parser.parseReads given = (verdict, final, [])) :
    (WellSized given.flatten → given.flatten.length ≤ maxSize →
      HttpParser.SoundFrom request given.flatten (verdict, final)) ∧
    (verdict = .ok .success →
      HttpParser.SoundFrom request given.flatten (verdict, final) →
      WellSized given.flatten ∨ Wide given.flatten) := by
  have run : HttpParser.loop.run (parser.append given.flatten) =
      (verdict, final) :=
    HttpParser.parseData_of_parseReads entered.waits parsed
  have cached : (parser.append given.flatten).cache = given.flatten := by
    rw [HttpParser.append_cache, entered.unread, List.nil_append]
  constructor
  · intro sized bounded
    rw [← run]
    refine HttpParser.sound_of_wellSized sized (parser.append given.flatten)
      request entered.inBody entered.started cached ?_
    simpa [entered.empty] using bounded
  · rintro success ⟨_, accepted⟩
    obtain ⟨payload, starts, _⟩ := accepted success
    refine HttpParser.wellSized_of_accepted starts
      (parser.append given.flatten) request entered.inBody entered.started
      cached ?_
    rw [run]
    exact success

theorem StartsChunked.first_line {bytes payload : Bytes}
    (starts : StartsChunked bytes payload) :
    ∃ position size, find crlf bytes = some position ∧
      sizeOf? (bytes.take position) = some size ∧
      (size ≠ 0 → crlf <+: bytes.drop (position + 2 + size)) := by
  cases starts with
  | @last line rest unbroken size =>
      refine ⟨line.length, 0, find_crlf_line unbroken rest, ?_, by simp⟩
      rwa [List.append_assoc, List.take_left]
  | @chunk line data rest payload unbroken size nonempty more =>
      refine ⟨line.length, data.length, find_crlf_line unbroken _, ?_, ?_⟩
      · rwa [List.append_assoc, List.take_left]
      · intro _
        have behind : (line ++ crlf ++ (data ++ crlf ++ rest)).drop
            (line.length + 2 + data.length) = crlf ++ rest := by
          rw [show line ++ crlf ++ (data ++ crlf ++ rest) =
              (line ++ crlf ++ data) ++ (crlf ++ rest) by simp,
            show line.length + 2 + data.length =
              (line ++ crlf ++ data).length by simp [crlf]; omega,
            List.drop_left]
        rw [behind]
        exact List.prefix_append crlf rest

namespace Example

theorem entered_entered : entered.Entered
    { method := some .PUT, path := ascii "/key" } := ⟨rfl, rfl, rfl, rfl⟩

/-- A chunk with an extension, in two reads. -/
theorem chunked_accepted_extension :
    WellSized (ascii "5;q\r\nhello\r\n0\r\n") ∧
      ∃ final, entered.parseReads
          [ascii "5;q\r\nhe", ascii "llo\r\n0\r\n"] =
          (.ok .success, final, []) ∧
        HttpParser.SoundFrom { method := some .PUT, path := ascii "/key" }
          (ascii "5;q\r\nhello\r\n0\r\n") (.ok .success, final) := by
  have sized : WellSized (ascii "5;q\r\nhello\r\n0\r\n") := by
    have last : WellSized (ascii "0\r\n") :=
      @WellSized.last (ascii "0") [] (by decide) (by decide)
    exact @WellSized.chunk (ascii "5;q") (ascii "hello") _
      (by decide) (by decide) (by decide) (by decide) last
  have parsed : entered.parseReads [ascii "5;q\r\nhe", ascii "llo\r\n0\r\n"] =
      (.ok .success, { entered with
        req := some {
          method := some .PUT
          path := ascii "/key"
          body := ascii "hello" }
        cache := ascii "0\r\n" }, []) := by
    rfl
  exact ⟨sized, _, parsed,
    (chunked_accepted entered_entered parsed).1 sized (by decide)⟩

/-- An empty size line, and a chunk without a line end behind it. -/
theorem malformed_chunks_accepted :
    (∃ final, entered.parseReads [ascii "\r\n"] = (.ok .success, final, []) ∧
      ¬ HttpParser.SoundFrom { method := some .PUT, path := ascii "/key" }
        (ascii "\r\n") (.ok .success, final)) ∧
    (∃ final, entered.parseReads [ascii "5\r\nhelloXX0\r\n"] =
        (.ok .success, final, []) ∧
      ¬ HttpParser.SoundFrom { method := some .PUT, path := ascii "/key" }
        (ascii "5\r\nhelloXX0\r\n") (.ok .success, final)) := by
  refine ⟨⟨_, rfl, ?_⟩, ⟨_, rfl, ?_⟩⟩
  · rintro ⟨_, accepted⟩
    obtain ⟨payload, starts, _⟩ := accepted rfl
    obtain ⟨position, size, found, isSize, _⟩ := starts.first_line
    obtain rfl : 0 = position := Option.some.inj found
    exact absurd isSize (by simp [sizeOf?])
  · rintro ⟨_, accepted⟩
    obtain ⟨payload, starts, _⟩ := accepted rfl
    obtain ⟨position, size, found, isSize, ended⟩ := starts.first_line
    obtain rfl : 1 = position := Option.some.inj found
    obtain rfl : 5 = size := Option.some.inj isSize
    exact absurd (ended (by decide)) (by decide)

end Example

end Natsu.Http
