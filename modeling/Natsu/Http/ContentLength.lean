import Natsu.Http.LineLimits

/-!
# Announced lengths

The value of `Content-Length` goes through `atoi` to an `int`, and from there
to a `size_t`.  From `2 ^ 31` on another number arrives: a smaller one, with
which a body is cut short, or a negative one, which no body reaches.
-/

namespace Natsu.Http

open Natsu.Foundation

/-- A request line and headers, and the empty line. -/
structure RequestHead extends RequestLine where
  headers : List Header

namespace RequestHead

def lines (head : RequestHead) : List Bytes :=
  linesOf head.bare.line head.headers

def bytes (head : RequestHead) : Bytes := written head.lines ++ crlf

/-- The request object after the head has been read. -/
def stored (head : RequestHead) : HttpRequest :=
  Header.store head.headers { method := some head.method, path := head.path }

/-- There is no transfer encoding, and the value of `Content-Length` consists of
decimal digits that denote `length`. -/
structure Announces (head : RequestHead) (length : Nat) : Prop where
  unencoded : ∀ header ∈ head.headers,
    lower header.name ≠ ascii "transfer-encoding"
  nonempty : Header.lastValue head.headers (ascii "content-length") ≠ []
  decimal : ∀ byte ∈ Header.lastValue head.headers (ascii "content-length"),
    (digitValue byte).any (· < 10)
  denotes : digitsValue 10 (leadingDigits 10
    (Header.lastValue head.headers (ascii "content-length"))) = length

end RequestHead

/-- What `atoi` makes of digits that denote `length`. -/
def asInt (length : Nat) : Int := toInt (min (2 ^ 63 - 1) (length : Int))

/-- The result of a call after these reads honours the announced length: with
success the body is what followed the head, and before it has arrived the
parser waits. -/
structure Honoured (head : RequestHead) (length : Nat) (given : List Bytes)
    (verdict : Verdict) (final : HttpParser) : Prop where
  accepted : verdict = .ok .success → ∃ body rest,
    given.flatten = head.bytes ++ (body ++ rest) ∧ body.length = length ∧
      final.req = some { head.stored with body := body }
  awaited : given.flatten.length < head.bytes.length + length →
    verdict = .ok .indeterminate

section Lengths

variable {head : RequestHead} {length : Nat}

theorem announcedLength_stored (announces : head.Announces length) :
    HttpParser.announcedLength head.stored = toSizeT (asInt length) := by
  have value : head.stored.header (ascii "content-length") =
      Header.lastValue head.headers (ascii "content-length") :=
    Header.header_store head.headers (ascii "content-length") _
      (by simp [HttpRequest.header])
  have number := strtol_digits (by omega) announces.nonempty announces.decimal
    separated_nil
  rw [List.append_nil, announces.denotes] at number
  have present :
      (Header.lastValue head.headers (ascii "content-length")).length ≠ 0 := by
    simpa using announces.nonempty
  simp only [HttpParser.announcedLength, value, if_pos present, atoi, number,
    asInt]

theorem asInt_of_small (small : length < 2 ^ 31) :
    toSizeT (asInt length) = length := by
  have inRange : min (2 ^ 63 - 1) (length : Int) = length := by omega
  rw [asInt, inRange, toInt_of_lt small]
  exact toSizeT_of_lt (by omega)

/-- A negative number is larger than any string. -/
theorem asInt_of_negative (negative : asInt length < 0) :
    maxSize < toSizeT (asInt length) := by
  have range := toInt_range (min (2 ^ 63 - 1) (length : Int))
  unfold asInt at negative ⊢
  unfold toSizeT maxSize
  omega

theorem asInt_of_nonnegative (nonnegative : 0 ≤ asInt length) :
    toSizeT (asInt length) < 2 ^ 31 := by
  have range := toInt_range (min (2 ^ 63 - 1) (length : Int))
  unfold asInt at nonnegative ⊢
  unfold toSizeT
  omega

end Lengths

section Reading

variable {head : RequestHead} {length : Nat}

theorem lines_of_bytes (head : RequestHead) (after : Bytes) :
    head.bytes ++ after = head.bare.line ++ crlf ++
      (Header.bytes head.headers ++ (crlf ++ after)) := by
  rw [RequestHead.bytes, RequestHead.lines, HttpParser.written_linesOf]
  simp

/-- The body is as long as the `size_t` that the length has become. -/
theorem run_announced (announces : head.Announces length) (after : Bytes) :
    HttpParser.loop.run { cache := head.bytes ++ after } =
      if toSizeT (asInt length) ≤ after.length then
        (.ok .success, {
          parseFunc := .parseBodyWithLength
          contentLength := toSizeT (asInt length)
          req := some { head.stored with
            body := after.take (toSizeT (asInt length)) }
          cache := after.drop (toSizeT (asInt length)) })
      else
        (.ok .indeterminate, {
          parseFunc := .parseBodyWithLength
          contentLength := toSizeT (asInt length)
          req := some head.stored
          cache := after }) := by
  have encoding : head.stored.header (ascii "transfer-encoding") = [] := by
    rw [RequestHead.stored, Header.header_store_of_ne announces.unencoded]
    simp [HttpRequest.header]
  have empty : head.stored.body = [] := (Header.store_parts _ _).2.2
  rw [lines_of_bytes, HttpParser.run_lines,
    ← announcedLength_stored announces]
  exact HttpParser.run_blank encoding empty after

variable {given : List Bytes} {verdict : Verdict} {final : HttpParser}
  {more : Bytes}

theorem honoured_of_head (begun : given.flatten <+: head.bytes)
    (inHead : given.flatten.length < head.bytes.length)
    (free : ¬ Caught head.lines given)
    (called : HttpParser.loop.run { cache := given.flatten } =
      (verdict, final)) : Honoured head length given verdict final := by
  have waits := HttpParser.run_head_cut head.bare head.headers begun inHead
  rw [called] at waits
  constructor
  · rintro rfl
    rcases waits with waits | ⟨fails, _⟩
    · simp at waits
    · simp at fails
  · intro _
    rcases waits with waits | ⟨_, front, line, back, isLines, behind, inside⟩
    · exact waits
    · exact absurd ⟨front, line, back, isLines, given, [],
        (List.append_nil given).symm, behind, inside⟩ free

theorem honoured_of_body (announces : head.Announces length) {after : Bytes}
    (whole : toSizeT (asInt length) = length ∨
      after.length < toSizeT (asInt length))
    (isAfter : given.flatten = head.bytes ++ after)
    (called : HttpParser.loop.run { cache := given.flatten } =
      (verdict, final)) : Honoured head length given verdict final := by
  rw [isAfter, run_announced announces] at called
  by_cases enough : toSizeT (asInt length) ≤ after.length
  · have isLength : toSizeT (asInt length) = length := by
      rcases whole with same | beyond
      · exact same
      · omega
    rw [if_pos enough, isLength] at called
    obtain ⟨rfl, rfl⟩ := Prod.mk.inj called
    rw [isLength] at enough
    constructor
    · intro _
      refine ⟨after.take length, after.drop length, ?_,
        List.length_take_of_le enough, rfl⟩
      rw [isAfter, List.take_append_drop]
    · intro short
      rw [isAfter, List.length_append] at short
      omega
  · rw [if_neg enough] at called
    obtain ⟨rfl, rfl⟩ := Prod.mk.inj called
    constructor
    · intro success
      simp at success
    · intro _
      rfl

/-- A length that becomes a smaller one is not honoured from where that many
bytes have arrived: a body cut short is accepted. -/
theorem not_honoured_of_shorter (announces : head.Announces length)
    (large : 2 ^ 31 ≤ length) (nonnegative : 0 ≤ asInt length) {after : Bytes}
    (isAfter : given.flatten = head.bytes ++ after)
    (enough : toSizeT (asInt length) ≤ after.length)
    (called : HttpParser.loop.run { cache := given.flatten } =
      (verdict, final)) : ¬ Honoured head length given verdict final := by
  intro honoured
  have shorter := asInt_of_nonnegative nonnegative
  rw [isAfter, run_announced announces, if_pos enough] at called
  obtain ⟨rfl, rfl⟩ := Prod.mk.inj called
  obtain ⟨body, rest, _, isLength, stored⟩ := honoured.accepted rfl
  have isBody : after.take (toSizeT (asInt length)) = body := by
    simpa using stored
  have taken := List.length_take_of_le enough
  rw [isBody, isLength] at taken
  omega

/-- No line of the head is caught, and as much has arrived as goes well. -/
theorem honoured_iff (announces : head.Announces length)
    (cut : given.flatten <+: head.bytes ++ more)
    (bounded : given.flatten.length ≤ head.bytes.length + maxSize)
    (parsed : HttpParser.parseReads {} given = (verdict, final, [])) :
    Honoured head length given verdict final ↔
      ¬ Caught head.lines given ∧
        (length < 2 ^ 31 ∨ asInt length < 0 ∨
          given.flatten.length <
            head.bytes.length + toSizeT (asInt length)) := by
  have called := HttpParser.run_of_parseReads parsed
  constructor
  · intro honoured
    constructor
    · intro caught
      have isCut : given.flatten <+: written head.lines ++ (crlf ++ more) := by
        rwa [← List.append_assoc]
      obtain ⟨waitsNot, inLines⟩ := HttpParser.not_indeterminate_of_caught
        (HttpParser.lines_unbroken head.bare head.headers)
        (HttpParser.lines_nonempty head.bare.line head.headers) isCut parsed
        caught
      refine waitsNot (honoured.awaited ?_)
      rw [RequestHead.bytes, List.length_append]
      exact Nat.lt_add_right _ (Nat.lt_add_right _ inLines)
    · by_contra wrong
      simp only [not_or, Nat.not_lt, Int.not_lt] at wrong
      obtain ⟨large, nonnegative, arrived⟩ := wrong
      rcases within_or_behind cut with ⟨_, inHead⟩ | ⟨after, isAfter, _⟩
      · omega
      · rw [isAfter, List.length_append] at arrived
        exact not_honoured_of_shorter announces large nonnegative isAfter
          (by omega) called honoured
  · intro condition
    obtain ⟨free, right⟩ := condition
    rcases within_or_behind cut with ⟨begun, inHead⟩ | ⟨after, isAfter, _⟩
    · exact honoured_of_head begun inHead free called
    · rw [isAfter, List.length_append] at bounded right
      refine honoured_of_body announces ?_ isAfter called
      rcases right with small | negative | few
      · exact .inl (asInt_of_small small)
      · have beyond := asInt_of_negative negative
        exact .inr (by omega)
      · exact .inr (by omega)

/-- What the verdict is once the announced length has arrived. -/
theorem verdict_of_arrived (announces : head.Announces length)
    (cut : given.flatten <+: head.bytes ++ more)
    (bounded : given.flatten.length ≤ head.bytes.length + maxSize)
    (parsed : HttpParser.parseReads {} given = (verdict, final, []))
    (arrived : head.bytes.length + length ≤ given.flatten.length) :
    (length < 2 ^ 31 → verdict = .ok .success) ∧
      (asInt length < 0 → verdict = .ok .indeterminate) := by
  have called : HttpParser.loop.run { cache := given.flatten } =
      (verdict, final) := HttpParser.run_of_parseReads parsed
  rcases within_or_behind cut with ⟨_, inHead⟩ | ⟨after, isAfter, _⟩
  · omega
  · rw [isAfter, List.length_append] at bounded arrived
    rw [isAfter, run_announced announces] at called
    constructor
    · intro small
      have enough : toSizeT (asInt length) ≤ after.length := by
        rw [asInt_of_small small]
        omega
      rw [if_pos enough] at called
      exact (Prod.mk.inj called).1.symm
    · intro negative
      have beyond := asInt_of_negative negative
      rw [if_neg (by omega)] at called
      exact (Prod.mk.inj called).1.symm

/-- A call honours the announced length exactly when no read has ended inside
a line of the head behind its first 1024 bytes and the length is below `2 ^ 31`,
becomes negative, or becomes a number of bytes that have not followed the head
yet.  In the first case the body is accepted as soon as it has arrived, in the
second the parser waits on. -/
theorem announced_length_honoured (announces : head.Announces length)
    (cut : given.flatten <+: head.bytes ++ more)
    (bounded : given.flatten.length ≤ head.bytes.length + maxSize)
    (parsed : HttpParser.parseReads {} given = (verdict, final, [])) :
    (Honoured head length given verdict final ↔
      ¬ Caught head.lines given ∧
        (length < 2 ^ 31 ∨ asInt length < 0 ∨
          given.flatten.length <
            head.bytes.length + toSizeT (asInt length))) ∧
    (head.bytes.length + length ≤ given.flatten.length →
      (length < 2 ^ 31 → verdict = .ok .success) ∧
        (asInt length < 0 → verdict = .ok .indeterminate)) :=
  ⟨honoured_iff announces cut bounded parsed,
    verdict_of_arrived announces cut bounded parsed⟩

end Reading

namespace Example

theorem contentLength_nonempty : ascii "Content-Length" ≠ [] := by decide

theorem contentLength_clean : ∀ byte ∈ ascii "Content-Length",
    byte ≠ 58 ∧ byte ≠ 13 ∧ byte ≠ 10 :=
  List.all_iff_forall_prop.mp (by decide)

theorem contentLength_trimmed :
    (ascii "Content-Length").getLast? ≠ some 32 := by decide

/-- A header whose value is a number. -/
def announcing (value : Bytes)
    (clean : ∀ byte ∈ value, byte ≠ 13 ∧ byte ≠ 10)
    (trimmed : value.head? ≠ some 32) : Header where
  name := ascii "Content-Length"
  value := value
  nameNonempty := contentLength_nonempty
  nameClean := contentLength_clean
  nameTrimmed := contentLength_trimmed
  valueClean := clean
  valueTrimmed := trimmed

theorem upload_nonempty : ascii "/upload" ≠ [] := by decide

theorem upload_clean :
    ∀ byte ∈ ascii "/upload", byte ≠ 32 ∧ byte ≠ 13 ∧ byte ≠ 10 :=
  List.all_iff_forall_prop.mp (by decide)

def upload (value : Bytes)
    (clean : ∀ byte ∈ value, byte ≠ 13 ∧ byte ≠ 10)
    (trimmed : value.head? ≠ some 32) : RequestHead where
  method := .POST
  path := ascii "/upload"
  headers := [announcing value clean trimmed]
  pathNonempty := upload_nonempty
  pathClean := upload_clean

theorem five_clean : ∀ byte ∈ ascii "005", byte ≠ 13 ∧ byte ≠ 10 :=
  List.all_iff_forall_prop.mp (by decide)

theorem five_trimmed : (ascii "005").head? ≠ some 32 := by decide

def smallUpload : RequestHead := upload (ascii "005") five_clean five_trimmed

theorem large_clean : ∀ byte ∈ ascii "4294967296", byte ≠ 13 ∧ byte ≠ 10 :=
  List.all_iff_forall_prop.mp (by decide)

theorem large_trimmed : (ascii "4294967296").head? ≠ some 32 := by decide

def largeUpload : RequestHead :=
  upload (ascii "4294967296") large_clean large_trimmed

theorem smallUpload_announces : smallUpload.Announces 5 where
  unencoded := by decide
  nonempty := by decide
  decimal := List.all_iff_forall_prop.mp (by decide)
  denotes := by decide

theorem largeUpload_announces : largeUpload.Announces (2 ^ 32) where
  unencoded := by decide
  nonempty := by decide
  decimal := List.all_iff_forall_prop.mp (by decide)
  denotes := by decide

/-- The body comes in two reads, and something behind it. -/
def smallReads : List Bytes := [smallUpload.bytes ++ ascii "he", ascii "llo!"]

def smallFinal : HttpParser :=
  (HttpParser.parseReads {} smallReads).2.1

theorem announced_length_honoured_small :
    Honoured smallUpload 5 smallReads (.ok .success) smallFinal := by
  have free : ¬ Caught smallUpload.lines smallReads := by
    intro caught
    obtain ⟨front, line, back, isLines, given, later, _, behind, inside⟩ :=
      caught
    have short : ∀ line ∈ smallUpload.lines, line.length ≤ 1023 := by
      decide +kernel
    have width := short line (by simp [isLines])
    omega
  have cut : smallReads.flatten <+: smallUpload.bytes ++ ascii "hello!" := by
    decide +kernel
  have bounded : smallReads.flatten.length ≤
      smallUpload.bytes.length + maxSize := by
    decide +kernel
  have accepted : (HttpParser.parseReads {} smallReads).1 = .ok .success := by
    decide +kernel
  have allRead : (HttpParser.parseReads {} smallReads).2.2 = [] := by
    decide +kernel
  have parsed : HttpParser.parseReads {} smallReads =
      (.ok .success, smallFinal, []) :=
    Prod.ext accepted (Prod.ext rfl allRead)
  exact (announced_length_honoured smallUpload_announces cut bounded
    parsed).1.mpr ⟨free, .inl (by decide)⟩

/-- A length of 2^32 becomes 0, and the request is accepted at the empty
line. -/
theorem large_length_not_honoured :
    largeUpload.Announces (2 ^ 32) ∧
      (HttpParser.parseReads {} [largeUpload.bytes]).1 = .ok .success ∧
      ¬ Honoured largeUpload (2 ^ 32) [largeUpload.bytes] (.ok .success)
        (HttpParser.parseReads {} [largeUpload.bytes]).2.1 := by
  refine ⟨largeUpload_announces, by decide +kernel, ?_⟩
  intro honoured
  have early : [largeUpload.bytes].flatten.length <
      largeUpload.bytes.length + 2 ^ 32 := by
    rw [List.flatten_singleton]
    omega
  cases honoured.awaited early

end Example

end Natsu.Http
