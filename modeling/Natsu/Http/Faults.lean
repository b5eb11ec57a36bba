import Natsu.Foundation.Calls
import Natsu.Http.Parser

/-!
# Counts and faults of the parser

Any bytes in any cut may be passed to `parse`.  Every activation hands
positions and counts to the functions of `std::string`.  They are in range,
and no call throws, as long as no chunk announces a size of -4 to -1: such a
size passes through `int` to `size_t`, and the sum that guards the chunk wraps
around.
-/

namespace Natsu.Http

open Natsu.Foundation

namespace HttpParser

/-- The parser under repeated calls of `parse(pData, len)`.  A call that
throws is the last one. -/
def reader : Callable HttpParser Bytes (Verdict × HttpParser) where
  loop := loop
  enter := append
  Leaves result next := ∃ verdict, result = (.ok verdict, next)

end HttpParser

/-- A position, a count or a sum that the parser computes, with the greatest
value that it may have. -/
structure Demand where
  count : Nat
  available : Nat
  deriving DecidableEq, Repr

def Demand.InRange (demand : Demand) : Prop := demand.count ≤ demand.available

namespace HttpParser

section Demands

def requestDemands (line : Bytes) : List Demand :=
  if minLine > line.length ∨ strcaseeq (ascii "HTTP/1.") (line.take 7) then []
  else
    match find [32] line with
    | none => []
    | some first =>
        { count := first, available := line.length } ::
          match findFrom [32] (first + 1) line with
          | none => []
          | some second =>
              [{ count := first + 1, available := line.length },
                { count := second - first - 1
                  available := line.length - (first + 1) }]

def headerDemands (line : Bytes) : List Demand :=
  match find [58] line with
  | none => []
  | some mid =>
      let key := line.take mid
      let value := line.drop (mid + 1)
      { count := mid, available := line.length } ::
        { count := mid + 1, available := line.length } ::
          if key = [] then []
          else
            [{ count := trimright key + 1, available := key.length },
              { count := trimleft value, available := value.length }]

/-- `substr(0, pos)`, `erase(0, pos + 2)` and what the line is used for. -/
def lineDemands (cache : Bytes) (use : Bytes → List Demand) : List Demand :=
  match find crlf cache with
  | none => []
  | some position =>
      { count := position, available := cache.length } ::
        { count := position + 2, available := cache.length } ::
          use (cache.take position)

def lengthDemands (cache : Bytes) (contentLength : Nat) : List Demand :=
  if cache.length ≥ contentLength then
    [{ count := contentLength, available := cache.length }]
  else []

/-- The size that a chunk announces. -/
def chunkLen (cache : Bytes) (position : Nat) : Nat :=
  toSizeT (stringtoint (cache.take position))

/-- The sum `len + 4` is a `size_t`; a complete chunk is erased up to its
data, appended to the body, and erased with its line end. -/
def chunkDemands (cache : Bytes) : List Demand :=
  match find crlf cache with
  | none => []
  | some position =>
      let len := chunkLen cache position
      let rest := cache.length - (position + 2)
      { count := position, available := cache.length } ::
        if len = 0 then []
        else
          { count := len + 4, available := 2 ^ 64 - 1 } ::
            if cache.length - position < (len + 4) % 2 ^ 64 then []
            else
              [{ count := position + 2, available := cache.length },
                { count := len, available := rest },
                { count := len + 2, available := rest }]

/-- What one call through `parse_func_` demands.  The cache must have been
appended to without exceeding the size of a string. -/
def demands (parser : HttpParser) : List Demand :=
  { count := parser.cache.length, available := maxSize } ::
    match parser.parseFunc with
    | .parseFirstLine => lineDemands parser.cache requestDemands
    | .parseHeaders => lineDemands parser.cache headerDemands
    | .parseBodyWithLength => lengthDemands parser.cache parser.contentLength
    | .parseBodyWithChunk => chunkDemands parser.cache

end Demands

/-- All counts of all calls are in range and no call throws. -/
def Safe (reads : List Bytes) : Prop :=
  (∀ parser, reader.Activates {} reads parser →
    ∀ demand ∈ parser.demands, demand.InRange) ∧
  ∀ result, reader.Returns {} reads result →
    ∃ verdict, result.1 = .ok verdict

/-- The parser is at a chunk whose size line reads as a number from -4 to
-1. -/
def Wraps (parser : HttpParser) : Prop :=
  parser.parseFunc = .parseBodyWithChunk ∧
    ∃ position, find crlf parser.cache = some position ∧
      -4 ≤ stringtoint (parser.cache.take position) ∧
      stringtoint (parser.cache.take position) < 0

/-- The parser is at a complete chunk that would make the body longer than a
string can be. -/
def OverfillsBody (parser : HttpParser) : Prop :=
  parser.parseFunc = .parseBodyWithChunk ∧
    ∃ position, find crlf parser.cache = some position ∧
      ∃ request, parser.req = some request ∧
        chunkLen parser.cache position ≠ 0 ∧
        chunkLen parser.cache position + 4 ≤ parser.cache.length - position ∧
        maxSize < request.body.length + chunkLen parser.cache position

/-- There are more bytes than a string can hold. -/
def Overfills (parser : HttpParser) : Prop :=
  maxSize < parser.cache.length ∨ parser.OverfillsBody

section InRange

theorem requestDemands_inRange (line : Bytes) :
    ∀ demand ∈ requestDemands line, demand.InRange := by
  unfold requestDemands
  split
  · simp
  · split
    · simp
    · rename_i first firstFound
      have firstBound := find_bound firstFound
      simp only [List.length_singleton] at firstBound
      refine List.forall_mem_cons.mpr ⟨by simp only [Demand.InRange]; omega, ?_⟩
      split
      · simp
      · rename_i second secondFound
        obtain ⟨offset, offsetFound, rfl⟩ :=
          Option.map_eq_some_iff.mp secondFound
        have offsetBound := find_bound offsetFound
        simp only [List.length_singleton, List.length_drop] at offsetBound
        simp only [List.forall_mem_cons, Demand.InRange]
        refine ⟨by omega, by omega, by simp⟩

theorem trimright_lt {key : Bytes} (nonempty : key ≠ []) :
    trimright key < key.length := by
  have shorter := (List.dropWhile_sublist (p := (· == 32))
    (l := key.tail.reverse)).length_le
  have positive := List.length_pos_of_ne_nil nonempty
  simp only [List.length_reverse, List.length_tail] at shorter
  unfold trimright
  omega

theorem headerDemands_inRange (line : Bytes) :
    ∀ demand ∈ headerDemands line, demand.InRange := by
  unfold headerDemands
  split
  · simp
  · rename_i mid found
    have bound := find_bound found
    simp only [List.length_singleton] at bound
    refine List.forall_mem_cons.mpr ⟨by simp only [Demand.InRange]; omega, ?_⟩
    refine List.forall_mem_cons.mpr ⟨by simp only [Demand.InRange]; omega, ?_⟩
    split
    · simp
    · rename_i nonempty
      simp only [List.forall_mem_cons, Demand.InRange]
      refine ⟨trimright_lt nonempty, ?_, by simp⟩
      exact (List.takeWhile_sublist _).length_le

theorem lineDemands_inRange {use : Bytes → List Demand}
    (inRange : ∀ line, ∀ demand ∈ use line, demand.InRange) (cache : Bytes) :
    ∀ demand ∈ lineDemands cache use, demand.InRange := by
  unfold lineDemands
  split
  · simp
  · rename_i position found
    have bound := find_bound found
    have width : crlf.length = 2 := rfl
    refine List.forall_mem_cons.mpr ⟨by simp only [Demand.InRange]; omega, ?_⟩
    refine List.forall_mem_cons.mpr ⟨by simp only [Demand.InRange]; omega, ?_⟩
    exact inRange _

theorem lengthDemands_inRange (cache : Bytes) (contentLength : Nat) :
    ∀ demand ∈ lengthDemands cache contentLength, demand.InRange := by
  unfold lengthDemands
  split
  · simpa [Demand.InRange] using ‹_›
  · simp

/-- A size from -4 to -1 is exactly one that makes the sum wrap around. -/
theorem wraps_iff (text : Bytes) :
    2 ^ 64 ≤ toSizeT (stringtoint text) + 4 ↔
      -4 ≤ stringtoint text ∧ stringtoint text < 0 := by
  have range : -2 ^ 31 ≤ stringtoint text ∧ stringtoint text < 2 ^ 31 :=
    toInt_range _
  unfold toSizeT
  omega

/-- Without a sum that wraps around, the chunk that is taken is there. -/
theorem chunkDemands_inRange {cache : Bytes}
    (unwrapped : ∀ position, find crlf cache = some position →
      chunkLen cache position + 4 < 2 ^ 64) :
    ∀ demand ∈ chunkDemands cache, demand.InRange := by
  unfold chunkDemands
  split
  · simp
  · rename_i position found
    have small := unwrapped position found
    have bound := find_bound found
    have width : crlf.length = 2 := rfl
    refine List.forall_mem_cons.mpr ⟨by simp only [Demand.InRange]; omega, ?_⟩
    split
    · simp
    · refine List.forall_mem_cons.mpr
        ⟨by simp only [Demand.InRange]; omega, ?_⟩
      split
      · simp
      · rename_i complete
        rw [Nat.mod_eq_of_lt small] at complete
        simp only [List.forall_mem_cons, Demand.InRange]
        refine ⟨by omega, by omega, by omega, by simp⟩

theorem unwrapped_of_not_wraps {parser : HttpParser}
    (atChunk : parser.parseFunc = .parseBodyWithChunk)
    (notWraps : ¬ parser.Wraps) {position : Nat}
    (found : find crlf parser.cache = some position) :
    chunkLen parser.cache position + 4 < 2 ^ 64 := by
  by_contra wrapped
  apply notWraps
  exact ⟨atChunk, position, found,
    (wraps_iff _).mp (Nat.le_of_not_lt wrapped)⟩

theorem demands_inRange {parser : HttpParser} (notWraps : ¬ parser.Wraps)
    (fits : parser.cache.length ≤ maxSize) :
    ∀ demand ∈ parser.demands, demand.InRange := by
  unfold demands
  refine List.forall_mem_cons.mpr ⟨fits, ?_⟩
  split
  · exact lineDemands_inRange requestDemands_inRange _
  · exact lineDemands_inRange headerDemands_inRange _
  · exact lengthDemands_inRange _ _
  · rename_i atChunk
    exact chunkDemands_inRange fun position found =>
      unwrapped_of_not_wraps atChunk notWraps found

theorem exists_demand_of_wraps {parser : HttpParser} (wraps : parser.Wraps) :
    ∃ demand ∈ parser.demands, ¬ demand.InRange := by
  obtain ⟨atChunk, position, found, range⟩ := wraps
  have wrapped : 2 ^ 64 ≤ chunkLen parser.cache position + 4 :=
    (wraps_iff _).mpr range
  have nonzero : chunkLen parser.cache position ≠ 0 := by omega
  refine ⟨{ count := chunkLen parser.cache position + 4
            available := 2 ^ 64 - 1 }, ?_, ?_⟩
  · simp only [demands, atChunk, chunkDemands, found, if_neg nonzero]
    simp
  · simp only [Demand.InRange]
    omega

end InRange

section Faults

/-- After the first line there is a request. -/
def HasRequest (parser : HttpParser) : Prop :=
  parser.parseFunc ≠ .parseFirstLine → parser.req.isSome

/-- The bytes that the parser holds. -/
def held (parser : HttpParser) : Nat :=
  parser.cache.length +
    parser.req.elim 0 fun request => request.body.length

structure HoldsAtMost (bound : Nat) (parser : HttpParser) : Prop where
  hasRequest : parser.HasRequest
  held_le : parser.held ≤ bound

/-- What the activation goes on with or leaves behind is within the bound.
Only if `Allowed` does the activation throw. -/
def Activation.Sound (bound : Nat) (Allowed : Prop) : Activation → Prop
  | .inl next => next.HoldsAtMost bound
  | .inr (.ok _, next) => next.HoldsAtMost bound
  | .inr (.error _, _) => Allowed

variable {parser : HttpParser} {bound : Nat} {Allowed : Prop}

theorem hasRequest_of_present {request : HttpRequest}
    (present : parser.req = some request) : parser.HasRequest :=
  fun _ => Option.isSome_of_eq_some present

theorem requestLine_sound (hasRequest : parser.HasRequest) (line : Bytes)
    (within : parser.held ≤ bound) :
    Activation.Sound bound Allowed (parser.requestLine line) := by
  have fresh : parser.cache.length ≤ bound := by
    unfold held at within
    omega
  unfold requestLine
  split
  · exact ⟨hasRequest, within⟩
  · split
    · exact ⟨hasRequest, within⟩
    · split
      · exact ⟨hasRequest, within⟩
      · split
        · exact ⟨hasRequest, within⟩
        · dsimp only
          split
          · exact ⟨fun _ => rfl, fresh⟩
          · exact ⟨fun _ => rfl, fresh⟩

theorem endHeaders_sound {request : HttpRequest}
    (present : parser.req = some request) (within : parser.held ≤ bound) :
    Activation.Sound bound Allowed (parser.endHeaders request) := by
  have isSome : parser.req.isSome := Option.isSome_of_eq_some present
  unfold endHeaders
  dsimp only
  split
  · split
    · exact ⟨fun _ => isSome, within⟩
    · exact ⟨fun _ => isSome, within⟩
  · split
    · exact ⟨fun _ => isSome, within⟩
    · exact ⟨fun _ => isSome, within⟩

theorem headerLine_sound {request : HttpRequest}
    (present : parser.req = some request) (line : Bytes)
    (within : parser.held ≤ bound) :
    Activation.Sound bound Allowed (parser.headerLine line) := by
  have hasRequest := hasRequest_of_present present
  unfold headerLine
  split
  · rw [present]
    exact endHeaders_sound present within
  · split
    · exact ⟨hasRequest, within⟩
    · rw [present]
      refine ⟨fun _ => rfl, ?_⟩
      simpa [held, present, HttpRequest.setHeader] using within

theorem readLine_sound {limit : Nat} {use : HttpParser → Bytes → Activation}
    (hasRequest : parser.HasRequest)
    (sound : ∀ cache line, cache.length ≤ parser.cache.length →
      Activation.Sound parser.held Allowed
        (use { parser with cache := cache } line)) :
    Activation.Sound parser.held Allowed (parser.readLine limit use) := by
  unfold readLine
  split
  · exact sound _ _ (by simp)
  · split
    · exact ⟨hasRequest, Nat.le_refl _⟩
    · exact ⟨hasRequest, Nat.le_refl _⟩

theorem parseBodyWithLength_sound {request : HttpRequest}
    (present : parser.req = some request) :
    Activation.Sound parser.held Allowed parser.parseBodyWithLength := by
  unfold parseBodyWithLength
  split
  · rename_i complete
    rw [present]
    refine ⟨fun _ => rfl, ?_⟩
    simp only [held, present, Option.elim, List.length_drop, List.length_take]
    omega
  · exact ⟨hasRequest_of_present present, Nat.le_refl _⟩

theorem appendChunk_sound {request : HttpRequest} {position : Nat}
    (present : parser.req = some request)
    (atChunk : parser.parseFunc = .parseBodyWithChunk)
    (found : find crlf parser.cache = some position)
    (nonzero : chunkLen parser.cache position ≠ 0)
    (complete : ¬ parser.cache.length - position <
      (chunkLen parser.cache position + 4) % 2 ^ 64) :
    Activation.Sound parser.held (¬ parser.Wraps → parser.OverfillsBody)
      (parser.appendChunk position (chunkLen parser.cache position)) := by
  unfold appendChunk
  dsimp only
  rw [present]
  dsimp only
  split
  · rename_i tooLong
    intro notWraps
    have small := unwrapped_of_not_wraps atChunk notWraps found
    rw [Nat.mod_eq_of_lt small] at complete
    exact ⟨atChunk, position, found, request, present, nonzero, by omega,
      by omega⟩
  · refine ⟨fun _ => rfl, ?_⟩
    simp only [held, present, Option.elim, List.length_append,
      List.length_take, List.length_drop]
    omega

theorem parseBodyWithChunk_sound {request : HttpRequest}
    (present : parser.req = some request)
    (atChunk : parser.parseFunc = .parseBodyWithChunk) :
    Activation.Sound parser.held (¬ parser.Wraps → parser.OverfillsBody)
      parser.parseBodyWithChunk := by
  have hasRequest := hasRequest_of_present present
  unfold parseBodyWithChunk
  split
  · split
    · exact ⟨hasRequest, Nat.le_refl _⟩
    · exact ⟨hasRequest, Nat.le_refl _⟩
  · rename_i position found
    dsimp only
    split
    · exact ⟨hasRequest, Nat.le_refl _⟩
    · rename_i nonzero
      split
      · exact ⟨hasRequest, Nat.le_refl _⟩
      · rename_i complete
        exact appendChunk_sound present atChunk found nonzero complete

/-- One activation of a parser that has a request if it needs one. -/
theorem activate_sound (hasRequest : parser.HasRequest) :
    Activation.Sound parser.held (¬ parser.Wraps → parser.OverfillsBody)
      parser.activate := by
  have shrunk : ∀ cache : Bytes, cache.length ≤ parser.cache.length →
      held { parser with cache := cache } ≤ parser.held := by
    intro cache shorter
    simp only [held]
    omega
  have request : parser.parseFunc ≠ .parseFirstLine →
      ∃ request, parser.req = some request :=
    fun later => Option.isSome_iff_exists.mp (hasRequest later)
  unfold activate
  split
  · apply readLine_sound hasRequest
    intro cache line shorter
    have kept : HasRequest { parser with cache := cache } := hasRequest
    exact requestLine_sound kept line (shrunk cache shorter)
  · rename_i atHeaders
    obtain ⟨request, present⟩ := request (by simp [atHeaders])
    apply readLine_sound hasRequest
    intro cache line shorter
    have kept : ({ parser with cache := cache } : HttpParser).req =
        some request := present
    exact headerLine_sound kept line (shrunk cache shorter)
  · rename_i atLength
    obtain ⟨request, present⟩ := request (by simp [atLength])
    exact parseBodyWithLength_sound present
  · rename_i atChunk
    obtain ⟨request, present⟩ := request (by simp [atChunk])
    exact parseBodyWithChunk_sound present atChunk

/-- In every activation the parser has a request if it needs one, and holds
no more than it was given. -/
theorem reader_holdsAtMost {reads : List Bytes}
    (activates : reader.Activates {} reads parser) :
    parser.HoldsAtMost reads.flatten.length := by
  have start : HoldsAtMost 0 {} := ⟨fun later => absurd rfl later, Nat.le_refl _⟩
  rw [List.length_flatten, ← Nat.zero_add (reads.map List.length).sum]
  refine Callable.invariant_of_kept ?_ ?_ ?_ ?_ start activates
  · intro bound more state greater within
    exact ⟨within.hasRequest, Nat.le_trans within.held_le greater⟩
  · intro bound state input within
    refine ⟨within.hasRequest, ?_⟩
    have held_le := within.held_le
    simp only [held, reader, append, List.length_append] at held_le ⊢
    omega
  · intro bound state next within round
    have sound := activate_sound within.hasRequest
    have activated : state.activate = .inl next := round
    rw [activated] at sound
    exact ⟨sound.hasRequest, Nat.le_trans sound.held_le within.held_le⟩
  · rintro bound state result next within left ⟨verdict, rfl⟩
    have sound := activate_sound within.hasRequest
    have activated : state.activate = .inr (.ok verdict, next) := left
    rw [activated] at sound
    exact ⟨sound.hasRequest, Nat.le_trans sound.held_le within.held_le⟩

theorem throws_of_overfillsBody (overfills : parser.OverfillsBody)
    (notWraps : ¬ parser.Wraps) :
    ∃ next, parser.activate = .inr (.error .lengthError, next) := by
  obtain ⟨atChunk, position, found, request, present, nonzero, complete,
    tooLong⟩ := overfills
  have small := unwrapped_of_not_wraps atChunk notWraps found
  simp only [chunkLen] at nonzero complete tooLong small
  simp only [activate, atChunk, parseBodyWithChunk, found]
  rw [if_neg nonzero, Nat.mod_eq_of_lt small, if_neg (by omega), appendChunk]
  simp only [present]
  rw [if_pos (by omega)]
  exact ⟨_, rfl⟩

/-- With no more bytes than a string can hold, no chunk overfills the
body. -/
theorem not_overfills (within : parser.held ≤ maxSize) :
    ¬ parser.Overfills := by
  rintro (tooMuch | ⟨_, position, _, request, present, _, complete, tooLong⟩)
  · simp only [held] at within
    omega
  · simp only [held, present, Option.elim] at within
    omega

end Faults

section Runs

variable {reads : List Bytes}

private theorem returns_ok
    (clear : ∀ parser, reader.Activates {} reads parser →
      ¬ parser.Wraps ∧ ¬ parser.Overfills) {result : Verdict × HttpParser}
    (returns : reader.Returns {} reads result) :
    ∃ verdict, result.1 = .ok verdict := by
  obtain ⟨last, activates, leaves⟩ := Callable.returns_iff.mp returns
  obtain ⟨notWraps, notOverfills⟩ := clear last activates
  have sound := activate_sound (reader_holdsAtMost activates).hasRequest
  have activated : last.activate = .inr result := leaves
  rw [activated] at sound
  match result with
  | (.ok verdict, _) => exact ⟨verdict, rfl⟩
  | (.error fault, _) => exact absurd (.inr (sound notWraps)) notOverfills

private theorem clear_of_safe (safe : Safe reads) {parser : HttpParser}
    (activates : reader.Activates {} reads parser) :
    ¬ parser.Wraps ∧ ¬ parser.Overfills := by
  obtain ⟨inRange, returnsOk⟩ := safe
  have notWraps : ¬ parser.Wraps := by
    intro wraps
    obtain ⟨demand, member, outside⟩ := exists_demand_of_wraps wraps
    exact outside (inRange parser activates demand member)
  refine ⟨notWraps, ?_⟩
  rintro (tooMuch | overfills)
  · have fits := inRange parser activates _ List.mem_cons_self
    exact absurd tooMuch (Nat.not_lt.mpr fits)
  · obtain ⟨next, throws⟩ := throws_of_overfillsBody overfills notWraps
    obtain ⟨verdict, isOk⟩ := returnsOk _
      (Callable.returns_iff.mpr ⟨parser, activates, throws⟩)
    simp at isOk

theorem safe_iff_clear : Safe reads ↔
    ∀ parser, reader.Activates {} reads parser →
      ¬ parser.Wraps ∧ ¬ parser.Overfills := by
  constructor
  · intro safe parser activates
    exact clear_of_safe safe activates
  · intro clear
    refine ⟨?_, fun result returns => returns_ok clear returns⟩
    intro parser activates
    obtain ⟨notWraps, notOverfills⟩ := clear parser activates
    refine demands_inRange notWraps (Nat.le_of_not_lt ?_)
    intro tooMuch
    exact notOverfills (.inl tooMuch)

end Runs

end HttpParser

/-- Over all reads of a connection the counts are in range and nothing is
thrown exactly if no chunk announces a size from -4 to -1 and no string gets
too long.  The second cannot happen with as many bytes as a string can
hold. -/
theorem parse_safe_iff (reads : List Bytes) :
    (HttpParser.Safe reads ↔
      ∀ parser, HttpParser.reader.Activates {} reads parser →
        ¬ parser.Wraps ∧ ¬ parser.Overfills) ∧
    (reads.flatten.length ≤ maxSize →
      (HttpParser.Safe reads ↔
        ∀ parser, HttpParser.reader.Activates {} reads parser →
          ¬ parser.Wraps)) := by
  refine ⟨HttpParser.safe_iff_clear, ?_⟩
  intro fits
  rw [HttpParser.safe_iff_clear]
  constructor
  · intro clear parser activates
    exact (clear parser activates).1
  · intro unwrapped parser activates
    have within := HttpParser.reader_holdsAtMost activates
    exact ⟨unwrapped parser activates,
      HttpParser.not_overfills (Nat.le_trans within.held_le fits)⟩

namespace Example

/-- A chunked request with the size -1. -/
def minusOne : Bytes :=
  ascii "POST / HTTP/1.1\r\nTransfer-Encoding: chunked\r\n\r\n-1\r\n\r\n"

theorem minus_one_throws : ¬ HttpParser.Safe [minusOne] := by
  rintro ⟨_, returnsOk⟩
  have thrown : (HttpParser.parseData {} minusOne).1 =
      .error .lengthError := by decide
  have returns : HttpParser.reader.Returns {} [minusOne]
      (HttpParser.parseData {} minusOne) := .now
  obtain ⟨verdict, isOk⟩ := returnsOk _ returns
  rw [thrown] at isOk
  simp at isOk

end Example

end Natsu.Http
