import Natsu.Ggicci.Completeness

/-!
# The parser follows the reader

An action of the parser follows a reader when it stops where the reader stops.
Either both give a value, or the action throws `UnexpectedTokenException` with
the byte on which the reader fails, or the terminating NUL, and its position.
Every consumer of the parser follows the reader of its phrase.
-/

namespace Natsu.Ggicci

open Natsu.Foundation Natsu.Foundation.Reader

namespace Parser

variable {α γ δ ε : Type}

/-- The bytes in front of the parser and those that it has yet to read. -/
abbrev Place : Type := Bytes → Bytes → Parser → Prop

/-- The parser is about to read the first byte of the rest. -/
structure Standing (holds : Bytes → Prop) (before rest : Bytes)
    (parser : Parser) : Prop where
  source : parser.source = before ++ rest
  noNul : (0 : UInt8) ∉ parser.source
  pos : parser.pos = before.length - 1
  token : holds parser.token

/-- The parser has read the byte in front of the rest. -/
structure Taken (holds : Bytes → Prop) (character : UInt8)
    (before rest : Bytes) (parser : Parser) : Prop extends
    Standing holds before rest parser where
  current : parser.character = character

/-- The parser looks at the first byte of the rest, or at the NUL behind it. -/
structure Looking (holds : Bytes → Prop) (character : UInt8)
    (before rest : Bytes) (parser : Parser) : Prop where
  source : parser.source = before ++ rest
  noNul : (0 : UInt8) ∉ parser.source
  pos : parser.pos = before.length
  token : holds parser.token
  current : parser.character = character
  head : rest.headD 0 = character

/-- The parser has thrown the character that it looks at. -/
structure Stopped (before rest : Bytes) (parser : Parser) : Prop where
  pos : parser.pos = before.length
  current : parser.character = rest.headD 0

/-- On less input than the bound both give a value or both fail. -/
def Follows (bound : Nat) (start : Place) (act : Action α)
    (read : Reader UInt8 γ) (finish : α → γ → Place) : Prop :=
  ∀ before rest parser, rest.length < bound → start before rest parser →
    (∃ value taken left result after, read rest = (some value, left) ∧
      rest = taken ++ left ∧ act parser = (.ok result, after) ∧
      finish result value (before ++ taken) left after) ∨
    ∃ taken left after, read rest = (none, left) ∧ rest = taken ++ left ∧
      act parser =
        (.error (.unexpectedToken after.character after.pos), after) ∧
      Stopped (before ++ taken) left after

namespace Follows

variable {bound : Nat} {start : Place} {act : Action α}
  {read : Reader UInt8 γ} {finish : α → γ → Place}

theorem mono {larger : α → γ → Place} (follows : Follows bound start act read finish)
    (within : ∀ {result value before rest parser},
      finish result value before rest parser →
        larger result value before rest parser) :
    Follows bound start act read larger := by
  intro before rest parser short begins
  rcases follows before rest parser short begins with
    ⟨value, taken, left, result, after, isRead, split, isDone, ends⟩ | failed
  · exact .inl ⟨value, taken, left, result, after, isRead, split, isDone,
      within ends⟩
  · exact .inr failed

theorem weaken {smaller : Place} (follows : Follows bound start act read finish)
    (within : ∀ {before rest parser}, smaller before rest parser →
      start before rest parser) :
    Follows bound smaller act read finish := by
  intro before rest parser short begins
  exact follows before rest parser short (within begins)

theorem shorten {fewer : Nat} (follows : Follows bound start act read finish)
    (less : fewer ≤ bound) : Follows fewer start act read finish := by
  intro before rest parser short begins
  exact follows before rest parser (Nat.lt_of_lt_of_le short less) begins

/-- What the reader gives has a property that all its values have. -/
theorem known {property : γ → Prop} (follows : Follows bound start act read finish)
    (always : ∀ {input value rest}, read input = (some value, rest) →
      property value) :
    Follows bound start act read fun result value before rest parser =>
      finish result value before rest parser ∧ property value := by
  intro before rest parser short begins
  rcases follows before rest parser short begins with
    ⟨value, taken, left, result, after, isRead, split, isDone, ends⟩ | failed
  · exact .inl ⟨value, taken, left, result, after, isRead, split, isDone, ends,
      always isRead⟩
  · exact .inr failed

theorem pure (result : α) (value : γ)
    (ends : ∀ {before rest parser}, start before rest parser →
      finish result value before rest parser) :
    Follows bound start (Pure.pure result) (Pure.pure value) finish := by
  intro before rest parser short begins
  refine .inl ⟨value, [], rest, result, parser, rfl, rfl, rfl, ?_⟩
  rw [List.append_nil]
  exact ends begins

/-- The bytes in front of those that the action takes. -/
theorem behind {start : Place} (follows : Follows bound start act read finish)
    (front : Bytes) {before tail : Bytes} {parser : Parser}
    (begins : start (before ++ front) tail parser)
    (short : tail.length < bound) :
    (∃ value taken left result after, read tail = (some value, left) ∧
      front ++ tail = taken ++ left ∧ act parser = (.ok result, after) ∧
      finish result value (before ++ taken) left after) ∨
    ∃ taken left after, read tail = (none, left) ∧ front ++ tail = taken ++ left ∧
      act parser =
        (.error (.unexpectedToken after.character after.pos), after) ∧
      Stopped (before ++ taken) left after := by
  rcases follows _ tail parser short begins with
    ⟨value, taken, left, result, after, isRead, rfl, isDone, ends⟩ |
      ⟨taken, left, after, isRead, rfl, isThrown, stopped⟩
  · refine .inl ⟨value, front ++ taken, left, result, after, isRead,
      (List.append_assoc _ _ _).symm, isDone, ?_⟩
    rw [← List.append_assoc]
    exact ends
  · refine .inr ⟨front ++ taken, left, after, isRead,
      (List.append_assoc _ _ _).symm, isThrown, ?_⟩
    rw [← List.append_assoc]
    exact stopped

theorem bind {next : α → Action δ} {readNext : γ → Reader UInt8 ε}
    {final : δ → ε → Place} (follows : Follows bound start act read finish)
    (later : ∀ result value, Follows bound (finish result value) (next result)
      (readNext value) final) :
    Follows bound start (act >>= next) (read >>= readNext) final := by
  intro before rest parser short begins
  rcases follows before rest parser short begins with
    ⟨value, taken, left, result, after, isRead, rfl, isDone, ends⟩ |
      ⟨taken, left, after, isRead, split, isThrown, stopped⟩
  · have shorter : left.length < bound := by
      rw [List.length_append] at short
      omega
    rw [bind_done isRead, bind_ok isDone]
    exact (later result value).behind taken ends shorter
  · rw [bind_failed isRead, bind_error isThrown]
    exact .inr ⟨taken, left, after, rfl, split, rfl, stopped⟩

/-- An action that takes nothing, before the reader goes on. -/
theorem step {next : α → Action δ} {final : δ → γ → Place}
    (middle : α → Place)
    (acts : ∀ {before rest parser}, start before rest parser →
      ∃ result after, act parser = (.ok result, after) ∧
        middle result before rest after)
    (later : ∀ result, Follows bound (middle result) (next result) read final) :
    Follows bound start (act >>= next) read final := by
  intro before rest parser short begins
  obtain ⟨result, after, isDone, goes⟩ := acts begins
  rw [bind_ok isDone]
  exact later result before rest after short goes

end Follows

variable {holds : Bytes → Prop} {character : UInt8} {before rest : Bytes}
  {parser : Parser}

theorem byteAt_append (before rest : Bytes) :
    byteAt (before ++ rest) before.length = some (rest.headD 0) := by
  simp only [byteAt, List.append_assoc, Int.toNat_natCast]
  rw [List.getElem?_append_right (Nat.le_refl _), Nat.sub_self]
  cases rest with
  | nil => rfl
  | cons byte rest => rfl

theorem Standing.nextCharacter (standing : Standing holds before rest parser) :
    ∃ character after, Parser.nextCharacter parser = (.ok character, after) ∧
      Looking holds character before rest after := by
  have noEnd : ¬ (0 ≤ parser.pos ∧ byteAt parser.source parser.pos = some 0) := by
    rintro ⟨early, isNul⟩
    rw [standing.pos] at early isNul
    have inside : ((before.length : Int) - 1).toNat < before.length := by omega
    have isByte := isNul
    rw [standing.source, byteAt, List.append_assoc,
      List.getElem?_append_left inside] at isByte
    apply standing.noNul
    rw [standing.source]
    exact List.mem_append_left rest (List.mem_of_getElem? isByte)
  have next : parser.pos + 1 = before.length := by
    rw [standing.pos]
    omega
  have isByte : byteAt parser.source (parser.pos + 1) = some (rest.headD 0) := by
    rw [next, standing.source]
    exact byteAt_append before rest
  refine ⟨rest.headD 0, { parser with
    pos := parser.pos + 1, character := rest.headD 0 }, ?_, ?_⟩
  · simp only [Parser.nextCharacter]
    rw [if_neg noEnd, isByte]
  · exact ⟨standing.source, standing.noNul, next, standing.token, rfl, rfl⟩

theorem Looking.retract (looking : Looking holds character before rest parser) :
    ∃ after, Parser.retract parser = (.ok (), after) ∧
      Taken holds 32 before rest after := by
  refine ⟨_, rfl, ⟨looking.source, looking.noNul, ?_, looking.token⟩, rfl⟩
  simp only [looking.pos]

theorem Looking.stepBack (looking : Looking holds character before rest parser) :
    ∃ after, Parser.stepBack parser = (.ok (), after) ∧
      Standing holds before rest after := by
  refine ⟨_, rfl, looking.source, looking.noNul, ?_, looking.token⟩
  simp only [looking.pos]

/-- A byte that is not NUL is taken by going on behind it. -/
theorem Looking.taken (looking : Looking holds character before rest parser)
    (notNul : character ≠ 0) :
    ∃ tail, rest = character :: tail ∧
      Taken holds character (before ++ [character]) tail parser := by
  have isHead := looking.head
  cases rest with
  | nil => exact absurd isHead.symm notNul
  | cons byte tail =>
      obtain rfl : byte = character := isHead
      refine ⟨tail, rfl, ⟨?_, looking.noNul, ?_, looking.token⟩,
        looking.current⟩
      · rw [looking.source, List.append_assoc]
        rfl
      · rw [looking.pos, List.length_append]
        simp

theorem Looking.stopped (looking : Looking holds character before rest parser) :
    Stopped before rest parser :=
  ⟨looking.pos, by rw [looking.current, looking.head]⟩

namespace Follows

variable {bound : Nat} {act : Action α} {read : Reader UInt8 γ}
  {finish : α → γ → Place} {next : UInt8 → Action α} {fits : UInt8 → Bool}

theorem nextCharacter (later : ∀ character, Follows bound
      (Looking holds character) (next character) read finish) :
    Follows bound (Standing holds) (Parser.nextCharacter >>= next) read
      finish := by
  apply Follows.step (fun character => Looking holds character)
  · intro before rest parser standing
    exact standing.nextCharacter
  · exact later

theorem withCharacter (later : Follows bound (Looking holds character)
      (next character) read finish) :
    Follows bound (Looking holds character) (Parser.withCharacter next) read
      finish := by
  intro before rest parser short looking
  have same : Parser.withCharacter next parser = next character parser := by
    simp only [Parser.withCharacter]
    rw [looking.current]
  rw [same]
  exact later before rest parser short looking

theorem retract {next : Unit → Action α} (later : Follows bound (Taken holds 32)
      (next ()) read finish) :
    Follows bound (Looking holds character) (Parser.retract >>= next) read
      finish := by
  apply Follows.step fun _ => Taken holds 32
  · intro before rest parser looking
    exact ⟨(), looking.retract⟩
  · intro _
    exact later

theorem concat {next : Unit → Action α} {token : Bytes}
    (later : Follows bound (Taken (· = token ++ [character]) character)
      (next ()) read finish) :
    Follows bound (Taken (· = token) character) (Parser.concat >>= next) read
      finish := by
  apply Follows.step fun _ => Taken (· = token ++ [character]) character
  · intro before rest parser taken
    refine ⟨(), _, rfl, ⟨taken.source, taken.noNul, taken.pos, ?_⟩,
      taken.current⟩
    simp only [taken.token, taken.current]
  · intro _
    exact later

/-- The byte that the parser looks at is one that the reader expects.  What
follows has less input. -/
theorem expect_strict {readNext : UInt8 → Reader UInt8 γ}
    (notNul : character ≠ 0) (accepted : fits character = true)
    (later : Follows bound (Taken holds character) act (readNext character)
      finish) :
    Follows (bound + 1) (Looking holds character) act
      (Reader.expect fits >>= readNext) finish := by
  intro before rest parser short looking
  obtain ⟨tail, rfl, taken⟩ := looking.taken notNul
  rw [bind_done (expect_cons fits accepted tail)]
  exact later.behind [character] taken (Nat.lt_of_succ_lt_succ short)

theorem expect {readNext : UInt8 → Reader UInt8 γ} (notNul : character ≠ 0)
    (accepted : fits character = true)
    (later : Follows bound (Taken holds character) act (readNext character)
      finish) :
    Follows bound (Looking holds character) act
      (Reader.expect fits >>= readNext) finish :=
  (expect_strict notNul accepted later).shorten (Nat.le_succ bound)

theorem optional {readNext : Bytes → Reader UInt8 γ} (notNul : character ≠ 0)
    (accepted : fits character = true)
    (later : Follows bound (Taken holds character) act (readNext [character])
      finish) :
    Follows bound (Looking holds character) act
      (Reader.optional fits >>= readNext) finish := by
  intro before rest parser short looking
  obtain ⟨tail, rfl, taken⟩ := looking.taken notNul
  rw [bind_done (optional_cons fits accepted tail)]
  exact later.behind [character] taken (Nat.lt_of_succ_lt short)

theorem head_refused (isRefused : fits character = false) {rest : Bytes}
    (isHead : rest.headD 0 = character) : rest.head?.any fits = false := by
  cases rest with
  | nil => rfl
  | cons byte rest =>
      obtain rfl : byte = character := isHead
      exact isRefused

theorem absent {readNext : Bytes → Reader UInt8 γ}
    (isRefused : fits character = false)
    (later : Follows bound (Looking holds character) act (readNext []) finish) :
    Follows bound (Looking holds character) act
      (Reader.optional fits >>= readNext) finish := by
  intro before rest parser short looking
  rw [bind_done (optional_absent (head_refused isRefused looking.head))]
  exact later before rest parser short looking

theorem notRefused {readNext : Unit → Reader UInt8 γ}
    (isRefused : fits character = false)
    (later : Follows bound (Looking holds character) act (readNext ()) finish) :
    Follows bound (Looking holds character) act
      (Reader.refuse fits >>= readNext) finish := by
  intro before rest parser short looking
  rw [bind_done (refuse_absent (head_refused isRefused looking.head))]
  exact later before rest parser short looking

theorem thrown (isThrown : ∀ {rest : Bytes}, rest.headD 0 = character →
      read rest = (none, rest)) :
    Follows bound (Looking holds character) unexpectedToken read finish := by
  intro before rest parser short looking
  refine .inr ⟨[], rest, parser, isThrown looking.head, rfl, rfl, ?_⟩
  rw [List.append_nil]
  exact looking.stopped

/-- The parser throws where the reader expects another byte. -/
theorem unexpected {readNext : UInt8 → Reader UInt8 γ}
    (isRefused : fits character = false) :
    Follows bound (Looking holds character) unexpectedToken
      (Reader.expect fits >>= readNext) finish := by
  apply thrown
  intro rest isHead
  exact bind_failed (expect_failed (head_refused isRefused isHead))

end Follows

theorem repeatFor_again {σ : Type} {body : σ → Action (σ ⊕ α)} {rounds : Nat}
    {state next : σ} {parser after : Parser}
    (done : body state parser = (.ok (.inl next), after)) :
    repeatFor body (rounds + 1) state parser = repeatFor body rounds next after :=
  bind_ok done

theorem repeatFor_leave {σ : Type} {body : σ → Action (σ ⊕ α)} {rounds : Nat}
    {state : σ} {value : α} {parser after : Parser}
    (done : body state parser = (.ok (.inr value), after)) :
    repeatFor body (rounds + 1) state parser = (.ok value, after) :=
  bind_ok done

theorem repeatFor_error {σ : Type} {body : σ → Action (σ ⊕ α)} {rounds : Nat}
    {state : σ} {fault : Fault} {parser after : Parser}
    (thrown : body state parser = (.error fault, after)) :
    repeatFor body (rounds + 1) state parser = (.error fault, after) :=
  bind_error thrown

namespace Follows

variable {bound : Nat}

section

variable (holding : Bytes → Place) {fits : UInt8 → Bool}
  {body : Unit → Action (Unit ⊕ Unit)} {finish : Unit → Bytes → Place}

theorem span_rounds
    (accepts : ∀ {taken before rest parser} {byte : UInt8}, fits byte = true →
      holding taken before (byte :: rest) parser →
      ∃ after, body () parser = (.ok (.inl ()), after) ∧
        holding (taken ++ [byte]) (before ++ [byte]) rest after)
    (stops : ∀ {taken before rest parser}, rest.head?.any fits = false →
      holding taken before rest parser →
      ∃ after, body () parser = (.ok (.inr ()), after) ∧
        finish () taken before rest after)
    (rest : Bytes) :
    ∀ {rounds : Nat} {taken before : Bytes} {parser : Parser},
      rest.length < rounds → holding taken before rest parser →
      ∃ word left after, Reader.span fits rest = (some word, left) ∧
        rest = word ++ left ∧
        repeatFor body rounds () parser = (.ok (), after) ∧
        finish () (taken ++ word) (before ++ word) left after := by
  induction rest with
  | nil =>
      intro rounds taken before parser enough holds
      obtain ⟨rounds, rfl⟩ : ∃ fewer, rounds = fewer + 1 :=
        ⟨rounds - 1, by omega⟩
      obtain ⟨after, isDone, ends⟩ := stops rfl holds
      refine ⟨[], [], after, rfl, rfl, repeatFor_leave isDone, ?_⟩
      rw [List.append_nil, List.append_nil]
      exact ends
  | cons byte rest induction =>
      intro rounds taken before parser enough holds
      obtain ⟨rounds, rfl⟩ : ∃ fewer, rounds = fewer + 1 :=
        ⟨rounds - 1, by omega⟩
      by_cases accepted : fits byte = true
      · obtain ⟨after, isDone, holds⟩ := accepts accepted holds
        rw [repeatFor_again isDone]
        obtain ⟨word, left, last, isRead, rfl, isLast, ends⟩ :=
          induction (Nat.lt_of_succ_lt_succ enough) holds
        obtain ⟨sameWord, sameLeft⟩ := Prod.mk.inj isRead
        refine ⟨byte :: word, left, last, ?_, rfl, isLast, ?_⟩
        · simp only [Reader.span]
          rw [List.takeWhile_cons_of_pos accepted,
            List.dropWhile_cons_of_pos accepted, Option.some.inj sameWord,
            sameLeft]
        · rw [List.append_cons, List.append_cons before]
          exact ends
      · have refused : (byte :: rest).head?.any fits = false :=
          Bool.eq_false_iff.mpr accepted
        obtain ⟨after, isDone, ends⟩ := stops refused holds
        refine ⟨[], byte :: rest, after, ?_, rfl, repeatFor_leave isDone, ?_⟩
        · simp only [Reader.span]
          rw [List.takeWhile_cons_of_neg accepted,
            List.dropWhile_cons_of_neg accepted]
        · rw [List.append_nil, List.append_nil]
          exact ends

/-- A loop that goes round while the next byte fits.  `holding` relates the
bytes taken so far and the place. -/
theorem span
    (inside : ∀ {taken before rest parser}, holding taken before rest parser →
      parser.source = before ++ rest)
    (accepts : ∀ {taken before rest parser} {byte : UInt8}, fits byte = true →
      holding taken before (byte :: rest) parser →
      ∃ after, body () parser = (.ok (.inl ()), after) ∧
        holding (taken ++ [byte]) (before ++ [byte]) rest after)
    (stops : ∀ {taken before rest parser}, rest.head?.any fits = false →
      holding taken before rest parser →
      ∃ after, body () parser = (.ok (.inr ()), after) ∧
        finish () taken before rest after) :
    Follows bound (holding []) (whileTrue body ()) (Reader.span fits)
      finish := by
  intro before rest parser _ holds
  have enough : rest.length < parser.source.length + 2 := by
    rw [inside holds, List.length_append]
    omega
  obtain ⟨word, left, after, isRead, split, isDone, ends⟩ :=
    span_rounds holding accepts stops rest enough holds
  exact .inl ⟨word, word, left, (), after, isRead, split, isDone, ends⟩

end

section

variable {σ τ : Type} {start : σ → τ → Place} {finish : α → γ → Place}
  {body : σ → Action (σ ⊕ α)} {readBody : τ → Reader UInt8 (τ ⊕ γ)}

/-- Both rounds go on, or both leave the loop. -/
def Round (start : σ → τ → Place) (finish : α → γ → Place) :
    σ ⊕ α → τ ⊕ γ → Place
  | .inl next, .inl readNext => start next readNext
  | .inr result, .inr value => finish result value
  | _, _ => fun _ _ _ => False

theorem repeatFor (advances : Advances readBody)
    (round : ∀ state readState, Follows bound (start state readState)
      (body state) (readBody readState) (Round start finish)) (rounds : Nat) :
    ∀ (fewer : Nat) (state : σ) (readState : τ), fewer ≤ rounds →
      fewer ≤ bound →
      Follows fewer (start state readState) (repeatFor body rounds state)
        (forever readBody readState) finish := by
  induction rounds with
  | zero =>
      intro fewer state readState few _ before rest parser short
      omega
  | succ rounds induction =>
      intro fewer state readState few within before rest parser short begins
      rcases round state readState before rest parser
          (Nat.lt_of_lt_of_le short within) begins with
        ⟨value, taken, left, result, after, isRead, rfl, isDone, ends⟩ |
          ⟨taken, left, after, isRead, split, isThrown, stopped⟩
      · cases result with
        | inl next =>
            cases value with
            | inl readNext =>
                have shorter := advances isRead
                rw [advances.forever_next isRead, repeatFor_again isDone]
                have again := induction (left.length + 1) next readNext
                  (by omega) (by omega)
                exact again.behind taken ends (Nat.lt_succ_self _)
            | inr value => exact ends.elim
        | inr result =>
            cases value with
            | inl readNext => exact ends.elim
            | inr value =>
                rw [forever_leave isRead, repeatFor_leave isDone]
                exact .inl ⟨value, taken, left, result, after, rfl, rfl, rfl,
                  ends⟩
      · rw [forever_failed isRead, repeatFor_error isThrown]
        exact .inr ⟨taken, left, after, rfl, split, rfl, stopped⟩

theorem whileTrue (advances : Advances readBody)
    (inside : ∀ {state readState before rest parser},
      start state readState before rest parser →
        parser.source = before ++ rest)
    (round : ∀ state readState, Follows bound (start state readState)
      (body state) (readBody readState) (Round start finish))
    (state : σ) (readState : τ) :
    Follows bound (start state readState) (whileTrue body state)
      (forever readBody readState) finish := by
  intro before rest parser short begins
  have enough : rest.length + 1 ≤ parser.source.length + 2 := by
    rw [inside begins, List.length_append]
    omega
  have loop := repeatFor advances round _ _ state readState enough short
  exact loop before rest parser (Nat.lt_succ_self _) begins

end

end Follows

end Parser

end Natsu.Ggicci
