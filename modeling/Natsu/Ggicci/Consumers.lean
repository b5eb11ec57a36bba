import Natsu.Ggicci.Simulation

/-!
# What the parser accepts

The consumers of the parser follow the readers of their phrases.  With what the
reader does, parsing gives a value exactly when the text denotes it, and a
syntax error names the first byte behind which no text is left to complete.
-/

namespace Natsu.Ggicci

open Natsu.Foundation Natsu.Foundation.Reader

namespace Parser

variable {α γ : Type}

theorem ne_nul {fits : UInt8 → Bool} {byte : UInt8} (accepted : fits byte = true)
    (refuses : fits 0 = false) : byte ≠ 0 := by
  intro isNul
  rw [isNul, refuses] at accepted
  cases accepted

namespace Follows

variable {bound : Nat} {start : Place} {act : Action α}
  {read : Reader UInt8 γ} {finish : α → γ → Place} {holds : Bytes → Prop}
  {character : UInt8}

theorem anyCharacter {place : UInt8 → Place}
    (follows : ∀ character, Follows bound (place character) act read finish) :
    Follows bound (fun before rest parser =>
      ∃ character, place character before rest parser) act read finish := by
  intro before rest parser short begins
  obtain ⟨character, begins⟩ := begins
  exact follows character before rest parser short begins

theorem learn {fact : Prop}
    (learns : ∀ {before rest parser}, start before rest parser → fact)
    (follows : fact → Follows bound start act read finish) :
    Follows bound start act read finish := by
  intro before rest parser short begins
  exact follows (learns begins) before rest parser short begins

theorem given {fact : Prop} (follows : fact → Follows bound start act read finish) :
    Follows bound (fun before rest parser => fact ∧ start before rest parser) act
      read finish := by
  intro before rest parser short begins
  exact follows begins.1 before rest parser short begins.2

theorem readPure {δ : Type} {value : γ → δ} {final : α → δ → Place}
    (follows : Follows bound start act read finish)
    (within : ∀ {result first before rest parser},
      finish result first before rest parser →
        final result (value first) before rest parser) :
    Follows bound start act (read >>= fun first => Pure.pure (value first))
      final := by
  rw [← bind_pure act]
  apply follows.bind
  intro result first
  apply Follows.pure
  exact within

theorem readAssoc {δ ε : Type} {second : γ → Reader UInt8 δ}
    {last : δ → Reader UInt8 ε} {finish : α → ε → Place}
    (follows : Follows bound start act (read >>= second >>= last) finish) :
    Follows bound start act (read >>= fun value => second value >>= last)
      finish := by
  rwa [bind_assoc] at follows

/-- The loops that read on while a byte fits, and then leave it. -/
theorem scan {fits : UInt8 → Bool} {finish : Unit → Bytes → Place}
    (collect leave : Action Unit) (holds : Bytes → Bytes → Prop)
    (refuses : fits 0 = false)
    (collects : ∀ {taken before rest parser} {byte : UInt8},
      Taken (holds taken) byte before rest parser →
      ∃ after, collect parser = (.ok (), after) ∧
        Standing (holds (taken ++ [byte])) before rest after)
    (leaves : ∀ {taken before rest parser} {character : UInt8},
      Looking (holds taken) character before rest parser →
      ∃ after, leave parser = (.ok (), after) ∧
        finish () taken before rest after) :
    Follows bound (Standing (holds []))
      (Parser.whileTrue (fun _ => do
        let character ← Parser.nextCharacter
        if fits character then do
          collect
          Pure.pure (.inl ())
        else do
          leave
          Pure.pure (.inr ())) ()) (Reader.span fits) finish := by
  apply Follows.span fun taken => Standing (holds taken)
  · intro taken before rest parser standing
    exact standing.source
  · intro taken before rest parser byte accepted standing
    obtain ⟨character, after, isNext, looking⟩ := standing.nextCharacter
    obtain rfl : byte = character := looking.head
    obtain ⟨tail, split, isTaken⟩ := looking.taken (ne_nul accepted refuses)
    obtain rfl : rest = tail := (List.cons.inj split).2
    obtain ⟨last, isCollected, standing⟩ := collects isTaken
    refine ⟨last, ?_, standing⟩
    rw [bind_ok isNext, if_pos accepted, bind_ok isCollected]
    rfl
  · intro taken before rest parser refused standing
    obtain ⟨character, after, isNext, looking⟩ := standing.nextCharacter
    obtain ⟨last, isLeft, ends⟩ := leaves looking
    have isOther : fits character = false := by
      rw [← looking.head]
      cases rest with
      | nil => exact refuses
      | cons byte rest => exact refused
    refine ⟨last, ?_, ends⟩
    rw [bind_ok isNext, if_neg (Bool.eq_false_iff.mp isOther), bind_ok isLeft]
    rfl

theorem skipWhitespaces (holds : Bytes → Prop) :
    Follows bound (Standing holds) Parser.skipWhitespaces Read.blanks
      fun _ _ => Standing holds := by
  apply scan (Pure.pure ()) Parser.stepBack fun _ => holds
  · rfl
  · intro taken before rest parser byte isTaken
    exact ⟨parser, rfl, isTaken.toStanding⟩
  · intro taken before rest parser character looking
    exact looking.stepBack

/-- `Concat` puts the byte that was taken behind the token. -/
theorem concats {token before rest : Bytes} {parser : Parser}
    (isTaken : Taken (· = token) character before rest parser) :
    ∃ after, Parser.concat parser = (.ok (), after) ∧
      Taken (· = token ++ [character]) character before rest after := by
  refine ⟨_, rfl, ⟨isTaken.source, isTaken.noNul, isTaken.pos, ?_⟩,
    isTaken.current⟩
  simp only [isTaken.token, isTaken.current]

theorem concatDigits (token : Bytes) :
    Follows bound (Standing (· = token)) Parser.concatDigits
      (Reader.span isdigit) fun _ word => Taken (· = token ++ word) 32 := by
  have begins : Standing (· = token) = Standing (· = token ++ []) := by
    rw [List.append_nil]
  rw [begins]
  apply scan Parser.concat Parser.retract
    fun taken value => value = token ++ taken
  · rfl
  · intro taken before rest parser byte isTaken
    obtain ⟨after, isDone, last⟩ := concats isTaken
    refine ⟨after, isDone, ?_⟩
    rw [← List.append_assoc]
    exact last.toStanding
  · intro taken before rest parser character looking
    exact looking.retract

theorem concatDecimals (token : Bytes) :
    Follows bound (Standing (· = token)) Parser.concatDecimals
      (Reader.span isdigit) fun _ word before rest parser =>
        ∃ character, Looking (· = token ++ word) character before rest
          parser := by
  have begins : Standing (· = token) = Standing (· = token ++ []) := by
    rw [List.append_nil]
  rw [begins]
  apply scan Parser.concat (Pure.pure ())
    fun taken value => value = token ++ taken
  · rfl
  · intro taken before rest parser byte isTaken
    obtain ⟨after, isDone, last⟩ := concats isTaken
    refine ⟨after, isDone, ?_⟩
    rw [← List.append_assoc]
    exact last.toStanding
  · intro taken before rest parser character looking
    exact ⟨parser, rfl, character, looking⟩

theorem consumeSign :
    Follows bound (Standing (· = [])) Parser.consumeSign
      (Reader.optional (· == 45)) fun _ sign before rest parser =>
        ∃ character, Looking (· = sign) character before rest parser := by
  rw [← bind_pure (Reader.optional _)]
  apply Follows.nextCharacter
  intro character
  by_cases minus : character = 45
  · rw [if_pos minus]
    subst minus
    apply Follows.optional
    · decide
    · rfl
    · apply Follows.concat
      apply Follows.weaken _ Taken.toStanding
      apply Follows.nextCharacter
      intro character
      apply Follows.pure
      intro before rest parser looking
      exact ⟨character, looking⟩
  · rw [if_neg minus]
    apply Follows.absent
    · exact beq_eq_false_iff_ne.mpr minus
    apply Follows.pure
    intro before rest parser looking
    exact ⟨character, looking⟩

theorem concatDigit (token : Bytes) :
    Follows bound (Looking (· = token) character) Parser.concatDigit
      (Reader.expect isdigit) fun _ digit before rest parser =>
        digit = character ∧
          Taken (· = token ++ [character]) character before rest parser := by
  rw [← bind_pure (Reader.expect _)]
  apply Follows.withCharacter
  by_cases accepted : isdigit character = true
  · rw [if_pos accepted]
    apply Follows.expect (ne_nul accepted rfl) accepted
    rw [← bind_pure Parser.concat]
    apply Follows.concat
    apply Follows.pure
    intro before rest parser isTaken
    exact ⟨rfl, isTaken⟩
  · rw [if_neg accepted]
    exact Follows.unexpected (Bool.eq_false_iff.mpr accepted)

theorem consumeInteger (token : Bytes) :
    Follows bound (fun before rest parser =>
      ∃ character, Looking (· = token) character before rest parser)
      Parser.consumeInteger Read.integer fun _ whole =>
        Standing (· = token ++ whole) := by
  apply Follows.anyCharacter
  intro character
  apply Follows.withCharacter
  apply (concatDigit token).bind
  intro _ digit
  apply Follows.given
  rintro rfl
  by_cases isZero : digit = 48
  · rw [if_pos isZero, if_pos isZero, isZero]
    apply Follows.pure
    intro before rest parser isTaken
    exact isTaken.toStanding
  · rw [if_neg isZero, if_neg isZero]
    apply Follows.weaken _ Taken.toStanding
    apply (concatDigits _).readPure
    intro _ word before rest parser isTaken
    rw [List.append_cons]
    exact isTaken.toStanding

/-- A digit and those behind it, however their loop ends. -/
theorem digits {loop : Action Unit} (final : Bytes → Place)
    (token front : Bytes)
    (follows : ∀ token, Follows bound (Standing (· = token)) loop
      (Reader.span isdigit) fun _ word => final (token ++ word)) :
    Follows bound (Standing (· = token ++ front))
      (Parser.nextCharacter >>= fun _ => Parser.concatDigit >>= fun _ => loop)
      (Read.digits front) fun _ value => final (token ++ value) := by
  apply Follows.nextCharacter
  intro character
  apply (concatDigit _).bind
  intro _ digit
  apply Follows.given
  rintro rfl
  apply Follows.weaken _ Taken.toStanding
  apply (follows _).readPure
  intro _ word before rest parser ends
  simpa using ends

theorem consumeFraction (token : Bytes) :
    Follows bound (Standing (· = token)) Parser.consumeFraction
      (Reader.refuse isdigit >>= fun _ => Read.fraction)
      fun _ fraction before rest parser =>
        ∃ character, Looking (· = token ++ fraction) character before rest
          parser := by
  apply Follows.nextCharacter
  intro character
  by_cases isDigit : isdigit character = true
  · rw [if_pos isDigit]
    apply Follows.thrown
    intro rest isHead
    apply bind_failed
    simp only [Reader.refuse]
    rw [if_pos]
    cases rest with
    | nil =>
        rw [← isHead] at isDigit
        cases isDigit
    | cons byte rest =>
        obtain rfl : byte = character := isHead
        exact isDigit
  · rw [if_neg isDigit]
    apply Follows.notRefused (Bool.eq_false_iff.mpr isDigit)
    by_cases isDot : character = 46
    · rw [if_pos isDot]
      subst isDot
      apply Follows.optional
      · decide
      · rfl
      · apply Follows.concat
        apply Follows.weaken _ Taken.toStanding
        exact digits (fun value before rest parser => ∃ character,
          Looking (· = value) character before rest parser) token [46]
            concatDecimals
    · rw [if_neg isDot]
      apply Follows.absent
      · exact beq_eq_false_iff_ne.mpr isDot
      apply Follows.pure
      intro before rest parser looking
      rw [List.append_nil]
      exact ⟨character, looking⟩

theorem unexpectedToken_bind {next : α → Action γ} :
    (unexpectedToken >>= next) = unexpectedToken := rfl

theorem consumeExponent (token : Bytes) :
    Follows bound (fun before rest parser =>
      ∃ character, Looking (· = token) character before rest parser)
      Parser.consumeExponent Read.exponent fun _ exponent =>
        Taken (· = token ++ exponent) 32 := by
  apply Follows.anyCharacter
  intro character
  apply Follows.withCharacter
  by_cases isMark : character = 101 ∨ character = 69
  · rw [if_pos isMark]
    have marked : (character == 101 || character == 69) = true := by
      simpa using isMark
    have notNul : character ≠ 0 := by
      rcases isMark with rfl | rfl <;> decide
    apply Follows.optional notNul marked
    rw [if_neg (List.cons_ne_nil _ _)]
    apply Follows.concat
    apply Follows.weaken _ Taken.toStanding
    simp only [Parser.consumeExponentSign, bind_assoc]
    apply Follows.nextCharacter
    intro sign
    by_cases isSign : sign = 43 ∨ sign = 45
    · rw [if_pos isSign]
      have signed : (sign == 43 || sign == 45) = true := by
        simpa using isSign
      have signNotNul : sign ≠ 0 := by
        rcases isSign with rfl | rfl <;> decide
      apply Follows.optional signNotNul signed
      apply Follows.concat
      apply Follows.weaken _ Taken.toStanding
      rw [List.append_assoc]
      exact digits (fun value => Taken (· = value) 32) token _ concatDigits
    · rw [if_neg isSign]
      have unsigned : (sign == 43 || sign == 45) = false := by
        simpa using isSign
      apply Follows.absent unsigned
      by_cases isDigit : isdigit sign = true
      · rw [if_pos isDigit]
        apply Follows.retract
        apply Follows.weaken _ Taken.toStanding
        exact digits (fun value => Taken (· = value) 32) token [character]
          concatDigits
      · rw [if_neg isDigit, unexpectedToken_bind]
        exact Follows.unexpected (Bool.eq_false_iff.mpr isDigit)
  · rw [if_neg isMark]
    have unmarked : (character == 101 || character == 69) = false := by
      simpa using isMark
    apply Follows.absent unmarked
    rw [← bind_pure Parser.retract]
    apply Follows.retract
    apply Follows.pure
    intro before rest parser isTaken
    rw [List.append_nil]
    exact isTaken

theorem clearToken {next : Unit → Action α}
    (later : Follows bound (Standing (· = [])) (next ()) read finish) :
    Follows bound (Standing holds) (Parser.clearToken >>= next) read finish := by
  apply Follows.step fun _ => Standing (· = [])
  · intro before rest parser standing
    exact ⟨(), _, rfl, standing.source, standing.noNul, standing.pos, rfl⟩
  · intro _
    exact later

theorem concatHex (remaining : Nat) : ∀ token : Bytes,
    Follows bound (Standing (· = token)) (Parser.concatHex remaining)
      (Read.hex remaining) fun _ word => Standing (· = token ++ word) := by
  induction remaining with
  | zero =>
      intro token
      apply Follows.pure
      intro before rest parser standing
      rw [List.append_nil]
      exact standing
  | succ remaining induction =>
      intro token
      apply Follows.nextCharacter
      intro character
      by_cases accepted : isxdigit character = true
      · rw [if_pos accepted]
        apply Follows.expect (ne_nul accepted rfl) accepted
        apply Follows.concat
        apply Follows.weaken _ Taken.toStanding
        apply (induction _).readPure
        intro _ word before rest parser standing
        rw [List.append_cons]
        exact standing
      · rw [if_neg accepted]
        exact Follows.unexpected (Bool.eq_false_iff.mpr accepted)

/-- The backslash has been taken. -/
theorem consumeEscape (token : Bytes) :
    Follows bound (Taken (· = token) 92) Parser.consumeEscape Read.escape
      fun _ value => Standing (· = token ++ value) := by
  apply Follows.concat
  apply Follows.weaken _ Taken.toStanding
  apply Follows.nextCharacter
  intro character
  by_cases escaped : isEscape character = true
  · rw [if_pos escaped]
    have accepted : (isEscape character || character == 117) = true := by
      rw [escaped]
      rfl
    apply Follows.expect (ne_nul escaped rfl) accepted
    rw [if_pos escaped, ← bind_pure Parser.concat]
    apply Follows.concat
    apply Follows.pure
    intro before rest parser isTaken
    rw [List.append_cons]
    exact isTaken.toStanding
  · rw [if_neg escaped]
    by_cases isUnicode : character = 117
    · rw [if_pos isUnicode]
      subst isUnicode
      apply Follows.expect
      · decide
      · rfl
      rw [if_neg escaped]
      apply Follows.concat
      apply Follows.weaken _ Taken.toStanding
      apply (concatHex 4 _).readPure
      intro _ word before rest parser standing
      rw [List.append_cons, List.append_cons _ 117]
      exact standing
    · rw [if_neg isUnicode]
      apply Follows.unexpected
      rw [Bool.or_eq_false_iff, beq_eq_false_iff_ne]
      exact ⟨Bool.eq_false_iff.mpr escaped, isUnicode⟩

theorem withCharacter_bind {next : UInt8 → Action α} {last : α → Action γ} :
    (Parser.withCharacter next >>= last) =
      Parser.withCharacter fun character => next character >>= last := rfl

/-- One round of the loop over the characters of a string. -/
theorem textRound (text : Bytes) :
    Follows bound (Standing (· = text))
      (Parser.nextCharacter >>= fun character =>
        if character = 34 then Pure.pure (.inr ())
        else Parser.consumeCharacter >>= fun _ => Pure.pure (.inl ()))
      (Read.character text)
      (Round (fun (_ : Unit) token => Standing (· = token))
        fun (_ : Unit) token => Taken (· = token) 34) := by
  apply Follows.nextCharacter
  intro character
  by_cases closes : character = 34
  · rw [if_pos closes]
    subst closes
    apply Follows.expect
    · decide
    · rfl
    rw [if_pos rfl]
    apply Follows.pure
    intro before rest parser isTaken
    exact isTaken
  · rw [if_neg closes, Parser.consumeCharacter, withCharacter_bind]
    apply Follows.withCharacter
    by_cases escapes : character = 92
    · rw [if_pos escapes]
      subst escapes
      apply Follows.expect
      · decide
      · rfl
      rw [if_neg closes, if_pos rfl]
      apply (consumeEscape text).bind
      intro _ escaped
      apply Follows.pure
      intro before rest parser standing
      exact standing
    · rw [if_neg escapes]
      by_cases isControl : iscntrl character = true
      · rw [if_pos isControl, unexpectedToken_bind]
        apply Follows.unexpected
        rw [isControl]
        rfl
      · rw [if_neg isControl]
        have isPlain := Bool.eq_false_iff.mpr isControl
        have accepted : (!iscntrl character) = true := by
          rw [isPlain]
          rfl
        apply Follows.expect (ne_nul_of_not_iscntrl isPlain) accepted
        rw [if_neg closes, if_neg escapes]
        apply Follows.concat
        apply Follows.pure
        intro before rest parser isTaken
        exact isTaken.toStanding

theorem consumeText :
    Follows bound (Standing (· = [])) Parser.consumeText
      (forever Read.character []) fun _ text => Taken (· = text) 34 := by
  apply Follows.whileTrue Read.character_round.2 _
    fun (_ : Unit) text => textRound text
  intro state text before rest parser standing
  exact standing.source

end Follows

/-- A value has ended: the parser did not look at the NUL. -/
structure Closed (before rest : Bytes) (parser : Parser) : Prop extends
    Standing (fun _ => True) before rest parser where
  noEnd : parser.character ≠ 0

theorem Taken.closed {holds : Bytes → Prop} {character : UInt8}
    {before rest : Bytes} {parser : Parser}
    (isTaken : Taken holds character before rest parser)
    (notNul : character ≠ 0) : Closed before rest parser :=
  ⟨⟨isTaken.source, isTaken.noNul, isTaken.pos, trivial⟩,
    by rw [isTaken.current]; exact notNul⟩

theorem Standing.free {holds : Bytes → Prop} {before rest : Bytes}
    {parser : Parser} (standing : Standing holds before rest parser) :
    Standing (fun _ => True) before rest parser :=
  ⟨standing.source, standing.noNul, standing.pos, trivial⟩

namespace Follows

variable {bound : Nat}

theorem consumeString :
    Follows bound (Standing fun _ => True) Parser.consumeString Read.string
      fun token text before rest parser =>
        token = text ∧ Closed before rest parser := by
  apply (skipWhitespaces _).bind
  intro _ _
  apply Follows.nextCharacter
  intro character
  by_cases opens : character = 34
  · rw [if_pos opens]
    subst opens
    apply Follows.expect
    · decide
    · rfl
    apply Follows.weaken _ Taken.toStanding
    apply clearToken
    rw [← bind_pure (forever _ _)]
    apply consumeText.bind
    intro _ text before rest parser short isTaken
    refine .inl ⟨text, [], rest, parser.token, parser, rfl, rfl, rfl,
      isTaken.token, ?_⟩
    rw [List.append_nil]
    exact isTaken.closed (by decide)
  · rw [if_neg opens]
    exact Follows.unexpected (beq_eq_false_iff_ne.mpr opens)

/-- After a text that is not empty the parser has not looked at the NUL. -/
theorem consumeSpecific (text : Bytes) (noNul : (0 : UInt8) ∉ text) :
    Follows bound (fun before rest parser =>
      Standing (fun _ => True) before rest parser ∧
        (text = [] → parser.character ≠ 0))
      (Parser.consumeSpecific text) (Read.specific text)
      fun _ _ => Closed := by
  induction text with
  | nil =>
      apply Follows.pure
      intro before rest parser begins
      exact ⟨begins.1, begins.2 rfl⟩
  | cons expected text induction =>
      rw [List.mem_cons, not_or] at noNul
      obtain ⟨notNul, others⟩ := noNul
      apply Follows.weaken _ And.left
      apply Follows.nextCharacter
      intro character
      by_cases same : character = expected
      · rw [if_pos same]
        subst same
        apply Follows.expect (Ne.symm notNul)
        · exact beq_self_eq_true character
        apply (induction others).weaken
        intro before rest parser isTaken
        refine ⟨isTaken.toStanding, fun _ => ?_⟩
        exact (isTaken.closed (Ne.symm notNul)).noEnd
      · rw [if_neg same]
        exact Follows.unexpected (beq_eq_false_iff_ne.mpr same)

section

variable {Double : Type} {atof : Bytes → Double}

theorem consumeNumber :
    Follows bound (Standing fun _ => True) (Parser.consumeNumber atof)
      (Read.number >>= fun text => Pure.pure (.number (atof text)))
      fun result value before rest parser =>
        result = value ∧ Closed before rest parser := by
  apply clearToken
  simp only [Read.number, bind_assoc, pure_bind]
  apply consumeSign.bind
  intro _ sign
  apply (consumeInteger sign).bind
  intro _ whole
  apply readAssoc
  apply (consumeFraction _).bind
  intro _ fraction
  apply (consumeExponent _).bind
  intro _ exponent before rest parser short isTaken
  refine .inl ⟨_, [], rest, _, parser, rfl, rfl, rfl, ?_, ?_⟩
  · simp only [isTaken.token]
  · rw [List.append_nil]
    exact isTaken.closed (by decide)

variable {value : Action (Json Double)} {readValue : Reader UInt8 (Json Double)}

/-- The places in front of and behind a value that is nested in another. -/
abbrev FollowsValue (bound : Nat) (value : Action α) (readValue : Reader UInt8 α) :
    Prop :=
  Follows bound (Standing fun _ => True) value readValue
    fun result json before rest parser =>
      result = json ∧ Standing (fun _ => True) before rest parser

/-- The key has no NUL, and so it is the token. -/
theorem consumePair (follows : FollowsValue bound value readValue) :
    FollowsValue bound (Parser.consumePair value) (Read.pair readValue) := by
  have noNul : ∀ {input key rest}, Read.string input = (some key, rest) →
      (0 : UInt8) ∉ key := by
    intro input key rest isRead
    obtain ⟨_, _, _, _, isText⟩ := Read.string_reads.done isRead
    exact isText.2.noNul
  have colon : (0 : UInt8) ∉ ascii ":" := by decide
  have notEmpty : ascii ":" ≠ [] := by decide
  apply (consumeString.known noNul).bind
  intro token key
  apply Follows.learn fun begins => And.intro begins.1.1 begins.2
  rintro ⟨rfl, clean⟩
  apply Follows.weaken _ fun begins => begins.1.2.toStanding
  apply (skipWhitespaces _).bind
  intro _ _
  apply ((consumeSpecific (ascii ":") colon).weaken _).bind
  · intro _ _
    apply Follows.weaken _ Closed.toStanding
    apply follows.bind
    intro result json
    apply Follows.pure
    intro before rest parser ends
    rw [ends.1, cstr_eq_self clean]
    exact ⟨rfl, ends.2⟩
  · intro before rest parser standing
    exact ⟨standing, fun isEmpty => absurd isEmpty notEmpty⟩

theorem insertPair (follows : FollowsValue bound value readValue)
    (members : List (Bytes × Json Double)) :
    Follows bound (Standing fun _ => True) (Parser.insertPair value members)
      (Read.pair readValue) fun result pair before rest parser =>
        result = insertMember pair.1 pair.2 members ∧
          Standing (fun _ => True) before rest parser := by
  intro before rest parser short standing
  rcases consumePair follows before rest parser short standing with
    ⟨pair, taken, left, result, after, isRead, split, isDone, same, ends⟩ |
      ⟨taken, left, after, isRead, split, isThrown, stopped⟩
  · refine .inl ⟨pair, taken, left, _, after, isRead, split, ?_, rfl, ends⟩
    simp only [Parser.insertPair]
    rw [isDone, same]
  · refine .inr ⟨taken, left, after, isRead, split, ?_, stopped⟩
    simp only [Parser.insertPair]
    rw [isThrown]
    rfl

theorem pushItem (follows : FollowsValue bound value readValue)
    (items : List (Json Double)) :
    Follows bound (Standing fun _ => True) (Parser.pushItem value items)
      readValue fun result json before rest parser =>
        result = items ++ [json] ∧
          Standing (fun _ => True) before rest parser := by
  intro before rest parser short standing
  rcases follows before rest parser short standing with
    ⟨json, taken, left, result, after, isRead, split, isDone, same, ends⟩ |
      ⟨taken, left, after, isRead, split, isThrown, stopped⟩
  · refine .inl ⟨json, taken, left, _, after, isRead, split, ?_, rfl, ends⟩
    simp only [Parser.pushItem]
    rw [isDone, same]
  · refine .inr ⟨taken, left, after, isRead, split, ?_, stopped⟩
    simp only [Parser.pushItem]
    rw [isThrown]
    rfl

/-- Both loops hold the same, and the parser stands behind it. -/
abbrev Same (state readState : α) (before rest : Bytes) (parser : Parser) :
    Prop :=
  state = readState ∧ Standing (fun _ => True) before rest parser

theorem objectRound (follows : FollowsValue bound value readValue)
    (members readMembers : List (Bytes × Json Double)) :
    Follows bound (Same members readMembers)
      (Parser.nextCharacter >>= fun character =>
        if character = 125 then Pure.pure (.inr members)
        else if character = 44 then
          Parser.insertPair value members >>= fun members =>
            Pure.pure (.inl members)
        else unexpectedToken)
      (Read.nextPair readValue readMembers)
      (Round Same fun result members before rest parser =>
        result = members ∧ Taken (fun _ => True) 125 before rest parser) := by
  apply Follows.given
  rintro rfl
  apply Follows.nextCharacter
  intro character
  by_cases closes : character = 125
  · rw [if_pos closes]
    subst closes
    apply Follows.expect
    · decide
    · rfl
    rw [if_pos rfl]
    apply Follows.pure
    intro before rest parser isTaken
    exact ⟨rfl, isTaken⟩
  · rw [if_neg closes]
    by_cases isComma : character = 44
    · rw [if_pos isComma]
      subst isComma
      apply Follows.expect
      · decide
      · rfl
      rw [if_neg closes]
      apply Follows.weaken _ Taken.toStanding
      apply (insertPair follows members).bind
      intro result pair
      apply Follows.pure
      intro before rest parser ends
      exact ends
    · rw [if_neg isComma]
      apply Follows.unexpected
      rw [Bool.or_eq_false_iff, beq_eq_false_iff_ne, beq_eq_false_iff_ne]
      exact ⟨closes, isComma⟩

theorem consumeObject (isLocal : readValue.Local)
    (follows : FollowsValue bound value readValue) :
    Follows (bound + 1) (Standing fun _ => True) (Parser.consumeObject value)
      (Read.object readValue) fun result json before rest parser =>
        result = json ∧ Closed before rest parser := by
  apply Follows.nextCharacter
  intro character
  by_cases opens : character = 123
  · rw [if_pos opens]
    subst opens
    apply Follows.expect_strict
    · decide
    · rfl
    apply Follows.weaken _ Taken.toStanding
    apply (skipWhitespaces _).bind
    intro _ _
    apply Follows.nextCharacter
    intro character
    by_cases closes : character = 125
    · rw [if_pos closes]
      subst closes
      apply Follows.optional
      · decide
      · rfl
      rw [if_pos (List.cons_ne_nil _ _)]
      apply Follows.pure
      intro before rest parser isTaken
      exact ⟨rfl, isTaken.closed (by decide)⟩
    · rw [if_neg closes]
      apply Follows.absent
      · exact beq_eq_false_iff_ne.mpr closes
      rw [if_neg (not_not.mpr rfl)]
      apply Follows.retract
      apply Follows.weaken _ Taken.toStanding
      apply (insertPair follows []).bind
      intro members pair
      have advances : Advances (Read.nextPair readValue) :=
        (Read.nextPair_round isLocal).2
      apply (Follows.whileTrue advances _ (objectRound follows) members
        (insertMember pair.1 pair.2 [])).bind
      · intro members readMembers
        apply Follows.pure
        intro before rest parser ends
        rw [ends.1]
        exact ⟨rfl, ends.2.closed (by decide)⟩
      · intro state readState before rest parser same
        exact same.2.source
  · rw [if_neg opens]
    exact Follows.unexpected (beq_eq_false_iff_ne.mpr opens)

theorem arrayRound (follows : FollowsValue bound value readValue)
    (items readItems : List (Json Double)) :
    Follows bound (Same items readItems)
      (Parser.nextCharacter >>= fun character =>
        if character = 93 then Pure.pure (.inr items)
        else if character = 44 then
          Parser.pushItem value items >>= fun items => Pure.pure (.inl items)
        else unexpectedToken)
      (Read.nextItem readValue readItems)
      (Round Same fun result items before rest parser =>
        result = items ∧ Taken (fun _ => True) 93 before rest parser) := by
  apply Follows.given
  rintro rfl
  apply Follows.nextCharacter
  intro character
  by_cases closes : character = 93
  · rw [if_pos closes]
    subst closes
    apply Follows.expect
    · decide
    · rfl
    rw [if_pos rfl]
    apply Follows.pure
    intro before rest parser isTaken
    exact ⟨rfl, isTaken⟩
  · rw [if_neg closes]
    by_cases isComma : character = 44
    · rw [if_pos isComma]
      subst isComma
      apply Follows.expect
      · decide
      · rfl
      rw [if_neg closes]
      apply Follows.weaken _ Taken.toStanding
      apply (pushItem follows items).bind
      intro result json
      apply Follows.pure
      intro before rest parser ends
      exact ends
    · rw [if_neg isComma]
      apply Follows.unexpected
      rw [Bool.or_eq_false_iff, beq_eq_false_iff_ne, beq_eq_false_iff_ne]
      exact ⟨closes, isComma⟩

theorem consumeArray (isLocal : readValue.Local)
    (follows : FollowsValue bound value readValue) :
    Follows (bound + 1) (Standing fun _ => True) (Parser.consumeArray value)
      (Read.array readValue) fun result json before rest parser =>
        result = json ∧ Closed before rest parser := by
  apply Follows.nextCharacter
  intro character
  by_cases opens : character = 91
  · rw [if_pos opens]
    subst opens
    apply Follows.expect_strict
    · decide
    · rfl
    apply Follows.weaken _ Taken.toStanding
    apply (skipWhitespaces _).bind
    intro _ _
    apply Follows.nextCharacter
    intro character
    by_cases closes : character = 93
    · rw [if_pos closes]
      subst closes
      apply Follows.optional
      · decide
      · rfl
      rw [if_pos (List.cons_ne_nil _ _)]
      apply Follows.pure
      intro before rest parser isTaken
      exact ⟨rfl, isTaken.closed (by decide)⟩
    · rw [if_neg closes]
      apply Follows.absent
      · exact beq_eq_false_iff_ne.mpr closes
      rw [if_neg (not_not.mpr rfl)]
      apply Follows.retract
      apply Follows.weaken _ Taken.toStanding
      apply (pushItem follows []).bind
      intro items json
      have advances : Advances (Read.nextItem readValue) :=
        (Read.nextItem_round isLocal).2
      apply (Follows.whileTrue advances _ (arrayRound follows) items [json]).bind
      · intro items readItems
        apply Follows.pure
        intro before rest parser ends
        rw [ends.1]
        exact ⟨rfl, ends.2.closed (by decide)⟩
      · intro state readState before rest parser same
        exact same.2.source
  · rw [if_neg opens]
    exact Follows.unexpected (beq_eq_false_iff_ne.mpr opens)

theorem peek {character : UInt8} {holds : Bytes → Prop} {start : Place}
    {act : Action α} {readNext : Option UInt8 → Reader UInt8 γ}
    {finish : α → γ → Place}
    (looks : ∀ {before rest parser}, start before rest parser →
      Looking holds character before rest parser)
    (later : ∀ first : Option UInt8, first.getD 0 = character →
      Follows bound start act (readNext first) finish) :
    Follows bound start act (Reader.peek >>= readNext) finish := by
  intro before rest parser short begins
  have isHead : rest.head?.getD 0 = character := by
    rw [← (looks begins).head]
    cases rest <;> rfl
  exact later rest.head? isHead before rest parser short begins

theorem consumeWord {json : Json Double} (text : Bytes) (notEmpty : text ≠ [])
    (noNul : (0 : UInt8) ∉ text) :
    Follows bound (Standing fun _ => True)
      (Parser.consumeSpecific text >>= fun _ => Pure.pure json)
      (Read.specific text >>= fun _ => Pure.pure json)
      fun result value before rest parser =>
        result = value ∧ Closed before rest parser := by
  apply ((consumeSpecific text noNul).weaken _).bind
  · intro _ _
    apply Follows.pure
    intro before rest parser closed
    exact ⟨rfl, closed⟩
  · intro before rest parser standing
    exact ⟨standing, fun isEmpty => absurd isEmpty notEmpty⟩

theorem consumeBool :
    Follows bound (Standing fun _ => True) (Parser.consumeBool : Action (Json Double))
      Read.bool fun result value before rest parser =>
        result = value ∧ Closed before rest parser := by
  apply Follows.nextCharacter
  intro character
  apply peek id
  intro first isFirst
  apply Follows.retract
  apply Follows.weaken _ Taken.toStanding
  by_cases isTrue : character = 116
  · have isHead : first = some 116 := by
      cases first with
      | none =>
          rw [isTrue] at isFirst
          cases isFirst
      | some byte => rw [← isTrue, ← isFirst]; rfl
    rw [if_pos isTrue, if_pos isHead]
    exact consumeWord _ (by decide) (by decide)
  · have isOther : ¬ first = some 116 := by
      rintro rfl
      exact isTrue isFirst.symm
    rw [if_neg isTrue, if_neg isOther]
    exact consumeWord _ (by decide) (by decide)

theorem consumer (isLocal : readValue.Local)
    (follows : FollowsValue bound value readValue) (kind : Parser.Kind) :
    Follows (bound + 1) (Standing fun _ => True) (Parser.consumer atof value kind)
      (Read.ofKind atof readValue kind) fun result json before rest parser =>
        result = json ∧ Closed before rest parser := by
  cases kind with
  | number => exact consumeNumber
  | string =>
      apply consumeString.bind
      intro token text
      apply Follows.given
      rintro rfl
      apply Follows.pure
      intro before rest parser closed
      exact ⟨rfl, closed⟩
  | bool => exact consumeBool
  | null => exact consumeWord _ (by decide) (by decide)
  | object => exact consumeObject isLocal follows
  | array => exact consumeArray isLocal follows

/-- The value without the blanks around it. -/
theorem detected (isLocal : readValue.Local)
    (follows : FollowsValue bound value readValue) :
    Follows (bound + 1) (Standing fun _ => True)
      (Parser.kindDetect >>= Parser.consumer atof value)
      (Read.bare atof readValue) fun result json before rest parser =>
        result = json ∧ Closed before rest parser := by
  simp only [Parser.kindDetect, bind_assoc, pure_bind]
  apply Follows.nextCharacter
  intro character
  apply peek id
  rintro first rfl
  apply Follows.retract
  apply Follows.weaken _ Taken.toStanding
  exact consumer isLocal follows _

theorem actAssoc {δ : Type} {start : Place} {act : Action α}
    {second : α → Action γ} {last : γ → Action δ} {read : Reader UInt8 δ}
    {finish : δ → δ → Place}
    (follows : Follows bound start (act >>= second >>= last) read finish) :
    Follows bound start (act >>= fun value => second value >>= last) read
      finish := by
  rwa [bind_assoc] at follows

theorem consumeValue (bound : Nat) :
    ∀ {depth readDepth : Nat}, bound ≤ depth → bound ≤ readDepth →
      FollowsValue bound (Parser.consumeValue atof depth)
        (Read.element atof readDepth) := by
  induction bound with
  | zero =>
      intro depth readDepth _ _ before rest parser short
      cases short
  | succ bound induction =>
      intro depth readDepth deep readDeep
      obtain ⟨depth, rfl⟩ : ∃ fewer, depth = fewer + 1 :=
        ⟨depth - 1, by omega⟩
      obtain ⟨readDepth, rfl⟩ : ∃ fewer, readDepth = fewer + 1 :=
        ⟨readDepth - 1, by omega⟩
      have follows := induction (Nat.le_of_succ_le_succ deep)
        (Nat.le_of_succ_le_succ readDeep)
      apply (skipWhitespaces _).bind
      intro _ _
      apply actAssoc
      apply (detected (Read.element_local readDepth) follows).bind
      intro result json
      apply Follows.given
      rintro rfl
      apply Follows.weaken _ Closed.toStanding
      apply (skipWhitespaces _).bind
      intro _ _
      apply Follows.pure
      intro before rest parser standing
      exact ⟨rfl, standing⟩

/-- The value did not end with the text. -/
theorem withoutEnd {start : Place} {early act : Action α}
    {read : Reader UInt8 γ} {finish : α → γ → Place}
    (follows : Follows bound start act read finish)
    (noEnd : ∀ {before rest parser}, start before rest parser →
      parser.character ≠ 0) :
    Follows bound start (Parser.withCharacter fun character =>
      if character = 0 then early else act) read finish := by
  intro before rest parser short begins
  have same : Parser.withCharacter (fun character =>
      if character = 0 then early else act) parser = act parser := by
    simp only [Parser.withCharacter]
    rw [if_neg (noEnd begins)]
  rw [same]
  exact follows before rest parser short begins

theorem atEnd (json : Json Double) :
    Follows bound (Standing fun _ => True)
      (Parser.nextCharacter >>= fun character =>
        if character = 0 then Pure.pure json else unexpectedToken)
      (Reader.refuse (fun _ => true) >>= fun _ => Pure.pure json)
      fun result value _ _ _ => result = value := by
  apply Follows.nextCharacter
  intro character
  by_cases isNul : character = 0
  · rw [if_pos isNul]
    subst isNul
    intro before rest parser short looking
    have isEmpty : rest = [] := by
      cases rest with
      | nil => rfl
      | cons byte rest =>
          obtain rfl : byte = 0 := looking.head
          apply absurd _ looking.noNul
          rw [looking.source]
          exact List.mem_append_right before List.mem_cons_self
    subst isEmpty
    exact .inl ⟨json, [], [], json, parser, rfl, rfl, rfl, rfl⟩
  · rw [if_neg isNul]
    apply Follows.thrown
    intro rest isHead
    cases rest with
    | nil => exact absurd isHead.symm isNul
    | cons byte rest => rfl

theorem consumeDocument {depth readDepth : Nat} (deep : bound ≤ depth)
    (readDeep : bound ≤ readDepth) :
    Follows (bound + 1) (Standing fun _ => True)
      (Parser.consumeDocument atof depth) (Read.document atof readDepth)
      fun result json _ _ _ => result = json := by
  have follows : FollowsValue bound (Parser.consumeValue atof depth)
      (Read.element atof readDepth) := consumeValue bound deep readDeep
  simp only [Read.document, Read.element, bind_assoc, pure_bind]
  apply (skipWhitespaces _).bind
  intro _ _
  apply actAssoc
  apply (detected (Read.element_local readDepth) follows).bind
  intro result json
  apply Follows.given
  rintro rfl
  apply withoutEnd _ Closed.noEnd
  apply Follows.weaken _ Closed.toStanding
  apply (skipWhitespaces _).bind
  intro _ _
  exact atEnd result

end

end Follows

section

variable {Double : Type} {atof : Bytes → Double}

/-- Parsing gives what the reader of a document gives, and throws where that
fails. -/
theorem parse_follows (json_string : Bytes) {depth : Nat}
    (deep : (cstr json_string).length ≤ depth) :
    (∃ json, Read.document atof depth (cstr json_string) = (some json, []) ∧
      parse atof json_string = .ok json) ∨
    ∃ front rest, cstr json_string = front ++ rest ∧
      Read.document atof depth (cstr json_string) = (none, rest) ∧
      parse atof json_string =
        .error (.unexpectedToken (rest.headD 0) front.length) := by
  have noNul : (0 : UInt8) ∉ cstr json_string := by
    intro member
    have isOther := List.mem_takeWhile_imp member
    simp at isOther
  have begins : Standing (fun _ => True) [] (cstr json_string)
      { source := cstr json_string } := ⟨rfl, noNul, rfl, trivial⟩
  rcases Follows.consumeDocument (Nat.le_refl _) deep [] _ _
      (Nat.lt_succ_self _) begins with
    ⟨json, taken, left, result, after, isRead, split, isDone, same⟩ |
      ⟨front, rest, after, isRead, split, isThrown, stopped⟩
  · obtain ⟨rfl, _⟩ := Read.document_done isRead
    refine .inl ⟨json, isRead, ?_⟩
    simp only [parse]
    rw [isDone, same]
  · refine .inr ⟨front, rest, split, isRead, ?_⟩
    simp only [parse]
    rw [isThrown, stopped.current, stopped.pos]
    rfl

/-- A text is accepted exactly where it denotes a value, and it denotes no
other one. -/
theorem parse_eq_ok_iff (json_string : Bytes) (json : Json Double) :
    parse atof json_string = .ok json ↔
      Denotes atof (cstr json_string) json := by
  constructor
  · intro accepted
    rcases parse_follows json_string (Nat.le_refl _) with
      ⟨other, isRead, isOther⟩ | ⟨front, rest, _, _, isThrown⟩
    · rw [accepted] at isOther
      obtain rfl := Except.ok.inj isOther
      exact (Read.document_done isRead).2
    · rw [accepted] at isThrown
      cases isThrown
  · intro denotes
    have complete := Read.document_complete denotes (Nat.le_refl _)
    rcases parse_follows json_string (Nat.le_refl _) with
      ⟨other, isRead, isOther⟩ | ⟨front, rest, _, isRead, isThrown⟩
    · rw [complete] at isRead
      obtain rfl := Option.some.inj (Prod.mk.inj isRead).1
      exact isOther
    · rw [complete] at isRead
      cases isRead

/-- The character and the position of a syntax error: up to there the text can
be completed, and no text that goes on with that character, or that ends there,
denotes a value. -/
theorem parse_error (json_string : Bytes) {fault : Fault}
    (thrown : parse atof json_string = .error fault) :
    ∃ front rest, cstr json_string = front ++ rest ∧
      fault = .unexpectedToken (rest.headD 0) front.length ∧
      (∃ missing json, Denotes atof (front ++ missing) json) ∧
      ∀ other json, other.head? = rest.head? →
        ¬ Denotes atof (front ++ other) json := by
  rcases parse_follows json_string (Nat.le_refl _) with
    ⟨json, _, isOk⟩ | ⟨front, rest, split, isRead, isThrown⟩
  · rw [thrown] at isOk
    cases isOk
  · have failed : ∀ depth, (cstr json_string).length ≤ depth →
        Read.document atof depth (cstr json_string) = (none, rest) := by
      intro depth deep
      rcases parse_follows json_string deep with
        ⟨json, _, isOk⟩ | ⟨otherFront, otherRest, otherSplit, isRead, isOther⟩
      · rw [isThrown] at isOk
        cases isOk
      · rw [isThrown] at isOther
        have samePos := (Fault.unexpectedToken.inj (Except.error.inj isOther)).2
        have sameSplit := split.symm.trans otherSplit
        obtain ⟨_, rfl⟩ := List.append_inj sameSplit (Int.ofNat.inj samePos)
        exact isRead
    obtain ⟨begun, sameSplit, completed, stuck⟩ := Read.document_failed failed
    have sameFront := List.append_cancel_right (split.symm.trans sameSplit)
    subst sameFront
    refine ⟨front, rest, split, ?_, completed, stuck⟩
    rw [thrown] at isThrown
    exact Except.error.inj isThrown

/-- An array cannot begin with a comma. -/
theorem parse_error_comma :
    ∃ front rest, cstr (ascii "[,1]") = front ++ rest ∧
      Fault.unexpectedToken 44 1 =
        .unexpectedToken (rest.headD 0) front.length ∧
      (∃ missing json, Denotes List.length (front ++ missing) json) ∧
      ∀ other json, other.head? = rest.head? →
        ¬ Denotes List.length (front ++ other) json := by
  apply parse_error
  rfl

end

end Parser

end Natsu.Ggicci
