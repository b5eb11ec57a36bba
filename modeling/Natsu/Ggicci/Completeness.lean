import Natsu.Ggicci.Reading

/-!
# The reader takes every text that denotes a value

A text that denotes a value is taken whole, where the byte behind it cannot
belong to the value.  Only a number and the blanks around a value depend on
that byte.  With the locality of the reader, a byte on which it fails is one
behind which no text completes what was read before it.
-/

namespace Natsu.Ggicci

open Natsu.Foundation Natsu.Foundation.Reader

namespace Read

theorem blanks_local : blanks.Local := Local.span isWhitespace

theorem integer_local : integer.Local := by
  apply (Local.expect isdigit).bind
  intro first
  by_cases isZero : first = 48
  · rw [if_pos isZero]
    exact Local.pure _
  · rw [if_neg isZero]
    apply (Local.span isdigit).bind
    intro rest
    exact Local.pure _

theorem digits_local (front : Bytes) : (digits front).Local := by
  apply (Local.expect isdigit).bind
  intro first
  apply (Local.span isdigit).bind
  intro rest
  exact Local.pure _

theorem fraction_local : fraction.Local := by
  apply (Local.optional _).bind
  intro dot
  by_cases absent : dot = []
  · rw [if_pos absent]
    exact Local.pure _
  · rw [if_neg absent]
    exact digits_local dot

theorem exponent_local : exponent.Local := by
  apply (Local.optional _).bind
  intro mark
  by_cases absent : mark = []
  · rw [if_pos absent]
    exact Local.pure _
  · rw [if_neg absent]
    apply (Local.optional _).bind
    intro sign
    exact digits_local _

theorem number_local : number.Local := by
  apply (Local.optional _).bind
  intro sign
  apply integer_local.bind
  intro whole
  apply (Local.refuse isdigit).bind
  intro _
  apply fraction_local.bind
  intro fraction
  apply exponent_local.bind
  intro exponent
  exact Local.pure _

theorem hex_local (remaining : Nat) : (hex remaining).Local := by
  induction remaining with
  | zero => exact Local.pure _
  | succ remaining induction =>
      apply (Local.expect isxdigit).bind
      intro first
      apply induction.bind
      intro rest
      exact Local.pure _

theorem escape_local : escape.Local := by
  apply (Local.expect _).bind
  intro byte
  by_cases escaped : isEscape byte = true
  · rw [if_pos escaped]
    exact Local.pure _
  · rw [if_neg escaped]
    apply (hex_local 4).bind
    intro digits
    exact Local.pure _

theorem character_round :
    (∀ text, (character text).Local) ∧ Advances character := by
  apply Local.round
  intro text byte
  by_cases closes : byte = 34
  · rw [if_pos closes]
    exact Local.pure _
  · rw [if_neg closes]
    by_cases escapes : byte = 92
    · rw [if_pos escapes]
      apply escape_local.bind
      intro escaped
      exact Local.pure _
    · rw [if_neg escapes]
      exact Local.pure _

theorem string_local : string.Local := by
  apply blanks_local.bind
  intro _
  apply (Local.expect _).bind
  intro _
  exact Local.forever character_round.1 character_round.2 []

theorem specific_local (text : Bytes) : (specific text).Local := by
  induction text with
  | nil => exact Local.pure _
  | cons expected text induction =>
      apply (Local.expect _).bind
      intro _
      exact induction

section

variable {Double : Type} {atof : Bytes → Double}
  {value : Reader UInt8 (Json Double)}

theorem pair_local (isLocal : value.Local) : (pair value).Local := by
  apply string_local.bind
  intro key
  apply blanks_local.bind
  intro _
  apply (specific_local _).bind
  intro _
  apply isLocal.bind
  intro json
  exact Local.pure _

theorem nextPair_round (isLocal : value.Local) :
    (∀ members, (nextPair value members).Local) ∧
      Advances (nextPair value) := by
  apply Local.round
  intro members byte
  by_cases closes : byte = 125
  · rw [if_pos closes]
    exact Local.pure _
  · rw [if_neg closes]
    apply (pair_local isLocal).bind
    intro member
    exact Local.pure _

theorem object_local (isLocal : value.Local) : (object value).Local := by
  apply (Local.expect _).bind
  intro _
  apply blanks_local.bind
  intro _
  apply (Local.optional _).bind
  intro closed
  by_cases isClosed : closed ≠ []
  · rw [if_pos isClosed]
    exact Local.pure _
  · rw [if_neg isClosed]
    obtain ⟨roundLocal, advances⟩ := nextPair_round isLocal
    apply (pair_local isLocal).bind
    intro first
    apply (Local.forever roundLocal advances _).bind
    intro members
    exact Local.pure _

theorem nextItem_round (isLocal : value.Local) :
    (∀ items, (nextItem value items).Local) ∧ Advances (nextItem value) := by
  apply Local.round
  intro items byte
  by_cases closes : byte = 93
  · rw [if_pos closes]
    exact Local.pure _
  · rw [if_neg closes]
    apply isLocal.bind
    intro json
    exact Local.pure _

theorem array_local (isLocal : value.Local) : (array value).Local := by
  apply (Local.expect _).bind
  intro _
  apply blanks_local.bind
  intro _
  apply (Local.optional _).bind
  intro closed
  by_cases isClosed : closed ≠ []
  · rw [if_pos isClosed]
    exact Local.pure _
  · rw [if_neg isClosed]
    obtain ⟨roundLocal, advances⟩ := nextItem_round isLocal
    apply isLocal.bind
    intro first
    apply (Local.forever roundLocal advances _).bind
    intro items
    exact Local.pure _

theorem ofKind_local (isLocal : value.Local) (kind : Parser.Kind) :
    (ofKind atof value kind).Local := by
  cases kind with
  | number =>
      apply number_local.bind
      intro text
      exact Local.pure _
  | string =>
      apply string_local.bind
      intro text
      exact Local.pure _
  | bool =>
      apply Local.peek.bind
      intro first
      by_cases isTrue : first = some 116
      · rw [if_pos isTrue]
        apply (specific_local _).bind
        intro _
        exact Local.pure _
      · rw [if_neg isTrue]
        apply (specific_local _).bind
        intro _
        exact Local.pure _
  | null =>
      apply (specific_local _).bind
      intro _
      exact Local.pure _
  | object => exact object_local isLocal
  | array => exact array_local isLocal

theorem element_local (depth : Nat) : (element atof depth).Local := by
  induction depth with
  | zero => exact Local.fail
  | succ depth induction =>
      apply blanks_local.bind
      intro _
      apply Local.bind
      · apply Local.peek.bind
        intro first
        exact ofKind_local induction _
      · intro json
        apply blanks_local.bind
        intro _
        exact Local.pure _

end

/-- The text does not go on as a number does. -/
def EndsNumber (rest : Bytes) : Prop :=
  ∀ byte, rest.head? = some byte →
    isdigit byte = false ∧ byte ≠ 46 ∧ byte ≠ 101 ∧ byte ≠ 69

/-- The text ends, or the value that it stands behind ends with it. -/
def Stops (rest : Bytes) : Prop :=
  ∀ byte, rest.head? = some byte → byte = 44 ∨ byte = 93 ∨ byte = 125

theorem refused_of_head {fits : UInt8 → Bool} {rest : Bytes}
    (refused : ∀ byte, rest.head? = some byte → fits byte = false) :
    rest.head?.any fits = false := by
  cases rest with
  | nil => rfl
  | cons byte rest => exact refused byte rfl

theorem Stops.notBlank {rest : Bytes} (stops : Stops rest) :
    rest.head?.any isWhitespace = false := by
  apply refused_of_head
  intro byte isHead
  rcases stops byte isHead with rfl | rfl | rfl <;> rfl

theorem Stops.endsNumber {rest blank : Bytes} (stops : Stops rest)
    (isBlank : Blank blank) : EndsNumber (blank ++ rest) := by
  intro byte isHead
  cases blank with
  | nil =>
      rcases stops byte isHead with rfl | rfl | rfl <;> simp [isdigit]
  | cons first blank =>
      obtain rfl : first = byte := Option.some.inj isHead
      have isFirst := isBlank first List.mem_cons_self
      simp only [isWhitespace, Bool.or_eq_true, beq_iff_eq] at isFirst
      rcases isFirst with ((rfl | rfl) | rfl) | rfl <;> simp [isdigit]

theorem integer_complete {word rest : Bytes} (isInteger : IsInteger word)
    (refused : rest.head?.any isdigit = false) :
    integer (word ++ rest) = (some word, rest) := by
  simp only [integer]
  cases isInteger with
  | zero =>
      have isDigit : isdigit 48 = true := rfl
      rw [List.singleton_append, bind_done (expect_cons _ isDigit rest)]
      rfl
  | digits isFirst isOther areDigits =>
      rw [List.cons_append, bind_done (expect_cons _ isFirst _), if_neg isOther,
        bind_done (span_append areDigits refused)]
      rfl

theorem digits_complete {front digits rest : Bytes} {first : UInt8}
    (isFirst : isdigit first = true) (areDigits : Digits digits)
    (refused : rest.head?.any isdigit = false) :
    Read.digits front (first :: digits ++ rest) =
      (some (front ++ first :: digits), rest) := by
  simp only [Read.digits]
  rw [List.cons_append, bind_done (expect_cons _ isFirst _),
    bind_done (span_append areDigits refused)]
  rfl

theorem fraction_complete {word rest : Bytes} (isFraction : IsFraction word)
    (refused : ∀ byte, rest.head? = some byte →
      isdigit byte = false ∧ byte ≠ 46) :
    fraction (word ++ rest) = (some word, rest) := by
  simp only [fraction]
  cases isFraction with
  | absent =>
      have noDot : rest.head?.any (· == 46) = false := by
        apply refused_of_head
        intro byte isHead
        exact beq_eq_false_iff_ne.mpr (refused byte isHead).2
      rw [List.nil_append, bind_done (optional_absent noDot)]
      rfl
  | present isFirst areDigits =>
      have noDigit : rest.head?.any isdigit = false := by
        apply refused_of_head
        intro byte isHead
        exact (refused byte isHead).1
      rw [List.cons_append, bind_done (optional_cons (· == 46) rfl _),
        if_neg (List.cons_ne_nil _ _)]
      exact digits_complete isFirst areDigits noDigit

theorem exponent_complete {word rest : Bytes} (isExponent : IsExponent word)
    (refused : ∀ byte, rest.head? = some byte →
      isdigit byte = false ∧ byte ≠ 101 ∧ byte ≠ 69) :
    exponent (word ++ rest) = (some word, rest) := by
  simp only [exponent]
  cases isExponent with
  | absent =>
      have noMark : rest.head?.any
          (fun byte => byte == 101 || byte == 69) = false := by
        apply refused_of_head
        intro byte isHead
        obtain ⟨_, small, large⟩ := refused byte isHead
        rw [Bool.or_eq_false_iff]
        exact ⟨beq_eq_false_iff_ne.mpr small, beq_eq_false_iff_ne.mpr large⟩
      rw [List.nil_append, bind_done (optional_absent noMark)]
      rfl
  | @present mark first sign digits isMark isSign isFirst areDigits =>
      have noDigit : rest.head?.any isdigit = false := by
        apply refused_of_head
        intro byte isHead
        exact (refused byte isHead).1
      have marked : (mark == 101 || mark == 69) = true := by
        simpa using isMark
      have signed : optional (fun byte => byte == 43 || byte == 45)
          (sign ++ (first :: digits ++ rest)) =
            (some sign, first :: digits ++ rest) := by
        rcases isSign with rfl | rfl | rfl
        · apply optional_absent
          apply refused_of_head
          intro byte isHead
          obtain rfl : first = byte := Option.some.inj isHead
          rw [Bool.or_eq_false_iff, beq_eq_false_iff_ne, beq_eq_false_iff_ne]
          constructor
          · rintro rfl
            cases isFirst
          · rintro rfl
            cases isFirst
        · exact optional_cons _ rfl _
        · exact optional_cons _ rfl _
      rw [List.cons_append, List.append_assoc,
        bind_done (optional_cons (fun byte => byte == 101 || byte == 69) marked _),
        if_neg (List.cons_ne_nil _ _), bind_done signed, digits_complete isFirst areDigits noDigit]
      simp

theorem number_complete {word rest : Bytes} (isNumber : IsNumber word)
    (ends : EndsNumber rest) : number (word ++ rest) = (some word, rest) := by
  obtain @⟨sign, whole, fraction, exponent, isSign, isInteger, isFraction,
    isExponent⟩ := isNumber
  have behindFraction : ∀ byte, (exponent ++ rest).head? = some byte →
      isdigit byte = false ∧ byte ≠ 46 := by
    intro byte isHead
    cases isExponent with
    | absent =>
        obtain ⟨noDigit, noDot, _⟩ := ends byte isHead
        exact ⟨noDigit, noDot⟩
    | present isMark _ _ _ =>
        obtain rfl := Option.some.inj isHead
        rcases isMark with rfl | rfl <;> simp [isdigit]
  have behindInteger : (fraction ++ (exponent ++ rest)).head?.any isdigit =
      false := by
    apply refused_of_head
    intro byte isHead
    cases isFraction with
    | absent => exact (behindFraction byte isHead).1
    | present _ _ =>
        obtain rfl := Option.some.inj isHead
        rfl
  have behindExponent : ∀ byte, rest.head? = some byte →
      isdigit byte = false ∧ byte ≠ 101 ∧ byte ≠ 69 := by
    intro byte isHead
    obtain ⟨noDigit, _, small, large⟩ := ends byte isHead
    exact ⟨noDigit, small, large⟩
  have signed : optional (· == 45)
      (sign ++ (whole ++ (fraction ++ (exponent ++ rest)))) =
        (some sign, whole ++ (fraction ++ (exponent ++ rest))) := by
    rcases isSign with rfl | rfl
    · apply optional_absent
      apply refused_of_head
      intro byte isHead
      rw [beq_eq_false_iff_ne]
      rintro rfl
      cases isInteger with
      | zero => cases isHead
      | digits isFirst _ _ =>
          obtain rfl := Option.some.inj isHead
          cases isFirst
    · exact optional_cons _ rfl _
  simp only [number, List.append_assoc]
  rw [bind_done signed, bind_done (integer_complete isInteger behindInteger),
    bind_done (refuse_absent behindInteger),
    bind_done (fraction_complete isFraction behindFraction),
    bind_done (exponent_complete isExponent behindExponent)]
  rfl

theorem hex_complete {word : Bytes} (rest : Bytes)
    (areHex : ∀ byte ∈ word, isxdigit byte = true) :
    hex word.length (word ++ rest) = (some word, rest) := by
  induction word with
  | nil => rfl
  | cons byte word induction =>
      obtain ⟨isHex, areOther⟩ := List.forall_mem_cons.mp areHex
      simp only [List.length_cons, hex]
      rw [List.cons_append, bind_done (expect_cons _ isHex _),
        bind_done (induction areOther)]
      rfl

/-- One round of the loop of a string. -/
theorem character_plain {byte : UInt8} {text rest : Bytes} (other : byte ≠ 34)
    (plain : byte ≠ 92) (printable : iscntrl byte = false) :
    character text (byte :: rest) = (some (.inl (text ++ [byte])), rest) := by
  have accepted : (!iscntrl byte) = true := by
    rw [printable]
    rfl
  simp only [character]
  rw [bind_done (expect_cons (fun byte => !iscntrl byte) accepted rest),
    if_neg other, if_neg plain]
  rfl

theorem character_escape {text taken rest other : Bytes}
    (done : escape rest = (some taken, other)) :
    character text (92 :: rest) = (some (.inl (text ++ taken)), other) := by
  have accepted : (!iscntrl 92) = true := rfl
  have noQuote : ¬ (92 : UInt8) = 34 := by decide
  simp only [character]
  rw [bind_done (expect_cons (fun byte => !iscntrl byte) accepted rest),
    if_neg noQuote, if_pos rfl, bind_done done]
  rfl

theorem escape_complete {byte : UInt8} {rest : Bytes}
    (escaped : isEscape byte = true) :
    escape (byte :: rest) = (some [92, byte], rest) := by
  have accepted : (isEscape byte || byte == 117) = true := by
    rw [escaped]
    rfl
  simp only [escape]
  rw [bind_done (expect_cons (fun byte => isEscape byte || byte == 117)
    accepted rest), if_pos escaped]
  rfl

theorem unicode_complete {digits rest : Bytes} (long : digits.length = 4)
    (areHex : ∀ byte ∈ digits, isxdigit byte = true) :
    escape (117 :: (digits ++ rest)) = (some (92 :: 117 :: digits), rest) := by
  have accepted : (isEscape 117 || (117 : UInt8) == 117) = true := rfl
  have noEscape : ¬ isEscape 117 = true := by decide
  have read := hex_complete rest areHex
  rw [long] at read
  simp only [escape]
  rw [bind_done (expect_cons (fun byte => isEscape byte || byte == 117)
    accepted _), if_neg noEscape, bind_done read]
  rfl

theorem text_complete {word : Bytes} (isText : IsText word) :
    ∀ text rest : Bytes, forever character text (word ++ 34 :: rest) =
      (some (text ++ word), rest) := by
  have advances : Advances character := character_round.2
  induction isText with
  | empty =>
      intro text rest
      rw [List.append_nil]
      exact forever_leave rfl
  | @plain byte word other plain printable _ induction =>
      intro text rest
      have round : character text (byte :: (word ++ 34 :: rest)) =
          (some (.inl (text ++ [byte])), word ++ 34 :: rest) :=
        character_plain other plain printable
      rw [List.cons_append, advances.forever_next round, induction]
      simp
  | @escape byte word escaped _ induction =>
      intro text rest
      have round : character text (92 :: byte :: (word ++ 34 :: rest)) =
          (some (.inl (text ++ [92, byte])), word ++ 34 :: rest) :=
        character_escape (escape_complete escaped)
      rw [List.cons_append, List.cons_append, advances.forever_next round,
        induction]
      simp
  | @unicode digits word long areHex _ induction =>
      intro text rest
      have round : character text
          (92 :: 117 :: (digits ++ (word ++ 34 :: rest))) =
          (some (.inl (text ++ 92 :: 117 :: digits)), word ++ 34 :: rest) :=
        character_escape (unicode_complete long areHex)
      rw [List.cons_append, List.cons_append, List.append_assoc,
        advances.forever_next round, induction]
      simp

theorem string_complete {before key : Bytes} (rest : Bytes)
    (isBlank : Blank before) (isText : IsText key) :
    string (before ++ 34 :: (key ++ 34 :: rest)) = (some key, rest) := by
  have behind : (34 :: (key ++ 34 :: rest)).head?.any isWhitespace = false := rfl
  simp only [string, blanks]
  rw [bind_done (span_append isBlank behind),
    bind_done (expect_cons (· == 34) rfl _)]
  exact text_complete isText [] rest

theorem specific_complete (text rest : Bytes) :
    specific text (text ++ rest) = (some (), rest) := by
  induction text with
  | nil => rfl
  | cons byte text induction =>
      simp only [specific]
      rw [List.cons_append, bind_done
        (expect_cons (· == byte) (beq_self_eq_true byte) _)]
      exact induction

theorem blanks_skip {α : Type} {next : Bytes → Reader UInt8 α}
    {blank input : Bytes} (isBlank : Blank blank)
    (unused : ∀ taken other, next taken = next other) :
    (blanks >>= next) (blank ++ input) = (blanks >>= next) input := by
  have whole : blanks (blank ++ input) =
      (some (blank ++ input.takeWhile isWhitespace),
        input.dropWhile isWhitespace) := by
    simp only [blanks, span]
    rw [List.takeWhile_append_of_pos isBlank,
      List.dropWhile_append_of_pos isBlank]
  have part : blanks input = (some (input.takeWhile isWhitespace),
      input.dropWhile isWhitespace) := rfl
  rw [bind_done whole, bind_done part, unused]

theorem number_head {word : Bytes} (isNumber : IsNumber word) :
    ∃ byte rest, word = byte :: rest ∧ (byte = 45 ∨ isdigit byte = true) := by
  obtain ⟨isSign, isInteger, _, _⟩ := isNumber
  rcases isSign with rfl | rfl
  · cases isInteger with
    | zero => exact ⟨48, _, rfl, .inr rfl⟩
    | digits isFirst _ _ => exact ⟨_, _, rfl, .inr isFirst⟩
  · exact ⟨45, _, rfl, .inl rfl⟩

theorem kindOf_number {byte : UInt8} (begins : byte = 45 ∨ isdigit byte = true) :
    Parser.kindOf byte = .number ∧ isWhitespace byte = false ∧ byte ≠ 93 := by
  have other : ∀ known : UInt8, isdigit known = false → known ≠ 45 →
      byte ≠ known := by
    rintro known noDigit noSign rfl
    rcases begins with rfl | isDigit
    · exact noSign rfl
    · rw [noDigit] at isDigit
      cases isDigit
  refine ⟨?_, ?_, other 93 rfl (by decide)⟩
  · unfold Parser.kindOf
    rw [if_neg (other 34 rfl (by decide)), if_neg, if_neg (other 110 rfl (by decide)),
      if_neg (other 123 rfl (by decide)), if_neg (other 91 rfl (by decide))]
    rintro (isTrue | isFalse)
    · exact other 116 rfl (by decide) isTrue
    · exact other 102 rfl (by decide) isFalse
  · simp only [isWhitespace, Bool.or_eq_false_iff, beq_eq_false_iff_ne]
    exact ⟨⟨⟨other 32 rfl (by decide), other 9 rfl (by decide)⟩,
      other 10 rfl (by decide)⟩, other 13 rfl (by decide)⟩

section

variable {Double : Type} {atof : Bytes → Double}
  {value : Reader UInt8 (Json Double)}

theorem pair_skip {blank input : Bytes} (isBlank : Blank blank) :
    pair value (blank ++ input) = pair value input := by
  apply bind_same
  apply blanks_skip isBlank
  intro _ _
  rfl

theorem element_skip {depth : Nat} {blank input : Bytes}
    (isBlank : Blank blank) :
    element atof (depth + 1) (blank ++ input) =
      element atof (depth + 1) input := by
  apply blanks_skip isBlank
  intro _ _
  rfl

theorem value_head {json : Json Double} {word : Bytes}
    (derives : Derives atof (.value json) word) :
    ∃ byte rest, word = byte :: rest ∧ isWhitespace byte = false ∧
      byte ≠ 93 := by
  cases derives with
  | number isNumber =>
      obtain ⟨byte, rest, rfl, begins⟩ := number_head isNumber
      exact ⟨byte, rest, rfl, (kindOf_number begins).2⟩
  | string => exact ⟨34, _, rfl, rfl, by decide⟩
  | true => exact ⟨116, _, rfl, rfl, by decide⟩
  | false => exact ⟨102, _, rfl, rfl, by decide⟩
  | null => exact ⟨110, _, rfl, rfl, by decide⟩
  | emptyObject => exact ⟨123, _, rfl, rfl, by decide⟩
  | object => exact ⟨123, _, rfl, rfl, by decide⟩
  | emptyArray => exact ⟨91, _, rfl, rfl, by decide⟩
  | array => exact ⟨91, _, rfl, rfl, by decide⟩

theorem element_head {json : Json Double} {word : Bytes}
    (derives : Derives atof (.element json) word) :
    ∃ blank byte rest, word = blank ++ byte :: rest ∧ Blank blank ∧
      isWhitespace byte = false ∧ byte ≠ 93 := by
  cases derives with
  | element isBefore isValue _ =>
      obtain ⟨byte, rest, rfl, isHead⟩ := value_head isValue
      exact ⟨_, byte, rest ++ _, by rw [List.append_assoc]; rfl, isBefore,
        isHead⟩

theorem items_head {items : List (Json Double)} {word : Bytes}
    (derives : Derives atof (.items items) word) :
    ∃ blank byte rest, word = blank ++ byte :: rest ∧ Blank blank ∧
      isWhitespace byte = false ∧ byte ≠ 93 := by
  cases derives with
  | oneItem isElement => exact element_head isElement
  | moreItems isElement _ =>
      obtain ⟨blank, byte, rest, rfl, isHead⟩ := element_head isElement
      exact ⟨blank, byte, rest ++ _, by rw [List.append_assoc]; rfl, isHead⟩

theorem pair_head {key word : Bytes} {json : Json Double}
    (derives : Derives atof (.pair key json) word) :
    ∃ blank rest, word = blank ++ 34 :: rest ∧ Blank blank := by
  cases derives with
  | pair isBefore _ _ _ => exact ⟨_, _, rfl, isBefore⟩

theorem pairs_head {members : List (Bytes × Json Double)} {word : Bytes}
    (derives : Derives atof (.pairs members) word) :
    ∃ blank rest, word = blank ++ 34 :: rest ∧ Blank blank := by
  cases derives with
  | onePair isPair => exact pair_head isPair
  | morePairs isPair _ =>
      obtain ⟨blank, rest, rfl, isBlank⟩ := pair_head isPair
      exact ⟨blank, rest ++ _, by rw [List.append_assoc]; rfl, isBlank⟩

theorem nextPair_close (members : List (Bytes × Json Double)) (rest : Bytes) :
    nextPair value members (125 :: rest) = (some (.inr members), rest) := by
  simp only [nextPair]
  rw [bind_done (expect_cons (fun byte => byte == 125 || byte == 44) rfl rest),
    if_pos rfl]
  rfl

theorem nextPair_comma {members : List (Bytes × Json Double)}
    {first : Bytes × Json Double} {input rest : Bytes}
    (done : pair value input = (some first, rest)) :
    nextPair value members (44 :: input) =
      (some (.inl (insertMember first.1 first.2 members)), rest) := by
  have noClose : ¬ (44 : UInt8) = 125 := by decide
  simp only [nextPair]
  rw [bind_done (expect_cons (fun byte => byte == 125 || byte == 44) rfl input),
    if_neg noClose, bind_done done]
  rfl

theorem nextItem_close (items : List (Json Double)) (rest : Bytes) :
    nextItem value items (93 :: rest) = (some (.inr items), rest) := by
  simp only [nextItem]
  rw [bind_done (expect_cons (fun byte => byte == 93 || byte == 44) rfl rest),
    if_pos rfl]
  rfl

theorem nextItem_comma {items : List (Json Double)} {json : Json Double}
    {input rest : Bytes} (done : value input = (some json, rest)) :
    nextItem value items (44 :: input) =
      (some (.inl (items ++ [json])), rest) := by
  have noClose : ¬ (44 : UInt8) = 93 := by decide
  simp only [nextItem]
  rw [bind_done (expect_cons (fun byte => byte == 93 || byte == 44) rfl input),
    if_neg noClose, bind_done done]
  rfl

variable (atof) in
/-- The reader takes the text of the phrase, where it may go deep enough and
what follows cannot belong to the phrase. -/
def Takes : Phrase Double → Bytes → Prop
  | .value json, word => ∀ depth rest, word.length ≤ depth →
      EndsNumber rest →
      bare atof (element atof depth) (word ++ rest) = (some json, rest)
  | .element json, word => ∀ depth rest, word.length < depth → Stops rest →
      element atof depth (word ++ rest) = (some json, rest)
  | .pair key json, word => ∀ depth rest, word.length < depth → Stops rest →
      pair (element atof depth) (word ++ rest) = (some (key, json), rest)
  | .pairs members, word => ∀ depth known rest, word.length < depth →
      ∃ first middle,
        pair (element atof depth) (word ++ 125 :: rest) = (some first, middle) ∧
        forever (nextPair (element atof depth))
          (insertMember first.1 first.2 known) middle =
            (some (insertPairs known members), rest)
  | .items items, word => ∀ depth known rest, word.length < depth →
      ∃ first middle,
        element atof depth (word ++ 93 :: rest) = (some first, middle) ∧
        forever (nextItem (element atof depth)) (known ++ [first]) middle =
          (some (known ++ items), rest)

theorem stops_cons {byte : UInt8} (rest : Bytes)
    (isStop : byte = 44 ∨ byte = 93 ∨ byte = 125) : Stops (byte :: rest) := by
  intro other isHead
  obtain rfl : byte = other := Option.some.inj isHead
  exact isStop

/-- `ofKind` for a value with this first byte. -/
theorem bare_cons {byte : UInt8} {rest : Bytes} (kind : Parser.Kind)
    (isKind : Parser.kindOf byte = kind) :
    bare atof value (byte :: rest) = ofKind atof value kind (byte :: rest) := by
  subst isKind
  rfl

theorem true_complete (rest : Bytes) :
    bare atof value (ascii "true" ++ rest) = (some (.bool true), rest) := by
  have read := specific_complete (ascii "true") rest
  have spelled : ascii "true" = [116, 114, 117, 101] := by decide
  have first : peek (ascii "true" ++ rest) =
      (some (some 116), ascii "true" ++ rest) := by
    rw [spelled]
    rfl
  simp only [bare]
  rw [bind_done first]
  change bool (ascii "true" ++ rest) = _
  simp only [bool]
  rw [bind_done first, if_pos rfl, bind_done read]
  rfl

theorem false_complete (rest : Bytes) :
    bare atof value (ascii "false" ++ rest) = (some (.bool false), rest) := by
  have read := specific_complete (ascii "false") rest
  have spelled : ascii "false" = [102, 97, 108, 115, 101] := by decide
  have first : peek (ascii "false" ++ rest) =
      (some (some 102), ascii "false" ++ rest) := by
    rw [spelled]
    rfl
  have other : ¬ (some (102 : UInt8)) = some 116 := by decide
  simp only [bare]
  rw [bind_done first]
  change bool (ascii "false" ++ rest) = _
  simp only [bool]
  rw [bind_done first, if_neg other, bind_done read]
  rfl

theorem null_complete (rest : Bytes) :
    bare atof value (ascii "null" ++ rest) = (some .null, rest) := by
  have read := specific_complete (ascii "null") rest
  have spelled : ascii "null" = [110, 117, 108, 108] := by decide
  have first : peek (ascii "null" ++ rest) =
      (some (some 110), ascii "null" ++ rest) := by
    rw [spelled]
    rfl
  simp only [bare]
  rw [bind_done first]
  change ofKind atof value .null (ascii "null" ++ rest) = _
  simp only [ofKind]
  rw [bind_done read]
  rfl

theorem object_complete {depth : Nat} {members : List (Bytes × Json Double)}
    {text rest : Bytes} (derives : Derives atof (.pairs members) text)
    (takes : Takes atof (.pairs members) text) (deep : text.length < depth) :
    object (element atof depth) (123 :: (text ++ [125]) ++ rest) =
      (some (.object (insertPairs [] members)), rest) := by
  obtain ⟨first, middle, isFirst, isLater⟩ := takes depth [] rest deep
  obtain ⟨blank, tail, rfl, isBlank⟩ := pairs_head derives
  rw [List.append_assoc, pair_skip isBlank] at isFirst
  have behind : (34 :: tail ++ 125 :: rest).head?.any isWhitespace = false :=
    rfl
  have noClose : (34 :: tail ++ 125 :: rest).head?.any (· == 125) = false := rfl
  simp only [object]
  rw [List.cons_append, bind_done (expect_cons (· == 123) rfl _)]
  simp only [List.append_assoc, List.singleton_append, blanks]
  rw [bind_done (span_append isBlank behind), bind_done (optional_absent noClose),
    if_neg (not_not.mpr rfl), bind_done isFirst, bind_done isLater]
  rfl

theorem array_complete {depth : Nat} {items : List (Json Double)}
    {text rest : Bytes} (derives : Derives atof (.items items) text)
    (takes : Takes atof (.items items) text) (deep : text.length < depth) :
    array (element atof depth) (91 :: (text ++ [93]) ++ rest) =
      (some (.array items), rest) := by
  obtain ⟨first, middle, isFirst, isLater⟩ := takes depth [] rest deep
  obtain ⟨blank, byte, tail, rfl, isBlank, noBlank, other⟩ := items_head derives
  obtain ⟨depth, rfl⟩ : ∃ shallower, depth = shallower + 1 :=
    ⟨depth - 1, by omega⟩
  rw [List.append_assoc, element_skip isBlank] at isFirst
  rw [List.nil_append, List.nil_append] at isLater
  have behind : (byte :: tail ++ 93 :: rest).head?.any isWhitespace = false :=
    noBlank
  have noClose : (byte :: tail ++ 93 :: rest).head?.any (· == 93) = false :=
    beq_eq_false_iff_ne.mpr other
  simp only [array]
  rw [List.cons_append, bind_done (expect_cons (· == 91) rfl _)]
  simp only [List.append_assoc, List.singleton_append, blanks]
  rw [bind_done (span_append isBlank behind), bind_done (optional_absent noClose),
    if_neg (not_not.mpr rfl), bind_done isFirst, bind_done isLater]
  rfl

theorem derives_takes {phrase : Phrase Double} {word : Bytes}
    (derives : Derives atof phrase word) : Takes atof phrase word := by
  induction derives with
  | number isNumber =>
      intro depth rest deep ends
      have read := number_complete isNumber ends
      obtain ⟨byte, tail, rfl, begins⟩ := number_head isNumber
      rw [List.cons_append, bare_cons _ (kindOf_number begins).1, ← List.cons_append]
      simp only [ofKind]
      rw [bind_done read]
      rfl
  | string isText =>
      intro depth rest deep ends
      have read := string_complete rest Blank.nil isText
      rw [List.cons_append, bare_cons .string rfl]
      simp only [ofKind, List.append_assoc, List.singleton_append]
      rw [List.nil_append] at read
      rw [bind_done read]
      rfl
  | true =>
      intro depth rest deep ends
      exact true_complete rest
  | false =>
      intro depth rest deep ends
      exact false_complete rest
  | null =>
      intro depth rest deep ends
      exact null_complete rest
  | emptyObject isBlank =>
      intro depth rest deep ends
      have behind : (125 :: rest).head?.any isWhitespace = false := rfl
      rw [List.cons_append, bare_cons .object rfl]
      simp only [ofKind, object, List.append_assoc, List.singleton_append, blanks]
      rw [bind_done (expect_cons (· == 123) rfl _),
        bind_done (span_append isBlank behind),
        bind_done (optional_cons (· == 125) rfl _),
        if_pos (List.cons_ne_nil _ _)]
      rfl
  | object arePairs induction =>
      intro depth rest deep ends
      rw [List.cons_append, bare_cons .object rfl, ← List.cons_append]
      apply object_complete arePairs induction
      simp only [List.length_cons, List.length_append, List.length_nil] at deep
      omega
  | emptyArray isBlank =>
      intro depth rest deep ends
      have behind : (93 :: rest).head?.any isWhitespace = false := rfl
      rw [List.cons_append, bare_cons .array rfl]
      simp only [ofKind, array, List.append_assoc, List.singleton_append, blanks]
      rw [bind_done (expect_cons (· == 91) rfl _),
        bind_done (span_append isBlank behind),
        bind_done (optional_cons (· == 93) rfl _),
        if_pos (List.cons_ne_nil _ _)]
      rfl
  | array areItems induction =>
      intro depth rest deep ends
      rw [List.cons_append, bare_cons .array rfl, ← List.cons_append]
      apply array_complete areItems induction
      simp only [List.length_cons, List.length_append, List.length_nil] at deep
      omega
  | @element json before text after isBefore isValue isAfter induction =>
      intro depth rest deep stops
      simp only [List.length_append] at deep
      obtain ⟨depth, rfl⟩ : ∃ shallower, depth = shallower + 1 :=
        ⟨depth - 1, by omega⟩
      obtain ⟨byte, tail, rfl, noBlank, _⟩ := value_head isValue
      have behind : (byte :: tail ++ (after ++ rest)).head?.any isWhitespace =
          false := noBlank
      have read := induction depth (after ++ rest) (by omega)
        (stops.endsNumber isAfter)
      simp only [element, blanks, List.append_assoc]
      rw [bind_done (span_append isBefore behind), bind_done read,
        bind_done (span_append isAfter stops.notBlank)]
      rfl
  | @pair key before after text json isBefore isText isAfter isElement induction =>
      intro depth rest deep stops
      simp only [List.length_append, List.length_cons] at deep
      have read := induction depth rest (by omega) stops
      have colon : specific (ascii ":") (58 :: (text ++ rest)) =
          (some (), text ++ rest) := specific_complete (ascii ":") _
      have behind : (58 :: (text ++ rest)).head?.any isWhitespace = false := rfl
      simp only [pair, blanks, List.append_assoc, List.cons_append]
      rw [bind_done (string_complete _ isBefore isText),
        bind_done (span_append isAfter behind), bind_done colon, bind_done read]
      rfl
  | onePair isPair induction =>
      intro depth known rest deep
      refine ⟨_, _, induction depth _ deep (stops_cons rest (.inr (.inr rfl))),
        ?_⟩
      exact forever_leave (nextPair_close _ rest)
  | morePairs isPair arePairs first later =>
      intro depth known rest deep
      simp only [List.length_append, List.length_cons] at deep
      have advances : Advances (nextPair (element atof depth)) :=
        (nextPair_round (element_local depth)).2
      rw [List.append_assoc, List.cons_append]
      refine ⟨_, _, first depth _ (by omega) (stops_cons _ (.inl rfl)), ?_⟩
      obtain ⟨second, middle, isSecond, isLater⟩ := later depth
        (insertMember _ _ known) rest (by omega)
      rw [advances.forever_next (nextPair_comma isSecond)]
      exact isLater
  | oneItem isElement induction =>
      intro depth known rest deep
      refine ⟨_, _, induction depth _ deep (stops_cons rest (.inr (.inl rfl))),
        ?_⟩
      exact forever_leave (nextItem_close _ rest)
  | @moreItems json items text tail isElement areItems first later =>
      intro depth known rest deep
      simp only [List.length_append, List.length_cons] at deep
      have advances : Advances (nextItem (element atof depth)) :=
        (nextItem_round (element_local depth)).2
      rw [List.append_assoc, List.cons_append]
      refine ⟨_, _, first depth _ (by omega) (stops_cons _ (.inl rfl)), ?_⟩
      obtain ⟨second, middle, isSecond, isLater⟩ := later depth
        (known ++ [json]) rest (by omega)
      rw [advances.forever_next (nextItem_comma isSecond), isLater]
      simp

theorem document_reads (depth : Nat) :
    (document atof depth).Reads
      fun json word => Derives atof (.element json) word := by
  apply (element_reads (depth + 1)).bind
  intro json
  apply (Reads.refuse _).bind
  intro _
  apply (Reads.pure _).mono
  rintro value word ⟨rfl, rfl⟩ second rfl front derives
  rw [List.append_nil, List.append_nil]
  exact derives

theorem document_local (depth : Nat) : (document atof depth).Local := by
  apply (element_local (depth + 1)).bind
  intro json
  apply (Local.refuse _).bind
  intro _
  exact Local.pure _

theorem document_complete {depth : Nat} {text : Bytes} {json : Json Double}
    (denotes : Denotes atof text json) (deep : text.length ≤ depth) :
    document atof depth text = (some json, []) := by
  have stops : Stops [] := by
    intro byte isHead
    cases isHead
  have read := derives_takes denotes (depth + 1) [] (Nat.lt_succ_of_le deep) stops
  rw [List.append_nil] at read
  simp only [document]
  rw [bind_done read]
  rfl

/-- Nothing is left behind a document. -/
theorem document_done {depth : Nat} {text rest : Bytes} {json : Json Double}
    (done : document atof depth text = (some json, rest)) :
    rest = [] ∧ Denotes atof text json := by
  obtain ⟨_, middle, _, isLast⟩ := bind_eq_done done
  obtain ⟨_, last, isRefused, isPure⟩ := bind_eq_done isLast
  obtain ⟨_, rfl⟩ := Prod.mk.inj isPure
  have isEmpty : last = [] := by
    simp only [refuse] at isRefused
    split at isRefused
    · cases isRefused
    · next noHead =>
        obtain ⟨_, rfl⟩ := Prod.mk.inj isRefused
        cases middle with
        | nil => rfl
        | cons byte middle => exact absurd rfl noHead
  obtain ⟨word, rfl, derives⟩ := (document_reads depth).done done
  subst isEmpty
  rw [List.append_nil]
  exact ⟨rfl, derives⟩

/-- Where no document goes on, none does with the byte that is left first, and
what was taken could have been completed. -/
theorem document_failed {text rest : Bytes}
    (failed : ∀ depth, text.length ≤ depth →
      document atof depth text = (none, rest)) :
    ∃ front, text = front ++ rest ∧
      (∃ missing json, Denotes atof (front ++ missing) json) ∧
      ∀ other json, other.head? = rest.head? →
        ¬ Denotes atof (front ++ other) json := by
  obtain ⟨front, rfl, json, missing, derives⟩ :=
    (document_reads _).failed (failed text.length (Nat.le_refl _))
  refine ⟨front, rfl, ⟨missing, json, derives⟩, ?_⟩
  intro other json sameHead denotes
  have deep : (front ++ rest).length ≤
      (front ++ rest).length + (front ++ other).length := by omega
  have same := (document_local _).stable (failed _ deep) sameHead
  have deepEnough : (front ++ other).length ≤
      (front ++ rest).length + (front ++ other).length := by omega
  rw [document_complete denotes deepEnough] at same
  cases same

end

end Read

end Natsu.Ggicci
