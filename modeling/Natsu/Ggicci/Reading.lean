import Natsu.Ggicci.Grammar

/-!
# The reader reads its language

What the reader of a value takes denotes that value, and the text up to the
byte on which it fails begins a text that denotes some value.  The reader is
local: behind the byte that it leaves anything may follow.
-/

namespace Natsu.Ggicci

open Natsu.Foundation Natsu.Foundation.Reader

theorem Blank.nil : Blank [] := List.forall_mem_nil _

theorem Digits.nil : Digits [] := List.forall_mem_nil _

theorem ne_nul_of_not_iscntrl {byte : UInt8} (isPlain : iscntrl byte = false) :
    byte ≠ 0 := by
  rintro rfl
  exact absurd isPlain (by decide)

/-- No byte of a string is a NUL. -/
theorem IsText.noNul {text : Bytes} (isText : IsText text) :
    (0 : UInt8) ∉ text := by
  have escapes : isEscape 0 = false := by decide
  have hexDigits : isxdigit 0 = false := by decide
  induction isText with
  | empty => exact List.not_mem_nil
  | plain _ _ isPlain _ induction =>
      apply List.not_mem_cons_of_ne_of_not_mem _ induction
      exact (ne_nul_of_not_iscntrl isPlain).symm
  | escape isEscaped _ induction =>
      apply List.not_mem_cons_of_ne_of_not_mem (by decide)
      apply List.not_mem_cons_of_ne_of_not_mem _ induction
      rintro rfl
      rw [escapes] at isEscaped
      cases isEscaped
  | unicode _ areHex _ induction =>
      apply List.not_mem_cons_of_ne_of_not_mem (by decide)
      apply List.not_mem_cons_of_ne_of_not_mem (by decide)
      intro member
      rcases List.mem_append.mp member with early | late
      · have isHex := areHex 0 early
        rw [hexDigits] at isHex
        cases isHex
      · exact induction late

namespace Read

theorem blanks_reads :
    blanks.Reads fun value word => word = value ∧ Blank word :=
  Reads.span isWhitespace

theorem expect_reads (byte : UInt8) :
    (expect (· == byte)).Reads fun _ word => word = [byte] := by
  apply (Reads.expect (· == byte) (beq_self_eq_true byte)).mono
  rintro value word ⟨same, rfl⟩
  rw [beq_iff_eq.mp same]

theorem integer_reads :
    integer.Reads fun value word => word = value ∧ IsInteger word := by
  have someDigit : isdigit 49 = true := by decide
  apply (Reads.expect _ someDigit).bind
  intro first
  by_cases isZero : first = 48
  · rw [if_pos isZero]
    apply (Reads.pure _).mono
    rintro value word ⟨rfl, rfl⟩ front ⟨_, rfl⟩
    rw [isZero]
    exact ⟨rfl, .zero⟩
  · rw [if_neg isZero]
    apply (Reads.span isdigit).bind
    intro rest
    apply (Reads.pure _).mono
    rintro value word ⟨rfl, rfl⟩ back ⟨rfl, areDigits⟩ front ⟨isFirst, rfl⟩
    rw [List.append_nil]
    exact ⟨rfl, .digits isFirst isZero areDigits⟩

theorem digits_reads (front : Bytes) : (digits front).Reads fun value word =>
    ∃ first rest, word = first :: rest ∧ value = front ++ word ∧
      isdigit first = true ∧ Digits rest := by
  have someDigit : isdigit 49 = true := by decide
  apply (Reads.expect _ someDigit).bind
  intro first
  apply (Reads.span isdigit).bind
  intro rest
  apply (Reads.pure _).mono
  rintro value word ⟨rfl, rfl⟩ back ⟨rfl, areDigits⟩ front ⟨isFirst, rfl⟩
  refine ⟨first, back, ?_, ?_, isFirst, areDigits⟩
  · simp
  · simp

theorem fraction_reads :
    fraction.Reads fun value word => word = value ∧ IsFraction word := by
  apply (Reads.optional _).bind
  intro dot
  by_cases absent : dot = []
  · rw [if_pos absent]
    apply (Reads.pure _).mono
    rintro value word ⟨rfl, rfl⟩ front ⟨rfl, _⟩
    rw [absent]
    exact ⟨rfl, .absent⟩
  · rw [if_neg absent]
    apply (digits_reads dot).mono
    rintro value word ⟨first, rest, rfl, rfl, isFirst, areDigits⟩ front
      ⟨rfl, isEmpty | ⟨symbol, isDot, rfl⟩⟩
    · exact absurd isEmpty absent
    · obtain rfl : symbol = 46 := beq_iff_eq.mp isDot
      exact ⟨rfl, .present isFirst areDigits⟩

theorem exponent_reads :
    exponent.Reads fun value word => word = value ∧ IsExponent word := by
  apply (Reads.optional _).bind
  intro mark
  by_cases absent : mark = []
  · rw [if_pos absent]
    apply (Reads.pure _).mono
    rintro value word ⟨rfl, rfl⟩ front ⟨rfl, _⟩
    rw [absent]
    exact ⟨rfl, .absent⟩
  · rw [if_neg absent]
    apply (Reads.optional _).bind
    intro sign
    apply (digits_reads (mark ++ sign)).mono
    rintro value word ⟨first, rest, rfl, rfl, isFirst, areDigits⟩ middle
      ⟨rfl, isSign⟩ front ⟨rfl, isEmpty | ⟨symbol, isMark, rfl⟩⟩
    · exact absurd isEmpty absent
    · have marked : symbol = 101 ∨ symbol = 69 := by simpa using isMark
      have signed : middle = [] ∨ middle = [43] ∨ middle = [45] := by
        rcases isSign with rfl | ⟨byte, isByte, rfl⟩
        · exact .inl rfl
        · simpa using isByte
      refine ⟨?_, .present marked signed isFirst areDigits⟩
      simp

theorem number_reads :
    number.Reads fun value word => word = value ∧ IsNumber word := by
  apply (Reads.optional _).bind
  intro sign
  apply integer_reads.bind
  intro whole
  apply (Reads.refuse _).bind
  intro _
  apply fraction_reads.bind
  intro fraction
  apply exponent_reads.bind
  intro exponent
  apply (Reads.pure _).mono
  rintro value word ⟨rfl, rfl⟩ fifth ⟨rfl, isExponent⟩ fourth
    ⟨rfl, isFraction⟩ third rfl second ⟨rfl, isInteger⟩ first ⟨rfl, isSign⟩
  have signed : first = [] ∨ first = [45] := by
    rcases isSign with rfl | ⟨byte, isByte, rfl⟩
    · exact .inl rfl
    · rw [beq_iff_eq.mp isByte]
      exact .inr rfl
  have isNumber := IsNumber.number signed isInteger isFraction isExponent
  simp only [List.append_nil, List.nil_append, List.append_assoc] at isNumber ⊢
  exact ⟨trivial, isNumber⟩

theorem hex_reads (remaining : Nat) :
    (hex remaining).Reads fun value word => word = value ∧
      word.length = remaining ∧ ∀ byte ∈ word, isxdigit byte = true := by
  induction remaining with
  | zero =>
      apply (Reads.pure _).mono
      rintro value word ⟨rfl, rfl⟩
      exact ⟨rfl, rfl, List.forall_mem_nil _⟩
  | succ remaining induction =>
      have someDigit : isxdigit 48 = true := by decide
      apply (Reads.expect _ someDigit).bind
      intro first
      apply induction.bind
      intro rest
      apply (Reads.pure _).mono
      rintro value word ⟨rfl, rfl⟩ back ⟨rfl, long, areHex⟩ front
        ⟨isFirst, rfl⟩
      simp only [List.append_nil, List.singleton_append]
      exact ⟨trivial, by rw [List.length_cons, long],
        List.forall_mem_cons.mpr ⟨isFirst, areHex⟩⟩

theorem escape_reads : escape.Reads fun value word =>
    value = 92 :: word ∧ ∀ {rest}, IsText rest → IsText (value ++ rest) := by
  have someEscape : (isEscape 34 || (34 : UInt8) == 117) = true := by decide
  apply (Reads.expect (fun byte => isEscape byte || byte == 117)
    someEscape).bind
  intro byte
  by_cases escaped : isEscape byte = true
  · rw [if_pos escaped]
    apply (Reads.pure _).mono
    rintro value word ⟨rfl, rfl⟩ front ⟨_, rfl⟩
    exact ⟨rfl, fun isText => .escape escaped isText⟩
  · rw [if_neg escaped]
    apply (hex_reads 4).bind
    intro digits
    apply (Reads.pure _).mono
    rintro value word ⟨rfl, rfl⟩ back ⟨rfl, long, areHex⟩ front ⟨fits, rfl⟩
    have isU : byte = 117 := by simpa [escaped] using fits
    rw [isU, List.append_nil]
    exact ⟨rfl, fun isText => .unicode long areHex isText⟩

theorem character_reads (text : Bytes) :
    (character text).Reads fun outcome word =>
      match outcome with
      | .inr value => value = text ∧ word = [34]
      | .inl next => next = text ++ word ∧
          ∀ {rest}, IsText rest → IsText (word ++ rest) := by
  have somePlain : (!iscntrl 34) = true := by decide
  apply (Reads.expect (fun byte => !iscntrl byte) somePlain).bind
  intro byte
  by_cases closes : byte = 34
  · rw [if_pos closes]
    apply (Reads.pure _).mono
    rintro value word ⟨rfl, rfl⟩ front ⟨_, rfl⟩
    rw [closes]
    exact ⟨rfl, rfl⟩
  · rw [if_neg closes]
    by_cases escapes : byte = 92
    · rw [if_pos escapes]
      apply escape_reads.bind
      intro escaped
      apply (Reads.pure _).mono
      rintro value word ⟨rfl, rfl⟩ back ⟨rfl, isEscaped⟩ front ⟨_, rfl⟩
      rw [escapes, List.append_nil]
      exact ⟨rfl, isEscaped⟩
    · rw [if_neg escapes]
      apply (Reads.pure _).mono
      rintro value word ⟨rfl, rfl⟩ front ⟨fits, rfl⟩
      have isPlain : iscntrl byte = false := by simpa using fits
      exact ⟨by simp, fun isText => .plain closes escapes isPlain isText⟩

theorem string_reads : string.Reads fun value word =>
    ∃ before, word = before ++ 34 :: (value ++ [34]) ∧ Blank before ∧
      IsText value := by
  have rounds : ∀ {text value word : Bytes},
      Rounds (fun text outcome word =>
        match outcome with
        | .inr value => value = text ∧ word = [34]
        | .inl next => next = text ++ word ∧
            ∀ {rest}, IsText rest → IsText (word ++ rest)) text value word →
      ∃ body, IsText body ∧ word = body ++ [34] ∧ value = text ++ body := by
    intro text value word taken
    induction taken with
    | leave isLast =>
        obtain ⟨rfl, rfl⟩ := isLast
        exact ⟨[], .empty, rfl, (List.append_nil _).symm⟩
    | again isRound _ induction =>
        obtain ⟨rfl, extends_⟩ := isRound
        obtain ⟨body, isText, rfl, rfl⟩ := induction
        refine ⟨_, extends_ isText, ?_, ?_⟩
        · rw [List.append_assoc]
        · rw [List.append_assoc]
  apply blanks_reads.bind
  intro _
  apply (expect_reads 34).bind
  intro _
  have leaves : ∀ text : Bytes, ∃ value word,
      (fun outcome word => match outcome with
        | .inr value => value = text ∧ word = [34]
        | .inl next => next = text ++ word ∧
            ∀ {rest}, IsText rest → IsText (word ++ rest))
        (Sum.inr value : Bytes ⊕ Bytes) word := fun text => ⟨text, [34], rfl, rfl⟩
  apply (Reads.forever character_reads leaves []).mono
  rintro value word taken second rfl first ⟨rfl, isBlank⟩
  obtain ⟨body, isText, rfl, rfl⟩ := rounds taken
  exact ⟨_, rfl, isBlank, isText⟩

theorem specific_reads (text : Bytes) :
    (specific text).Reads fun _ word => word = text := by
  induction text with
  | nil =>
      apply (Reads.pure _).mono
      rintro value word ⟨_, rfl⟩
      rfl
  | cons expected text induction =>
      apply (expect_reads expected).bind
      intro _
      apply induction.mono
      rintro value word rfl front rfl
      rfl

section

variable {Double : Type} {atof : Bytes → Double}
  {value : Reader UInt8 (Json Double)}

theorem pair_reads
    (reads : value.Reads fun json word => Derives atof (.element json) word) :
    (pair value).Reads fun member word =>
      Derives atof (.pair member.1 member.2) word := by
  apply string_reads.bind
  intro key
  apply blanks_reads.bind
  intro _
  apply (specific_reads (ascii ":")).bind
  intro _
  apply reads.bind
  intro json
  apply (Reads.pure _).mono
  rintro member word ⟨rfl, rfl⟩ text derives colon rfl after ⟨rfl, isAfter⟩
    front ⟨before, rfl, isBefore, isKey⟩
  have isPair := Derives.pair isBefore isKey isAfter derives
  simpa [ascii] using isPair

/-- The pairs that follow the first one, up to the closing brace. -/
theorem pairs_of_rounds {members final : List (Bytes × Json Double)}
    {word : Bytes}
    (taken : Rounds (fun members outcome word =>
      match outcome with
      | .inr final => final = members ∧ word = [125]
      | .inl next => ∃ key json text, next = insertMember key json members ∧
          word = 44 :: text ∧ Derives atof (.pair key json) text)
      members final word) :
    (final = members ∧ word = [125]) ∨
      ∃ pairs text, final = insertPairs members pairs ∧
        word = 44 :: (text ++ [125]) ∧ Derives atof (.pairs pairs) text := by
  induction taken with
  | leave isLast => exact .inl isLast
  | again isRound _ induction =>
      obtain ⟨key, json, text, rfl, rfl, isPair⟩ := isRound
      rcases induction with ⟨rfl, rfl⟩ | ⟨pairs, rest, rfl, rfl, arePairs⟩
      · exact .inr ⟨[(key, json)], text, rfl, rfl, .onePair isPair⟩
      · refine .inr ⟨(key, json) :: pairs, text ++ 44 :: rest, rfl, ?_,
          .morePairs isPair arePairs⟩
        simp

theorem nextPair_reads
    (reads : value.Reads fun json word => Derives atof (.element json) word)
    (members : List (Bytes × Json Double)) :
    (nextPair value members).Reads fun outcome word =>
      match outcome with
      | .inr final => final = members ∧ word = [125]
      | .inl next => ∃ key json text, next = insertMember key json members ∧
          word = 44 :: text ∧ Derives atof (.pair key json) text := by
  have someByte : ((125 : UInt8) == 125 || (125 : UInt8) == 44) = true := rfl
  apply (Reads.expect (fun byte => byte == 125 || byte == 44) someByte).bind
  intro byte
  by_cases closes : byte = 125
  · rw [if_pos closes]
    apply (Reads.pure _).mono
    rintro outcome word ⟨rfl, rfl⟩ front ⟨_, rfl⟩
    rw [closes]
    exact ⟨rfl, rfl⟩
  · rw [if_neg closes]
    apply (pair_reads reads).bind
    intro member
    apply (Reads.pure _).mono
    rintro outcome word ⟨rfl, rfl⟩ text isPair front ⟨fits, rfl⟩
    have isComma : byte = 44 := by simpa [closes] using fits
    rw [isComma, List.append_nil]
    exact ⟨member.1, member.2, text, rfl, rfl, isPair⟩

theorem object_reads
    (reads : value.Reads fun json word => Derives atof (.element json) word) :
    (object value).Reads fun json word => Derives atof (.value json) word := by
  apply (expect_reads 123).bind
  intro _
  apply blanks_reads.bind
  intro _
  apply (Reads.optional _).bind
  intro closed
  by_cases open_ : closed = []
  · rw [if_neg (not_not.mpr open_)]
    apply (pair_reads reads).bind
    intro first
    have leaves : ∀ members : List (Bytes × Json Double), ∃ final word,
        (fun outcome word => match outcome with
          | .inr final => final = members ∧ word = [125]
          | .inl next => ∃ key json text,
              next = insertMember key json members ∧ word = 44 :: text ∧
                Derives atof (.pair key json) text)
          (Sum.inr final : List (Bytes × Json Double) ⊕
            List (Bytes × Json Double)) word :=
      fun members => ⟨members, [125], rfl, rfl⟩
    apply (Reads.forever (nextPair_reads reads) leaves _).bind
    intro members
    apply (Reads.pure _).mono
    rintro json word ⟨rfl, rfl⟩ rest taken text isPair third ⟨rfl, _⟩ second
      ⟨rfl, isBlank⟩ front rfl
    have isFirst : ∀ {tail : Bytes}, Derives atof (.pair first.1 first.2) text →
        Derives atof (.pair first.1 first.2) (second ++ text) := by
      intro tail derives
      cases derives with
      | pair isBefore isKey isAfter isElement =>
          have longer : Blank (second ++ _) :=
            List.forall_mem_append.mpr ⟨isBlank, isBefore⟩
          have isPair := Derives.pair longer isKey isAfter isElement
          simpa using isPair
    have begins := @isFirst [] isPair
    rw [open_]
    rcases pairs_of_rounds taken with ⟨rfl, rfl⟩ | ⟨pairs, tail, rfl, rfl, arePairs⟩
    · have isObject := Derives.object (.onePair begins)
      simpa [insertPairs] using isObject
    · have isObject := Derives.object (.morePairs begins arePairs)
      simpa [insertPairs] using isObject
  · rw [if_pos open_]
    apply (Reads.pure _).mono
    rintro json word ⟨rfl, rfl⟩ third ⟨rfl, isEmpty | ⟨byte, isClose, rfl⟩⟩
      second ⟨rfl, isBlank⟩ front rfl
    · exact absurd isEmpty open_
    · rw [beq_iff_eq.mp isClose]
      have isObject : Derives atof _ _ := .emptyObject isBlank
      simpa using isObject

/-- The items that follow the first one, up to the closing bracket. -/
theorem items_of_rounds {items final : List (Json Double)} {word : Bytes}
    (taken : Rounds (fun items outcome word =>
      match outcome with
      | .inr final => final = items ∧ word = [93]
      | .inl next => ∃ json text, next = items ++ [json] ∧
          word = 44 :: text ∧ Derives atof (.element json) text)
      items final word) :
    (final = items ∧ word = [93]) ∨
      ∃ more text, final = items ++ more ∧ word = 44 :: (text ++ [93]) ∧
        Derives atof (.items more) text := by
  induction taken with
  | leave isLast => exact .inl isLast
  | again isRound _ induction =>
      obtain ⟨json, text, rfl, rfl, isElement⟩ := isRound
      rcases induction with ⟨rfl, rfl⟩ | ⟨more, rest, rfl, rfl, areItems⟩
      · exact .inr ⟨[json], text, rfl, rfl, .oneItem isElement⟩
      · refine .inr ⟨json :: more, text ++ 44 :: rest, ?_, ?_,
          .moreItems isElement areItems⟩
        · simp
        · simp

theorem nextItem_reads
    (reads : value.Reads fun json word => Derives atof (.element json) word)
    (items : List (Json Double)) :
    (nextItem value items).Reads fun outcome word =>
      match outcome with
      | .inr final => final = items ∧ word = [93]
      | .inl next => ∃ json text, next = items ++ [json] ∧
          word = 44 :: text ∧ Derives atof (.element json) text := by
  have someByte : ((93 : UInt8) == 93 || (93 : UInt8) == 44) = true := rfl
  apply (Reads.expect (fun byte => byte == 93 || byte == 44) someByte).bind
  intro byte
  by_cases closes : byte = 93
  · rw [if_pos closes]
    apply (Reads.pure _).mono
    rintro outcome word ⟨rfl, rfl⟩ front ⟨_, rfl⟩
    rw [closes]
    exact ⟨rfl, rfl⟩
  · rw [if_neg closes]
    apply reads.bind
    intro json
    apply (Reads.pure _).mono
    rintro outcome word ⟨rfl, rfl⟩ text isElement front ⟨fits, rfl⟩
    have isComma : byte = 44 := by simpa [closes] using fits
    rw [isComma, List.append_nil]
    exact ⟨json, text, rfl, rfl, isElement⟩

theorem array_reads
    (reads : value.Reads fun json word => Derives atof (.element json) word) :
    (array value).Reads fun json word => Derives atof (.value json) word := by
  apply (expect_reads 91).bind
  intro _
  apply blanks_reads.bind
  intro _
  apply (Reads.optional _).bind
  intro closed
  by_cases open_ : closed = []
  · rw [if_neg (not_not.mpr open_)]
    apply reads.bind
    intro first
    have leaves : ∀ items : List (Json Double), ∃ final word,
        (fun outcome word => match outcome with
          | .inr final => final = items ∧ word = [93]
          | .inl next => ∃ json text, next = items ++ [json] ∧
              word = 44 :: text ∧ Derives atof (.element json) text)
          (Sum.inr final : List (Json Double) ⊕ List (Json Double)) word :=
      fun items => ⟨items, [93], rfl, rfl⟩
    apply (Reads.forever (nextItem_reads reads) leaves _).bind
    intro items
    apply (Reads.pure _).mono
    rintro json word ⟨rfl, rfl⟩ rest taken text isElement third ⟨rfl, _⟩
      second ⟨rfl, isBlank⟩ front rfl
    have begins : Derives atof (.element first) (second ++ text) := by
      cases isElement with
      | element isBefore isValue isAfter =>
          have longer : Blank (second ++ _) :=
            List.forall_mem_append.mpr ⟨isBlank, isBefore⟩
          have isElement := Derives.element longer isValue isAfter
          simpa using isElement
    rw [open_]
    rcases items_of_rounds taken with ⟨rfl, rfl⟩ | ⟨more, tail, rfl, rfl, areItems⟩
    · have isArray := Derives.array (.oneItem begins)
      simpa using isArray
    · have isArray := Derives.array (.moreItems begins areItems)
      simpa using isArray
  · rw [if_pos open_]
    apply (Reads.pure _).mono
    rintro json word ⟨rfl, rfl⟩ third ⟨rfl, isEmpty | ⟨byte, isClose, rfl⟩⟩
      second ⟨rfl, isBlank⟩ front rfl
    · exact absurd isEmpty open_
    · rw [beq_iff_eq.mp isClose]
      have isArray : Derives atof _ _ := .emptyArray isBlank
      simpa using isArray

/-- Blanks may stand in front of a value, since `ConsumeString` skips them. -/
theorem ofKind_reads
    (reads : value.Reads fun json word => Derives atof (.element json) word)
    (kind : Parser.Kind) :
    (ofKind atof value kind).Reads fun json word =>
      ∃ before text, word = before ++ text ∧ Blank before ∧
        Derives atof (.value json) text := by
  have bare {json : Json Double} {word : Bytes}
      (derives : Derives atof (.value json) word) :
      ∃ before text, word = before ++ text ∧ Blank before ∧
        Derives atof (.value json) text :=
    ⟨[], word, rfl, Blank.nil, derives⟩
  cases kind with
  | number =>
      apply number_reads.bind
      intro text
      apply (Reads.pure _).mono
      rintro json word ⟨rfl, rfl⟩ front ⟨rfl, isNumber⟩
      rw [List.append_nil]
      exact bare (.number isNumber)
  | string =>
      apply string_reads.bind
      intro text
      apply (Reads.pure _).mono
      rintro json word ⟨rfl, rfl⟩ front ⟨before, rfl, isBlank, isText⟩
      rw [List.append_nil]
      exact ⟨before, _, rfl, isBlank, .string isText⟩
  | bool =>
      apply Reads.peek.bind
      intro first
      by_cases isTrue : first = some 116
      · rw [if_pos isTrue]
        apply (specific_reads _).bind
        intro _
        apply (Reads.pure _).mono
        rintro json word ⟨rfl, rfl⟩ second rfl front rfl
        exact bare .true
      · rw [if_neg isTrue]
        apply (specific_reads _).bind
        intro _
        apply (Reads.pure _).mono
        rintro json word ⟨rfl, rfl⟩ second rfl front rfl
        exact bare .false
  | null =>
      apply (specific_reads _).bind
      intro _
      apply (Reads.pure _).mono
      rintro json word ⟨rfl, rfl⟩ front rfl
      exact bare .null
  | object => exact (object_reads reads).mono bare
  | array => exact (array_reads reads).mono bare

theorem bare_reads
    (reads : value.Reads fun json word => Derives atof (.element json) word) :
    (bare atof value).Reads fun json word =>
      ∃ before text, word = before ++ text ∧ Blank before ∧
        Derives atof (.value json) text := by
  apply Reads.peek.bind
  intro first
  apply (ofKind_reads reads _).mono
  rintro json word derives front rfl
  exact derives

theorem element_reads (depth : Nat) :
    (element atof depth).Reads
      fun json word => Derives atof (.element json) word := by
  induction depth with
  | zero =>
      apply Reads.fail
      exact ⟨.null, _, .element Blank.nil .null Blank.nil⟩
  | succ depth induction =>
      apply blanks_reads.bind
      intro _
      apply (bare_reads induction).bind
      intro json
      apply blanks_reads.bind
      intro _
      apply (Reads.pure _).mono
      rintro value word ⟨rfl, rfl⟩ after ⟨rfl, isAfter⟩ second
        ⟨inner, text, rfl, isInner, derives⟩ before ⟨rfl, isBefore⟩
      have longer : Blank (before ++ inner) :=
        List.forall_mem_append.mpr ⟨isBefore, isInner⟩
      have isElement := Derives.element longer derives isAfter
      simpa using isElement

end

end Read

end Natsu.Ggicci
