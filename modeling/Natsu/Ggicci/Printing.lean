import Natsu.Ggicci.Consumers

/-!
# Printing and parsing again

`Json::ToString` prints a string with the escapes that the parser has kept, and
the members of an object in the order of their keys.  What the parser has
accepted is printed to a text that it accepts again.  The value is the same one,
except that each number is what its printed text reads as.
-/

namespace Natsu.Ggicci

open Natsu.Foundation

namespace Json

variable {Double Other : Type}

mutual

/-- `print` is the output of a `double`. -/
def toString (print : Double → Bytes) : Json Double → Bytes
  | .number num => print num
  | .string str => ascii "\"" ++ str ++ ascii "\""
  | .bool boo => if boo then ascii "true" else ascii "false"
  | .null => ascii "null"
  | .object members =>
      ascii "\x7b " ++ membersToString print true members ++ ascii " \x7d"
  | .array items => ascii "[ " ++ itemsToString print true items ++ ascii " ]"

def membersToString (print : Double → Bytes) (unique : Bool) :
    List (Bytes × Json Double) → Bytes
  | [] => []
  | member :: rest =>
      memberToString print unique member ++ membersToString print false rest

def memberToString (print : Double → Bytes) (unique : Bool) :
    Bytes × Json Double → Bytes
  | (key, json) =>
      (if unique then ascii "\"" else ascii ", \"") ++ key ++ ascii "\": " ++
        toString print json

def itemsToString (print : Double → Bytes) (unique : Bool) :
    List (Json Double) → Bytes
  | [] => []
  | json :: rest =>
      (if unique then ascii "" else ascii ", ") ++ toString print json ++
        itemsToString print false rest

end

mutual

/-- The value with other numbers. -/
def map (number : Double → Other) : Json Double → Json Other
  | .number num => .number (number num)
  | .string str => .string str
  | .bool boo => .bool boo
  | .null => .null
  | .object members => .object (mapMembers number members)
  | .array items => .array (mapItems number items)

def mapMembers (number : Double → Other) :
    List (Bytes × Json Double) → List (Bytes × Json Other)
  | [] => []
  | member :: rest => mapMember number member :: mapMembers number rest

def mapMember (number : Double → Other) :
    Bytes × Json Double → Bytes × Json Other
  | (key, json) => (key, map number json)

def mapItems (number : Double → Other) : List (Json Double) → List (Json Other)
  | [] => []
  | json :: rest => map number json :: mapItems number rest

end

/-- All numbers in the value have the property. -/
inductive Numbers (fits : Double → Prop) : Json Double → Prop where
  | number {num : Double} : fits num → Numbers fits (.number num)
  | string (str : Bytes) : Numbers fits (.string str)
  | bool (boo : Bool) : Numbers fits (.bool boo)
  | null : Numbers fits .null
  | object {members : List (Bytes × Json Double)} :
      (∀ member ∈ members, Numbers fits member.2) →
      Numbers fits (.object members)
  | array {items : List (Json Double)} :
      (∀ json ∈ items, Numbers fits json) → Numbers fits (.array items)

/-- The members are in the order of their keys, none twice, and all strings are
such that the parser takes them from between quotes. -/
inductive Clean : Json Double → Prop where
  | number (num : Double) : Clean (.number num)
  | string {str : Bytes} : IsText str → Clean (.string str)
  | bool (boo : Bool) : Clean (.bool boo)
  | null : Clean .null
  | object {members : List (Bytes × Json Double)} :
      members.Pairwise (fun first second => first.1 < second.1) →
      (∀ member ∈ members, IsText member.1) →
      (∀ member ∈ members, Clean member.2) → Clean (.object members)
  | array {items : List (Json Double)} :
      (∀ json ∈ items, Clean json) → Clean (.array items)

/-- The order of the keys of an object. -/
abbrev Ordered {Value : Type} (members : List (Bytes × Value)) : Prop :=
  members.Pairwise fun first second => first.1 < second.1

theorem mem_insertMember {Value : Type} {key : Bytes} {value : Value}
    {members : List (Bytes × Value)} {member : Bytes × Value}
    (isMember : member ∈ insertMember key value members) :
    member = (key, value) ∨ member ∈ members := by
  induction members with
  | nil => exact .inl (List.mem_singleton.mp isMember)
  | cons first rest induction =>
      simp only [insertMember] at isMember
      split at isMember
      · exact .inr isMember
      · split at isMember
        · exact List.mem_cons.mp isMember
        · rcases List.mem_cons.mp isMember with rfl | later
          · exact .inr List.mem_cons_self
          · rcases induction later with same | known
            · exact .inl same
            · exact .inr (List.mem_cons_of_mem _ known)

theorem insertMember_ordered {Value : Type} {key : Bytes} {value : Value}
    {members : List (Bytes × Value)} (ordered : Ordered members) :
    Ordered (insertMember key value members) := by
  induction members with
  | nil => exact List.pairwise_singleton _ _
  | cons first rest induction =>
      obtain ⟨isFirst, restOrdered⟩ := List.pairwise_cons.mp ordered
      simp only [insertMember]
      split
      · exact ordered
      · next different =>
          split
          · next early =>
              apply List.pairwise_cons.mpr
              refine ⟨?_, ordered⟩
              intro member isMember
              rcases List.mem_cons.mp isMember with rfl | later
              · exact early
              · exact List.lt_trans early (isFirst member later)
          · next late =>
              apply List.pairwise_cons.mpr
              refine ⟨?_, induction restOrdered⟩
              intro member isMember
              rcases mem_insertMember isMember with rfl | later
              · apply Std.lt_of_le_of_ne (List.not_lt.mp late)
                exact Ne.symm different
              · exact isFirst member later

/-- A key behind all others goes to the end. -/
theorem insertMember_last {Value : Type} {key : Bytes} {value : Value}
    {members : List (Bytes × Value)}
    (last : ∀ member ∈ members, member.1 < key) :
    insertMember key value members = members ++ [(key, value)] := by
  induction members with
  | nil => rfl
  | cons first rest induction =>
      obtain ⟨isFirst, areOther⟩ := List.forall_mem_cons.mp last
      have different : ¬ key = first.1 := by
        intro same
        rw [same] at isFirst
        exact List.lt_irrefl _ isFirst
      simp only [insertMember]
      rw [if_neg different, if_neg (List.lt_asymm isFirst), induction areOther]
      rfl

theorem insertPairs_ordered {members pairs : List (Bytes × Json Double)}
    (ordered : Ordered (members ++ pairs)) :
    insertPairs members pairs = members ++ pairs := by
  induction pairs generalizing members with
  | nil => exact (List.append_nil members).symm
  | cons pair pairs induction =>
      have last : ∀ member ∈ members, member.1 < pair.1 := by
        intro member isMember
        exact (List.pairwise_append.mp ordered).2.2 member isMember pair
          List.mem_cons_self
      have step : insertPairs members (pair :: pairs) =
          insertPairs (members ++ [pair]) pairs := by
        rw [← insertMember_last last]
        rfl
      rw [List.append_cons] at ordered ⊢
      rw [step, induction ordered]

theorem mem_insertPairs {members pairs : List (Bytes × Json Double)}
    {member : Bytes × Json Double}
    (isMember : member ∈ insertPairs members pairs) :
    member ∈ members ∨ member ∈ pairs := by
  induction pairs generalizing members with
  | nil => exact .inl isMember
  | cons pair pairs induction =>
      rcases induction isMember with early | late
      · rcases mem_insertMember early with rfl | known
        · exact .inr List.mem_cons_self
        · exact .inl known
      · exact .inr (List.mem_cons_of_mem _ late)

theorem insertPairs_keeps {members pairs : List (Bytes × Json Double)}
    (ordered : Ordered members) : Ordered (insertPairs members pairs) := by
  induction pairs generalizing members with
  | nil => exact ordered
  | cons pair pairs induction => exact induction (insertMember_ordered ordered)

/-- A phrase whose values are clean. -/
def CleanPhrase : Phrase Double → Prop
  | .value json => Clean json
  | .element json => Clean json
  | .pair key json => IsText key ∧ Clean json
  | .pairs members => ∀ member ∈ members, IsText member.1 ∧ Clean member.2
  | .items items => ∀ json ∈ items, Clean json

/-- Every text denotes a clean value. -/
theorem derives_clean {atof : Bytes → Double} {phrase : Phrase Double}
    {word : Bytes} (derives : Derives atof phrase word) :
    CleanPhrase phrase := by
  induction derives with
  | number _ => exact .number _
  | string isText => exact .string isText
  | true => exact .bool true
  | false => exact .bool false
  | null => exact .null
  | emptyObject _ =>
      exact .object List.Pairwise.nil (List.forall_mem_nil _)
        (List.forall_mem_nil _)
  | @object members text _ induction =>
      have known : ∀ member ∈ insertPairs [] members, member ∈ members := by
        intro member isMember
        rcases mem_insertPairs isMember with early | late
        · cases early
        · exact late
      apply Clean.object (insertPairs_keeps List.Pairwise.nil)
      · intro member isMember
        exact (induction member (known member isMember)).1
      · intro member isMember
        exact (induction member (known member isMember)).2
  | emptyArray _ => exact .array (List.forall_mem_nil _)
  | array _ induction => exact .array induction
  | element _ _ _ induction => exact induction
  | pair _ isKey _ _ induction => exact ⟨isKey, induction⟩
  | onePair _ induction =>
      intro member isMember
      obtain rfl := List.mem_singleton.mp isMember
      exact induction
  | morePairs _ _ first rest =>
      intro member isMember
      rcases List.mem_cons.mp isMember with rfl | later
      · exact first
      · exact rest member later
  | oneItem _ induction =>
      intro json isItem
      obtain rfl := List.mem_singleton.mp isItem
      exact induction
  | moreItems _ _ first rest =>
      intro json isItem
      rcases List.mem_cons.mp isItem with rfl | later
      · exact first
      · exact rest json later

/-- What the parser gives is clean. -/
theorem parse_clean {atof : Bytes → Double} {json_string : Bytes}
    {json : Json Double}
    (accepted : Parser.parse atof json_string = .ok json) : Clean json :=
  derives_clean ((Parser.parse_eq_ok_iff json_string json).mp accepted)

section

variable {atof : Bytes → Other} {print : Double → Bytes}

/-- The items of an array that is not empty, with the blanks that are printed
around all of them. -/
theorem items_derive (first : Json Double) (rest : List (Json Double))
    (derives : ∀ json ∈ first :: rest, Derives atof
      (.value (json.map fun num => atof (print num))) (json.toString print)) :
    Derives atof
      (.items (mapItems (fun num => atof (print num)) (first :: rest)))
      (32 :: (itemsToString print true (first :: rest) ++ [32])) := by
  have blank : Blank [32] := by
    intro byte isByte
    obtain rfl := List.mem_singleton.mp isByte
    rfl
  induction rest generalizing first with
  | nil =>
      have isElement := Derives.element blank
        (derives first List.mem_cons_self) blank
      have isItem := Derives.oneItem isElement
      simpa [itemsToString, mapItems, ascii] using isItem
  | cons second rest induction =>
      have isElement := Derives.element blank
        (derives first List.mem_cons_self) Blank.nil
      have others := induction second fun json isItem =>
        derives json (List.mem_cons_of_mem _ isItem)
      have areItems := Derives.moreItems isElement others
      simpa [itemsToString, mapItems, ascii] using areItems

theorem pairs_derive (first : Bytes × Json Double)
    (rest : List (Bytes × Json Double))
    (keys : ∀ member ∈ first :: rest, IsText member.1)
    (derives : ∀ member ∈ first :: rest, Derives atof
      (.value (member.2.map fun num => atof (print num)))
      (member.2.toString print)) :
    Derives atof
      (.pairs (mapMembers (fun num => atof (print num)) (first :: rest)))
      (32 :: (membersToString print true (first :: rest) ++ [32])) := by
  have blank : Blank [32] := by
    intro byte isByte
    obtain rfl := List.mem_singleton.mp isByte
    rfl
  induction rest generalizing first with
  | nil =>
      obtain ⟨key, json⟩ := first
      have isElement := Derives.element blank
        (derives (key, json) List.mem_cons_self) blank
      have isPair := Derives.pair blank (keys (key, json) List.mem_cons_self)
        Blank.nil isElement
      have arePairs := Derives.onePair isPair
      simpa [membersToString, memberToString, mapMembers, mapMember, ascii]
        using arePairs
  | cons second rest induction =>
      obtain ⟨key, json⟩ := first
      obtain ⟨next, other⟩ := second
      have isElement := Derives.element blank
        (derives (key, json) List.mem_cons_self) Blank.nil
      have isPair := Derives.pair blank (keys (key, json) List.mem_cons_self)
        Blank.nil isElement
      have others := induction (next, other)
        (fun member isMember => keys member (List.mem_cons_of_mem _ isMember))
        fun member isMember => derives member (List.mem_cons_of_mem _ isMember)
      have arePairs := Derives.morePairs isPair others
      simpa [membersToString, memberToString, mapMembers, mapMember, ascii]
        using arePairs

theorem mapMembers_ordered {number : Double → Other}
    {members : List (Bytes × Json Double)} (ordered : Ordered members) :
    Ordered (mapMembers number members) := by
  have same : mapMembers number members = members.map (mapMember number) := by
    clear ordered
    induction members with
    | nil => rfl
    | cons member rest induction =>
        rw [List.map_cons, ← induction]
        rfl
  rw [same]
  apply List.pairwise_map.mpr
  apply ordered.imp
  rintro ⟨_, _⟩ ⟨_, _⟩ early
  exact early

/-- The printed text denotes the value with the numbers that it reads as. -/
theorem toString_derives {json : Json Double} (clean : Clean json)
    (numbers : Numbers (fun num => IsNumber (print num)) json) :
    Derives atof (.value (json.map fun num => atof (print num)))
      (json.toString print) := by
  induction clean with
  | number num =>
      cases numbers with
      | number isNumber => exact .number isNumber
  | string isText =>
      have isString : Derives atof _ _ := .string isText
      simpa [map, Json.toString, ascii] using isString
  | bool boo =>
      cases boo with
      | false => exact .false
      | true => exact .true
  | null => exact .null
  | @object members ordered keys _ induction =>
      cases numbers with
      | object areNumbers =>
          cases members with
          | nil =>
              have blank : Blank [32, 32] := by
                intro byte isByte
                simp only [List.mem_cons, List.not_mem_nil, or_false,
                  or_self] at isByte
                rw [isByte]
                rfl
              have isObject : Derives atof _ _ := .emptyObject blank
              simpa [map, mapMembers, Json.toString, membersToString, ascii]
                using isObject
          | cons first rest =>
              have arePairs : Derives atof _ _ := pairs_derive first rest keys
                fun member isMember =>
                  induction member isMember (areNumbers member isMember)
              have isObject := Derives.object arePairs
              rw [insertPairs_ordered (mapMembers_ordered ordered)] at isObject
              simpa [map, Json.toString, ascii] using isObject
  | @array items _ induction =>
      cases numbers with
      | array areNumbers =>
          cases items with
          | nil =>
              have blank : Blank [32, 32] := by
                intro byte isByte
                simp only [List.mem_cons, List.not_mem_nil, or_false,
                  or_self] at isByte
                rw [isByte]
                rfl
              have isArray : Derives atof _ _ := .emptyArray blank
              simpa [map, mapItems, Json.toString, itemsToString, ascii]
                using isArray
          | cons first rest =>
              have areItems : Derives atof _ _ := items_derive first rest
                fun json isItem =>
                  induction json isItem (areNumbers json isItem)
              have isArray := Derives.array areItems
              simpa [map, Json.toString, ascii] using isArray

end

theorem nul_not_mem {fits : UInt8 → Bool} {text : Bytes}
    (all : ∀ byte ∈ text, fits byte = true) (refuses : fits 0 = false) :
    (0 : UInt8) ∉ text := by
  intro member
  have isNul := all 0 member
  rw [refuses] at isNul
  cases isNul

theorem number_noNul {text : Bytes} (isNumber : IsNumber text) :
    (0 : UInt8) ∉ text := by
  have noDigit : isdigit 0 = false := rfl
  have later : ∀ {first : UInt8} {rest : Bytes}, isdigit first = true →
      Digits rest → (0 : UInt8) ∉ first :: rest := by
    intro first rest isFirst areDigits
    exact nul_not_mem (List.forall_mem_cons.mpr ⟨isFirst, areDigits⟩) noDigit
  obtain ⟨isSign, isInteger, isFraction, isExponent⟩ := isNumber
  simp only [List.mem_append, not_or]
  refine ⟨⟨⟨?_, ?_⟩, ?_⟩, ?_⟩
  · rcases isSign with rfl | rfl <;> decide
  · cases isInteger with
    | zero => decide
    | digits isFirst _ areDigits => exact later isFirst areDigits
  · cases isFraction with
    | absent => exact List.not_mem_nil
    | present isFirst areDigits =>
        apply List.not_mem_cons_of_ne_of_not_mem (by decide)
        exact later isFirst areDigits
  · cases isExponent with
    | absent => exact List.not_mem_nil
    | present isMark isSign isFirst areDigits =>
        apply List.not_mem_cons_of_ne_of_not_mem
        · rcases isMark with rfl | rfl <;> decide
        · rw [List.mem_append, not_or]
          refine ⟨?_, later isFirst areDigits⟩
          rcases isSign with rfl | rfl | rfl <;> decide

/-- No text that denotes something has a NUL. -/
theorem derives_noNul {atof : Bytes → Double} {phrase : Phrase Double}
    {word : Bytes} (derives : Derives atof phrase word) : (0 : UInt8) ∉ word := by
  have blank : ∀ {text : Bytes}, Blank text → (0 : UInt8) ∉ text :=
    fun isBlank => nul_not_mem isBlank rfl
  induction derives with
  | number isNumber => exact number_noNul isNumber
  | string isText => simp [isText.noNul]
  | true => decide
  | false => decide
  | null => decide
  | emptyObject isBlank => simp [blank isBlank]
  | object _ induction => simp [induction]
  | emptyArray isBlank => simp [blank isBlank]
  | array _ induction => simp [induction]
  | element isBefore _ isAfter induction =>
      simp [blank isBefore, blank isAfter, induction]
  | pair isBefore isKey isAfter _ induction =>
      simp [blank isBefore, blank isAfter, isKey.noNul, induction]
  | onePair _ induction => exact induction
  | morePairs _ _ first rest => simp [first, rest]
  | oneItem _ induction => exact induction
  | moreItems _ _ first rest => simp [first, rest]

/-- What was parsed is printed to a text that is parsed to the same value,
except that its numbers are what they are printed as. -/
theorem parse_toString {atof : Bytes → Double} {print : Double → Bytes}
    {json_string : Bytes} {json : Json Double}
    (accepted : Parser.parse atof json_string = .ok json)
    (numbers : Numbers (fun num => IsNumber (print num)) json) :
    Parser.parse atof (json.toString print) =
      .ok (json.map fun num => atof (print num)) := by
  have derives : Derives atof (.value (json.map fun num => atof (print num)))
      (json.toString print) := toString_derives (parse_clean accepted) numbers
  apply (Parser.parse_eq_ok_iff _ _).mpr
  rw [cstr_eq_self (derives_noNul derives)]
  have isElement := Derives.element Blank.nil derives Blank.nil
  rw [List.append_nil] at isElement
  exact isElement

/-- `{"b":1,"a":true}` is printed with its members in the order of their
keys. -/
theorem parse_toString_object :
    Parser.parse List.length (toString (fun num => List.replicate num 49)
      (.object [(ascii "a", .bool true), (ascii "b", .number 1)])) =
      .ok (.object [(ascii "a", .bool true), (ascii "b", .number 1)]) := by
  have isNumber : IsNumber [49] := .number (.inl rfl)
    (.digits rfl (by decide) Digits.nil) .absent .absent
  have plain : ∀ byte : UInt8, byte ≠ 34 → byte ≠ 92 → iscntrl byte = false →
      IsText [byte] := fun byte other slash printable =>
    .plain other slash printable .empty
  have accepted : Parser.parse List.length
      (ascii "\x7b\"b\":1,\"a\":true\x7d") =
        .ok (.object [(ascii "a", .bool true), (ascii "b", .number 1)]) := by
    apply (Parser.parse_eq_ok_iff _ _).mpr
    have first : Derives List.length _ _ := .pair Blank.nil
      (plain 98 (by decide) (by decide) rfl)
      Blank.nil (.element Blank.nil (.number isNumber) Blank.nil)
    have second : Derives List.length _ _ := .pair Blank.nil
      (plain 97 (by decide) (by decide) rfl) Blank.nil
      (.element Blank.nil .true Blank.nil)
    exact .element Blank.nil (.object (.morePairs first (.onePair second)))
      Blank.nil
  apply parse_toString accepted
  apply Numbers.object
  intro member isMember
  simp only [List.mem_cons, List.not_mem_nil, or_false] at isMember
  rcases isMember with rfl | rfl
  · exact .bool true
  · exact .number isNumber

end Json

end Natsu.Ggicci
