import Natsu.Foundation.CInteger
import Natsu.Foundation.Loop

/-!
# Sets of rules

`PcreRegex` matches a text against every rule and sorts the results by the
length of their first match.  The pcre library is a parameter.
-/

namespace Natsu.Http

open Natsu.Foundation

structure Span where
  start : Nat
  stop : Nat
  deriving DecidableEq

/-- What `pcre_exec` writes to its vector.  A group that takes no part in the
match has no span. -/
structure Match where
  whole : Span
  groups : List (Option Span) := []

/-- `pcre_compile`, and `pcre_exec` with `PCRE_NOTEMPTY`.  A match is not empty,
lies in the subject and ends behind the start offset. -/
structure Pcre (Rule : Type) where
  compile : Bytes → Option Rule
  exec : Rule → Bytes → Nat → Option Match
  whole_spec : ∀ {rule subject offset found},
    exec rule subject offset = some found →
    found.whole.start < found.whole.stop ∧
      found.whole.stop ≤ subject.length ∧ offset < found.whole.stop
  groups_spec : ∀ {rule subject offset found},
    exec rule subject offset = some found →
    ∀ span, some span ∈ found.groups →
      span.start ≤ span.stop ∧ span.stop ≤ subject.length

structure MatchResult where
  name : Bytes
  value : List Bytes
  deriving DecidableEq

/-- Both arrays of rules have an element for each rule. -/
structure PcreRegex (Rule : Type) where
  pcreArray : List Rule := []
  pattenArray : List Bytes := []
  synced : pcreArray.length = pattenArray.length := by rfl

/-- The comparison of `MatchResultCompare`. -/
def MatchResult.before (first second : MatchResult) : Prop :=
  (second.value.headD []).length < (first.value.headD []).length

/-- `std::sort`: a permutation in which nothing stands behind what it should
precede. -/
structure Sorts (sort : List MatchResult → List MatchResult) : Prop where
  perm : ∀ results, (sort results).Perm results
  ordered : ∀ results, (sort results).Pairwise fun first second =>
    ¬ second.before first

/-- `strncpy` to the cleared `buf`, and `push_back(buf)`.  There is no result
where `buf` does not hold the copy and a NUL. -/
def copied (content : Bytes) : Option Span → Option Bytes
  | none => some []
  | some span =>
      if span.stop - span.start < 512 then
        some (cstr ((content.drop span.start).take (span.stop - span.start)))
      else none

/-- The loop over the spans of a match. -/
def copies (content : Bytes) : List (Option Span) → Option (List Bytes)
  | [] => some []
  | span :: spans =>
      (copied content span).bind fun text =>
        (copies content spans).map (text :: ·)

namespace PcreRegex

variable {Rule : Type} (pcre : Pcre Rule)

def addRule (regex : PcreRegex Rule) (name patten : Bytes) : PcreRegex Rule :=
  match pcre.compile (cstr patten) with
  | none => regex
  | some re =>
      { pcreArray := regex.pcreArray ++ [re]
        pattenArray := regex.pattenArray ++ [name]
        synced := by simp [regex.synced] }

/-- The loop over the matches of one rule, with `cur` and the values so
far. -/
def matchLoop (re : Rule) (content : Bytes) :
    Loop (Nat × List Bytes) (Option (List Bytes)) where
  body state :=
    if state.1 < content.length then
      match pcre.exec re content state.1 with
      | none => .inr (some state.2)
      | some found =>
          match copies content (some found.whole :: found.groups) with
          | none => .inr none
          | some texts => .inl (found.whole.stop, state.2 ++ texts)
    else .inr (some state.2)
  measure state := content.length - state.1
  decreases := by
    intro state next round
    split at round
    · rename_i before
      split at round
      · simp at round
      · rename_i found executed
        split at round
        · simp at round
        · obtain rfl := Sum.inl.inj round
          have advances := (pcre.whole_spec executed).2.2
          dsimp only
          omega
    · simp at round

/-- The loop over the rules. -/
def matchRules (content : Bytes) :
    List (Rule × Bytes) → Option (List MatchResult)
  | [] => some []
  | (re, name) :: rules =>
      ((matchLoop pcre re content).run (0, [])).bind fun value =>
        (matchRules content rules).map fun results =>
          if value.length > 0 then
            { name := name, value := value } :: results
          else results

/-- The subject of `pcre_exec`: `strlen(content)` is taken as an `int`, and no
loop is entered where that is negative. -/
def subject (content : Bytes) : Bytes :=
  content.take (toInt content.length).toNat

/-- `match`. -/
def matchAll (sort : List MatchResult → List MatchResult)
    (regex : PcreRegex Rule) (content : Bytes) : Option (List MatchResult) :=
  (matchRules pcre (subject content)
    (regex.pcreArray.zip regex.pattenArray)).map sort

/-- The length of the first match of a rule. -/
def firstLength (re : Rule) (content : Bytes) : Option Nat :=
  (pcre.exec re content 0).map fun found =>
    found.whole.stop - found.whole.start

variable {pcre} {content : Bytes}

theorem subject_of_short (short : content.length < 512) :
    subject content = content := by
  rw [subject, toInt_of_lt (by omega), Int.toNat_natCast, List.take_length]

theorem copies_of_short (short : content.length < 512)
    {spans : List (Option Span)}
    (inside : ∀ span, some span ∈ spans →
      span.start ≤ span.stop ∧ span.stop ≤ content.length) :
    ∃ texts, copies content spans = some texts := by
  induction spans with
  | nil => exact ⟨[], rfl⟩
  | cons span spans induction =>
      obtain ⟨texts, copiedRest⟩ := induction fun other member =>
        inside other (List.mem_cons_of_mem _ member)
      have first : ∃ text, copied content span = some text := by
        cases span with
        | none => exact ⟨[], rfl⟩
        | some span =>
            have bounds := inside span List.mem_cons_self
            have fits : span.stop - span.start < 512 := by omega
            exact ⟨_, if_pos fits⟩
      obtain ⟨text, isText⟩ := first
      exact ⟨text :: texts, by simp [copies, isText, copiedRest]⟩

theorem span_inside {re : Rule} {offset : Nat} {found : Match}
    (executed : pcre.exec re content offset = some found) {span : Span}
    (member : some span ∈ some found.whole :: found.groups) :
    span.start ≤ span.stop ∧ span.stop ≤ content.length := by
  rcases List.mem_cons.mp member with isWhole | isGroup
  · obtain rfl := Option.some.inj isWhole
    obtain ⟨nonempty, inside, _⟩ := pcre.whole_spec executed
    exact ⟨Nat.le_of_lt nonempty, inside⟩
  · exact pcre.groups_spec executed span isGroup

theorem copies_of_exec (short : content.length < 512) {re : Rule}
    {offset : Nat} {found : Match}
    (executed : pcre.exec re content offset = some found) :
    ∃ texts, copies content (some found.whole :: found.groups) =
      some texts :=
  copies_of_short short fun _ member => span_inside executed member

variable (pcre) in
/-- The loop only adds to the values. -/
theorem matchLoop_run (short : content.length < 512) (re : Rule)
    (state : Nat × List Bytes) :
    ∃ more, (matchLoop pcre re content).run state =
      some (state.2 ++ more) := by
  refine (matchLoop pcre re content).induct (motive := fun state =>
    ∃ more, (matchLoop pcre re content).run state =
      some (state.2 ++ more)) ?_ state
  intro state induction
  cases round : (matchLoop pcre re content).body state with
  | inl next =>
      rw [(matchLoop pcre re content).run_next round]
      obtain ⟨more, isRun⟩ := induction next round
      simp only [matchLoop] at round
      split at round
      · split at round
        · simp at round
        · split at round
          · simp at round
          · rename_i texts _
            obtain rfl := Sum.inl.inj round
            exact ⟨texts ++ more, by rw [isRun, List.append_assoc]⟩
      · simp at round
  | inr result =>
      rw [(matchLoop pcre re content).run_leave round]
      refine ⟨[], ?_⟩
      simp only [matchLoop] at round
      rw [List.append_nil]
      split at round
      · split at round
        · exact (Sum.inr.inj round).symm
        · rename_i found executed
          obtain ⟨texts, isCopied⟩ := copies_of_exec short executed
          simp [isCopied] at round
      · exact (Sum.inr.inj round).symm

variable (pcre) in
/-- The first value of a rule is its first match. -/
theorem matchLoop_first (short : content.length < 512)
    (noNul : (0 : UInt8) ∉ content) (re : Rule) :
    ∃ value, (matchLoop pcre re content).run (0, []) = some value ∧
      value.head?.map List.length = firstLength pcre re content := by
  cases executed : pcre.exec re content 0 with
  | none =>
      refine ⟨[], (matchLoop pcre re content).run_leave ?_, ?_⟩
      · simp [matchLoop, executed]
      · simp [firstLength, executed]
  | some found =>
      obtain ⟨nonempty, inside, _⟩ := pcre.whole_spec executed
      obtain ⟨texts, isCopied⟩ := copies_of_exec short executed
      have round : (matchLoop pcre re content).body (0, []) =
          .inl (found.whole.stop, texts) := by
        have entered : 0 < content.length := by omega
        simp [matchLoop, executed, isCopied, entered]
      obtain ⟨more, isRun⟩ :=
        matchLoop_run pcre short re (found.whole.stop, texts)
      refine ⟨texts ++ more,
        ((matchLoop pcre re content).run_next round).trans isRun, ?_⟩
      have fits : found.whole.stop - found.whole.start < 512 := by omega
      have clean : (0 : UInt8) ∉ (content.drop found.whole.start).take
          (found.whole.stop - found.whole.start) := fun member =>
        noNul (List.mem_of_mem_drop (List.mem_of_mem_take member))
      simp only [copies, copied, if_pos fits, cstr_eq_self clean,
        Option.bind_some] at isCopied
      obtain ⟨others, _, rfl⟩ := Option.map_eq_some_iff.mp isCopied
      simp only [List.cons_append, List.head?_cons, Option.map_some,
        firstLength, executed, List.length_take, List.length_drop,
        Option.some.injEq]
      omega

/-- The name of a result and the length of its first value. -/
def summary (result : MatchResult) : Bytes × Nat :=
  (result.name, (result.value.headD []).length)

variable (pcre) in
/-- The results are those of the rules that match, in order. -/
theorem matchRules_spec (short : content.length < 512)
    (noNul : (0 : UInt8) ∉ content) (rules : List (Rule × Bytes)) :
    ∃ results, matchRules pcre content rules = some results ∧
      results.map summary = rules.filterMap fun rule =>
        (firstLength pcre rule.1 content).map (rule.2, ·) := by
  induction rules with
  | nil => exact ⟨[], rfl, rfl⟩
  | cons rule rules induction =>
      obtain ⟨re, name⟩ := rule
      obtain ⟨results, isRest, summarised⟩ := induction
      obtain ⟨value, isValue, first⟩ := matchLoop_first pcre short noNul re
      cases value with
      | nil =>
          have noMatch : firstLength pcre re content = none := first.symm
          refine ⟨results, ?_, ?_⟩
          · simp [matchRules, isValue, isRest]
          · simp [summarised, noMatch]
      | cons text texts =>
          have isFirst : firstLength pcre re content = some text.length :=
            first.symm
          refine ⟨{ name := name, value := text :: texts } :: results, ?_, ?_⟩
          · simp [matchRules, isValue, isRest]
          · simp [summarised, isFirst, summary]

variable (pcre) in
/-- The first result is a longest first match. -/
theorem matchAll_spec {sort : List MatchResult → List MatchResult}
    (sorts : Sorts sort) (short : content.length < 512)
    (noNul : (0 : UInt8) ∉ content) (regex : PcreRegex Rule) :
    ∃ results, matchAll pcre sort regex content = some results ∧
      (results = [] ↔ ∀ rule ∈ regex.pcreArray.zip regex.pattenArray,
        firstLength pcre rule.1 content = none) ∧
      ∀ result ∈ results.head?,
        ∃ rule ∈ regex.pcreArray.zip regex.pattenArray, ∃ length,
          rule.2 = result.name ∧
          firstLength pcre rule.1 content = some length ∧
          ∀ other ∈ regex.pcreArray.zip regex.pattenArray, ∀ otherLength,
            firstLength pcre other.1 content = some otherLength →
            otherLength ≤ length := by
  obtain ⟨unsorted, isMatched, summarised⟩ :=
    matchRules_spec pcre short noNul (regex.pcreArray.zip regex.pattenArray)
  have listed : ∀ name length, (name, length) ∈ unsorted.map summary ↔
      ∃ rule ∈ regex.pcreArray.zip regex.pattenArray, rule.2 = name ∧
        firstLength pcre rule.1 content = some length := by
    intro name length
    rw [summarised, List.mem_filterMap]
    refine exists_congr fun rule => and_congr_right fun _ => ?_
    cases firstLength pcre rule.1 content with
    | none => simp
    | some found => simp
  have perm := sorts.perm unsorted
  refine ⟨sort unsorted,
    by simp [matchAll, subject_of_short short, isMatched], ?_, ?_⟩
  · rw [← List.length_eq_zero_iff, perm.length_eq, List.length_eq_zero_iff]
    constructor
    · rintro rfl rule member
      cases isFirst : firstLength pcre rule.1 content with
      | none => rfl
      | some length =>
          have absent := (listed rule.2 length).mpr ⟨rule, member, rfl, isFirst⟩
          simp at absent
    · intro noMatch
      apply List.map_eq_nil_iff.mp
      rw [summarised]
      apply List.filterMap_eq_nil_iff.mpr
      intro rule member
      rw [noMatch rule member]
      rfl
  · intro result isHead
    cases sorted : sort unsorted with
    | nil => simp [sorted] at isHead
    | cons first others =>
        obtain rfl : first = result := by simpa [sorted] using isHead
        have ordered := sorts.ordered unsorted
        rw [sorted] at perm ordered
        have mine : summary first ∈ unsorted.map summary :=
          List.mem_map_of_mem (perm.subset List.mem_cons_self)
        obtain ⟨rule, member, isName, isFirst⟩ :=
          (listed first.name (first.value.headD []).length).mp mine
        refine ⟨rule, member, _, isName, isFirst, ?_⟩
        intro other otherMember otherLength otherFirst
        have theirs := (listed other.2 otherLength).mpr
          ⟨other, otherMember, rfl, otherFirst⟩
        obtain ⟨found, isFound, isSummary⟩ := List.mem_map.mp theirs
        obtain ⟨_, rfl⟩ := Prod.mk.inj isSummary
        rcases List.mem_cons.mp (perm.symm.subset isFound) with rfl | later
        · exact Nat.le_refl _
        · have notBefore := (List.pairwise_cons.mp ordered).1 found later
          exact Nat.not_lt.mp notBefore

end PcreRegex

end Natsu.Http
