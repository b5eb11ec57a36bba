import Natsu.Foundation.Resumable
import Natsu.Http.Parser
import Natsu.Http.Router

/-!
# What matching copies

`match` copies every matched text to a buffer of 512 bytes, and nothing before
it bounds the path of a request by less.  The copies fit for every set of rules
exactly when the whole subject does.
-/

namespace Natsu.Http

open Natsu.Foundation

namespace PcreRegex

/-- The bytes of a span. -/
def spanText (content : Bytes) (span : Span) : Bytes :=
  (content.drop span.start).take (span.stop - span.start)

section

variable {Rule : Type} (pcre : Pcre Rule)

/-- The matches of a rule that the loop goes over. -/
def Visits (re : Rule) (content : Bytes) (found : Match) : Prop :=
  ∃ state, (matchLoop pcre re content).Passes (0, []) state ∧
    state.1 < content.length ∧ pcre.exec re content state.1 = some found

/-- Every copy stays in `buf` with a NUL behind it, and what is pushed is the
matched text. -/
def CopiesFit (regex : PcreRegex Rule) (content : Bytes) : Prop :=
  ∀ re ∈ regex.pcreArray, ∀ found, Visits pcre re (subject content) found →
    ∀ span, some span ∈ some found.whole :: found.groups →
      span.stop - span.start ≤ 511 ∧
        copied (subject content) (some span) =
          some (spanText (subject content) span)

end

theorem copied_of_fits {content : Bytes} {span : Span}
    (fits : span.stop - span.start < 512) (noNul : (0 : UInt8) ∉ content) :
    copied content (some span) = some (spanText content span) := by
  have clean : (0 : UInt8) ∉ spanText content span := fun member =>
    noNul (List.mem_of_mem_drop (List.mem_of_mem_take member))
  rw [copied, if_pos fits]
  exact congrArg some (cstr_eq_self clean)

theorem length_subject (content : Bytes) :
    ((subject content).length : Int) = max 0 (toInt content.length) := by
  have below : toInt content.length ≤ content.length := by
    unfold toInt
    by_cases small : content.length < 2 ^ 31
    · exact le_of_eq (toInt_of_lt small)
    · have range := toInt_range content.length
      unfold toInt at range
      omega
  rw [subject, List.length_take]
  omega

/-- A rule for texts of any kind: it matches all that is left. -/
def matchRest : Pcre Unit where
  compile _ := some ()
  exec _ subject offset :=
    if offset < subject.length then
      some { whole := { start := offset, stop := subject.length } }
    else none
  whole_spec := by
    intro rule subject offset found executed
    split at executed
    · rename_i inside
      obtain rfl := Option.some.inj executed
      exact ⟨inside, Nat.le_refl _, inside⟩
    · simp at executed
  groups_spec := by
    intro rule subject offset found executed span member
    split at executed
    · obtain rfl := Option.some.inj executed
      simp at member
    · simp at executed

theorem not_copiesFit_matchRest {content : Bytes}
    (long : 512 ≤ (subject content).length) {regex : PcreRegex Unit}
    (ruled : () ∈ regex.pcreArray) : ¬ regex.CopiesFit matchRest content := by
  intro allFit
  have entered : 0 < (subject content).length := by omega
  have executed : matchRest.exec () (subject content) 0 =
      some { whole := { start := 0, stop := (subject content).length } } := by
    simp only [matchRest, if_pos entered]
  have visits : Visits matchRest () (subject content) _ :=
    ⟨(0, []), .refl, entered, executed⟩
  obtain ⟨fits, _⟩ := allFit () ruled _ visits _ List.mem_cons_self
  dsimp only at fits
  omega

/-- The copies fit for all rules exactly when the subject does. -/
theorem copiesFit_iff_subject_fits (text : Bytes) :
    (∀ (Rule : Type) (pcre : Pcre Rule) (regex : PcreRegex Rule),
        regex.CopiesFit pcre (cstr text)) ↔
      toInt (cstr text).length < 512 := by
  have lengthSubject := length_subject (cstr text)
  constructor
  · intro allFit
    by_contra long
    have tooLong : 512 ≤ (subject (cstr text)).length := by omega
    have fits := allFit Unit matchRest
      { pcreArray := [()], pattenArray := [[]] }
    exact not_copiesFit_matchRest tooLong List.mem_cons_self fits
  · intro short Rule pcre regex re _ found visits span member
    obtain ⟨state, _, _, executed⟩ := visits
    have inside := span_inside executed member
    have fits : span.stop - span.start < 512 := by omega
    have noNul : (0 : UInt8) ∉ subject (cstr text) := by
      intro nul
      have isFalse := List.mem_takeWhile_imp (List.mem_of_mem_take nul)
      simp at isFalse
    exact ⟨Nat.le_of_lt_succ fits, copied_of_fits fits noNul⟩

def longPath : Bytes := ascii "/" ++ List.replicate 599 97

def longRequest : Bytes :=
  ascii "GET " ++ longPath ++ ascii " HTTP/1.1\r\n\r\n"

def emptyRouter {Handler : Type} : HttpRouter Unit Handler := {}

/-- The pattern matches a slash and all letters behind it. -/
def wordRouter : HttpRouter Unit Unit :=
  emptyRouter.registerHandler matchRest (ascii "/+") () .GET

/-- A request with a path of 600 bytes is accepted, and routing it copies the
path to the buffer. -/
theorem long_document_overflows :
    ¬ wordRouter.regexGet.CopiesFit matchRest (cstr longPath) ∧
      (({} : HttpParser).parseData longRequest).1 = .ok .success ∧
      ((({} : HttpParser).parseData longRequest).2.req.map
        HttpRequest.document) = some longPath ∧
      ((({} : HttpParser).parseData longRequest).2.req.map fun req =>
        (wordRouter.handle matchRest id req {}).isNone) = some true := by
  have long : 512 ≤ (subject (cstr longPath)).length := by decide +kernel
  have ruled : () ∈ wordRouter.regexGet.pcreArray := by decide +kernel
  exact ⟨not_copiesFit_matchRest long ruled, by decide +kernel⟩

end PcreRegex

end Natsu.Http
