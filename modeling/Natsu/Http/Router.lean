import Natsu.Http.Regex
import Natsu.Http.Request
import Natsu.Http.Response
import Natsu.Http.Text

/-!
# Routing

`HttpRouter` keeps the handlers of a method by their pattern, and beside them
the rules that the patterns compile to.  A request goes to the handler of the
pattern with the longest first match.
-/

namespace Natsu.Http

open Natsu.Foundation

/-- The regular expression of a pattern. -/
def ruleText (pattern : Bytes) : Bytes :=
  let regexStr := ascii "^" ++ pattern
  let r := replaceAll regexStr (ascii "*") (ascii "\\w*")
  let r := replaceAll r (ascii "+") (ascii "\\w+")
  replaceAll r (ascii "\x7b") (ascii "\\w\x7b")

structure HttpRouter (Rule Handler : Type) where
  handleGet : Std.ExtTreeMap Bytes Handler := ∅
  handlePost : Std.ExtTreeMap Bytes Handler := ∅
  regexGet : PcreRegex Rule := {}
  regexPost : PcreRegex Rule := {}

/-- What routing a request comes to: a handler is called with the request and
the response, a call of an empty `std::function` throws, the response is
answered, or nothing happens. -/
inductive Action (Handler : Type) where
  | invoke (handler : Handler)
  | throwBadFunctionCall
  | answer (response : HttpResponse)
  | nothing

namespace HttpRouter

variable {Rule Handler : Type} (pcre : Pcre Rule)

def registerHandler (router : HttpRouter Rule Handler) (pattern : Bytes)
    (h : Handler) : Method → HttpRouter Rule Handler
  | .GET =>
      { router with
        handleGet := router.handleGet.insert pattern h
        regexGet := router.regexGet.addRule pcre pattern (ruleText pattern) }
  | .POST =>
      { router with
        handlePost := router.handlePost.insert pattern h
        regexPost := router.regexPost.addRule pcre pattern (ruleText pattern) }
  | .PUT | .DELETE => router

variable (sort : List MatchResult → List MatchResult)

/-- What the private `handle` does with the results of matching. -/
def choose (h : Std.ExtTreeMap Bytes Handler) (resp : HttpResponse) :
    List MatchResult → Action Handler
  | [] => .answer (resp.respondCode 404)
  | result :: _ =>
      if result.name.length ≠ 0 then
        match h[result.name]? with
        | some handler => .invoke handler
        | none => .throwBadFunctionCall
      else .answer (resp.respondCode 404)

/-- The private `handle`.  There is no result where matching has none. -/
def handleWith (h : Std.ExtTreeMap Bytes Handler) (regex : PcreRegex Rule)
    (req : HttpRequest) (resp : HttpResponse) : Option (Action Handler) :=
  (regex.matchAll pcre sort (cstr req.document)).map (choose h resp)

def handle (router : HttpRouter Rule Handler) (req : HttpRequest)
    (resp : HttpResponse) : Option (Action Handler) :=
  match req.method with
  | some .GET => handleWith pcre sort router.handleGet router.regexGet req resp
  | some .POST =>
      handleWith pcre sort router.handlePost router.regexPost req resp
  | _ => some .nothing

end HttpRouter

/-- A call of `register_handler`. -/
structure Registration (Handler : Type) where
  pattern : Bytes
  handler : Handler
  method : Method

namespace Registration

variable {Rule Handler : Type} (pcre : Pcre Rule)

/-- The router after the calls. -/
def router (registrations : List (Registration Handler)) :
    HttpRouter Rule Handler :=
  registrations.foldl (fun router registration =>
    router.registerHandler pcre registration.pattern registration.handler
      registration.method) {}

/-- The handler that was last registered for a pattern. -/
def latest (registrations : List (Registration Handler)) (method : Method)
    (pattern : Bytes) : Option Handler :=
  (registrations.filter fun registration =>
    registration.method = method ∧ registration.pattern = pattern).getLast?.map
      handler

/-- The rule of a pattern. -/
def rule? (pattern : Bytes) : Option Rule :=
  pcre.compile (cstr (ruleText pattern))

/-- The length of the first match of a pattern. -/
def matchLength (pattern document : Bytes) : Option Nat :=
  (rule? pcre pattern).bind fun re =>
    PcreRegex.firstLength pcre re document

end Registration

/-- A circumflex alone only matches the empty text, which `PCRE_NOTEMPTY` does
not accept. -/
def Pcre.AnchorEmpty {Rule : Type} (pcre : Pcre Rule) : Prop :=
  ∀ re, pcre.compile (ascii "^") = some re →
    ∀ subject offset, pcre.exec re subject offset = none

namespace HttpRouter

variable {Rule Handler : Type} (pcre : Pcre Rule)

/-- The handlers of a method that is routed. -/
def handlers (router : HttpRouter Rule Handler) :
    Method → Std.ExtTreeMap Bytes Handler
  | .GET => router.handleGet
  | .POST => router.handlePost
  | .PUT | .DELETE => ∅

/-- The rules of a method that is routed. -/
def rules (router : HttpRouter Rule Handler) : Method → List (Rule × Bytes)
  | .GET => router.regexGet.pcreArray.zip router.regexGet.pattenArray
  | .POST => router.regexPost.pcreArray.zip router.regexPost.pattenArray
  | .PUT | .DELETE => []

theorem zip_addRule (regex : PcreRegex Rule) (name patten : Bytes) :
    (regex.addRule pcre name patten).pcreArray.zip
        (regex.addRule pcre name patten).pattenArray =
      regex.pcreArray.zip regex.pattenArray ++
        ((pcre.compile (cstr patten)).map (·, name)).toList := by
  unfold PcreRegex.addRule
  split
  · rename_i failed
    simp [failed]
  · rename_i re compiled
    simp [compiled, List.zip_append regex.synced]

variable {pcre}

theorem handlers_register (router : HttpRouter Rule Handler) (pattern : Bytes)
    (handler : Handler) {method : Method}
    (routed : method = .GET ∨ method = .POST) (registered : Method)
    (name : Bytes) :
    ((router.registerHandler pcre pattern handler registered).handlers
        method)[name]? =
      if registered = method ∧ pattern = name then some handler
      else (router.handlers method)[name]? := by
  rcases routed with rfl | rfl <;> cases registered <;>
    simp [registerHandler, handlers, Std.ExtTreeMap.getElem?_insert]

theorem rules_register (router : HttpRouter Rule Handler) (pattern : Bytes)
    (handler : Handler) {method : Method}
    (routed : method = .GET ∨ method = .POST) (registered : Method) :
    (router.registerHandler pcre pattern handler registered).rules method =
      router.rules method ++
        if registered = method then
          ((Registration.rule? pcre pattern).map (·, pattern)).toList
        else [] := by
  rcases routed with rfl | rfl <;> cases registered <;>
    simp [registerHandler, rules, zip_addRule, Registration.rule?]

end HttpRouter

namespace Registration

variable {Rule Handler : Type} {pcre : Pcre Rule}

variable (registrations : List (Registration Handler)) {method : Method}
  (routed : method = .GET ∨ method = .POST)

include routed

variable (pcre) in
/-- The map holds the handler that was registered last. -/
theorem handlers_router (pattern : Bytes) :
    ((router pcre registrations).handlers method)[pattern]? =
      latest registrations method pattern := by
  induction registrations using List.reverseRecOn with
  | nil => rcases routed with rfl | rfl <;> simp [router, HttpRouter.handlers,
      latest]
  | append_singleton registrations last induction =>
      have unfolded : router pcre (registrations ++ [last]) =
          (router pcre registrations).registerHandler pcre last.pattern
            last.handler last.method := by
        simp [router]
      rw [unfolded, HttpRouter.handlers_register _ _ _ routed, induction]
      by_cases isLast : last.method = method ∧ last.pattern = pattern
      · simp [latest, isLast]
      · rw [if_neg isLast]
        simp [latest, isLast]

variable (pcre) in
/-- The rules are those of the patterns that compile, in order. -/
theorem rules_router :
    (router pcre registrations).rules method =
      (registrations.filter (·.method = method)).filterMap fun registration =>
        (rule? pcre registration.pattern).map (·, registration.pattern) := by
  induction registrations using List.reverseRecOn with
  | nil => rcases routed with rfl | rfl <;> simp [router, HttpRouter.rules]
  | append_singleton registrations last induction =>
      have unfolded : router pcre (registrations ++ [last]) =
          (router pcre registrations).registerHandler pcre last.pattern
            last.handler last.method := by
        simp [router]
      rw [unfolded, HttpRouter.rules_register _ _ _ routed, induction]
      by_cases isMethod : last.method = method
      · cases compiled : rule? pcre last.pattern <;>
          simp [isMethod, compiled]
      · simp [isMethod]

omit routed

/-- The registration has the longest first match of its method. -/
def Longest (pcre : Pcre Rule) (registrations : List (Registration Handler))
    (method : Method) (document : Bytes) (registration : Registration Handler) :
    Prop :=
  registration ∈ registrations ∧ registration.method = method ∧
    ∃ length, matchLength pcre registration.pattern document = some length ∧
      ∀ other ∈ registrations, other.method = method → ∀ otherLength,
        matchLength pcre other.pattern document = some otherLength →
        otherLength ≤ length

/-- A pattern that matches is not empty. -/
theorem pattern_ne_nil (anchor : pcre.AnchorEmpty) {pattern document : Bytes}
    {length : Nat}
    (matched : matchLength pcre pattern document = some length) :
    pattern ≠ [] := by
  rintro rfl
  obtain ⟨re, compiled, isFirst⟩ := Option.bind_eq_some_iff.mp matched
  have isAnchor : cstr (ruleText []) = ascii "^" := by decide
  rw [rule?, isAnchor] at compiled
  simp [PcreRegex.firstLength, anchor re compiled document 0] at isFirst

theorem latest_of_mem {registrations : List (Registration Handler)}
    {registration : Registration Handler}
    (member : registration ∈ registrations) :
    ∃ handler, latest registrations registration.method
      registration.pattern = some handler := by
  have listed : registration ∈ registrations.filter fun other =>
      other.method = registration.method ∧
        other.pattern = registration.pattern :=
    List.mem_filter.mpr ⟨member, by simp⟩
  refine ⟨_, Option.map_eq_some_iff.mpr
    ⟨_, List.getLast?_eq_some_getLast (List.ne_nil_of_mem listed), rfl⟩⟩

/-- The rules of a method are those of the patterns that compile. -/
theorem mem_rules_iff {regex : PcreRegex Rule}
    (isRules : regex.pcreArray.zip regex.pattenArray =
      (registrations.filter (·.method = method)).filterMap fun registration =>
        (rule? pcre registration.pattern).map (·, registration.pattern))
    (rule : Rule × Bytes) :
    rule ∈ regex.pcreArray.zip regex.pattenArray ↔
      ∃ registration ∈ registrations, registration.method = method ∧
        registration.pattern = rule.2 ∧
        rule? pcre registration.pattern = some rule.1 := by
  obtain ⟨re, name⟩ := rule
  rw [isRules, List.mem_filterMap]
  simp only [List.mem_filter, decide_eq_true_iff, Option.map_eq_some_iff,
    Prod.mk.injEq]
  constructor
  · rintro ⟨registration, ⟨member, isMethod⟩, _, compiled, rfl, isName⟩
    exact ⟨registration, member, isMethod, isName, compiled⟩
  · rintro ⟨registration, member, isMethod, isName, compiled⟩
    exact ⟨registration, ⟨member, isMethod⟩, re, compiled, rfl, isName⟩

/-- The private `handle`, for the handlers and rules of a method. -/
theorem handleWith_longest (anchor : pcre.AnchorEmpty)
    {sort : List MatchResult → List MatchResult} (sorts : Sorts sort)
    {h : Std.ExtTreeMap Bytes Handler} {regex : PcreRegex Rule}
    (isHandlers : ∀ pattern, h[pattern]? = latest registrations method pattern)
    (isRules : regex.pcreArray.zip regex.pattenArray =
      (registrations.filter (·.method = method)).filterMap fun registration =>
        (rule? pcre registration.pattern).map (·, registration.pattern))
    (request : HttpRequest) (noNul : (0 : UInt8) ∉ request.document)
    (short : request.document.length < 512) (response : HttpResponse) :
    ((∀ registration ∈ registrations, registration.method = method →
        matchLength pcre registration.pattern request.document = none) ∧
      HttpRouter.handleWith pcre sort h regex request response =
        some (.answer (response.respondCode 404))) ∨
    ∃ registration handler,
      Longest pcre registrations method request.document registration ∧
      latest registrations method registration.pattern = some handler ∧
      HttpRouter.handleWith pcre sort h regex request response =
        some (.invoke handler) := by
  have ruleOf := mem_rules_iff registrations isRules
  obtain ⟨results, matched, isEmpty, isFirst⟩ :=
    PcreRegex.matchAll_spec pcre sorts short noNul regex
  have routes : HttpRouter.handleWith pcre sort h regex request response =
      some (HttpRouter.choose h response results) := by
    rw [HttpRouter.handleWith, cstr_eq_self noNul, matched, Option.map_some]
  cases results with
  | nil =>
      refine .inl ⟨?_, routes⟩
      intro registration member isMethod
      cases compiled : rule? pcre registration.pattern with
      | none => simp [matchLength, compiled]
      | some re =>
          have noMatch := isEmpty.mp rfl (re, registration.pattern)
            ((ruleOf _).mpr ⟨registration, member, isMethod, rfl, compiled⟩)
          simpa [matchLength, compiled] using noMatch
  | cons result others =>
      obtain ⟨⟨re, name⟩, isRule, length, isName, first, longest⟩ :=
        isFirst result rfl
      obtain ⟨registration, member, isMethod, isPattern, compiled⟩ :=
        (ruleOf _).mp isRule
      dsimp only at isName isPattern first compiled
      have isLength : matchLength pcre registration.pattern
          request.document = some length := by
        simp [matchLength, compiled, first]
      have isResult : result.name = registration.pattern :=
        isName.symm.trans isPattern.symm
      obtain ⟨handler, isLatest⟩ := latest_of_mem member
      rw [isMethod] at isLatest
      refine .inr ⟨registration, handler, ⟨member, isMethod, length, isLength,
        ?_⟩, isLatest, ?_⟩
      · intro other otherMember otherMethod otherLength otherMatched
        obtain ⟨otherRe, otherCompiled, otherFirst⟩ :=
          Option.bind_eq_some_iff.mp otherMatched
        exact longest (otherRe, other.pattern)
          ((ruleOf _).mpr ⟨other, otherMember, otherMethod, rfl,
            otherCompiled⟩) otherLength otherFirst
      · have nonempty : result.name.length ≠ 0 := by
          rw [isResult]
          exact mt List.length_eq_zero_iff.mp (pattern_ne_nil anchor isLength)
        rw [routes, HttpRouter.choose, if_pos nonempty, isResult, isHandlers,
          isLatest]

/-- A request goes to the handler that was registered last for a pattern whose
first match is the longest, or is answered with 404 where no pattern
matches. -/
theorem handle_longest (anchor : pcre.AnchorEmpty)
    {sort : List MatchResult → List MatchResult} (sorts : Sorts sort)
    (request : HttpRequest) (isMethod : request.method = some method)
    (routed : method = .GET ∨ method = .POST)
    (noNul : (0 : UInt8) ∉ request.document)
    (short : request.document.length < 512) (response : HttpResponse) :
    ((router pcre registrations).handle pcre sort request response =
        some (.answer (response.respondCode 404)) ↔
      ∀ registration ∈ registrations, registration.method = method →
        matchLength pcre registration.pattern request.document = none) ∧
    ((∃ registration ∈ registrations, registration.method = method ∧
        matchLength pcre registration.pattern request.document ≠ none) →
      ∃ registration handler,
        Longest pcre registrations method request.document registration ∧
        latest registrations method registration.pattern = some handler ∧
        (router pcre registrations).handle pcre sort request response =
          some (.invoke handler)) := by
  have isHandlers := handlers_router pcre registrations routed
  have isRules := rules_router pcre registrations routed
  have outcome : ((∀ registration ∈ registrations,
        registration.method = method →
        matchLength pcre registration.pattern request.document = none) ∧
      (router pcre registrations).handle pcre sort request response =
        some (.answer (response.respondCode 404))) ∨
      ∃ registration handler,
        Longest pcre registrations method request.document registration ∧
        latest registrations method registration.pattern = some handler ∧
        (router pcre registrations).handle pcre sort request response =
          some (.invoke handler) := by
    rcases routed with rfl | rfl
    · simp only [HttpRouter.handle, isMethod]
      exact handleWith_longest registrations anchor sorts isHandlers isRules
        request noNul short response
    · simp only [HttpRouter.handle, isMethod]
      exact handleWith_longest registrations anchor sorts isHandlers isRules
        request noNul short response
  rcases outcome with ⟨noMatch, answered⟩ | ⟨registration, handler, longest,
    isLatest, invoked⟩
  · refine ⟨iff_of_true answered noMatch, ?_⟩
    rintro ⟨registration, member, same, matched⟩
    exact absurd (noMatch registration member same) matched
  · refine ⟨iff_of_false ?_ ?_, fun _ =>
      ⟨registration, handler, longest, isLatest, invoked⟩⟩
    · rw [invoked]
      simp
    · intro noMatch
      obtain ⟨member, same, length, isLength, _⟩ := longest
      simp [noMatch registration member same] at isLength

namespace Example

/-- pcre for expressions that are a circumflex and plain text. -/
def plain : Pcre Bytes where
  compile patten :=
    match patten with
    | 94 :: text => some text
    | _ => none
  exec text subject offset :=
    if offset = 0 ∧ text ≠ [] ∧ text.isPrefixOf subject then
      some { whole := { start := 0, stop := text.length } }
    else none
  whole_spec := by
    intro text subject offset found executed
    split at executed
    · rename_i accepted
      obtain ⟨rfl, nonempty, isPrefix⟩ := accepted
      obtain rfl := Option.some.inj executed
      have inside := (List.isPrefixOf_iff_prefix.mp isPrefix).length_le
      have positive := List.length_pos_iff.mpr nonempty
      exact ⟨positive, inside, positive⟩
    · simp at executed
  groups_spec := by
    intro text subject offset found executed
    split at executed
    · obtain rfl := Option.some.inj executed
      simp
    · simp at executed

theorem plain_anchorEmpty : plain.AnchorEmpty := by
  intro re compiled subject offset
  obtain rfl : [] = re := Option.some.inj compiled
  simp [plain]

def byLength (results : List MatchResult) : List MatchResult :=
  results.mergeSort fun first second =>
    (second.value.headD []).length ≤ (first.value.headD []).length

theorem byLength_sorts : Sorts byLength where
  perm := fun results => List.mergeSort_perm results _
  ordered := by
    intro results
    have sorted : (byLength results).Pairwise fun first second =>
        decide ((second.value.headD []).length ≤
          (first.value.headD []).length) = true := by
      refine List.pairwise_mergeSort ?_ ?_ results
      · intro first second third
        simp only [decide_eq_true_iff]
        omega
      · intro first second
        simp only [Bool.or_eq_true, decide_eq_true_iff]
        omega
    refine sorted.imp ?_
    intro first second inOrder
    simpa [MatchResult.before] using inOrder

def routes : List (Registration Nat) :=
  [⟨ascii "/a", 1, .GET⟩, ⟨ascii "/ab", 2, .GET⟩, ⟨ascii "/abc", 3, .POST⟩,
    ⟨ascii "/ab", 4, .GET⟩]

def lookup : HttpRequest :=
  { method := some .GET, path := ascii "/abc?x=1" }

theorem handle_longest_lookup :
    ∃ registration handler,
      Longest plain routes .GET lookup.document registration ∧
      latest routes .GET registration.pattern = some handler ∧
      (router plain routes).handle plain byLength lookup {} =
        some (.invoke handler) :=
  (handle_longest routes plain_anchorEmpty byLength_sorts lookup rfl (.inl rfl)
    (by decide) (by decide) {}).2
    ⟨⟨ascii "/ab", 2, .GET⟩, by simp [routes], rfl, by decide⟩

end Example

end Registration

end Natsu.Http
