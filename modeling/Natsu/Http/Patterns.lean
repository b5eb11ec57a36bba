import Natsu.Http.Router

/-!
# The rule of a pattern

`register_handler` replaces three characters of a pattern one after another.
Each of them is put back by its own pass only, so that the passes together are
one substitution, and their order does not matter.
-/

namespace Natsu.Http

open Natsu.Foundation

/-- Replace every byte of a set. -/
def replaceByte (set repStr : Bytes) (byte : UInt8) : Bytes :=
  if byte ∈ set then repStr else [byte]

/-- The passes of `register_handler`, in its order. -/
def passes : List (Bytes × Bytes) :=
  [(ascii "*", ascii "\\w*"), (ascii "+", ascii "\\w+"),
    (ascii "\x7b", ascii "\\w\x7b")]

def applyPasses (text : Bytes) (order : List (Bytes × Bytes)) : Bytes :=
  order.foldl (fun r pass => replaceAll r pass.1 pass.2) text

/-- What one byte of a pattern becomes. -/
def translate (byte : UInt8) : Bytes :=
  if byte = 42 then ascii "\\w*"
  else if byte = 43 then ascii "\\w+"
  else if byte = 123 then ascii "\\w\x7b"
  else [byte]

section Replacing

variable {src set : Bytes}

private theorem flatMap_of_absent {text : Bytes} (repStr : Bytes)
    (absent : ∀ byte ∈ text, byte ∉ set) :
    text.flatMap (replaceByte set repStr) = text := by
  have kept : ∀ byte ∈ text, replaceByte set repStr byte = [byte] :=
    fun byte member => if_neg (absent byte member)
  rw [List.flatMap_congr kept, List.flatMap_singleton']

private theorem replaceLoop_run (repStr : Bytes) (state : Nat × Bytes) :
    (replaceLoop src set repStr).run state =
      state.2 ++ (src.drop state.1).flatMap (replaceByte set repStr) := by
  induction state using (replaceLoop src set repStr).induct with
  | round state induction =>
      cases found : findFirstOf set state.1 src with
      | none =>
          have absent : ∀ byte ∈ src.drop state.1, byte ∉ set := by
            have missing := Option.map_eq_none_iff.mp found
            simpa [List.findIdx?_eq_none_iff] using missing
          have round : (replaceLoop src set repStr).body state =
              .inr (state.2 ++ src.drop state.1) := by
            simp only [replaceLoop, found]
          rw [Loop.run_leave _ round, flatMap_of_absent repStr absent]
      | some pos =>
          have round : (replaceLoop src set repStr).body state =
              .inl (pos + 1, state.2 ++
                (src.drop state.1).take (pos - state.1) ++ repStr) := by
            simp only [replaceLoop, found]
          rw [Loop.run_next _ round, induction _ round]
          obtain ⟨offset, isOffset, rfl⟩ := Option.map_eq_some_iff.mp found
          obtain ⟨inside, isMember, before⟩ :=
            List.findIdx?_eq_some_iff_getElem.mp isOffset
          have split : src.drop state.1 =
              (src.drop state.1).take offset ++
                (src.drop state.1)[offset] ::
                  src.drop (offset + state.1 + 1) := by
            conv_lhs => rw [← List.take_append_drop offset (src.drop state.1)]
            rw [List.drop_eq_getElem_cons inside, List.drop_drop]
            congr 3
            omega
          have absent : ∀ byte ∈ (src.drop state.1).take offset,
              byte ∉ set := by
            intro byte member
            obtain ⟨index, bound, rfl⟩ := List.mem_iff_getElem.mp member
            rw [List.length_take] at bound
            rw [List.getElem_take]
            simpa using before index (by omega)
          have replaced : replaceByte set repStr (src.drop state.1)[offset] =
              repStr := if_pos (of_decide_eq_true isMember)
          conv_rhs => rw [split]
          rw [Nat.add_sub_cancel, List.flatMap_append, List.flatMap_cons,
            flatMap_of_absent repStr absent, replaced]
          simp only [List.append_assoc]

/-- A pass replaces each byte on its own. -/
theorem replaceAll_eq (src set repStr : Bytes) :
    replaceAll src set repStr = src.flatMap (replaceByte set repStr) := by
  rw [replaceAll, replaceLoop_run, List.nil_append, List.drop_zero]

/-- A pass leaves alone what it does not look for. -/
theorem replaceAll_of_absent {text : Bytes} (repStr : Bytes)
    (absent : ∀ byte ∈ text, byte ∉ set) :
    replaceAll text set repStr = text := by
  rw [replaceAll_eq, flatMap_of_absent repStr absent]

theorem replaceAll_append (before after set repStr : Bytes) :
    replaceAll (before ++ after) set repStr =
      replaceAll before set repStr ++ replaceAll after set repStr := by
  simp only [replaceAll_eq, List.flatMap_append]

private theorem replaceByte_twice {first second : Bytes × Bytes}
    (free : ∀ byte ∈ first.2, byte ∉ second.1) (byte : UInt8) :
    (replaceByte first.1 first.2 byte).flatMap
        (replaceByte second.1 second.2) =
      if byte ∈ first.1 then first.2 else
        replaceByte second.1 second.2 byte := by
  by_cases member : byte ∈ first.1
  · rw [replaceByte, if_pos member, if_pos member,
      flatMap_of_absent second.2 free]
  · rw [replaceByte, if_neg member, if_neg member, List.flatMap_singleton]

/-- Two passes commute when neither looks for a byte of the other. -/
theorem replaceAll_comm {first second : Bytes × Bytes}
    (freeFirst : ∀ byte ∈ first.2, byte ∉ second.1)
    (freeSecond : ∀ byte ∈ second.2, byte ∉ first.1)
    (disjoint : ∀ byte ∈ first.1, byte ∉ second.1) (text : Bytes) :
    replaceAll (replaceAll text first.1 first.2) second.1 second.2 =
      replaceAll (replaceAll text second.1 second.2) first.1 first.2 := by
  simp only [replaceAll_eq, List.flatMap_assoc]
  apply List.flatMap_congr
  intro byte _
  rw [replaceByte_twice freeFirst, replaceByte_twice freeSecond]
  by_cases inFirst : byte ∈ first.1
  · rw [if_pos inFirst, if_neg (disjoint byte inFirst), replaceByte,
      if_pos inFirst]
  · rw [if_neg inFirst, replaceByte, replaceByte, if_neg inFirst]

end Replacing

section Passes

private theorem passes_free :
    ∀ earlier ∈ passes, ∀ later ∈ passes, earlier ≠ later →
      (∀ byte ∈ earlier.2, byte ∉ later.1) ∧
        ∀ byte ∈ earlier.1, byte ∉ later.1 := by
  decide +kernel

private theorem applyPasses_perm {order : List (Bytes × Bytes)}
    (isOrder : order.Perm passes) (text : Bytes) :
    applyPasses text order = applyPasses text passes := by
  apply isOrder.foldl_eq'
  intro first inFirst second inSecond text
  have isFirst := isOrder.mem_iff.mp inFirst
  have isSecond := isOrder.mem_iff.mp inSecond
  by_cases same : first = second
  · rw [same]
  · obtain ⟨freeFirst, disjoint⟩ :=
      passes_free first isFirst second isSecond same
    obtain ⟨freeSecond, _⟩ :=
      passes_free second isSecond first isFirst (Ne.symm same)
    exact replaceAll_comm freeFirst freeSecond disjoint text

private theorem translate_eq (byte : UInt8) :
    (replaceByte (ascii "*") (ascii "\\w*") byte).flatMap
        (fun byte => (replaceByte (ascii "+") (ascii "\\w+") byte).flatMap
          (replaceByte (ascii "\x7b") (ascii "\\w\x7b"))) =
      translate byte := by
  unfold translate
  split
  · rename_i isStar
    subst isStar
    decide
  · rename_i notStar
    have kept : replaceByte (ascii "*") (ascii "\\w*") byte = [byte] :=
      if_neg (List.not_mem_cons_of_ne_of_not_mem notStar List.not_mem_nil)
    rw [kept, List.flatMap_singleton]
    split
    · rename_i isPlus
      subst isPlus
      decide
    · rename_i notPlus
      have kept : replaceByte (ascii "+") (ascii "\\w+") byte = [byte] :=
        if_neg (List.not_mem_cons_of_ne_of_not_mem notPlus List.not_mem_nil)
      rw [kept, List.flatMap_singleton]
      exact if_congr List.mem_singleton rfl rfl

/-- The three passes are one substitution. -/
theorem applyPasses_passes (text : Bytes) :
    applyPasses text passes = text.flatMap translate := by
  simp only [applyPasses, passes, List.foldl_cons, List.foldl_nil,
    replaceAll_eq, List.flatMap_assoc]
  apply List.flatMap_congr
  intro byte _
  exact translate_eq byte

private theorem nul_notMem_translate {byte : UInt8} (nonzero : byte ≠ 0) :
    0 ∉ translate byte := by
  unfold translate
  split_ifs
  · decide
  · decide
  · decide
  · exact List.not_mem_cons_of_ne_of_not_mem nonzero.symm List.not_mem_nil

theorem ruleText_eq (pattern : Bytes) :
    ruleText pattern = ascii "^" ++ pattern.flatMap translate :=
  applyPasses_passes (ascii "^" ++ pattern)

/-- The rule that `register_handler` compiles has each character of the
pattern translated on its own.  A pass leaves alone what another has inserted,
wherever it stands, and in any order the passes come to the same text. -/
theorem registerHandler_simultaneous {Rule Handler : Type} (pcre : Pcre Rule)
    (router : HttpRouter Rule Handler) (pattern : Bytes) (handler : Handler) :
    ruleText pattern = ascii "^" ++ pattern.flatMap translate ∧
      (∀ method, method = .GET ∨ method = .POST →
        (router.registerHandler pcre pattern handler method).rules method =
          router.rules method ++
            ((pcre.compile
              (cstr (ascii "^" ++ pattern.flatMap translate))).map
                (·, pattern)).toList) ∧
      (0 ∉ pattern →
        cstr (ascii "^" ++ pattern.flatMap translate) =
          ascii "^" ++ pattern.flatMap translate) ∧
      (∀ earlier ∈ passes, ∀ later ∈ passes, earlier ≠ later →
        ∀ before after,
          replaceAll (before ++ earlier.2 ++ after) later.1 later.2 =
            replaceAll before later.1 later.2 ++ earlier.2 ++
              replaceAll after later.1 later.2) ∧
      ∀ order, order.Perm passes →
        applyPasses (ascii "^" ++ pattern) order = ruleText pattern := by
  refine ⟨ruleText_eq pattern, ?_, ?_, ?_, ?_⟩
  · intro method routed
    rw [HttpRouter.rules_register router pattern handler routed method,
      if_pos rfl, Registration.rule?, ruleText_eq]
  · intro noNul
    apply cstr_eq_self
    intro isNul
    rcases List.mem_append.mp isNul with inAnchor | translated
    · exact absurd inAnchor (by decide)
    · obtain ⟨byte, member, isByte⟩ := List.mem_flatMap.mp translated
      exact nul_notMem_translate (ne_of_mem_of_not_mem member noNul) isByte
  · intro earlier inEarlier later inLater distinct before after
    obtain ⟨free, _⟩ := passes_free earlier inEarlier later inLater distinct
    rw [replaceAll_append, replaceAll_append,
      replaceAll_of_absent later.2 free]
  · intro order isOrder
    exact applyPasses_perm isOrder _

end Passes

end Natsu.Http
