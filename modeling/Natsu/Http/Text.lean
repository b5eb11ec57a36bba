import Natsu.Foundation.ByteString
import Natsu.Foundation.Loop

/-!
# Text functions

`natsu_string.cpp`.
-/

namespace Natsu.Http

open Natsu.Foundation

/-- `find_first_of` from a start position. -/
def findFirstOf (set : Bytes) (start : Nat) (bytes : Bytes) : Option Nat :=
  ((bytes.drop start).findIdx? (· ∈ set)).map (· + start)

theorem findFirstOf_bounds {set bytes : Bytes} {start position : Nat}
    (found : findFirstOf set start bytes = some position) :
    start ≤ position ∧ position < bytes.length := by
  obtain ⟨offset, isFound, rfl⟩ := Option.map_eq_some_iff.mp found
  obtain ⟨inside, _⟩ := List.findIdx?_eq_some_iff_getElem.mp isFound
  rw [List.length_drop] at inside
  omega

/-- The loop of `replace_all`, with `lastpos` and the result so far. -/
def replaceLoop (src orgStr repStr : Bytes) : Loop (Nat × Bytes) Bytes where
  body state :=
    match findFirstOf orgStr state.1 src with
    | none => .inr (state.2 ++ src.drop state.1)
    | some pos =>
        .inl (pos + 1,
          state.2 ++ (src.drop state.1).take (pos - state.1) ++ repStr)
  measure state := src.length - state.1
  decreases := by
    intro state next round
    split at round
    · simp at round
    · rename_i pos found
      obtain ⟨behind, inside⟩ := findFirstOf_bounds found
      obtain rfl := Sum.inl.inj round
      dsimp only
      omega

def replaceAll (src orgStr repStr : Bytes) : Bytes :=
  (replaceLoop src orgStr repStr).run (0, [])

/-- `find_first_not_of` from a start position. -/
def findFirstNotOf (set : Bytes) (start : Nat) (bytes : Bytes) : Option Nat :=
  ((bytes.drop start).findIdx? (· ∉ set)).map (· + start)

/-- A search for other bytes leaves a position where one of the set is. -/
theorem findFirstNotOf_after {set bytes : Bytes} {start pos next : Nat}
    (isDelimiter : findFirstOf set start bytes = some pos)
    (found : findFirstNotOf set pos bytes = some next) :
    start < next ∧ next < bytes.length := by
  obtain ⟨offset, isFound, rfl⟩ := Option.map_eq_some_iff.mp isDelimiter
  obtain ⟨distance, isNext, rfl⟩ := Option.map_eq_some_iff.mp found
  obtain ⟨inside, inSet, _⟩ := List.findIdx?_eq_some_iff_getElem.mp isFound
  obtain ⟨further, notInSet, _⟩ := List.findIdx?_eq_some_iff_getElem.mp isNext
  rw [List.length_drop] at inside further
  have moved : distance ≠ 0 := by
    rintro rfl
    simp only [List.getElem_drop, decide_eq_true_eq, Nat.add_zero,
      Nat.add_comm offset start] at inSet notInSet
    exact notInSet inSet
  omega

/-- The loop of `tokenize`, with `lastpos` and the tokens so far.  `pos` is the
next delimiter behind `lastpos`, and both are `npos` when `lastpos` is. -/
def tokenLoop (str delimiters : Bytes) :
    Loop (Option Nat × List Bytes) (List Bytes) where
  body state :=
    match state.1 with
    | none => .inr state.2
    | some lastpos =>
        match findFirstOf delimiters lastpos str with
        | none => .inl (none, state.2 ++ [substr str lastpos (npos - lastpos)])
        | some pos =>
            .inl (findFirstNotOf delimiters pos str,
              state.2 ++ [substr str lastpos (pos - lastpos)])
  measure state :=
    match state.1 with
    | none => 0
    | some lastpos => str.length - lastpos + 1
  decreases := by
    intro state next round
    split at round
    · simp at round
    · rename_i lastpos isLast
      split at round
      · obtain rfl := Sum.inl.inj round
        exact Nat.succ_pos _
      · rename_i pos isDelimiter
        obtain rfl := Sum.inl.inj round
        cases found : findFirstNotOf delimiters pos str with
        | none => exact Nat.succ_pos _
        | some following =>
            have advance := findFirstNotOf_after isDelimiter found
            dsimp only
            omega

def tokenize (str delimiters : Bytes) : List Bytes :=
  (tokenLoop str delimiters).run (findFirstNotOf delimiters 0 str, [])

section Tokenize

variable {str delimiters : Bytes}

theorem undelimited_or_split (delimiters bytes : Bytes) :
    (∀ byte ∈ bytes, byte ∉ delimiters) ∨
      ∃ token delimiter after, bytes = token ++ delimiter :: after ∧
        (∀ byte ∈ token, byte ∉ delimiters) ∧ delimiter ∈ delimiters := by
  induction bytes with
  | nil => simp
  | cons byte bytes induction =>
      by_cases member : byte ∈ delimiters
      · exact .inr ⟨[], byte, bytes, rfl, by simp, member⟩
      · rcases induction with undelimited |
          ⟨token, delimiter, after, rfl, undelimited, isDelimiter⟩
        · exact .inl (List.forall_mem_cons.mpr ⟨member, undelimited⟩)
        · exact .inr ⟨byte :: token, delimiter, after, rfl,
            List.forall_mem_cons.mpr ⟨member, undelimited⟩, isDelimiter⟩

/-- One turn for a token that a delimiter ends. -/
private theorem tokenLoop_delimited {start : Nat} {token after : Bytes}
    {delimiter : UInt8} (rest : str.drop start = token ++ delimiter :: after)
    (undelimited : ∀ byte ∈ token, byte ∉ delimiters)
    (member : delimiter ∈ delimiters) (tokens : List Bytes) :
    (tokenLoop str delimiters).run (some start, tokens) =
      (tokenLoop str delimiters).run
        (findFirstNotOf delimiters (token.length + start) str,
          tokens ++ [token]) := by
  have ended : findFirstOf delimiters start str =
      some (token.length + start) := by
    have none : token.findIdx? (· ∈ delimiters) = none := by
      simpa [List.findIdx?_eq_none_iff] using undelimited
    simp [findFirstOf, rest, List.findIdx?_append, none, List.findIdx?_cons,
      member]
  apply Loop.run_next
  simp only [tokenLoop, ended, substr, rest, Nat.add_sub_cancel,
    List.take_left]

/-- The last turn, for a token that ends the string. -/
private theorem tokenLoop_last {start : Nat} (fits : str.length ≤ npos)
    (undelimited : ∀ byte ∈ str.drop start, byte ∉ delimiters)
    (tokens : List Bytes) :
    (tokenLoop str delimiters).run (some start, tokens) =
      tokens ++ [str.drop start] := by
  have unended : findFirstOf delimiters start str = none := by
    have none : (str.drop start).findIdx? (· ∈ delimiters) = none := by
      simpa only [List.findIdx?_eq_none_iff, decide_eq_false_iff_not]
        using undelimited
    rw [findFirstOf, none]
    rfl
  have all : substr str start (npos - start) = str.drop start := by
    apply List.take_of_length_le
    rw [List.length_drop]
    omega
  have round : (tokenLoop str delimiters).body (some start, tokens) =
      .inl (none, tokens ++ [str.drop start]) := by
    simp only [tokenLoop, unended, all]
  rw [Loop.run_next _ round]
  exact Loop.run_leave _ rfl

theorem tokenLoop_run (fits : str.length ≤ npos) (remaining : Nat) :
    ∀ start tokens, str.length - start = remaining →
      (tokenLoop str delimiters).run
          (findFirstNotOf delimiters start str, tokens) =
        tokens ++ ((str.drop start).splitOnP (· ∈ delimiters)).filter
          (· ≠ []) := by
  induction remaining using Nat.strongRecOn with
  | ind remaining induction =>
      intro start tokens isRemaining
      cases rest : str.drop start with
      | nil =>
          have ended : findFirstNotOf delimiters start str = none := by
            simp [findFirstNotOf, rest]
          rw [ended, Loop.run_leave _ rfl]
          simp
      | cons byte bytes =>
          have tail : str.drop (start + 1) = bytes := by
            rw [← List.drop_drop, rest, List.drop_one, List.tail_cons]
          have shorter : start < str.length := by
            by_contra beyond
            simp [List.drop_eq_nil_of_le (Nat.le_of_not_lt beyond)] at rest
          by_cases member : byte ∈ delimiters
          · have skipped : findFirstNotOf delimiters start str =
                findFirstNotOf delimiters (start + 1) str := by
              simp [findFirstNotOf, rest, tail, List.findIdx?_cons, member,
                Function.comp_def, Nat.add_assoc, Nat.add_comm 1]
            rw [skipped, induction _ (by omega) (start + 1) tokens rfl, tail,
              List.splitOnP_cons_eq_if_modifyHead]
            simp [member]
          · have here : findFirstNotOf delimiters start str = some start := by
              simp [findFirstNotOf, rest, List.findIdx?_cons, member]
            rw [here, ← rest]
            rcases undelimited_or_split delimiters (str.drop start) with
              undelimited | ⟨token, delimiter, after, isSplit, undelimited,
                isDelimiter⟩
            · rw [tokenLoop_last fits undelimited,
                List.splitOnP_eq_singleton (by simpa using undelimited)]
              simp [rest]
            · have nonempty : token ≠ [] := by
                rintro rfl
                rw [rest] at isSplit
                obtain ⟨rfl, _⟩ := List.cons.inj isSplit
                exact member isDelimiter
              have longer := List.length_pos_iff.mpr nonempty
              have ended : str.drop (token.length + start) =
                  delimiter :: after := by
                rw [Nat.add_comm, ← List.drop_drop, isSplit, List.drop_left]
              rw [tokenLoop_delimited isSplit undelimited isDelimiter,
                induction _ (by omega) (token.length + start) _ rfl, ended,
                isSplit, List.splitOnP_append_cons_of_forall_mem
                  (by simpa using undelimited) _ (by simpa using isDelimiter),
                List.splitOnP_cons_eq_if_modifyHead]
              simp [isDelimiter, nonempty]

/-- The tokens are the parts between delimiters that are not empty. -/
theorem tokenize_eq (fits : str.length ≤ npos) :
    tokenize str delimiters =
      (str.splitOnP (· ∈ delimiters)).filter (· ≠ []) := by
  rw [tokenize, tokenLoop_run fits _ 0 [] rfl, List.nil_append, List.drop_zero]

end Tokenize

end Natsu.Http
