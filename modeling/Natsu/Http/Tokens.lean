import Natsu.Foundation.CInteger
import Natsu.Http.Text

/-!
# Splitting into tokens

`tokenize` as its loop runs, on two positions either of which may be `npos`.
What it appends is given by `Splits`, a string's decomposition into runs of
delimiters and the tokens between them.
-/

namespace Natsu.Http

open Natsu.Foundation

/-- `find_first_of` from a position that may be `npos`, where nothing is. -/
def findFirstOfFrom (set : Bytes) (start : Option Nat) (bytes : Bytes) :
    Option Nat :=
  start.bind (findFirstOf set · bytes)

/-- `find_first_not_of` from a position that may be `npos`. -/
def findFirstNotOfFrom (set : Bytes) (start : Option Nat) (bytes : Bytes) :
    Option Nat :=
  start.bind (findFirstNotOf set · bytes)

/-- `substr(lastpos, pos - lastpos)`, which throws `out_of_range` for a
position behind the end. -/
def substrBetween (bytes : Bytes) (lastpos pos : Option Nat) :
    Option Bytes :=
  if bytes.length < lastpos.getD npos then none
  else some (substr bytes (lastpos.getD npos)
    (toSizeT (pos.getD npos - lastpos.getD npos)))

/-- The variables of `tokenize`. -/
structure Tokenizer where
  lastpos : Option Nat
  pos : Option Nat
  tokens : List Bytes

namespace Tokenizer

variable (str delimiters : Bytes)

/-- One test of the loop's condition, with the body where it holds.  There is
no result where `substr` throws. -/
def round (state : Tokenizer) : Tokenizer ⊕ Option (List Bytes) :=
  if state.pos ≠ none ∨ state.lastpos ≠ none then
    match substrBetween str state.lastpos state.pos with
    | none => .inr none
    | some token =>
        let lastpos := findFirstNotOfFrom delimiters state.pos str
        .inl ⟨lastpos, findFirstOfFrom delimiters lastpos str,
          state.tokens ++ [token]⟩
  else .inr (some state.tokens)

def measure (state : Tokenizer) : Nat :=
  match state.pos, state.lastpos with
  | some pos, _ => str.length - pos + 1
  | none, some _ => 1
  | none, none => 0

variable {str delimiters}

/-- A delimiter behind a byte that is none stands further right. -/
private theorem findFirstOf_ne {start other pos : Nat}
    (isOther : findFirstNotOf delimiters start str = some other)
    (found : findFirstOf delimiters other str = some pos) : other ≠ pos := by
  rintro rfl
  obtain ⟨offset, isFirst, rfl⟩ := Option.map_eq_some_iff.mp isOther
  obtain ⟨distance, isFound, isZero⟩ := Option.map_eq_some_iff.mp found
  obtain ⟨inside, outSet, _⟩ := List.findIdx?_eq_some_iff_getElem.mp isFirst
  obtain ⟨further, inSet, _⟩ := List.findIdx?_eq_some_iff_getElem.mp isFound
  obtain rfl : distance = 0 := by omega
  simp only [List.getElem_drop, decide_eq_true_eq, Nat.add_zero,
    Nat.add_comm start offset] at outSet inSet
  exact outSet inSet

private theorem findFirstNotOf_bounds {start other : Nat}
    (found : findFirstNotOf delimiters start str = some other) :
    start ≤ other ∧ other < str.length := by
  obtain ⟨offset, isFound, rfl⟩ := Option.map_eq_some_iff.mp found
  obtain ⟨inside, _⟩ := List.findIdx?_eq_some_iff_getElem.mp isFound
  rw [List.length_drop] at inside
  omega

private theorem round_decreases {state next : Tokenizer}
    (isRound : round str delimiters state = .inl next) :
    measure str next < measure str state := by
  unfold round at isRound
  split at isRound
  · rename_i entered
    split at isRound
    · cases isRound
    · obtain rfl := Sum.inl.inj isRound
      cases isPos : state.pos with
      | none =>
          cases isLast : state.lastpos with
          | none => simp [isPos, isLast] at entered
          | some lastpos =>
              simp [measure, findFirstNotOfFrom, findFirstOfFrom, isPos,
                isLast]
      | some pos =>
          cases isNext : findFirstNotOf delimiters pos str with
          | none =>
              simp [measure, findFirstNotOfFrom, findFirstOfFrom, isPos,
                isNext]
          | some lastpos =>
              obtain ⟨behind, inside⟩ := findFirstNotOf_bounds isNext
              cases isEnd : findFirstOf delimiters lastpos str with
              | none =>
                  simp only [measure, findFirstNotOfFrom, findFirstOfFrom,
                    isPos, isNext, isEnd, Option.bind_some]
                  omega
              | some after =>
                  have bounds := findFirstOf_bounds isEnd
                  have moved := findFirstOf_ne isNext isEnd
                  simp only [measure, findFirstNotOfFrom, findFirstOfFrom,
                    isPos, isNext, isEnd, Option.bind_some]
                  omega
  · cases isRound

variable (str delimiters) in
def loop : Loop Tokenizer (Option (List Bytes)) where
  body := round str delimiters
  measure := measure str
  decreases := round_decreases

end Tokenizer

/-- `tokenize`, with what `tokens` held before. -/
def tokenizeInto (str : Bytes) (tokens : List Bytes) (delimiters : Bytes) :
    Option (List Bytes) :=
  let lastpos := findFirstNotOf delimiters 0 str
  (Tokenizer.loop str delimiters).run
    ⟨lastpos, findFirstOfFrom delimiters lastpos str, tokens⟩

/-- A string as runs of delimiters with tokens between them.  A token reaches
to a delimiter or to the end. -/
inductive Splits (delimiters : Bytes) : Bytes → List Bytes → Prop where
  | gap {gap : Bytes} :
      (∀ byte ∈ gap, byte ∈ delimiters) →
      Splits delimiters gap []
  | token {gap token after : Bytes} {tokens : List Bytes} :
      (∀ byte ∈ gap, byte ∈ delimiters) →
      token ≠ [] →
      (∀ byte ∈ token, byte ∉ delimiters) →
      (∀ byte ∈ after.head?, byte ∈ delimiters) →
      Splits delimiters after tokens →
      Splits delimiters (gap ++ token ++ after) (token :: tokens)

namespace Tokenizer

variable {str delimiters : Bytes}

private theorem substrBetween_eq {lastpos : Nat} {pos : Option Nat}
    (fits : str.length ≤ npos) (inside : lastpos ≤ str.length)
    (ordered : ∀ position ∈ pos, lastpos ≤ position ∧ position < str.length) :
    substrBetween str (some lastpos) pos =
      some (substr str lastpos (pos.getD npos - lastpos)) := by
  have between : lastpos ≤ pos.getD npos ∧ pos.getD npos ≤ npos := by
    cases pos with
    | none => exact ⟨Nat.le_trans inside fits, Nat.le_refl _⟩
    | some position =>
        obtain ⟨behind, before⟩ := ordered position rfl
        exact ⟨behind, Nat.le_trans (Nat.le_of_lt before) fits⟩
  have exact : toSizeT (pos.getD npos - lastpos) = pos.getD npos - lastpos := by
    rw [← Int.ofNat_sub between.1]
    apply toSizeT_of_lt
    have bound : npos < 2 ^ 64 := by decide
    omega
  rw [substrBetween, Option.getD_some, if_neg (by omega), exact]

/-- With `pos` at the next delimiter, the loop on two positions takes the
turns of the loop on one. -/
private theorem loop_run (fits : str.length ≤ npos)
    (state : Option Nat × List Bytes)
    (inside : ∀ lastpos ∈ state.1, lastpos ≤ str.length) :
    (loop str delimiters).run
        ⟨state.1, findFirstOfFrom delimiters state.1 str, state.2⟩ =
      some ((tokenLoop str delimiters).run state) := by
  induction state using (tokenLoop str delimiters).induct with
  | round state induction =>
      obtain ⟨last, tokens⟩ := state
      cases last with
      | none =>
          rw [Loop.run_leave (tokenLoop str delimiters) rfl]
          exact Loop.run_leave _ rfl
      | some lastpos =>
          have ordered : ∀ position ∈ findFirstOf delimiters lastpos str,
              lastpos ≤ position ∧ position < str.length :=
            fun position found => findFirstOf_bounds found
          have token := substrBetween_eq fits (inside lastpos rfl) ordered
          cases found : findFirstOf delimiters lastpos str with
          | none =>
              rw [found] at token
              have turn : (tokenLoop str delimiters).body
                  (some lastpos, tokens) = .inl (none,
                    tokens ++ [substr str lastpos (npos - lastpos)]) := by
                simp only [tokenLoop, found]
              have twice : (loop str delimiters).body ⟨some lastpos,
                  findFirstOfFrom delimiters (some lastpos) str, tokens⟩ =
                    .inl ⟨none, findFirstOfFrom delimiters none str,
                      tokens ++ [substr str lastpos (npos - lastpos)]⟩ := by
                simp [loop, round, findFirstOfFrom, findFirstNotOfFrom, found,
                  token]
              rw [Loop.run_next _ turn, Loop.run_next _ twice]
              exact induction _ turn (by simp)
          | some pos =>
              rw [found] at token
              have turn : (tokenLoop str delimiters).body
                  (some lastpos, tokens) =
                    .inl (findFirstNotOf delimiters pos str,
                      tokens ++ [substr str lastpos (pos - lastpos)]) := by
                simp only [tokenLoop, found]
              have twice : (loop str delimiters).body ⟨some lastpos,
                  findFirstOfFrom delimiters (some lastpos) str, tokens⟩ =
                    .inl ⟨findFirstNotOf delimiters pos str,
                      findFirstOfFrom delimiters
                        (findFirstNotOf delimiters pos str) str,
                      tokens ++ [substr str lastpos (pos - lastpos)]⟩ := by
                simp [loop, round, findFirstOfFrom, findFirstNotOfFrom, found,
                  token]
              rw [Loop.run_next _ turn, Loop.run_next _ twice]
              apply induction _ turn
              intro following isNext
              exact Nat.le_of_lt (findFirstNotOf_bounds isNext).2

end Tokenizer

/-- The loop on two positions appends the parts that are not empty. -/
theorem tokenizeInto_eq {str : Bytes} (fits : str.length ≤ npos)
    (tokens : List Bytes) (delimiters : Bytes) :
    tokenizeInto str tokens delimiters =
      some (tokens ++
        (str.splitOnP (· ∈ delimiters)).filter (· ≠ [])) := by
  have inside : ∀ lastpos ∈ findFirstNotOf delimiters 0 str,
      lastpos ≤ str.length :=
    fun lastpos found =>
      Nat.le_of_lt (Tokenizer.findFirstNotOf_bounds found).2
  rw [tokenizeInto, Tokenizer.loop_run fits
    (findFirstNotOf delimiters 0 str, tokens) inside,
    tokenLoop_run fits _ 0 tokens rfl, List.drop_zero]

/-- The loop on one position is `tokenize` on an empty vector. -/
theorem tokenizeInto_nil {str : Bytes} (fits : str.length ≤ npos)
    (delimiters : Bytes) :
    tokenizeInto str [] delimiters = some (tokenize str delimiters) := by
  rw [tokenizeInto_eq fits, tokenize_eq fits, List.nil_append]

namespace Splits

variable {delimiters str : Bytes} {tokens : List Bytes}

theorem cons {delimiter : UInt8} (isDelimiter : delimiter ∈ delimiters)
    (splits : Splits delimiters str tokens) :
    Splits delimiters (delimiter :: str) tokens := by
  cases splits with
  | gap allDelimiters =>
      exact .gap (List.forall_mem_cons.mpr ⟨isDelimiter, allDelimiters⟩)
  | token allDelimiters nonempty undelimited ended splits =>
      exact .token (List.forall_mem_cons.mpr ⟨isDelimiter, allDelimiters⟩)
        nonempty undelimited ended splits

theorem prepend {token : Bytes} (splits : Splits delimiters str tokens)
    (nonempty : token ≠ []) (undelimited : ∀ byte ∈ token, byte ∉ delimiters)
    (ended : ∀ byte ∈ str.head?, byte ∈ delimiters) :
    Splits delimiters (token ++ str) (token :: tokens) := by
  have noGap : ∀ byte ∈ ([] : Bytes), byte ∈ delimiters := by simp
  exact .token noGap nonempty undelimited ended splits

/-- The parts that are not empty are the tokens of the string. -/
theorem of_splitOnP (delimiters str : Bytes) :
    Splits delimiters str
      ((str.splitOnP (· ∈ delimiters)).filter (· ≠ [])) := by
  induction isLength : str.length using Nat.strongRecOn
      generalizing str with
  | ind length induction =>
      cases str with
      | nil => exact .gap (by simp)
      | cons byte rest =>
          by_cases member : byte ∈ delimiters
          · rw [List.splitOnP_cons_eq_if_modifyHead]
            simpa [member] using
              (induction rest.length (by simp [← isLength]) rest rfl).cons member
          · rcases undelimited_or_split delimiters (byte :: rest) with
              undelimited | ⟨token, delimiter, after, isSplit, undelimited,
                isDelimiter⟩
            · rw [List.splitOnP_eq_singleton (by simpa using undelimited)]
              have ended : Splits delimiters [] [] := .gap (by simp)
              simpa using ended.prepend (List.cons_ne_nil byte rest)
                undelimited (by simp)
            · have nonempty : token ≠ [] := by
                rintro rfl
                obtain ⟨rfl, _⟩ := List.cons.inj isSplit
                exact member isDelimiter
              rw [isSplit] at isLength ⊢
              have shorter : after.length < length := by
                rw [← isLength, List.length_append, List.length_cons]
                omega
              have behind :=
                (induction after.length shorter after rfl).cons isDelimiter
              rw [List.splitOnP_append_cons_of_forall_mem
                (by simpa using undelimited) _ (by simpa using isDelimiter),
                List.filter_cons_of_pos (by simpa using nonempty)]
              exact behind.prepend nonempty undelimited
                (by simpa using isDelimiter)

private theorem splitOnP_gap {gap : Bytes}
    (allDelimiters : ∀ byte ∈ gap, byte ∈ delimiters) (after : Bytes) :
    ((gap ++ after).splitOnP (· ∈ delimiters)).filter (· ≠ []) =
      (after.splitOnP (· ∈ delimiters)).filter (· ≠ []) := by
  induction gap with
  | nil => rfl
  | cons byte gap induction =>
      obtain ⟨isDelimiter, others⟩ := List.forall_mem_cons.mp allDelimiters
      rw [List.cons_append, List.splitOnP_cons_eq_if_modifyHead]
      simpa [isDelimiter] using induction others

/-- A string splits in one way only. -/
theorem eq_splitOnP (splits : Splits delimiters str tokens) :
    tokens = (str.splitOnP (· ∈ delimiters)).filter (· ≠ []) := by
  induction splits with
  | @gap gap allDelimiters =>
      rw [← List.append_nil gap, splitOnP_gap allDelimiters]
      simp
  | @token gap token after tokens allDelimiters nonempty undelimited ended
      splits induction =>
      rw [List.append_assoc, splitOnP_gap allDelimiters]
      cases after with
      | nil =>
          rw [List.append_nil,
            List.splitOnP_eq_singleton (by simpa using undelimited), induction]
          simp [nonempty]
      | cons delimiter after =>
          have isDelimiter : delimiter ∈ delimiters := ended delimiter rfl
          have following : tokens =
              (after.splitOnP (· ∈ delimiters)).filter (· ≠ []) := by
            rw [induction, List.splitOnP_cons_eq_if_modifyHead]
            simp [isDelimiter]
          rw [List.splitOnP_append_cons_of_forall_mem
            (by simpa using undelimited) _ (by simpa using isDelimiter),
            List.filter_cons_of_pos (by simpa using nonempty), following]

/-- No token is empty or has a delimiter in it. -/
theorem undelimited (splits : Splits delimiters str tokens) :
    ∀ token ∈ tokens, token ≠ [] ∧ ∀ byte ∈ token, byte ∉ delimiters := by
  induction splits with
  | gap => simp
  | token _ nonempty undelimited _ _ induction =>
      exact List.forall_mem_cons.mpr ⟨⟨nonempty, undelimited⟩, induction⟩

/-- The runs of delimiters that were removed and the tokens restore the
string. -/
theorem restores (splits : Splits delimiters str tokens) :
    ∃ gaps last, gaps.length = tokens.length ∧
      (∀ gap ∈ last :: gaps, ∀ byte ∈ gap, byte ∈ delimiters) ∧
      str = (List.zipWith (· ++ ·) gaps tokens).flatten ++ last := by
  induction splits with
  | @gap gap allDelimiters =>
      exact ⟨[], gap, rfl, by simpa using allDelimiters, rfl⟩
  | @token gap token after tokens allDelimiters _ _ _ _ induction =>
      obtain ⟨gaps, last, sameLength, inGaps, isAfter⟩ := induction
      obtain ⟨inLast, inOthers⟩ := List.forall_mem_cons.mp inGaps
      refine ⟨gap :: gaps, last, congrArg (· + 1) sameLength, ?_, ?_⟩
      · exact List.forall_mem_cons.mpr
          ⟨inLast, List.forall_mem_cons.mpr ⟨allDelimiters, inOthers⟩⟩
      · rw [List.zipWith_cons_cons, List.flatten_cons,
          List.append_assoc (gap ++ token), ← isAfter]

end Splits

/-- What `tokenize` appends are the runs of other bytes between the runs of
delimiters, whole and in order. -/
theorem tokenize_maximal_runs (str delimiters : Bytes) (tokens : List Bytes)
    (fits : str.length ≤ npos) :
    ∃ found, tokenizeInto str tokens delimiters = some (tokens ++ found) ∧
      (∀ other, Splits delimiters str other ↔ other = found) ∧
      (∀ token ∈ found, token ≠ [] ∧ ∀ byte ∈ token, byte ∉ delimiters) ∧
      ∃ gaps last, gaps.length = found.length ∧
        (∀ gap ∈ last :: gaps, ∀ byte ∈ gap, byte ∈ delimiters) ∧
        str = (List.zipWith (· ++ ·) gaps found).flatten ++ last := by
  have splits := Splits.of_splitOnP delimiters str
  refine ⟨_, tokenizeInto_eq fits tokens delimiters, ?_, splits.undelimited,
    splits.restores⟩
  intro other
  constructor
  · exact Splits.eq_splitOnP
  · rintro rfl
    exact splits

theorem tokenize_maximal_runs_form :
    (ascii "&a=1&&b=2&").length ≤ npos ∧
      ∃ found,
        tokenizeInto (ascii "&a=1&&b=2&") [ascii "x"] (ascii "&") =
          some ([ascii "x"] ++ found) ∧
        (∀ other, Splits (ascii "&") (ascii "&a=1&&b=2&") other ↔
          other = found) ∧
        (∀ token ∈ found, token ≠ [] ∧
          ∀ byte ∈ token, byte ∉ ascii "&") ∧
        ∃ gaps last, gaps.length = found.length ∧
          (∀ gap ∈ last :: gaps, ∀ byte ∈ gap, byte ∈ ascii "&") ∧
          ascii "&a=1&&b=2&" =
            (List.zipWith (· ++ ·) gaps found).flatten ++ last :=
  ⟨by decide, tokenize_maximal_runs _ _ _ (by decide)⟩

example : tokenizeInto (ascii "&a=1&&b=2&") [ascii "x"] (ascii "&") =
    some [ascii "x", ascii "a=1", ascii "b=2"] := by
  decide

end Natsu.Http
