import Mathlib.Data.List.TakeWhile

/-!
# Readers with one symbol of lookahead

A reader takes a front of its input.  It gives a value and the input that is
left, or it fails in front of the first symbol that it cannot take.  A reader
reads a language when the fronts it takes are words of the language, and the
fronts on which it fails can still be completed to one.  It is local when it
looks no further than the first symbol it leaves.
-/

namespace Natsu.Foundation

variable {β : Type}

/-- The result is `none` where the reader fails. -/
def Reader (β α : Type) : Type := List β → Option α × List β

namespace Reader

instance : Monad (Reader β) where
  pure value := fun input => (some value, input)
  bind read next := fun input =>
    match read input with
    | (some value, rest) => next value rest
    | (none, rest) => (none, rest)

variable {α γ σ : Type}

/-- Fail without taking anything. -/
def fail : Reader β α := fun input => (none, input)

/-- The next symbol, which is left. -/
def peek : Reader β (Option β) := fun input => (some input.head?, input)

/-- The next symbol, where it fits. -/
def expect (fits : β → Bool) : Reader β β
  | [] => (none, [])
  | symbol :: rest =>
      if fits symbol then (some symbol, rest) else (none, symbol :: rest)

/-- All symbols up to the first that does not fit. -/
def span (fits : β → Bool) : Reader β (List β) := fun input =>
  (some (input.takeWhile fits), input.dropWhile fits)

/-- Fail where the next symbol fits. -/
def refuse (fits : β → Bool) : Reader β Unit := fun input =>
  if input.head?.any fits then (none, input) else (some (), input)

/-- A symbol that fits, or nothing. -/
def optional (fits : β → Bool) : Reader β (List β)
  | [] => (some [], [])
  | symbol :: rest =>
      if fits symbol then (some [symbol], rest) else (some [], symbol :: rest)

/-- Go round until the body leaves, for at most this many rounds. -/
def loop (body : σ → Reader β (σ ⊕ α)) : Nat → σ → Reader β α
  | 0, _ => fail
  | rounds + 1, state => do
      match ← body state with
      | .inl next => loop body rounds next
      | .inr value => pure value

/-- A loop whose rounds each take a symbol leaves in time. -/
def forever (body : σ → Reader β (σ ⊕ α)) (state : σ) : Reader β α :=
  fun input => loop body (input.length + 1) state input

@[simp]
theorem pure_apply (value : α) (input : List β) :
    (pure value : Reader β α) input = (some value, input) := rfl

theorem bind_done {read : Reader β α} {next : α → Reader β γ}
    {input rest : List β} {value : α}
    (done : read input = (some value, rest)) :
    (read >>= next) input = next value rest := by
  change (match read input with
    | (some value, rest) => next value rest
    | (none, rest) => (none, rest)) = _
  rw [done]

theorem bind_failed {read : Reader β α} {next : α → Reader β γ}
    {input rest : List β} (failed : read input = (none, rest)) :
    (read >>= next) input = (none, rest) := by
  change (match read input with
    | (some value, rest) => next value rest
    | (none, rest) => (none, rest)) = _
  rw [failed]

theorem bind_bind {δ : Type} {read : Reader β α} {next : α → Reader β γ}
    {last : γ → Reader β δ} (input : List β) :
    (read >>= next >>= last) input =
      (read >>= fun value => next value >>= last) input := by
  cases isRead : read input with
  | mk value rest =>
      cases value with
      | none => rw [bind_failed isRead, bind_failed (bind_failed isRead)]
      | some value =>
          rw [bind_done isRead]
          cases isNext : next value rest with
          | mk second left =>
              cases second with
              | none =>
                  rw [bind_failed isNext,
                    bind_failed ((bind_done isRead).trans isNext)]
              | some second =>
                  rw [bind_done isNext,
                    bind_done ((bind_done isRead).trans isNext)]

theorem map_same (read : Reader β α) : id <$> read = read := by
  funext input
  change (match read input with
    | (some value, rest) => (some value, rest)
    | (none, rest) => (none, rest)) = read input
  split
  · next isRead => exact isRead.symm
  · next isRead => exact isRead.symm

instance : LawfulMonad (Reader β) :=
  LawfulMonad.mk' (Reader β) map_same (fun _ _ => rfl)
    fun _ _ _ => funext bind_bind

theorem bind_same {read : Reader β α} {next : α → Reader β γ}
    {input other : List β} (same : read input = read other) :
    (read >>= next) input = (read >>= next) other := by
  change (match read input with
    | (some value, rest) => next value rest
    | (none, rest) => (none, rest)) = _
  rw [same]
  rfl

theorem bind_eq_done {read : Reader β α} {next : α → Reader β γ}
    {input rest : List β} {value : γ}
    (done : (read >>= next) input = (some value, rest)) :
    ∃ first middle, read input = (some first, middle) ∧
      next first middle = (some value, rest) := by
  cases result : read input with
  | mk first middle =>
      cases first with
      | none =>
          rw [bind_failed result] at done
          cases done
      | some first =>
          rw [bind_done result] at done
          exact ⟨first, middle, rfl, done⟩

theorem expect_cons (fits : β → Bool) {symbol : β}
    (accepted : fits symbol = true) (rest : List β) : expect fits (symbol :: rest) = (some symbol, rest) := by
  simp only [expect]
  rw [if_pos accepted]

theorem expect_failed {fits : β → Bool} {input : List β}
    (refused : input.head?.any fits = false) :
    expect fits input = (none, input) := by
  cases input with
  | nil => rfl
  | cons symbol rest =>
      have isRefused : ¬ fits symbol = true := Bool.eq_false_iff.mp refused
      simp only [expect]
      rw [if_neg isRefused]

theorem optional_cons (fits : β → Bool) {symbol : β}
    (accepted : fits symbol = true) (rest : List β) :
    optional fits (symbol :: rest) = (some [symbol], rest) := by
  simp only [optional]
  rw [if_pos accepted]

theorem optional_absent {fits : β → Bool} {input : List β}
    (refused : input.head?.any fits = false) :
    optional fits input = (some [], input) := by
  cases input with
  | nil => rfl
  | cons symbol rest =>
      have isRefused : ¬ fits symbol = true := Bool.eq_false_iff.mp refused
      simp only [optional]
      rw [if_neg isRefused]

theorem refuse_absent {fits : β → Bool} {input : List β}
    (refused : input.head?.any fits = false) :
    refuse fits input = (some (), input) := by
  simp only [refuse]
  rw [if_neg (Bool.eq_false_iff.mp refused)]

theorem span_append {fits : β → Bool} {word rest : List β}
    (accepted : ∀ symbol ∈ word, fits symbol = true)
    (refused : rest.head?.any fits = false) :
    span fits (word ++ rest) = (some word, rest) := by
  simp only [span]
  rw [List.takeWhile_append_of_pos accepted,
    List.dropWhile_append_of_pos accepted]
  cases rest with
  | nil => simp
  | cons symbol rest =>
      have isRefused : ¬ fits symbol = true := Bool.eq_false_iff.mp refused
      rw [List.takeWhile_cons_of_neg isRefused,
        List.dropWhile_cons_of_neg isRefused, List.append_nil]

/-- The fronts that the reader takes, with the value it gives, are words of the
language, and those on which it fails begin one. -/
structure Reads (read : Reader β α) (language : α → List β → Prop) : Prop where
  done : ∀ {input value rest}, read input = (some value, rest) →
    ∃ word, input = word ++ rest ∧ language value word
  failed : ∀ {input rest}, read input = (none, rest) →
    ∃ front, input = front ++ rest ∧
      ∃ value missing, language value (front ++ missing)

namespace Reads

variable {read : Reader β α} {language : α → List β → Prop}

theorem mono {larger : α → List β → Prop} (reads : read.Reads language)
    (within : ∀ {value word}, language value word → larger value word) :
    read.Reads larger := by
  constructor
  · intro input value rest done
    obtain ⟨word, split, isWord⟩ := reads.done done
    exact ⟨word, split, within isWord⟩
  · intro input rest failed
    obtain ⟨front, split, value, missing, isWord⟩ := reads.failed failed
    exact ⟨front, split, value, missing, within isWord⟩

theorem pure (value : α) : (Pure.pure value : Reader β α).Reads
    fun other word => other = value ∧ word = [] := by
  constructor
  · intro input other rest done
    obtain ⟨same, rfl⟩ := Prod.mk.inj done
    exact ⟨[], rfl, (Option.some.inj same).symm, rfl⟩
  · intro input rest failed
    cases failed

theorem fail (inhabited : ∃ value word, language value word) :
    (Reader.fail : Reader β α).Reads language := by
  constructor
  · intro input value rest done
    cases done
  · intro input rest failed
    obtain ⟨value, word, isWord⟩ := inhabited
    obtain ⟨_, rfl⟩ := Prod.mk.inj failed
    exact ⟨[], rfl, value, word, isWord⟩

theorem peek : (Reader.peek : Reader β (Option β)).Reads
    fun _ word => word = [] := by
  constructor
  · intro input value rest done
    obtain ⟨_, rfl⟩ := Prod.mk.inj done
    exact ⟨[], rfl, rfl⟩
  · intro input rest failed
    cases failed

theorem expect (fits : β → Bool) {sample : β}
    (possible : fits sample = true) :
    (Reader.expect fits).Reads
      fun symbol word => fits symbol = true ∧ word = [symbol] := by
  have completed : ∃ value missing,
      fits value = true ∧ ([] : List β) ++ missing = [value] :=
    ⟨sample, [sample], possible, rfl⟩
  constructor
  · intro input value rest done
    cases input with
    | nil => cases done
    | cons symbol input =>
        simp only [Reader.expect] at done
        split at done
        · rename_i accepted
          obtain ⟨same, rfl⟩ := Prod.mk.inj done
          obtain rfl := Option.some.inj same
          exact ⟨[symbol], rfl, accepted, rfl⟩
        · cases done
  · intro input rest failed
    cases input with
    | nil =>
        obtain ⟨_, rfl⟩ := Prod.mk.inj failed
        exact ⟨[], rfl, completed⟩
    | cons symbol input =>
        simp only [Reader.expect] at failed
        split at failed
        · cases failed
        · obtain ⟨_, rfl⟩ := Prod.mk.inj failed
          exact ⟨[], rfl, completed⟩

theorem span (fits : β → Bool) : (Reader.span fits).Reads
    fun value word => word = value ∧ ∀ symbol ∈ word, fits symbol = true := by
  constructor
  · intro input value rest done
    obtain ⟨same, rfl⟩ := Prod.mk.inj done
    obtain rfl := Option.some.inj same
    refine ⟨input.takeWhile fits, (List.takeWhile_append_dropWhile).symm, rfl, ?_⟩
    intro symbol member
    exact List.mem_takeWhile_imp member
  · intro input rest failed
    cases failed

theorem refuse (fits : β → Bool) : (Reader.refuse fits).Reads
    fun _ word => word = [] := by
  constructor
  · intro input value rest done
    simp only [Reader.refuse] at done
    split at done
    · cases done
    · obtain ⟨_, rfl⟩ := Prod.mk.inj done
      exact ⟨[], rfl, rfl⟩
  · intro input rest failed
    simp only [Reader.refuse] at failed
    split at failed
    · obtain ⟨_, rfl⟩ := Prod.mk.inj failed
      exact ⟨[], rfl, (), [], rfl⟩
    · cases failed

theorem optional (fits : β → Bool) : (Reader.optional fits).Reads
    fun value word => word = value ∧
      (word = [] ∨ ∃ symbol, fits symbol = true ∧ word = [symbol]) := by
  constructor
  · intro input value rest done
    cases input with
    | nil =>
        obtain ⟨same, rfl⟩ := Prod.mk.inj done
        obtain rfl := Option.some.inj same
        exact ⟨[], rfl, rfl, .inl rfl⟩
    | cons symbol input =>
        simp only [Reader.optional] at done
        split at done
        · rename_i accepted
          obtain ⟨same, rfl⟩ := Prod.mk.inj done
          obtain rfl := Option.some.inj same
          exact ⟨[symbol], rfl, rfl, .inr ⟨symbol, accepted, rfl⟩⟩
        · obtain ⟨same, rfl⟩ := Prod.mk.inj done
          obtain rfl := Option.some.inj same
          exact ⟨[], rfl, rfl, .inl rfl⟩
  · intro input rest failed
    cases input with
    | nil => cases failed
    | cons symbol input =>
        simp only [Reader.optional] at failed
        split at failed <;> cases failed

theorem inhabited (reads : read.Reads language) :
    ∃ value word, language value word := by
  cases result : read [] with
  | mk value rest =>
      cases value with
      | none =>
          obtain ⟨front, _, value, missing, isWord⟩ := reads.failed result
          exact ⟨value, front ++ missing, isWord⟩
      | some value =>
          obtain ⟨word, _, isWord⟩ := reads.done result
          exact ⟨value, word, isWord⟩

/-- What comes second has to complete every word that may come first. -/
theorem bind {next : α → Reader β γ} {whole : γ → List β → Prop}
    (reads : read.Reads language)
    (later : ∀ first, (next first).Reads fun value back =>
      ∀ front, language first front → whole value (front ++ back)) :
    (read >>= next).Reads whole := by
  constructor
  · intro input value rest done
    obtain ⟨first, middle, firstDone, secondDone⟩ := bind_eq_done done
    obtain ⟨front, rfl, isFront⟩ := reads.done firstDone
    obtain ⟨back, rfl, isBack⟩ := (later first).done secondDone
    exact ⟨front ++ back, (List.append_assoc front back rest).symm,
      isBack front isFront⟩
  · intro input rest failed
    cases result : read input with
    | mk first middle =>
        cases first with
        | none =>
            rw [bind_failed result] at failed
            obtain ⟨_, rfl⟩ := Prod.mk.inj failed
            obtain ⟨front, split, first, missing, isWord⟩ :=
              reads.failed result
            obtain ⟨value, back, isBack⟩ := (later first).inhabited
            refine ⟨front, split, value, missing ++ back, ?_⟩
            rw [← List.append_assoc]
            exact isBack _ isWord
        | some first =>
            rw [bind_done result] at failed
            obtain ⟨front, rfl, isFront⟩ := reads.done result
            obtain ⟨begun, rfl, value, missing, isBack⟩ :=
              (later first).failed failed
            refine ⟨front ++ begun, (List.append_assoc front begun rest).symm,
              value, missing, ?_⟩
            rw [List.append_assoc]
            exact isBack front isFront

end Reads

/-- The words that some rounds of a loop take. -/
inductive Rounds (round : σ → σ ⊕ α → List β → Prop) : σ → α → List β → Prop where
  | leave {state : σ} {value : α} {word : List β} :
      round state (.inr value) word → Rounds round state value word
  | again {state next : σ} {value : α} {front back : List β} :
      round state (.inl next) front → Rounds round next value back →
      Rounds round state value (front ++ back)

theorem Reads.loop {body : σ → Reader β (σ ⊕ α)}
    {round : σ → σ ⊕ α → List β → Prop}
    (reads : ∀ state, (body state).Reads (round state))
    (leaves : ∀ state, ∃ value word, round state (.inr value) word)
    (rounds : Nat) :
    ∀ state, (Reader.loop body rounds state).Reads (Rounds round state) := by
  induction rounds with
  | zero =>
      intro state
      obtain ⟨value, word, isWord⟩ := leaves state
      exact Reads.fail ⟨value, word, .leave isWord⟩
  | succ rounds induction =>
      intro state
      apply (reads state).bind
      intro outcome
      cases outcome with
      | inl next =>
          apply (induction next).mono
          intro value back isBack front isFront
          exact .again isFront isBack
      | inr value =>
          apply (Reads.pure value).mono
          rintro other word ⟨rfl, rfl⟩ front isFront
          rw [List.append_nil]
          exact .leave isFront

theorem Reads.forever {body : σ → Reader β (σ ⊕ α)}
    {round : σ → σ ⊕ α → List β → Prop}
    (reads : ∀ state, (body state).Reads (round state))
    (leaves : ∀ state, ∃ value word, round state (.inr value) word)
    (state : σ) : (Reader.forever body state).Reads (Rounds round state) := by
  constructor
  · intro input value rest done
    exact (Reads.loop reads leaves _ state).done done
  · intro input rest failed
    exact (Reads.loop reads leaves _ state).failed failed

/-- The reader leaves the end of its input, and with other symbols behind the
first that it leaves it does the same. -/
structure Local (read : Reader β α) : Prop where
  suffix : ∀ input, (read input).2 <:+ input
  stable : ∀ {front rest other : List β} {value : Option α},
    read (front ++ rest) = (value, rest) → other.head? = rest.head? →
      read (front ++ other) = (value, other)

namespace Local

variable {read : Reader β α}

theorem append_left (isLocal : read.Local) {input rest : List β}
    {value : Option α} (result : read input = (value, rest)) :
    ∃ front, input = front ++ rest := by
  obtain ⟨front, split⟩ := isLocal.suffix input
  rw [result] at split
  exact ⟨front, split.symm⟩

theorem pure (value : α) : (Pure.pure value : Reader β α).Local := by
  constructor
  · intro input
    exact List.suffix_refl input
  · intro front rest other result same _
    obtain ⟨rfl, split⟩ := Prod.mk.inj same
    obtain rfl : front = [] := List.append_left_eq_self.mp split
    rfl

theorem fail : (Reader.fail : Reader β α).Local := by
  constructor
  · intro input
    exact List.suffix_refl input
  · intro front rest other result same _
    obtain ⟨rfl, split⟩ := Prod.mk.inj same
    obtain rfl : front = [] := List.append_left_eq_self.mp split
    rfl

theorem peek : (Reader.peek : Reader β (Option β)).Local := by
  constructor
  · intro input
    exact List.suffix_refl input
  · intro front rest other result same heads
    obtain ⟨rfl, split⟩ := Prod.mk.inj same
    obtain rfl : front = [] := List.append_left_eq_self.mp split
    simp only [Reader.peek, List.nil_append, heads]

theorem refuse (fits : β → Bool) : (Reader.refuse fits).Local := by
  constructor
  · intro input
    simp only [Reader.refuse]
    split <;> exact List.suffix_refl input
  · intro front rest other result same heads
    have split : front ++ rest = rest := by
      simp only [Reader.refuse] at same
      split at same
      · exact (Prod.mk.inj same).2
      · exact (Prod.mk.inj same).2
    obtain rfl : front = [] := List.append_left_eq_self.mp split
    simp only [Reader.refuse, List.nil_append] at same ⊢
    rw [heads]
    split at same
    · rw [if_pos ‹_›, (Prod.mk.inj same).1]
    · rw [if_neg ‹_›, (Prod.mk.inj same).1]

/-- A reader that takes one symbol or none, as the symbol says. -/
theorem of_head (first : β → Option α × Bool) {atEnd : Option α}
    (isEnd : read [] = (atEnd, []))
    (isFirst : ∀ symbol rest, read (symbol :: rest) =
      ((first symbol).1, if (first symbol).2 then rest else symbol :: rest)) :
    read.Local := by
  constructor
  · intro input
    cases input with
    | nil => simp only [isEnd, List.suffix_refl]
    | cons symbol input =>
        rw [isFirst]
        split
        · exact List.suffix_cons symbol input
        · exact List.suffix_refl _
  · intro front rest other value same heads
    cases front with
    | nil =>
        rw [List.nil_append] at same ⊢
        cases rest with
        | nil =>
            obtain rfl : other = [] := List.head?_eq_none_iff.mp heads
            exact same
        | cons symbol rest =>
            cases other with
            | nil => cases heads
            | cons otherSymbol other =>
                obtain rfl : otherSymbol = symbol := Option.some.inj heads
                rw [isFirst] at same ⊢
                obtain ⟨rfl, left⟩ := Prod.mk.inj same
                split at left
                · exact absurd (congrArg List.length left) (by simp)
                · rw [if_neg ‹_›]
    | cons symbol front =>
        rw [List.cons_append, isFirst] at same ⊢
        obtain ⟨rfl, left⟩ := Prod.mk.inj same
        split at left
        · obtain rfl : front = [] := List.append_left_eq_self.mp left
          rw [if_pos ‹_›, List.nil_append]
        · exact absurd (congrArg List.length left) (by simp; omega)

theorem expect (fits : β → Bool) : (Reader.expect fits).Local := by
  have isEnd : Reader.expect fits [] = (none, []) := rfl
  apply of_head (fun symbol =>
    (if fits symbol then some symbol else none, fits symbol)) isEnd
  intro symbol rest
  simp only [Reader.expect]
  split <;> rfl

theorem optional (fits : β → Bool) : (Reader.optional fits).Local := by
  have isEnd : Reader.optional fits [] = (some [], []) := rfl
  apply of_head (fun symbol =>
    (if fits symbol then some [symbol] else some [], fits symbol)) isEnd
  intro symbol rest
  simp only [Reader.optional]
  split <;> rfl

theorem span (fits : β → Bool) : (Reader.span fits).Local := by
  constructor
  · intro input
    exact List.dropWhile_suffix fits
  · intro front rest other value same heads
    obtain ⟨rfl, left⟩ := Prod.mk.inj same
    have taken : ∀ symbol ∈ front, fits symbol = true := by
      have split : (front ++ rest).takeWhile fits ++
          (front ++ rest).dropWhile fits = front ++ rest :=
        List.takeWhile_append_dropWhile
      rw [left] at split
      have isFront := List.append_cancel_right split
      intro symbol member
      rw [← isFront] at member
      exact List.mem_takeWhile_imp member
    have stops : rest.dropWhile fits = rest := by
      rwa [List.dropWhile_append_of_pos taken] at left
    have stopsOther : other.dropWhile fits = other := by
      cases other with
      | nil => rfl
      | cons symbol other =>
          cases rest with
          | nil => cases heads
          | cons first rest =>
              obtain rfl : symbol = first := Option.some.inj heads
              by_cases accepted : fits symbol = true
              · rw [List.dropWhile_cons_of_pos accepted] at stops
                have shorter := (List.dropWhile_suffix
                  (l := rest) fits).length_le
                rw [stops, List.length_cons] at shorter
                omega
              · exact List.dropWhile_cons_of_neg accepted
    have nothing : ∀ {tail : List β}, tail.dropWhile fits = tail →
        tail.takeWhile fits = [] := by
      intro tail same
      have split := List.takeWhile_append_dropWhile (p := fits) (l := tail)
      rw [same] at split
      exact List.append_left_eq_self.mp split
    simp only [Reader.span]
    rw [List.takeWhile_append_of_pos taken, List.takeWhile_append_of_pos taken,
      List.dropWhile_append_of_pos taken, stopsOther, nothing stops,
      nothing stopsOther]

theorem bind {next : α → Reader β γ} (isLocal : read.Local)
    (later : ∀ value, (next value).Local) : (read >>= next).Local := by
  constructor
  · intro input
    cases result : read input with
    | mk first middle =>
        have suffix := isLocal.suffix input
        rw [result] at suffix
        cases first with
        | none =>
            rw [bind_failed result]
            exact suffix
        | some first =>
            rw [bind_done result]
            exact ((later first).suffix middle).trans suffix
  · intro front rest other value same heads
    cases result : read (front ++ rest) with
    | mk first middle =>
        cases first with
        | none =>
            rw [bind_failed result] at same
            obtain ⟨rfl, rfl⟩ := Prod.mk.inj same
            exact bind_failed (isLocal.stable result heads)
        | some first =>
            rw [bind_done result] at same
            obtain ⟨between, rfl⟩ := (later first).append_left same
            obtain ⟨before, split⟩ := isLocal.append_left result
            rw [← List.append_assoc] at split
            obtain rfl : front = before ++ between :=
              List.append_cancel_right split
            rw [List.append_assoc] at result ⊢
            have sameHeads : (between ++ other).head? =
                (between ++ rest).head? := by
              cases between with
              | nil => exact heads
              | cons symbol between => rfl
            rw [bind_done (isLocal.stable result sameHeads)]
            exact (later first).stable same heads

theorem loop {body : σ → Reader β (σ ⊕ α)}
    (isLocal : ∀ state, (body state).Local) (rounds : Nat) :
    ∀ state, (Reader.loop body rounds state).Local := by
  induction rounds with
  | zero =>
      intro state
      exact fail
  | succ rounds induction =>
      intro state
      apply (isLocal state).bind
      intro outcome
      cases outcome with
      | inl next => exact induction next
      | inr value => exact pure value

end Local

/-- Every round of the loop that does not leave it takes a symbol. -/
def Advances (body : σ → Reader β (σ ⊕ α)) : Prop :=
  ∀ {state next input rest}, body state input = (some (.inl next), rest) →
    rest.length < input.length

/-- A loop each of whose rounds begins with a symbol. -/
theorem Local.round {fits : β → Bool} {after : σ → β → Reader β (σ ⊕ α)}
    (isLocal : ∀ state symbol, (after state symbol).Local) :
    (∀ state, (Reader.expect fits >>= after state).Local) ∧
      Advances fun state => Reader.expect fits >>= after state := by
  constructor
  · intro state
    exact (Local.expect fits).bind (isLocal state)
  · intro state next input rest result
    obtain ⟨symbol, middle, isFirst, isLater⟩ := bind_eq_done result
    have left := (isLocal state symbol).suffix middle
    rw [isLater] at left
    have shorter : middle.length < input.length := by
      cases input with
      | nil => cases isFirst
      | cons first input =>
          simp only [Reader.expect] at isFirst
          split at isFirst
          · obtain ⟨_, rfl⟩ := Prod.mk.inj isFirst
            exact Nat.lt_succ_self _
          · cases isFirst
    exact Nat.lt_of_le_of_lt left.length_le shorter

/-- More rounds than symbols make no difference. -/
theorem Advances.loop_eq {body : σ → Reader β (σ ⊕ α)}
    (advances : Advances body) (rounds : Nat) :
    ∀ {others : Nat} {state : σ} {input : List β}, input.length < rounds →
      input.length < others →
      loop body rounds state input = loop body others state input := by
  induction rounds with
  | zero =>
      intro others state input enough
      cases enough
  | succ rounds induction =>
      intro others state input enough enoughOthers
      cases others with
      | zero => cases enoughOthers
      | succ others =>
          cases result : body state input with
          | mk outcome rest =>
              cases outcome with
              | none =>
                  simp only [loop]
                  rw [bind_failed result, bind_failed result]
              | some outcome =>
                  simp only [loop]
                  rw [bind_done result, bind_done result]
                  cases outcome with
                  | inl next =>
                      have shorter := advances result
                      apply induction
                      · omega
                      · omega
                  | inr value => rfl

theorem Advances.forever_next {body : σ → Reader β (σ ⊕ α)}
    (advances : Advances body) {state next : σ} {input rest : List β}
    (result : body state input = (some (.inl next), rest)) :
    forever body state input = forever body next rest := by
  have shorter := advances result
  change loop body (input.length + 1) state input =
    loop body (rest.length + 1) next rest
  have again : loop body (input.length + 1) state input =
      loop body input.length next rest := bind_done result
  rw [again]
  apply advances.loop_eq
  · exact shorter
  · exact Nat.lt_succ_self _

theorem forever_leave {body : σ → Reader β (σ ⊕ α)} {state : σ} {value : α}
    {input rest : List β} (result : body state input = (some (.inr value), rest)) :
    forever body state input = (some value, rest) := by
  simp only [forever, loop]
  rw [bind_done result]
  rfl

theorem forever_failed {body : σ → Reader β (σ ⊕ α)} {state : σ}
    {input rest : List β} (result : body state input = (none, rest)) :
    forever body state input = (none, rest) := by
  simp only [forever, loop]
  rw [bind_failed result]

theorem Local.forever {body : σ → Reader β (σ ⊕ α)}
    (isLocal : ∀ state, (body state).Local) (advances : Advances body)
    (state : σ) : (forever body state).Local := by
  constructor
  · intro input
    exact (Local.loop isLocal _ state).suffix input
  · intro front rest other value same heads
    have enough : Reader.loop body ((front ++ rest).length +
        (front ++ other).length + 1) state (front ++ rest) = (value, rest) := by
      rw [← same]
      apply advances.loop_eq
      · omega
      · omega
    have stable := (Local.loop isLocal _ state).stable enough heads
    rw [← stable]
    apply advances.loop_eq
    · omega
    · omega

end Reader

end Natsu.Foundation
