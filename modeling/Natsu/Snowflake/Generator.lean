import Mathlib.Algebra.Group.Nat.Defs
import Mathlib.Tactic.ByContra

/-!
# The id generator

`SnowFlake::generate` packs the clock, the machine number and a sequence
number into 64 bits.  The clock is a list of readings, one for every call of
`gettimeofday`; a call that waits takes as many of them as it needs.
-/

namespace Natsu.Snowflake

structure Timeval where
  sec : Int64
  usec : Int64
  deriving DecidableEq, Repr

/-- The reading in milliseconds. -/
def now (tv : Timeval) : UInt64 :=
  tv.usec.toUInt64 / 1000 + (tv.sec * 1000).toUInt64

/-- The singleton is zero-initialised apart from the machine number. -/
structure SnowFlake where
  machine : Int32
  sequence : Nat := 0
  lastTimestamp : Int64 := 0
  deriving DecidableEq, Repr

/-- The clock and the machine number in the bits they have in an id. -/
def timestamp (machine : Int32) (time : UInt64) : Int64 :=
  (time <<< 22).toInt64 ||| ((machine &&& 0x3FF) <<< 12).toInt64

def withSequence (value : Int64) (sequence : Nat) : Int64 :=
  value ||| Int64.ofNat (sequence &&& 0xFFF)

namespace SnowFlake

/-- Read the clock until it shows another timestamp than the last one, or the
readings end. -/
def wait (flake : SnowFlake) : List Timeval → Option (Int64 × List Timeval)
  | [] => none
  | tv :: clock =>
      let value := timestamp flake.machine (now tv)
      if flake.lastTimestamp ≠ value then some (value, clock)
      else wait flake clock

/-- Count a further id, from zero if the clock shows another timestamp than
the last one. -/
def count (flake : SnowFlake) (value : Int64) : SnowFlake :=
  let restarted :=
    if flake.lastTimestamp ≠ value then
      { flake with sequence := 0, lastTimestamp := value }
    else flake
  { restarted with sequence := restarted.sequence + 1 }

/-- One call: the id, the generator after it and the readings left over.
There is no result while the call waits for another reading. -/
def generate (flake : SnowFlake) :
    List Timeval → Option (Int64 × SnowFlake × List Timeval)
  | [] => none
  | tv :: clock =>
      let value := timestamp flake.machine (now tv)
      let flake := flake.count value
      if 0x1000 ≤ flake.sequence then do
        let (value, clock) ← flake.wait clock
        pure (withSequence value 0,
          { flake with sequence := 0, lastTimestamp := value }, clock)
      else
        some (withSequence value flake.sequence, flake, clock)

theorem count_machine (flake : SnowFlake) (value : Int64) :
    (flake.count value).machine = flake.machine := by
  simp only [count]
  split <;> rfl

theorem count_lastTimestamp (flake : SnowFlake) (value : Int64) :
    (flake.count value).lastTimestamp = value := by
  simp only [count]
  split
  · rfl
  · rename_i same
    exact Decidable.not_not.mp same

theorem count_same {flake : SnowFlake} {value : Int64}
    (same : value = flake.lastTimestamp) :
    (flake.count value).sequence = flake.sequence + 1 := by
  simp [count, same]

theorem count_different {flake : SnowFlake} {value : Int64}
    (different : value ≠ flake.lastTimestamp) :
    (flake.count value).sequence = 1 := by
  simp [count, different.symm]

/-- A call that returns shows a timestamp it has read last, which either
differs from the one before or goes with the next sequence number. -/
structure Issues (flake : SnowFlake) (tv : Timeval) (id : Int64)
    (next : SnowFlake) : Prop where
  machine_eq : next.machine = flake.machine
  lastTimestamp_eq : next.lastTimestamp = timestamp flake.machine (now tv)
  id_eq : id = withSequence next.lastTimestamp next.sequence
  sequence_lt : next.sequence < 0x1000
  moves : next.lastTimestamp ≠ flake.lastTimestamp ∨
    next.lastTimestamp = flake.lastTimestamp ∧
      next.sequence = flake.sequence + 1

private theorem wait_eq_some {flake : SnowFlake} (clock : List Timeval) :
    ∀ {value : Int64} {rest : List Timeval},
      flake.wait clock = some (value, rest) →
      ∃ before tv, clock = before ++ tv :: rest ∧
        value = timestamp flake.machine (now tv) ∧
        value ≠ flake.lastTimestamp := by
  induction clock with
  | nil =>
      intro value rest waited
      simp [wait] at waited
  | cons tv clock induction =>
      intro value rest waited
      rw [wait] at waited
      split at waited
      · rename_i different
        obtain ⟨rfl, rfl⟩ := Prod.mk.inj (Option.some.inj waited)
        exact ⟨[], tv, rfl, rfl, different.symm⟩
      · obtain ⟨before, last, rfl, shown, different⟩ := induction waited
        exact ⟨tv :: before, last, rfl, shown, different⟩

/-- What a call that returns has done. -/
theorem generate_cases {flake next : SnowFlake} {clock rest : List Timeval}
    {id : Int64} (generated : flake.generate clock = some (id, next, rest)) :
    ∃ before tv, clock = before ++ tv :: rest ∧ Issues flake tv id next := by
  cases clock with
  | nil => simp [generate] at generated
  | cons tv clock =>
      simp only [generate] at generated
      split at generated
      · rename_i full
        obtain ⟨⟨value, left⟩, waited, issued⟩ :=
          Option.bind_eq_some_iff.mp generated
        obtain ⟨before, last, rfl, shown, different⟩ := wait_eq_some _ waited
        obtain ⟨rfl, rfl, rfl⟩ : withSequence value 0 = id ∧ _ = next ∧
            left = rest := by simpa using issued
        have repeated : timestamp flake.machine (now tv) =
            flake.lastTimestamp := by
          by_contra moved
          rw [count_different moved] at full
          omega
        rw [count_machine] at shown
        rw [count_lastTimestamp, repeated] at different
        refine ⟨tv :: before, last, rfl, ?_⟩
        exact
          { machine_eq := count_machine _ _
            lastTimestamp_eq := shown
            id_eq := rfl
            sequence_lt := Nat.succ_pos _
            moves := .inl different }
      · rename_i room
        obtain ⟨rfl, rfl, rfl⟩ : _ = id ∧ _ = next ∧ clock = rest := by
          simpa using generated
        refine ⟨[], tv, rfl, ?_⟩
        exact
          { machine_eq := count_machine _ _
            lastTimestamp_eq := count_lastTimestamp _ _
            id_eq := by rw [count_lastTimestamp]
            sequence_lt := Nat.lt_of_not_le room
            moves := by
              rw [count_lastTimestamp]
              by_cases same : timestamp flake.machine (now tv) =
                  flake.lastTimestamp
              · exact .inr ⟨same, count_same same⟩
              · exact .inl same }

private theorem wait_isSome {flake : SnowFlake} {clock : List Timeval}
    {tv : Timeval} (member : tv ∈ clock)
    (different : timestamp flake.machine (now tv) ≠ flake.lastTimestamp) :
    (flake.wait clock).isSome := by
  induction clock with
  | nil => simp at member
  | cons first clock induction =>
      rw [wait]
      split
      · rfl
      · rename_i same
        apply induction
        rcases List.mem_cons.mp member with rfl | later
        · exact absurd (Decidable.not_not.mp same).symm different
        · exact later

/-- A call returns as soon as a later reading differs from its first. -/
theorem generate_isSome (flake : SnowFlake) {tv later : Timeval}
    {clock : List Timeval} (member : later ∈ clock)
    (different : timestamp flake.machine (now later) ≠
      timestamp flake.machine (now tv)) :
    (flake.generate (tv :: clock)).isSome := by
  simp only [generate]
  split
  · obtain ⟨waited, result⟩ : ∃ waited,
        (flake.count (timestamp flake.machine (now tv))).wait clock =
          some waited := by
      apply Option.isSome_iff_exists.mp
      apply wait_isSome member
      rw [count_machine, count_lastTimestamp]
      exact different
    rw [result]
    rfl
  · rfl

/-- Some calls one after another: the ids they return, each with the last
reading its call has taken, the generator after them and the readings left
over. -/
inductive Runs : SnowFlake → List Timeval → List (UInt64 × Int64) →
    SnowFlake → List Timeval → Prop where
  | stop {flake : SnowFlake} {clock : List Timeval} :
      Runs flake clock [] flake clock
  | call {flake next final : SnowFlake} {tv : Timeval}
      (before : List Timeval) {rest left : List Timeval} {id : Int64}
      {issued : List (UInt64 × Int64)}
      (generated : flake.generate (before ++ tv :: rest) =
        some (id, next, rest))
      (later : Runs next rest issued final left) :
      Runs flake (before ++ tv :: rest) ((now tv, id) :: issued) final left

theorem issues_of_generate {flake next : SnowFlake} {tv : Timeval}
    {before rest : List Timeval} {id : Int64}
    (generated : flake.generate (before ++ tv :: rest) =
      some (id, next, rest)) :
    Issues flake tv id next := by
  obtain ⟨others, last, split, issues⟩ := generate_cases generated
  have ends : before ++ [tv] ++ rest = others ++ [last] ++ rest := by
    simpa using split
  have last_eq := (List.append_singleton_inj.mp
    (List.append_cancel_right ends)).2
  rwa [last_eq]

end SnowFlake

end Natsu.Snowflake
