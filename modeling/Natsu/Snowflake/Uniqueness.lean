import Mathlib.Data.List.Nodup
import Natsu.Snowflake.Fields

/-!
# Ids over whole runs

With a clock that never goes back the ids strictly increase.  The generator
remembers only its last timestamp, so a clock that comes back to a millisecond
makes it issue the same ids again; without such a return the ids are distinct
whatever the order of the milliseconds.
-/

namespace Natsu.Snowflake

namespace SnowFlake

variable {flake next final : SnowFlake} {tv : Timeval} {time : UInt64}
  {id : Int64} {clock left : List Timeval} {issued : List (UInt64 × Int64)}

/-- The generator has read this time last. -/
def At (flake : SnowFlake) (time : UInt64) : Prop :=
  flake.lastTimestamp = timestamp flake.machine time

/-- The last id as a number. -/
def lastBits (flake : SnowFlake) : Nat :=
  bits flake.lastTimestamp + flake.sequence

theorem Issues.at_now (issues : Issues flake tv id next) :
    next.At (now tv) := by
  rw [At, issues.lastTimestamp_eq, issues.machine_eq]

theorem Issues.bits_id (issues : Issues flake tv id next) :
    bits id = next.lastBits := by
  rw [issues.id_eq, lastBits, issues.lastTimestamp_eq,
    bits_withSequence _ _ issues.sequence_lt]

/-- The readings that the calls leave were there before them. -/
theorem Runs.left_subset (run : Runs flake clock issued final left) :
    left ⊆ clock := by
  induction run with
  | stop => exact List.Subset.refl _
  | call _ _ _ induction =>
      intro reading member
      exact List.mem_append_right _ (List.mem_cons_of_mem _ (induction member))

/-- Every id has the fields of a reading. -/
theorem Runs.shape (run : Runs flake clock issued final left)
    {entry : UInt64 × Int64} (member : entry ∈ issued) :
    (∃ tv ∈ clock, entry.1 = now tv) ∧
      ∃ sequence < 0x1000,
        entry.2 = withSequence (timestamp flake.machine entry.1) sequence := by
  induction run with
  | stop => simp at member
  | @call flake next _ tv before rest _ _ _ generated _ induction =>
      have issues := issues_of_generate generated
      rcases List.mem_cons.mp member with rfl | later
      · refine ⟨⟨tv, by simp, rfl⟩, next.sequence, issues.sequence_lt, ?_⟩
        rw [issues.id_eq, issues.lastTimestamp_eq]
      · obtain ⟨⟨reading, present, shown⟩, packed⟩ := induction later
        rw [issues.machine_eq] at packed
        exact ⟨⟨reading, by simp [present], shown⟩, packed⟩

section Increasing

/-- A reading that is not before the last one gives a greater id. -/
theorem Issues.lastBits_lt (issues : Issues flake tv id next)
    (shows : flake.At time) (small : flake.sequence < 0x1000)
    (ordered : time ≤ now tv) (early : (now tv).toNat < 2 ^ 41) :
    flake.lastBits < next.lastBits := by
  rcases issues.moves with moved | ⟨same, counted⟩
  · have different : time ≠ now tv := by
      rintro rfl
      rw [issues.lastTimestamp_eq] at moved
      exact moved shows.symm
    have before : time.toNat < (now tv).toNat :=
      UInt64.lt_iff_toNat_lt.mp (UInt64.lt_of_le_of_ne ordered different)
    have below := (timestamp_lt flake.machine time (by omega)).1
    rw [lastBits, lastBits, shows, issues.lastTimestamp_eq,
      bits_timestamp _ (now tv)]
    omega
  · rw [lastBits, lastBits, same, counted]
    omega

/-- The ids increase.  From a generator that has read the clock before, they
are greater than its last id. -/
theorem Runs.increase (run : Runs flake clock issued final left) :
    clock.Pairwise (fun earlier later => now earlier ≤ now later) →
    (∀ tv ∈ clock, (now tv).toNat < 2 ^ 41) →
    issued.Pairwise (fun earlier later => bits earlier.2 < bits later.2) ∧
      ∀ {time : UInt64}, flake.At time → flake.sequence < 0x1000 →
        (∀ tv ∈ clock, time ≤ now tv) →
        ∀ entry ∈ issued, flake.lastBits < bits entry.2 := by
  induction run with
  | stop =>
      intro _ _
      refine ⟨.nil, ?_⟩
      simp
  | @call flake next _ tv before rest _ id issued generated _ induction =>
      intro ordered early
      have issues := issues_of_generate generated
      obtain ⟨_, ordered, _⟩ := List.pairwise_append.mp ordered
      obtain ⟨afterReading, ordered⟩ := List.pairwise_cons.mp ordered
      obtain ⟨increasing, greater⟩ := induction ordered
        fun reading member => early reading (by simp [member])
      have above := greater issues.at_now issues.sequence_lt afterReading
      rw [← issues.bits_id] at above
      refine ⟨List.pairwise_cons.mpr ⟨above, increasing⟩, ?_⟩
      intro time shows small after entry member
      have first : flake.lastBits < bits id := by
        rw [issues.bits_id]
        apply issues.lastBits_lt shows small (after tv (by simp))
        exact early tv (by simp)
      rcases List.mem_cons.mp member with rfl | later
      · exact first
      · exact Nat.lt_trans first (above entry later)

theorem Runs.positive (run : Runs flake clock issued final left)
    (early : ∀ tv ∈ clock, (now tv).toNat < 2 ^ 41)
    {entry : UInt64 × Int64} (member : entry ∈ issued) :
    bits entry.2 < 2 ^ 63 := by
  obtain ⟨⟨tv, present, shown⟩, sequence, small, packed⟩ := run.shape member
  have bound : entry.1.toNat < 2 ^ 41 := by
    rw [shown]
    exact early tv present
  obtain ⟨below, limit⟩ := timestamp_lt flake.machine entry.1 bound
  rw [packed, bits_withSequence _ _ small]
  omega

end Increasing

end SnowFlake

open SnowFlake in
/-- With a clock that never goes back each id is greater than every earlier
one and has its reading, machine and sequence number as fields.  A further
call returns as soon as the clock has advanced. -/
theorem ids_increase (machine : Int32) {clock rest : List Timeval}
    (ordered : clock.Pairwise fun earlier later => now earlier ≤ now later)
    (early : ∀ tv ∈ clock, (now tv).toNat < 2 ^ 41)
    {issued : List (UInt64 × Int64)} {final : SnowFlake}
    (run : Runs { machine := machine } clock issued final rest) :
    (issued.map Prod.snd).Pairwise (· < ·) ∧
    (∀ entry ∈ issued, Recoverable machine entry.1 entry.2) ∧
    ∀ tv later, rest = tv :: later → (∃ other ∈ later, now other ≠ now tv) →
      (final.generate rest).isSome := by
  refine ⟨?_, ?_, ?_⟩
  · rw [List.pairwise_map]
    refine (run.increase ordered early).1.imp_of_mem ?_
    intro first second firstMember secondMember increases
    rw [Int64.lt_iff_toInt_lt, toInt_eq_bits (run.positive early firstMember),
      toInt_eq_bits (run.positive early secondMember)]
    exact Int.ofNat_lt.mpr increases
  · intro entry member
    obtain ⟨⟨tv, present, shown⟩, sequence, small, packed⟩ := run.shape member
    rw [packed]
    apply withSequence_recoverable _ _ _ small
    rw [shown]
    exact early tv present
  · rintro tv later rfl ⟨other, member, different⟩
    have subset := run.left_subset
    have earlyFirst := early tv (subset (by simp))
    have earlyOther := early other (subset (by simp [member]))
    apply generate_isSome final member
    rw [Ne, timestamp_inj]
    intro same
    apply different
    apply UInt64.toNat_inj.mp
    omega

namespace Example

/-- The readings 1000, 1000 and 1001. -/
def steadyClock : List Timeval :=
  [{ sec := 1, usec := 0 }, { sec := 1, usec := 500 },
    { sec := 1, usec := 1000 }]

private theorem steadyClock_runs :
    SnowFlake.Runs { machine := 5 } steadyClock
      [(1000, 4194324481), (1000, 4194324482), (1001, 4198518785)]
      { machine := 5, sequence := 1, lastTimestamp := 4198518784 } [] :=
  .call [] rfl (.call [] rfl (.call [] rfl .stop))

theorem ids_increase_steady :
    ([4194324481, 4194324482, 4198518785] : List Int64).Pairwise (· < ·) ∧
      Recoverable 5 1001 4198518785 := by
  obtain ⟨increasing, recoverable, _⟩ :=
    ids_increase 5 (by decide) (by decide) steadyClock_runs
  exact ⟨increasing, recoverable (1001, 4198518785) (by simp)⟩

end Example

/-- Once another element has been shown, an earlier one does not come back. -/
def NeverReturns {α : Type} [DecidableEq α] : List α → Prop
  | [] => True
  | shown :: later => shown ∉ later.dropWhile (· = shown) ∧ NeverReturns later

instance NeverReturns.decidable {α : Type} [DecidableEq α] :
    (shown : List α) → Decidable (NeverReturns shown)
  | [] => isTrue trivial
  | shown :: later =>
      have := NeverReturns.decidable later
      inferInstanceAs (Decidable (shown ∉ later.dropWhile (· = shown) ∧ _))

section Returns

variable {α β : Type} [DecidableEq α] [DecidableEq β]

theorem NeverReturns.of_append (before : List α) {after : List α}
    (never : NeverReturns (before ++ after)) : NeverReturns after := by
  induction before with
  | nil => exact never
  | cons shown before induction => exact induction never.2

private theorem subset_dropWhile {shown other : α} (different : other ≠ shown)
    (before after : List α) :
    other :: after ⊆
      (before ++ other :: after).dropWhile (· = shown) := by
  induction before with
  | nil => simp [different]
  | cons first before induction =>
      rw [List.cons_append, List.dropWhile_cons]
      split
      · exact induction
      · intro element member
        exact List.mem_cons_of_mem _ (List.mem_append_right _ member)

theorem NeverReturns.not_mem {shown other : α} {before after : List α}
    (never : NeverReturns (shown :: (before ++ other :: after)))
    (different : other ≠ shown) : shown ∉ after := by
  intro member
  apply never.1
  exact subset_dropWhile different before after (List.mem_cons_of_mem _ member)

theorem NeverReturns.map_of_map {ι : Type} {first : ι → α} {second : ι → β}
    (same : ∀ left right, second left = second right ↔
      first left = first right) {elements : List ι}
    (never : NeverReturns (elements.map first)) :
    NeverReturns (elements.map second) := by
  induction elements with
  | nil => trivial
  | cons shown later induction =>
      obtain ⟨gone, never⟩ := never
      refine ⟨?_, induction never⟩
      rw [List.dropWhile_map] at gone ⊢
      intro returned
      obtain ⟨element, member, equal⟩ := List.mem_map.mp returned
      apply gone
      simp only [Function.comp_def, same] at member ⊢
      exact List.mem_map.mpr ⟨element, member, (same _ _).mp equal⟩

end Returns

namespace SnowFlake

variable {flake next final : SnowFlake} {tv : Timeval}
  {clock left : List Timeval} {issued : List (UInt64 × Int64)}

/-- Ids with different timestamps differ. -/
private theorem timestamp_of_ids {machine : Int32} {time other : UInt64}
    {sequence otherSequence : Nat} (small : sequence < 0x1000)
    (otherSmall : otherSequence < 0x1000)
    (same : withSequence (timestamp machine time) sequence =
      withSequence (timestamp machine other) otherSequence) :
    timestamp machine time = timestamp machine other := by
  have equality := congrArg bits same
  rw [bits_withSequence _ _ small, bits_withSequence _ _ otherSmall,
    bits_timestamp, bits_timestamp] at equality
  rw [timestamp_inj]
  omega

private theorem Issues.id_fresh {id : Int64}
    (issues : Issues flake tv id next)
    (later : Runs next clock issued final left)
    (above : ∀ entry ∈ issued,
      timestamp next.machine entry.1 = next.lastTimestamp →
      next.lastBits < bits entry.2) :
    id ∉ issued.map Prod.snd := by
  intro repeated
  obtain ⟨entry, member, same⟩ := List.mem_map.mp repeated
  obtain ⟨_, sequence, small, packed⟩ := later.shape member
  have last : timestamp next.machine entry.1 = next.lastTimestamp := by
    rw [packed, issues.id_eq, issues.at_now] at same
    rw [issues.at_now]
    exact timestamp_of_ids small issues.sequence_lt same
  have greater := above entry member last
  rw [same, issues.bits_id] at greater
  omega

/-- The ids are distinct as long as no timestamp returns.  Those with the last
timestamp of the generator are then greater than its last id. -/
theorem Runs.distinct (run : Runs flake clock issued final left) :
    NeverReturns (clock.map fun tv => timestamp flake.machine (now tv)) →
    (issued.map Prod.snd).Nodup ∧
      (NeverReturns (flake.lastTimestamp ::
          clock.map fun tv => timestamp flake.machine (now tv)) →
        ∀ entry ∈ issued,
          timestamp flake.machine entry.1 = flake.lastTimestamp →
          flake.lastBits < bits entry.2) := by
  induction run with
  | stop =>
      intro _
      refine ⟨.nil, ?_⟩
      simp
  | @call flake next _ tv before rest _ id issued generated later induction =>
      intro never
      have issues := issues_of_generate generated
      rw [List.map_append, List.map_cons, ← issues.lastTimestamp_eq] at never
      have neverNext := never.of_append
      rw [← issues.machine_eq] at neverNext
      obtain ⟨distinct, greater⟩ := induction neverNext.2
      have above := greater neverNext
      constructor
      · apply List.nodup_cons.mpr
        exact ⟨issues.id_fresh later above, distinct⟩
      · intro neverLast entry member last
        rw [List.map_append, List.map_cons, ← issues.lastTimestamp_eq]
          at neverLast
        rcases issues.moves with moved | ⟨same, counted⟩
        · have gone := neverLast.not_mem moved
          rcases List.mem_cons.mp member with rfl | laterMember
          · rw [issues.lastTimestamp_eq] at moved
            exact absurd last moved
          · obtain ⟨⟨reading, present, shown⟩, _⟩ := later.shape laterMember
            rw [shown] at last
            exact absurd (List.mem_map.mpr ⟨reading, present, last⟩) gone
        · have first : flake.lastBits < next.lastBits := by
            rw [lastBits, lastBits, same, counted]
            omega
          rcases List.mem_cons.mp member with rfl | laterMember
          · rw [issues.bits_id]
            exact first
          · rw [← issues.machine_eq, ← same] at last
            exact Nat.lt_trans first (above entry laterMember last)

end SnowFlake

open SnowFlake in
/-- The ids of a run are distinct if no reading comes back to a millisecond
after another one was shown, in the 42 bits that an id keeps of it. -/
theorem ids_distinct (machine : Int32) {clock rest : List Timeval}
    (never : NeverReturns (clock.map fun tv => (now tv).toNat % 2 ^ 42))
    {issued : List (UInt64 × Int64)} {final : SnowFlake}
    (run : Runs { machine := machine } clock issued final rest) :
    (issued.map Prod.snd).Nodup := by
  have neverStamped : NeverReturns
      (clock.map fun tv => timestamp machine (now tv)) :=
    never.map_of_map fun _ _ => timestamp_inj machine
  exact (run.distinct neverStamped).1

namespace Example

/-- The readings 1000, 1001 and 1000. -/
def steppingClock : List Timeval :=
  [{ sec := 1, usec := 0 }, { sec := 1, usec := 1000 },
    { sec := 1, usec := 0 }]

theorem ids_repeat :
    ∃ issued final,
      SnowFlake.Runs { machine := 5 } steppingClock issued final [] ∧
        ¬ (issued.map Prod.snd).Nodup :=
  ⟨[(1000, 4194324481), (1001, 4198518785), (1000, 4194324481)], _,
    .call [] rfl (.call [] rfl (.call [] rfl .stop)), by decide⟩

theorem ids_distinct_steady :
    ([4194324481, 4194324482, 4198518785] : List Int64).Nodup :=
  ids_distinct 5 (by decide) steadyClock_runs

end Example

namespace SnowFlake

/-- A generator that was given a machine number, and a run of it. -/
structure Machine where
  machine : Int32
  clock : List Timeval
  issued : List (UInt64 × Int64)
  final : SnowFlake
  left : List Timeval
  run : Runs { machine := machine } clock issued final left

/-- The machine number in an id. -/
def machineOf (id : Int64) : Nat := bits id / 2 ^ 12 % 1024

variable {clock left : List Timeval} {issued : List (UInt64 × Int64)}
  {flake final : SnowFlake}

theorem Runs.machineOf_id (run : Runs flake clock issued final left)
    {entry : UInt64 × Int64} (member : entry ∈ issued) :
    machineOf entry.2 = machineNumber flake.machine := by
  obtain ⟨_, sequence, small, packed⟩ := run.shape member
  have number := machineNumber_lt flake.machine
  rw [machineOf, packed, bits_withSequence _ _ small, bits_timestamp]
  omega

end SnowFlake

open SnowFlake in
/-- Machines with different numbers never issue the same id, whatever their
clocks show; and all ids of a fleet are distinct if each of its clocks alone
never comes back to a millisecond, in the 42 bits that an id keeps of it. -/
theorem fleet_ids_distinct {fleet : List Machine}
    (numbered : fleet.Pairwise fun first second =>
      machineNumber first.machine ≠ machineNumber second.machine) :
    (fleet.Pairwise fun first second =>
      List.Disjoint (first.issued.map Prod.snd)
        (second.issued.map Prod.snd)) ∧
    ((∀ machine ∈ fleet,
        NeverReturns (machine.clock.map fun tv =>
          (now tv).toNat % 2 ^ 42)) →
      (fleet.flatMap fun machine => machine.issued.map Prod.snd).Nodup) := by
  have apart : fleet.Pairwise fun first second =>
      List.Disjoint (first.issued.map Prod.snd)
        (second.issued.map Prod.snd) := by
    refine numbered.imp ?_
    intro first second different id inFirst inSecond
    obtain ⟨entry, member, rfl⟩ := List.mem_map.mp inFirst
    obtain ⟨other, otherMember, same⟩ := List.mem_map.mp inSecond
    have number := first.run.machineOf_id member
    rw [← same, second.run.machineOf_id otherMember] at number
    exact different number.symm
  refine ⟨apart, ?_⟩
  intro never
  refine List.nodup_flatMap.mpr ⟨?_, apart⟩
  intro machine member
  have neverStamped : NeverReturns
      (machine.clock.map fun tv => timestamp machine.machine (now tv)) :=
    (never machine member).map_of_map fun _ _ => timestamp_inj machine.machine
  exact (machine.run.distinct neverStamped).1

namespace Example

theorem steppingClock_runs :
    SnowFlake.Runs { machine := 6 } steppingClock
      [(1000, 4194328577), (1001, 4198522881), (1000, 4194328577)]
      { machine := 6, sequence := 1, lastTimestamp := 4194328576 } [] :=
  .call [] rfl (.call [] rfl (.call [] rfl .stop))

def twoMachines : List SnowFlake.Machine :=
  [⟨5, _, _, _, _, steadyClock_runs⟩, ⟨6, _, _, _, _, steppingClock_runs⟩]

/-- The clock of the second machine steps back, and it repeats an id. -/
theorem fleet_ids_distinct_two :
    List.Disjoint ([4194324481, 4194324482, 4198518785] : List Int64)
      [4194328577, 4198522881, 4194328577] := by
  have numbered : twoMachines.Pairwise fun first second =>
      machineNumber first.machine ≠ machineNumber second.machine := by
    simp [twoMachines]
    decide
  have apart := (fleet_ids_distinct numbered).1
  exact (List.pairwise_cons.mp apart).1 _ List.mem_cons_self

end Example

end Natsu.Snowflake
