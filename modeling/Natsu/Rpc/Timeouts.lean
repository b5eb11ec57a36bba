import Natsu.Foundation.OrderedMap
import Natsu.Rpc.Completion
import Natsu.Rpc.ExampleMessages
import Natsu.Rpc.Matching
import Natsu.Snowflake.Uniqueness

/-!
# The age of a call

`handle_produce_timeout` draws an id of its own and subtracts the ids of the
pending calls from it.  The upper bits of an id are its milliseconds, so the
difference is the age of a call, unless the id is greater than the one that
was drawn: the clock has been set back, and the difference wraps around.
-/

namespace Natsu.Rpc

open Natsu.Foundation Natsu.Libgo Natsu.Snowflake

variable {Service Message : Type}

/-- The milliseconds in the upper bits of an id. -/
def millis (id : UInt64) : Nat := id.toNat / 2 ^ 22

/-- More than 15000 ms before the sweep. -/
def Overdue (n id : UInt64) : Prop := millis id + 15000 < millis n

/-- Less than 15000 ms before the sweep, or later than it. -/
def Recent (n id : UInt64) : Prop := millis n < millis id + 15000

/-- The test of the sweep. -/
def Selected (n id : UInt64) : Prop := n - id > diff

/-- The id is greater than that of the sweep, and not by so much that what is
left to 2^64 is 15000 ms or less. -/
def Ahead (n id : UInt64) : Prop :=
  n < id ∧ id.toNat - n.toNat + 15000 * 2 ^ 22 < 2 ^ 64

section Ages

variable {n id : UInt64}

theorem toNat_diff : diff.toNat = 15000 * 2 ^ 22 := rfl

theorem selected_iff :
    Selected n id ↔
      (id ≤ n ∧ 15000 * 2 ^ 22 < n.toNat - id.toNat) ∨ Ahead n id := by
  have below := n.toNat_lt
  have belowId := id.toNat_lt
  unfold Selected Ahead
  rw [gt_iff_lt, UInt64.lt_iff_toNat_lt, toNat_diff, UInt64.toNat_sub,
    UInt64.le_iff_toNat_le, UInt64.lt_iff_toNat_lt]
  omega

theorem selected_of_overdue (overdue : Overdue n id) : Selected n id := by
  refine selected_iff.mpr (.inl ?_)
  unfold Overdue millis at overdue
  rw [UInt64.le_iff_toNat_le]
  omega

/-- A call that is not due is selected only where the difference wraps. -/
theorem ahead_of_selected (recent : Recent n id) (selected : Selected n id) :
    Ahead n id := by
  rcases selected_iff.mp selected with ⟨_, older⟩ | ahead
  · unfold Recent millis at recent
    omega
  · exact ahead

theorem recent_of_ahead (ahead : Ahead n id) : Recent n id := by
  have later := UInt64.lt_iff_toNat_lt.mp ahead.1
  unfold Recent millis
  omega

/-- Whatever is before an overdue call is overdue. -/
theorem overdue_of_le {other : UInt64} (overdue : Overdue n id)
    (before : other ≤ id) : Overdue n other := by
  have earlier := UInt64.le_iff_toNat_le.mp before
  unfold Overdue millis at overdue ⊢
  omega

end Ages

theorem takeWhile_congr_mem {calls : List Nat} {left right : Nat → Bool}
    (same : ∀ call ∈ calls, left call = right call) :
    calls.takeWhile left = calls.takeWhile right := by
  induction calls with
  | nil => rfl
  | cons call calls induction =>
      obtain ⟨first, others⟩ := List.forall_mem_cons.mp same
      rw [List.takeWhile_cons, List.takeWhile_cons, first, induction others]

namespace Producers

/-- The channel of the call takes a write at once. -/
def takes (producers : Producers Service Message) (call : Nat) : Bool :=
  match producers.calls[call]? with
  | some value => 0 < value.channel.writeBlock.wakeup
  | none => false

/-- Null was written to the channel of the call. -/
def Delivered (before after : Producers Service Message) (call : Nat) : Prop :=
  ∃ value written, before.calls[call]? = some value ∧
    after.calls[call]? = some written ∧
    written.channel.queue = value.channel.queue ++ [none]

/-- The sweep reaches every call that is overdue and none that is not due. -/
structure SelectsByAge (before after : Producers Service Message)
    (n : UInt64) : Prop where
  overdue : ∀ id call, before.kClientRpcChannel[id]? = some call →
    Overdue n id → Delivered before after call
  recent : ∀ id call, before.kClientRpcChannel[id]? = some call →
    Recent n id → ¬ Delivered before after call

/-- Every overdue call takes a write at once, and the sweep spins before it
comes to an id that is ahead of it. -/
structure Punctual (producers : Producers Service Message) (n : UInt64) :
    Prop where
  taken : ∀ id call, producers.kClientRpcChannel[id]? = some call →
    Overdue n id → producers.takes call = true
  unreached : ∀ id call, producers.kClientRpcChannel[id]? = some call →
    Ahead n id → ∃ other earlier,
      producers.kClientRpcChannel[other]? = some earlier ∧ other ≤ id ∧
        Selected n other ∧ producers.takes earlier = false

section Nulls

variable {producers : Producers Service Message} {call : Nat}
  {value : Call Service Message}

theorem calls_pushNull_other {other : Nat} (different : call ≠ other) :
    (producers.pushNull call value).calls[other]? =
      producers.calls[other]? := by
  rcases pushNull_cases producers call value with ⟨channel, _, pushed⟩ | pushed
  · rw [pushed]
    exact List.getElem?_set_ne different
  · rw [pushed]
    rfl

theorem calls_pushNulls_other (calls : List Nat) {other : Nat} :
    ∀ {producers : Producers Service Message}, other ∉ calls →
      (pushNulls calls producers).calls[other]? =
        producers.calls[other]? := by
  induction calls with
  | nil => exact fun _ => rfl
  | cons call calls induction =>
      intro producers absent
      obtain ⟨different, later⟩ := not_or.mp (mt List.mem_cons.mpr absent)
      unfold pushNulls
      split
      · rfl
      · split
        · rfl
        · rw [induction later, calls_pushNull_other (Ne.symm different)]

/-- A null that is taken. -/
theorem pushNull_taken (present : producers.calls[call]? = some value)
    (takes : producers.takes call = true) :
    (producers.pushNull call value).hung = producers.hung ∧
      ∃ written, (producers.pushNull call value).calls[call]? = some written ∧
        written.channel.queue = value.channel.queue ++ [none] := by
  have ready : 0 < value.channel.writeBlock.wakeup := by
    simpa [Producers.takes, present] using takes
  obtain ⟨channel, written, _, _, queue⟩ :=
    Channel.spinWrite_ready ready (none : Option Message)
  have inside := (List.getElem?_eq_some_iff.mp present).1
  have pushed : producers.pushNull call value =
      (producers.notePush call value.parked).setCall call
        { value with channel := channel } := by
    simp only [pushNull, written]
  rw [pushed]
  exact ⟨rfl, _, List.getElem?_set_self inside, queue⟩

/-- A null that is not taken: the sweep spins. -/
theorem pushNull_refused (present : producers.calls[call]? = some value)
    (refuses : producers.takes call = false) :
    (producers.pushNull call value).hung = true ∧
      (producers.pushNull call value).calls = producers.calls := by
  have full : ¬ 0 < value.channel.writeBlock.wakeup := by
    simpa [Producers.takes, present] using refuses
  have spins : value.channel.spinWrite none = none := by
    simp only [Channel.spinWrite, BlockObject.tryBlockWait, if_neg full,
      Option.map_none]
  simp only [pushNull, spins]
  exact ⟨trivial, rfl⟩

theorem delivered_irrefl (producers : Producers Service Message) :
    ¬ Delivered producers producers call := by
  rintro ⟨value, written, present, same, queue⟩
  obtain rfl := Option.some.inj (present.symm.trans same)
  exact absurd (congrArg List.length queue) (by simp)

theorem delivered_congr {before other after : Producers Service Message}
    (same : before.calls[call]? = other.calls[call]?) :
    Delivered before after call ↔ Delivered other after call := by
  unfold Delivered
  rw [same]

/-- Null goes to the calls before the first that does not take it. -/
theorem pushNulls_delivered (calls : List Nat) :
    ∀ {producers : Producers Service Message}, producers.hung = false →
      calls.Nodup → (∀ call ∈ calls, (producers.calls[call]?).isSome) →
      ∀ other, Delivered producers (pushNulls calls producers) other ↔
        other ∈ calls.takeWhile producers.takes := by
  induction calls with
  | nil =>
      intro producers _ _ _ other
      exact iff_of_false (delivered_irrefl producers) List.not_mem_nil
  | cons call calls induction =>
      intro producers running distinct present other
      obtain ⟨absent, distinctLater⟩ := List.nodup_cons.mp distinct
      obtain ⟨isPresent, presentLater⟩ := List.forall_mem_cons.mp present
      obtain ⟨value, isValue⟩ := Option.isSome_iff_exists.mp isPresent
      have unfolded : pushNulls (call :: calls) producers =
          pushNulls calls (producers.pushNull call value) := by
        rw [pushNulls, if_neg (by simp [running]), isValue]
      rw [unfolded, List.takeWhile_cons]
      cases takes : producers.takes call with
      | false =>
          obtain ⟨spins, same⟩ := pushNull_refused isValue takes
          have stops : pushNulls calls (producers.pushNull call value) =
              producers.pushNull call value := by
            cases calls with
            | nil => rfl
            | cons next calls => rw [pushNulls, if_pos spins]
          rw [stops]
          refine iff_of_false ?_ (by simp)
          rintro ⟨before, after, isBefore, isAfter, queue⟩
          rw [same] at isAfter
          exact delivered_irrefl producers
            ⟨before, after, isBefore, isAfter, queue⟩
      | true =>
          obtain ⟨runs, written, isWritten, queue⟩ :=
            pushNull_taken isValue takes
          have others : ∀ later ∈ calls,
              (producers.pushNull call value).calls[later]? =
                producers.calls[later]? := by
            intro later member
            apply calls_pushNull_other
            rintro rfl
            exact absent member
          have rest := @induction (producers.pushNull call value)
            (runs.trans running) distinctLater
            (fun later member => by
              rw [others later member]
              exact presentLater later member)
          have sameTest : ∀ later ∈ calls,
              (producers.pushNull call value).takes later =
                producers.takes later := by
            intro later member
            rw [Producers.takes, Producers.takes, others later member]
          rw [if_pos rfl, List.mem_cons]
          by_cases isCall : call = other
          · subst isCall
            refine iff_of_true ?_ (.inl rfl)
            refine ⟨value, written, isValue, ?_, queue⟩
            rw [calls_pushNulls_other calls absent, isWritten]
          · rw [← delivered_congr (calls_pushNull_other isCall), rest,
              takeWhile_congr_mem sameTest]
            simp [Ne.symm isCall]

end Nulls

section Sweeps

variable {producers : Producers Service Message}

/-- A pending call receives null exactly when it is selected and no call that
is selected up to it refuses its own. -/
theorem delivered_iff (sound : producers.Sound) (running : producers.hung = false)
    (n : UInt64) {id : UInt64} {call : Nat}
    (pending : producers.kClientRpcChannel[id]? = some call) :
    Delivered producers (producers.handleProduceTimeout n) call ↔
      Selected n id ∧ ∀ other earlier,
        producers.kClientRpcChannel[other]? = some earlier → other ≤ id →
        Selected n other → producers.takes earlier = true := by
  let chosen := producers.kClientRpcChannel.toList.filter fun entry =>
    n - entry.1 > diff
  have ordered : chosen.Pairwise fun left right => left.1 < right.1 := by
    refine List.Pairwise.filter _ (List.Pairwise.imp ?_
      producers.kClientRpcChannel.ordered_keys_toList)
    intro left right before
    exact compareOfLessAndEq_eq_lt.mp before
  have mem_chosen : ∀ {other earlier}, (other, earlier) ∈ chosen ↔
      producers.kClientRpcChannel[other]? = some earlier ∧
        Selected n other := by
    intro other earlier
    rw [List.mem_filter, Std.ExtTreeMap.mem_toList_iff_getElem?_eq_some,
      decide_eq_true_iff]
    rfl
  have expired : producers.expired n = chosen.map Prod.snd := rfl
  have present : ∀ call ∈ producers.expired n,
      (producers.calls[call]?).isSome := by
    rw [expired]
    intro call member
    obtain ⟨⟨other, _⟩, isEntry, rfl⟩ := List.mem_map.mp member
    obtain ⟨value, isValue, _⟩ := sound.entries (mem_chosen.mp isEntry).1
    simp [isValue]
  rw [handleProduceTimeout, pushNulls_delivered _ running
    (sound.expired_nodup n) present, expired, List.takeWhile_map,
    List.mem_map]
  have unique : ∀ {other}, producers.kClientRpcChannel[other]? = some call →
      other = id := by
    intro other isOther
    obtain ⟨value, isValue, named, _⟩ := sound.entries pending
    obtain ⟨again, isAgain, otherNamed, _⟩ := sound.entries isOther
    obtain rfl := Option.some.inj (isValue.symm.trans isAgain)
    exact otherNamed.symm.trans named
  constructor
  · rintro ⟨⟨other, _⟩, member, rfl⟩
    obtain ⟨isChosen, all⟩ := (OrderedMap.mem_takeWhile_ordered ordered _ _).mp member
    obtain ⟨isOther, selected⟩ := mem_chosen.mp isChosen
    obtain rfl := unique isOther
    refine ⟨selected, fun earlierId earlier isEarlier atMost isSelected => ?_⟩
    exact all (earlierId, earlier) (mem_chosen.mpr ⟨isEarlier, isSelected⟩)
      atMost
  · rintro ⟨selected, all⟩
    refine ⟨(id, call), (OrderedMap.mem_takeWhile_ordered ordered _ _).mpr ⟨?_, ?_⟩, rfl⟩
    · exact mem_chosen.mpr ⟨pending, selected⟩
    · rintro ⟨other, earlier⟩ member atMost
      obtain ⟨isEarlier, isSelected⟩ := mem_chosen.mp member
      exact all other earlier isEarlier atMost isSelected

/-- Whether a sweep goes by age, on the state that it finds. -/
theorem selectsByAge_iff (sound : producers.Sound)
    (running : producers.hung = false) (n : UInt64) :
    SelectsByAge producers (producers.handleProduceTimeout n) n ↔
      producers.Punctual n := by
  constructor
  · rintro ⟨overdue, recent⟩
    refine ⟨?_, ?_⟩
    · intro id call pending isOverdue
      have delivered := overdue id call pending isOverdue
      obtain ⟨selected, all⟩ :=
        (delivered_iff sound running n pending).mp delivered
      exact all id call pending (UInt64.le_refl id) selected
    · intro id call pending ahead
      have missed := recent id call pending (recent_of_ahead ahead)
      rw [delivered_iff sound running n pending] at missed
      have selected : Selected n id := selected_iff.mpr (.inr ahead)
      by_contra none
      refine missed ⟨selected, ?_⟩
      intro other earlier isEarlier atMost isSelected
      by_contra refuses
      exact none ⟨other, earlier, isEarlier, atMost, isSelected,
        by simpa using refuses⟩
  · rintro ⟨taken, unreached⟩
    refine ⟨?_, ?_⟩
    · intro id call pending isOverdue
      rw [delivered_iff sound running n pending]
      refine ⟨selected_of_overdue isOverdue, ?_⟩
      intro other earlier isEarlier atMost _
      exact taken other earlier isEarlier (overdue_of_le isOverdue atMost)
    · intro id call pending isRecent delivered
      rw [delivered_iff sound running n pending] at delivered
      obtain ⟨selected, all⟩ := delivered
      obtain ⟨other, earlier, isEarlier, atMost, isSelected, refuses⟩ :=
        unreached id call pending (ahead_of_selected isRecent selected)
      rw [all other earlier isEarlier atMost isSelected] at refuses
      cases refuses

end Sweeps

section Issued

open SnowFlake

variable {machine : Int32} {clock rest left : List Timeval}
  {issued : List (UInt64 × Int64)} {final next : SnowFlake}

theorem millis_withSequence (machine : Int32) (time : UInt64) {sequence : Nat}
    (small : sequence < 0x1000) :
    millis (withSequence (timestamp machine time) sequence).toUInt64 =
      time.toNat % 2 ^ 42 := by
  have packed := bits_withSequence machine time small
  have limit := machineNumber_lt machine
  rw [bits_timestamp] at packed
  unfold bits at packed
  unfold millis
  omega

/-- The upper bits of an id that was issued are its reading. -/
theorem millis_issued
    (generated : Runs { machine := machine } clock issued final rest)
    {time : UInt64} {id : Int64} (member : (time, id) ∈ issued) :
    millis id.toUInt64 = time.toNat % 2 ^ 42 := by
  obtain ⟨_, sequence, small, packed⟩ := generated.shape member
  have isPacked : id = withSequence (timestamp machine time) sequence := packed
  rw [isPacked]
  exact millis_withSequence machine time small

theorem millis_drawn {n : Int64}
    (drawn : final.generate rest = some (n, next, left)) :
    ∃ tv ∈ rest, millis n.toUInt64 = (now tv).toNat % 2 ^ 42 := by
  obtain ⟨before, tv, rfl, issues⟩ := generate_cases drawn
  refine ⟨tv, by simp, ?_⟩
  rw [issues.id_eq, issues.lastTimestamp_eq]
  exact millis_withSequence final.machine (now tv) issues.sequence_lt

end Issued

variable [DecidableEq Service]

section Runs

variable {events : List (Event Service Message)}
  {producers : Producers Service Message}

theorem step_sweep_some {n : UInt64} {after : Producers Service Message}
    (swept : producers.step (.sweep n) = some after) :
    producers.hung = false ∧ producers.handleProduceTimeout n = after := by
  refine ⟨?_, Option.some.inj (act_of_step swept)⟩
  unfold step at swept
  split at swept
  · cases swept
  · rename_i running
    simpa using running

theorem consistent_of_run (reached : run {} events = some producers) :
    producers.Consistent := by
  have kept : ∀ {state : Producers Service Message} {event next},
      state.Consistent → True → state.step event = some next →
      next.Consistent :=
    fun consistent _ stepped => step_consistent consistent stepped
  exact invariant_of_forall kept events (fun _ _ => trivial)
    initial_consistent reached

theorem requests_of_run (reached : run {} events = some producers) :
    producers.requests = events.filterMap Event.request? := by
  have kept : ∀ {past : List (Event Service Message)}
      {state : Producers Service Message} {event next},
      state.requests = past.filterMap Event.request? →
      state.step event = some next →
      next.requests = (past ++ [event]).filterMap Event.request? := by
    intro past state event next same stepped
    rw [requests_step stepped, same, List.filterMap_append]
    cases event <;> rfl
  have start : ({} : Producers Service Message).requests =
      ([] : List (Event Service Message)).filterMap Event.request? := rfl
  exact @invariant_of_history _ _ step
    (fun past state => state.requests = past.filterMap Event.request?) kept
    events [] {} producers start reached

/-- A pending id was given to `invoke`. -/
theorem invoked_of_pending (reached : run {} events = some producers)
    {id : UInt64} {call : Nat}
    (pending : producers.kClientRpcChannel[id]? = some call) :
    ∃ service msg, .invoke id service msg ∈ events := by
  obtain ⟨value, isValue, rfl, _⟩ :=
    (consistent_of_run reached).sound.entries pending
  have member : value.request ∈ producers.requests :=
    List.mem_map_of_mem (List.mem_of_getElem? isValue)
  rw [requests_of_run reached] at member
  obtain ⟨event, isEvent, request⟩ := List.mem_filterMap.mp member
  cases event with
  | invoke id service msg =>
      have same := congrArg RpcChannelData.id (Option.some.inj request)
      obtain rfl : id = value.id := same
      exact ⟨service, msg, isEvent⟩
  | _ => cases request

end Runs

/-- The pending ids and the id of the sweep carry the readings that they were
issued at.  The sweep reaches the calls by their age exactly when every overdue
call takes a write and no id is ahead of the sweep, or the sweep spins before
it comes to that id. -/
theorem timeout_selects_iff {machine : Int32} {clock rest left : List Timeval}
    {issued : List (UInt64 × Int64)} {final next : SnowFlake} {n : Int64}
    (generated : SnowFlake.Runs { machine := machine } clock issued final rest)
    (drawn : final.generate rest = some (n, next, left))
    {events : List (Event Service Message)}
    {producers after : Producers Service Message}
    (ids : ∀ id service msg, .invoke id service msg ∈ events →
      ∃ time, (time, id.toInt64) ∈ issued)
    (reached : run {} events = some producers)
    (swept : producers.step (.sweep n.toUInt64) = some after) :
    (∀ id call, producers.kClientRpcChannel[id]? = some call →
      ∃ time, (time, id.toInt64) ∈ issued ∧
        millis id = time.toNat % 2 ^ 42) ∧
    (∃ tv ∈ rest, millis n.toUInt64 = (now tv).toNat % 2 ^ 42) ∧
    (SelectsByAge producers after n.toUInt64 ↔
      producers.Punctual n.toUInt64) := by
  refine ⟨?_, millis_drawn drawn, ?_⟩
  · intro id call pending
    obtain ⟨service, msg, invoked⟩ := invoked_of_pending reached pending
    obtain ⟨time, member⟩ := ids id service msg invoked
    have shown := millis_issued generated member
    rw [UInt64.toUInt64_toInt64] at shown
    exact ⟨time, member, shown⟩
  · have sound := (consistent_of_run reached).sound
    obtain ⟨running, rfl⟩ := step_sweep_some swept
    exact selectsByAge_iff sound running n.toUInt64

namespace Example

/-- One id is issued; then the clock shows the time of the sweep. -/
def readings (sec : Int64) : List Timeval :=
  [{ sec := 1480000010, usec := 0 }, { sec := sec, usec := 0 }]

def pendingId : Int64 := 6207569961943060481

theorem readings_run (sec : Int64) :
    SnowFlake.Runs { machine := 5 } (readings sec)
      [(1480000010000, pendingId)]
      { machine := 5, sequence := 1, lastTimestamp := pendingId - 1 }
      [{ sec := sec, usec := 0 }] :=
  .call [] rfl .stop

/-- A connection takes the request, and the call waits for its response. -/
def waiting : List (Event String String) :=
  [.workerRead 0 "im", .invoke pendingId.toUInt64 "im" "hello"]

theorem waiting_ids : ∀ id service msg, .invoke id service msg ∈ waiting →
    ∃ time, (time, id.toInt64) ∈ [((1480000010000 : UInt64), pendingId)] := by
  intro id service msg member
  obtain ⟨rfl, _⟩ : id = pendingId.toUInt64 ∧ _ := by
    simpa [waiting] using member
  exact ⟨1480000010000, List.mem_singleton.mpr rfl⟩

/-- The call is pending, and its channel takes a write. -/
theorem waiting_reached :
    ∃ producers, run {} waiting = some producers ∧
      producers.hung = false ∧
      (∀ id call, producers.kClientRpcChannel[id]? = some call →
        id = pendingId.toUInt64 ∧ producers.takes call = true) ∧
      producers.kClientRpcChannel[pendingId.toUInt64]? = some 0 := by
  have happens : (run {} waiting).map (fun producers =>
      (producers.hung, producers.kClientRpcChannel.toList,
        producers.takes 0)) =
        some (false, [(pendingId.toUInt64, 0)], true) := by
    decide +kernel
  obtain ⟨producers, reached, state⟩ := Option.map_eq_some_iff.mp happens
  obtain ⟨running, state⟩ := Prod.mk.inj state
  obtain ⟨entries, takes⟩ := Prod.mk.inj state
  refine ⟨producers, reached, running, ?_, ?_⟩
  · intro id call pending
    have member := Std.ExtTreeMap.mem_toList_iff_getElem?_eq_some.mpr pending
    rw [entries] at member
    obtain ⟨rfl, rfl⟩ := Prod.mk.inj (List.mem_singleton.mp member)
    exact ⟨rfl, takes⟩
  · apply Std.ExtTreeMap.mem_toList_iff_getElem?_eq_some.mp
    rw [entries]
    exact List.mem_singleton_self _

theorem step_sweep {producers : Producers String String}
    (running : producers.hung = false) (n : UInt64) :
    producers.step (.sweep n) = some (producers.handleProduceTimeout n) := by
  rw [step, if_neg (by simp [running])]
  rfl

/-- The sweep comes sixteen seconds after the call. -/
theorem timeout_selects_iff_overdue :
    ∃ producers after, run {} waiting = some producers ∧
      producers.step (.sweep 6207570029051924481) = some after ∧
      SelectsByAge producers after 6207570029051924481 := by
  obtain ⟨producers, reached, running, entries, _⟩ := waiting_reached
  have swept := step_sweep running 6207570029051924481
  refine ⟨producers, _, reached, swept, ?_⟩
  apply (@timeout_selects_iff String String _ 5 (readings 1480000026)
    [{ sec := 1480000026, usec := 0 }] [] _ _ _ 6207570029051924481
    (readings_run 1480000026) rfl waiting producers _ waiting_ids reached
    swept).2.2.mpr
  refine ⟨?_, ?_⟩
  · intro id call pending _
    exact (entries id call pending).2
  · intro id call pending ahead
    obtain ⟨rfl, _⟩ := entries id call pending
    exact absurd ahead.1 (by decide)

/-- The clock is set back by ten seconds: the sweep gives null to a call that
has just begun. -/
theorem set_back_clock_ends_call :
    ∃ final next producers after,
      SnowFlake.Runs { machine := 5 } (readings 1480000000)
          [(1480000010000, pendingId)] final
          [{ sec := 1480000000, usec := 0 }] ∧
        final.generate [{ sec := 1480000000, usec := 0 }] =
          some (6207569920000020481, next, []) ∧
        (∀ id service msg, .invoke id service msg ∈ waiting →
          id = pendingId.toUInt64) ∧
        run {} waiting = some producers ∧
        producers.step (.sweep 6207569920000020481) = some after ∧
        ¬ SelectsByAge producers after 6207569920000020481 := by
  obtain ⟨producers, reached, running, entries, pending⟩ := waiting_reached
  refine ⟨_, _, producers, _, readings_run 1480000000, rfl, ?_, reached,
    step_sweep running _, ?_⟩
  · intro id service msg member
    obtain ⟨rfl, _⟩ : id = pendingId.toUInt64 ∧ _ := by
      simpa [waiting] using member
    rfl
  · intro selects
    have sound := (consistent_of_run reached).sound
    have delivered := (delivered_iff sound running 6207569920000020481
      pending).mpr ⟨by unfold Selected; decide, fun other earlier isEarlier _ _ =>
        (entries other earlier isEarlier).2⟩
    exact selects.recent _ _ pending (by unfold Recent; decide) delivered

end Example

end Producers

end Natsu.Rpc
