import Natsu.Rpc.HandOver

/-!
# The write that completes a call

A call reads its channel once, after its request has been handed over.  A
response meets that read from then on; a sweep, which runs outside of a
coroutine, only once the call is parked there; and neither if there has been
another before.
-/

namespace Natsu.Rpc

open Natsu.Libgo Natsu.Foundation

variable {Service Message : Type}

/-- The write meets its reader and is the only one. -/
def Push.Completes (push : Push) : Prop :=
  push.ready = true ∧ push.again = false

namespace Producers

/-- Every write so far completes its call. -/
def Completed (producers : Producers Service Message) : Prop :=
  ∀ push ∈ producers.pushes, push.Completes

/-- The calls that an event writes to. -/
def addresses (producers : Producers Service Message) :
    Event Service Message → List Nat
  | .response _ rid _ => producers.kClientRpcChannel[rid]?.toList
  | .sweep n => producers.expired n
  | _ => []

/-- A write by this event meets the read of the call: before a response its
request has been handed over, before a sweep it has come to its read. -/
def meets [DecidableEq Service] (producers : Producers Service Message)
    (past : List (Event Service Message)) (call : Nat) :
    Event Service Message → Bool
  | .sweep _ => producers.calls[call]?.any Call.reads
  | _ => producers.handedOver past call

/-- The calls that the events of a run have addressed. -/
def addressedIn [DecidableEq Service] (producers : Producers Service Message) :
    List (Event Service Message) → List Nat
  | [] => []
  | event :: events =>
      producers.addresses event ++
        match producers.step event with
        | none => []
        | some next => next.addressedIn events

/-- After these events this one addresses only calls whose read it meets, and
which none of them has addressed. -/
def Timely [DecidableEq Service]
    (reached : Producers Service Message × List (Event Service Message))
    (event : Event Service Message) : Prop :=
  ∀ call ∈ reached.1.addresses event,
    reached.1.meets reached.2 call event = true ∧
      call ∉ addressedIn {} reached.2

instance Timely.decidable [DecidableEq Service]
    (reached : Producers Service Message × List (Event Service Message))
    (event : Event Service Message) : Decidable (Timely reached event) :=
  inferInstanceAs (Decidable (∀ call ∈ _, _))

variable {producers : Producers Service Message}

section Completed

variable {call : Nat} {value : Call Service Message}

/-- Reading the reply writes to no call. -/
theorem readReply_pushes :
    (producers.readReply call value).pushes = producers.pushes := by
  unfold Producers.readReply
  split
  · rfl
  · rfl

theorem Completed.notePush (completed : producers.Completed)
    (unaddressed : call ∉ producers.addressed) :
    (producers.notePush call true).Completed := by
  intro push member
  rcases List.mem_append.mp member with earlier | isNew
  · exact completed push earlier
  · obtain rfl := List.mem_singleton.mp isNew
    exact ⟨rfl, decide_eq_false unaddressed⟩

/-- A call that has come to its read is parked there until something is
written to it. -/
theorem Consistent.parked (consistent : producers.Consistent)
    (present : producers.calls[call]? = some value)
    (reads : value.reads = true) (unaddressed : call ∉ producers.addressed) :
    value.parked = true := by
  obtain ⟨_, woken, _⟩ := consistent.sound.untouched present unaddressed
  cases stage : value.stage with
  | serviceWrite => simp [Call.reads, stage] at reads
  | clientRead =>
      have waits := consistent.sound.reading present stage
      simpa [Call.parked, stage, BlockObject.tasks, woken] using waits
  | returned rsp => simp [Call.reads, stage] at reads

theorem pushNull_pushes :
    (producers.pushNull call value).pushes =
      (producers.notePush call value.parked).pushes := by
  rcases pushNull_cases producers call value with ⟨channel, _, pushed⟩ | pushed
  · rw [pushed]
    rfl
  · rw [pushed]

theorem addressed_pushNull {other : Nat} :
    other ∈ (producers.pushNull call value).addressed ↔
      other ∈ producers.addressed ∨ other = call := by
  unfold addressed
  rw [pushNull_pushes]
  exact addressed_notePush

/-- A write to one call changes neither where the others stand nor what has been
written to them. -/
theorem pushNull_other {other : Nat} (different : other ≠ call)
    (unaddressed : other ∉ producers.addressed) :
    (producers.pushNull call value).calls[other]? = producers.calls[other]? ∧
      other ∉ (producers.pushNull call value).addressed := by
  constructor
  · rcases pushNull_cases producers call value with ⟨channel, _, pushed⟩ | pushed
    · rw [pushed]
      exact List.getElem?_set_ne (Ne.symm different)
    · rw [pushed]
      rfl
  · rw [addressed_pushNull, not_or]
    exact ⟨unaddressed, different⟩

theorem pushNulls_completed (calls : List Nat) :
    ∀ {producers : Producers Service Message}, producers.Completed →
      producers.Consistent → calls.Nodup →
      (∀ call ∈ calls, producers.calls[call]?.any Call.reads = true ∧
        call ∉ producers.addressed) →
      (pushNulls calls producers).Completed := by
  induction calls with
  | nil =>
      intro producers completed _ _ _
      exact completed
  | cons call calls induction =>
      intro producers completed consistent nodup timely
      obtain ⟨notLater, nodupLater⟩ := List.nodup_cons.mp nodup
      obtain ⟨reads, unaddressed⟩ := timely call List.mem_cons_self
      unfold pushNulls
      split
      · exact completed
      · split
        · exact completed
        · rename_i value present
          rw [present] at reads
          have isParked := consistent.parked present reads unaddressed
          refine induction ?_ (pushNull_consistent consistent present)
            nodupLater ?_
          · unfold Completed
            rw [pushNull_pushes, isParked]
            exact completed.notePush unaddressed
          · intro other member
            obtain ⟨otherReads, otherUnaddressed⟩ :=
              timely other (List.mem_cons_of_mem _ member)
            have different : other ≠ call := fun same => notLater (same ▸ member)
            obtain ⟨same, stillUnaddressed⟩ :=
              pushNull_other different otherUnaddressed
            exact ⟨same ▸ otherReads, stillUnaddressed⟩

/-- Different entries belong to different calls. -/
theorem Sound.expired_nodup (sound : producers.Sound) (n : UInt64) :
    (producers.expired n).Nodup := by
  unfold expired
  rw [List.nodup_iff_pairwise_ne, List.pairwise_map]
  refine List.Pairwise.imp_of_mem ?_
    ((Std.ExtTreeMap.distinct_keys_toList).filter _)
  rintro ⟨id, call⟩ ⟨otherId, other⟩ member otherMember distinct rfl
  have entry := Std.ExtTreeMap.mem_toList_iff_getElem?_eq_some.mp
    (List.mem_filter.mp member).1
  have otherEntry := Std.ExtTreeMap.mem_toList_iff_getElem?_eq_some.mp
    (List.mem_filter.mp otherMember).1
  obtain ⟨value, present, named, _⟩ := sound.entries entry
  obtain ⟨otherValue, otherPresent, otherNamed, _⟩ := sound.entries otherEntry
  rw [present] at otherPresent
  obtain rfl := Option.some.inj otherPresent
  simp [← named, ← otherNamed] at distinct

end Completed

section Addressed

variable {next : Producers Service Message}

/-- What a sweep has written to is among the calls it goes through. -/
theorem pushNulls_addressed (calls : List Nat) :
    ∀ {producers : Producers Service Message}, ∀ other ∈
      (pushNulls calls producers).addressed,
      other ∈ producers.addressed ∨ other ∈ calls := by
  induction calls with
  | nil =>
      intro producers other member
      exact .inl member
  | cons call calls induction =>
      intro producers other member
      unfold pushNulls at member
      split at member
      · exact .inl member
      · split at member
        · exact .inl member
        · rcases induction other member with pushed | later
          · rcases addressed_pushNull.mp pushed with earlier | rfl
            · exact .inl earlier
            · exact .inr List.mem_cons_self
          · exact .inr (List.mem_cons_of_mem _ later)

theorem response_addressed {reader : Nat} {rid : UInt64} {message : Message}
    (step : producers.response reader rid message = some next) :
    ∀ other ∈ next.addressed, other ∈ producers.addressed ∨
      other ∈ producers.addresses (.response reader rid message) := by
  intro other member
  rcases response_cases step with rfl |
    ⟨call, value, channel, entry, present, written⟩
  · exact .inl member
  · have noted : other ∈ (producers.notePush call
        (producers.ready call value)).addressed := by
      rcases written with ⟨_, rfl⟩ | ⟨_, rfl⟩
      · exact member
      · exact member
    rcases addressed_notePush.mp noted with earlier | rfl
    · exact .inl earlier
    · exact .inr (by simp [addresses, entry])

end Addressed

variable [DecidableEq Service]

theorem invoke_pushes {id : UInt64} {service : Service} {msg : Message} :
    (producers.invoke id service msg).pushes = producers.pushes := by
  simp only [invoke]
  split
  · rfl
  · exact readReply_pushes

/-- Only responses and sweeps write to calls. -/
theorem step_pushes {next : Producers Service Message}
    {event : Event Service Message}
    (stepped : producers.step event = some next) :
    next.pushes = producers.pushes ∨
      (∃ reader rid message, event = .response reader rid message ∧
        producers.response reader rid message = some next) ∨
      ∃ n, event = .sweep n ∧ next = producers.handleProduceTimeout n := by
  have acted := act_of_step stepped
  cases event with
  | invoke id service msg =>
      obtain rfl := Option.some.inj acted
      exact .inl invoke_pushes
  | runInvoke call =>
      obtain ⟨value, _, ⟨channel, _, _, rfl⟩ | ⟨rsp, channel, _, _, rfl⟩⟩ :=
        runInvoke_cases acted
      · exact .inl readReply_pushes
      · exact .inl rfl
  | workerRead worker service =>
      rcases workerRead_cases acted with ⟨_, _, _, rfl⟩ | ⟨_, _, rfl⟩
      · exact .inl rfl
      · exact .inl rfl
  | runWorker worker service =>
      obtain ⟨data, channel, _, rfl⟩ := runWorker_cases acted
      exact .inl rfl
  | response reader rid message =>
      exact .inr (.inl ⟨reader, rid, message, rfl, acted⟩)
  | runReader reader =>
      obtain ⟨call, message, value, channel, _, _, _, rfl⟩ :=
        runReader_cases acted
      exact .inl rfl
  | sweep n =>
      obtain rfl := Option.some.inj acted
      exact .inr (.inr ⟨n, rfl, rfl⟩)

theorem addressedIn_concat (event : Event Service Message)
    (past : List (Event Service Message)) :
    ∀ {start : Producers Service Message}, run start past = some producers →
      start.addressedIn (past ++ [event]) =
        start.addressedIn past ++ producers.addresses event := by
  induction past with
  | nil =>
      intro start reached
      obtain rfl := Option.some.inj reached
      simp only [List.nil_append, addressedIn]
      split <;> simp
  | cons first past induction =>
      intro start reached
      obtain ⟨next, stepped, rest⟩ := Option.bind_eq_some_iff.mp reached
      have continued := induction rest
      simp only [List.cons_append, addressedIn, stepped, continued,
        List.append_assoc]

/-- The state that a run of timely events has reached. -/
structure Tracked
    (reached : Producers Service Message × List (Event Service Message)) :
    Prop where
  reached_eq : run {} reached.2 = some reached.1
  consistent : reached.1.Consistent
  queued : reached.1.QueuedAfter reached.2
  recorded : ∀ call ∈ reached.1.addressed, call ∈ addressedIn {} reached.2
  completed : reached.1.Completed

section Tracked

variable {past : List (Event Service Message)}
  {next : Producers Service Message} {event : Event Service Message}

theorem Tracked.recorded_step (tracked : Tracked (producers, past))
    (stepped : producers.step event = some next) :
    ∀ call ∈ next.addressed, call ∈ addressedIn {} (past ++ [event]) := by
  intro call member
  rw [addressedIn_concat event past tracked.reached_eq]
  have split : call ∈ producers.addressed ∨
      call ∈ producers.addresses event := by
    rcases step_pushes stepped with same |
      ⟨reader, rid, message, rfl, responded⟩ | ⟨n, rfl, rfl⟩
    · unfold addressed at member
      rw [same] at member
      exact .inl member
    · exact response_addressed responded call member
    · exact pushNulls_addressed _ call member
  rcases split with earlier | here
  · exact List.mem_append_left _ (tracked.recorded call earlier)
  · exact List.mem_append_right _ here

theorem Tracked.completed_step (tracked : Tracked (producers, past))
    (timely : Timely (producers, past) event)
    (stepped : producers.step event = some next) : next.Completed := by
  have consistent : producers.Consistent := tracked.consistent
  have completed : producers.Completed := tracked.completed
  have fresh : ∀ call, call ∉ addressedIn {} past →
      call ∉ producers.addressed :=
    fun call absent member => absent (tracked.recorded call member)
  rcases step_pushes stepped with same |
    ⟨reader, rid, message, rfl, responded⟩ | ⟨n, rfl, rfl⟩
  · unfold Completed
    rw [same]
    exact completed
  · rcases response_cases responded with rfl |
      ⟨call, value, channel, entry, present, written⟩
    · exact completed
    · obtain ⟨handed, unaddressed⟩ := timely call (by simp [addresses, entry])
      have isReady : producers.ready call value = true :=
        (consistent.ready_iff present (fresh call unaddressed)).mpr
          (tracked.queued.left present handed)
      have noted := completed.notePush (fresh call unaddressed)
      rw [← isReady] at noted
      rcases written with ⟨_, rfl⟩ | ⟨_, rfl⟩
      · exact noted
      · exact noted
  · refine pushNulls_completed _ completed consistent
      (consistent.sound.expired_nodup n) fun call member => ?_
    obtain ⟨reads, unaddressed⟩ := timely call member
    exact ⟨reads, fresh call unaddressed⟩

theorem Tracked.step (tracked : Tracked (producers, past))
    (timely : Timely (producers, past) event)
    (stepped : producers.step event = some next) :
    Tracked (next, past ++ [event]) where
  reached_eq := by
    have before : runWith Producers.step {} past = some producers :=
      tracked.reached_eq
    show runWith Producers.step {} (past ++ [event]) = some next
    rw [runWith_append, before]
    simp [runWith, stepped]
  consistent := step_consistent tracked.consistent stepped
  queued := step_queuedAfter tracked.queued stepped
  recorded := tracked.recorded_step stepped
  completed := tracked.completed_step timely stepped

end Tracked

/-- In every run in which a response addresses only calls whose request has
been handed over, a sweep only calls that have come to their read, and both only
calls that nothing has addressed before, every write completes its call. -/
theorem writes_complete_calls (events : List (Event Service Message))
    (timely : Throughout (recording step) Timely ({}, []) events) :
    ∀ before, before <+: events → ∀ producers : Producers Service Message,
      run {} before = some producers → producers.Completed := by
  rintro before ⟨after, rfl⟩ producers reached
  have kept : ∀ {reached : Producers Service Message ×
        List (Event Service Message)} {event next},
      Tracked reached → Timely reached event →
      recording step reached event = some next → Tracked next := by
    intro reached event next tracked fits recorded
    obtain ⟨state, stepped, rfl⟩ := Option.map_eq_some_iff.mp recorded
    exact Tracked.step tracked fits stepped
  have start : Tracked (({}, []) : Producers Service Message ×
      List (Event Service Message)) := by
    refine ⟨rfl, initial_consistent, initial_queuedAfter, ?_, ?_⟩
    · intro call member
      simp [addressed] at member
    · intro push member
      simp at member
  have recorded : runWith (recording step) ({}, []) before =
      some (producers, [] ++ before) := by
    have same : runWith step {} before = some producers := reached
    rw [runWith_recording, same]
    rfl
  exact (invariant_of_throughout kept before start
    (timely.of_append before after) recorded).completed

namespace Example

/-- The first id that is generated in a millisecond. -/
def idAt (milliseconds : UInt64) : UInt64 := milliseconds <<< 22 ||| 1

def answered : List (Event String String) :=
  [.workerRead 0 "kv", .invoke (idAt 1480000000000) "kv" "get",
    .runWorker 0 "kv", .response 0 (idAt 1480000000000) "value", .runInvoke 0,
    .response 0 (idAt 1480000000000) "value", .sweep (idAt 1480000016000)]

/-- A call is answered; the same response once more and a sweep come after it
has returned. -/
theorem writes_complete_calls_answered :
    ∃ producers : Producers String String,
      run {} answered = some producers ∧ producers.Completed := by
  have happens : (run {} answered).isSome := by decide +kernel
  obtain ⟨producers, reached⟩ := Option.isSome_iff_exists.mp happens
  refine ⟨producers, reached, ?_⟩
  exact writes_complete_calls answered (by decide +kernel) answered
    List.prefix_rfl producers reached

/-- No connection takes the request for sixteen seconds. -/
def unserved : List (Event String String) :=
  [.invoke (idAt 1480000000000) "kv" "get", .sweep (idAt 1480000016000)]

/-- A worker begins to read, and the sweep comes before the call that it has
woken. -/
def overtaken : List (Event String String) :=
  [.invoke (idAt 1480000000000) "kv" "get", .workerRead 0 "kv",
    .sweep (idAt 1480000016000)]

theorem not_completed_of_unready {events : List (Event String String)}
    (happens : (run {} events).map (fun producers =>
      (producers.pushes, producers.hung)) =
      some ([{ call := 0, ready := false, again := false }], true)) :
    ∃ producers : Producers String String,
      run {} events = some producers ∧ ¬ producers.Completed ∧
        producers.hung = true := by
  obtain ⟨producers, reached, state⟩ := Option.map_eq_some_iff.mp happens
  obtain ⟨pushes, hung⟩ := Prod.mk.inj state
  refine ⟨producers, reached, ?_, hung⟩
  intro completed
  have isFirst : ({ call := 0, ready := false, again := false } : Push) ∈
      producers.pushes := by
    rw [pushes]
    exact List.mem_singleton_self _
  have ready := (completed _ isFirst).1
  cases ready

/-- The sweep writes to a call that has not come to its read, and does not
return. -/
theorem sweep_writes_to_waiting_call :
    (∃ producers : Producers String String,
      run {} unserved = some producers ∧ ¬ producers.Completed ∧
        producers.hung = true) ∧
    ∃ producers : Producers String String,
      run {} overtaken = some producers ∧ ¬ producers.Completed ∧
        producers.hung = true :=
  ⟨not_completed_of_unready (by decide +kernel),
    not_completed_of_unready (by decide +kernel)⟩

end Example

end Producers

end Natsu.Rpc
