import Natsu.Rpc.Calls

/-!
# Where the calls stand

The channels of the services and of the calls fix where each call stands: in
the write of its request, in the read of the response, or returned.  This is
kept by every event.
-/

namespace Natsu.Rpc

open Natsu.Libgo Natsu.Foundation

variable {Service Message : Type}

/-- Nothing has been written to the channel of the call. -/
def Call.Untouched (value : Call Service Message) : Prop :=
  value.channel.readBlock.wakeup = 0 ∧ value.channel.readBlock.woken = [] ∧
    ∀ rsp, value.stage ≠ .returned rsp

namespace Producers

/-- The calls to which something has been written. -/
def addressed (producers : Producers Service Message) : List Nat :=
  producers.pushes.map Push.call

/-- What holds of the calls at all times. -/
structure Sound (producers : Producers Service Message) : Prop where
  entries : ∀ {id call}, producers.kClientRpcChannel[id]? = some call →
    ∃ value : Call Service Message, producers.calls[call]? = some value ∧
      value.id = id ∧ ∀ rsp, value.stage ≠ .returned rsp
  nodup : ∀ service,
    (producers.kServiceRpcChannel service).writeBlock.tasks.Nodup
  reading : ∀ {call : Nat} {value : Call Service Message},
    producers.calls[call]? = some value → value.stage = .clientRead →
    () ∈ value.channel.readBlock.tasks
  untouched : ∀ {call : Nat} {value : Call Service Message},
    producers.calls[call]? = some value → call ∉ producers.addressed →
    value.Untouched
  blocked : ∀ {reader call message},
    producers.blocked reader = some (call, message) →
    call ∈ producers.addressed

/-- The call is in its write to the channel of the service. -/
def Writes (producers : Producers Service Message) (service : Service)
    (call : Nat) : Prop :=
  ∃ value, producers.calls[call]? = some value ∧ value.service = service ∧
    value.stage = .serviceWrite

/-- The tasks of a service channel are the calls that write to it.  One call
may be between that write and its read. -/
def Writing (producers : Producers Service Message)
    (passing : Option Nat) : Prop :=
  ∀ service call,
    call ∈ (producers.kServiceRpcChannel service).writeBlock.tasks ↔
      passing ≠ some call ∧ producers.Writes service call

/-- The state between two events. -/
structure Consistent (producers : Producers Service Message) : Prop where
  sound : producers.Sound
  writing : producers.Writing none

section Updates

variable {producers : Producers Service Message} {call : Nat}
  {value : Call Service Message}

theorem getElem?_set_of_present (other : Nat) (next : Call Service Message)
    (present : producers.calls[call]? = some value) :
    (producers.calls.set call next)[other]? =
      if other = call then some next else producers.calls[other]? := by
  obtain ⟨bound, _⟩ := List.getElem?_eq_some_iff.mp present
  by_cases same : other = call
  · subst same
    simp [bound]
  · simp [same, Ne.symm same]

/-- A call after one of the calls has changed is that one or as before. -/
theorem of_getElem?_set {other : Nat} {next current : Call Service Message}
    (present : producers.calls[call]? = some value)
    (found : (producers.calls.set call next)[other]? = some current) :
    (other = call ∧ current = next) ∨
      (other ≠ call ∧ producers.calls[other]? = some current) := by
  rw [getElem?_set_of_present other next present] at found
  split at found
  · exact .inl ⟨‹_›, (Option.some.inj found).symm⟩
  · exact .inr ⟨‹_›, found⟩

/-- A step of a call that has not returned. -/
theorem Sound.setCall (sound : producers.Sound)
    (present : producers.calls[call]? = some value)
    {next : Call Service Message} (sameId : next.id = value.id)
    (active : (∀ rsp, value.stage ≠ .returned rsp) →
      ∀ rsp, next.stage ≠ .returned rsp)
    (reading : next.stage = .clientRead → () ∈ next.channel.readBlock.tasks)
    (untouched : call ∉ producers.addressed → next.Untouched) :
    (producers.setCall call next).Sound where
  entries := by
    intro id other entry
    obtain ⟨old, oldPresent, named, oldActive⟩ := sound.entries entry
    by_cases same : other = call
    · subst same
      rw [present] at oldPresent
      obtain rfl := Option.some.inj oldPresent
      refine ⟨next, ?_, sameId.trans named, active oldActive⟩
      exact (getElem?_set_of_present other next present).trans (if_pos rfl)
    · refine ⟨old, ?_, named, oldActive⟩
      exact (getElem?_set_of_present other next present).trans
        ((if_neg same).trans oldPresent)
  nodup := sound.nodup
  reading := by
    intro other current found
    rcases of_getElem?_set present found with ⟨_, rfl⟩ | ⟨_, earlier⟩
    · exact reading
    · exact sound.reading earlier
  untouched := by
    intro other current found
    rcases of_getElem?_set present found with ⟨rfl, rfl⟩ | ⟨_, earlier⟩
    · exact untouched
    · exact sound.untouched earlier
  blocked := sound.blocked

/-- A call that has been addressed returns. -/
theorem Sound.finish (sound : producers.Sound)
    (present : producers.calls[call]? = some value)
    (next : Call Service Message) (sameId : next.id = value.id)
    (touched : call ∈ producers.addressed) (rsp : Option Message) :
    (producers.finish call next rsp).Sound where
  entries := by
    intro id other entry
    have erased : (producers.kClientRpcChannel.erase next.id)[id]? =
        some other := entry
    rw [Std.ExtTreeMap.getElem?_erase] at erased
    split at erased
    · simp at erased
    · rename_i different
      obtain ⟨old, oldPresent, named, oldActive⟩ := sound.entries erased
      have notSame : other ≠ call := by
        rintro rfl
        rw [present] at oldPresent
        obtain rfl := Option.some.inj oldPresent
        simp [sameId, named] at different
      refine ⟨old, ?_, named, oldActive⟩
      exact (getElem?_set_of_present other _ present).trans
        ((if_neg notSame).trans oldPresent)
  nodup := sound.nodup
  reading := by
    intro other current found
    rcases of_getElem?_set present found with ⟨_, rfl⟩ | ⟨_, earlier⟩
    · simp
    · exact sound.reading earlier
  untouched := by
    intro other current found unaddressed
    rcases of_getElem?_set present found with ⟨rfl, _⟩ | ⟨_, earlier⟩
    · exact absurd touched unaddressed
    · exact sound.untouched earlier unaddressed
  blocked := sound.blocked

/-- A call that is in its write goes on to its read. -/
theorem writes_setCall_of_left (present : producers.calls[call]? = some value)
    {next : Call Service Message} (left : next.stage ≠ .serviceWrite)
    (service : Service) (other : Nat) :
    (producers.setCall call next).Writes service other ↔
      some call ≠ some other ∧ producers.Writes service other := by
  constructor
  · rintro ⟨current, found, named, waits⟩
    rcases of_getElem?_set present found with ⟨_, rfl⟩ | ⟨notSame, earlier⟩
    · exact absurd waits left
    · refine ⟨?_, current, earlier, named, waits⟩
      intro same
      exact notSame (Option.some.inj same).symm
  · rintro ⟨notSame, current, found, named, waits⟩
    refine ⟨current, ?_, named, waits⟩
    refine (getElem?_set_of_present other next present).trans ?_
    rw [if_neg (fun same => notSame (by rw [same]))]
    exact found

/-- A change of a call that neither ends nor begins its write. -/
theorem writes_setCall (present : producers.calls[call]? = some value)
    {next : Call Service Message} (ofService : next.service = value.service)
    (waits : next.stage = .serviceWrite ↔ value.stage = .serviceWrite)
    (service : Service) (other : Nat) :
    (producers.setCall call next).Writes service other ↔
      producers.Writes service other := by
  by_cases same : other = call
  · subst same
    have found : (producers.setCall other next).calls[other]? = some next :=
      (getElem?_set_of_present other next present).trans (if_pos rfl)
    simp [Writes, found, present, ofService, waits]
  · have found : (producers.setCall call next).calls[other]? =
        producers.calls[other]? :=
      (getElem?_set_of_present other next present).trans (if_neg same)
    simp [Writes, found]

theorem Writing.leave (writing : producers.Writing (some call))
    (present : producers.calls[call]? = some value)
    {next : Call Service Message} (left : next.stage ≠ .serviceWrite) :
    (producers.setCall call next).Writing none := by
  intro service other
  rw [writes_setCall_of_left present left]
  exact (writing service other).trans (and_iff_right (by simp)).symm

theorem Writing.setCall {passing : Option Nat}
    (writing : producers.Writing passing)
    (present : producers.calls[call]? = some value)
    {next : Call Service Message} (ofService : next.service = value.service)
    (waits : next.stage = .serviceWrite ↔ value.stage = .serviceWrite) :
    (producers.setCall call next).Writing passing := by
  intro service other
  rw [writes_setCall present ofService waits]
  exact writing service other

theorem Consistent.take (consistent : producers.Consistent)
    (taken : List (RpcChannelData Message)) :
    Consistent { producers with taken := taken } :=
  ⟨⟨consistent.sound.entries, consistent.sound.nodup,
    consistent.sound.reading, consistent.sound.untouched,
    consistent.sound.blocked⟩, consistent.writing⟩

theorem readReply_consistent (sound : producers.Sound)
    (writing : producers.Writing (some call))
    (present : producers.calls[call]? = some value) :
    (producers.readReply call value).Consistent := by
  unfold readReply
  split
  · rename_i rsp channel taken
    obtain ⟨signalled, _⟩ := Channel.read_done taken
    have touched : call ∈ producers.addressed := by
      by_contra unaddressed
      have fresh := sound.untouched present unaddressed
      have none := fresh.1
      omega
    refine ⟨sound.finish present { value with channel := channel } rfl
      touched rsp, ?_⟩
    have returned : (producers.setCall call { value with
        stage := .returned rsp, channel := channel }).Writing none :=
      writing.leave present (by simp)
    exact returned
  · rename_i channel taken
    obtain ⟨_, parked, _⟩ := Channel.read_parked taken
    have reads : (producers.setCall call
        { value with stage := .clientRead, channel := channel }).Sound := by
      refine sound.setCall present rfl (by simp) ?_ ?_
      · intro _
        simp [parked, BlockObject.tasks]
      · intro unaddressed
        obtain ⟨signals, woken, _⟩ := sound.untouched present unaddressed
        exact ⟨by rw [parked]; exact signals, by rw [parked]; exact woken,
          by simp⟩
    exact ⟨reads, writing.leave present (by simp)⟩

theorem getElem?_concat_of_present (next : Call Service Message)
    (present : producers.calls[call]? = some value) :
    (producers.calls ++ [next])[call]? = some value := by
  obtain ⟨bound, _⟩ := List.getElem?_eq_some_iff.mp present
  rw [List.getElem?_append_left bound]
  exact present

theorem of_getElem?_concat {next : Call Service Message}
    (found : (producers.calls ++ [next])[call]? = some value) :
    producers.calls[call]? = some value ∨
      (call = producers.calls.length ∧ value = next) := by
  by_cases before : call < producers.calls.length
  · rw [List.getElem?_append_left before] at found
    exact .inl found
  · rw [List.getElem?_append_right (by omega)] at found
    obtain ⟨bound, isNext⟩ := List.getElem?_eq_some_iff.mp found
    simp only [List.length_singleton, List.getElem_singleton] at bound isNext
    exact .inr ⟨by omega, isNext.symm⟩

/-- A new call, before its first write. -/
theorem Consistent.register (consistent : producers.Consistent)
    (fresh : value.Untouched) (writes : value.stage = .serviceWrite) :
    (producers.register value).Sound ∧
      (producers.register value).Writing (some producers.calls.length) := by
  refine ⟨⟨?_, consistent.sound.nodup, ?_, ?_, consistent.sound.blocked⟩,
    ?_⟩
  · intro id call entry
    have inserted : (producers.kClientRpcChannel.insert value.id
        producers.calls.length)[id]? = some call := entry
    rw [Std.ExtTreeMap.getElem?_insert] at inserted
    split at inserted
    · rename_i same
      obtain rfl := Option.some.inj inserted
      refine ⟨value, List.getElem?_concat_length, ?_, fresh.2.2⟩
      simpa using same
    · obtain ⟨older, found, named, active⟩ := consistent.sound.entries inserted
      exact ⟨older, getElem?_concat_of_present _ found, named, active⟩
  · intro other current found reads
    rcases of_getElem?_concat found with earlier | ⟨_, rfl⟩
    · exact consistent.sound.reading earlier reads
    · simp [writes] at reads
  · intro other current found unaddressed
    rcases of_getElem?_concat found with earlier | ⟨_, rfl⟩
    · exact consistent.sound.untouched earlier unaddressed
    · exact fresh
  · intro service other
    apply (consistent.writing service other).trans
    constructor
    · rintro ⟨_, older, found, named, waits⟩
      obtain ⟨bound, _⟩ := List.getElem?_eq_some_iff.mp found
      refine ⟨?_, older, getElem?_concat_of_present _ found, named, waits⟩
      intro passing
      have atEnd := Option.some.inj passing
      omega
    · rintro ⟨notPassing, current, found, named, waits⟩
      refine ⟨by simp, current, ?_, named, waits⟩
      rcases of_getElem?_concat found with earlier | ⟨rfl, _⟩
      · exact earlier
      · exact absurd rfl notPassing

end Updates

section Push

variable {producers : Producers Service Message} {call : Nat}
  {value : Call Service Message}

/-- A call that nothing has been written to has come to its read, or will
next, unless it waits for a worker. -/
theorem Consistent.ready_iff (consistent : producers.Consistent)
    (present : producers.calls[call]? = some value)
    (unaddressed : call ∉ producers.addressed) :
    producers.ready call value = true ↔
      call ∉
        (producers.kServiceRpcChannel value.service).writeBlock.waitQueue := by
  have members := consistent.writing value.service call
  obtain ⟨_, woken, active⟩ := consistent.sound.untouched present unaddressed
  cases stage : value.stage with
  | serviceWrite =>
      have nodup := consistent.sound.nodup value.service
      have member := members.mpr ⟨by simp, value, present, rfl, stage⟩
      simp only [ready, stage, decide_eq_true_eq]
      unfold BlockObject.tasks at nodup member
      constructor
      · intro isWoken waits
        exact List.disjoint_of_nodup_append nodup waits isWoken
      · intro notWaiting
        exact (List.mem_append.mp member).resolve_left notWaiting
  | clientRead =>
      have reads := consistent.sound.reading present stage
      have left : ¬producers.Writes value.service call := by
        rintro ⟨current, found, _, writes⟩
        rw [present] at found
        rw [← Option.some.inj found, stage] at writes
        simp at writes
      simp only [ready, Call.parked, stage, decide_eq_true_eq]
      refine iff_of_true ?_ ?_
      · simpa [BlockObject.tasks, woken] using reads
      · intro waits
        exact left (members.mp (List.mem_append_left _ waits)).2
  | returned rsp => exact absurd stage (active rsp)

theorem addressed_notePush {ready : Bool} {other : Nat} :
    other ∈ (producers.notePush call ready).addressed ↔
      other ∈ producers.addressed ∨ other = call := by
  simp [addressed, Producers.notePush]

theorem mem_addressed_notePush {ready : Bool} :
    call ∈ (producers.notePush call ready).addressed :=
  addressed_notePush.mpr (.inr rfl)

theorem Consistent.notePush (consistent : producers.Consistent) (call : Nat)
    (ready : Bool) : (producers.notePush call ready).Consistent := by
  refine ⟨⟨consistent.sound.entries, consistent.sound.nodup,
    consistent.sound.reading, ?_, ?_⟩, consistent.writing⟩
  · intro other current found unaddressed
    refine consistent.sound.untouched found (fun earlier => unaddressed ?_)
    exact addressed_notePush.mpr (.inl earlier)
  · intro reader other message waits
    exact addressed_notePush.mpr (.inl (consistent.sound.blocked waits))

/-- The channel of a call that has been addressed changes. -/
theorem Consistent.deliver (consistent : producers.Consistent)
    (present : producers.calls[call]? = some value)
    (touched : call ∈ producers.addressed)
    {channel : Channel (Option Message) Nat Unit}
    (readers : channel.readBlock.tasks.Perm value.channel.readBlock.tasks) :
    (producers.setCall call { value with channel := channel }).Consistent := by
  refine ⟨?_, consistent.writing.setCall present rfl Iff.rfl⟩
  refine consistent.sound.setCall present rfl id ?_ (absurd touched)
  intro reads
  exact readers.mem_iff.mpr (consistent.sound.reading present reads)

theorem Consistent.block (consistent : producers.Consistent)
    {blocked : Nat → Option (Nat × Message)}
    (known : ∀ {reader other message},
      blocked reader = some (other, message) → other ∈ producers.addressed) :
    Consistent { producers with blocked := blocked } :=
  ⟨⟨consistent.sound.entries, consistent.sound.nodup,
    consistent.sound.reading, consistent.sound.untouched, known⟩,
    consistent.writing⟩

theorem Consistent.hang (consistent : producers.Consistent) (hung : Bool) :
    Consistent { producers with hung := hung } :=
  ⟨⟨consistent.sound.entries, consistent.sound.nodup,
    consistent.sound.reading, consistent.sound.untouched,
    consistent.sound.blocked⟩, consistent.writing⟩

theorem response_consistent (consistent : producers.Consistent)
    {reader : Nat} {rid : UInt64} {message : Message}
    {next : Producers Service Message}
    (step : producers.response reader rid message = some next) :
    next.Consistent := by
  rcases response_cases step with rfl |
    ⟨call, value, channel, _, present, ⟨written, rfl⟩ | ⟨written, rfl⟩⟩
  · exact consistent
  · have noted := consistent.notePush call (producers.ready call value)
    obtain ⟨_, readers, _⟩ := Channel.write_done written
    apply noted.deliver present mem_addressed_notePush
    rw [readers]
    exact BlockObject.tasks_wake _
  · have noted := consistent.notePush call (producers.ready call value)
    obtain ⟨_, readers, _⟩ := Channel.write_parked written
    refine (noted.deliver present mem_addressed_notePush
      (.of_eq (by rw [readers]))).block ?_
    intro other current text waits
    by_cases same : other = reader
    · subst same
      simp only [Function.update_self, Option.some.injEq,
        Prod.mk.injEq] at waits
      rw [← waits.1]
      exact mem_addressed_notePush
    · rw [Function.update_of_ne same] at waits
      exact noted.sound.blocked waits

theorem runReader_consistent (consistent : producers.Consistent)
    {reader : Nat} {next : Producers Service Message}
    (step : producers.runReader reader = some next) : next.Consistent := by
  obtain ⟨call, message, value, channel, waits, present, resumed, rfl⟩ :=
    runReader_cases step
  obtain ⟨_, readers, _⟩ := Channel.resumeWrite_done resumed
  have delivered : (producers.setCall call
      { value with channel := channel }).Consistent := by
    apply consistent.deliver present (consistent.sound.blocked waits)
    rw [readers]
    exact BlockObject.tasks_wake _
  apply delivered.block
  intro other current text stillWaits
  by_cases same : other = reader
  · simp [same] at stillWaits
  · rw [Function.update_of_ne same] at stillWaits
    exact consistent.sound.blocked stillWaits

theorem pushNull_consistent (consistent : producers.Consistent)
    (present : producers.calls[call]? = some value) :
    (producers.pushNull call value).Consistent := by
  have noted := consistent.notePush call value.parked
  rcases pushNull_cases producers call value with
    ⟨channel, written, pushed⟩ | pushed
  · obtain ⟨_, readers, _⟩ := Channel.spinWrite_done written
    rw [pushed]
    apply noted.deliver present mem_addressed_notePush
    rw [readers]
    exact BlockObject.tasks_wake _
  · rw [pushed]
    exact noted.hang true

theorem pushNulls_consistent (calls : List Nat) :
    ∀ {producers : Producers Service Message}, producers.Consistent →
      (pushNulls calls producers).Consistent := by
  induction calls with
  | nil =>
      intro producers consistent
      exact consistent
  | cons call calls induction =>
      intro producers consistent
      unfold pushNulls
      split
      · exact consistent
      · split
        · exact consistent
        · rename_i value present
          exact induction (pushNull_consistent consistent present)

end Push

theorem initial_consistent :
    ({} : Producers Service Message).Consistent := by
  refine ⟨⟨?_, ?_, ?_, ?_, ?_⟩, ?_⟩
  · intro id call entry
    simp at entry
  · intro service
    exact List.nodup_nil
  · intro call value present
    simp at present
  · intro call value present
    simp at present
  · intro reader call message waits
    simp at waits
  · intro service call
    simp [Writes, BlockObject.tasks]

variable [DecidableEq Service] {producers : Producers Service Message}

theorem Sound.setService (sound : producers.Sound) {service : Service}
    {channel : Channel (RpcChannelData Message) Nat Nat}
    (nodup : channel.writeBlock.tasks.Nodup) :
    (producers.setService service channel).Sound where
  entries := sound.entries
  nodup other := by
    by_cases same : other = service
    · subst same
      simpa [Producers.setService] using nodup
    · simpa [Producers.setService, Function.update_of_ne same] using
        sound.nodup other
  reading := sound.reading
  untouched := sound.untouched
  blocked := sound.blocked

section Service

variable {service : Service}
  {channel : Channel (RpcChannelData Message) Nat Nat}

/-- The tasks of one service channel change, and with them which call is
passing. -/
theorem Writing.setService {passing next : Option Nat}
    (writing : producers.Writing passing)
    (members : ∀ call, call ∈ channel.writeBlock.tasks ↔
      next ≠ some call ∧ producers.Writes service call)
    (ofService : ∀ {call : Nat} {value : Call Service Message},
      passing = some call ∨ next = some call →
      producers.calls[call]? = some value → value.service = service) :
    (producers.setService service channel).Writing next := by
  intro other call
  by_cases same : other = service
  · subst same
    simp only [Producers.setService, Function.update_self]
    exact members call
  · have kept := writing other call
    simp only [Producers.setService, Function.update_of_ne same]
    rw [kept]
    constructor
    · rintro ⟨_, value, present, named, waits⟩
      refine ⟨fun isNext => same ?_, value, present, named, waits⟩
      exact named.symm.trans (ofService (.inr isNext) present)
    · rintro ⟨_, value, present, named, waits⟩
      refine ⟨fun isPassing => same ?_, value, present, named, waits⟩
      exact named.symm.trans (ofService (.inl isPassing) present)

/-- A worker reads: the writers stay the same. -/
theorem Consistent.setService (consistent : producers.Consistent)
    (same : channel.writeBlock.tasks.Perm
      (producers.kServiceRpcChannel service).writeBlock.tasks) :
    (producers.setService service channel).Consistent where
  sound := consistent.sound.setService
    (same.nodup_iff.mpr (consistent.sound.nodup service))
  writing := consistent.writing.setService
    (fun call => (same.mem_iff).trans (consistent.writing service call))
    (by simp)

theorem workerRead_consistent (consistent : producers.Consistent)
    {worker : Nat} {next : Producers Service Message}
    (step : producers.workerRead worker service = some next) :
    next.Consistent := by
  rcases workerRead_cases step with
    ⟨data, channel, taken, rfl⟩ | ⟨channel, taken, rfl⟩
  · obtain ⟨_, written, _⟩ := Channel.read_done taken
    refine (consistent.setService ?_).take _
    rw [written]
    exact BlockObject.tasks_wake _
  · obtain ⟨written, _⟩ := Channel.read_parked taken
    apply consistent.setService
    rw [written]
    exact BlockObject.tasks_wake _

theorem runWorker_consistent (consistent : producers.Consistent)
    {worker : Nat} {next : Producers Service Message}
    (step : producers.runWorker worker service = some next) :
    next.Consistent := by
  obtain ⟨data, channel, taken, rfl⟩ := runWorker_cases step
  obtain ⟨_, written, _⟩ := Channel.resumeRead_done taken
  refine (consistent.setService ?_).take _
  rw [written]

end Service

section Invoke

variable {service : Service} {call : Nat} {value : Call Service Message}
  {channel : Channel (RpcChannelData Message) Nat Nat}

/-- The passing call joins the writers of its service. -/
theorem Sound.park (sound : producers.Sound)
    (writing : producers.Writing (some call))
    (present : producers.calls[call]? = some value)
    (ofService : value.service = service) (writes : value.stage = .serviceWrite)
    (joined : channel.writeBlock.tasks.Perm
      (call :: (producers.kServiceRpcChannel service).writeBlock.tasks)) :
    (producers.setService service channel).Consistent := by
  have absent : call ∉
      (producers.kServiceRpcChannel service).writeBlock.tasks := by
    intro member
    exact ((writing service call).mp member).1 rfl
  constructor
  · refine sound.setService (joined.nodup_iff.mpr ?_)
    exact List.nodup_cons.mpr ⟨absent, sound.nodup service⟩
  · refine writing.setService (fun other => ?_) ?_
    · rw [joined.mem_iff, List.mem_cons, writing service other]
      constructor
      · rintro (rfl | ⟨_, found⟩)
        · exact ⟨by simp, value, present, ofService, writes⟩
        · exact ⟨by simp, found⟩
      · rintro ⟨_, found⟩
        by_cases same : other = call
        · exact .inl same
        · exact .inr ⟨fun passing => same (Option.some.inj passing).symm, found⟩
    · rintro other current (passing | passing) found
      · obtain rfl := Option.some.inj passing
        rw [present] at found
        rw [← Option.some.inj found, ofService]
      · simp at passing

/-- A writer of the service is done and becomes the passing call. -/
theorem Consistent.pass (consistent : producers.Consistent)
    (present : producers.calls[call]? = some value)
    (ofService : value.service = service)
    (left : (producers.kServiceRpcChannel service).writeBlock.tasks.Perm
      (call :: channel.writeBlock.tasks)) :
    (producers.setService service channel).Sound ∧
      (producers.setService service channel).Writing (some call) := by
  have nodup := left.nodup_iff.mp (consistent.sound.nodup service)
  obtain ⟨absent, rest⟩ := List.nodup_cons.mp nodup
  refine ⟨consistent.sound.setService rest, ?_⟩
  refine consistent.writing.setService (fun other => ?_) ?_
  · have members := consistent.writing service other
    rw [left.mem_iff, List.mem_cons] at members
    constructor
    · intro member
      refine ⟨?_, (members.mp (.inr member)).2⟩
      intro passing
      exact absent (Option.some.inj passing ▸ member)
    · rintro ⟨notPassing, found⟩
      rcases members.mpr ⟨by simp, found⟩ with rfl | member
      · exact absurd rfl notPassing
      · exact member
  · rintro other current (passing | passing) found
    · simp at passing
    · obtain rfl := Option.some.inj passing
      rw [present] at found
      rw [← Option.some.inj found, ofService]

/-- The passing call writes at once. -/
theorem Writing.proceed (writing : producers.Writing (some call))
    (present : producers.calls[call]? = some value)
    (ofService : value.service = service)
    (same : channel.writeBlock.tasks =
      (producers.kServiceRpcChannel service).writeBlock.tasks) :
    (producers.setService service channel).Writing (some call) := by
  refine writing.setService (fun other => ?_) ?_
  · rw [same]
    exact writing service other
  · rintro other current passing found
    obtain rfl := Option.some.inj (passing.elim id id)
    rw [present] at found
    rw [← Option.some.inj found, ofService]

theorem invoke_consistent (consistent : producers.Consistent) (id : UInt64)
    (service : Service) (msg : Message) :
    (producers.invoke id service msg).Consistent := by
  let value : Call Service Message :=
    { id := id, service := service, msg := msg }
  have fresh : value.Untouched := ⟨rfl, rfl, by simp [value]⟩
  obtain ⟨sound, writing⟩ := consistent.register fresh rfl
  have present : (producers.register value).calls[producers.calls.length]? =
      some value := List.getElem?_concat_length
  simp only [invoke]
  split
  · rename_i channel written
    obtain ⟨joined, _⟩ := Channel.write_parked written
    exact sound.park writing present rfl rfl joined
  · rename_i channel written
    obtain ⟨same, _⟩ := Channel.write_done written
    refine readReply_consistent (sound.setService ?_)
      (writing.proceed present rfl same) present
    rw [same]
    exact sound.nodup service

theorem runInvoke_consistent (consistent : producers.Consistent)
    {next : Producers Service Message}
    (step : producers.runInvoke call = some next) : next.Consistent := by
  obtain ⟨value, present, ⟨channel, _, resumed, rfl⟩ |
    ⟨rsp, channel, reads, resumed, rfl⟩⟩ := runInvoke_cases step
  · obtain ⟨left, _⟩ := Channel.resumeWrite_done resumed
    obtain ⟨sound, writing⟩ := consistent.pass present rfl left
    exact readReply_consistent sound writing present
  · obtain ⟨woken, _⟩ := Channel.resumeRead_done resumed
    have touched : call ∈ producers.addressed := by
      by_contra unaddressed
      have fresh := consistent.sound.untouched present unaddressed
      simp [fresh.2.1] at woken
    refine ⟨consistent.sound.finish present { value with channel := channel }
      rfl touched rsp, ?_⟩
    exact consistent.writing.setCall present rfl (by simp [reads])

end Invoke

theorem step_consistent (consistent : producers.Consistent)
    {event : Event Service Message} {next : Producers Service Message}
    (stepped : producers.step event = some next) : next.Consistent := by
  have acted := act_of_step stepped
  cases event with
  | invoke id service msg =>
      obtain rfl := Option.some.inj acted
      exact invoke_consistent consistent id service msg
  | runInvoke call => exact runInvoke_consistent consistent acted
  | workerRead worker service => exact workerRead_consistent consistent acted
  | runWorker worker service => exact runWorker_consistent consistent acted
  | response reader rid message => exact response_consistent consistent acted
  | runReader reader => exact runReader_consistent consistent acted
  | sweep n =>
      obtain rfl := Option.some.inj acted
      exact pushNulls_consistent _ consistent

end Producers

end Natsu.Rpc
