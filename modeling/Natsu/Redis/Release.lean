import Mathlib.Data.List.Induction
import Natsu.Redis.Pool

/-!
# Releasing a client

The pointer that `newRedisInstance` returns for an unknown name is null, and
its deleter runs all the same.  Which pointers are null can be read off the
calls: those opened for a name that no earlier `redisInit` had.
-/

namespace Natsu.Redis

open Natsu.Foundation Natsu.Libgo

def PoolEvent.opens : PoolEvent → Bool
  | .newRedisInstance _ => true
  | _ => false

/-- The number of calls of `newRedisInstance`, which is also the index that
the next one gets. -/
def openings (events : List PoolEvent) : Nat := events.countP PoolEvent.opens

/-- `redisInit` was called for the name. -/
def Registered (events : List PoolEvent) (redisname : Bytes) : Prop :=
  ∃ valid link, .redisInit redisname valid link ∈ events

/-- Each pointer that goes away was opened for a name that `redisInit` had been
called for. -/
def DropsKnown (events : List PoolEvent) : Prop :=
  ∀ before redisname between,
    before ++ .newRedisInstance redisname ::
      (between ++ [.delRedisInstance (openings before)]) <+: events →
    Registered before redisname

namespace RedisManager

/-- The deleters of a run.  Each is applied to a client that was built and that
`get_redis_server` has returned for the pointer, and the pools stay as they are
where a pointer for an unknown name is opened or goes away. -/
structure ReleasesSafely (events : List PoolEvent) : Prop where
  client : ∀ before index,
    before ++ [.delRedisInstance index] <+: events →
    ∀ manager, runWith step {} before = some manager →
      ∃ pointer client, manager.instances[index]? = some pointer ∧
        pointer.stage = .live (some client) ∧
        client < manager.redisName.length
  opened : ∀ before redisname,
    before ++ [.newRedisInstance redisname] <+: events →
    ∀ manager, runWith step {} before = some manager →
      redisname ∉ manager.redis →
      (manager.newRedisInstance redisname).redis = manager.redis
  dropped : ∀ before index,
    before ++ [.delRedisInstance index] <+: events →
    ∀ manager pointer next, runWith step {} before = some manager →
      manager.instances[index]? = some pointer →
      pointer.redisname ∉ manager.redis →
      manager.step (.delRedisInstance index) = some next →
      next.redis = manager.redis ∧ next.stopped = false

/-- The clients in the channels are among the first `count` that were
built. -/
def BuiltWithin (count : Nat)
    (pools : Std.ExtTreeMap Bytes (Channel Nat Nat Nat)) : Prop :=
  ∀ (redisname : Bytes) (channel : Channel Nat Nat Nat),
    pools[redisname]? = some channel → ∀ client ∈ channel.queue, client < count

/-- The client of a pointer is among the first `count` that were built. -/
def HoldsWithin (count : Nat) : InstanceStage → Prop
  | .live (some client) => client < count
  | .releasing client => client < count
  | _ => True

/-- The state as far as the calls give it. -/
structure Traced (past : List PoolEvent) (manager : RedisManager) : Prop where
  registered : ∀ redisname,
    redisname ∈ manager.redis ↔ Registered past redisname
  length : manager.instances.length = openings past
  built : BuiltWithin manager.redisName.length manager.redis
  holds : ∀ pointer ∈ manager.instances,
    HoldsWithin manager.redisName.length pointer.stage
  pointers : ∀ before redisname between,
    past = before ++ .newRedisInstance redisname :: between →
    ∃ pointer, manager.instances[openings before]? = some pointer ∧
      pointer.redisname = redisname ∧
      (pointer.stage = .live none ↔ ¬ Registered before redisname)

end RedisManager

section Calls

theorem split_snoc {past before between : List PoolEvent}
    {event opening : PoolEvent}
    (split : past ++ [event] = before ++ opening :: between) :
    (before = past ∧ opening = event) ∨
      ∃ shorter, past = before ++ opening :: shorter := by
  rcases List.eq_nil_or_concat between with rfl | ⟨shorter, last, rfl⟩
  · obtain ⟨same, last⟩ := List.append_inj' split rfl
    exact .inl ⟨same.symm, (List.cons.inj last).1.symm⟩
  · have longer : past ++ [event] = (before ++ opening :: shorter) ++ [last] := by
      rw [split]
      simp
    exact .inr ⟨shorter, (List.append_inj' longer rfl).1⟩

theorem openings_append (before after : List PoolEvent) :
    openings (before ++ after) = openings before + openings after :=
  List.countP_append

theorem registered_snoc (past : List PoolEvent) (event : PoolEvent)
    (redisname : Bytes) :
    Registered (past ++ [event]) redisname ↔
      Registered past redisname ∨
        ∃ valid link, event = .redisInit redisname valid link := by
  constructor
  · rintro ⟨valid, link, member⟩
    rcases List.mem_append.mp member with earlier | now
    · exact .inl ⟨valid, link, earlier⟩
    · exact .inr ⟨valid, link, (List.mem_singleton.mp now).symm⟩
  · rintro (⟨valid, link, earlier⟩ | ⟨valid, link, rfl⟩)
    · exact ⟨valid, link, List.mem_append_left _ earlier⟩
    · exact ⟨valid, link, by simp⟩

/-- Every index below the number of calls belongs to one. -/
theorem exists_opening (events : List PoolEvent) :
    ∀ {index}, index < openings events →
      ∃ before redisname between,
        events = before ++ .newRedisInstance redisname :: between ∧
          openings before = index := by
  induction events using List.reverseRecOn with
  | nil =>
      intro index below
      exact absurd below (Nat.not_lt_zero _)
  | append_singleton past event induction =>
      intro index below
      by_cases earlier : index < openings past
      · obtain ⟨before, redisname, between, rfl, isIndex⟩ := induction earlier
        exact ⟨before, redisname, between ++ [event], by simp, isIndex⟩
      · rw [openings_append] at below
        cases event with
        | newRedisInstance redisname =>
            refine ⟨past, redisname, [], rfl, ?_⟩
            have one : openings [.newRedisInstance redisname] = 1 := rfl
            omega
        | _ => exact absurd below earlier

end Calls

namespace RedisManager

section Pools

variable {count : Nat} {pools : Std.ExtTreeMap Bytes (Channel Nat Nat Nat)}

namespace BuiltWithin

theorem insert (built : BuiltWithin count pools) {redisname : Bytes}
    {channel : Channel Nat Nat Nat}
    (within : ∀ client ∈ channel.queue, client < count) :
    BuiltWithin count (pools.insert redisname channel) := by
  intro other found isFound
  rw [Std.ExtTreeMap.getElem?_insert] at isFound
  split at isFound
  · obtain rfl := Option.some.inj isFound
    exact within
  · exact built other found isFound

theorem mono (built : BuiltWithin count pools) {larger : Nat}
    (atMost : count ≤ larger) : BuiltWithin larger pools := by
  intro redisname channel present client member
  exact Nat.lt_of_lt_of_le (built redisname channel present client member)
    atMost

end BuiltWithin

/-- What the loop of `add_redis_server` keeps. -/
theorem addClients_traced (redisname : Bytes) (valid : Bool) (link : Nat) :
    ∀ {manager : RedisManager}, redisname ∈ manager.redis →
      BuiltWithin manager.redisName.length manager.redis →
      BuiltWithin (addClients redisname valid link manager).redisName.length
          (addClients redisname valid link manager).redis ∧
        (addClients redisname valid link manager).instances =
          manager.instances ∧
        ∀ other, other ∈ (addClients redisname valid link manager).redis ↔
          other ∈ manager.redis := by
  induction link with
  | zero =>
      intro manager known built
      exact ⟨built, rfl, fun _ => Iff.rfl⟩
  | succ link induction =>
      intro manager known built
      cases valid with
      | false => exact ⟨built, rfl, fun _ => Iff.rfl⟩
      | true =>
          have more : manager.redisName.length ≤
              (manager.redisName ++ [redisname]).length := by
            simp
          simp only [addClients, if_true]
          split
          · exact ⟨built.mono more, rfl, fun _ => Iff.rfl⟩
          · rename_i channel written
            obtain ⟨before, present, written⟩ :=
              Option.bind_eq_some_iff.mp written
            have within : ∀ client ∈ channel.queue,
                client < (manager.redisName ++ [redisname]).length := by
              rw [(Channel.spinWrite_done written).2.2]
              intro client member
              rcases List.mem_append.mp member with earlier | now
              · exact Nat.lt_of_lt_of_le
                  (built redisname before present client earlier) more
              · rw [List.mem_singleton.mp now]
                simp
            have stillKnown : redisname ∈
                manager.redis.insert redisname channel :=
              (OrderedMap.mem_insert_of_mem _ known redisname).mpr known
            obtain ⟨kept, same, names⟩ := @induction
              { manager with
                redisName := manager.redisName ++ [redisname]
                redis := manager.redis.insert redisname channel }
              stillKnown ((built.mono more).insert within)
            refine ⟨kept, same, fun other => ?_⟩
            rw [names other, OrderedMap.mem_insert_of_mem _ known]

end Pools

namespace Traced

variable {past : List PoolEvent} {event : PoolEvent}
  {manager next : RedisManager}

/-- A pointer has a client or no client from the time it is opened; one that
has none keeps it. -/
theorem change (traced : Traced past manager)
    (noInit : ∀ redisname valid link, event ≠ .redisInit redisname valid link)
    (noOpening : ∀ redisname, event ≠ .newRedisInstance redisname)
    {index : Nat} {pointer : Instance}
    (present : manager.instances[index]? = some pointer)
    (before : pointer.stage ≠ .live none) {stage : InstanceStage}
    (after : stage ≠ .live none)
    (holds : HoldsWithin manager.redisName.length stage)
    {pools : Std.ExtTreeMap Bytes (Channel Nat Nat Nat)}
    (names : ∀ redisname, redisname ∈ pools ↔ redisname ∈ manager.redis)
    (built : BuiltWithin manager.redisName.length pools) :
    Traced (past ++ [event])
      { manager with
        redis := pools
        instances := manager.instances.set index
          { pointer with stage := stage } } := by
  have noOpenings : openings [event] = 0 := by
    cases event with
    | newRedisInstance redisname => exact absurd rfl (noOpening redisname)
    | _ => rfl
  refine ⟨?_, ?_, built, ?_, ?_⟩
  · intro redisname
    rw [names, traced.registered, registered_snoc]
    constructor
    · exact .inl
    · rintro (earlier | ⟨valid, link, isInit⟩)
      · exact earlier
      · exact absurd isInit (noInit redisname valid link)
  · rw [List.length_set, traced.length, openings_append, noOpenings,
      Nat.add_zero]
  · intro other member
    rcases List.mem_or_eq_of_mem_set member with earlier | rfl
    · exact traced.holds other earlier
    · exact holds
  · intro earlier redisname between split
    rcases split_snoc split with ⟨_, isOpening⟩ | ⟨shorter, isPast⟩
    · exact absurd isOpening.symm (noOpening redisname)
    · obtain ⟨other, isOther, name, null⟩ :=
        traced.pointers earlier redisname shorter isPast
      by_cases same : index = openings earlier
      · subst same
        obtain rfl := Option.some.inj (present.symm.trans isOther)
        have inside := (List.getElem?_eq_some_iff.mp present).1
        refine ⟨_, List.getElem?_set_self inside, name, ?_⟩
        exact iff_of_false after (mt null.mpr before)
      · exact ⟨other, by rwa [List.getElem?_set_ne same], name, null⟩

theorem redisInit (traced : Traced past manager) (redisname : Bytes)
    (valid : Bool) (link : Nat) :
    Traced (past ++ [.redisInit redisname valid link])
      (manager.addRedisServer redisname valid link) := by
  obtain ⟨prepared, isPrepared, known, built, instances, names, grown⟩ :
      ∃ prepared, manager.addRedisServer redisname valid link =
          addClients redisname valid link prepared ∧
        redisname ∈ prepared.redis ∧
        BuiltWithin prepared.redisName.length prepared.redis ∧
        prepared.instances = manager.instances ∧
        (∀ other, other ∈ prepared.redis ↔
          other = redisname ∨ other ∈ manager.redis) ∧
        prepared.redisName = manager.redisName := by
    by_cases known : redisname ∈ manager.redis
    · refine ⟨manager, by rw [addRedisServer, if_pos known], known,
        traced.built, rfl, fun other => ?_, rfl⟩
      constructor
      · exact .inr
      · rintro (rfl | member)
        · exact known
        · exact member
    · exact ⟨
        { manager with
          redis := manager.redis.insert redisname
            { writeBlock := { wakeup := link } } },
        by rw [addRedisServer, if_neg known],
        (OrderedMap.mem_insert_iff _).mpr (.inl rfl),
        traced.built.insert (by simp), rfl,
        fun _ => OrderedMap.mem_insert_iff _, rfl⟩
  obtain ⟨builtAfter, same, namesAfter⟩ :=
    addClients_traced redisname valid link known built
  have more := (redisName_addClients redisname valid link prepared).length_le
  rw [isPrepared]
  refine ⟨?_, ?_, builtAfter, ?_, ?_⟩
  · intro other
    rw [namesAfter, names, traced.registered, registered_snoc, or_comm]
    simp [eq_comm]
  · rw [same, instances, traced.length, openings_append]
    rfl
  · intro pointer member
    rw [same, instances] at member
    have held := traced.holds pointer member
    rw [← grown] at held
    revert held
    unfold HoldsWithin
    split
    · exact fun below => Nat.lt_of_lt_of_le below more
    · exact fun below => Nat.lt_of_lt_of_le below more
    · exact id
  · intro before name between split
    rcases split_snoc split with ⟨_, isOpening⟩ | ⟨shorter, isPast⟩
    · cases isOpening
    · rw [same, instances]
      exact traced.pointers before name shorter isPast

theorem newRedisInstance (traced : Traced past manager) (redisname : Bytes) :
    Traced (past ++ [.newRedisInstance redisname])
      (manager.newRedisInstance redisname) := by
  have added : ∀ {pools : Std.ExtTreeMap Bytes (Channel Nat Nat Nat)}
      (stage : InstanceStage),
      (∀ other, other ∈ pools ↔ other ∈ manager.redis) →
      BuiltWithin manager.redisName.length pools →
      HoldsWithin manager.redisName.length stage →
      (stage = .live none ↔ redisname ∉ manager.redis) →
      Traced (past ++ [.newRedisInstance redisname])
        { manager with
          redis := pools
          instances := manager.instances ++
            [{ redisname := redisname, stage := stage }] } := by
    intro pools stage names built held null
    refine ⟨?_, ?_, built, ?_, ?_⟩
    · intro other
      rw [names, traced.registered, registered_snoc]
      simp
    · rw [List.length_append, traced.length, openings_append]
      rfl
    · intro pointer member
      rcases List.mem_append.mp member with earlier | now
      · exact traced.holds pointer earlier
      · rw [List.mem_singleton.mp now]
        exact held
    · intro before name between split
      rcases split_snoc split with ⟨rfl, isOpening⟩ | ⟨shorter, isPast⟩
      · obtain rfl : name = redisname := by simpa using isOpening
        refine ⟨{ redisname := name, stage := stage }, ?_, rfl, ?_⟩
        · rw [← traced.length]
          exact List.getElem?_concat_length
        · rw [null, traced.registered]
      · obtain ⟨pointer, isPointer, same⟩ :=
          traced.pointers before name shorter isPast
        have inside := (List.getElem?_eq_some_iff.mp isPointer).1
        exact ⟨pointer, by rwa [List.getElem?_append_left inside], same⟩
  cases present : manager.redis[redisname]? with
  | none =>
      have unknown : redisname ∉ manager.redis := by
        rw [Std.ExtTreeMap.mem_iff_isSome_getElem?, present]
        exact Bool.false_ne_true
      simp only [RedisManager.newRedisInstance, getRedisServer, present]
      exact added (.live none) (fun _ => Iff.rfl) traced.built trivial
        (iff_of_true rfl unknown)
  | some channel =>
      have known : redisname ∈ manager.redis :=
        (Std.ExtTreeMap.getElem?_eq_some_iff.mp present).1
      cases taken : channel.read manager.instances.length with
      | mk result other =>
          simp only [RedisManager.newRedisInstance, getRedisServer, present,
            taken]
          cases result with
          | none =>
              refine added .waiting (OrderedMap.mem_insert_of_mem _ known)
                (traced.built.insert ?_) trivial
                (iff_of_false (by simp) (by simpa using known))
              rw [(Channel.read_parked taken).2.2]
              exact traced.built redisname channel present
          | some client =>
              have queue := (Channel.read_done taken).2.2.2
              have within := traced.built redisname channel present
              rw [queue] at within
              obtain ⟨held, rest⟩ := List.forall_mem_cons.mp within
              exact added (.live (some client)) (OrderedMap.mem_insert_of_mem _ known)
                (traced.built.insert rest) held
                (iff_of_false (by simp) (by simpa using known))

theorem runInstance (traced : Traced past manager) {index : Nat}
    (stepped : manager.runInstance index = some next) :
    Traced (past ++ [.runInstance index]) next := by
  obtain ⟨pointer, isPointer, stepped⟩ := Option.bind_eq_some_iff.mp stepped
  split at stepped
  · rename_i waiting
    obtain ⟨channel, present, stepped⟩ := Option.bind_eq_some_iff.mp stepped
    obtain ⟨⟨client, other⟩, taken, rfl⟩ := Option.map_eq_some_iff.mp stepped
    have known := (Std.ExtTreeMap.getElem?_eq_some_iff.mp present).1
    have within := traced.built pointer.redisname channel present
    rw [(Channel.resumeRead_done taken).2.2] at within
    obtain ⟨held, rest⟩ := List.forall_mem_cons.mp within
    have live : InstanceStage.live (some client) ≠ .live none := by simp
    exact traced.change (by simp) (by simp) isPointer (by simp [waiting])
      live held (OrderedMap.mem_insert_of_mem _ known) (traced.built.insert rest)
  · cases stepped

/-- Putting a client back keeps the names and the clients. -/
theorem insert_released (traced : Traced past manager) {redisname : Bytes}
    {channel other : Channel Nat Nat Nat} {data : Nat}
    (present : manager.redis[redisname]? = some channel)
    (held : data < manager.redisName.length)
    (queue : ∀ client ∈ other.queue, client ∈ channel.queue ++ [data]) :
    BuiltWithin manager.redisName.length
      (manager.redis.insert redisname other) := by
  apply traced.built.insert
  intro client member
  rcases List.mem_append.mp (queue client member) with earlier | now
  · exact traced.built redisname channel present client earlier
  · rwa [List.mem_singleton.mp now]

theorem delRedisInstance (traced : Traced past manager) {index : Nat}
    (stepped : manager.delRedisInstance index = some next)
    (running : next.stopped = false) :
    Traced (past ++ [.delRedisInstance index]) next := by
  obtain ⟨pointer, isPointer, stepped⟩ := Option.bind_eq_some_iff.mp stepped
  cases stage : pointer.stage with
  | live client =>
      cases client with
      | none =>
          simp only [stage] at stepped
          obtain rfl := Option.some.inj stepped
          cases running
      | some data =>
          have held := traced.holds pointer (List.mem_of_getElem? isPointer)
          rw [stage] at held
          have live : pointer.stage ≠ .live none := by simp [stage]
          have released : InstanceStage.released ≠ .live none := by simp
          have releasing : InstanceStage.releasing data ≠ .live none := by simp
          simp only [stage, releaseRedisClient] at stepped
          cases present : manager.redis[manager.redisName.getD data []]? with
          | none =>
              simp only [present] at stepped
              obtain rfl := Option.some.inj stepped
              exact traced.change (by simp) (by simp) isPointer live released
                trivial (fun _ => Iff.rfl) traced.built
          | some channel =>
              have known := (Std.ExtTreeMap.getElem?_eq_some_iff.mp present).1
              simp only [present] at stepped
              cases written : channel.write index data with
              | mk done other =>
                  rw [written] at stepped
                  cases done with
                  | true =>
                      obtain rfl := Option.some.inj stepped
                      have queue := (Channel.write_done written).2.2
                      exact traced.change (by simp) (by simp) isPointer live
                        released trivial (OrderedMap.mem_insert_of_mem _ known)
                        (traced.insert_released present held (by simp [queue]))
                  | false =>
                      obtain rfl := Option.some.inj stepped
                      have queue := (Channel.write_parked written).2.2
                      exact traced.change (by simp) (by simp) isPointer live
                        releasing held (OrderedMap.mem_insert_of_mem _ known)
                        (traced.insert_released present held
                          (by simp +contextual [queue]))
  | _ => simp [stage] at stepped

theorem runRelease (traced : Traced past manager) {index : Nat}
    (stepped : manager.runRelease index = some next) :
    Traced (past ++ [.runRelease index]) next := by
  obtain ⟨pointer, isPointer, stepped⟩ := Option.bind_eq_some_iff.mp stepped
  cases stage : pointer.stage with
  | releasing data =>
      have held := traced.holds pointer (List.mem_of_getElem? isPointer)
      rw [stage] at held
      have released : InstanceStage.released ≠ .live none := by simp
      simp only [stage] at stepped
      obtain ⟨channel, present, stepped⟩ := Option.bind_eq_some_iff.mp stepped
      obtain ⟨other, written, rfl⟩ := Option.map_eq_some_iff.mp stepped
      have known := (Std.ExtTreeMap.getElem?_eq_some_iff.mp present).1
      have queue := (Channel.resumeWrite_done written).2.2
      exact traced.change (by simp) (by simp) isPointer (by simp [stage])
        released trivial (OrderedMap.mem_insert_of_mem _ known)
        (traced.insert_released present held (by simp [queue]))
  | _ => simp [stage] at stepped

theorem step (traced : Traced past manager)
    (stepped : manager.step event = some next)
    (running : next.stopped = false) : Traced (past ++ [event]) next := by
  unfold RedisManager.step at stepped
  split at stepped
  · cases stepped
  · cases event with
    | redisInit redisname valid link =>
        obtain rfl := Option.some.inj stepped
        exact traced.redisInit redisname valid link
    | newRedisInstance redisname =>
        obtain rfl := Option.some.inj stepped
        exact traced.newRedisInstance redisname
    | runInstance index => exact traced.runInstance stepped
    | delRedisInstance index => exact traced.delRedisInstance stepped running
    | runRelease index => exact traced.runRelease stepped

end Traced

theorem running_of_step {manager next : RedisManager} {event : PoolEvent}
    (stepped : manager.step event = some next) : manager.stopped = false := by
  unfold step at stepped
  split at stepped
  · cases stepped
  · rename_i running
    simpa using running

/-- Every state of a run before its last is given by the calls. -/
theorem traced_of_run {past : List PoolEvent} {manager : RedisManager}
    (reached : runWith step {} past = some manager)
    (running : manager.stopped = false) : Traced past manager := by
  have start : Traced [] {} :=
    ⟨by simp [Registered], rfl, by simp [BuiltWithin], by simp, by simp⟩
  have kept : ∀ {earlier state event next},
      (state.stopped = false → Traced earlier state) →
      state.step event = some next →
      (next.stopped = false → Traced (earlier ++ [event]) next) :=
    fun traced stepped runs =>
      (traced (running_of_step stepped)).step stepped runs
  exact @invariant_of_history RedisManager PoolEvent step
    (fun earlier state => state.stopped = false → Traced earlier state) kept
    past [] {} manager (fun _ => start) reached running

/-- The state that an event of a run finds. -/
theorem run_before {events before : List PoolEvent} {event : PoolEvent}
    {final : RedisManager} (reached : runWith step {} events = some final)
    (isPrefix : before ++ [event] <+: events) :
    ∃ manager next, runWith step {} before = some manager ∧
      manager.step event = some next := by
  obtain ⟨after, rfl⟩ := isPrefix
  rw [runWith_append, runWith_append] at reached
  obtain ⟨middle, isMiddle, _⟩ := Option.bind_eq_some_iff.mp reached
  obtain ⟨manager, isManager, stepped⟩ := Option.bind_eq_some_iff.mp isMiddle
  obtain ⟨next, isNext, _⟩ := Option.bind_eq_some_iff.mp stepped
  exact ⟨manager, next, isManager, isNext⟩

/-- A pointer for a registered name goes away with a client. -/
theorem drop_applied {events before : List PoolEvent} {index : Nat}
    {manager next : RedisManager} (known : DropsKnown events)
    (isPrefix : before ++ [.delRedisInstance index] <+: events)
    (run : runWith step {} before = some manager)
    (stepped : manager.step (.delRedisInstance index) = some next) :
    ∃ pointer client, manager.instances[index]? = some pointer ∧
      pointer.stage = .live (some client) ∧
      client < manager.redisName.length ∧ pointer.redisname ∈ manager.redis := by
  have running := running_of_step stepped
  have traced := traced_of_run run running
  simp only [step, running, Bool.false_eq_true, if_false] at stepped
  obtain ⟨pointer, isPointer, stepped⟩ := Option.bind_eq_some_iff.mp stepped
  have below : index < openings before := by
    rw [← traced.length]
    exact (List.getElem?_eq_some_iff.mp isPointer).1
  obtain ⟨earlier, redisname, between, rfl, rfl⟩ := exists_opening before below
  obtain ⟨other, isOther, name, null⟩ :=
    traced.pointers earlier redisname between rfl
  obtain rfl := Option.some.inj (isPointer.symm.trans isOther)
  have registered : Registered earlier redisname :=
    known earlier redisname between (by simpa using isPrefix)
  have inPools : pointer.redisname ∈ manager.redis := by
    obtain ⟨valid, link, called⟩ := registered
    rw [traced.registered, name]
    exact ⟨valid, link, List.mem_append_left _ called⟩
  have held := traced.holds pointer (List.mem_of_getElem? isPointer)
  cases stage : pointer.stage with
  | live client =>
      cases client with
      | none => exact absurd registered (null.mp stage)
      | some client =>
          rw [stage] at held
          exact ⟨pointer, client, isPointer, stage, held, inPools⟩
  | _ => simp [stage] at stepped

/-- In a run every deleter is applied to a client, and calls for unknown names
leave the pools alone, exactly when each pointer that goes away was opened for
a name that `redisInit` had been called for. -/
theorem releases_safely_iff {events : List PoolEvent} {final : RedisManager}
    (reached : runWith step {} events = some final) :
    ReleasesSafely events ↔ DropsKnown events := by
  constructor
  · intro safe before redisname between isPrefix
    by_contra unregistered
    have isDrop : (before ++ .newRedisInstance redisname :: between) ++
        [.delRedisInstance (openings before)] <+: events := by
      simpa using isPrefix
    obtain ⟨manager, next, run, stepped⟩ := run_before reached isDrop
    have traced := traced_of_run run (running_of_step stepped)
    obtain ⟨pointer, client, isPointer, live, _⟩ :=
      safe.client _ _ isDrop manager run
    obtain ⟨other, isOther, _, null⟩ :=
      traced.pointers before redisname between rfl
    obtain rfl := Option.some.inj (isPointer.symm.trans isOther)
    rw [null.mpr unregistered] at live
    cases live
  · intro known
    refine ⟨?_, ?_, ?_⟩
    · intro before index isPrefix manager run
      obtain ⟨other, next, isOther, stepped⟩ := run_before reached isPrefix
      obtain rfl := Option.some.inj (run.symm.trans isOther)
      obtain ⟨pointer, client, isPointer, live, built, _⟩ :=
        drop_applied known isPrefix run stepped
      exact ⟨pointer, client, isPointer, live, built⟩
    · intro before redisname _ manager _ unknown
      have absent : manager.redis[redisname]? = none :=
        Std.ExtTreeMap.getElem?_eq_none unknown
      simp [newRedisInstance, getRedisServer, absent]
    · intro before index isPrefix manager pointer next run isPointer unknown
        stepped
      obtain ⟨other, _, isOther, _, _, inPools⟩ :=
        drop_applied known isPrefix run stepped
      obtain rfl := Option.some.inj (isPointer.symm.trans isOther)
      exact absurd inPools unknown

namespace Example

theorem shared_drops_known : DropsKnown shared := by
  intro before redisname between isPrefix
  have member : .newRedisInstance redisname ∈ shared :=
    isPrefix.subset (by simp)
  obtain rfl : redisname = ascii "im" := by simpa [shared] using member
  cases before with
  | nil => simp [shared] at isPrefix
  | cons first before =>
      obtain ⟨rfl, _⟩ := List.cons_prefix_cons.mp isPrefix
      exact ⟨true, 2, List.mem_cons_self⟩

theorem releases_safely_iff_shared :
    (runWith step {} shared).isSome = true ∧ ReleasesSafely shared := by
  have happens : (runWith step {} shared).isSome = true := by decide +kernel
  obtain ⟨manager, reached⟩ := Option.isSome_iff_exists.mp happens
  exact ⟨happens, (releases_safely_iff reached).mpr shared_drops_known⟩

/-- A pointer is asked for under a name without a pool. -/
def mistaken : List PoolEvent :=
  [.redisInit (ascii "im") true 1, .newRedisInstance (ascii "kv"),
    .delRedisInstance 0]

/-- The deleter is applied to the null pointer. -/
theorem null_released :
    (runWith step {} mistaken).map stopped = some true ∧
      ¬ ReleasesSafely mistaken := by
  refine ⟨by decide +kernel, ?_⟩
  intro safe
  have happens : (runWith step {} (mistaken.take 2)).map
      (fun manager => manager.instances.map Instance.stage) =
        some [.live none] := by decide +kernel
  obtain ⟨manager, run, stages⟩ := Option.map_eq_some_iff.mp happens
  obtain ⟨pointer, client, isPointer, live, _⟩ :=
    safe.client (mistaken.take 2) 0 List.prefix_rfl manager run
  have isStage : (manager.instances.map Instance.stage)[0]? =
      some pointer.stage := by
    rw [List.getElem?_map, isPointer]
    rfl
  rw [stages, live] at isStage
  cases isStage

end Example

end RedisManager

end Natsu.Redis
