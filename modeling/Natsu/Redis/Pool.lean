import Natsu.Foundation.Holdings
import Natsu.Foundation.OrderedMap
import Natsu.Foundation.Run
import Natsu.Foundation.ByteString
import Natsu.Libgo.Channel

/-!
# The pools of Redis clients

`RedisManager` keeps a channel of clients for each name.  `newRedisInstance`
takes a client from it, waiting where there is none, and the deleter of the
returned pointer puts it back.
-/

namespace Natsu.Redis

open Natsu.Foundation Natsu.Libgo

/-- What has become of a `newRedisInstance`. -/
inductive InstanceStage where
  | waiting
  | live (client : Option Nat)
  | releasing (client : Nat)
  | released
  deriving DecidableEq

structure Instance where
  redisname : Bytes
  stage : InstanceStage
  deriving DecidableEq

/-- Clients are known by their address: `redisName` lists the `redis_name_` of
all that were built.  `stopped` is a thread that spins for ever or reads
through a null pointer. -/
structure RedisManager where
  redis : Std.ExtTreeMap Bytes (Channel Nat Nat Nat) := ∅
  redisName : List Bytes := []
  instances : List Instance := []
  stopped : Bool := false

inductive PoolEvent where
  | redisInit (redisname : Bytes) (valid : Bool) (link : Nat)
  | newRedisInstance (redisname : Bytes)
  | runInstance (index : Nat)
  | delRedisInstance (index : Nat)
  | runRelease (index : Nat)
  deriving DecidableEq

namespace RedisManager

/-- The loop of `add_redis_server`.  `main` runs it outside of a coroutine, and
the constructor throws where the configuration is not valid. -/
def addClients (redisname : Bytes) (valid : Bool) :
    Nat → RedisManager → RedisManager
  | 0, manager => manager
  | link + 1, manager =>
      if valid then
        let data := manager.redisName.length
        let manager :=
          { manager with redisName := manager.redisName ++ [redisname] }
        match manager.redis[redisname]?.bind (·.spinWrite data) with
        | none => { manager with stopped := true }
        | some channel =>
            addClients redisname valid link
              { manager with redis := manager.redis.insert redisname channel }
      else manager

def addRedisServer (manager : RedisManager) (redisname : Bytes) (valid : Bool)
    (link : Nat) : RedisManager :=
  addClients redisname valid link
    (if redisname ∈ manager.redis then manager
    else { manager with
      redis := manager.redis.insert redisname
        { writeBlock := { wakeup := link } } })

/-- `get_redis_server`: the client, no client where the name is unknown, or
a wait. -/
def getRedisServer (manager : RedisManager) (redisname : Bytes)
    (task : Nat) : InstanceStage × RedisManager :=
  match manager.redis[redisname]? with
  | none => (.live none, manager)
  | some channel =>
      match channel.read task with
      | (some client, channel) =>
          (.live (some client),
            { manager with redis := manager.redis.insert redisname channel })
      | (none, channel) =>
          (.waiting,
            { manager with redis := manager.redis.insert redisname channel })

def newRedisInstance (manager : RedisManager) (redisname : Bytes) :
    RedisManager :=
  let (stage, manager) :=
    manager.getRedisServer redisname manager.instances.length
  { manager with
    instances := manager.instances ++
      [{ redisname := redisname, stage := stage }] }

/-- A `newRedisInstance` that was woken takes its client. -/
def runInstance (manager : RedisManager) (index : Nat) :
    Option RedisManager :=
  manager.instances[index]?.bind fun pointer =>
    if pointer.stage = .waiting then
      manager.redis[pointer.redisname]?.bind fun channel =>
        (channel.resumeRead index).map fun (client, channel) =>
          { manager with
            redis := manager.redis.insert pointer.redisname channel
            instances := manager.instances.set index
              { pointer with stage := .live (some client) } }
    else none

/-- `release_redis_client`, by the deleter that runs as task `task`. -/
def releaseRedisClient (manager : RedisManager) (data task : Nat) :
    InstanceStage × RedisManager :=
  let redisname := manager.redisName.getD data []
  match manager.redis[redisname]? with
  | none => (.released, manager)
  | some channel =>
      match channel.write task data with
      | (true, channel) =>
          (.released,
            { manager with redis := manager.redis.insert redisname channel })
      | (false, channel) =>
          (.releasing data,
            { manager with redis := manager.redis.insert redisname channel })

/-- The last copy of a pointer goes away.  The deleter also runs for a null
pointer, and reads through it. -/
def delRedisInstance (manager : RedisManager) (index : Nat) :
    Option RedisManager :=
  manager.instances[index]?.bind fun pointer =>
    match pointer.stage with
    | .live none => some { manager with stopped := true }
    | .live (some data) =>
        let (stage, manager) := manager.releaseRedisClient data index
        some { manager with
          instances := manager.instances.set index
            { pointer with stage := stage } }
    | _ => none

/-- A deleter that was woken puts its client back. -/
def runRelease (manager : RedisManager) (index : Nat) : Option RedisManager :=
  manager.instances[index]?.bind fun pointer =>
    match pointer.stage with
    | .releasing data =>
        let redisname := manager.redisName.getD data []
        manager.redis[redisname]?.bind fun channel =>
          (channel.resumeWrite index data).map fun channel =>
            { manager with
              redis := manager.redis.insert redisname channel
              instances := manager.instances.set index
                { pointer with stage := .released } }
    | _ => none

def step (manager : RedisManager) (event : PoolEvent) :
    Option RedisManager :=
  if manager.stopped then none
  else
    match event with
    | .redisInit redisname valid link =>
        some (manager.addRedisServer redisname valid link)
    | .newRedisInstance redisname => some (manager.newRedisInstance redisname)
    | .runInstance index => manager.runInstance index
    | .delRedisInstance index => manager.delRedisInstance index
    | .runRelease index => manager.runRelease index

end RedisManager

/-- A channel of `link` clients, of which `held` are out: no writer waits, and
every place that is free, and every reader, is a signal to writers. -/
structure Conserved (members held : List Nat) (link : Nat)
    (channel : Channel Nat Nat Nat) : Prop where
  size : members.length = link
  once : (channel.queue ++ held).Perm members
  noWriter : channel.writeBlock.waitQueue = []
  room : channel.writeBlock.wakeup + channel.queue.length =
    link + channel.readBlock.tasks.length

namespace Conserved

variable {members held : List Nat} {link : Nat}
  {channel next : Channel Nat Nat Nat}

theorem of_perm {other : List Nat} (same : held.Perm other)
    (conserved : Conserved members held link channel) :
    Conserved members other link channel :=
  { conserved with
    once := (same.symm.append_left channel.queue).trans conserved.once }

theorem wake_writeBlock (conserved : Conserved members held link channel) :
    channel.writeBlock.wake =
      { channel.writeBlock with wakeup := channel.writeBlock.wakeup + 1 } := by
  simp only [BlockObject.wake, conserved.noWriter]

/-- The number of clients that are out. -/
theorem held_le (conserved : Conserved members held link channel) :
    channel.queue.length + held.length = link := by
  rw [← conserved.size, ← conserved.once.length_eq, List.length_append]

theorem read {task client : Nat}
    (conserved : Conserved members held link channel)
    (taken : channel.read task = (some client, next)) :
    Conserved members (client :: held) link next := by
  obtain ⟨_, writers, readers, queue⟩ := Channel.read_done taken
  rw [conserved.wake_writeBlock] at writers
  have once := conserved.once
  have room := conserved.room
  rw [queue] at once room
  refine ⟨conserved.size, ?_, ?_, ?_⟩
  · exact List.perm_middle.trans once
  · rw [writers]
    exact conserved.noWriter
  · rw [List.length_cons] at room
    simp only [writers, readers]
    omega

theorem park {task : Nat} (conserved : Conserved members held link channel)
    (taken : channel.read task = (none, next)) :
    Conserved members held link next := by
  obtain ⟨writers, readers, queue⟩ := Channel.read_parked taken
  rw [conserved.wake_writeBlock] at writers
  have room := conserved.room
  refine ⟨conserved.size, ?_, ?_, ?_⟩
  · rw [queue]
    exact conserved.once
  · rw [writers]
    exact conserved.noWriter
  · simp only [writers, readers, queue, BlockObject.tasks, List.length_append,
      List.length_singleton] at room ⊢
    omega

theorem resume {task client : Nat}
    (conserved : Conserved members held link channel)
    (taken : channel.resumeRead task = some (client, next)) :
    Conserved members (client :: held) link next := by
  obtain ⟨_, writers, queue⟩ := Channel.resumeRead_done taken
  have readers := (Channel.resumeRead_tasks taken).length_eq
  have once := conserved.once
  have room := conserved.room
  rw [queue] at once room
  refine ⟨conserved.size, ?_, ?_, ?_⟩
  · exact List.perm_middle.trans once
  · rw [writers]
    exact conserved.noWriter
  · simp only [readers, List.length_cons] at room
    rw [writers]
    omega

/-- While a client is out, there is room for it. -/
theorem ready {client : Nat}
    (conserved : Conserved members (client :: held) link channel) :
    0 < channel.writeBlock.wakeup := by
  have places := conserved.held_le
  have room := conserved.room
  rw [List.length_cons] at places
  omega

theorem release {client : Nat} (task : Nat)
    (conserved : Conserved members (client :: held) link channel) :
    ∃ next, channel.write task client = (true, next) ∧
      Conserved members held link next := by
  obtain ⟨next, written, writers, readers, queue⟩ :=
    Channel.spinWrite_ready conserved.ready client
  refine ⟨next, Channel.write_ready conserved.ready task written,
    conserved.size, ?_, ?_, ?_⟩
  · rw [queue, List.append_assoc]
    exact conserved.once
  · rw [writers]
    exact conserved.noWriter
  · have positive := conserved.ready
    have room := conserved.room
    have waiting := (BlockObject.tasks_wake channel.readBlock).length_eq
    simp only [writers, readers, queue, waiting, List.length_append,
      List.length_singleton]
    omega

end Conserved

/-- The addresses of the clients that were built for a name. -/
def addresses (names : List Bytes) (redisname : Bytes) : List Nat :=
  (List.range names.length).filter fun client =>
    names[client]? = some redisname

theorem addresses_append (names : List Bytes) (redisname added : Bytes)
    (count : Nat) :
    addresses (names ++ List.replicate count added) redisname =
      addresses names redisname ++
        if added = redisname then List.range' names.length count else [] := by
  have split : List.range (names.length + count) =
      List.range names.length ++ List.range' names.length count := by
    have joined := @List.range'_append_1 0 names.length count
    rw [Nat.zero_add] at joined
    rw [List.range_eq_range', List.range_eq_range', joined]
  have old : ∀ client ∈ List.range names.length,
      decide ((names ++ List.replicate count added)[client]? =
        some redisname) = decide (names[client]? = some redisname) := by
    intro client member
    rw [List.getElem?_append_left (List.mem_range.mp member)]
  have new : ∀ client ∈ List.range' names.length count,
      decide ((names ++ List.replicate count added)[client]? =
        some redisname) = decide (added = redisname) := by
    intro client member
    obtain ⟨low, high⟩ := List.mem_range'_1.mp member
    have bound : client - names.length < count := by omega
    rw [List.getElem?_append_right low, List.getElem?_replicate, if_pos bound]
    simp
  simp only [addresses, List.length_append, List.length_replicate, split,
    List.filter_append, List.filter_congr old, List.filter_congr new]
  by_cases same : added = redisname
  · simp [same]
  · simp [same]

/-- The client that a live pointer to a client of the pool holds. -/
def Instance.holds (redisname : Bytes) (pointer : Instance) : List Nat :=
  match pointer.stage with
  | .live (some client) => if pointer.redisname = redisname then [client] else []
  | _ => []

namespace RedisManager

def held (manager : RedisManager) (redisname : Bytes) : List Nat :=
  manager.instances.flatMap (Instance.holds redisname)

/-- What the loop of `add_redis_server` has done with a new channel. -/
structure Fills (redisname : Bytes) (count : Nat) (before after : RedisManager)
    (channel filled : Channel Nat Nat Nat) : Prop where
  pool : after.redis[redisname]? = some filled
  others : ∀ other, other ≠ redisname → after.redis[other]? = before.redis[other]?
  names : after.redisName = before.redisName ++ List.replicate count redisname
  instances : after.instances = before.instances
  stopped : after.stopped = before.stopped
  queue : filled.queue =
    channel.queue ++ List.range' before.redisName.length count
  noWriter : filled.writeBlock.waitQueue = []
  noSignal : filled.writeBlock.wakeup = 0
  noReader : filled.readBlock.tasks = []

theorem addClients_fills (redisname : Bytes) (link : Nat) :
    ∀ {manager : RedisManager} {channel : Channel Nat Nat Nat},
      manager.redis[redisname]? = some channel →
      channel.writeBlock.wakeup = link → channel.writeBlock.waitQueue = [] →
      channel.readBlock.tasks = [] →
      ∃ filled, Fills redisname link manager
        (addClients redisname true link manager) channel filled := by
  induction link with
  | zero =>
      intro manager channel present noSignal noWriter noReader
      exact ⟨channel, present, fun _ _ => rfl, by simp [addClients], rfl, rfl,
        by simp, noWriter, noSignal, noReader⟩
  | succ link induction =>
      intro manager channel present signals noWriter noReader
      have ready : 0 < channel.writeBlock.wakeup := by omega
      obtain ⟨next, written, writers, readers, queue⟩ :=
        Channel.spinWrite_ready ready manager.redisName.length
      have unfolded : addClients redisname true (link + 1) manager =
          addClients redisname true link
            { manager with
              redisName := manager.redisName ++ [redisname]
              redis := manager.redis.insert redisname next } := by
        simp only [addClients, present, Option.bind_some, written, if_true]
      have noneRead : next.readBlock.tasks = [] := by
        have same := BlockObject.tasks_wake channel.readBlock
        rw [noReader] at same
        rw [readers]
        exact same.eq_nil
      have placed : ({ manager with
          redisName := manager.redisName ++ [redisname]
          redis := manager.redis.insert redisname next } :
            RedisManager).redis[redisname]? = some next := by
        simp
      have signalsLeft : next.writeBlock.wakeup = link := by
        simp only [writers, signals, Nat.add_sub_cancel]
      have noneWrites : next.writeBlock.waitQueue = [] := by
        simp only [writers, noWriter]
      obtain ⟨filled, fills⟩ :=
        induction placed signalsLeft noneWrites noneRead
      rw [unfolded]
      refine ⟨filled, fills.pool, ?_, ?_, fills.instances, fills.stopped, ?_,
        fills.noWriter, fills.noSignal, fills.noReader⟩
      · intro other different
        rw [fills.others other different]
        simp [Std.ExtTreeMap.getElem?_insert, Ne.symm different]
      · rw [fills.names, List.replicate_succ]
        simp
      · rw [fills.queue, queue, List.range'_succ]
        simp

/-- The new pool is there beside the earlier ones. -/
theorem Fills.mem_redis_iff {redisname : Bytes} {count : Nat}
    {before after : RedisManager} {channel filled : Channel Nat Nat Nat}
    (fills : Fills redisname count before after channel filled)
    (other : Bytes) :
    other ∈ after.redis ↔ other = redisname ∨ other ∈ before.redis := by
  by_cases same : other = redisname
  · subst same
    obtain ⟨known, _⟩ := Std.ExtTreeMap.getElem?_eq_some_iff.mp fills.pool
    exact iff_of_true known (.inl rfl)
  · rw [Std.ExtTreeMap.mem_iff_isSome_getElem?, fills.others other same,
      ← Std.ExtTreeMap.mem_iff_isSome_getElem?]
    simp [same]

/-- The clients of a new pool are all in its channel. -/
theorem Fills.conserved {redisname : Bytes} {link : Nat}
    {before after : RedisManager} {filled : Channel Nat Nat Nat}
    (fills : Fills redisname link before after
      { writeBlock := { wakeup := link } } filled)
    (unbuilt : addresses before.redisName redisname = []) :
    Conserved (addresses after.redisName redisname) [] link filled := by
  have clients : addresses after.redisName redisname =
      List.range' before.redisName.length link := by
    rw [fills.names, addresses_append, if_pos rfl, unbuilt, List.nil_append]
  refine ⟨?_, ?_, fills.noWriter, ?_⟩
  · rw [clients, List.length_range']
  · rw [clients, fills.queue]
    simp
  · rw [fills.noSignal, fills.noReader, fills.queue]
    simp

/-- `redisInit` is called with a new name and a valid configuration, and
`newRedisInstance` with the name of a pool. -/
def Proper (manager : RedisManager) : PoolEvent → Prop
  | .redisInit redisname valid _ => valid = true ∧ redisname ∉ manager.redis
  | .newRedisInstance redisname => redisname ∈ manager.redis
  | _ => True

instance Proper.decidable (manager : RedisManager) :
    (event : PoolEvent) → Decidable (manager.Proper event)
  | .redisInit _ valid _ =>
      inferInstanceAs (Decidable (valid = true ∧ _ ∉ manager.redis))
  | .newRedisInstance _ => inferInstanceAs (Decidable (_ ∈ manager.redis))
  | .runInstance _ | .delRedisInstance _ | .runRelease _ => isTrue trivial

/-- A pointer that waits, holds a client, or has put it back. -/
def Settled (stage : InstanceStage) : Prop :=
  stage = .waiting ∨ stage = .released ∨ ∃ client, stage = .live (some client)

structure Sound (past : List PoolEvent) (manager : RedisManager) : Prop where
  running : manager.stopped = false
  pools : ∀ redisname link, .redisInit redisname true link ∈ past →
    ∃ channel, manager.redis[redisname]? = some channel ∧
      Conserved (addresses manager.redisName redisname)
        (manager.held redisname) link channel
  initialised : ∀ redisname ∈ manager.redis,
    ∃ link, .redisInit redisname true link ∈ past
  unbuilt : ∀ redisname, redisname ∉ manager.redis →
    addresses manager.redisName redisname = []
  pointers : ∀ pointer ∈ manager.instances,
    pointer.redisname ∈ manager.redis ∧ Settled pointer.stage

namespace Sound

variable {past : List PoolEvent} {event : PoolEvent}
  {manager next : RedisManager}

theorem conserved (sound : Sound past manager) {redisname : Bytes}
    {channel : Channel Nat Nat Nat}
    (present : manager.redis[redisname]? = some channel) :
    ∃ link, Conserved (addresses manager.redisName redisname)
      (manager.held redisname) link channel := by
  obtain ⟨known, _⟩ := Std.ExtTreeMap.getElem?_eq_some_iff.mp present
  obtain ⟨link, called⟩ := sound.initialised redisname known
  obtain ⟨other, isOther, conserved⟩ := sound.pools redisname link called
  obtain rfl : other = channel :=
    Option.some.inj (isOther.symm.trans present)
  exact ⟨link, conserved⟩

/-- One pool and the pointers to its clients change. -/
theorem change (sound : Sound past manager)
    (noInit : ∀ redisname valid link, event ≠ .redisInit redisname valid link)
    {redisname : Bytes} {channel other : Channel Nat Nat Nat}
    {instances : List Instance}
    (present : manager.redis[redisname]? = some channel)
    (changed : ∀ link,
      Conserved (addresses manager.redisName redisname)
        (manager.held redisname) link channel →
      Conserved (addresses manager.redisName redisname)
        (instances.flatMap (Instance.holds redisname)) link other)
    (unchanged : ∀ name, name ≠ redisname → (manager.held name).Perm
      (instances.flatMap (Instance.holds name)))
    (pointers : ∀ pointer ∈ instances,
      pointer.redisname ∈ manager.redis ∧ Settled pointer.stage) :
    Sound (past ++ [event])
      { manager with
        redis := manager.redis.insert redisname other
        instances := instances } := by
  obtain ⟨known, _⟩ := Std.ExtTreeMap.getElem?_eq_some_iff.mp present
  have sameNames : ∀ name, name ∈ manager.redis.insert redisname other ↔
      name ∈ manager.redis := OrderedMap.mem_insert_of_mem _ known
  have calls : ∀ name link,
      PoolEvent.redisInit name true link ∈ past ++ [event] ↔
        .redisInit name true link ∈ past := by
    intro name link
    simp [Ne.symm (noInit name true link)]
  refine ⟨sound.running, ?_, ?_, ?_, ?_⟩
  · intro name link called
    obtain ⟨before, isBefore, conserved⟩ :=
      sound.pools name link ((calls name link).mp called)
    by_cases same : name = redisname
    · subst same
      obtain rfl : before = channel :=
        Option.some.inj (isBefore.symm.trans present)
      exact ⟨other, by simp, changed link conserved⟩
    · refine ⟨before, ?_, conserved.of_perm (unchanged name same)⟩
      simpa [Std.ExtTreeMap.getElem?_insert, Ne.symm same] using isBefore
  · intro name member
    obtain ⟨link, called⟩ :=
      sound.initialised name ((sameNames name).mp member)
    exact ⟨link, (calls name link).mpr called⟩
  · intro name absent
    exact sound.unbuilt name (mt (sameNames name).mpr absent)
  · intro pointer member
    obtain ⟨pool, settled⟩ := pointers pointer member
    exact ⟨(sameNames _).mpr pool, settled⟩

theorem held_eq_nil (sound : Sound past manager) {redisname : Bytes}
    (fresh : redisname ∉ manager.redis) : manager.held redisname = [] := by
  apply List.flatMap_eq_nil_iff.mpr
  intro pointer member
  have different : pointer.redisname ≠ redisname := by
    intro same
    exact fresh (same ▸ (sound.pointers pointer member).1)
  unfold Instance.holds
  split
  · rw [if_neg different]
  · rfl

theorem redisInit (sound : Sound past manager) {redisname : Bytes} (link : Nat)
    (fresh : redisname ∉ manager.redis) :
    Sound (past ++ [.redisInit redisname true link])
      (manager.addRedisServer redisname true link) := by
  have placed : ({ manager with
      redis := manager.redis.insert redisname
        { writeBlock := { wakeup := link } } } :
          RedisManager).redis[redisname]? =
      some { writeBlock := { wakeup := link } } := by
    simp
  obtain ⟨filled, fills⟩ := addClients_fills redisname link placed rfl rfl rfl
  have unfolded : manager.addRedisServer redisname true link =
      addClients redisname true link
        { manager with
          redis := manager.redis.insert redisname
            { writeBlock := { wakeup := link } } } := by
    simp only [addRedisServer, if_neg fresh]
  rw [unfolded]
  generalize addClients redisname true link _ = after at fills
  have others : ∀ name, name ≠ redisname →
      after.redis[name]? = manager.redis[name]? := by
    intro name different
    rw [fills.others name different]
    simp [Std.ExtTreeMap.getElem?_insert, Ne.symm different]
  have sameHeld : ∀ name, after.held name = manager.held name := by
    intro name
    simp only [held, fills.instances]
  have known : ∀ name, name ∈ after.redis ↔
      name = redisname ∨ name ∈ manager.redis := by
    intro name
    rw [fills.mem_redis_iff]
    by_cases same : name = redisname
    · simp [same]
    · simp [same, Ne.symm same]
  refine ⟨fills.stopped.trans sound.running, ?_, ?_, ?_, ?_⟩
  · intro name count called
    rcases List.mem_append.mp called with earlier | now
    · obtain ⟨channel, present, conserved⟩ := sound.pools name count earlier
      have different : name ≠ redisname := by
        rintro rfl
        exact fresh (Std.ExtTreeMap.getElem?_eq_some_iff.mp present).1
      refine ⟨channel, (others name different).trans present, ?_⟩
      rw [sameHeld, fills.names, addresses_append, if_neg different.symm,
        List.append_nil]
      exact conserved
    · obtain ⟨rfl, rfl⟩ : name = redisname ∧ count = link := by
        simpa using now
      refine ⟨filled, fills.pool, ?_⟩
      rw [sameHeld, sound.held_eq_nil fresh]
      exact fills.conserved (sound.unbuilt name fresh)
  · intro name member
    rcases (known name).mp member with rfl | earlier
    · exact ⟨link, by simp⟩
    · obtain ⟨count, called⟩ := sound.initialised name earlier
      exact ⟨count, List.mem_append_left _ called⟩
  · intro name absent
    obtain ⟨different, unknown⟩ := not_or.mp (mt (known name).mpr absent)
    rw [fills.names, addresses_append, if_neg (Ne.symm different),
      List.append_nil]
    exact sound.unbuilt name unknown
  · intro pointer member
    rw [fills.instances] at member
    obtain ⟨pool, settled⟩ := sound.pointers pointer member
    exact ⟨(known _).mpr (.inr pool), settled⟩

theorem newRedisInstance (sound : Sound past manager) {redisname : Bytes}
    (known : redisname ∈ manager.redis) :
    Sound (past ++ [.newRedisInstance redisname])
      (manager.newRedisInstance redisname) := by
  obtain ⟨channel, present⟩ := Option.isSome_iff_exists.mp
    (Std.ExtTreeMap.mem_iff_isSome_getElem?.mp known)
  have added : ∀ (stage : InstanceStage), Settled stage →
      ∀ pointer ∈ manager.instances ++
        [{ redisname := redisname, stage := stage }],
        pointer.redisname ∈ manager.redis ∧ Settled pointer.stage := by
    intro stage settled pointer member
    rcases List.mem_append.mp member with earlier | now
    · exact sound.pointers pointer earlier
    · rw [List.mem_singleton.mp now]
      exact ⟨known, settled⟩
  cases taken : channel.read manager.instances.length with
  | mk result next =>
      cases result with
      | none =>
          have unfolded : manager.newRedisInstance redisname =
              { manager with
                redis := manager.redis.insert redisname next
                instances := manager.instances ++
                  [{ redisname := redisname, stage := .waiting }] } := by
            simp only [RedisManager.newRedisInstance, getRedisServer, present,
              taken]
          rw [unfolded]
          refine sound.change (by simp) present ?_ ?_ (added _ (.inl rfl))
          · intro link conserved
            simpa [held, Instance.holds] using conserved.park taken
          · intro name _
            simp [held, Instance.holds]
      | some client =>
          have unfolded : manager.newRedisInstance redisname =
              { manager with
                redis := manager.redis.insert redisname next
                instances := manager.instances ++
                  [{ redisname := redisname
                     stage := .live (some client) }] } := by
            simp only [RedisManager.newRedisInstance, getRedisServer, present,
              taken]
          rw [unfolded]
          refine sound.change (by simp) present ?_ ?_
            (added _ (.inr (.inr ⟨client, rfl⟩)))
          · intro link conserved
            refine (conserved.read taken).of_perm ?_
            simpa [held, Instance.holds] using
              (List.perm_append_singleton client (manager.held redisname)).symm
          · intro name different
            simp [held, Instance.holds, Ne.symm different]

/-- One pointer changes its stage. -/
theorem set_pointers (sound : Sound past manager) {index : Nat}
    {pointer : Instance} (present : manager.instances[index]? = some pointer)
    {stage : InstanceStage} (settled : Settled stage) :
    ∀ other ∈ manager.instances.set index { pointer with stage := stage },
      other.redisname ∈ manager.redis ∧ Settled other.stage := by
  intro other member
  rcases List.mem_or_eq_of_mem_set member with earlier | rfl
  · exact sound.pointers other earlier
  · exact ⟨(sound.pointers pointer (List.mem_of_getElem? present)).1, settled⟩

theorem runInstance (sound : Sound past manager) {index : Nat}
    (stepped : manager.runInstance index = some next) :
    Sound (past ++ [.runInstance index]) next := by
  obtain ⟨pointer, isPointer, stepped⟩ := Option.bind_eq_some_iff.mp stepped
  split at stepped
  · rename_i waiting
    obtain ⟨channel, present, stepped⟩ := Option.bind_eq_some_iff.mp stepped
    obtain ⟨⟨client, other⟩, taken, rfl⟩ := Option.map_eq_some_iff.mp stepped
    refine sound.change (by simp) present ?_ ?_
      (sound.set_pointers isPointer (.inr (.inr ⟨client, rfl⟩)))
    · intro link conserved
      obtain ⟨others, before, after⟩ := flatMap_replace
        (Instance.holds pointer.redisname) isPointer
      refine (conserved.resume taken).of_perm ?_
      have nothing : Instance.holds pointer.redisname pointer = [] := by
        simp [Instance.holds, waiting]
      rw [nothing, List.nil_append] at before
      have replaced := after { pointer with stage := .live (some client) }
      have one : Instance.holds pointer.redisname
          { pointer with stage := .live (some client) } = [client] := by
        simp [Instance.holds]
      rw [one] at replaced
      exact (before.cons client).trans replaced.symm
    · intro name different
      refine (flatMap_keep (Instance.holds name) isPointer ?_).symm
      simp [Instance.holds, waiting, Ne.symm different]
  · simp at stepped

theorem delRedisInstance (sound : Sound past manager) {index : Nat}
    (stepped : manager.delRedisInstance index = some next) :
    Sound (past ++ [.delRedisInstance index]) next := by
  obtain ⟨pointer, isPointer, stepped⟩ := Option.bind_eq_some_iff.mp stepped
  obtain ⟨known, settled⟩ :=
    sound.pointers pointer (List.mem_of_getElem? isPointer)
  rcases settled with waiting | released | ⟨client, live⟩
  · simp [waiting] at stepped
  · simp [released] at stepped
  · simp only [live] at stepped
    obtain ⟨channel, present⟩ := Option.isSome_iff_exists.mp
      (Std.ExtTreeMap.mem_iff_isSome_getElem?.mp known)
    obtain ⟨others, before, after⟩ := flatMap_replace
      (Instance.holds pointer.redisname) isPointer
    have one : Instance.holds pointer.redisname pointer = [client] := by
      simp [Instance.holds, live]
    rw [one] at before
    obtain ⟨link, conserved⟩ := sound.conserved present
    have out := conserved.of_perm before
    obtain ⟨returned, written, _⟩ := out.release index
    have member : client ∈ addresses manager.redisName pointer.redisname :=
      out.once.subset (by simp)
    have ofPool : manager.redisName.getD client [] = pointer.redisname := by
      have isName := (List.mem_filter.mp member).2
      rw [List.getD_eq_getElem?_getD, of_decide_eq_true isName]
      rfl
    simp only [releaseRedisClient, ofPool, present, written] at stepped
    obtain rfl := Option.some.inj stepped
    refine sound.change (by simp) present ?_ ?_
      (sound.set_pointers isPointer (.inr (.inl rfl)))
    · intro link conserved
      obtain ⟨again, writtenAgain, kept⟩ :=
        (conserved.of_perm before).release index
      obtain rfl : again = returned :=
        (Prod.mk.inj (writtenAgain.symm.trans written)).2
      exact kept.of_perm (after _).symm
    · intro name different
      refine (flatMap_keep (Instance.holds name) isPointer ?_).symm
      simp [Instance.holds, live, Ne.symm different]

theorem step (sound : Sound past manager) (proper : manager.Proper event)
    (stepped : manager.step event = some next) :
    Sound (past ++ [event]) next := by
  simp only [RedisManager.step, sound.running, Bool.false_eq_true, if_false]
    at stepped
  cases event with
  | redisInit redisname valid link =>
      obtain ⟨rfl, fresh⟩ := proper
      obtain rfl := Option.some.inj stepped
      exact sound.redisInit link fresh
  | newRedisInstance redisname =>
      obtain rfl := Option.some.inj stepped
      exact sound.newRedisInstance proper
  | runInstance index => exact sound.runInstance stepped
  | delRedisInstance index => exact sound.delRedisInstance stepped
  | runRelease index =>
      obtain ⟨pointer, isPointer, stepped⟩ :=
        Option.bind_eq_some_iff.mp stepped
      rcases (sound.pointers pointer (List.mem_of_getElem? isPointer)).2 with
        waiting | released | ⟨client, live⟩
      · simp [waiting] at stepped
      · simp [released] at stepped
      · simp [live] at stepped

end Sound

/-- Every client is in the channel of its pool or held by one live pointer:
the channel and the pointers together hold each client of the pool once and
no other. -/
structure Conserves (manager : RedisManager) (redisname : Bytes) (link : Nat)
    (channel : Channel Nat Nat Nat) : Prop where
  size : (addresses manager.redisName redisname).length = link
  distinct : (channel.queue ++ manager.held redisname).Nodup
  exactly : ∀ client, client ∈ channel.queue ++ manager.held redisname ↔
    manager.redisName[client]? = some redisname
  bounded : (manager.held redisname).length ≤ link

theorem conserves_of_conserved {manager : RedisManager} {redisname : Bytes}
    {link : Nat} {channel : Channel Nat Nat Nat}
    (conserved : Conserved (addresses manager.redisName redisname)
      (manager.held redisname) link channel) :
    manager.Conserves redisname link channel := by
  refine ⟨conserved.size, ?_, ?_, ?_⟩
  · exact conserved.once.nodup_iff.mpr (List.nodup_range.filter _)
  · intro client
    rw [conserved.once.mem_iff, addresses, List.mem_filter, List.mem_range,
      decide_eq_true_iff]
    refine ⟨And.right, fun isName => ⟨?_, isName⟩⟩
    exact (List.getElem?_eq_some_iff.mp isName).1
  · have places := conserved.held_le
    omega

/-- A client is never renamed. -/
theorem redisName_addClients (redisname : Bytes) (valid : Bool) (link : Nat) :
    ∀ manager : RedisManager,
      manager.redisName <+:
        (addClients redisname valid link manager).redisName := by
  induction link with
  | zero =>
      intro manager
      exact List.prefix_rfl
  | succ link induction =>
      intro manager
      cases valid with
      | false => exact List.prefix_rfl
      | true =>
          simp only [addClients, if_true]
          split
          · exact List.prefix_append _ _
          · rename_i channel _
            exact (List.prefix_append manager.redisName [redisname]).trans
              (induction { manager with
                redisName := manager.redisName ++ [redisname]
                redis := manager.redis.insert redisname channel })

theorem redisName_getRedisServer (manager : RedisManager) (redisname : Bytes)
    (task : Nat) :
    (manager.getRedisServer redisname task).2.redisName =
      manager.redisName := by
  unfold getRedisServer
  split
  · rfl
  · split <;> rfl

theorem redisName_releaseRedisClient (manager : RedisManager)
    (data task : Nat) :
    (manager.releaseRedisClient data task).2.redisName =
      manager.redisName := by
  unfold releaseRedisClient
  dsimp only
  split
  · rfl
  · split <;> rfl

theorem redisName_step {manager next : RedisManager} {event : PoolEvent}
    (stepped : manager.step event = some next) :
    manager.redisName <+: next.redisName := by
  simp only [step] at stepped
  split at stepped
  · simp at stepped
  cases event with
  | redisInit redisname valid link =>
      obtain rfl := Option.some.inj stepped
      unfold addRedisServer
      split
      · exact redisName_addClients redisname valid link manager
      · exact redisName_addClients redisname valid link
          { manager with
            redis := manager.redis.insert redisname
              { writeBlock := { wakeup := link } } }
  | newRedisInstance redisname =>
      obtain rfl := Option.some.inj stepped
      have same := manager.redisName_getRedisServer redisname
        manager.instances.length
      exact same ▸ List.prefix_rfl
  | runInstance index =>
      obtain ⟨pointer, _, stepped⟩ := Option.bind_eq_some_iff.mp stepped
      split at stepped
      · obtain ⟨channel, _, stepped⟩ := Option.bind_eq_some_iff.mp stepped
        obtain ⟨_, _, rfl⟩ := Option.map_eq_some_iff.mp stepped
        exact List.prefix_rfl
      · simp at stepped
  | delRedisInstance index =>
      obtain ⟨pointer, _, stepped⟩ := Option.bind_eq_some_iff.mp stepped
      split at stepped
      · obtain rfl := Option.some.inj stepped
        exact List.prefix_rfl
      · rename_i data _
        obtain rfl := Option.some.inj stepped
        have same := manager.redisName_releaseRedisClient data index
        show manager.redisName <+:
          (manager.releaseRedisClient data index).2.redisName
        exact same ▸ List.prefix_rfl
      · simp at stepped
  | runRelease index =>
      obtain ⟨pointer, _, stepped⟩ := Option.bind_eq_some_iff.mp stepped
      split at stepped
      · obtain ⟨channel, _, stepped⟩ := Option.bind_eq_some_iff.mp stepped
        obtain ⟨_, _, rfl⟩ := Option.map_eq_some_iff.mp stepped
        exact List.prefix_rfl
      · simp at stepped

theorem pools_conserved {events : List PoolEvent} {manager : RedisManager}
    (proper : Throughout step Proper {} events)
    (reached : runWith step {} events = some manager) :
    manager.stopped = false ∧
      (∀ pointer ∈ manager.instances, ∀ client,
        pointer.stage ≠ .releasing client) ∧
      (∀ redisname link, .redisInit redisname true link ∈ events →
        ∃ channel, manager.redis[redisname]? = some channel ∧
          manager.Conserves redisname link channel) ∧
      ∀ before, before <+: events → ∀ earlier,
        runWith step {} before = some earlier →
        earlier.redisName <+: manager.redisName := by
  have start : Sound [] {} :=
    ⟨rfl, by simp, by simp, by simp [addresses], by simp⟩
  have sound : Sound ([] ++ events) manager :=
    invariant_of_past (fun _ {_ _ _} sound proper stepped =>
      sound.step proper stepped) events start proper reached
  refine ⟨sound.running, ?_, ?_, ?_⟩
  · intro pointer member client releasing
    rcases (sound.pointers pointer member).2 with
      waiting | released | ⟨_, live⟩
    · simp [waiting] at releasing
    · simp [released] at releasing
    · simp [live] at releasing
  · intro redisname link called
    obtain ⟨channel, present, conserved⟩ := sound.pools redisname link called
    exact ⟨channel, present, conserves_of_conserved conserved⟩
  · rintro before ⟨after, rfl⟩ earlier run
    rw [runWith_append, run] at reached
    have kept : ∀ {state event next}, earlier.redisName <+: state.redisName →
        True → step state event = some next →
        earlier.redisName <+: next.redisName :=
      fun isPrefix _ stepped => isPrefix.trans (redisName_step stepped)
    exact invariant_of_forall kept after (by simp) List.prefix_rfl reached

namespace Example

/-- Three coroutines ask for one of two clients; the third waits until the
first is done. -/
def shared : List PoolEvent :=
  [.redisInit (ascii "im") true 2, .redisInit (ascii "kv") true 1,
    .newRedisInstance (ascii "im"), .newRedisInstance (ascii "im"),
    .newRedisInstance (ascii "im"), .delRedisInstance 0, .runInstance 2]

theorem pools_conserved_shared :
    ∃ manager, runWith step {} shared = some manager ∧
      manager.held (ascii "im") = [1, 0] ∧
      ∃ channel, manager.redis[ascii "im"]? = some channel ∧
        manager.Conserves (ascii "im") 2 channel := by
  have happens : (runWith step {} shared).map (·.held (ascii "im")) =
      some [1, 0] := by decide +kernel
  obtain ⟨manager, reached, isHeld⟩ := Option.map_eq_some_iff.mp happens
  refine ⟨manager, reached, isHeld, ?_⟩
  exact (pools_conserved (by decide +kernel) reached).2.2.1 (ascii "im") 2
    (by decide)

end Example

end RedisManager

end Natsu.Redis
