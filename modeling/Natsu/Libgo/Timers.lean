import Natsu.Foundation.Refinement
import Mathlib.Data.List.Perm.Basic
import Mathlib.Logic.Function.Basic

/-!
# The timers of the scheduler

A timer waits in the map of its clock until it is cancelled or `GetExpired`
takes it out, and its function is called after that.  The scheduler calls the
timers that it was given one by one, and they may be cancelled meanwhile.  A
cancelled timer is taken from its map in a second step.
-/

namespace Natsu.Libgo

open Natsu.Foundation

inductive Clock where
  | system
  | steady
  deriving DecidableEq

/-- The maps hold deadlines in nanoseconds with the numbers of their timers. -/
structure CoTimerMgr where
  deadlines : Clock → List (Int × Nat)
  nextTrigger : Clock → Int
  token : Nat → Option Clock
  active : Nat → Bool
  count : Nat
  /-- The timers that were cancelled and not taken from their map yet. -/
  cancelling : List Nat
  /-- The timers that the scheduler was given and has not called yet. -/
  out : List Nat

inductive TimerEvent where
  | expireAt (clock : Clock) (deadline : Int)
  | cancel (id : Nat)
  | erase (id : Nat)
  /-- The clocks are read before the timers are taken and after that. -/
  | getExpired (now after : Clock → Int) (n : Nat)
  /-- `GetExpired` while another thread has the lock. -/
  | busy (now : Clock → Int)
  | call (id : Nat)

inductive TimerAnswer where
  | quiet
  | expired (ids : List Nat) (nextMs : Int)
  | next (nextMs : Int)
  | cancelled (id : Nat)
  | erased (id : Nat)
  | called (id : Nat)
  deriving DecidableEq

namespace TimerAnswer

/-- The timers that are in no map any more. -/
def left : TimerAnswer → List Nat
  | .expired ids _ => ids
  | .erased id => [id]
  | _ => []

/-- The timer whose function will not be called any more. -/
def ended : TimerAnswer → List Nat
  | .cancelled id => [id]
  | .called id => [id]
  | _ => []

end TimerAnswer

namespace CoTimerMgr

def longMax : Int := 9223372036854775807

/-- A cast to milliseconds. -/
def millis (time : Int) : Int := time.tdiv 1000000

def new : CoTimerMgr where
  deadlines _ := []
  nextTrigger _ := longMax
  token _ := none
  active _ := false
  count := 0
  cancelling := []
  out := []

/-- A new entry of a multimap stands behind those with its key. -/
def insert (deadline : Int) (id : Nat) (entries : List (Int × Nat)) :
    List (Int × Nat) :=
  entries.takeWhile (·.1 ≤ deadline) ++
    (deadline, id) :: entries.dropWhile (·.1 ≤ deadline)

/-- One of the two loops of `GetExpired`: what is taken, what is left, and how
many more may be taken. -/
def takeExpired (now : Int) :
    Nat → List (Int × Nat) → List (Int × Nat) × List (Int × Nat) × Nat
  | 0, entries => ([], entries, 0)
  | n + 1, [] => ([], [], n + 1)
  | n + 1, entry :: entries =>
      if now < entry.1 then ([], entry :: entries, n + 1)
      else
        let (taken, rest, more) := takeExpired now n entries
        (entry :: taken, rest, more)

def triggerOf (entries : List (Int × Nat)) : Int :=
  match entries with
  | [] => longMax
  | entry :: _ => millis entry.1

variable (mgr : CoTimerMgr)

def pending : List Nat :=
  (mgr.deadlines .system).map Prod.snd ++ (mgr.deadlines .steady).map Prod.snd

def expireAt (clock : Clock) (deadline : Int) : CoTimerMgr :=
  { mgr with
    deadlines := Function.update mgr.deadlines clock
      (insert deadline (mgr.count + 1) (mgr.deadlines clock))
    nextTrigger :=
      if (mgr.deadlines .system).isEmpty ∧ (mgr.deadlines .steady).isEmpty then
        Function.update mgr.nextTrigger clock (millis deadline)
      else mgr.nextTrigger
    token := Function.update mgr.token (mgr.count + 1) (some clock)
    active := Function.update mgr.active (mgr.count + 1) true
    count := mgr.count + 1 }

/-- `CoTimer::Cancel` and `CoTimer::BlockCancel`. -/
def cancel (id : Nat) : TimerAnswer × CoTimerMgr :=
  if mgr.active id then
    (.cancelled id, { mgr with
      active := Function.update mgr.active id false
      cancelling := id :: mgr.cancelling })
  else (.quiet, mgr)

/-- `CoTimerMgr::__Cancel`. -/
def erase (id : Nat) : TimerAnswer × CoTimerMgr :=
  let next := { mgr with cancelling := mgr.cancelling.erase id }
  match mgr.token id with
  | none => (.quiet, next)
  | some clock =>
      (.erased id, { next with
        deadlines := Function.update mgr.deadlines clock
          ((mgr.deadlines clock).eraseP (·.2 = id))
        token := Function.update mgr.token id none })

/-- How many milliseconds the scheduler may wait. -/
def getNextTriggerTime (now : Clock → Int) : Int :=
  min (max (mgr.nextTrigger .system - millis (now .system)) 0)
    (max (mgr.nextTrigger .steady - millis (now .steady)) 0)

def getExpired (now after : Clock → Int) (n : Nat) :
    TimerAnswer × CoTimerMgr :=
  let system := takeExpired (now .system) n (mgr.deadlines .system)
  let steady := takeExpired (now .steady) system.2.2 (mgr.deadlines .steady)
  let ids := system.1.map Prod.snd ++ steady.1.map Prod.snd
  let next := { mgr with
    deadlines := fun
      | .system => system.2.1
      | .steady => steady.2.1
    nextTrigger := fun
      | .system => triggerOf system.2.1
      | .steady => triggerOf steady.2.1
    token := fun id => if id ∈ ids then none else mgr.token id
    out := mgr.out ++ ids }
  (.expired ids (next.getNextTriggerTime after), next)

/-- `CoTimer::operator()`. -/
def call (id : Nat) : TimerAnswer × CoTimerMgr :=
  let next := { mgr with out := mgr.out.erase id }
  if mgr.active id then
    (.called id, { next with active := Function.update mgr.active id false })
  else (.quiet, next)

def step : TimerEvent → Option (TimerAnswer × CoTimerMgr)
  | .expireAt clock deadline => some (.quiet, mgr.expireAt clock deadline)
  | .cancel id => some (mgr.cancel id)
  | .erase id => if id ∈ mgr.cancelling then some (mgr.erase id) else none
  | .getExpired now after n => some (mgr.getExpired now after n)
  | .busy now => some (.next (mgr.getNextTriggerTime now), mgr)
  | .call id => if id ∈ mgr.out then some (mgr.call id) else none

section Lists

variable {now : Int} {n : Nat} {entries : List (Int × Nat)}

theorem takeExpired_append (now : Int) (n : Nat)
    (entries : List (Int × Nat)) :
    (takeExpired now n entries).1 ++ (takeExpired now n entries).2.1 =
      entries := by
  fun_induction takeExpired now n entries with
  | case1 => rfl
  | case2 => rfl
  | case3 => rfl
  | case4 n entry entries due taken rest more isTaken induction =>
      rw [isTaken] at induction
      simpa using induction

theorem insert_perm (deadline : Int) (id : Nat)
    (entries : List (Int × Nat)) :
    (insert deadline id entries).Perm ((deadline, id) :: entries) := by
  have split := List.takeWhile_append_dropWhile
    (p := fun entry : Int × Nat => decide (entry.1 ≤ deadline)) (l := entries)
  have moved : (insert deadline id entries).Perm ((deadline, id) ::
      (entries.takeWhile (·.1 ≤ deadline) ++
        entries.dropWhile (·.1 ≤ deadline))) := List.perm_middle
  rwa [split] at moved

theorem insert_sorted (deadline : Int) (id : Nat)
    (sorted : entries.Pairwise fun first second => first.1 ≤ second.1) :
    (insert deadline id entries).Pairwise
      fun first second => first.1 ≤ second.1 := by
  induction entries with
  | nil => simp [insert]
  | cons entry entries induction =>
      obtain ⟨first, rest⟩ := List.pairwise_cons.mp sorted
      by_cases ahead : entry.1 ≤ deadline
      · have shape : insert deadline id (entry :: entries) =
            entry :: insert deadline id entries := by
          simp [insert, ahead]
        rw [shape]
        refine List.pairwise_cons.mpr ⟨?_, induction rest⟩
        intro other member
        rcases List.mem_cons.mp ((insert_perm deadline id entries).mem_iff.mp
          member) with rfl | later
        · exact ahead
        · exact first other later
      · have shape : insert deadline id (entry :: entries) =
            (deadline, id) :: entry :: entries := by
          simp [insert, ahead]
        rw [shape]
        refine List.pairwise_cons.mpr ⟨?_, sorted⟩
        intro other member
        rcases List.mem_cons.mp member with rfl | later
        · simp only
          omega
        · have behind := first other later
          simp only
          omega

end Lists

section Pending

variable {past : List TimerAnswer} {mgr : CoTimerMgr} {clock : Clock}
  {deadline : Int} {id : Nat}

/-- Every timer that was made is in one map, or has left it once. -/
structure Kept (past : List TimerAnswer) (mgr : CoTimerMgr) : Prop where
  placed : (mgr.pending ++ past.flatMap TimerAnswer.left).Perm
    (List.range' 1 mgr.count)
  tokens : ∀ id clock, mgr.token id = some clock ↔
    id ∈ (mgr.deadlines clock).map Prod.snd
  sorted : ∀ clock, (mgr.deadlines clock).Pairwise
    fun first second => first.1 ≤ second.1

theorem mem_pending :
    id ∈ mgr.pending ↔ ∃ clock, id ∈ (mgr.deadlines clock).map Prod.snd := by
  rw [pending, List.mem_append]
  constructor
  · intro member
    rcases member with system | steady
    · exact ⟨_, system⟩
    · exact ⟨_, steady⟩
  · intro member
    obtain ⟨clock, member⟩ := member
    cases clock with
    | system => exact .inl member
    | steady => exact .inr member

theorem Kept.nodup (kept : Kept past mgr) :
    (mgr.pending ++ past.flatMap TimerAnswer.left).Nodup :=
  kept.placed.nodup_iff.mpr (List.nodup_range' (s := 1))

theorem Kept.nodup_clock (kept : Kept past mgr) (clock : Clock) :
    ((mgr.deadlines clock).map Prod.snd).Nodup := by
  obtain ⟨inMaps, _, _⟩ := List.nodup_append.mp kept.nodup
  obtain ⟨system, steady, _⟩ := List.nodup_append.mp inMaps
  cases clock with
  | system => exact system
  | steady => exact steady

theorem Kept.bounded (kept : Kept past mgr)
    (member : id ∈ (mgr.deadlines clock).map Prod.snd) :
    id ≤ mgr.count := by
  have inPending : id ∈ mgr.pending := mem_pending.mpr ⟨clock, member⟩
  have inRange := kept.placed.mem_iff.mp (List.mem_append_left _ inPending)
  rw [List.mem_range'_1] at inRange
  omega

theorem pending_expireAt (mgr : CoTimerMgr) (clock : Clock)
    (deadline : Int) :
    (mgr.expireAt clock deadline).pending.Perm
      ((mgr.count + 1) :: mgr.pending) := by
  have inserted := (insert_perm deadline (mgr.count + 1)
    (mgr.deadlines clock)).map Prod.snd
  cases clock with
  | system => simpa [pending, expireAt] using inserted.append_right _
  | steady =>
      have behind := inserted.append_left ((mgr.deadlines .system).map Prod.snd)
      have moved : ((mgr.deadlines .system).map Prod.snd ++
          (mgr.count + 1) :: (mgr.deadlines .steady).map Prod.snd).Perm _ :=
        List.perm_middle
      simpa [pending, expireAt] using behind.trans moved

theorem Kept.expireAt (kept : Kept past mgr) :
    Kept (past ++ [.quiet]) (mgr.expireAt clock deadline) where
  placed := by
    have here := (pending_expireAt mgr clock deadline).append_right
      (past.flatMap TimerAnswer.left)
    have total := here.trans (kept.placed.cons (mgr.count + 1))
    have last : (mgr.count + 1) :: List.range' 1 mgr.count =
        [mgr.count + 1] ++ List.range' 1 mgr.count := rfl
    rw [last] at total
    have moved := total.trans List.perm_append_comm
    have range : List.range' 1 (mgr.count + 1) =
        List.range' 1 mgr.count ++ [mgr.count + 1] := by
      rw [List.range'_1_concat, Nat.add_comm 1]
    simpa [TimerAnswer.left, CoTimerMgr.expireAt, range] using moved
  tokens := by
    intro id other
    have fresh {clock : Clock} :
        mgr.count + 1 ∉ (mgr.deadlines clock).map Prod.snd := by
      intro member
      have bounded := kept.bounded member
      omega
    have inserted : id ∈ (insert deadline (mgr.count + 1)
        (mgr.deadlines clock)).map Prod.snd ↔
        id = mgr.count + 1 ∨ id ∈ (mgr.deadlines clock).map Prod.snd := by
      rw [((insert_perm deadline (mgr.count + 1)
        (mgr.deadlines clock)).map Prod.snd).mem_iff]
      simp only [List.map_cons, List.mem_cons]
    simp only [CoTimerMgr.expireAt]
    by_cases isClock : other = clock
    · subst isClock
      rw [Function.update_self, inserted]
      by_cases isNew : id = mgr.count + 1
      · simp [isNew]
      · rw [Function.update_of_ne isNew, kept.tokens]
        simp only [isNew, false_or]
    · rw [Function.update_of_ne isClock]
      by_cases isNew : id = mgr.count + 1
      · subst isNew
        rw [Function.update_self]
        refine iff_of_false ?_ fresh
        simpa using Ne.symm isClock
      · rw [Function.update_of_ne isNew, kept.tokens]
  sorted := by
    intro other
    simp only [CoTimerMgr.expireAt]
    by_cases isClock : other = clock
    · subst isClock
      rw [Function.update_self]
      exact insert_sorted deadline _ (kept.sorted other)
    · rw [Function.update_of_ne isClock]
      exact kept.sorted other

/-- A step that moves no timer. -/
theorem Kept.same {next : CoTimerMgr} {answer : TimerAnswer}
    (kept : Kept past mgr) (deadlines : next.deadlines = mgr.deadlines)
    (token : next.token = mgr.token) (count : next.count = mgr.count)
    (stays : answer.left = []) : Kept (past ++ [answer]) next where
  placed := by
    have same : next.pending = mgr.pending := by
      rw [pending, pending, deadlines]
    simpa [same, count, stays] using kept.placed
  tokens := by
    rw [deadlines, token]
    exact kept.tokens
  sorted := by
    rw [deadlines]
    exact kept.sorted

theorem Kept.cancel (kept : Kept past mgr) (id : Nat) :
    Kept (past ++ [(mgr.cancel id).1]) (mgr.cancel id).2 := by
  rw [CoTimerMgr.cancel]
  split
  · exact kept.same rfl rfl rfl rfl
  · exact kept.same rfl rfl rfl rfl

/-- The timer leaves its map. -/
theorem Kept.taken (kept : Kept past mgr)
    (isToken : mgr.token id = some clock) :
    ((mgr.deadlines clock).map Prod.snd).Perm
      (id :: ((mgr.deadlines clock).eraseP (·.2 = id)).map Prod.snd) := by
  have member := (kept.tokens id clock).mp isToken
  obtain ⟨entry, inMap, isEntry⟩ := List.mem_map.mp member
  obtain ⟨taken, front, back, notAhead, isTaken, isMap, erased⟩ :=
    List.exists_of_eraseP (p := fun entry : Int × Nat =>
      decide (entry.2 = id)) inMap (by simpa using isEntry)
  have isId : taken.2 = id := by simpa using isTaken
  rw [erased, isMap, List.map_append, List.map_cons, isId, List.map_append]
  exact List.perm_middle

theorem Kept.erase (kept : Kept past mgr) (id : Nat) :
    Kept (past ++ [(mgr.erase id).1]) (mgr.erase id).2 := by
  cases isToken : mgr.token id with
  | none =>
      simp only [CoTimerMgr.erase, isToken]
      exact kept.same rfl rfl rfl rfl
  | some clock =>
      have ids := kept.taken isToken
      have elsewhere :
          id ∉ ((mgr.deadlines clock).eraseP (·.2 = id)).map Prod.snd :=
        (List.nodup_cons.mp (ids.nodup_iff.mp (kept.nodup_clock clock))).1
      simp only [CoTimerMgr.erase, isToken]
      refine ⟨?_, ?_, ?_⟩
      · have total := kept.placed
        rw [List.perm_iff_count] at total ids ⊢
        intro other
        have here := total other
        have moved := ids other
        simp only [pending, List.count_append, List.count_cons] at here moved
        simp only [pending, List.flatMap_append, List.flatMap_singleton,
          TimerAnswer.left, List.count_append, List.count_singleton]
        cases clock with
        | system =>
            rw [Function.update_self, Function.update_of_ne (by decide)]
            omega
        | steady =>
            rw [Function.update_self, Function.update_of_ne (by decide)]
            omega
      · intro other second
        dsimp only
        by_cases isOther : other = id
        · subst isOther
          rw [Function.update_self]
          refine iff_of_false (by simp) ?_
          by_cases isClock : second = clock
          · rw [isClock, Function.update_self]
            exact elsewhere
          · rw [Function.update_of_ne isClock, ← kept.tokens, isToken]
            simpa using Ne.symm isClock
        · rw [Function.update_of_ne isOther, kept.tokens]
          by_cases isClock : second = clock
          · rw [isClock, Function.update_self, ids.mem_iff]
            simp only [List.mem_cons, isOther, false_or]
          · rw [Function.update_of_ne isClock]
      · intro other
        dsimp only
        by_cases isClock : other = clock
        · rw [isClock, Function.update_self]
          exact (kept.sorted clock).sublist List.eraseP_sublist
        · rw [Function.update_of_ne isClock]
          exact kept.sorted other

/-- The ids that `GetExpired` gives, clock by clock. -/
theorem taken_perm (now : Int) (n : Nat) (entries : List (Int × Nat)) :
    (entries.map Prod.snd).Perm
      ((takeExpired now n entries).2.1.map Prod.snd ++
        (takeExpired now n entries).1.map Prod.snd) := by
  have split := congrArg (List.map Prod.snd)
    (takeExpired_append now n entries)
  rw [List.map_append] at split
  rw [← split]
  exact List.perm_append_comm

theorem Kept.getExpired (kept : Kept past mgr) (now after : Clock → Int)
    (n : Nat) :
    Kept (past ++ [(mgr.getExpired now after n).1])
      (mgr.getExpired now after n).2 := by
  have system := taken_perm (now .system) n (mgr.deadlines .system)
  have steady := taken_perm (now .steady)
    (takeExpired (now .system) n (mgr.deadlines .system)).2.2
    (mgr.deadlines .steady)
  have total := kept.placed
  have nodup := kept.nodup
  have nodupSystem := kept.nodup_clock .system
  have nodupSteady := kept.nodup_clock .steady
  have apart : ∀ id ∈ (mgr.deadlines .system).map Prod.snd,
      id ∉ (mgr.deadlines .steady).map Prod.snd := by
    intro id inSystem inSteady
    have first := (kept.tokens id .system).mpr inSystem
    have second := (kept.tokens id .steady).mpr inSteady
    simp [first] at second
  have sortedRest (now : Int) (n : Nat) (clock : Clock) :
      (takeExpired now n (mgr.deadlines clock)).2.1.Pairwise
        fun first second => first.1 ≤ second.1 := by
    have sorted := kept.sorted clock
    rw [← takeExpired_append now n (mgr.deadlines clock)] at sorted
    exact (List.pairwise_append.mp sorted).2.1
  rw [system.nodup_iff, List.nodup_append] at nodupSystem
  rw [steady.nodup_iff, List.nodup_append] at nodupSteady
  refine ⟨?_, ?_, ?_⟩
  · rw [List.perm_iff_count] at total system steady ⊢
    intro id
    have here := total id
    have fromSystem := system id
    have fromSteady := steady id
    simp only [pending, List.count_append] at here fromSystem fromSteady
    simp only [CoTimerMgr.getExpired, pending, List.flatMap_append,
      List.flatMap_singleton, TimerAnswer.left, List.count_append]
    omega
  · intro id clock
    simp only [CoTimerMgr.getExpired]
    split
    · rename_i taken
      refine iff_of_false (by simp) ?_
      rcases List.mem_append.mp taken with inSystem | inSteady
      · cases clock with
        | system => exact fun rest => nodupSystem.2.2 id rest id inSystem rfl
        | steady =>
            intro rest
            exact apart id (system.mem_iff.mpr (List.mem_append_right _
              inSystem)) (steady.mem_iff.mpr (List.mem_append_left _ rest))
      · cases clock with
        | system =>
            intro rest
            exact apart id (system.mem_iff.mpr (List.mem_append_left _ rest))
              (steady.mem_iff.mpr (List.mem_append_right _ inSteady))
        | steady => exact fun rest => nodupSteady.2.2 id rest id inSteady rfl
    · rename_i notTaken
      rw [List.mem_append, not_or] at notTaken
      rw [kept.tokens]
      cases clock with
      | system => rw [system.mem_iff, List.mem_append, or_iff_left notTaken.1]
      | steady => rw [steady.mem_iff, List.mem_append, or_iff_left notTaken.2]
  · intro clock
    cases clock with
    | system => exact sortedRest (now .system) n .system
    | steady => exact sortedRest (now .steady) _ .steady

theorem Kept.call (kept : Kept past mgr) (id : Nat) :
    Kept (past ++ [(mgr.call id).1]) (mgr.call id).2 := by
  rw [CoTimerMgr.call]
  split
  · exact kept.same rfl rfl rfl rfl
  · exact kept.same rfl rfl rfl rfl

end Pending

section Runs

variable {past results : List TimerAnswer} {mgr next : CoTimerMgr}
  {answer : TimerAnswer} {event : TimerEvent} {events : List TimerEvent}
  {clock : Clock} {deadline : Int} {id : Nat}

/-- A timer is active until it is cancelled or called, and a map or the
scheduler has it so long. -/
structure Sound (past : List TimerAnswer) (mgr : CoTimerMgr) : Prop where
  kept : Kept past mgr
  once : (past.flatMap TimerAnswer.ended).Nodup
  made : ∀ id ∈ past.flatMap TimerAnswer.ended, id ≤ mgr.count
  active : ∀ id, mgr.active id = true ↔
    1 ≤ id ∧ id ≤ mgr.count ∧ id ∉ past.flatMap TimerAnswer.ended
  live : ∀ id, mgr.active id = true → id ∈ mgr.pending ∨ id ∈ mgr.out
  cancelling : ∀ id ∈ mgr.cancelling,
    id ∈ past.flatMap TimerAnswer.ended

theorem ended_append (past : List TimerAnswer)
    (ends : answer.ended = []) :
    (past ++ [answer]).flatMap TimerAnswer.ended =
      past.flatMap TimerAnswer.ended := by
  rw [List.flatMap_append, List.flatMap_singleton, ends, List.append_nil]

/-- A step that ends no timer. -/
theorem Sound.same (sound : Sound past mgr)
    (kept : Kept (past ++ [answer]) next) (ends : answer.ended = [])
    (active : next.active = mgr.active) (count : next.count = mgr.count)
    (live : ∀ id, mgr.active id = true → id ∈ mgr.pending ∨ id ∈ mgr.out →
      id ∈ next.pending ∨ id ∈ next.out)
    (cancelling : ∀ id ∈ next.cancelling, id ∈ mgr.cancelling) :
    Sound (past ++ [answer]) next := by
  have same := ended_append past ends
  refine ⟨kept, ?_, ?_, ?_, ?_, ?_⟩
  · rw [same]
    exact sound.once
  · rw [same, count]
    exact sound.made
  · rw [same, active, count]
    exact sound.active
  · intro id isActive
    rw [active] at isActive
    exact live id isActive (sound.live id isActive)
  · rw [same]
    intro id member
    exact sound.cancelling id (cancelling id member)

/-- A step that ends an active timer. -/
theorem Sound.ends (sound : Sound past mgr)
    (kept : Kept (past ++ [answer]) next) (isActive : mgr.active id = true)
    (ends : answer.ended = [id])
    (active : next.active = Function.update mgr.active id false)
    (count : next.count = mgr.count)
    (live : ∀ other, other ≠ id → other ∈ mgr.pending ∨ other ∈ mgr.out →
      other ∈ next.pending ∨ other ∈ next.out)
    (cancelling : ∀ other ∈ next.cancelling,
      other ≠ id → other ∈ mgr.cancelling) :
    Sound (past ++ [answer]) next := by
  obtain ⟨_, isMade, notEnded⟩ := (sound.active id).mp isActive
  have ended : (past ++ [answer]).flatMap TimerAnswer.ended =
      past.flatMap TimerAnswer.ended ++ [id] := by
    rw [List.flatMap_append, List.flatMap_singleton, ends]
  refine ⟨kept, ?_, ?_, ?_, ?_, ?_⟩
  · rw [ended, List.nodup_append]
    refine ⟨sound.once, List.pairwise_singleton _ id, ?_⟩
    intro other member last isLast isSame
    rw [isSame, List.mem_singleton.mp isLast] at member
    exact notEnded member
  · rw [ended, count]
    intro other member
    rcases List.mem_append.mp member with before | isId
    · exact sound.made other before
    · rw [List.mem_singleton.mp isId]
      exact isMade
  · intro other
    rw [ended, active, count, List.mem_append, List.mem_singleton]
    by_cases isId : other = id
    · subst isId
      simp
    · rw [Function.update_of_ne isId, sound.active]
      simp only [isId, or_false]
  · intro other isOther
    rw [active] at isOther
    by_cases isId : other = id
    · subst isId
      simp at isOther
    · rw [Function.update_of_ne isId] at isOther
      exact live other isId (sound.live other isOther)
  · intro other member
    rw [ended, List.mem_append, List.mem_singleton]
    by_cases isId : other = id
    · exact .inr isId
    · exact .inl (sound.cancelling other (cancelling other member isId))

theorem Sound.expireAt (sound : Sound past mgr) :
    Sound (past ++ [.quiet]) (mgr.expireAt clock deadline) := by
  have same := ended_append past (rfl : TimerAnswer.quiet.ended = [])
  have pending (id : Nat) := (pending_expireAt mgr clock deadline).mem_iff
    (a := id)
  simp only [List.mem_cons] at pending
  refine ⟨sound.kept.expireAt, ?_, ?_, ?_, ?_, ?_⟩
  · rw [same]
    exact sound.once
  · rw [same]
    intro id member
    exact Nat.le_succ_of_le (sound.made id member)
  · rw [same]
    intro id
    simp only [CoTimerMgr.expireAt]
    by_cases isNew : id = mgr.count + 1
    · subst isNew
      have notEnded : mgr.count + 1 ∉ past.flatMap TimerAnswer.ended := by
        intro member
        have isMade := sound.made _ member
        omega
      simp [notEnded]
    · rw [Function.update_of_ne isNew, sound.active]
      constructor
      · intro present
        obtain ⟨first, last, notEnded⟩ := present
        exact ⟨first, by omega, notEnded⟩
      · intro present
        obtain ⟨first, last, notEnded⟩ := present
        exact ⟨first, by omega, notEnded⟩
  · intro id isActive
    rw [pending]
    by_cases isNew : id = mgr.count + 1
    · exact .inl (.inl isNew)
    · simp only [CoTimerMgr.expireAt] at isActive
      rw [Function.update_of_ne isNew] at isActive
      rcases sound.live id isActive with inMap | isOut
      · exact .inl (.inr inMap)
      · exact .inr isOut
  · rw [same]
    exact sound.cancelling

theorem Sound.cancel (sound : Sound past mgr) (id : Nat) :
    Sound (past ++ [(mgr.cancel id).1]) (mgr.cancel id).2 := by
  have kept := sound.kept.cancel id
  rw [CoTimerMgr.cancel] at kept ⊢
  split at kept
  · rename_i isActive
    rw [if_pos isActive]
    apply sound.ends kept isActive
    · rfl
    · rfl
    · rfl
    · intro other _ present
      exact present
    · intro other member isOther
      exact List.mem_of_ne_of_mem isOther member
  · rename_i notActive
    rw [if_neg notActive]
    apply sound.same kept
    · rfl
    · rfl
    · rfl
    · intro other _ present
      exact present
    · intro other member
      exact member

theorem mem_pending_erase (kept : Kept past mgr) {other : Nat}
    (isOther : other ≠ id) (member : other ∈ mgr.pending) :
    other ∈ (mgr.erase id).2.pending := by
  cases isToken : mgr.token id with
  | none =>
      simp only [CoTimerMgr.erase, isToken]
      exact member
  | some clock =>
      simp only [CoTimerMgr.erase, isToken]
      obtain ⟨second, inMap⟩ := mem_pending.mp member
      refine mem_pending.mpr ⟨second, ?_⟩
      dsimp only
      by_cases isClock : second = clock
      · subst isClock
        rw [Function.update_self]
        exact List.mem_of_ne_of_mem isOther
          ((kept.taken isToken).mem_iff.mp inMap)
      · rwa [Function.update_of_ne isClock]

theorem Sound.erase (sound : Sound past mgr)
    (member : id ∈ mgr.cancelling) :
    Sound (past ++ [(mgr.erase id).1]) (mgr.erase id).2 := by
  have stays {other : Nat} (isActive : mgr.active other = true) :
      other ∈ mgr.pending → other ∈ (mgr.erase id).2.pending := by
    apply mem_pending_erase sound.kept
    intro isId
    subst isId
    exact ((sound.active other).mp isActive).2.2
      (sound.cancelling other member)
  have kept := sound.kept.erase id
  cases isToken : mgr.token id with
  | none =>
      simp only [CoTimerMgr.erase, isToken] at kept stays ⊢
      apply sound.same kept
      · rfl
      · rfl
      · rfl
      · intro other isActive present
        exact present
      · intro other member
        exact List.mem_of_mem_erase member
  | some clock =>
      simp only [CoTimerMgr.erase, isToken] at kept stays ⊢
      apply sound.same kept
      · rfl
      · rfl
      · rfl
      · intro other isActive present
        exact present.imp_left (stays isActive)
      · intro other member
        exact List.mem_of_mem_erase member

theorem Sound.getExpired (sound : Sound past mgr) (now after : Clock → Int)
    (n : Nat) :
    Sound (past ++ [(mgr.getExpired now after n).1])
      (mgr.getExpired now after n).2 := by
  apply sound.same (sound.kept.getExpired now after n)
  · rfl
  · rfl
  · rfl
  · intro id _ present
    rcases present with inMap | isOut
    · have system := (taken_perm (now .system) n
        (mgr.deadlines .system)).mem_iff (a := id)
      have steady := (taken_perm (now .steady)
        (takeExpired (now .system) n (mgr.deadlines .system)).2.2
        (mgr.deadlines .steady)).mem_iff (a := id)
      rw [pending, List.mem_append, system, steady, List.mem_append,
        List.mem_append] at inMap
      simp only [CoTimerMgr.getExpired, pending, List.mem_append]
      tauto
    · exact .inr (List.mem_append_left _ isOut)
  · intro id member
    exact member

theorem Sound.call (sound : Sound past mgr) (id : Nat) :
    Sound (past ++ [(mgr.call id).1]) (mgr.call id).2 := by
  have stays {other : Nat} (isOther : other ≠ id)
      (present : other ∈ mgr.pending ∨ other ∈ mgr.out) :
      other ∈ mgr.pending ∨ other ∈ mgr.out.erase id :=
    present.imp_right (List.mem_erase_of_ne isOther).mpr
  have kept := sound.kept.call id
  rw [CoTimerMgr.call] at kept ⊢
  split at kept
  · rename_i isActive
    rw [if_pos isActive]
    apply sound.ends kept isActive
    · rfl
    · rfl
    · rfl
    · intro other isOther present
      exact stays isOther present
    · intro other member _
      exact member
  · rename_i notActive
    rw [if_neg notActive]
    apply sound.same kept
    · rfl
    · rfl
    · rfl
    · intro other isActive present
      apply stays _ present
      intro isId
      subst isId
      exact notActive isActive
    · intro other member
      exact member

theorem Sound.step (sound : Sound past mgr)
    (stepped : mgr.step event = some (answer, next)) :
    Sound (past ++ [answer]) next := by
  cases event with
  | expireAt clock deadline =>
      obtain ⟨rfl, rfl⟩ := Prod.mk.inj (Option.some.inj stepped)
      exact sound.expireAt
  | cancel id =>
      have after := sound.cancel id
      rwa [Option.some.inj stepped] at after
  | erase id =>
      simp only [CoTimerMgr.step] at stepped
      split at stepped
      · rename_i member
        have after := sound.erase member
        rwa [Option.some.inj stepped] at after
      · cases stepped
  | getExpired now later n =>
      have after := sound.getExpired now later n
      rwa [Option.some.inj stepped] at after
  | busy now =>
      obtain ⟨rfl, rfl⟩ := Prod.mk.inj (Option.some.inj stepped)
      exact sound.same (sound.kept.same rfl rfl rfl rfl) rfl rfl rfl
        (fun _ _ present => present) fun _ member => member
  | call id =>
      simp only [CoTimerMgr.step] at stepped
      split at stepped
      · have after := sound.call id
        rwa [Option.some.inj stepped] at after
      · cases stepped

theorem sound_new : Sound [] new := by
  refine ⟨⟨List.Perm.nil, ?_, ?_⟩, List.nodup_nil, ?_, ?_, ?_, ?_⟩
  · simp [new]
  · intro clock
    exact List.Pairwise.nil
  · simp
  · intro id
    simp [new]
    omega
  · simp [new]
  · simp [new]

theorem sound_of_run
    (ran : answers step new events = some (results, mgr)) :
    Sound results mgr := by
  have anyway : Throughout (fun state event =>
      (step state event).map Prod.snd) (fun _ _ => True) new events :=
    throughout_of_forall events fun _ _ => trivial
  exact invariant_of_answers (fun _ {_ _ _ _} sound _ stepped =>
    sound.step stepped) events sound_new anyway ran

/-- Every timer is in the map of a clock until it leaves it, once. -/
theorem timers_leave_once
    (ran : answers CoTimerMgr.step new events = some (results, mgr)) :
    (mgr.pending ++ results.flatMap TimerAnswer.left).Perm
      (List.range' 1 mgr.count) :=
  (sound_of_run ran).kept.placed

/-- No timer is cancelled or called twice, or called after it was cancelled,
and one that is neither yet is in a map or can be called. -/
theorem functions_run_once
    (ran : answers CoTimerMgr.step new events = some (results, mgr)) :
    (results.flatMap TimerAnswer.ended).Nodup ∧
      ∀ id, 1 ≤ id → id ≤ mgr.count →
        id ∉ results.flatMap TimerAnswer.ended →
        id ∈ mgr.pending ∨
          ∃ next, mgr.step (.call id) = some (.called id, next) := by
  have sound := sound_of_run ran
  refine ⟨sound.once, ?_⟩
  intro id first last notEnded
  have isActive := (sound.active id).mpr ⟨first, last, notEnded⟩
  rcases sound.live id isActive with inMap | isOut
  · exact .inl inMap
  · refine .inr ⟨(mgr.call id).2, ?_⟩
    rw [step, if_pos isOut, CoTimerMgr.call, if_pos isActive]

/-- No timer comes before the trigger time of its clock. -/
def Prompt (mgr : CoTimerMgr) : Prop :=
  ∀ clock, ∀ entry ∈ mgr.deadlines clock,
    mgr.nextTrigger clock ≤ millis entry.1

theorem Prompt.timely (prompt : mgr.Prompt) (now : Clock → Int)
    {entry : Int × Nat} (member : entry ∈ mgr.deadlines clock) :
    mgr.getNextTriggerTime now ≤
      max (millis entry.1 - millis (now clock)) 0 := by
  have early := prompt clock entry member
  rw [getNextTriggerTime]
  cases clock with
  | system => omega
  | steady => omega

theorem millis_mono {first second : Int} (ordered : first ≤ second) :
    millis first ≤ millis second :=
  Int.tdiv_le_tdiv (by decide) ordered

theorem triggerOf_le {entries : List (Int × Nat)}
    (sorted : entries.Pairwise fun first second => first.1 ≤ second.1) :
    ∀ entry ∈ entries, triggerOf entries ≤ millis entry.1 := by
  cases entries with
  | nil => simp
  | cons first entries =>
      intro entry member
      rcases List.mem_cons.mp member with rfl | later
      · exact Int.le_refl _
      · exact millis_mono ((List.pairwise_cons.mp sorted).1 entry later)

theorem Kept.prompt_getExpired (kept : Kept past mgr)
    (now after : Clock → Int) (n : Nat) :
    (mgr.getExpired now after n).2.Prompt := by
  intro clock
  have ordered := triggerOf_le
    ((kept.getExpired now after n).sorted clock)
  cases clock with
  | system => exact ordered
  | steady => exact ordered

/-- A timer that comes first moves the trigger time only when the maps were
empty. -/
def Fits (mgr : CoTimerMgr) : TimerEvent → Prop
  | .expireAt clock deadline =>
      mgr.pending = [] ∨ mgr.nextTrigger clock ≤ millis deadline
  | _ => True

theorem prompt_expireAt (prompt : mgr.Prompt) :
    (mgr.expireAt clock deadline).Prompt ↔
      mgr.Fits (.expireAt clock deadline) := by
  have inserted (entry : Int × Nat) := (insert_perm deadline (mgr.count + 1)
    (mgr.deadlines clock)).mem_iff (a := entry)
  simp only [List.mem_cons] at inserted
  by_cases empty : (mgr.deadlines .system).isEmpty ∧
      (mgr.deadlines .steady).isEmpty
  · have none (other : Clock) : mgr.deadlines other = [] := by
      cases other with
      | system => exact List.isEmpty_iff.mp empty.1
      | steady => exact List.isEmpty_iff.mp empty.2
    refine iff_of_true ?_ (.inl (by simp [pending, none]))
    intro other entry member
    simp only [expireAt, if_pos empty] at member ⊢
    by_cases isClock : other = clock
    · subst isClock
      rw [Function.update_self, inserted, none] at member
      rw [Function.update_self]
      rcases member with rfl | before
      · exact Int.le_refl _
      · cases before
    · rw [Function.update_of_ne isClock, none] at member
      cases member
  · have notEmpty : mgr.pending ≠ [] := by
      simpa [pending, List.isEmpty_iff] using empty
    simp only [Fits, notEmpty, false_or]
    constructor
    · intro after
      have early := after clock (deadline, mgr.count + 1)
      simp only [expireAt, if_neg empty, Function.update_self] at early
      exact early ((inserted _).mpr (.inl rfl))
    · intro early other entry member
      simp only [expireAt, if_neg empty] at member ⊢
      by_cases isClock : other = clock
      · subst isClock
        rw [Function.update_self, inserted] at member
        rcases member with rfl | before
        · exact early
        · exact prompt other entry before
      · rw [Function.update_of_ne isClock] at member
        exact prompt other entry member

theorem Prompt.erase (prompt : mgr.Prompt) (id : Nat) :
    (mgr.erase id).2.Prompt := by
  cases isToken : mgr.token id with
  | none =>
      simp only [CoTimerMgr.erase, isToken]
      exact prompt
  | some clock =>
      simp only [CoTimerMgr.erase, isToken]
      intro other entry member
      dsimp only at member ⊢
      by_cases isClock : other = clock
      · subst isClock
        rw [Function.update_self] at member
        exact prompt other entry (List.mem_of_mem_eraseP member)
      · rw [Function.update_of_ne isClock] at member
        exact prompt other entry member

theorem prompt_step (sound : Sound past mgr) (prompt : mgr.Prompt)
    (stepped : mgr.step event = some (answer, next)) :
    next.Prompt ↔ mgr.Fits event := by
  cases event with
  | expireAt clock deadline =>
      obtain ⟨rfl, rfl⟩ := Prod.mk.inj (Option.some.inj stepped)
      exact prompt_expireAt prompt
  | cancel id =>
      refine iff_of_true ?_ trivial
      have isNext := Option.some.inj stepped
      rw [CoTimerMgr.cancel] at isNext
      split at isNext
      · obtain ⟨rfl, rfl⟩ := Prod.mk.inj isNext
        exact prompt
      · obtain ⟨rfl, rfl⟩ := Prod.mk.inj isNext
        exact prompt
  | erase id =>
      refine iff_of_true ?_ trivial
      simp only [CoTimerMgr.step] at stepped
      split at stepped
      · have after := prompt.erase id
        rwa [Option.some.inj stepped] at after
      · cases stepped
  | getExpired now later n =>
      refine iff_of_true ?_ trivial
      have after := sound.kept.prompt_getExpired now later n
      rwa [Option.some.inj stepped] at after
  | busy now =>
      obtain ⟨rfl, rfl⟩ := Prod.mk.inj (Option.some.inj stepped)
      exact iff_of_true prompt trivial
  | call id =>
      refine iff_of_true ?_ trivial
      simp only [CoTimerMgr.step] at stepped
      split at stepped
      · have isNext := Option.some.inj stepped
        rw [CoTimerMgr.call] at isNext
        split at isNext
        · obtain ⟨rfl, rfl⟩ := Prod.mk.inj isNext
          exact prompt
        · obtain ⟨rfl, rfl⟩ := Prod.mk.inj isNext
          exact prompt
      · cases stepped

/-- The next state alone. -/
def advance (mgr : CoTimerMgr) (event : TimerEvent) : Option CoTimerMgr :=
  (mgr.step event).map Prod.snd

/-- No timer comes before the trigger time of its clock, in any state of a
run, exactly when each was added to empty maps or was not such a timer. -/
theorem triggers_prompt_iff {final : CoTimerMgr}
    (reached : runWith advance new events = some final) :
    (∀ before, before <+: events → ∀ mgr,
      runWith advance new before = some mgr → mgr.Prompt) ↔
      Throughout advance Fits new events := by
  have kept : ∀ {state : CoTimerMgr} {event : TimerEvent}
      {next : CoTimerMgr}, (∃ past, Sound past state) →
      advance state event = some next → ∃ past, Sound past next := by
    intro state event next isSound moved
    obtain ⟨past, sound⟩ := isSound
    obtain ⟨⟨answer, after⟩, stepped, rfl⟩ := Option.map_eq_some_iff.mp moved
    exact ⟨_, sound.step stepped⟩
  have exact : ∀ {state : CoTimerMgr} {event : TimerEvent}
      {next : CoTimerMgr}, (∃ past, Sound past state) → state.Prompt →
      advance state event = some next →
      (next.Prompt ↔ state.Fits event) := by
    intro state event next isSound prompt moved
    obtain ⟨past, sound⟩ := isSound
    obtain ⟨⟨answer, after⟩, stepped, rfl⟩ := Option.map_eq_some_iff.mp moved
    exact prompt_step sound prompt stepped
  refine throughout_iff kept exact events ⟨[], sound_new⟩ ?_ reached
  intro clock entry member
  cases member

end Runs

end CoTimerMgr

namespace Example

/-- The first timer is cancelled, and the second one is called. -/
def twoEnd : List TimerEvent :=
  [.expireAt .steady 5000000, .expireAt .system 2000000,
    .expireAt .steady 1000000, .cancel 1,
    .getExpired (fun _ => 3000000) (fun _ => 4000000) 1, .erase 1, .call 2]

theorem timers_leave_once_twoEnd :
    ∃ results mgr,
      answers CoTimerMgr.step .new twoEnd = some (results, mgr) ∧
      (mgr.pending ++ results.flatMap TimerAnswer.left).Perm [1, 2, 3] := by
  have ran : ∃ results mgr, answers CoTimerMgr.step .new twoEnd =
      some (results, mgr) ∧ mgr.count = 3 := ⟨_, _, rfl, rfl⟩
  obtain ⟨results, mgr, ran, count⟩ := ran
  have placed := CoTimerMgr.timers_leave_once ran
  rw [count] at placed
  exact ⟨results, mgr, ran, placed⟩

theorem functions_run_once_twoEnd :
    ∃ results mgr,
      answers CoTimerMgr.step .new twoEnd = some (results, mgr) ∧
      results.flatMap TimerAnswer.ended = [1, 2] ∧ 3 ∈ mgr.pending := by
  have ran : ∃ results mgr, answers CoTimerMgr.step .new twoEnd =
      some (results, mgr) ∧ mgr.count = 3 ∧ mgr.out = [] ∧
        results.flatMap TimerAnswer.ended = [1, 2] :=
    ⟨_, _, rfl, rfl, rfl, rfl⟩
  obtain ⟨results, mgr, ran, count, out, ended⟩ := ran
  obtain ⟨_, live⟩ := CoTimerMgr.functions_run_once ran
  have here := live 3 (by decide) (by omega) (by rw [ended]; decide)
  refine ⟨results, mgr, ran, ended, ?_⟩
  rcases here with inMap | ⟨next, called⟩
  · exact inMap
  · rw [CoTimerMgr.step, out] at called
    cases called

/-- The second timer comes first. -/
def nearer : List TimerEvent :=
  [.expireAt .steady 5000000, .expireAt .steady 1000000]

theorem triggers_prompt_iff_nearer :
    ¬ ∀ before, before <+: nearer → ∀ mgr,
      runWith CoTimerMgr.advance .new before = some mgr → mgr.Prompt := by
  have reached : ∃ final,
      runWith CoTimerMgr.advance .new nearer = some final := ⟨_, rfl⟩
  obtain ⟨final, reached⟩ := reached
  rw [CoTimerMgr.triggers_prompt_iff reached]
  intro additions
  obtain ⟨_, fits, _⟩ := additions
  rcases fits with empty | early
  · cases empty
  · revert early
    decide

end Example

end Natsu.Libgo
