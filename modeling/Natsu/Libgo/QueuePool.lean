import Mathlib.Tactic.Simps.Basic
import Natsu.Foundation.Refinement
import Natsu.Libgo.TSQueue

/-!
# Queues that share their elements

The run queues of the processers, the queues of waiting tasks and the lists
that are moved between them, all over the same hooks.  Beside their links
stands what they are meant to be: a list for each of them.  As long as an
element is only pushed when it is in no queue, and erased only from queues with
another mark than those it is not in, the links stay such lists.
-/

namespace Natsu.Libgo

open Natsu.Foundation

/-- Where an element can be. -/
inductive Place (ι σ : Type) where
  | queue (index : ι)
  | list (index : σ)
  deriving DecidableEq

structure Pool (ι σ η κ : Type) where
  queue : ι → TSQueue η κ
  list : σ → SList η κ
  heap : Heap η κ

inductive QueueOp (ι σ η : Type) where
  | push (queue : ι) (element : η)
  | pop (queue : ι)
  | pushList (queue : ι) (list : σ)
  | popFront (queue : ι) (n : Nat) (list : σ)
  | popBack (queue : ι) (n : Nat) (list : σ)
  | popAll (queue : ι) (list : σ)
  | erase (queue : ι) (element : η)

inductive QueueOutcome (η : Type) where
  | done
  | popped (element : Option η)
  | erased (found : Bool)

namespace Pool

variable {ι σ η κ : Type} [DecidableEq ι] [DecidableEq σ] [DecidableEq η]
  [DecidableEq κ] (pool : Pool ι σ η κ)

def put (index : ι) (queue : TSQueue η κ) (heap : Heap η κ) :
    Pool ι σ η κ :=
  { pool with queue := Function.update pool.queue index queue, heap := heap }

def putList (index : σ) (list : SList η κ) : Pool ι σ η κ :=
  { pool with list := Function.update pool.list index list }

def step : QueueOp ι σ η → Option (QueueOutcome η × Pool ι σ η κ)
  | .push index element =>
      let (queue, heap) := (pool.queue index).push pool.heap element
      some (.done, pool.put index queue heap)
  | .pop index =>
      ((pool.queue index).pop pool.heap).map fun (element, queue, heap) =>
        (.popped element, pool.put index queue heap)
  | .pushList index list =>
      ((pool.queue index).pushList pool.heap (pool.list list)).map
        fun (queue, elements, heap) =>
          (.done, (pool.put index queue heap).putList list elements)
  | .popFront index n list =>
      ((pool.queue index).popFront pool.heap n).map
        fun (elements, queue, heap) =>
          (.done, (pool.put index queue heap).putList list elements)
  | .popBack index n list =>
      ((pool.queue index).popBack pool.heap n).map
        fun (elements, queue, heap) =>
          (.done, (pool.put index queue heap).putList list elements)
  | .popAll index list =>
      ((pool.queue index).popAll pool.heap).map fun (elements, queue, heap) =>
        (.done, (pool.put index queue heap).putList list elements)
  | .erase index element =>
      ((pool.queue index).erase pool.heap element).map
        fun (found, queue, heap) =>
          (.erased found, pool.put index queue heap)

end Pool

/-- The lists that the queues are meant to be, and the mark of every
element. -/
structure Contents (ι σ η κ : Type) where
  queue : ι → List η
  list : σ → List η
  mark : η → Option κ

namespace Contents

variable {ι σ η κ : Type} [DecidableEq ι] [DecidableEq σ] [DecidableEq η]

def members (contents : Contents ι σ η κ) : Place ι σ → List η
  | .queue index => contents.queue index
  | .list index => contents.list index

/-- The hooks of a place. -/
def footprint (contents : Contents ι σ η κ) (head : ι → η) :
    Place ι σ → List η
  | .queue index => head index :: contents.queue index
  | .list index => contents.list index

@[simps]
def put (contents : Contents ι σ η κ) (index : ι) (elements : List η) :
    Contents ι σ η κ :=
  { contents with queue := Function.update contents.queue index elements }

@[simps]
def putList (contents : Contents ι σ η κ) (index : σ) (elements : List η) :
    Contents ι σ η κ :=
  { contents with list := Function.update contents.list index elements }

@[simps]
def setMark (contents : Contents ι σ η κ) (element : η) (mark : Option κ) :
    Contents ι σ η κ :=
  { contents with mark := Function.update contents.mark element mark }

/-- Elements were moved between a queue and a list. -/
def split (contents : Contents ι σ η κ) (index : ι) (list : σ)
    (left taken : List η) : Contents ι σ η κ :=
  (contents.put index left).putList list taken

/-- What the operations are meant to do. -/
inductive Does (head : ι → η) (token : ι → κ) (contents : Contents ι σ η κ) :
    QueueOp ι σ η → QueueOutcome η → Contents ι σ η κ → Prop where
  | push (index : ι) (element : η) (unmarked : contents.mark element = none)
      (notHead : ∀ other, element ≠ head other) :
      Does head token contents (.push index element) .done
        ((contents.put index (contents.queue index ++ [element])).setMark
          element (some (token index)))
  | popNone (index : ι) (empty : contents.queue index = []) :
      Does head token contents (.pop index) (.popped none) contents
  | pop (index : ι) (first : η) (rest : List η)
      (filled : contents.queue index = first :: rest) :
      Does head token contents (.pop index) (.popped (some first))
        ((contents.put index rest).setMark first none)
  | pushList (index : ι) (list : σ)
      (marked : ∀ element ∈ contents.list list,
        contents.mark element = some (token index)) :
      Does head token contents (.pushList index list) .done
        (contents.split index list
          (contents.queue index ++ contents.list list) [])
  | popFront (index : ι) (n : Nat) (list : σ)
      (empty : contents.list list = []) :
      Does head token contents (.popFront index n list) .done
        (contents.split index list
          ((contents.queue index).drop (n - 1 + 1))
          ((contents.queue index).take (n - 1 + 1)))
  | popBack (index : ι) (n : Nat) (list : σ)
      (empty : contents.list list = []) :
      Does head token contents (.popBack index n list) .done
        (contents.split index list
          ((contents.queue index).take
            ((contents.queue index).length - (n - 1 + 1)))
          ((contents.queue index).drop
            ((contents.queue index).length - (n - 1 + 1))))
  | popAll (index : ι) (list : σ) (empty : contents.list list = []) :
      Does head token contents (.popAll index list) .done
        (contents.split index list [] (contents.queue index))
  | erase (index : ι) (element : η)
      (member : element ∈ contents.queue index) :
      Does head token contents (.erase index element) (.erased true)
        ((contents.put index ((contents.queue index).erase element)).setMark
          element none)
  | eraseNone (index : ι) (element : η)
      (unmarked : contents.mark element ≠ some (token index)) :
      Does head token contents (.erase index element) (.erased false) contents

end Contents

/-- The links of the pool are these lists.  An element is in exactly one place
as long as it has a mark, and holds a reference then. -/
structure Represents {ι σ η κ : Type} (head : ι → η) (token : ι → κ)
    (owners : η → Nat) (pool : Pool ι σ η κ) (contents : Contents ι σ η κ) :
    Prop where
  queues : ∀ index,
    (pool.queue index).Holds pool.heap (contents.queue index)
  heads : ∀ index, (pool.queue index).head = head index
  tokens : ∀ index, (pool.queue index).check = token index
  lists : ∀ index, (pool.list index).Holds pool.heap (contents.list index)
  check : pool.heap.check = contents.mark
  apart : ∀ {first second : Place ι σ}, first ≠ second →
    (contents.footprint head first).Disjoint
      (contents.footprint head second)
  listed : ∀ element, contents.mark element ≠ none ↔
    ∃ place, element ∈ contents.members place
  refs : ∀ element, pool.heap.refs element =
    owners element + if contents.mark element = none then 0 else 1

/-- A step that changes hooks in a region only, where nothing but the touched
places has hooks. -/
structure Confined {ι σ η κ : Type} (head : ι → η) (pool next : Pool ι σ η κ)
    (contents after : Contents ι σ η κ) (region : List η)
    (touched : List (Place ι σ)) : Prop where
  same : ∀ node, node ∉ region → pool.heap.SameAt next.heap node
  covers : ∀ place ∈ touched, contents.footprint head place ⊆ region
  inside : ∀ node ∈ region,
    (∃ place ∈ touched, node ∈ contents.footprint head place) ∨
      contents.mark node = none ∧ ∀ index, node ≠ head index
  within : ∀ place ∈ touched, after.footprint head place ⊆ region
  queues : ∀ index, .queue index ∉ touched →
    next.queue index = pool.queue index ∧
      after.queue index = contents.queue index
  lists : ∀ index, .list index ∉ touched →
    next.list index = pool.list index ∧
      after.list index = contents.list index

section Refinement

variable {ι σ η κ : Type} {head : ι → η} {token : ι → κ} {owners : η → Nat}
  {pool next : Pool ι σ η κ} {contents after : Contents ι σ η κ}
  {region : List η} {touched : List (Place ι σ)} {place : Place ι σ}

theorem Contents.mem_footprint {element : η}
    (member : element ∈ contents.members place) :
    element ∈ contents.footprint head place := by
  cases place with
  | queue index => exact List.mem_cons_of_mem _ member
  | list index => exact member

theorem Contents.of_mem_footprint {node : η}
    (member : node ∈ contents.footprint head place) :
    (∃ index, node = head index) ∨ node ∈ contents.members place := by
  cases place with
  | queue index =>
      rcases List.mem_cons.mp member with same | inside
      · exact .inl ⟨index, same⟩
      · exact .inr inside
  | list index => exact .inr member

/-- A hook without a mark that is not a head is nowhere. -/
theorem Represents.fresh
    (represents : Represents head token owners pool contents) {element : η}
    (unmarked : contents.mark element = none)
    (notHead : ∀ index, element ≠ head index) (place : Place ι σ) :
    element ∉ contents.footprint head place := by
  intro member
  rcases Contents.of_mem_footprint member with ⟨index, same⟩ | inside
  · exact notHead index same
  · exact (represents.listed element).mpr ⟨place, inside⟩ unmarked

theorem Confined.members
    (confined : Confined head pool next contents after region touched)
    (untouched : place ∉ touched) :
    after.members place = contents.members place := by
  cases place with
  | queue index => exact (confined.queues index untouched).2
  | list index => exact (confined.lists index untouched).2

theorem Confined.footprint
    (confined : Confined head pool next contents after region touched)
    (untouched : place ∉ touched) :
    after.footprint head place = contents.footprint head place := by
  cases place with
  | queue index =>
      simp only [Contents.footprint, (confined.queues index untouched).2]
  | list index => exact (confined.lists index untouched).2

/-- The other places have no hooks in the region. -/
theorem Confined.outside
    (confined : Confined head pool next contents after region touched)
    (represents : Represents head token owners pool contents)
    (untouched : place ∉ touched) {node : η}
    (member : node ∈ contents.footprint head place) : node ∉ region := by
  intro inRegion
  rcases confined.inside node inRegion with ⟨other, isTouched, inOther⟩ |
    ⟨unmarked, notHead⟩
  · have different : other ≠ place := by
      intro isSame
      exact untouched (isSame ▸ isTouched)
    exact represents.apart different inOther member
  · exact represents.fresh unmarked notHead place member

theorem Confined.apart
    (confined : Confined head pool next contents after region touched)
    (represents : Represents head token owners pool contents)
    (touchedApart : ∀ first ∈ touched, ∀ second ∈ touched, first ≠ second →
      (after.footprint head first).Disjoint (after.footprint head second))
    {first second : Place ι σ} (different : first ≠ second) :
    (after.footprint head first).Disjoint (after.footprint head second) := by
  intro node inFirst inSecond
  by_cases firstTouched : first ∈ touched
  · by_cases secondTouched : second ∈ touched
    · exact touchedApart first firstTouched second secondTouched different
        inFirst inSecond
    · rw [confined.footprint secondTouched] at inSecond
      exact confined.outside represents secondTouched inSecond
        (confined.within first firstTouched inFirst)
  · rw [confined.footprint firstTouched] at inFirst
    by_cases secondTouched : second ∈ touched
    · exact confined.outside represents firstTouched inFirst
        (confined.within second secondTouched inSecond)
    · rw [confined.footprint secondTouched] at inSecond
      exact represents.apart different inFirst inSecond

theorem Confined.listed
    (confined : Confined head pool next contents after region touched)
    (represents : Represents head token owners pool contents)
    (check : next.heap.check = after.mark)
    (touchedListed : ∀ element ∈ region, after.mark element ≠ none ↔
      ∃ place ∈ touched, element ∈ after.members place) (element : η) :
    after.mark element ≠ none ↔ ∃ place, element ∈ after.members place := by
  by_cases inRegion : element ∈ region
  · rw [touchedListed element inRegion]
    constructor
    · intro isListed
      obtain ⟨place, _, member⟩ := isListed
      exact ⟨place, member⟩
    · intro isListed
      obtain ⟨place, member⟩ := isListed
      by_cases isTouched : place ∈ touched
      · exact ⟨place, isTouched, member⟩
      · rw [confined.members isTouched] at member
        exact absurd inRegion (confined.outside represents isTouched
          (Contents.mem_footprint member))
  · have marked : after.mark element = contents.mark element := by
      rw [← check, (confined.same element inRegion).check, represents.check]
    rw [marked, represents.listed]
    have untouched {place : Place ι σ}
        (nowhere : place ∈ touched → element ∈ region) : place ∉ touched :=
      fun isTouched => inRegion (nowhere isTouched)
    constructor
    · intro isListed
      obtain ⟨place, member⟩ := isListed
      have notTouched := untouched fun isTouched =>
        confined.covers place isTouched (Contents.mem_footprint member)
      exact ⟨place, by rwa [confined.members notTouched]⟩
    · intro isListed
      obtain ⟨place, member⟩ := isListed
      have notTouched := untouched fun isTouched =>
        confined.within place isTouched (Contents.mem_footprint member)
      exact ⟨place, by rwa [← confined.members notTouched]⟩

/-- What has to be shown of the touched places only. -/
theorem Confined.represents
    (confined : Confined head pool next contents after region touched)
    (represents : Represents head token owners pool contents)
    (queues : ∀ index, .queue index ∈ touched →
      (next.queue index).Holds next.heap (after.queue index) ∧
        (next.queue index).head = (pool.queue index).head ∧
        (next.queue index).check = (pool.queue index).check)
    (lists : ∀ index, .list index ∈ touched →
      (next.list index).Holds next.heap (after.list index))
    (apart : ∀ first ∈ touched, ∀ second ∈ touched, first ≠ second →
      (after.footprint head first).Disjoint (after.footprint head second))
    (check : next.heap.check = after.mark)
    (listed : ∀ element ∈ region, after.mark element ≠ none ↔
      ∃ place ∈ touched, element ∈ after.members place)
    (refs : ∀ element, next.heap.refs element =
      owners element + if after.mark element = none then 0 else 1) :
    Represents head token owners next after := by
  refine ⟨?_, ?_, ?_, ?_, check, confined.apart represents apart,
    confined.listed represents check listed, refs⟩
  · intro index
    by_cases isTouched : .queue index ∈ touched
    · exact (queues index isTouched).1
    · obtain ⟨sameQueue, sameElements⟩ := confined.queues index isTouched
      rw [sameQueue, sameElements]
      apply (represents.queues index).frame
      intro node member
      have inside : node ∈ contents.footprint head (.queue index) := by
        rwa [Contents.footprint, ← represents.heads index]
      exact confined.same node
        (confined.outside represents isTouched inside)
  · intro index
    by_cases isTouched : .queue index ∈ touched
    · rw [(queues index isTouched).2.1, represents.heads]
    · rw [(confined.queues index isTouched).1, represents.heads]
  · intro index
    by_cases isTouched : .queue index ∈ touched
    · rw [(queues index isTouched).2.2, represents.tokens]
    · rw [(confined.queues index isTouched).1, represents.tokens]
  · intro index
    by_cases isTouched : .list index ∈ touched
    · exact lists index isTouched
    · obtain ⟨sameList, sameElements⟩ := confined.lists index isTouched
      rw [sameList, sameElements]
      apply (represents.lists index).frame
      intro node member
      have inside : node ∈ contents.footprint head (.list index) := member
      exact confined.same node
        (confined.outside represents isTouched inside)

/-- A queue and a list have different elements. -/
theorem Represents.distinct
    (represents : Represents head token owners pool contents) (index : ι)
    (list : σ) :
    (head index :: (contents.queue index ++ contents.list list)).Nodup := by
  have queueDistinct := (represents.queues index).distinct
  rw [represents.heads] at queueDistinct
  rw [← List.cons_append]
  refine List.nodup_append.mpr
    ⟨queueDistinct, (represents.lists list).distinct, ?_⟩
  intro node inQueue other inList same
  have different : (Place.queue index : Place ι σ) ≠ .list list := by simp
  exact represents.apart different inQueue (same ▸ inList)

/-- A head is not an element. -/
theorem Represents.unmarked_head
    (represents : Represents head token owners pool contents) (index : ι) :
    contents.mark (head index) = none := by
  by_contra marked
  obtain ⟨place, member⟩ := (represents.listed _).mp marked
  by_cases same : Place.queue index = place
  · subst same
    have apart := (List.nodup_cons.mp (represents.queues index).distinct).1
    rw [represents.heads] at apart
    exact apart member
  · have inside : head index ∈ contents.footprint head (.queue index) :=
      List.mem_cons_self
    exact represents.apart same inside (Contents.mem_footprint member)

section Places

variable [DecidableEq ι] {index : ι} {queue : TSQueue η κ} {heap : Heap η κ}
  {left taken : List η}

section Put

variable [DecidableEq η]

/-- A step on one queue that marks or unmarks one element. -/
theorem Represents.put
    (represents : Represents head token owners pool contents)
    (changes : (pool.queue index).Changes pool.heap region queue heap left)
    (covers : head index :: contents.queue index ⊆ region)
    (inside : ∀ node ∈ region, node ∈ head index :: contents.queue index ∨
      contents.mark node = none ∧ ∀ other, node ≠ head other)
    (within : head index :: left ⊆ region) {element : η} {mark : Option κ}
    (check : heap.check = Function.update contents.mark element mark)
    (listed : ∀ node ∈ region,
      Function.update contents.mark element mark node ≠ none ↔
        node ∈ left)
    (refs : ∀ node, heap.refs node = owners node +
      if Function.update contents.mark element mark node = none then 0
      else 1) :
    Represents head token owners (pool.put index queue heap)
      ((contents.put index left).setMark element mark) := by
  have confined : Confined head pool (pool.put index queue heap) contents
      ((contents.put index left).setMark element mark) region
      [.queue index] := by
    refine ⟨changes.same, ?_, ?_, ?_, ?_, ?_⟩
    · intro place member
      obtain rfl := List.mem_singleton.mp member
      exact covers
    · intro node member
      rcases inside node member with inQueue | free
      · exact .inl ⟨_, List.mem_singleton_self _, inQueue⟩
      · exact .inr free
    · intro place member
      obtain rfl := List.mem_singleton.mp member
      simpa [Contents.footprint, Contents.setMark, Contents.put] using within
    · intro other untouched
      have different : other ≠ index := by simpa using untouched
      simp [Pool.put, Contents.setMark, Contents.put, different]
    · intro other _
      exact ⟨rfl, rfl⟩
  refine confined.represents represents ?_ ?_ ?_ check ?_ refs
  · intro other isTouched
    obtain rfl : other = index := by simpa using isTouched
    simpa [Pool.put, Contents.setMark, Contents.put] using
      ⟨changes.holds, changes.head, changes.check⟩
  · intro other isTouched
    simp at isTouched
  · intro first isFirst second isSecond different
    rw [List.mem_singleton.mp isFirst, List.mem_singleton.mp isSecond]
      at different
    exact absurd rfl different
  · intro node member
    simpa [Contents.members, Contents.setMark, Contents.put] using
      listed node member

end Put

section Split

variable [DecidableEq σ] {list : σ} {slist : SList η κ}

/-- A step that moves elements between a queue and a list. -/
theorem Represents.split
    (represents : Represents head token owners pool contents)
    (changes : (pool.queue index).Changes pool.heap
      (head index :: (contents.queue index ++ contents.list list)) queue heap
      left)
    (holds : slist.Holds heap taken)
    (permuted : (left ++ taken).Perm
      (contents.queue index ++ contents.list list))
    (check : heap.check = pool.heap.check)
    (refs : heap.refs = pool.heap.refs) :
    Represents head token owners
      ((pool.put index queue heap).putList list slist)
      (contents.split index list left taken) := by
  have distinct : (head index :: (left ++ taken)).Nodup :=
    (permuted.cons _).nodup_iff.mpr (represents.distinct index list)
  have queueNow : (contents.split index list left taken).queue index = left := by
    simp [Contents.split, Contents.putList, Contents.put]
  have listNow : (contents.split index list left taken).list list = taken := by
    simp [Contents.split, Contents.putList, Contents.put]
  have sides : (head index :: left).Disjoint taken := by
    rw [← List.cons_append] at distinct
    intro node inLeft inTaken
    exact (List.nodup_append.mp distinct).2.2 node inLeft node inTaken rfl
  have onlyTwo {place : Place ι σ}
      (isTouched : place ∈ [.queue index, .list list]) :
      place = .queue index ∨ place = .list list := by
    simpa using isTouched
  have confined : Confined head pool
      ((pool.put index queue heap).putList list slist) contents
      (contents.split index list left taken)
      (head index :: (contents.queue index ++ contents.list list))
      [.queue index, .list list] := by
    refine ⟨changes.same, ?_, ?_, ?_, ?_, ?_⟩
    · intro place isTouched node member
      rcases onlyTwo isTouched with rfl | rfl
      · exact List.mem_append_left _ member
      · exact List.mem_cons_of_mem _ (List.mem_append_right _ member)
    · intro node member
      rw [← List.cons_append] at member
      rcases List.mem_append.mp member with inQueue | inList
      · exact .inl ⟨.queue index, by simp, inQueue⟩
      · exact .inl ⟨.list list, by simp, inList⟩
    · intro place isTouched node member
      apply ((permuted.cons (head index)).mem_iff).mp
      rw [← List.cons_append]
      rcases onlyTwo isTouched with rfl | rfl
      · rw [Contents.footprint, queueNow] at member
        exact List.mem_append_left _ member
      · rw [Contents.footprint, listNow] at member
        exact List.mem_append_right _ member
    · intro other untouched
      have different : other ≠ index := by simpa using untouched
      simp [Pool.put, Pool.putList, Contents.split, Contents.putList,
        Contents.put, different]
    · intro other untouched
      have different : other ≠ list := by simpa using untouched
      simp [Pool.put, Pool.putList, Contents.split, Contents.putList,
        Contents.put, different]
  refine confined.represents represents ?_ ?_ ?_ ?_ ?_ ?_
  · intro other isTouched
    obtain rfl : other = index := by simpa using isTouched
    rw [queueNow]
    simpa [Pool.put, Pool.putList] using
      ⟨changes.holds, changes.head, changes.check⟩
  · intro other isTouched
    obtain rfl : other = list := by simpa using isTouched
    rw [listNow]
    simpa [Pool.put, Pool.putList] using holds
  · intro first isFirst second isSecond different
    rcases onlyTwo isFirst with rfl | rfl
    · rcases onlyTwo isSecond with rfl | rfl
      · exact absurd rfl different
      · rw [Contents.footprint, Contents.footprint, queueNow, listNow]
        exact sides
    · rcases onlyTwo isSecond with rfl | rfl
      · rw [Contents.footprint, Contents.footprint, queueNow, listNow]
        exact fun node inTaken inLeft => sides inLeft inTaken
      · exact absurd rfl different
  · exact check.trans represents.check
  · intro element member
    have moved : (∃ place ∈ [Place.queue index, .list list],
          element ∈ (contents.split index list left taken).members place) ↔
        element ∈ contents.queue index ++ contents.list list := by
      rw [← permuted.mem_iff]
      simp [Contents.members, queueNow, listNow]
    have unchanged : (contents.split index list left taken).mark element =
        contents.mark element := rfl
    rw [moved, unchanged]
    rcases List.mem_cons.mp member with rfl | inside
    · refine iff_of_false (by simp [represents.unmarked_head]) ?_
      exact (List.nodup_cons.mp (represents.distinct index list)).1
    · refine iff_of_true ?_ inside
      rw [represents.listed]
      rcases List.mem_append.mp inside with inQueue | inList
      · exact ⟨.queue index, inQueue⟩
      · exact ⟨.list list, inList⟩
  · intro element
    show heap.refs element = _
    rw [refs]
    exact represents.refs element

end Split

end Places

theorem Represents.mark_iff
    (represents : Represents head token owners pool contents) {index : ι}
    {node : η} (member : node ∈ head index :: contents.queue index) :
    contents.mark node ≠ none ↔ node ∈ contents.queue index := by
  rcases List.mem_cons.mp member with rfl | inside
  · refine iff_of_false (by simp [represents.unmarked_head]) ?_
    have distinct := (represents.queues index).distinct
    rw [represents.heads] at distinct
    exact (List.nodup_cons.mp distinct).1
  · exact iff_of_true
      ((represents.listed node).mpr ⟨.queue index, inside⟩) inside

section Hooks

variable [DecidableEq ι]

@[simp] theorem Pool.put_self (index : ι) :
    pool.put index (pool.queue index) pool.heap = pool := by
  simp [Pool.put]

variable [DecidableEq η]

theorem Represents.push
    (represents : Represents head token owners pool contents) (index : ι)
    {element : η} (unmarked : contents.mark element = none)
    (notHead : ∀ other, element ≠ head other) :
    Represents head token owners
      (pool.put index ((pool.queue index).push pool.heap element).1
        ((pool.queue index).push pool.heap element).2)
      ((contents.put index (contents.queue index ++ [element])).setMark
        element (some (token index))) := by
  have nowhere := represents.fresh unmarked notHead (.queue index)
  have changes := TSQueue.push_changes (represents.queues index)
    (by rw [represents.heads]; exact nowhere)
  rw [represents.heads] at changes
  refine represents.put changes ?_ ?_ (fun _ member => member) ?_ ?_ ?_
  · intro node member
    rw [← List.cons_append]
    exact List.mem_append_left _ member
  · intro node member
    rw [← List.cons_append] at member
    rcases List.mem_append.mp member with inQueue | isElement
    · exact .inl inQueue
    · rw [List.mem_singleton.mp isElement]
      exact .inr ⟨unmarked, notHead⟩
  · simp only [TSQueue.push, Heap.setCheck, Heap.incrementRef,
      represents.check, represents.tokens]
  · intro node member
    by_cases same : node = element
    · simp [same]
    · have inQueue : node ∈ head index :: contents.queue index := by
        simpa [same] using member
      rw [Function.update_of_ne same, represents.mark_iff inQueue]
      simp [same]
  · intro node
    by_cases same : node = element
    · simp [TSQueue.push, Heap.setCheck, Heap.incrementRef, same,
        represents.refs, unmarked]
    · simp [TSQueue.push, Heap.setCheck, Heap.incrementRef, same,
        represents.refs]

/-- An element is taken out of a queue, and loses its mark. -/
theorem Represents.unhook
    (represents : Represents head token owners pool contents) {index : ι}
    {ahead back : List η} {element before : η} {queue : TSQueue η κ}
    (isQueue : contents.queue index = ahead ++ element :: back)
    (changes : (pool.queue index).Changes pool.heap
      (head index :: contents.queue index) queue
      (TSQueue.unhooked pool.heap before element) (ahead ++ back)) :
    Represents head token owners
      (pool.put index queue (TSQueue.unhooked pool.heap before element))
      ((contents.put index (ahead ++ back)).setMark element none) := by
  have member : element ∈ contents.queue index := by simp [isQueue]
  have marked : contents.mark element ≠ none :=
    (represents.listed element).mpr ⟨.queue index, member⟩
  have moved : (contents.queue index).Perm (element :: (ahead ++ back)) := by
    rw [isQueue]
    exact List.perm_middle
  have gone : element ∉ ahead ++ back := by
    have distinct := (List.nodup_cons.mp
      (represents.queues index).distinct).2
    exact (List.nodup_cons.mp (moved.nodup_iff.mp distinct)).1
  refine represents.put changes (fun _ inside => inside)
    (fun _ inside => .inl inside) ?_ ?_ ?_ ?_
  · intro node inside
    apply ((moved.cons (head index)).mem_iff).mpr
    rcases List.mem_cons.mp inside with rfl | inRest
    · exact List.mem_cons_self
    · simp only [List.mem_cons, inRest, or_true]
  · funext node
    rw [TSQueue.check_unhooked, Function.update_apply, represents.check]
  · intro node inside
    by_cases same : node = element
    · subst same
      simp [gone]
    · rw [Function.update_of_ne same, represents.mark_iff inside,
        moved.mem_iff, List.mem_cons, or_iff_right same]
  · intro node
    by_cases same : node = element
    · simp [TSQueue.unhooked, Heap.setCheck, Heap.decrementRef, same,
        represents.refs, marked]
    · simp [TSQueue.unhooked, Heap.setCheck, Heap.decrementRef, same,
        represents.refs]

end Hooks

section Lists

variable [DecidableEq ι] [DecidableEq σ]

/-- Elements are taken out of a queue to an empty list. -/
theorem Represents.take
    (represents : Represents head token owners pool contents) {index : ι}
    {list : σ} (empty : contents.list list = []) {left taken : List η}
    (permuted : (left ++ taken).Perm (contents.queue index))
    {result : Option (SList η κ × TSQueue η κ × Heap η κ)}
    (takes : TSQueue.Takes (pool.queue index) pool.heap
      (contents.queue index) taken left result) :
    ∃ slist queue heap, result = some (slist, queue, heap) ∧
      Represents head token owners
        ((pool.put index queue heap).putList list slist)
        (contents.split index list left taken) := by
  obtain ⟨slist, queue, heap, isResult, holds, _, changes, refs, check⟩ :=
    takes.done
  refine ⟨slist, queue, heap, isResult, represents.split ?_ holds ?_ check
    refs⟩
  · rw [represents.heads] at changes
    rwa [empty, List.append_nil]
  · rwa [empty, List.append_nil]

/-- An empty queue gives an empty list. -/
theorem Represents.takeNone
    (represents : Represents head token owners pool contents) {index : ι}
    {list : σ} (empty : contents.list list = [])
    (noElements : contents.queue index = []) :
    Represents head token owners
      ((pool.put index (pool.queue index) pool.heap).putList list {})
      (contents.split index list [] []) := by
  refine represents.split ?_ (.nil _) ?_ rfl rfl
  · rw [← noElements]
    exact (represents.queues index).unchanged _
  · rw [noElements, empty]

end Lists

section References

variable [DecidableEq η]

/-- An owner that is not a queue comes. -/
theorem Represents.incrementRef
    (represents : Represents head token owners pool contents) (element : η) :
    Represents head token
      (Function.update owners element (owners element + 1))
      { pool with heap := pool.heap.incrementRef element } contents where
  queues index :=
    (represents.queues index).frame fun _ _ => ⟨rfl, rfl, rfl⟩
  heads := represents.heads
  tokens := represents.tokens
  lists index := (represents.lists index).frame fun _ _ => ⟨rfl, rfl, rfl⟩
  check := represents.check
  apart := represents.apart
  listed := represents.listed
  refs := by
    intro other
    have refs := represents.refs other
    by_cases same : other = element
    · subst same
      simp only [Heap.incrementRef, Function.update_self, refs]
      omega
    · simpa [Heap.incrementRef, same] using refs

/-- An owner that is not a queue goes. -/
theorem Represents.decrementRef
    (represents : Represents head token owners pool contents) {element : η}
    (owned : 0 < owners element) :
    Represents head token
      (Function.update owners element (owners element - 1))
      { pool with heap := pool.heap.decrementRef element } contents where
  queues index :=
    (represents.queues index).frame fun _ _ => ⟨rfl, rfl, rfl⟩
  heads := represents.heads
  tokens := represents.tokens
  lists index := (represents.lists index).frame fun _ _ => ⟨rfl, rfl, rfl⟩
  check := represents.check
  apart := represents.apart
  listed := represents.listed
  refs := by
    intro other
    have refs := represents.refs other
    by_cases same : other = element
    · subst same
      simp only [Heap.decrementRef, Function.update_self, refs]
      omega
    · simpa [Heap.decrementRef, same] using refs

end References

section Step

variable [DecidableEq ι] [DecidableEq σ] [DecidableEq η] [DecidableEq κ]
  {op : QueueOp ι σ η} {outcome : QueueOutcome η}

/-- Every operation does what it is meant to do. -/
theorem Represents.step
    (represents : Represents head token owners pool contents)
    (does : contents.Does head token op outcome after) :
    ∃ next, pool.step op = some (outcome, next) ∧
      Represents head token owners next after := by
  cases does with
  | push index element unmarked notHead =>
      exact ⟨_, rfl, represents.push index unmarked notHead⟩
  | popNone index empty =>
      have holds := represents.queues index
      rw [empty] at holds
      refine ⟨pool, ?_, represents⟩
      simp only [Pool.step, TSQueue.pop_nil holds, Option.map_some,
        Pool.put_self]
  | pop index first rest filled =>
      have holds := represents.queues index
      rw [filled] at holds
      obtain ⟨queue, isResult, changes⟩ := TSQueue.pop_cons holds
      rw [represents.heads, ← filled] at changes
      have isQueue : contents.queue index = [] ++ first :: rest := filled
      refine ⟨_, ?_, represents.unhook isQueue changes⟩
      simp only [Pool.step, isResult, Option.map_some, represents.heads]
  | pushList index list marked =>
      have holds := represents.queues index
      have listHolds := represents.lists list
      cases isList : contents.list list with
      | nil =>
          rw [isList] at listHolds
          refine ⟨(pool.put index (pool.queue index) pool.heap).putList list
            (pool.list list), ?_, represents.split ?_ listHolds ?_ rfl rfl⟩
          · simp only [Pool.step, TSQueue.pushList_nil listHolds,
              Option.map_some]
          · rw [List.append_nil]
            exact holds.unchanged _
          · simp [isList]
      | cons first rest =>
          rw [isList] at listHolds
          have listMark : (pool.list list).check =
              some (pool.queue index).check := by
            rw [← listHolds.checked first List.mem_cons_self,
              represents.check, represents.tokens]
            exact marked first (by simp [isList])
          have distinct := represents.distinct index list
          rw [isList, ← represents.heads] at distinct
          obtain ⟨queue, heap, isResult, changes, refs, check⟩ :=
            TSQueue.pushList_changes holds listHolds listMark distinct
          refine ⟨(pool.put index queue heap).putList list {}, ?_,
            represents.split ?_ (.nil heap) ?_ check refs⟩
          · simp only [Pool.step, isResult, Option.map_some]
          · rw [represents.heads] at changes
            rwa [isList]
          · simp [isList]
  | popFront index n list empty =>
      have holds := represents.queues index
      cases isQueue : contents.queue index with
      | nil =>
          rw [isQueue] at holds
          refine ⟨_, ?_, represents.takeNone empty isQueue⟩
          simp only [Pool.step, TSQueue.popFront_nil holds, Option.map_some]
      | cons first rest =>
          rw [isQueue] at holds
          have takes := TSQueue.popFront_takes holds n
          rw [← isQueue] at takes ⊢
          have permuted : ((contents.queue index).drop (n - 1 + 1) ++
              (contents.queue index).take (n - 1 + 1)).Perm
              (contents.queue index) := by
            apply List.perm_append_comm.trans
            rw [List.take_append_drop]
          obtain ⟨slist, queue, heap, isResult, following⟩ :=
            represents.take empty permuted takes
          refine ⟨_, ?_, following⟩
          simp only [Pool.step, isResult, Option.map_some]
  | popBack index n list empty =>
      have holds := represents.queues index
      by_cases noElements : contents.queue index = []
      · have following := represents.takeNone empty noElements
        rw [noElements] at holds
        simp only [noElements, List.length_nil, List.take_nil, List.drop_nil]
        refine ⟨_, ?_, following⟩
        simp only [Pool.step, TSQueue.popBack_nil holds, Option.map_some]
      · have permuted : ((contents.queue index).take
              ((contents.queue index).length - (n - 1 + 1)) ++
            (contents.queue index).drop
              ((contents.queue index).length - (n - 1 + 1))).Perm
            (contents.queue index) := by
          rw [List.take_append_drop]
        obtain ⟨slist, queue, heap, isResult, following⟩ :=
          represents.take empty permuted
            (TSQueue.popBack_takes holds noElements n)
        refine ⟨_, ?_, following⟩
        simp only [Pool.step, isResult, Option.map_some]
  | popAll index list empty =>
      have holds := represents.queues index
      cases isQueue : contents.queue index with
      | nil =>
          rw [isQueue] at holds
          refine ⟨_, ?_, represents.takeNone empty isQueue⟩
          simp only [Pool.step, TSQueue.popAll_nil holds, Option.map_some]
      | cons first rest =>
          rw [isQueue] at holds
          have takes := TSQueue.popAll_takes holds
          rw [← isQueue] at takes ⊢
          obtain ⟨slist, queue, heap, isResult, following⟩ :=
            represents.take empty (.refl _) takes
          refine ⟨_, ?_, following⟩
          simp only [Pool.step, isResult, Option.map_some]
  | erase index element member =>
      have holds := represents.queues index
      obtain ⟨ahead, back, isQueue⟩ := List.append_of_mem member
      rw [isQueue] at holds
      have notAhead : element ∉ ahead := by
        have distinct := (List.nodup_cons.mp holds.distinct).2
        intro inside
        exact (List.nodup_append.mp distinct).2.2 element inside element
          List.mem_cons_self rfl
      have rest : (contents.queue index).erase element = ahead ++ back := by
        rw [isQueue, List.erase_append_right _ notAhead, List.erase_cons_head]
      obtain ⟨queue, before, isResult, changes⟩ :=
        TSQueue.erase_changes holds
      rw [represents.heads, ← isQueue] at changes
      refine ⟨_, ?_, rest ▸ represents.unhook isQueue changes⟩
      simp only [Pool.step, isResult, Option.map_some]
  | eraseNone index element unmarked =>
      refine ⟨pool, ?_, represents⟩
      have notMarked : pool.heap.check element ≠
          some (pool.queue index).check := by
        rwa [represents.check, represents.tokens]
      simp only [Pool.step, TSQueue.erase_other notMarked, Option.map_some,
        Pool.put_self]

end Step

section Runs

variable (head token owners)

/-- Every queue has a head of its own. -/
def Pool.new : Pool ι σ η κ where
  queue index :=
    { head := head index, tail := head index, check := token index }
  list _ := {}
  heap :=
    { links := { next := fun _ => none, prev := fun _ => none }
      check := fun _ => none
      refs := owners }

def Contents.new : Contents ι σ η κ where
  queue _ := []
  list _ := []
  mark _ := none

theorem represents_new (distinct : Function.Injective head) :
    Represents head token owners
      (Pool.new head token owners : Pool ι σ η κ) Contents.new := by
  refine ⟨?_, fun _ => rfl, fun _ => rfl, fun _ => .nil _, rfl, ?_, ?_, ?_⟩
  · intro index
    exact ⟨.singleton _, rfl, rfl, rfl, by simp [Contents.new],
      by simp [Contents.new]⟩
  · intro first second different node inFirst inSecond
    cases first with
    | list index => simp [Contents.footprint, Contents.new] at inFirst
    | queue index =>
        cases second with
        | list index => simp [Contents.footprint, Contents.new] at inSecond
        | queue other =>
            simp only [Contents.footprint, Contents.new,
              List.mem_singleton] at inFirst inSecond
            apply different
            rw [distinct (inFirst.symm.trans inSecond)]
  · intro element
    refine iff_of_false (fun marked => marked rfl) ?_
    intro listed
    obtain ⟨place, member⟩ := listed
    cases place with
    | queue index => simp [Contents.members, Contents.new] at member
    | list index => simp [Contents.members, Contents.new] at member
  · intro element
    rfl

variable {head token owners}

/-- From new queues on, the links stay the lists that the operations are meant
to make of them, and every operation gives the result of that. -/
theorem pool_as_lists [DecidableEq ι] [DecidableEq σ] [DecidableEq η]
    [DecidableEq κ] (distinct : Function.Injective head)
    {ops : List (QueueOp ι σ η)} {outcomes : List (QueueOutcome η)}
    (follows : Follows (Contents.Does head token) Contents.new ops outcomes
      after) :
    ∃ last, answers Pool.step (Pool.new head token owners) ops =
        some (outcomes, last) ∧
      Represents head token owners last after :=
  follows.simulated (fun represents does => represents.step does)
    (represents_new head token owners distinct)

end Runs

end Refinement

namespace Example

/-- Two queues with one mark. -/
def head (index : Bool) : Nat := if index then 1 else 0

/-- A queue takes half of the elements of another one. -/
def steal : List (QueueOp Bool Unit Nat) :=
  [.push false 5, .push false 6, .popBack false 1 (), .pushList true (),
    .pop true, .erase false 5, .pop false]

theorem pool_as_lists_steal :
    ∃ last after, answers Pool.step
        (Pool.new head (fun _ => ()) (fun _ => 1)) steal =
        some ([.done, .done, .done, .done, .popped (some 6), .erased true,
          .popped none], last) ∧
      Represents head (fun _ => ()) (fun _ => 1) last after := by
  have distinct : Function.Injective head := by
    intro first second same
    cases first <;> cases second <;> simp_all [head]
  have notHead (element : Nat) (large : 2 ≤ element) (index : Bool) :
      element ≠ head index := by
    unfold head
    split <;> omega
  have follows : ∃ after, Follows (Contents.Does head fun _ => ())
      Contents.new steal [.done, .done, .done, .done, .popped (some 6),
        .erased true, .popped none] after := by
    refine ⟨_, .cons (.push false 5 rfl (notHead 5 (by decide)))
      (.cons (.push false 6 rfl (notHead 6 (by decide)))
        (.cons (.popBack false 1 () rfl) (.cons (.pushList true () ?_)
          (.cons (.pop true 6 [] rfl) (.cons (.erase false 5 (.head _))
            (.cons (.popNone false rfl) (.nil _)))))))⟩
    intro element member
    rw [List.mem_singleton.mp member]
    rfl
  obtain ⟨after, follows⟩ := follows
  obtain ⟨last, ran, represents⟩ := pool_as_lists distinct follows
  exact ⟨last, after, ran, represents⟩

end Example

end Natsu.Libgo
