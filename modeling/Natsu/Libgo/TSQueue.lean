import Natsu.Foundation.LinkedNodes

/-!
# The intrusive queues of libgo

The links of a `TSQueue` or an `SList` lie in its elements, beside a mark that
tells in which queue an element is and a count of references.  An operation on
a `TSQueue` holds its lock from the first to the last access.  An operation
that follows a null pointer, or fails its assertion, has no result.
-/

namespace Natsu.Libgo

open Natsu.Foundation

/-- The fields of all hooks, and the references to their elements. -/
structure Heap (η κ : Type) where
  links : Links η
  check : η → Option κ
  refs : η → Nat

namespace Heap

variable {η κ : Type} [DecidableEq η] (heap : Heap η κ)

def setCheck (element : η) (check : Option κ) : Heap η κ :=
  { heap with check := Function.update heap.check element check }

def incrementRef (element : η) : Heap η κ :=
  { heap with
    refs := Function.update heap.refs element (heap.refs element + 1) }

def decrementRef (element : η) : Heap η κ :=
  { heap with
    refs := Function.update heap.refs element (heap.refs element - 1) }

end Heap

/-- The head is a hook of its own that is not an element. -/
structure TSQueue (η κ : Type) where
  head : η
  tail : η
  count : Nat := 0
  check : κ

structure SList (η κ : Type) where
  head : Option η := none
  tail : Option η := none
  count : Nat := 0
  check : Option κ := none

namespace TSQueue

variable {η κ : Type} [DecidableEq η] [DecidableEq κ] (queue : TSQueue η κ)
  (heap : Heap η κ)

def push (element : η) : TSQueue η κ × Heap η κ :=
  let links := heap.links.setNext queue.tail (some element)
  let links := links.setPrev element (some queue.tail)
  let links := links.setNext element none
  ({ queue with tail := element, count := queue.count + 1 },
    ({ heap with links := links }.setCheck element
      (some queue.check)).incrementRef element)

def pop : Option (Option η × TSQueue η κ × Heap η κ) :=
  if queue.head = queue.tail then some (none, queue, heap)
  else
    (heap.links.next queue.head).map fun ptr =>
      let tail := if ptr = queue.tail then queue.head else queue.tail
      let next := heap.links.next ptr
      let links := heap.links.setNext queue.head next
      let links := links.setPrevOf next (some queue.head)
      let links := (links.setPrev ptr none).setNext ptr none
      (some ptr, { queue with tail := tail, count := queue.count - 1 },
        ({ heap with links := links }.setCheck ptr none).decrementRef ptr)

/-- `push` of the elements of a list, which is empty afterwards. -/
def pushList (elements : SList η κ) :
    Option (TSQueue η κ × SList η κ × Heap η κ) :=
  match elements.head with
  | none => some (queue, elements, heap)
  | some first =>
      if elements.check = some queue.check then
        elements.tail.map fun last =>
          let links := heap.links.setNext queue.tail (some first)
          let links := links.setPrev first (some queue.tail)
          let links := links.setNext last none
          ({ queue with
              tail := last
              count := queue.count + elements.count }, {},
            { heap with links := links })
      else none

def popFront (n : Nat) : Option (SList η κ × TSQueue η κ × Heap η κ) :=
  if queue.head = queue.tail then some ({}, queue, heap)
  else
    (heap.links.next queue.head).map fun first =>
      let (last, taken) := heap.links.forward (n - 1) first
      let tail := if last = queue.tail then queue.head else queue.tail
      let next := heap.links.next last
      let links := heap.links.setNext queue.head next
      let links := links.setPrevOf next (some queue.head)
      let links := (links.setPrev first none).setNext last none
      ({ head := some first
         tail := some last
         count := taken + 1
         check := some queue.check },
        { queue with tail := tail, count := queue.count - (taken + 1) },
        { heap with links := links })

def popBack (n : Nat) : Option (SList η κ × TSQueue η κ × Heap η κ) :=
  if queue.head = queue.tail then some ({}, queue, heap)
  else
    let last := queue.tail
    let (first, taken) := heap.links.backward queue.head (n - 1) last
    (heap.links.prev first).map fun tail =>
      let links := (heap.links.setNext tail none).setPrev first none
      ({ head := some first
         tail := some last
         count := taken + 1
         check := some queue.check },
        { queue with tail := tail, count := queue.count - (taken + 1) },
        { heap with links := links })

def popAll : Option (SList η κ × TSQueue η κ × Heap η κ) :=
  if queue.head = queue.tail then some ({}, queue, heap)
  else
    (heap.links.next queue.head).map fun first =>
      let last := queue.tail
      let links := heap.links.setNext queue.head none
      let links := (links.setPrev first none).setNext last none
      ({ head := some first
         tail := some last
         count := queue.count
         check := some queue.check },
        { queue with tail := queue.head, count := 0 },
        { heap with links := links })

/-- An element with another mark is not in this queue. -/
def erase (hook : η) : Option (Bool × TSQueue η κ × Heap η κ) :=
  if heap.check hook = some queue.check then
    let prev := heap.links.prev hook
    let next := heap.links.next hook
    let tail :=
      if next = none ∧ hook = queue.tail then prev else some queue.tail
    let links := (heap.links.setNextOf prev next).setPrevOf next prev
    let links := (links.setPrev hook none).setNext hook none
    tail.map fun tail =>
      (true, { queue with tail := tail, count := queue.count - 1 },
        ({ heap with links := links }.setCheck hook none).decrementRef hook)
  else some (false, queue, heap)

end TSQueue

section Contents

variable {η κ : Type}

/-- The queue is this list: the links run through its nodes, and every element
has the mark of the queue. -/
structure TSQueue.Holds (queue : TSQueue η κ) (heap : Heap η κ)
    (elements : List η) : Prop where
  chain : heap.links.Chain (queue.head :: elements)
  tail : (queue.head :: elements).getLast? = some queue.tail
  ends : heap.links.next queue.tail = none
  count : queue.count = elements.length
  checked : ∀ element ∈ elements, heap.check element = some queue.check
  distinct : (queue.head :: elements).Nodup

structure SList.Holds (list : SList η κ) (heap : Heap η κ)
    (elements : List η) : Prop where
  chain : heap.links.Chain elements
  head : list.head = elements.head?
  tail : list.tail = elements.getLast?
  begins : ∀ first ∈ elements.head?, heap.links.prev first = none
  ends : ∀ last ∈ elements.getLast?, heap.links.next last = none
  count : list.count = elements.length
  checked : ∀ element ∈ elements, heap.check element = list.check
  distinct : elements.Nodup

/-- The hook has the same links and the same mark. -/
structure Heap.SameAt (heap changed : Heap η κ) (node : η) : Prop where
  next : changed.links.next node = heap.links.next node
  prev : changed.links.prev node = heap.links.prev node
  check : changed.check node = heap.check node

variable {queue : TSQueue η κ} {list : SList η κ} {heap changed : Heap η κ}
  {elements : List η}

theorem TSQueue.Holds.tail_mem (holds : queue.Holds heap elements) :
    queue.tail ∈ queue.head :: elements :=
  List.mem_of_getLast? holds.tail

theorem TSQueue.Holds.frame (holds : queue.Holds heap elements)
    (same : ∀ node ∈ queue.head :: elements, heap.SameAt changed node) :
    queue.Holds changed elements where
  chain := holds.chain.frame (fun node member => (same node member).next)
    fun node member => (same node member).prev
  tail := holds.tail
  ends := by rw [(same _ holds.tail_mem).next, holds.ends]
  count := holds.count
  checked := by
    intro element member
    rw [(same element (List.mem_cons_of_mem _ member)).check,
      holds.checked element member]
  distinct := holds.distinct

theorem SList.Holds.frame (holds : list.Holds heap elements)
    (same : ∀ node ∈ elements, heap.SameAt changed node) :
    list.Holds changed elements where
  chain := holds.chain.frame (fun node member => (same node member).next)
    fun node member => (same node member).prev
  head := holds.head
  tail := holds.tail
  begins := by
    intro first isFirst
    rw [(same first (List.mem_of_head? isFirst)).prev,
      holds.begins first isFirst]
  ends := by
    intro last isLast
    rw [(same last (List.mem_of_getLast? isLast)).next, holds.ends last isLast]
  count := holds.count
  checked := by
    intro element member
    rw [(same element member).check, holds.checked element member]
  distinct := holds.distinct

theorem SList.Holds.nil (heap : Heap η κ) :
    ({} : SList η κ).Holds heap [] where
  chain := .nil
  head := rfl
  tail := rfl
  begins := by simp
  ends := by simp
  count := rfl
  checked := by simp
  distinct := .nil

theorem TSQueue.Holds.empty_iff (holds : queue.Holds heap elements) :
    queue.head = queue.tail ↔ elements = [] := by
  cases elements with
  | nil => simpa [eq_comm] using holds.tail.symm
  | cons first rest =>
      have isTail : (first :: rest).getLast? = some queue.tail := by
        simpa using holds.tail
      have member := List.mem_of_getLast? isTail
      refine iff_of_false ?_ (by simp)
      intro same
      exact (List.nodup_cons.mp holds.distinct).1 (same ▸ member)

/-- An operation keeps the queue at these elements, and touches nothing outside
of the region. -/
structure TSQueue.Changes (queue : TSQueue η κ) (heap : Heap η κ)
    (region : List η) (next : TSQueue η κ) (changed : Heap η κ)
    (elements : List η) : Prop where
  holds : next.Holds changed elements
  head : next.head = queue.head
  check : next.check = queue.check
  same : ∀ node, node ∉ region → heap.SameAt changed node

theorem TSQueue.Holds.unchanged (holds : queue.Holds heap elements)
    (region : List η) : queue.Changes heap region queue heap elements :=
  ⟨holds, rfl, rfl, fun _ _ => ⟨rfl, rfl, rfl⟩⟩

section Segments

variable {next : TSQueue η κ} {ahead segment back : List η}
  {before first last : η}

theorem TSQueue.Holds.last_eq_tail
    (holds : queue.Holds heap (ahead ++ (segment ++ [])))
    (isLast : segment.getLast? = some last) : last = queue.tail := by
  have isTail := holds.tail
  rw [List.append_nil, ← List.cons_append, List.getLast?_append, isLast]
    at isTail
  exact Option.some.inj isTail

theorem TSQueue.Holds.next_last
    (holds : queue.Holds heap (ahead ++ (segment ++ back)))
    (isLast : segment.getLast? = some last) :
    heap.links.next last = back.head? := by
  have chain := holds.chain
  rw [← List.cons_append] at chain
  apply chain.right.next_last isLast
  intro noBack
  subst noBack
  rw [holds.last_eq_tail isLast, holds.ends]

variable [DecidableEq η]

/-- The elements of a chain behind those of the queue. -/
theorem TSQueue.Holds.attach (holds : queue.Holds heap elements)
    (chain : heap.links.Chain segment) (isFirst : segment.head? = some first)
    (isLast : segment.getLast? = some last)
    (distinct : (queue.head :: (elements ++ segment)).Nodup)
    (isLinks : changed.links = heap.links.attach queue.tail first last)
    (checked : ∀ element ∈ elements ++ segment,
      changed.check element = some queue.check)
    (isNext : next = { queue with
      tail := last, count := queue.count + segment.length }) :
    next.Holds changed (elements ++ segment) := by
  subst isNext
  obtain ⟨front, isFront⟩ := List.getLast?_eq_some_iff.mp holds.tail
  have nodes : queue.head :: (elements ++ segment) =
      front ++ queue.tail :: segment := by
    rw [← List.cons_append, isFront]
    simp
  have chained := holds.chain
  rw [isFront] at chained
  constructor
  · rw [isLinks, nodes]
    rw [nodes] at distinct
    exact chained.attach chain isFirst isLast distinct
  · rw [nodes]
    simp [List.getLast?_append, List.getLast?_cons, isLast]
  · rw [isLinks, Links.next_attach, if_pos rfl]
  · simp [holds.count]
  · exact checked
  · exact distinct

/-- The last node of the segment is the tail exactly if nothing follows. -/
theorem TSQueue.Holds.tail_left
    (holds : queue.Holds heap (ahead ++ (segment ++ back)))
    (isLast : segment.getLast? = some last)
    (isBefore : (queue.head :: ahead).getLast? = some before) :
    (queue.head :: (ahead ++ back)).getLast? =
      some (if last = queue.tail then before else queue.tail) := by
  cases back with
  | nil =>
      rw [if_pos (holds.last_eq_tail isLast), List.append_nil, isBefore]
  | cons behind back =>
      have isTail : (behind :: back).getLast? = some queue.tail := by
        have isTail := holds.tail
        rw [← List.append_assoc, ← List.cons_append, List.getLast?_append]
          at isTail
        simpa [List.getLast?_cons] using isTail
      have lastIn : last ∈ segment := List.mem_of_getLast? isLast
      have tailIn := List.mem_of_getLast? isTail
      have distinct := (List.nodup_cons.mp holds.distinct).2
      have rest := (List.nodup_append.mp distinct).2.1
      have apart := (List.nodup_append.mp rest).2.2 last lastIn _ tailIn
      rw [if_neg apart, ← List.cons_append, List.getLast?_append, isTail]
      rfl

/-- The chains when a segment is taken out. -/
theorem TSQueue.Holds.detach_chains
    (holds : queue.Holds heap (ahead ++ (segment ++ back)))
    (isFirst : segment.head? = some first)
    (isLast : segment.getLast? = some last)
    (isBefore : (queue.head :: ahead).getLast? = some before) :
    (heap.links.detach before first last).Chain
        (queue.head :: (ahead ++ back)) ∧
      (heap.links.detach before first last).Chain segment ∧
      heap.links.Joined before first ∧ before ≠ last := by
  obtain ⟨front, isFront⟩ := List.getLast?_eq_some_iff.mp isBefore
  have nodes : queue.head :: (ahead ++ (segment ++ back)) =
      front ++ before :: (segment ++ back) := by
    rw [← List.cons_append, isFront]
    simp
  have left : queue.head :: (ahead ++ back) = front ++ before :: back := by
    rw [← List.cons_append, isFront]
    simp
  have chain := holds.chain
  have distinct := holds.distinct
  rw [nodes] at chain distinct
  have ends : back = [] → heap.links.next last = none := by
    intro noBack
    rw [holds.next_last isLast, noBack]
    rfl
  obtain ⟨closed, apart⟩ := chain.detach isFirst isLast ends distinct
  refine ⟨by rw [left]; exact closed, apart, ?_, ?_⟩
  · obtain ⟨rest, rfl⟩ := List.head?_eq_some_iff.mp isFirst
    exact chain.joined
  · intro same
    have apart := (List.nodup_cons.mp (List.nodup_append.mp distinct).2.1).1
    exact apart (by simp [same, List.mem_of_getLast? isLast])

/-- What is left when a segment is taken out. -/
theorem TSQueue.Holds.detach
    (holds : queue.Holds heap (ahead ++ (segment ++ back)))
    (isFirst : segment.head? = some first)
    (isLast : segment.getLast? = some last)
    (isBefore : (queue.head :: ahead).getLast? = some before)
    (isLinks : changed.links = heap.links.detach before first last)
    (checks : ∀ element ∈ ahead ++ back,
      changed.check element = heap.check element)
    (isNext : next = { queue with
      tail := if last = queue.tail then before else queue.tail
      count := queue.count - segment.length }) :
    next.Holds changed (ahead ++ back) := by
  subst isNext
  obtain ⟨closed, _, isFollowing, lastBefore⟩ :=
    holds.detach_chains isFirst isLast isBefore
  refine ⟨by rw [isLinks]; exact closed, holds.tail_left isLast isBefore,
    ?_, ?_, ?_, ?_⟩
  · show changed.links.next (if last = queue.tail then _ else _) = none
    split
    · rename_i isTail
      rw [isLinks, Links.next_detach, if_neg lastBefore, if_pos rfl, isTail,
        holds.ends]
    · rename_i notTail
      have notBefore : queue.tail ≠ before := by
        intro same
        have ended := holds.ends
        simp [same, isFollowing.1] at ended
      rw [isLinks, Links.next_detach, if_neg (Ne.symm notTail),
        if_neg notBefore, holds.ends]
  · rw [holds.count]
    simp only [List.length_append]
    omega
  · intro element member
    rw [checks element member]
    apply holds.checked
    rcases List.mem_append.mp member with inAhead | inBack
    · simp [inAhead]
    · simp [inBack]
  · refine holds.distinct.sublist (List.Sublist.cons_cons _ ?_)
    exact (List.sublist_append_right segment back).append_left ahead

theorem sameAt_attach {node : η} {region : List η}
    (isLinks : changed.links = heap.links.attach before first last)
    (beforeIn : before ∈ region) (firstIn : first ∈ region)
    (lastIn : last ∈ region) (checks : changed.check node = heap.check node)
    (outside : node ∉ region) : heap.SameAt changed node where
  next := by
    have notLast : node ≠ last := fun same => outside (same ▸ lastIn)
    have notBefore : node ≠ before := fun same => outside (same ▸ beforeIn)
    rw [isLinks, Links.next_attach, if_neg notLast, if_neg notBefore]
  prev := by
    have notFirst : node ≠ first := fun same => outside (same ▸ firstIn)
    rw [isLinks, Links.prev_attach, if_neg notFirst]
  check := checks

theorem TSQueue.Holds.sameAt_detach {node : η}
    (holds : queue.Holds heap (ahead ++ (segment ++ back)))
    (isFirst : segment.head? = some first)
    (isLast : segment.getLast? = some last)
    (isBefore : (queue.head :: ahead).getLast? = some before)
    (isLinks : changed.links = heap.links.detach before first last)
    (checks : changed.check node = heap.check node)
    (outside : node ∉ queue.head :: (ahead ++ (segment ++ back))) :
    heap.SameAt changed node := by
  have firstIn : first ∈ segment := List.mem_of_head? isFirst
  have lastIn : last ∈ segment := List.mem_of_getLast? isLast
  have beforeIn : before ∈ queue.head :: ahead := List.mem_of_getLast? isBefore
  have away {other : η}
      (inside : other ∈ queue.head :: (ahead ++ (segment ++ back))) :
      node ≠ other := fun same => outside (same ▸ inside)
  have notLast : node ≠ last := away (by simp [lastIn])
  have notFirst : node ≠ first := away (by simp [firstIn])
  have notBefore : node ≠ before := by
    apply away
    rw [← List.cons_append]
    exact List.mem_append_left _ beforeIn
  have notNext : heap.links.next last ≠ some node := by
    rw [holds.next_last isLast]
    intro isHead
    exact away (by simp [List.mem_of_head? isHead]) rfl
  constructor
  · rw [isLinks, Links.next_detach, if_neg notLast, if_neg notBefore]
  · rw [isLinks, Links.prev_detach, if_neg notFirst, if_neg notNext]
  · exact checks

/-- The same with what is left alone. -/
theorem TSQueue.Holds.detach_changes
    (holds : queue.Holds heap (ahead ++ (segment ++ back)))
    (isFirst : segment.head? = some first)
    (isLast : segment.getLast? = some last)
    (isBefore : (queue.head :: ahead).getLast? = some before)
    (isLinks : changed.links = heap.links.detach before first last)
    (checks : ∀ node, node ∉ segment → changed.check node = heap.check node)
    (isNext : next = { queue with
      tail := if last = queue.tail then before else queue.tail
      count := queue.count - segment.length }) :
    queue.Changes heap (queue.head :: (ahead ++ (segment ++ back))) next
      changed (ahead ++ back) := by
  have distinct := (List.nodup_cons.mp holds.distinct).2
  obtain ⟨_, restDistinct, aheadApart⟩ := List.nodup_append.mp distinct
  obtain ⟨_, _, behind⟩ := List.nodup_append.mp restDistinct
  refine ⟨holds.detach isFirst isLast isBefore isLinks ?_ isNext, ?_, ?_, ?_⟩
  · intro element member
    apply checks
    intro inside
    rcases List.mem_append.mp member with inAhead | inBack
    · exact aheadApart element inAhead element (by simp [inside]) rfl
    · exact behind element inside element inBack rfl
  · rw [isNext]
  · rw [isNext]
  · intro node outside
    refine holds.sameAt_detach isFirst isLast isBefore isLinks ?_ outside
    apply checks
    intro inside
    exact outside (by simp [inside])

/-- The segment that was taken out is a list of its own. -/
theorem TSQueue.Holds.detached
    (holds : queue.Holds heap (ahead ++ (segment ++ back)))
    (isFirst : segment.head? = some first)
    (isLast : segment.getLast? = some last)
    (isBefore : (queue.head :: ahead).getLast? = some before) :
    SList.Holds {
        head := some first
        tail := some last
        count := segment.length
        check := some queue.check }
      { heap with links := heap.links.detach before first last } segment where
  chain := (holds.detach_chains isFirst isLast isBefore).2.1
  head := isFirst.symm
  tail := isLast.symm
  begins := by
    intro other isOther
    obtain rfl := Option.some.inj (isFirst.symm.trans isOther)
    exact (Links.prev_detach _ _ _ _ _).trans (if_pos rfl)
  ends := by
    intro other isOther
    obtain rfl := Option.some.inj (isLast.symm.trans isOther)
    exact (Links.next_detach _ _ _ _ _).trans (if_pos rfl)
  count := rfl
  checked := by
    intro element member
    exact holds.checked element (by simp [member])
  distinct := by
    have distinct := (List.nodup_cons.mp holds.distinct).2
    have rest := (List.nodup_append.mp distinct).2.1
    exact (List.nodup_append.mp rest).1

end Segments

end Contents

namespace TSQueue

variable {η κ : Type} [DecidableEq η] {queue : TSQueue η κ}
  {heap : Heap η κ} {elements : List η}

/-- An element that is nowhere is added at the end. -/
theorem push_changes (holds : queue.Holds heap elements) {element : η}
    (fresh : element ∉ queue.head :: elements) :
    queue.Changes heap (queue.head :: (elements ++ [element]))
      (queue.push heap element).1 (queue.push heap element).2
      (elements ++ [element]) := by
  have distinct : (queue.head :: (elements ++ [element])).Nodup := by
    rw [← List.cons_append]
    refine List.nodup_append.mpr ⟨holds.distinct, by simp, ?_⟩
    intro node inside other isElement same
    obtain rfl := List.mem_singleton.mp isElement
    exact fresh (same ▸ inside)
  have tailIn : queue.tail ∈ queue.head :: (elements ++ [element]) := by
    rw [← List.cons_append]
    exact List.mem_append_left _ holds.tail_mem
  refine ⟨holds.attach (.singleton element) rfl rfl distinct rfl ?_ rfl, rfl,
    rfl, ?_⟩
  · intro other member
    by_cases same : other = element
    · simp [push, Heap.setCheck, Heap.incrementRef, same]
    · have inside : other ∈ elements := by simpa [same] using member
      simp [push, Heap.setCheck, Heap.incrementRef, same,
        holds.checked other inside]
  · intro node outside
    refine sameAt_attach rfl tailIn (by simp) (by simp) ?_ outside
    have different : node ≠ element := by
      intro same
      exact outside (by simp [same])
    simp [push, Heap.setCheck, Heap.incrementRef, different]

/-- An element taken out of the queue. -/
def unhooked (heap : Heap η κ) (before element : η) : Heap η κ :=
  ({ heap with links := heap.links.detach before element element }.setCheck
    element none).decrementRef element

theorem check_unhooked (before element node : η) :
    (unhooked heap before element).check node =
      if node = element then none else heap.check node := by
  simp [unhooked, Heap.setCheck, Heap.decrementRef, Function.update_apply]

theorem pop_nil (holds : queue.Holds heap []) :
    queue.pop heap = some (none, queue, heap) := by
  rw [pop, if_pos (holds.empty_iff.mpr rfl)]

/-- The first element is taken out. -/
theorem pop_cons {first : η} {rest : List η}
    (holds : queue.Holds heap (first :: rest)) :
    ∃ next, queue.pop heap =
        some (some first, next, unhooked heap queue.head first) ∧
      queue.Changes heap (queue.head :: first :: rest) next
        (unhooked heap queue.head first) rest := by
  have filled : ¬ queue.head = queue.tail := by
    rw [holds.empty_iff]
    simp
  have isFirst : heap.links.next queue.head = some first :=
    (List.isChain_cons_cons.mp holds.chain).1.1
  have segmented : queue.Holds heap ([] ++ ([first] ++ rest)) := holds
  refine ⟨_, ?_, segmented.detach_changes rfl rfl rfl rfl ?_ rfl⟩
  · rw [pop, if_neg filled, isFirst]
    rfl
  · intro node outside
    rw [check_unhooked, if_neg (by simpa using outside)]

theorem popFront_nil (holds : queue.Holds heap []) (n : Nat) :
    queue.popFront heap n = some ({}, queue, heap) := by
  rw [popFront, if_pos (holds.empty_iff.mpr rfl)]

theorem popBack_nil (holds : queue.Holds heap []) (n : Nat) :
    queue.popBack heap n = some ({}, queue, heap) := by
  rw [popBack, if_pos (holds.empty_iff.mpr rfl)]

theorem popAll_nil (holds : queue.Holds heap []) :
    queue.popAll heap = some ({}, queue, heap) := by
  rw [popAll, if_pos (holds.empty_iff.mpr rfl)]

/-- What an operation that takes a list out comes to. -/
structure Takes (queue : TSQueue η κ) (heap : Heap η κ)
    (elements taken left : List η)
    (result : Option (SList η κ × TSQueue η κ × Heap η κ)) : Prop where
  done : ∃ list next changed, result = some (list, next, changed) ∧
    list.Holds changed taken ∧ list.check = some queue.check ∧
    queue.Changes heap (queue.head :: elements) next changed left ∧
    changed.refs = heap.refs ∧ changed.check = heap.check

/-- An operation whose links are those of a segment that was taken out. -/
theorem takes_of_detach {ahead segment back : List η}
    {before first last : η} {next : TSQueue η κ}
    (holds : queue.Holds heap (ahead ++ (segment ++ back)))
    (isFirst : segment.head? = some first)
    (isLast : segment.getLast? = some last)
    (isBefore : (queue.head :: ahead).getLast? = some before)
    (isNext : next = { queue with
      tail := if last = queue.tail then before else queue.tail
      count := queue.count - segment.length })
    {result : Option (SList η κ × TSQueue η κ × Heap η κ)}
    (isResult : result = some ({
        head := some first
        tail := some last
        count := segment.length
        check := some queue.check }, next,
      { heap with links := heap.links.detach before first last })) :
    Takes queue heap (ahead ++ (segment ++ back)) segment (ahead ++ back)
      result :=
  ⟨_, _, _, isResult, holds.detached isFirst isLast isBefore, rfl,
    holds.detach_changes isFirst isLast isBefore rfl (fun _ _ => rfl) isNext,
    rfl, rfl⟩

/-- At least one element is taken, even for zero. -/
theorem popFront_takes {first : η} {rest : List η}
    (holds : queue.Holds heap (first :: rest)) (n : Nat) :
    Takes queue heap (first :: rest) ((first :: rest).take (n - 1 + 1))
      ((first :: rest).drop (n - 1 + 1)) (queue.popFront heap n) := by
  have filled : ¬ queue.head = queue.tail := by
    rw [holds.empty_iff]
    simp
  have chain := List.isChain_cons_cons.mp holds.chain
  have isFirst : heap.links.next queue.head = some first := chain.1.1
  have isTail : (first :: rest).getLast? = some queue.tail := by
    simpa using holds.tail
  obtain ⟨isLast, taken⟩ := Links.forward_chain (n - 1) chain.2
    (by rw [isTail]; simpa using holds.ends)
  have segmented : queue.Holds heap ([] ++ ((first :: rest).take (n - 1 + 1) ++
      (first :: rest).drop (n - 1 + 1))) := by
    rw [List.nil_append, List.take_append_drop]
    exact holds
  have isHead : ((first :: rest).take (n - 1 + 1)).head? = some first := by
    simp
  have takes : Takes queue heap _ _ _ (queue.popFront heap n) :=
    takes_of_detach segmented isHead isLast rfl rfl (by
      rw [popFront, if_neg filled, isFirst, taken]
      rfl)
  rwa [List.nil_append, List.nil_append, List.take_append_drop] at takes

/-- Taking out everything behind a node. -/
theorem detach_to_end {ahead segment : List η} {before first last : η}
    (holds : queue.Holds heap (ahead ++ (segment ++ [])))
    (isFirst : segment.head? = some first)
    (isLast : segment.getLast? = some last)
    (isBefore : (queue.head :: ahead).getLast? = some before) :
    heap.links.detach before first last =
      (heap.links.setNext before none).setPrev first none := by
  obtain ⟨_, _, _, lastBefore⟩ := holds.detach_chains isFirst isLast isBefore
  have ends : heap.links.next last = none := holds.next_last isLast
  rw [Links.detach, ends]
  apply Links.setNext_same
  simp [Links.setPrevOf, lastBefore.symm, ends]

theorem popAll_takes {first : η} {rest : List η}
    (holds : queue.Holds heap (first :: rest)) :
    Takes queue heap (first :: rest) (first :: rest) []
      (queue.popAll heap) := by
  have filled : ¬ queue.head = queue.tail := by
    rw [holds.empty_iff]
    simp
  have isFirst : heap.links.next queue.head = some first :=
    (List.isChain_cons_cons.mp holds.chain).1.1
  have isTail : (first :: rest).getLast? = some queue.tail := by
    simpa using holds.tail
  have segmented : queue.Holds heap ([] ++ ((first :: rest) ++ [])) := by
    simpa using holds
  have links := detach_to_end segmented rfl isTail rfl
  have ends : heap.links.next queue.tail = none := holds.ends
  have takes : Takes queue heap _ _ _ (queue.popAll heap) :=
    takes_of_detach segmented rfl isTail rfl rfl (by
      rw [popAll, if_neg filled, isFirst, ← holds.count]
      simp [Links.detach, ends, Links.setPrevOf])
  simpa using takes

/-- At least one element is taken, even for zero. -/
theorem popBack_takes (holds : queue.Holds heap elements)
    (filled : elements ≠ []) (n : Nat) :
    Takes queue heap elements
      (elements.drop (elements.length - (n - 1 + 1)))
      (elements.take (elements.length - (n - 1 + 1)))
      (queue.popBack heap n) := by
  have notEmpty : ¬ queue.head = queue.tail := by
    rwa [holds.empty_iff]
  have isTail : elements.getLast? = some queue.tail := by
    obtain ⟨first, rest, rfl⟩ := List.exists_cons_of_ne_nil filled
    simpa using holds.tail
  obtain ⟨front, isFront⟩ := List.getLast?_eq_some_iff.mp isTail
  have chain := holds.chain
  have apart : queue.head ∉ front := by
    have notIn := (List.nodup_cons.mp holds.distinct).1
    rw [isFront] at notIn
    exact fun member => notIn (List.mem_append_left _ member)
  rw [isFront] at chain
  obtain ⟨passed, isPassed, isFirst, taken⟩ :=
    Links.backward_chain (n - 1) chain apart
  rw [← isFront] at isPassed
  let ahead := elements.take (elements.length - (n - 1 + 1))
  have whole : ahead ++ (passed ++ []) = elements := by
    rw [isPassed, List.append_nil, List.take_append_drop]
  have segmented : queue.Holds heap (ahead ++ (passed ++ [])) := by
    rwa [whole]
  have isLast : passed.getLast? = some queue.tail := by
    have positive := List.length_pos_iff.mpr filled
    rw [isPassed, List.getLast?_drop, if_neg (by omega), isTail]
  obtain ⟨before, isBefore⟩ : ∃ before,
      (queue.head :: ahead).getLast? = some before :=
    ⟨_, List.getLast?_cons⟩
  have joined := (segmented.detach_chains isFirst isLast isBefore).2.2.1
  have links := detach_to_end segmented isFirst isLast isBefore
  have takes : Takes queue heap _ _ _ (queue.popBack heap n) :=
    takes_of_detach segmented isFirst isLast isBefore rfl (by
      simp only [popBack, if_neg notEmpty, joined.2, Option.map_some, taken,
        links, if_true])
  rw [isPassed, List.append_nil, List.append_nil, List.take_append_drop]
    at takes
  exact takes

section Marks

variable [DecidableEq κ]

theorem pushList_nil {list : SList η κ} (holds : list.Holds heap []) :
    queue.pushList heap list = some (queue, list, heap) := by
  have isHead : list.head = none := holds.head
  simp only [pushList, isHead]

/-- The elements of a list with the mark of the queue are added at the end. -/
theorem pushList_changes {list : SList η κ} {first : η} {rest : List η}
    (holds : queue.Holds heap elements)
    (listHolds : list.Holds heap (first :: rest))
    (marked : list.check = some queue.check)
    (distinct : (queue.head :: (elements ++ first :: rest)).Nodup) :
    ∃ next changed,
      queue.pushList heap list = some (next, {}, changed) ∧
      queue.Changes heap (queue.head :: (elements ++ first :: rest)) next
        changed (elements ++ first :: rest) ∧
      changed.refs = heap.refs ∧ changed.check = heap.check := by
  have isHead : list.head = some first := listHolds.head
  obtain ⟨last, isLast⟩ : ∃ last, (first :: rest).getLast? = some last :=
    ⟨_, List.getLast?_cons⟩
  have isTail : list.tail = some last := listHolds.tail.trans isLast
  have tailIn : queue.tail ∈ queue.head :: (elements ++ first :: rest) := by
    rw [← List.cons_append]
    exact List.mem_append_left _ holds.tail_mem
  have lastIn : last ∈ first :: rest := List.mem_of_getLast? isLast
  refine ⟨_, { heap with links := heap.links.attach queue.tail first last },
    ?_, ⟨holds.attach listHolds.chain rfl isLast distinct rfl ?_ rfl, rfl, rfl,
    ?_⟩, rfl, rfl⟩
  · simp only [pushList, isHead, if_pos marked, isTail, Option.map_some,
      listHolds.count]
    rfl
  · intro element member
    rcases List.mem_append.mp member with inQueue | inList
    · exact holds.checked element inQueue
    · rw [← marked]
      exact listHolds.checked element inList
  · intro node outside
    refine sameAt_attach rfl tailIn (by simp) ?_ rfl outside
    exact List.mem_cons_of_mem _ (List.mem_append_right _ lastIn)

/-- An element is found wherever it stands. -/
theorem erase_changes {ahead back : List η} {element : η}
    (holds : queue.Holds heap (ahead ++ element :: back)) :
    ∃ next before, queue.erase heap element =
        some (true, next, unhooked heap before element) ∧
      queue.Changes heap (queue.head :: (ahead ++ element :: back)) next
        (unhooked heap before element) (ahead ++ back) := by
  have segmented : queue.Holds heap (ahead ++ ([element] ++ back)) := holds
  obtain ⟨before, isBefore⟩ : ∃ before,
      (queue.head :: ahead).getLast? = some before :=
    ⟨_, List.getLast?_cons⟩
  have marked := holds.checked element (by simp)
  have following := segmented.next_last rfl
  have isPrev := (segmented.detach_chains rfl rfl isBefore).2.2.1.2
  have isTail : (if heap.links.next element = none ∧ element = queue.tail then
      some before else some queue.tail) =
      some (if element = queue.tail then before else queue.tail) := by
    by_cases same : element = queue.tail
    · have ends := holds.ends
      rw [← same] at ends
      rw [if_pos ⟨ends, same⟩, if_pos same]
    · rw [if_neg (fun both => same both.2), if_neg same]
  refine ⟨_, before, ?_, segmented.detach_changes rfl rfl isBefore rfl ?_ rfl⟩
  · simp only [erase, if_pos marked, isPrev, isTail, Option.map_some]
    rfl
  · intro node outside
    rw [check_unhooked, if_neg (by simpa using outside)]

theorem erase_other {element : η}
    (unmarked : heap.check element ≠ some queue.check) :
    queue.erase heap element = some (false, queue, heap) := by
  rw [erase, if_neg unmarked]

end Marks

end TSQueue

end Natsu.Libgo
