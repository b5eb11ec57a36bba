import Mathlib.Data.List.Chain

/-!
# Doubly linked nodes

Nodes that hold a link to the next and one to the previous node.  A list of
nodes is a chain where neighbours are linked both ways; what the first node
has as its previous and the last as its next one is left open, so that chains
can be cut and joined.
-/

namespace Natsu.Foundation

structure Links (η : Type) where
  next : η → Option η
  prev : η → Option η

namespace Links

variable {η : Type}

section Updates

variable [DecidableEq η]

def setNext (links : Links η) (node : η) (next : Option η) : Links η :=
  { links with next := Function.update links.next node next }

def setPrev (links : Links η) (node : η) (prev : Option η) : Links η :=
  { links with prev := Function.update links.prev node prev }

/-- `if (node) node->next = next`. -/
def setNextOf (links : Links η) (node next : Option η) : Links η :=
  match node with
  | none => links
  | some node => links.setNext node next

/-- `if (node) node->prev = prev`. -/
def setPrevOf (links : Links η) (node prev : Option η) : Links η :=
  match node with
  | none => links
  | some node => links.setPrev node prev

/-- Link the nodes from the first to the last behind another one. -/
def attach (links : Links η) (before first last : η) : Links η :=
  ((links.setNext before (some first)).setPrev first (some before)).setNext
    last none

/-- Take the nodes from the first to the last out from behind another one. -/
def detach (links : Links η) (before first last : η) : Links η :=
  (((links.setNext before (links.next last)).setPrevOf (links.next last)
    (some before)).setPrev first none).setNext last none

variable (links : Links η) (node other : η) (link : Option η)

@[simp] theorem prev_setNext : (links.setNext node link).prev = links.prev :=
  rfl

@[simp] theorem next_setPrev : (links.setPrev node link).next = links.next :=
  rfl

@[simp] theorem next_setNext : (links.setNext node link).next other =
    if other = node then link else links.next other := by
  simp [setNext, Function.update_apply]

theorem setNext_same (same : links.next node = link) :
    links.setNext node link = links := by
  rw [setNext, ← same, Function.update_eq_self]

@[simp] theorem prev_setPrev : (links.setPrev node link).prev other =
    if other = node then link else links.prev other := by
  simp [setPrev, Function.update_apply]

@[simp] theorem next_setPrevOf (nodes : Option η) :
    (links.setPrevOf nodes link).next = links.next := by
  cases nodes <;> rfl

theorem prev_setPrevOf (nodes : Option η) :
    (links.setPrevOf nodes link).prev other =
      if nodes = some other then link else links.prev other := by
  cases nodes with
  | none => simp [setPrevOf]
  | some node => simp [setPrevOf, eq_comm]

theorem next_attach (before first last : η) :
    (links.attach before first last).next other =
      if other = last then none
      else if other = before then some first else links.next other := by
  simp [attach]

theorem prev_attach (before first last : η) :
    (links.attach before first last).prev other =
      if other = first then some before else links.prev other := by
  simp [attach]

theorem next_detach (before first last : η) :
    (links.detach before first last).next other =
      if other = last then none
      else if other = before then links.next last else links.next other := by
  simp [detach]

theorem prev_detach (before first last : η) :
    (links.detach before first last).prev other =
      if other = first then none
      else if links.next last = some other then some before
      else links.prev other := by
  simp [detach, prev_setPrevOf]

end Updates

/-- The second node follows the first. -/
def Joined (links : Links η) (first second : η) : Prop :=
  links.next first = some second ∧ links.prev second = some first

/-- Each node of the list is followed by the next. -/
def Chain (links : Links η) (nodes : List η) : Prop :=
  nodes.IsChain links.Joined

variable {links changed : Links η}

theorem Chain.append {front back : List η} (ahead : links.Chain front)
    (behind : links.Chain back)
    (joined : ∀ last ∈ front.getLast?, ∀ first ∈ back.head?,
      links.Joined last first) : links.Chain (front ++ back) :=
  List.IsChain.append ahead behind joined

theorem Chain.left {front back : List η}
    (chain : links.Chain (front ++ back)) : links.Chain front :=
  List.IsChain.left_of_append chain

theorem Chain.right {front back : List η}
    (chain : links.Chain (front ++ back)) : links.Chain back :=
  List.IsChain.right_of_append chain

/-- Neighbours inside a chain. -/
theorem Chain.joined {front back : List η} {first second : η}
    (chain : links.Chain (front ++ first :: second :: back)) :
    links.Joined first second :=
  (List.isChain_cons_cons.mp chain.right).1

/-- A chain only depends on what lies inside it. -/
theorem Chain.congr {nodes : List η} (chain : links.Chain nodes)
    (nexts : ∀ node ∈ nodes.dropLast, changed.next node = links.next node)
    (prevs : ∀ node ∈ nodes.tail, changed.prev node = links.prev node) :
    changed.Chain nodes := by
  induction nodes with
  | nil => exact .nil
  | cons first rest induction =>
      cases rest with
      | nil => exact .singleton first
      | cons second rest =>
          obtain ⟨⟨isNext, isPrev⟩, chain⟩ := List.isChain_cons_cons.mp chain
          refine List.isChain_cons_cons.mpr ⟨⟨?_, ?_⟩, ?_⟩
          · rw [nexts first (by simp), isNext]
          · rw [prevs second (by simp), isPrev]
          · refine induction chain ?_ ?_
            · intro node member
              exact nexts node (by simp [member])
            · intro node member
              exact prevs node (List.mem_cons_of_mem _ member)

/-- The same where nothing changes on the nodes at all. -/
theorem Chain.frame {nodes : List η} (chain : links.Chain nodes)
    (nexts : ∀ node ∈ nodes, changed.next node = links.next node)
    (prevs : ∀ node ∈ nodes, changed.prev node = links.prev node) :
    changed.Chain nodes :=
  chain.congr (fun node member => nexts node (List.dropLast_subset _ member))
    fun node member => prevs node (List.mem_of_mem_tail member)

/-- At most so many steps along the next links, and how many were taken. -/
def forward (links : Links η) : Nat → η → η × Nat
  | 0, node => (node, 0)
  | steps + 1, node =>
      match links.next node with
      | none => (node, 0)
      | some next =>
          let (last, taken) := links.forward steps next
          (last, taken + 1)

/-- At most so many steps along the previous links, none of them to the
limit. -/
def backward [DecidableEq η] (links : Links η) (limit : η) :
    Nat → η → η × Nat
  | 0, node => (node, 0)
  | steps + 1, node =>
      match links.prev node with
      | none => (node, 0)
      | some prev =>
          if prev = limit then (node, 0)
          else
            let (first, taken) := links.backward limit steps prev
            (first, taken + 1)

/-- Where the steps end, the nodes that they passed end. -/
theorem forward_chain (steps : Nat) :
    ∀ {node : η} {rest : List η}, links.Chain (node :: rest) →
      (∀ last ∈ (node :: rest).getLast?, links.next last = none) →
      (((node :: rest).take (steps + 1)).getLast? =
          some (links.forward steps node).1) ∧
        ((node :: rest).take (steps + 1)).length =
          (links.forward steps node).2 + 1 := by
  induction steps with
  | zero =>
      intro node rest _ _
      simp [forward]
  | succ steps induction =>
      intro node rest chain ends
      cases rest with
      | nil =>
          have isEnd := ends node (by simp)
          simp [forward, isEnd]
      | cons second rest =>
          obtain ⟨⟨isNext, _⟩, chain⟩ := List.isChain_cons_cons.mp chain
          obtain ⟨isLast, taken⟩ := induction chain (by simpa using ends)
          simp only [forward, isNext]
          rw [List.take_succ_cons]
          refine ⟨?_, ?_⟩
          · rw [List.getLast?_cons, isLast]
            rfl
          · rw [List.length_cons, taken]

/-- The nodes that steps back pass, in their own order. -/
theorem backward_chain [DecidableEq η] {limit : η} (steps : Nat) :
    ∀ {front : List η} {node : η},
      links.Chain (limit :: (front ++ [node])) → limit ∉ front →
      ∃ passed,
        passed = (front ++ [node]).drop
          ((front ++ [node]).length - (steps + 1)) ∧
        passed.head? = some (links.backward limit steps node).1 ∧
        passed.length = (links.backward limit steps node).2 + 1 := by
  induction steps with
  | zero =>
      intro front node _ _
      refine ⟨[node], ?_, rfl, rfl⟩
      simp
  | succ steps induction =>
      intro front node chain apart
      rcases List.eq_nil_or_concat front with rfl | ⟨front, before, rfl⟩
      · obtain ⟨⟨_, isPrev⟩, _⟩ := List.isChain_cons_cons.mp chain
        refine ⟨[node], ?_, ?_, ?_⟩
        · simp
        · simp [backward, isPrev]
        · simp [backward, isPrev]
      · rw [List.concat_eq_append] at chain apart ⊢
        have split : limit :: (front ++ [before] ++ [node]) =
            (limit :: front) ++ before :: node :: [] := by simp
        rw [split] at chain
        have joined := chain.joined
        have shorter : links.Chain (limit :: (front ++ [before])) := by
          have split : (limit :: front) ++ before :: node :: [] =
              (limit :: (front ++ [before])) ++ [node] := by simp
          rw [split] at chain
          exact chain.left
        have notLimit : before ≠ limit := by
          intro same
          exact apart (by simp [same])
        obtain ⟨passed, isPassed, isFirst, taken⟩ := induction shorter
          (fun member => apart (List.mem_append_left _ member))
        refine ⟨passed ++ [node], ?_, ?_, ?_⟩
        · have inside : (front ++ [before]).length - (steps + 1) ≤
              (front ++ [before]).length := by omega
          rw [isPassed, ← List.drop_append_of_le_length inside]
          congr 1
          simp
        · simp only [backward, joined.2, if_neg notLimit]
          rw [List.head?_append, isFirst]
          rfl
        · simp only [backward, joined.2, if_neg notLimit]
          rw [List.length_append, taken, List.length_singleton]

section Segments

variable {front segment back : List η} {before first last : η}

theorem ne_last_of_mem_dropLast {nodes : List η} {node last : η}
    (distinct : nodes.Nodup) (isLast : nodes.getLast? = some last)
    (member : node ∈ nodes.dropLast) : node ≠ last := by
  obtain ⟨ahead, rfl⟩ := List.getLast?_eq_some_iff.mp isLast
  rw [List.dropLast_concat] at member
  have parts := List.nodup_append.mp distinct
  exact parts.2.2 node member last (by simp)

theorem ne_first_of_mem_tail {nodes : List η} {node first : η}
    (distinct : nodes.Nodup) (isFirst : nodes.head? = some first)
    (member : node ∈ nodes.tail) : node ≠ first := by
  obtain ⟨rest, rfl⟩ := List.head?_eq_some_iff.mp isFirst
  intro same
  exact (List.nodup_cons.mp distinct).1 (same ▸ member)

/-- What the last node of a segment has next. -/
theorem Chain.next_last (chain : links.Chain (segment ++ back))
    (isLast : segment.getLast? = some last)
    (ends : back = [] → links.next last = none) :
    links.next last = back.head? := by
  cases back with
  | nil => exact ends rfl
  | cons behind back =>
      obtain ⟨ahead, rfl⟩ := List.getLast?_eq_some_iff.mp isLast
      have split : ahead ++ [last] ++ behind :: back =
          ahead ++ last :: behind :: back := by simp
      rw [split] at chain
      exact chain.joined.1

variable [DecidableEq η]

/-- The chain goes on with the attached nodes. -/
theorem Chain.attach (chain : links.Chain (front ++ [before]))
    (attached : links.Chain segment) (isFirst : segment.head? = some first)
    (isLast : segment.getLast? = some last)
    (distinct : (front ++ before :: segment).Nodup) :
    (links.attach before first last).Chain (front ++ before :: segment) := by
  have firstIn : first ∈ segment := List.mem_of_head? isFirst
  have lastIn : last ∈ segment := List.mem_of_getLast? isLast
  have split : front ++ before :: segment = (front ++ [before]) ++ segment := by
    simp
  rw [split] at distinct ⊢
  obtain ⟨frontDistinct, segmentDistinct, apart⟩ :=
    List.nodup_append.mp distinct
  have lastBefore : before ≠ last := apart before (by simp) last lastIn
  refine Chain.append (chain.congr ?_ ?_) (attached.congr ?_ ?_) ?_
  · intro node member
    have inFront : node ∈ front ++ [before] := List.dropLast_subset _ member
    rw [next_attach, if_neg (apart node inFront last lastIn),
      if_neg (ne_last_of_mem_dropLast frontDistinct (by simp) member)]
  · intro node member
    have inFront := List.mem_of_mem_tail member
    rw [prev_attach, if_neg (apart node inFront first firstIn)]
  · intro node member
    have inSegment := List.dropLast_subset _ member
    rw [next_attach,
      if_neg (ne_last_of_mem_dropLast segmentDistinct isLast member),
      if_neg (apart before (by simp) node inSegment).symm]
  · intro node member
    rw [prev_attach,
      if_neg (ne_first_of_mem_tail segmentDistinct isFirst member)]
  · intro ahead isAhead behind isBehind
    obtain rfl : before = ahead := by simpa using isAhead
    obtain rfl : first = behind := Option.some.inj (isFirst.symm.trans isBehind)
    refine ⟨?_, ?_⟩
    · rw [next_attach, if_neg lastBefore, if_pos rfl]
    · rw [prev_attach, if_pos rfl]

/-- The chain is closed over the gap. -/
theorem Chain.detach
    (chain : links.Chain (front ++ before :: (segment ++ back)))
    (isFirst : segment.head? = some first)
    (isLast : segment.getLast? = some last)
    (ends : back = [] → links.next last = none)
    (distinct : (front ++ before :: (segment ++ back)).Nodup) :
    (links.detach before first last).Chain (front ++ before :: back) ∧
      (links.detach before first last).Chain segment := by
  have firstIn : first ∈ segment := List.mem_of_head? isFirst
  have lastIn : last ∈ segment := List.mem_of_getLast? isLast
  have split : front ++ before :: (segment ++ back) =
      (front ++ [before]) ++ (segment ++ back) := by simp
  rw [split] at chain distinct
  have following := chain.right.next_last isLast ends
  obtain ⟨frontDistinct, restDistinct, apart⟩ := List.nodup_append.mp distinct
  obtain ⟨segmentDistinct, backDistinct, behind⟩ :=
    List.nodup_append.mp restDistinct
  have joined : front ++ before :: back = (front ++ [before]) ++ back := by simp
  constructor
  · rw [joined]
    refine Chain.append (chain.left.congr ?_ ?_)
      (chain.right.right.congr ?_ ?_) ?_
    · intro node member
      have inFront : node ∈ front ++ [before] := List.dropLast_subset _ member
      rw [next_detach, if_neg (apart node inFront last (by simp [lastIn])),
        if_neg (ne_last_of_mem_dropLast frontDistinct (by simp) member)]
    · intro node member
      have inFront := List.mem_of_mem_tail member
      rw [prev_detach, if_neg (apart node inFront first (by simp [firstIn])),
        if_neg]
      rw [following]
      intro isHead
      have inBack := List.mem_of_head? isHead
      exact apart node inFront node (by simp [inBack]) rfl
    · intro node member
      have inBack := List.dropLast_subset _ member
      rw [next_detach, if_neg (behind last lastIn node inBack).symm,
        if_neg (apart before (by simp) node (by simp [inBack])).symm]
    · intro node member
      have inBack := List.mem_of_mem_tail member
      rw [prev_detach, if_neg (behind first firstIn node inBack).symm, if_neg]
      rw [following]
      intro isHead
      exact ne_first_of_mem_tail backDistinct isHead member rfl
    · intro ahead isAhead node isNode
      obtain rfl : before = ahead := by simpa using isAhead
      have inBack := List.mem_of_head? isNode
      refine ⟨?_, ?_⟩
      · rw [next_detach, if_neg (apart before (by simp) last (by simp [lastIn])),
          if_pos rfl, following]
        exact isNode
      · rw [prev_detach, if_neg (behind first firstIn node inBack).symm,
          following, if_pos (Option.mem_def.mp isNode)]
  · refine chain.right.left.congr ?_ ?_
    · intro node member
      have inSegment := List.dropLast_subset _ member
      rw [next_detach,
        if_neg (ne_last_of_mem_dropLast segmentDistinct isLast member),
        if_neg (apart before (by simp) node (by simp [inSegment])).symm]
    · intro node member
      have inSegment := List.mem_of_mem_tail member
      rw [prev_detach,
        if_neg (ne_first_of_mem_tail segmentDistinct isFirst member), if_neg]
      rw [following]
      intro isHead
      exact behind node inSegment node (List.mem_of_head? isHead) rfl

end Segments

end Links

end Natsu.Foundation
