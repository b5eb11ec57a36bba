import Natsu.Foundation.CInteger
import Natsu.Http.Request

/-!
# The components of a path

A path is a document, behind it any of its parameters, query and fragment in
any order.  Each accessor searches for its own delimiter and for the other
two, and computes the length of its component from their positions modulo
`2 ^ 64`.
-/

namespace Natsu.Http

open Natsu.Foundation

/-- `path.find(delimiter)` as a `size_t`. -/
def position (delimiter : UInt8) (path : Bytes) : Nat :=
  (find [delimiter] path).getD npos

/-- What `query`, `parameters` and `fragment` do, for the delimiter of the
component and the other two. -/
def componentOf (own first second : UInt8) (path : Bytes) : Bytes :=
  let posOwn := position own path
  if posOwn = npos then []
  else
    let pos := min (position first path) (position second path)
    if pos = npos then substr path (posOwn + 1) npos
    else if posOwn < pos then
      substr path (posOwn + 1) (toSizeT (pos - posOwn - 1))
    else
      substr path (posOwn + 1)
        (toSizeT (max (position first path) (position second path) -
          posOwn - 1))

namespace HttpRequest

def query (request : HttpRequest) : Bytes :=
  componentOf 63 35 59 request.path

def parameters (request : HttpRequest) : Bytes :=
  componentOf 59 35 63 request.path

def fragment (request : HttpRequest) : Bytes :=
  componentOf 35 59 63 request.path

end HttpRequest

inductive Component where
  | parameters
  | query
  | fragment
  deriving DecidableEq

namespace Component

def delimiter : Component → UInt8
  | parameters => 59
  | query => 63
  | fragment => 35

/-- The accessor of a component. -/
def read (component : Component) (request : HttpRequest) : Bytes :=
  match component with
  | parameters => request.parameters
  | query => request.query
  | fragment => request.fragment

/-- Text in which no component begins. -/
def Plain (text : Bytes) : Prop :=
  ∀ component : Component, component.delimiter ∉ text

instance (text : Bytes) : Decidable (Plain text) :=
  decidable_of_iff
    (parameters.delimiter ∉ text ∧ query.delimiter ∉ text ∧
      fragment.delimiter ∉ text)
    ⟨fun absent component => by cases component <;> tauto,
      fun plain => ⟨plain _, plain _, plain _⟩⟩

/-- The components one behind another, each behind its delimiter. -/
def written (parts : List (Component × Bytes)) : Bytes :=
  (parts.map fun part => part.1.delimiter :: part.2).flatten

theorem delimiter_injective {left right : Component}
    (same : left.delimiter = right.delimiter) : left = right := by
  cases left <;> cases right <;> simp_all [delimiter]

end Component

section Positions

variable {delimiter : UInt8} {before : Bytes}

theorem position_here (absent : delimiter ∉ before) (after : Bytes) :
    position delimiter (before ++ delimiter :: after) = before.length := by
  rw [position, find_byte delimiter absent after]
  rfl

theorem position_absent (absent : delimiter ∉ before) :
    position delimiter before = npos := by
  rw [position, find_byte_eq_none absent]
  rfl

theorem position_lt (member : delimiter ∈ before) (after : Bytes) :
    position delimiter (before ++ after) < before.length := by
  obtain ⟨front, back, rfl, absent⟩ := List.eq_append_cons_of_mem member
  rw [List.append_assoc, List.cons_append, position_here absent]
  simp

theorem le_position (absent : delimiter ∉ before) {after : Bytes}
    (fits : before.length ≤ npos) :
    before.length ≤ position delimiter (before ++ after) := by
  by_cases member : delimiter ∈ after
  · obtain ⟨front, back, rfl, missing⟩ := List.eq_append_cons_of_mem member
    have notBefore : delimiter ∉ before ++ front := by
      simp [absent, missing]
    rw [← List.append_assoc, position_here notBefore, List.length_append]
    omega
  · rw [position_absent (by simp [absent, member])]
    exact fits

theorem position_lt_or (delimiter : UInt8) (path : Bytes) :
    position delimiter path < path.length ∨ position delimiter path = npos := by
  by_cases member : delimiter ∈ path
  · have inside := position_lt member []
    rw [List.append_nil] at inside
    exact .inl inside
  · exact .inr (position_absent member)

/-- Where another component can be: in front, or behind the text. -/
theorem position_other {own : UInt8} (different : delimiter ≠ own)
    {text : Bytes} (absent : delimiter ∉ text) {after : Bytes}
    (fits : (before ++ own :: (text ++ after)).length ≤ npos) :
    position delimiter (before ++ own :: (text ++ after)) < before.length ∨
      before.length + 1 + text.length ≤
        position delimiter (before ++ own :: (text ++ after)) := by
  by_cases member : delimiter ∈ before
  · exact .inl (position_lt member _)
  · have missing : delimiter ∉ before ++ own :: text := by
      simp only [List.mem_append, List.mem_cons, not_or]
      exact ⟨member, different, absent⟩
    simp only [List.length_append, List.length_cons] at fits
    have later : (before ++ own :: text).length ≤
        position delimiter (before ++ own :: text ++ after) :=
      le_position missing (by
        simp only [List.length_append, List.length_cons]
        omega)
    simp only [List.append_assoc, List.cons_append, List.length_append,
      List.length_cons] at later
    right
    omega

/-- A delimiter at the end of the text, where it is the first. -/
theorem position_next {own : UInt8} (missing : delimiter ∉ before)
    (different : delimiter ≠ own) {text : Bytes} (absent : delimiter ∉ text)
    (after : Bytes) :
    position delimiter (before ++ own :: (text ++ delimiter :: after)) =
      before.length + 1 + text.length := by
  have notBefore : delimiter ∉ before ++ own :: text := by
    simp only [List.mem_append, List.mem_cons, not_or]
    exact ⟨missing, different, absent⟩
  have here := position_here notBefore after
  simp only [List.append_assoc, List.cons_append, List.length_append,
    List.length_cons] at here
  omega

theorem position_other_last {own : UInt8} (different : delimiter ≠ own)
    {text : Bytes} (absent : delimiter ∉ text)
    (fits : (before ++ own :: text).length ≤ npos) :
    position delimiter (before ++ own :: text) < before.length ∨
      position delimiter (before ++ own :: text) = npos := by
  have sameFits : (before ++ own :: (text ++ [])).length ≤ npos := by
    rwa [List.append_nil]
  have places := position_other different absent sameFits
  rw [List.append_nil] at places
  have bounds := position_lt_or delimiter (before ++ own :: text)
  rw [List.length_append, List.length_cons] at bounds
  omega

end Positions

section Parts

variable {own first second : UInt8} {before text after : Bytes}

theorem substr_behind (own : UInt8) (before after : Bytes) (count : Nat) :
    substr (before ++ own :: after) (before.length + 1) count =
      after.take count := by
  have dropped : (before ++ own :: after).drop (before.length + 1) = after := by
    rw [← List.drop_drop, List.drop_left, List.drop_one, List.tail_cons]
  rw [substr, dropped]

/-- The last component: the others are in front of it or absent. -/
theorem componentOf_last (absent : own ∉ before)
    (fits : (before ++ own :: text).length ≤ npos)
    (firstPlace : position first (before ++ own :: text) < before.length ∨
      position first (before ++ own :: text) = npos)
    (secondPlace : position second (before ++ own :: text) < before.length ∨
      position second (before ++ own :: text) = npos) :
    componentOf own first second (before ++ own :: text) = text := by
  have here := position_here absent text
  rw [List.length_append, List.length_cons] at fits
  simp only [componentOf, here, substr_behind]
  rw [if_neg (by omega)]
  split
  · apply List.take_of_length_le
    omega
  · rw [if_neg (by omega)]
    apply List.take_of_length_le
    unfold toSizeT npos at *
    omega

/-- A query at the end of the path may have further question marks. -/
theorem query_eq {request : HttpRequest}
    (isPath : request.path = before ++ 63 :: text)
    (fits : request.path.length ≤ npos) (documentPlain : Component.Plain before)
    (noFragment : (35 : UInt8) ∉ text) (noParameters : (59 : UInt8) ∉ text) :
    request.query = text := by
  rw [isPath] at fits
  rw [HttpRequest.query, isPath]
  apply componentOf_last (documentPlain .query) fits
  · right
    apply position_absent
    simpa [noFragment, Component.delimiter] using documentPlain .fragment
  · right
    apply position_absent
    simpa [noParameters, Component.delimiter] using documentPlain .parameters

/-- A component that another one follows. -/
theorem componentOf_followed (absent : own ∉ before)
    (fits : (before ++ own :: (text ++ after)).length ≤ npos)
    (nonempty : after ≠ [])
    (places :
      (position first (before ++ own :: (text ++ after)) =
          before.length + 1 + text.length ∧
        (position second (before ++ own :: (text ++ after)) < before.length ∨
          before.length + 1 + text.length ≤
            position second (before ++ own :: (text ++ after)))) ∨
      (position second (before ++ own :: (text ++ after)) =
          before.length + 1 + text.length ∧
        (position first (before ++ own :: (text ++ after)) < before.length ∨
          before.length + 1 + text.length ≤
            position first (before ++ own :: (text ++ after))))) :
    componentOf own first second (before ++ own :: (text ++ after)) = text := by
  have here := position_here absent (text ++ after)
  have behind := List.length_pos_of_ne_nil nonempty
  rw [List.length_append, List.length_cons, List.length_append] at fits
  have length : ∀ pos, pos = before.length + 1 + text.length →
      toSizeT (pos - before.length - 1) = text.length := by
    intro pos isEnd
    unfold toSizeT npos at *
    omega
  simp only [componentOf, here, substr_behind]
  rw [if_neg (by omega), if_neg (by omega)]
  split
  · rw [length _ (by omega), List.take_left]
  · rw [length _ (by omega), List.take_left]

end Parts

namespace Component

variable {component other : Component} {document text : Bytes}
  {parts front back : List (Component × Bytes)}

theorem delimiter_mem_written
    (plain : ∀ part ∈ parts, Plain part.2) :
    component.delimiter ∈ written parts ↔
      component ∈ parts.map Prod.fst := by
  simp only [written, List.mem_flatten, List.mem_map]
  constructor
  · rintro ⟨_, ⟨part, member, rfl⟩, inside⟩
    rcases List.mem_cons.mp inside with same | inText
    · exact ⟨part, member, (delimiter_injective same).symm⟩
    · exact absurd inText (plain part member component)
  · rintro ⟨part, member, rfl⟩
    exact ⟨_, ⟨part, member, rfl⟩, List.mem_cons_self⟩

/-- A component is recovered from its place among the others. -/
theorem componentOf_parts {first second : Component}
    (firstOther : first ≠ component) (secondOther : second ≠ component)
    (only : ∀ other, other ≠ component → other = first ∨ other = second)
    (documentPlain : Plain document)
    (plain : ∀ part ∈ front ++ (component, text) :: back, Plain part.2)
    (distinct : ((front ++ (component, text) :: back).map Prod.fst).Nodup)
    (fits : (document ++ written (front ++ (component, text) :: back)).length ≤
      npos) :
    componentOf component.delimiter first.delimiter second.delimiter
      (document ++ written (front ++ (component, text) :: back)) = text := by
  have textPlain : Plain text := plain (component, text) (by simp)
  have frontPlain : ∀ part ∈ front, Plain part.2 := fun part member =>
    plain part (by simp [member])
  simp only [List.map_append, List.map_cons, List.nodup_append,
    List.nodup_cons] at distinct
  obtain ⟨_, ⟨notLater, backDistinct⟩, frontApart⟩ := distinct
  have notBefore : ∀ kind, kind ∉ front.map Prod.fst →
      kind.delimiter ∉ document ++ written front := by
    intro kind absent
    rw [List.mem_append, delimiter_mem_written frontPlain, not_or]
    exact ⟨documentPlain kind, absent⟩
  have ownAbsent := notBefore component fun member =>
    frontApart component member component List.mem_cons_self rfl
  have apart : ∀ other, other ≠ component →
      other.delimiter ≠ component.delimiter := fun other different same =>
    different (delimiter_injective same)
  cases back with
  | nil =>
      have path : document ++ written (front ++ [(component, text)]) =
          document ++ written front ++ component.delimiter :: text := by
        simp [written]
      rw [path] at fits ⊢
      apply componentOf_last ownAbsent fits
      · exact position_other_last (apart first firstOther) (textPlain first) fits
      · exact position_other_last (apart second secondOther)
          (textPlain second) fits
  | cons next back =>
      have path :
          document ++ written (front ++ (component, text) :: next :: back) =
            document ++ written front ++ component.delimiter ::
              (text ++ next.1.delimiter :: (next.2 ++ written back)) := by
        simp [written]
      rw [path] at fits ⊢
      have nextOther : next.1 ≠ component := by
        rintro rfl
        exact notLater List.mem_cons_self
      have nextAbsent := notBefore next.1 fun member =>
        frontApart next.1 member next.1
          (List.mem_cons_of_mem _ List.mem_cons_self) rfl
      have nextHere := position_next nextAbsent (apart next.1 nextOther)
        (textPlain next.1) (next.2 ++ written back)
      have places : ∀ other, other ≠ component → _ := fun other different =>
        position_other (apart other different) (textPlain other) fits
      apply componentOf_followed ownAbsent fits (List.cons_ne_nil _ _)
      rcases only next.1 nextOther with isNext | isNext
      · rw [isNext] at nextHere ⊢
        exact .inl ⟨nextHere, isNext ▸ places second secondOther⟩
      · rw [isNext] at nextHere ⊢
        exact .inr ⟨nextHere, isNext ▸ places first firstOther⟩

/-- The delimiter of an absent component is not found. -/
theorem componentOf_absent (first second : UInt8)
    (documentPlain : Plain document) (plain : ∀ part ∈ parts, Plain part.2)
    (absent : component ∉ parts.map Prod.fst) :
    componentOf component.delimiter first second
      (document ++ written parts) = [] := by
  have missing : component.delimiter ∉ document ++ written parts := by
    rw [List.mem_append, delimiter_mem_written plain, not_or]
    exact ⟨documentPlain component, absent⟩
  simp only [componentOf, position_absent missing, if_true]

theorem read_eq (component : Component) (request : HttpRequest) :
    ∃ first second : Component, first ≠ component ∧ second ≠ component ∧
      (∀ other, other ≠ component → other = first ∨ other = second) ∧
      component.read request = componentOf component.delimiter
        first.delimiter second.delimiter request.path := by
  cases component with
  | parameters => exact ⟨fragment, query, by decide, by decide,
      fun other => by cases other <;> simp, rfl⟩
  | query => exact ⟨fragment, parameters, by decide, by decide,
      fun other => by cases other <;> simp, rfl⟩
  | fragment => exact ⟨parameters, query, by decide, by decide,
      fun other => by cases other <;> simp, rfl⟩

end Component

open Component in
theorem document_eq {request : HttpRequest}
    (fits : request.path.length ≤ npos) :
    request.document = request.path.take
      (min (position parameters.delimiter request.path)
        (min (position fragment.delimiter request.path)
          (position query.delimiter request.path))) := by
  unfold HttpRequest.document
  dsimp only
  split
  · rename_i absent
    obtain ⟨noParameters, noFragment, noQuery⟩ := absent
    simp only [position, delimiter, noParameters, noFragment, noQuery,
      Option.getD_none, Nat.min_self]
    exact (List.take_of_length_le fits).symm
  · rfl

theorem document_parts {request : HttpRequest} {document : Bytes}
    {parts : List (Component × Bytes)}
    (built : request.path = document ++ Component.written parts)
    (fits : request.path.length ≤ npos)
    (documentPlain : Component.Plain document) :
    request.document = document := by
  have documentFits : document.length ≤ npos := by
    rw [built, List.length_append] at fits
    omega
  have behind : ∀ component : Component, document.length ≤
      position component.delimiter (document ++ Component.written parts) :=
    fun component => le_position (documentPlain component) documentFits
  rw [document_eq fits, built]
  cases parts with
  | nil =>
      rw [Component.written, List.map_nil, List.flatten_nil, List.append_nil]
      rw [Component.written, List.map_nil, List.flatten_nil, List.append_nil]
        at behind
      apply List.take_of_length_le
      exact Nat.le_min.mpr ⟨behind _, Nat.le_min.mpr ⟨behind _, behind _⟩⟩
  | cons part parts =>
      have here : position part.1.delimiter
          (document ++ Component.written (part :: parts)) =
            document.length := by
        apply position_here (documentPlain part.1)
      have parametersBehind := behind .parameters
      have queryBehind := behind .query
      have fragmentBehind := behind .fragment
      obtain ⟨kind, text⟩ := part
      apply List.take_left'
      cases kind with
      | parameters => dsimp only at here; omega
      | query => dsimp only at here; omega
      | fragment => dsimp only at here; omega

/-- A path is split into the document and the components it was built from. -/
theorem components_recovered {request : HttpRequest} {document : Bytes}
    {parts : List (Component × Bytes)}
    (built : request.path = document ++ Component.written parts)
    (fits : request.path.length ≤ npos)
    (documentPlain : Component.Plain document)
    (plain : ∀ part ∈ parts, Component.Plain part.2)
    (distinct : (parts.map Prod.fst).Nodup) :
    request.document = document ∧
      ∀ component : Component,
        (∀ text, (component, text) ∈ parts → component.read request = text) ∧
        (component ∉ parts.map Prod.fst → component.read request = []) := by
  refine ⟨document_parts built fits documentPlain, ?_⟩
  intro component
  obtain ⟨first, second, firstOther, secondOther, only, isRead⟩ :=
    component.read_eq request
  rw [isRead, built]
  rw [built] at fits
  constructor
  · intro text member
    obtain ⟨front, back, rfl⟩ := List.append_of_mem member
    exact Component.componentOf_parts firstOther secondOther only
      documentPlain plain distinct fits
  · intro absent
    exact Component.componentOf_absent _ _ documentPlain plain absent

/-- The fragment in front of the parameters, and no query. -/
theorem components_recovered_fragment_first :
    (∀ part ∈ [(Component.fragment, ascii "top"), (.parameters, ascii "a=1")],
        Component.Plain part.2) ∧
      ({ path := ascii "/x#top;a=1" } : HttpRequest).document = ascii "/x" ∧
      ({ path := ascii "/x#top;a=1" } : HttpRequest).parameters =
        ascii "a=1" ∧
      ({ path := ascii "/x#top;a=1" } : HttpRequest).query = [] := by
  have plain : ∀ part ∈ [(Component.fragment, ascii "top"),
      (.parameters, ascii "a=1")], Component.Plain part.2 := by decide
  have built : ({ path := ascii "/x#top;a=1" } : HttpRequest).path =
      ascii "/x" ++ Component.written
        [(.fragment, ascii "top"), (.parameters, ascii "a=1")] := by decide
  have recovered :=
    components_recovered built (by decide) (by decide) plain (by decide)
  exact ⟨plain, recovered.1, (recovered.2 .parameters).1 _ (by simp),
    (recovered.2 .query).2 (by decide)⟩

end Natsu.Http
