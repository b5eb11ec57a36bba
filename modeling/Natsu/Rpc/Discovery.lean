import Natsu.Foundation.Json
import Natsu.Rpc.Activities

/-!
# The reply of etcd

`produce_from_etcd` reads the list of providers from the reply to its request.
The list replaces `service_node_` while it is read, item by item, and a reply
without a list leaves it as it was.
-/

namespace Natsu.Rpc

open Natsu.Foundation

variable {Service Message : Type}

/-- The key and the value of an item, where it has both. -/
def entry (item : Json) : Option (Bytes × Bytes) := do
  let key ← (← item.member (ascii "key")).asString
  let value ← (← item.member (ascii "value")).asString
  return (key, value)

/-- The items that the loop comes to. -/
def entries (nodes : Json) : List (Option (Bytes × Bytes)) :=
  (List.range nodes.size).map fun index => (nodes.item index).bind entry

/-- What the reply says to do.  There is no result where it throws before the
list is read; an item that throws is `none` in the list. -/
def readReply (parsed : Option Json) : Option Poll :=
  parsed.bind fun object =>
    if object.contains (ascii "action") then
      (object.member (ascii "action")).bind fun member =>
        member.asString.bind fun action =>
          if action = ascii "get" ∧ object.contains (ascii "node") then
            (object.member (ascii "node")).bind fun objectNode =>
              if objectNode.contains (ascii "nodes") then
                (objectNode.member (ascii "nodes")).map fun objectNodes =>
                  .nodes (entries objectNodes)
              else some .nothing
          else some .nothing
    else some .nothing

/-- A poll whose request has succeeded. -/
def EtcdProducers.receive [DecidableEq Service]
    (producers : EtcdProducers Service Message) (service : Service)
    (parsed : Option Json) : EtcdProducers Service Message :=
  match readReply parsed with
  | none => producers
  | some poll => producers.produceFromEtcd service poll

/-- The `catch` of `produce_from_etcd` is reached. -/
def Caught (parsed : Option Json) : Prop :=
  readReply parsed = none ∨
    ∃ items, readReply parsed = some (.nodes items) ∧ none ∈ items

/-- A reply to a `get` that has a node, and the pairs it lists: those of its
nodes, with distinct keys, or none where it has no list. -/
structure Lists (reply : Json) (listed : List (Bytes × Bytes)) : Prop where
  distinct : (listed.map Prod.fst).Nodup
  shape : ∃ members action node, reply = .object members ∧
    Json.find? members (ascii "action") = some (.string action) ∧
    cstr action = ascii "get" ∧
    Json.find? members (ascii "node") = some node ∧
    ((∃ others items, node = .object others ∧
        Json.find? others (ascii "nodes") = some (.array items) ∧
        items.map entry = listed.map some) ∨
      (node.contains (ascii "nodes") = false ∧ listed = []))

/-- The node of the reply has a list. -/
def HasNodes (reply : Json) : Prop :=
  ∃ node, reply.member (ascii "node") = some node ∧
    node.contains (ascii "nodes") = true

/-- The nodes are the listed ones, and one worker was started for each key that
is new. -/
structure Refreshed (service : Service) (listed : List (Bytes × Bytes))
    (before after : EtcdProducers Service Message) : Prop where
  nodes : ∀ key value, (after.serviceNode service)[key]? = some value ↔
    (key, value) ∈ listed
  workers : ∃ started : List Bytes,
    after.workers = before.workers ++
      (started.map fun key => { service := service, node := key }) ∧
    started.Nodup ∧
    ∀ key, key ∈ started ↔
      key ∈ listed.map Prod.fst ∧ key ∉ before.serviceNode service

/-- The items before the first that throws. -/
def readItems (items : List (Option (Bytes × Bytes))) : List (Bytes × Bytes) :=
  (items.takeWhile Option.isSome).reduceOption

/-- The value that the last pair with a key has. -/
def lastValue (pairs : List (Bytes × Bytes)) (key : Bytes) : Option Bytes :=
  (pairs.filter fun pair => pair.1 = key).getLast?.map Prod.snd

section Polling

theorem lastValue_cons (pair : Bytes × Bytes) (pairs : List (Bytes × Bytes))
    (key : Bytes) :
    lastValue (pair :: pairs) key =
      (lastValue pairs key).or (if pair.1 = key then some pair.2 else none) := by
  unfold lastValue
  by_cases same : pair.1 = key
  · rw [List.filter_cons_of_pos (by simpa using same), List.getLast?_cons,
      if_pos same]
    cases (pairs.filter fun pair => pair.1 = key).getLast? <;> rfl
  · rw [List.filter_cons_of_neg (by simpa using same), if_neg same,
      Option.or_none]

theorem mem_of_lastValue {pairs : List (Bytes × Bytes)} {key value : Bytes}
    (last : lastValue pairs key = some value) : (key, value) ∈ pairs := by
  obtain ⟨⟨found, other⟩, isLast, rfl⟩ := Option.map_eq_some_iff.mp last
  obtain ⟨member, same⟩ := List.mem_filter.mp (List.mem_of_getLast? isLast)
  obtain rfl : found = key := of_decide_eq_true same
  exact member

theorem lastValue_isSome {pairs : List (Bytes × Bytes)} {key : Bytes}
    (member : key ∈ pairs.map Prod.fst) :
    (lastValue pairs key).isSome = true := by
  obtain ⟨pair, isPair, rfl⟩ := List.mem_map.mp member
  have nonempty : pairs.filter (fun other => other.1 = pair.1) ≠ [] :=
    List.ne_nil_of_mem (List.mem_filter.mpr ⟨isPair, by simp⟩)
  rw [lastValue, Option.isSome_map, List.getLast?_eq_some_getLast nonempty]
  rfl

theorem lastValue_eq_some_iff {pairs : List (Bytes × Bytes)}
    (distinct : (pairs.map Prod.fst).Nodup) (key value : Bytes) :
    lastValue pairs key = some value ↔ (key, value) ∈ pairs := by
  refine ⟨mem_of_lastValue, ?_⟩
  intro member
  have nonempty : pairs.filter (fun pair => pair.1 = key) ≠ [] :=
    List.ne_nil_of_mem (List.mem_filter.mpr ⟨member, by simp⟩)
  have found : lastValue pairs key =
      some (List.getLast _ nonempty).2 := by
    rw [lastValue, List.getLast?_eq_some_getLast nonempty]
    rfl
  have same : (key, (List.getLast _ nonempty).2) = (key, value) :=
    List.inj_on_of_nodup_map distinct (mem_of_lastValue found) member rfl
  rw [found, (Prod.mk.inj same).2]

/-- The nodes after a poll: the last value of each key that was read. -/
theorem pollNodes_nodes (nodelist : Std.ExtTreeMap Bytes Bytes)
    (items : List (Option (Bytes × Bytes))) :
    ∀ (result : Std.ExtTreeMap Bytes Bytes) (key : Bytes),
      (pollNodes nodelist items result).1[key]? =
        (lastValue (readItems items) key).or result[key]? := by
  induction items with
  | nil =>
      intro result key
      rfl
  | cons item items induction =>
      intro result key
      cases item with
      | none => rfl
      | some pair =>
          have read : readItems (some pair :: items) =
              pair :: readItems items := by
            simp [readItems]
          rw [read, lastValue_cons]
          have rest := induction (result.insert pair.1 pair.2) key
          have unfolded : (pollNodes nodelist (some pair :: items) result).1 =
              (pollNodes nodelist items (result.insert pair.1 pair.2)).1 := rfl
          rw [unfolded, rest, Option.or_assoc, Std.ExtTreeMap.getElem?_insert]
          by_cases same : pair.1 = key
          · simp [same]
          · simp [same]

variable [DecidableEq Service] (producers : EtcdProducers Service Message)
  (service : Service) (items : List (Option (Bytes × Bytes)))

theorem serviceNode_produceFromEtcd (key : Bytes) :
    ((producers.produceFromEtcd service (.nodes items)).serviceNode
        service)[key]? = lastValue (readItems items) key := by
  have updated : (producers.produceFromEtcd service
      (.nodes items)).serviceNode service =
        (pollNodes (producers.serviceNode service) items ∅).1 :=
    Function.update_self ..
  rw [updated, pollNodes_nodes, Std.ExtTreeMap.getElem?_empty, Option.or_none]

theorem workers_produceFromEtcd :
    (producers.produceFromEtcd service (.nodes items)).workers =
      producers.workers ++
        ((((readItems items).map Prod.fst).filter
          (· ∉ producers.serviceNode service)).map fun key =>
            { service := service, node := key }) := by
  have started := pollNodes_started (producers.serviceNode service) items ∅
  have unfolded : (producers.produceFromEtcd service (.nodes items)).workers =
      producers.workers ++
        ((pollNodes (producers.serviceNode service) items ∅).2.map fun key =>
          { service := service, node := key }) := rfl
  rw [unfolded, started]
  rfl

end Polling

section Replies

theorem entries_array (items : List Json) :
    entries (.array items) = items.map entry := by
  apply List.ext_getElem?
  intro index
  unfold entries
  by_cases inside : index < items.length
  · simp [Json.size, Json.item, inside]
  · have outside := Nat.le_of_not_lt inside
    simp [Json.size, outside]

theorem readItems_some (pairs : List (Bytes × Bytes)) :
    readItems (pairs.map some) = pairs := by
  induction pairs with
  | nil => rfl
  | cons pair pairs induction =>
      unfold readItems at induction ⊢
      simpa using induction

/-- What is done about a reply that succeeds. -/
theorem Lists.readReply {reply : Json} {listed : List (Bytes × Bytes)}
    (lists : Lists reply listed) :
    (HasNodes reply ∧
      Natsu.Rpc.readReply (some reply) = some (.nodes (listed.map some))) ∨
    (¬ HasNodes reply ∧ listed = [] ∧
      Natsu.Rpc.readReply (some reply) = some .nothing) := by
  obtain ⟨members, action, node, rfl, isAction, isGet, isNode, list⟩ :=
    lists.shape
  have hasNode : (Json.object members).member (ascii "node") = some node := by
    simp [Json.member, isNode]
  rcases list with ⟨others, items, rfl, isNodes, same⟩ | ⟨noNodes, nothing⟩
  · refine .inl ⟨⟨_, hasNode, by simp [Json.contains, isNodes]⟩, ?_⟩
    simp [Natsu.Rpc.readReply, Json.contains, Json.member, Json.asString,
      isAction, isGet, isNode, isNodes, entries_array, same]
  · refine .inr ⟨?_, nothing, ?_⟩
    · rintro ⟨other, isOther, hasNodes⟩
      obtain rfl := Option.some.inj (hasNode.symm.trans isOther)
      rw [noNodes] at hasNodes
      cases hasNodes
    · have hasAction : (Json.object members).contains (ascii "action") =
          true := by
        simp [Json.contains, isAction]
      have has : (Json.object members).contains (ascii "node") = true := by
        simp [Json.contains, isNode]
      have isText : (Json.object members).member (ascii "action") =
          some (.string action) := by
        simp [Json.member, isAction]
      simp [Natsu.Rpc.readReply, hasAction, has, isText, hasNode, noNodes,
        Json.asString, isGet]

end Replies

section Exactness

variable [DecidableEq Service]

/-- A poll with a reply that succeeds refreshes the nodes and starts workers
exactly as the reply lists them if and only if it has a list or no node was
known before. -/
theorem refresh_exact_iff (producers : EtcdProducers Service Message)
    (service : Service) {reply : Json} {listed : List (Bytes × Bytes)}
    (lists : Lists reply listed) :
    Refreshed service listed producers
        (producers.receive service (some reply)) ↔
      HasNodes reply ∨ producers.serviceNode service = ∅ := by
  rcases lists.readReply with ⟨hasNodes, read⟩ | ⟨noNodes, rfl, read⟩
  · have received : producers.receive service (some reply) =
        producers.produceFromEtcd service (.nodes (listed.map some)) := by
      simp only [EtcdProducers.receive, read]
    refine iff_of_true ?_ (.inl hasNodes)
    rw [received]
    refine ⟨?_, ?_⟩
    · intro key value
      rw [serviceNode_produceFromEtcd, readItems_some,
        lastValue_eq_some_iff lists.distinct]
    · refine ⟨_, workers_produceFromEtcd producers service _, ?_, ?_⟩
      · rw [readItems_some]
        exact lists.distinct.filter _
      · intro key
        rw [readItems_some, List.mem_filter, decide_eq_true_iff]
  · have received : producers.receive service (some reply) = producers := by
      simp only [EtcdProducers.receive, read]
      rfl
    rw [received]
    constructor
    · intro refreshed
      refine .inr (Std.ExtTreeMap.ext_getElem? fun {key} => ?_)
      rw [Std.ExtTreeMap.getElem?_empty]
      cases known : (producers.serviceNode service)[key]? with
      | none => rfl
      | some value =>
          have listed := (refreshed.nodes key value).mp known
          cases listed
    · rintro (hasNodes | empty)
      · exact absurd hasNodes noNodes
      · refine ⟨by simp [empty], [], by simp, List.nodup_nil, by simp⟩

/-- A poll that ends in the `catch` changes nothing exactly when it throws
before the list is read or the items before the one that throws have the keys
and values that were known before. -/
theorem malformed_reply_unchanged_iff (producers : EtcdProducers Service Message)
    (service : Service) {parsed : Option Json} (caught : Caught parsed) :
    ((producers.receive service parsed).serviceNode service =
        producers.serviceNode service ∧
      (producers.receive service parsed).workers = producers.workers) ↔
      ∀ items, readReply parsed = some (.nodes items) →
        ∀ key, (producers.serviceNode service)[key]? =
          lastValue (readItems items) key := by
  rcases caught with thrown | ⟨items, read, _⟩
  · have received : producers.receive service parsed = producers := by
      simp only [EtcdProducers.receive, thrown]
    refine iff_of_true ⟨by rw [received], by rw [received]⟩ ?_
    intro items read
    rw [thrown] at read
    cases read
  · have received : producers.receive service parsed =
        producers.produceFromEtcd service (.nodes items) := by
      simp only [EtcdProducers.receive, read]
    rw [received]
    constructor
    · rintro ⟨same, _⟩ others isOthers key
      obtain rfl : items = others := by
        simpa using read.symm.trans isOthers
      rw [← serviceNode_produceFromEtcd producers service items, same]
    · intro known
      have same := known items read
      refine ⟨Std.ExtTreeMap.ext_getElem? fun {key} => ?_, ?_⟩
      · rw [serviceNode_produceFromEtcd, same]
      · have noneNew : ((readItems items).map Prod.fst).filter
            (· ∉ producers.serviceNode service) = [] := by
          apply List.filter_eq_nil_iff.mpr
          intro key member
          have known : key ∈ producers.serviceNode service := by
            rw [Std.ExtTreeMap.mem_iff_isSome_getElem?, same key]
            exact lastValue_isSome member
          simpa using known
        rw [workers_produceFromEtcd, noneNew, List.map_nil, List.append_nil]

end Exactness

namespace Example

/-- An item of a reply. -/
def item (key value : String) : Json :=
  .object [(ascii "key", .string (ascii key)),
    (ascii "value", .string (ascii value))]

/-- A reply for the directory of a service, with the members of its node. -/
def reply (members : List (Bytes × Json)) : Json :=
  .object [(ascii "action", .string (ascii "get")),
    (ascii "node", .object members)]

/-- A producer that knows one node. -/
def discovered : EtcdProducers String ExampleMessage where
  serviceNode _ := (∅ : Std.ExtTreeMap Bytes Bytes).insert (ascii "a")
    (ascii "127.0.0.1:1")

theorem refresh_exact_iff_provider :
    Refreshed "im" [(ascii "b", ascii "127.0.0.1:2")] discovered
      (discovered.receive "im"
        (some (reply [(ascii "nodes", .array [item "b" "127.0.0.1:2"])]))) :=
  (refresh_exact_iff discovered "im"
    ⟨by decide, _, ascii "get", _, rfl, rfl, rfl, rfl,
      .inl ⟨_, _, rfl, rfl, rfl⟩⟩).mpr
    (.inl ⟨_, rfl, rfl⟩)

/-- The last provider is gone, and the node stays. -/
theorem empty_directory_keeps_node :
    Lists (reply [(ascii "dir", .bool true)]) [] ∧
      ¬ Refreshed "im" [] discovered
        (discovered.receive "im"
          (some (reply [(ascii "dir", .bool true)]))) := by
  refine ⟨⟨List.nodup_nil, _, ascii "get", _, rfl, rfl, rfl, rfl,
    .inr ⟨rfl, rfl⟩⟩, ?_⟩
  intro refreshed
  have kept : ((discovered.receive "im" (some (reply
      [(ascii "dir", .bool true)]))).serviceNode "im")[ascii "a"]? =
        some (ascii "127.0.0.1:1") := by
    decide +kernel
  have listed := (refreshed.nodes _ _).mp kept
  cases listed

theorem malformed_reply_unchanged_iff_unparsed :
    (discovered.receive "im" none).serviceNode "im" =
        discovered.serviceNode "im" ∧
      (discovered.receive "im" none).workers = discovered.workers :=
  (malformed_reply_unchanged_iff discovered "im" (.inl rfl)).mpr
    fun _ read => absurd read.symm (Option.some_ne_none _)

/-- The second item has no value. -/
def halfRead : Json :=
  reply [(ascii "nodes", .array [item "b" "127.0.0.1:2",
    .object [(ascii "key", .string (ascii "c"))]])]

/-- The node that was known is lost, and a worker is started for the first
item. -/
theorem half_read_list_applied :
    Caught (some halfRead) ∧
      ascii "a" ∉ (discovered.receive "im" (some halfRead)).serviceNode "im" ∧
      (discovered.receive "im" (some halfRead)).workers.map Worker.node =
        [ascii "b"] ∧
      ¬ ((discovered.receive "im" (some halfRead)).serviceNode "im" =
          discovered.serviceNode "im" ∧
        (discovered.receive "im" (some halfRead)).workers =
          discovered.workers) := by
  have lost : ascii "a" ∉
      (discovered.receive "im" (some halfRead)).serviceNode "im" := by
    decide +kernel
  have started : (discovered.receive "im" (some halfRead)).workers.map
      Worker.node = [ascii "b"] := by
    decide +kernel
  refine ⟨.inr ⟨_, rfl, ?_⟩, lost, started, ?_⟩
  · decide +kernel
  · rintro ⟨_, same⟩
    rw [same] at started
    cases started

end Example

end Natsu.Rpc
