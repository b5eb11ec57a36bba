import Mathlib.Data.List.Nodup
import Std.Data.ExtTreeMap

/-!
# Entries of ordered maps

`std::map` is the extensional tree map of the standard library.  Its list of
entries changes by one entry under `insert` and `erase`, and is in the order
of the keys.
-/

namespace Natsu.Foundation.OrderedMap

variable {α β : Type} {cmp : α → α → Ordering}
  [Std.TransCmp cmp] [Std.LawfulEqCmp cmp]
  (map : Std.ExtTreeMap α β cmp)

omit [Std.LawfulEqCmp cmp] in
theorem nodup_keys : (map.toList.map Prod.fst).Nodup := by
  rw [List.nodup_iff_pairwise_ne, List.pairwise_map]
  refine List.Pairwise.imp ?_ map.distinct_keys_toList
  intro left right different same
  rw [same] at different
  exact different Std.ReflCmp.compare_self

omit [Std.LawfulEqCmp cmp] in
theorem nodup_toList : map.toList.Nodup :=
  (nodup_keys map).of_map

theorem toList_perm_erase {key : α} {value : β}
    (present : map[key]? = some value) :
    map.toList.Perm ((key, value) :: (map.erase key).toList) := by
  have absent : (key, value) ∉ (map.erase key).toList := by
    rw [Std.ExtTreeMap.mem_toList_iff_getElem?_eq_some]
    simp
  refine (List.perm_ext_iff_of_nodup (nodup_toList map)
    (List.nodup_cons.mpr ⟨absent, nodup_toList _⟩)).mpr ?_
  rintro ⟨otherKey, other⟩
  simp only [List.mem_cons, Std.ExtTreeMap.mem_toList_iff_getElem?_eq_some,
    Std.ExtTreeMap.getElem?_erase, Prod.mk.injEq]
  by_cases same : key = otherKey
  · subst same
    simp [present, eq_comm]
  · have different : cmp key otherKey ≠ .eq := fun equal =>
      same (Std.LawfulEqCmp.eq_of_compare equal)
    simp [different, Ne.symm same]

theorem toList_perm_insert {key : α} (absent : key ∉ map) (value : β) :
    (map.insert key value).toList.Perm ((key, value) :: map.toList) := by
  have restored : (map.insert key value).erase key = map := by
    ext other
    rw [Std.ExtTreeMap.getElem?_erase, Std.ExtTreeMap.getElem?_insert]
    by_cases same : key = other
    · subst same
      simp [absent]
    · have different : cmp key other ≠ .eq := fun equal =>
        same (Std.LawfulEqCmp.eq_of_compare equal)
      simp [different]
  have present : (map.insert key value)[key]? = some value := by simp
  simpa only [restored] using toList_perm_erase (map.insert key value) present

theorem mem_insert_iff {key other : α} {value : β} :
    other ∈ map.insert key value ↔ other = key ∨ other ∈ map := by
  rw [Std.ExtTreeMap.mem_insert, Std.LawfulEqCmp.compare_eq_iff_eq, eq_comm]

/-- A new value for a key that is there adds no key. -/
theorem mem_insert_of_mem {key : α} {value : β} (known : key ∈ map)
    (other : α) : other ∈ map.insert key value ↔ other ∈ map := by
  rw [mem_insert_iff]
  constructor
  · rintro (rfl | member)
    · exact known
    · exact member
  · exact .inr

/-- An entry after an insertion is the new one or an old one. -/
theorem mem_toList_insert {key other : α} {value otherValue : β}
    (member : (other, otherValue) ∈ (map.insert key value).toList) :
    (other, otherValue) = (key, value) ∨ (other, otherValue) ∈ map.toList := by
  rw [Std.ExtTreeMap.mem_toList_iff_getElem?_eq_some,
    Std.ExtTreeMap.getElem?_insert] at member
  split at member
  · rename_i same
    obtain rfl := Std.LawfulEqCmp.eq_of_compare same
    obtain rfl := Option.some.inj member
    exact .inl rfl
  · exact .inr (Std.ExtTreeMap.mem_toList_iff_getElem?_eq_some.mpr member)

omit [Std.LawfulEqCmp cmp] in
/-- Entries in the order of their keys are the list of entries. -/
theorem toList_eq_of_perm {entries : List (α × β)}
    (perm : map.toList.Perm entries)
    (ordered : entries.Pairwise fun left right =>
      cmp left.1 right.1 = .lt) :
    map.toList = entries := by
  apply List.Perm.eq_of_pairwise _ map.ordered_keys_toList ordered perm
  intro left right _ _ before after
  exact absurd after (Std.OrientedCmp.not_lt_of_lt before)

theorem toList_erase_first {key : α} {value : β} {rest : List (α × β)}
    (first : map.toList = (key, value) :: rest) :
    (map.erase key).toList = rest := by
  have present : map[key]? = some value := by
    apply Std.ExtTreeMap.mem_toList_iff_getElem?_eq_some.mp
    rw [first]
    exact List.mem_cons_self
  have perm := toList_perm_erase map present
  rw [first] at perm
  have ordered := map.ordered_keys_toList
  rw [first] at ordered
  exact toList_eq_of_perm _ perm.cons_inv.symm (List.pairwise_cons.mp ordered).2

/-- Insert the entries one after another. -/
def insertAll (entries : List (α × β)) : Std.ExtTreeMap α β cmp :=
  entries.foldl (fun map entry => map.insert entry.1 entry.2) map

private theorem toList_insertAll_fresh (entries : List (α × β)) :
    ∀ map : Std.ExtTreeMap α β cmp, (entries.map Prod.fst).Nodup →
      (∀ entry ∈ entries, entry.1 ∉ map) →
      (insertAll map entries).toList.Perm (map.toList ++ entries) := by
  induction entries with
  | nil =>
      intro map _ _
      simp [insertAll]
  | cons entry entries induction =>
      intro map distinct absent
      obtain ⟨headFresh, tailDistinct⟩ := List.nodup_cons.mp distinct
      have tail := induction (map.insert entry.1 entry.2) tailDistinct (by
        intro other member
        rw [Std.ExtTreeMap.mem_insert]
        rintro (same | present)
        · have equality : entry.1 = other.1 :=
            Std.LawfulEqCmp.eq_of_compare same
          exact headFresh (equality ▸ List.mem_map_of_mem member)
        · exact absent other (by simp [member]) present)
      have head := toList_perm_insert map (absent entry (by simp)) entry.2
      exact tail.trans
        ((head.append_right _).trans List.perm_middle.symm)

/-- Entries with distinct keys are all kept. -/
theorem toList_insertAll {entries : List (α × β)}
    (distinct : (entries.map Prod.fst).Nodup) :
    (insertAll (∅ : Std.ExtTreeMap α β cmp) entries).toList.Perm entries := by
  have kept := toList_insertAll_fresh entries (∅ : Std.ExtTreeMap α β cmp)
    distinct (by simp)
  rw [Std.ExtTreeMap.toList_eq_nil_iff.mpr rfl, List.nil_append] at kept
  exact kept

section Scans

variable {κ ν : Type} [LT κ] [LE κ] [Std.IsLinearOrder κ] [Std.LawfulOrderLT κ]

/-- In a list by ascending keys, what stands before the first entry that fails
a test is what has no such entry up to it. -/
theorem mem_takeWhile_ordered {entries : List (κ × ν)}
    (ordered : entries.Pairwise fun left right => left.1 < right.1)
    (test : κ × ν → Bool) (entry : κ × ν) :
    entry ∈ entries.takeWhile test ↔
      entry ∈ entries ∧ ∀ other ∈ entries, other.1 ≤ entry.1 → test other := by
  induction entries with
  | nil => simp
  | cons first entries induction =>
      obtain ⟨before, tail⟩ := List.pairwise_cons.mp ordered
      rw [List.takeWhile_cons]
      split
      · rename_i passes
        rw [List.mem_cons, induction tail, List.mem_cons,
          List.forall_mem_cons]
        constructor
        · rintro (rfl | ⟨member, others⟩)
          · refine ⟨.inl rfl, fun _ => passes, ?_⟩
            intro other member atMost
            exact absurd (before other member) (Std.not_lt.mpr atMost)
          · exact ⟨.inr member, fun _ => passes, others⟩
        · rintro ⟨rfl | member, _, others⟩
          · exact .inl rfl
          · exact .inr ⟨member, others⟩
      · rename_i fails
        refine iff_of_false List.not_mem_nil ?_
        rintro ⟨member, others⟩
        have atMost : first.1 ≤ entry.1 := by
          rcases List.mem_cons.mp member with rfl | later
          · exact Std.le_refl _
          · exact Std.le_of_lt (before entry later)
        exact fails (others first List.mem_cons_self atMost)

end Scans

end Natsu.Foundation.OrderedMap
