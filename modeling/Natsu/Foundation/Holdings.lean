import Mathlib.Data.List.Perm.Basic

/-!
# What the items of a list hold

Several records of one list hold values, and one record is replaced at a time.
-/

namespace Natsu.Foundation

variable {α β : Type}

/-- Replacing an item replaces what it holds. -/
theorem flatMap_replace (hold : α → List β) {items : List α} {index : Nat}
    {item : α} (present : items[index]? = some item) :
    ∃ others, (items.flatMap hold).Perm (hold item ++ others) ∧
      ∀ moved, ((items.set index moved).flatMap hold).Perm
        (hold moved ++ others) := by
  obtain ⟨bound, isItem⟩ := List.getElem?_eq_some_iff.mp present
  have before : items.Perm (item :: items.eraseIdx index) := by
    rw [← isItem]
    exact (List.getElem_cons_eraseIdx_perm bound).symm
  refine ⟨(items.eraseIdx index).flatMap hold, ?_, ?_⟩
  · exact before.flatMap_right hold
  · intro moved
    exact (List.set_perm_cons_eraseIdx bound moved).flatMap_right hold

/-- An item that holds the same as before may be put in place of it. -/
theorem flatMap_keep (hold : α → List β) {items : List α} {index : Nat}
    {item moved : α} (present : items[index]? = some item)
    (same : hold moved = hold item) :
    ((items.set index moved).flatMap hold).Perm (items.flatMap hold) := by
  obtain ⟨others, before, after⟩ := flatMap_replace hold present
  have replaced := after moved
  rw [same] at replaced
  exact replaced.trans before.symm

end Natsu.Foundation
