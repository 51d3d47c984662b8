import Std.Data.TreeMap

/-!
# Tables

What lookups in a table give after an insertion or a removal, for keys whose
order decides equality, and what related lookups in two tables give.
-/

namespace Lox

namespace Table

theorem getElem?_insertIfNew {α β : Type} [Ord α] [Std.TransOrd α] (table : Std.TreeMap α β) (key : α)
    (value : β) : (table.insertIfNew key value)[key]? = some (table[key]?.getD value) := by
  rw [Std.TreeMap.getElem?_insertIfNew]
  by_cases known : key ∈ table
  · rw [if_neg fun new => new.2 known, Std.TreeMap.getElem?_eq_some_getElem known, Option.getD_some]
  · rw [if_pos ⟨Std.ReflCmp.compare_self, known⟩, Std.TreeMap.getElem?_eq_none known,
      Option.getD_none]

variable {α β : Type} [Ord α] [Std.TransOrd α] [Std.LawfulEqOrd α] [DecidableEq α]

theorem getElem?_insert (table : Std.TreeMap α β) (key other : α) (value : β) :
    (table.insert key value)[other]? = if key = other then some value else table[other]? := by
  rw [Std.TreeMap.getElem?_insert]
  by_cases same : key = other
  · simp [same]
  · have apart : compare key other ≠ .eq :=
      fun equal => same (Std.LawfulEqCmp.eq_of_compare equal)
    rw [if_neg apart, if_neg same]

theorem getElem?_erase (table : Std.TreeMap α β) (key other : α) :
    (table.erase key)[other]? = if key = other then none else table[other]? := by
  rw [Std.TreeMap.getElem?_erase]
  by_cases same : key = other
  · simp [same]
  · have apart : compare key other ≠ .eq :=
      fun equal => same (Std.LawfulEqCmp.eq_of_compare equal)
    rw [if_neg apart, if_neg same]

/-! ## Related lookups -/

section Related

variable {γ : Type} {relation stronger : β → γ → Prop} {found : Option β} {other : Option γ}

theorem rel_imp (related : Option.Rel stronger found other)
    (imp : ∀ value value', stronger value value' → relation value value') :
    Option.Rel relation found other := by
  cases related with
  | none => exact .none
  | some holds => exact .some (imp _ _ holds)

theorem eq_none_of_rel (related : Option.Rel relation found other) (absent : found = none) :
    other = none := by
  cases related with
  | none => rfl
  | some _ => cases absent

theorem eq_some_of_rel (related : Option.Rel relation found other) {value : β}
    (present : found = some value) : ∃ value', other = some value' ∧ relation value value' := by
  cases related with
  | none => cases present
  | some holds =>
      cases present
      exact ⟨_, rfl, holds⟩

end Related

end Table

end Lox
