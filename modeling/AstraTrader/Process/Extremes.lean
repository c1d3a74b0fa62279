import Mathlib.Algebra.Order.Group.Defs
import Mathlib.Data.List.Basic
import Mathlib.Order.Bounds.Basic

/-! The extremes of a series that grows at its end, and its largest fall: how far a later value
lies below an earlier one. -/

namespace Process

section Order
variable {α : Type*} [LinearOrder α] {values : List α} {value extreme : α}

theorem isLeast_concat (h : IsLeast {x | x ∈ values} extreme) :
    IsLeast {x | x ∈ values ++ [value]} (min extreme value) := by
  refine ⟨?_, fun x hx => ?_⟩
  · rcases min_choice extreme value with hmin | hmin <;> rw [hmin]
    · exact List.mem_append_left _ h.1
    · exact List.mem_append_right _ (List.mem_singleton_self _)
  · rcases List.mem_append.mp hx with hx | hx
    · exact (min_le_left _ _).trans (h.2 hx)
    · exact (min_le_right _ _).trans_eq (List.mem_singleton.mp hx).symm

theorem isGreatest_concat (h : IsGreatest {x | x ∈ values} extreme) :
    IsGreatest {x | x ∈ values ++ [value]} (max extreme value) :=
  @isLeast_concat αᵒᵈ _ values value extreme h

theorem isGreatest_singleton_list : IsGreatest {x | x ∈ [value]} value := by
  simp [IsGreatest, upperBounds]

end Order

section Falls
variable {α : Type*} [AddCommGroup α] {values : List α} {value fall : α}

/-- The falls of the series from a value to itself or to a later one. -/
def Falls (values : List α) : Set α :=
  {fall | ∃ (i j : ℕ) (x y : α), i ≤ j ∧ values[i]? = some x ∧ values[j]? = some y ∧ fall = x - y}

theorem mem_falls_concat :
    fall ∈ Falls (values ++ [value]) ↔
      fall ∈ Falls values ∨ ∃ x ∈ values ++ [value], fall = x - value := by
  constructor
  · rintro ⟨i, j, x, y, hij, hx, hy, rfl⟩
    rcases Nat.lt_or_ge j values.length with hj | hj
    · rw [List.getElem?_append_left hj] at hy
      rw [List.getElem?_append_left (hij.trans_lt hj)] at hx
      exact .inl ⟨i, j, x, y, hij, hx, hy, rfl⟩
    · rw [List.getElem?_append_right hj] at hy
      obtain rfl := List.mem_singleton.mp (List.mem_of_getElem? hy)
      exact .inr ⟨x, List.mem_of_getElem? hx, rfl⟩
  · rintro (⟨i, j, x, y, hij, hx, hy, rfl⟩ | ⟨x, hx, rfl⟩)
    · have hi := (List.getElem?_eq_some_iff.mp hx).1
      have hj := (List.getElem?_eq_some_iff.mp hy).1
      refine ⟨i, j, x, y, hij, ?_, ?_, rfl⟩
      · rwa [List.getElem?_append_left hi]
      · rwa [List.getElem?_append_left hj]
    · obtain ⟨i, hi⟩ := List.mem_iff_getElem?.mp hx
      have hlt := (List.getElem?_eq_some_iff.mp hi).1
      rw [List.length_append, List.length_singleton] at hlt
      exact ⟨i, values.length, x, value, Nat.le_of_lt_succ hlt, hi, by simp, rfl⟩

variable [LinearOrder α]

theorem isGreatest_falls_singleton : IsGreatest (Falls [value]) 0 := by
  have hmem : ∀ i x, [value][i]? = some x → x = value := fun i x hx =>
    List.mem_singleton.mp (List.mem_of_getElem? hx)
  refine ⟨⟨0, 0, value, value, le_rfl, rfl, rfl, (sub_self value).symm⟩, ?_⟩
  rintro _ ⟨i, j, x, y, _, hx, hy, rfl⟩
  rw [hmem i x hx, hmem j y hy, sub_self]

/-- One pass finds the largest fall: a new value can only improve on it from the peak. -/
theorem isGreatest_falls_concat [IsOrderedAddMonoid α] {peak largest : α}
    (hfall : IsGreatest (Falls values) largest) (hpeak : IsGreatest {x | x ∈ values} peak) :
    IsGreatest (Falls (values ++ [value])) (max largest (max peak value - value)) := by
  have htop := @isGreatest_concat _ _ values value peak hpeak
  refine ⟨?_, fun fall hmem => ?_⟩
  · rcases max_choice largest (max peak value - value) with hmax | hmax <;> rw [hmax]
    · exact mem_falls_concat.mpr (.inl hfall.1)
    · exact mem_falls_concat.mpr (.inr ⟨_, htop.1, rfl⟩)
  · rcases mem_falls_concat.mp hmem with hold | ⟨x, hx, rfl⟩
    · exact (hfall.2 hold).trans (le_max_left _ _)
    · exact (sub_le_sub_right (htop.2 hx) value).trans (le_max_right _ _)

end Falls

end Process
