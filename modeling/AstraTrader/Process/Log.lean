import Mathlib.Data.List.Basic
import Mathlib.Data.List.Induction
import Mathlib.Data.List.Nodup

/-! Logs, which grow at their end, and what an entry owes to the entries before it. -/

namespace Process

variable {α β : Type*}

/-- Every entry of the log is allowed by the entries before it. -/
def Justified (P : List α → α → Prop) (log : List α) : Prop :=
  ∀ before a after, log = before ++ a :: after → P before a

section Rules
variable {P : List α → α → Prop} {log more : List α} {a : α}

theorem justified_nil : Justified P [] := fun before a after h => by simp at h

theorem Justified.concat (h : Justified P log) (ha : P log a) : Justified P (log ++ [a]) := by
  intro before b after hsplit
  rcases List.eq_nil_or_concat after with rfl | ⟨rest, c, rfl⟩
  · obtain ⟨rfl, hlast⟩ := List.append_inj' hsplit rfl
    rwa [← (List.cons.inj hlast).1]
  · rw [List.concat_eq_append, ← List.cons_append, ← List.append_assoc] at hsplit
    exact h before b rest (List.append_inj' hsplit rfl).1

theorem Justified.append (h : Justified P log)
    (hgrow : ∀ before later a, P before a → P (before ++ later) a) (hmore : ∀ a ∈ more, P log a) :
    Justified P (log ++ more) := by
  induction more using List.reverseRecOn with
  | nil => rwa [List.append_nil]
  | append_singleton more a ih =>
    rw [← List.append_assoc]
    exact (ih fun b hb => hmore b (List.mem_append_left _ hb)).concat
      (hgrow _ _ _ (hmore a (by simp)))

theorem Justified.of_mem (h : Justified P log) (ha : a ∈ log) :
    ∃ before, P before a ∧ before ⊆ log := by
  obtain ⟨before, after, rfl⟩ := List.append_of_mem ha
  exact ⟨before, h before a after rfl, List.subset_append_left _ _⟩

end Rules

theorem append_drop_of_prefix {before after : List α} (h : before <+: after) :
    before ++ after.drop before.length = after := by
  obtain ⟨more, rfl⟩ := h
  rw [List.drop_left]

theorem not_mem_of_mem_drop {key : α → β} {before after : List α} {a : α} (h : before <+: after)
    (hkeys : (after.map key).Nodup) (ha : a ∈ after.drop before.length) : a ∉ before := by
  rw [← append_drop_of_prefix h] at hkeys
  exact fun hbefore => List.disjoint_of_nodup_append hkeys.of_map hbefore ha

end Process
