import Mathlib.Data.List.AList
import Mathlib.Data.List.Count
import Mathlib.Data.List.Induction

/-! Counting by key, as a `Counter` does. -/

namespace Process

variable {κ : Type*} [DecidableEq κ]

/-- One more of a key. -/
def tally (counter : AList fun _ : κ => ℕ) (key : κ) : AList fun _ : κ => ℕ :=
  counter.insert key ((counter.lookup key).getD 0 + 1)

theorem lookup_tally (counter : AList fun _ : κ => ℕ) (key other : κ) :
    ((tally counter key).lookup other).getD 0 =
      (counter.lookup other).getD 0 + if key = other then 1 else 0 := by
  unfold tally
  by_cases hsame : key = other
  · subst hsame
    rw [AList.lookup_insert, if_pos rfl, Option.getD_some]
  · rw [AList.lookup_insert_ne (Ne.symm hsame), if_neg hsame, Nat.add_zero]

theorem lookup_foldl_tally (keys : List κ) (key : κ) :
    ((keys.foldl tally ∅).lookup key).getD 0 = keys.countP fun other => other = key := by
  induction keys using List.reverseRecOn with
  | nil => rfl
  | append_singleton keys last ih =>
    rw [List.foldl_concat, lookup_tally, ih, List.countP_append, List.countP_singleton]
    simp only [decide_eq_true_eq]

end Process
