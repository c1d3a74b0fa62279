import AstraTrader.Process.Run
import Mathlib.Data.List.AList
import Mathlib.Data.List.Sort

/-! A dictionary filled from rows, and read out in the order of its keys. -/

namespace Process

variable {κ α β : Type} [LinearOrder κ]

/-- What a row does: the key it belongs to, if any, and the item that it leaves there. -/
structure Collector (κ α β : Type) where
  key : α → Option κ
  update : κ → α → Option β → β

namespace Collector

def step (collector : Collector κ α β) (grouped : AList fun _ : κ => β) (a : α) :
    AList fun _ : κ => β :=
  match collector.key a with
  | none => grouped
  | some key => grouped.insert key (collector.update key a (grouped.lookup key))

def collect (collector : Collector κ α β) (as : List α) : AList fun _ : κ => β :=
  as.foldl collector.step ∅

section Rows
variable {collector : Collector κ α β} {grouped : AList fun _ : κ => β} {as : List α}
  {key : κ} {a : α}

theorem mem_step : key ∈ collector.step grouped a ↔ collector.key a = some key ∨ key ∈ grouped := by
  unfold step
  split
  · rename_i hkey
    simp [hkey]
  · rename_i other hkey
    rw [AList.mem_insert, hkey, Option.some.injEq, eq_comm]

theorem mem_foldl_step : key ∈ as.foldl collector.step grouped ↔
    (∃ a ∈ as, collector.key a = some key) ∨ key ∈ grouped := by
  induction as generalizing grouped with
  | nil => simp
  | cons a as ih =>
    rw [List.foldl_cons, ih, mem_step, List.exists_mem_cons_iff, or_left_comm, or_assoc]

theorem mem_collect : key ∈ collector.collect as ↔ ∃ a ∈ as, collector.key a = some key := by
  rw [collect, mem_foldl_step]
  exact or_iff_left (AList.notMem_empty key)

theorem forall_lookup_collect {P : κ → β → Prop}
    (hupdate : ∀ key a item, collector.key a = some key → (∀ b ∈ item, P key b) →
      P key (collector.update key a item)) (as : List α) (key : κ) {b : β}
    (h : (collector.collect as).lookup key = some b) : P key b := by
  refine run_invariant_of_forall
    (I := fun grouped : AList fun _ : κ => β => ∀ key, ∀ b ∈ grouped.lookup key, P key b)
    ?_ (by simp) as key b h
  intro grouped a hgrouped other b hlookup
  unfold step at hlookup
  split at hlookup
  · exact hgrouped other b hlookup
  · rename_i updated hkey
    by_cases hsame : other = updated
    · subst hsame
      rw [AList.lookup_insert, Option.mem_some_iff] at hlookup
      exact hlookup ▸ hupdate other a _ hkey (hgrouped other)
    · rw [AList.lookup_insert_ne hsame] at hlookup
      exact hgrouped other b hlookup

end Rows
end Collector

def inKeyOrder (grouped : AList fun _ : κ => β) : List β :=
  (grouped.keys.insertionSort (· ≤ ·)).filterMap grouped.lookup

theorem map_inKeyOrder {grouped : AList fun _ : κ => β} {keyOf : β → κ}
    (h : ∀ key b, grouped.lookup key = some b → keyOf b = key) :
    (inKeyOrder grouped).map keyOf = grouped.keys.insertionSort (· ≤ ·) := by
  have hkeys : ∀ key ∈ grouped.keys.insertionSort (· ≤ ·),
      (grouped.lookup key).map keyOf = some key := by
    intro key hkey
    rw [List.mem_insertionSort, ← AList.mem_keys] at hkey
    obtain ⟨b, hb⟩ := Option.isSome_iff_exists.mp (AList.lookup_isSome.mpr hkey)
    rw [hb, Option.map_some, h key b hb]
  rw [inKeyOrder, List.map_filterMap, List.filterMap_congr hkeys, List.filterMap_some]

theorem pairwise_lt_insertionSort {keys : List κ} (h : keys.Nodup) :
    (keys.insertionSort (· ≤ ·)).Pairwise (· < ·) :=
  (List.sortedLE_insertionSort.sortedLT_of_nodup
    ((List.perm_insertionSort (· ≤ ·) keys).nodup_iff.mpr h)).pairwise

end Process
