import AstraTrader.Process.Fallible
import AstraTrader.Research.Report
import Mathlib.Algebra.Order.Group.MinMax
import Mathlib.Order.Interval.Set.Basic

/-! The class of a sample as the grid of `diagnose_btc_tick_label_grid.py` counts it, and as
`relabel` of `run_btc_tick_baseline_oos.py` writes it. Edges are exact rationals. -/

namespace Astra.Labels
open Process Report

section Choice
variable {α : Type*} [LinearOrder α] {longEdge shortEdge margin margin' : α}

def label (longEdge shortEdge margin : α) : ClassName :=
  if max longEdge shortEdge ≤ margin then .hold
  else if shortEdge ≤ longEdge then .long else .short

/-- The conditional that `relabel` assigns. -/
def relabelChoice (longEdge shortEdge margin : α) : ClassName :=
  if margin < longEdge ∧ shortEdge ≤ longEdge then .long
  else if margin < shortEdge then .short else .hold

theorem label_eq_hold_iff :
    label longEdge shortEdge margin = .hold ↔ max longEdge shortEdge ≤ margin := by
  unfold label
  split_ifs with hhold hlong <;> simp [hhold]

theorem label_of_lt (h : margin < max longEdge shortEdge) :
    label longEdge shortEdge margin = if shortEdge ≤ longEdge then .long else .short :=
  if_neg (not_le.mpr h)

/-- The branches are taken in another order and come to the same, ties included. -/
theorem relabelChoice_eq_label :
    relabelChoice longEdge shortEdge margin = label longEdge shortEdge margin := by
  rcases le_total shortEdge longEdge with hle | hle
  · rw [relabelChoice, label, max_eq_left hle]
    by_cases hmargin : margin < longEdge
    · rw [if_pos ⟨hmargin, hle⟩, if_neg (not_le.mpr hmargin), if_pos hle]
    · have hshort : ¬ margin < shortEdge := fun h => hmargin (h.trans_le hle)
      rw [if_neg (fun h => hmargin h.1), if_neg hshort, if_pos (not_lt.mp hmargin)]
  · rw [relabelChoice, label, max_eq_right hle]
    rcases hle.eq_or_lt with rfl | hlt
    · by_cases hmargin : margin < longEdge
      · rw [if_pos ⟨hmargin, le_rfl⟩, if_neg (not_le.mpr hmargin), if_pos le_rfl]
      · rw [if_neg (fun h => hmargin h.1), if_neg hmargin, if_pos (not_lt.mp hmargin)]
    · rw [if_neg (fun h => h.2.not_gt hlt)]
      by_cases hmargin : margin < shortEdge
      · rw [if_pos hmargin, if_neg (not_le.mpr hmargin), if_neg (not_le.mpr hlt)]
      · rw [if_neg hmargin, if_pos (not_lt.mp hmargin)]

theorem label_eq_label_iff : label longEdge shortEdge margin = label longEdge shortEdge margin' ↔
    max longEdge shortEdge ∉ Set.Ioc (min margin margin') (max margin margin') := by
  rw [Set.mem_Ioc, min_lt_iff, le_max_iff]
  by_cases hmargin : max longEdge shortEdge ≤ margin
  · rw [label_eq_hold_iff.mpr hmargin, eq_comm, label_eq_hold_iff]
    simp only [hmargin, not_lt.mpr hmargin, true_or, false_or, and_true, not_lt]
  · rw [not_le] at hmargin
    by_cases hmargin' : max longEdge shortEdge ≤ margin'
    · have hhold := label_eq_hold_iff.mpr hmargin'
      have hne := mt label_eq_hold_iff.mp (not_le.mpr hmargin)
      simp only [hhold, hne, hmargin, hmargin', true_or, or_true, and_self, not_true_eq_false]
    · rw [not_le] at hmargin'
      rw [label_of_lt hmargin, label_of_lt hmargin']
      simp only [not_le.mpr hmargin, not_le.mpr hmargin', or_self, and_false, not_false_eq_true]

end Choice

theorem label_sub {α : Type*} [AddCommGroup α] [LinearOrder α] [IsOrderedAddMonoid α]
    (longReturn shortReturn cost margin : α) :
    label (longReturn - cost) (shortReturn - cost) margin =
      label longReturn shortReturn (margin + cost) := by
  rw [label, label]
  simp only [max_sub_sub_right, sub_le_sub_iff_right]
  simp only [sub_le_iff_le_add]

theorem label_mul {α : Type*} [Field α] [LinearOrder α] [IsStrictOrderedRing α]
    (longReturn shortReturn margin : α) {unit : α} (hunit : 0 < unit) :
    label (longReturn * unit) (shortReturn * unit) (margin * unit) =
      label longReturn shortReturn margin := by
  rw [label, label]
  simp only [← max_mul_of_nonneg _ _ hunit.le, mul_le_mul_iff_left₀ hunit]

/-- What a division by a price of zero raises. -/
inductive PriceError | zeroDivision
  deriving DecidableEq, Repr

def divide (numerator denominator : ℚ) : Except PriceError ℚ :=
  if denominator = 0 then .error .zeroDivision else .ok (numerator / denominator)

/-- The long and the short edge; both scripts spell them alike. -/
def edges (current future cost : ℚ) : Except PriceError (ℚ × ℚ) := do
  let rise ← divide future current
  let fall ← divide current future
  return (rise - 1 - cost, fall - 1 - cost)

section Scripts
variable (prices : List ℚ) (horizon : ℕ) (roundTripCostBps marginBps : ℚ)

/-- The class that a turn of the grid's inner loop counts, if it comes to that. -/
def gridClass (index : ℕ) : Except PriceError (Option ClassName) :=
  if h : index + horizon < prices.length then do
    let current := prices[index]
    let future := prices[index + horizon]
    let cost := 2 * roundTripCostBps / 10000
    let (longEdge, shortEdge) ← edges current future cost
    return some (label longEdge shortEdge (marginBps / 10000))
  else return none

structure Counts where
  hold : ℕ := 0
  long : ℕ := 0
  short : ℕ := 0
  deriving DecidableEq, Repr

def Counts.add (counts : Counts) : ClassName → Counts
  | .hold => { counts with hold := counts.hold + 1 }
  | .long => { counts with long := counts.long + 1 }
  | .short => { counts with short := counts.short + 1 }

/-- The grid's inner loop, from the counts so far. -/
def countClasses (counts : Counts) (indices : List ℕ) : Except PriceError Counts :=
  indices.foldlM (fun counts index => do
    let counted ← gridClass prices horizon roundTripCostBps marginBps index
    return counted.elim counts counts.add) counts

/-- A row of the baseline, without its features. Sequences are counted from one. -/
structure SampleRow where
  sequence : ℕ
  label : ClassName
  sequence_pos : 0 < sequence
  deriving DecidableEq

def SampleRow.index (row : SampleRow) : ℕ := row.sequence - 1

def relabelRow (row : SampleRow) : Except PriceError SampleRow :=
  let index := row.index
  if h : index + horizon < prices.length then do
    let cost := roundTripCostBps / 10000
    let margin := marginBps / 10000
    let current := prices[index]
    let future := prices[index + horizon]
    let (longEdge, shortEdge) ← edges current future cost
    return { row with label := relabelChoice longEdge shortEdge margin }
  else return { row with label := .hold }

def relabel (rows : List SampleRow) : Except PriceError (List SampleRow) :=
  rows.mapM (relabelRow prices horizon roundTripCostBps marginBps)

end Scripts

def gainBps (paid received : ℚ) : ℚ := (received / paid - 1) * 10000

/-- The class of a move from one price to another, when a gain counts from `thresholdBps` on. -/
def classOf (current future thresholdBps : ℚ) : Except PriceError ClassName :=
  if current = 0 ∨ future = 0 then .error .zeroDivision
  else .ok (label (gainBps current future) (gainBps future current) thresholdBps)

section Moves
variable {current future : ℚ}

theorem edges_eq_error (h : current = 0 ∨ future = 0) (cost : ℚ) :
    edges current future cost = .error .zeroDivision := by
  unfold edges divide
  by_cases hcurrent : current = 0
  · rw [if_pos hcurrent]
    rfl
  · rw [if_neg hcurrent, if_pos (h.resolve_left hcurrent)]
    rfl

theorem edges_eq_ok (h : ¬ (current = 0 ∨ future = 0)) (cost : ℚ) :
    edges current future cost = .ok (future / current - 1 - cost, current / future - 1 - cost) := by
  obtain ⟨hcurrent, hfuture⟩ := not_or.mp h
  unfold edges divide
  rw [if_neg hcurrent, if_neg hfuture]
  rfl

theorem label_edges (costBps marginBps : ℚ) :
    label (future / current - 1 - costBps / 10000) (current / future - 1 - costBps / 10000)
      (marginBps / 10000) =
        label (gainBps current future) (gainBps future current) (marginBps + costBps) := by
  have hunit : (0 : ℚ) < 10000 := by norm_num
  rw [label_sub, gainBps, gainBps, ← label_mul _ _ _ hunit, add_mul,
    div_mul_cancel₀ _ hunit.ne', div_mul_cancel₀ _ hunit.ne']

theorem classOf_eq_classOf_iff {thresholdBps thresholdBps' : ℚ} :
    classOf current future thresholdBps = classOf current future thresholdBps' ↔
      (current = 0 ∨ future = 0) ∨
        max (gainBps current future) (gainBps future current) ∉
          Set.Ioc (min thresholdBps thresholdBps') (max thresholdBps thresholdBps') := by
  unfold classOf
  by_cases hzero : current = 0 ∨ future = 0
  · rw [if_pos hzero, if_pos hzero]
    exact iff_of_true rfl (.inl hzero)
  · rw [if_neg hzero, if_neg hzero, Except.ok.injEq, label_eq_label_iff]
    exact (or_iff_right hzero).symm

end Moves

section Scripts
variable {prices : List ℚ} {horizon : ℕ} {roundTripCostBps marginBps : ℚ}

/-- The grid takes the cost off twice. -/
theorem gridClass_eq {index : ℕ} (h : index + horizon < prices.length) :
    gridClass prices horizon roundTripCostBps marginBps index =
      some <$> classOf prices[index] prices[index + horizon]
        (marginBps + 2 * roundTripCostBps) := by
  simp only [gridClass, dif_pos h]
  unfold classOf
  by_cases hzero : prices[index] = 0 ∨ prices[index + horizon] = 0
  · rw [edges_eq_error hzero, if_pos hzero]
    rfl
  · rw [edges_eq_ok hzero, if_neg hzero, ← label_edges]
    rfl

theorem relabelRow_eq {row : SampleRow} (h : row.index + horizon < prices.length) :
    relabelRow prices horizon roundTripCostBps marginBps row =
      (fun label => { row with label }) <$>
        classOf prices[row.index] prices[row.index + horizon]
          (marginBps + roundTripCostBps) := by
  simp only [relabelRow, dif_pos h, relabelChoice_eq_label]
  unfold classOf
  by_cases hzero : prices[row.index] = 0 ∨ prices[row.index + horizon] = 0
  · rw [edges_eq_error hzero, if_pos hzero]
    rfl
  · rw [edges_eq_ok hzero, if_neg hzero, ← label_edges]
    rfl

theorem gridClass_eq_relabelRow {row : SampleRow} (h : row.index + horizon < prices.length) :
    gridClass prices horizon roundTripCostBps marginBps row.index =
      (some ·.label) <$> relabelRow prices horizon (2 * roundTripCostBps) marginBps row := by
  rw [gridClass_eq h, relabelRow_eq h, Functor.map_map]

theorem gridClass_of_le {index : ℕ} (h : prices.length ≤ index + horizon) :
    gridClass prices horizon roundTripCostBps marginBps index = .ok none := by
  rw [gridClass, dif_neg (not_lt.mpr h)]
  rfl

/-- A cell of the grid is the tally of what `relabel` writes, at twice the cost, into the rows
that the series reaches beyond. -/
theorem countClasses_eq_tally (prices : List ℚ) (horizon : ℕ) (roundTripCostBps marginBps : ℚ)
    (rows : List SampleRow) (counts : Counts) :
    countClasses prices horizon roundTripCostBps marginBps counts (rows.map SampleRow.index) =
      (fun labelled => (labelled.map SampleRow.label).foldl Counts.add counts) <$>
        relabel prices horizon (2 * roundTripCostBps) marginBps
          (rows.filter fun row => row.index + horizon < prices.length) := by
  induction rows generalizing counts with
  | nil => rfl
  | cons row rows ih =>
    rw [List.map_cons, countClasses, List.foldlM_cons]
    by_cases hinside : row.index + horizon < prices.length
    · rw [List.filter_cons, if_pos (decide_eq_true hinside), relabel, List.mapM_cons,
        gridClass_eq_relabelRow hinside]
      rcases relabelRow prices horizon (2 * roundTripCostBps) marginBps row with error | labelled
      · rfl
      · refine (ih _).trans ?_
        simp only [relabel, map_bind, map_pure]
        rfl
    · rw [List.filter_cons, if_neg (decide_eq_false hinside ▸ Bool.false_ne_true),
        gridClass_of_le (not_lt.mp hinside)]
      exact ih counts

/-- With the same cost, the two agree unless the better gain lies where only one of the two
thresholds is passed. -/
theorem gridClass_eq_relabelRow_iff (prices : List ℚ) (horizon : ℕ)
    (roundTripCostBps marginBps : ℚ) (row : SampleRow) (h : row.index + horizon < prices.length) :
    gridClass prices horizon roundTripCostBps marginBps row.index =
        (some ·.label) <$> relabelRow prices horizon roundTripCostBps marginBps row ↔
      (prices[row.index] = 0 ∨ prices[row.index + horizon] = 0) ∨
        max (gainBps prices[row.index] prices[row.index + horizon])
            (gainBps prices[row.index + horizon] prices[row.index]) ∉
          Set.Ioc (marginBps + min roundTripCostBps (2 * roundTripCostBps))
            (marginBps + max roundTripCostBps (2 * roundTripCostBps)) := by
  rw [gridClass_eq h, relabelRow_eq h, Functor.map_map,
    (except_map_injective (Option.some_injective ClassName)).eq_iff, classOf_eq_classOf_iff,
    min_add_add_left, max_add_add_left, min_comm, max_comm (2 * roundTripCostBps)]

theorem gridClass_eq_relabelRow_iff_example :
    gridClass [10000, 10050] 1 12 2 0 =
      (some ·.label) <$> relabelRow [10000, 10050] 1 12 2 ⟨1, .hold, by decide⟩ :=
  (gridClass_eq_relabelRow_iff [10000, 10050] 1 12 2 ⟨1, .hold, by decide⟩ (by decide)).mpr
    (by decide +kernel)

/-- A rise of 20 basis points against a round trip of 12 and a margin of 2. -/
theorem not_forall_gridClass_eq_relabelRow :
    ¬ ∀ (prices : List ℚ) (horizon : ℕ) (roundTripCostBps marginBps : ℚ) (row : SampleRow),
      row.index + horizon < prices.length →
        gridClass prices horizon roundTripCostBps marginBps row.index =
          (some ·.label) <$> relabelRow prices horizon roundTripCostBps marginBps row := by
  intro h
  have hagree := h [10000, 10020] 1 12 2 ⟨1, .hold, by decide⟩ (by decide)
  have hgrid : gridClass [10000, 10020] 1 12 2 0 = .ok (some .hold) := by decide +kernel
  have hlabel : (some ·.label) <$> relabelRow [10000, 10020] 1 12 2 ⟨1, .hold, by decide⟩ =
      .ok (some .long) := by decide +kernel
  exact absurd (hgrid.symm.trans (hagree.trans hlabel)) (by decide)

end Scripts

end Astra.Labels
