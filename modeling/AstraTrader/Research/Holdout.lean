import AstraTrader.Research.Report
import Mathlib.Tactic.Linarith
import Mathlib.Tactic.Positivity
import Mathlib.Tactic.FieldSimp

/-! Whether the holdout reaches the development samples. A sample is put in a split by its own
row, and labelled by the row `horizon` further on. -/

namespace Astra.Report

/-- The inputs agree wherever either of them is before the holdout. -/
def AgreeBeforeHoldout (rows other : List BookRow) : Prop :=
  other.length = rows.length ∧ ∀ (i : ℕ) (row row' : BookRow), rows[i]? = some row →
    other[i]? = some row' →
    row.timestampNs < Split.holdout2026.start ∨ row'.timestampNs < Split.holdout2026.start →
    row = row'

/-- Every development sample is labelled by a row before the holdout. -/
def LabelledBeforeHoldout (rows : List BookRow) (stride horizon : ℕ) : Prop :=
  ∀ index ∈ range 60 (rows.length - horizon) stride, ∀ row future split,
    rows[index]? = some row → rows[index + horizon]? = some future →
    splitFor row.timestampNs = some split → split ≠ .holdout2026 →
    future.timestampNs < Split.holdout2026.start

section Samples
variable {rows other : List BookRow} {stride horizon index : ℕ} {margin : ℚ} {sample : Sample}

theorem splitFor_eq_some {timestamp : ℤ} {split : Split} (h : splitFor timestamp = some split) :
    split.start ≤ timestamp ∧ timestamp ≤ split.stop := by
  have hfound := List.find?_some h
  simpa using hfound

theorem lt_of_splitFor {timestamp : ℤ} {split : Split} (h : splitFor timestamp = some split)
    (hdevelopment : split ≠ .holdout2026) : timestamp < Split.holdout2026.start := by
  have hstop := (splitFor_eq_some h).2
  cases split with
  | developmentTrain => exact hstop.trans_lt (by decide)
  | developmentValidation => exact hstop.trans_lt (by decide)
  | holdout2026 => exact absurd rfl hdevelopment

theorem sampleAt_eq_some : sampleAt rows horizon margin index = some sample ↔
    ∃ row split future, rows[index]? = some row ∧ splitFor row.timestampNs = some split ∧
      rows[index + horizon]? = some future ∧
      sample = { index, timestampNs := row.timestampNs, split
                 label := labelFor row future margin baseFeePpm baseSlippagePpm } := by
  unfold sampleAt
  simp only [Option.bind_eq_bind, Option.bind_eq_some_iff, Option.pure_def, Option.some.injEq]
  constructor
  · rintro ⟨row, hrow, split, hsplit, future, hfuture, rfl⟩
    exact ⟨row, split, future, hrow, hsplit, hfuture, rfl⟩
  · rintro ⟨row, split, future, hrow, hsplit, hfuture, rfl⟩
    exact ⟨row, hrow, split, hsplit, future, hfuture, rfl⟩

theorem AgreeBeforeHoldout.symm (h : AgreeBeforeHoldout rows other) :
    AgreeBeforeHoldout other rows :=
  ⟨h.1.symm, fun i row row' hrow hrow' hbefore => (h.2 i row' row hrow' hrow hbefore.symm).symm⟩

theorem AgreeBeforeHoldout.getElem? (h : AgreeBeforeHoldout rows other) {i : ℕ} {row : BookRow}
    (hrow : rows[i]? = some row) (hbefore : row.timestampNs < Split.holdout2026.start) :
    other[i]? = some row := by
  obtain ⟨hlt, _⟩ := List.getElem?_eq_some_iff.mp hrow
  obtain ⟨row', hother⟩ : ∃ row', other[i]? = some row' :=
    ⟨_, List.getElem?_eq_getElem (h.1.symm ▸ hlt)⟩
  rw [hother, h.2 i row _ hrow hother (.inl hbefore)]

theorem mem_grouped {split : Split} : sample ∈ grouped rows stride horizon margin split ↔
    (∃ index ∈ range 60 (rows.length - horizon) stride,
      sampleAt rows horizon margin index = some sample) ∧ sample.split = split := by
  rw [grouped, buildSamples, List.mem_filter, List.mem_filterMap, decide_eq_true_eq]

theorem AgreeBeforeHoldout.sampleAt (h : AgreeBeforeHoldout rows other)
    (hlabelled : ∀ row future split, rows[index]? = some row →
      rows[index + horizon]? = some future → splitFor row.timestampNs = some split →
      split ≠ .holdout2026 → future.timestampNs < Split.holdout2026.start)
    (hdevelopment : sample.split ≠ .holdout2026)
    (hsample : sampleAt rows horizon margin index = some sample) :
    sampleAt other horizon margin index = some sample := by
  obtain ⟨row, split, future, hrow, hsplit, hfuture, rfl⟩ := sampleAt_eq_some.mp hsample
  have hbefore := hlabelled row future split hrow hfuture hsplit hdevelopment
  exact sampleAt_eq_some.mpr ⟨row, split, future,
    h.getElem? hrow (lt_of_splitFor hsplit hdevelopment), hsplit, h.getElem? hfuture hbefore, rfl⟩

theorem grouped_eq_of_labelled (hlabelled : LabelledBeforeHoldout rows stride horizon)
    (h : AgreeBeforeHoldout rows other) {split : Split} (hdevelopment : split ≠ .holdout2026) :
    grouped other stride horizon margin split = grouped rows stride horizon margin split := by
  unfold grouped buildSamples
  rw [h.1, List.filter_filterMap, List.filter_filterMap]
  refine List.filterMap_congr fun index hindex => Option.ext fun sample => ?_
  simp only [Option.filter_eq_some_iff, decide_eq_true_eq]
  constructor
  · rintro ⟨hsample, rfl⟩
    refine ⟨h.symm.sampleAt (fun row future split hrow hfuture hsplit hsplit' => ?_)
      hdevelopment hsample, rfl⟩
    -- the row of a development sample is the same, and so the row that labels it in `rows`
    have hsame := h.symm.getElem? hrow (lt_of_splitFor hsplit hsplit')
    obtain ⟨hlt, _⟩ := List.getElem?_eq_some_iff.mp hfuture
    obtain ⟨label, hlabel⟩ : ∃ label, rows[index + horizon]? = some label :=
      ⟨_, List.getElem?_eq_getElem (h.1 ▸ hlt)⟩
    have hbefore := hlabelled index hindex row _ split hsame hlabel hsplit hsplit'
    have hother := h.getElem? hlabel hbefore
    rw [hfuture, Option.some.injEq] at hother
    rwa [hother]
  · rintro ⟨hsample, rfl⟩
    exact ⟨h.sampleAt (hlabelled index hindex) hdevelopment hsample, rfl⟩

end Samples

section Labels
variable {rows : List BookRow} {stride horizon : ℕ} {margin : ℚ} {current future : BookRow}

/-- A collapse of the bid with the ask at the old bid leaves nothing to gain either way. -/
def BookRow.collapsed (current future : BookRow) : BookRow where
  timestampNs := future.timestampNs
  bid := 1
  ask := current.bid
  bid_pos := one_pos
  bid_le_ask := current.bid_pos

/-- A rise that clears any margin. -/
def BookRow.risen (current future : BookRow) (margin : ℚ) : BookRow where
  timestampNs := future.timestampNs
  bid := current.ask * (⌈max margin 0⌉ + 3)
  ask := current.ask * (⌈max margin 0⌉ + 3)
  bid_pos := by
    have hask := current.bid_pos.trans_le current.bid_le_ask
    have hceil : (0 : ℤ) ≤ ⌈max margin 0⌉ := Int.ceil_nonneg (le_max_right _ _)
    positivity
  bid_le_ask := le_rfl

theorem labelFor_collapsed (hmargin : 0 < margin) :
    labelFor current (current.collapsed future) margin baseFeePpm baseSlippagePpm = .hold := by
  have hbid : (1 : ℚ) ≤ current.bid := by exact_mod_cast current.bid_pos
  have hask : (1 : ℚ) ≤ current.ask := by exact_mod_cast current.bid_pos.trans_le current.bid_le_ask
  have hlong : (1 : ℚ) / current.ask ≤ 1 := div_le_one_of_le₀ hask (by linarith)
  have hshort : (current.bid : ℚ) / current.bid = 1 := div_self (by linarith)
  unfold labelFor
  refine if_pos (max_le ?_ ?_)
  · simp only [BookRow.collapsed, baseFeePpm, baseSlippagePpm, Int.cast_one]
    linarith
  · simp only [BookRow.collapsed, baseFeePpm, baseSlippagePpm, hshort]
    linarith

theorem labelFor_risen :
    labelFor current (current.risen future margin) margin baseFeePpm baseSlippagePpm = .long := by
  have hbid : (0 : ℚ) < current.bid := by exact_mod_cast current.bid_pos
  have hle : (current.bid : ℚ) ≤ current.ask := by exact_mod_cast current.bid_le_ask
  have hceil : max margin 0 ≤ ⌈max margin 0⌉ := Int.le_ceil _
  have hmargin := le_max_left margin 0
  have hnonneg := le_max_right margin 0
  have hfactor : (1 : ℚ) ≤ (⌈max margin 0⌉ : ℚ) + 3 := by linarith
  have hlong : (current.ask * (⌈max margin 0⌉ + 3) : ℚ) / current.ask = ⌈max margin 0⌉ + 3 :=
    mul_div_cancel_left₀ _ (by linarith)
  have hshort : (current.bid : ℚ) / (current.ask * (⌈max margin 0⌉ + 3)) ≤ 1 := by
    refine div_le_one_of_le₀ (hle.trans ?_) (mul_nonneg (by linarith) (by linarith))
    exact le_mul_of_one_le_right (by linarith) hfactor
  unfold labelFor
  simp only [BookRow.risen, baseFeePpm, baseSlippagePpm, Int.cast_mul, Int.cast_add,
    Int.cast_ofNat, hlong]
  rw [if_neg, if_pos]
  · linarith
  · rw [not_le]
    refine lt_max_of_lt_left ?_
    linarith

theorem exists_labelFor_ne (hmargin : 0 < margin) (current future : BookRow) :
    ∃ changed : BookRow, changed.timestampNs = future.timestampNs ∧
      labelFor current changed margin baseFeePpm baseSlippagePpm ≠
        labelFor current future margin baseFeePpm baseSlippagePpm := by
  by_cases hhold : labelFor current future margin baseFeePpm baseSlippagePpm = .hold
  · exact ⟨current.risen future margin, rfl, by rw [labelFor_risen, hhold]; decide⟩
  · exact ⟨current.collapsed future, rfl, by rw [labelFor_collapsed hmargin]; exact Ne.symm hhold⟩

theorem agreeBeforeHoldout_set {j : ℕ} {changed : BookRow} (hfuture : rows[j]? = some future)
    (htime : changed.timestampNs = future.timestampNs)
    (hafter : ¬ future.timestampNs < Split.holdout2026.start) :
    AgreeBeforeHoldout rows (rows.set j changed) := by
  refine ⟨List.length_set, fun i row row' hrow hrow' hbefore => ?_⟩
  by_cases hij : j = i
  · subst hij
    obtain ⟨hlt, _⟩ := List.getElem?_eq_some_iff.mp hfuture
    rw [List.getElem?_set_self hlt, Option.some.injEq] at hrow'
    rw [hfuture, Option.some.injEq] at hrow
    subst hrow hrow'
    rw [htime, or_self] at hbefore
    exact absurd hbefore hafter
  · rw [List.getElem?_set_ne hij, hrow] at hrow'
    exact Option.some.inj hrow'

theorem labelled_of_grouped_eq (hmargin : 0 < margin)
    (h : ∀ other, AgreeBeforeHoldout rows other → ∀ split, split ≠ .holdout2026 →
      grouped other stride horizon margin split = grouped rows stride horizon margin split) :
    LabelledBeforeHoldout rows stride horizon := by
  intro index hindex row future split hrow hfuture hsplit hdevelopment
  by_contra hafter
  obtain ⟨changed, htime, hlabel⟩ := exists_labelFor_ne hmargin row future
  have hagree := agreeBeforeHoldout_set hfuture htime hafter
  obtain ⟨hlt, _⟩ := List.getElem?_eq_some_iff.mp hfuture
  -- the sample as the changed input has it is not a sample of `rows`
  have hsample : sampleAt (rows.set (index + horizon) changed) horizon margin index =
      some { index, timestampNs := row.timestampNs, split
             label := labelFor row changed margin baseFeePpm baseSlippagePpm } :=
    sampleAt_eq_some.mpr ⟨row, split, changed,
      hagree.getElem? hrow (lt_of_splitFor hsplit hdevelopment), hsplit,
      List.getElem?_set_self hlt, rfl⟩
  have hmem := mem_grouped.mpr ⟨⟨index, hagree.1.symm ▸ hindex, hsample⟩, rfl⟩
  rw [h _ hagree split hdevelopment] at hmem
  obtain ⟨⟨index', _, hsample'⟩, _⟩ := mem_grouped.mp hmem
  obtain ⟨row', split', future', hrow', _, hfuture', he⟩ := sampleAt_eq_some.mp hsample'
  obtain ⟨rfl, _, _, hlabel'⟩ := Sample.mk.injEq .. ▸ he
  rw [hrow, Option.some.injEq] at hrow'
  rw [hfuture, Option.some.injEq] at hfuture'
  subst hrow' hfuture'
  exact hlabel hlabel'

end Labels

theorem grouped_eq_iff (rows : List BookRow) (stride horizon : ℕ) (margin : ℚ)
    (hmargin : 0 < margin) :
    (∀ other, AgreeBeforeHoldout rows other → ∀ split, split ≠ .holdout2026 →
      grouped other stride horizon margin split = grouped rows stride horizon margin split) ↔
      LabelledBeforeHoldout rows stride horizon :=
  ⟨labelled_of_grouped_eq hmargin, fun hlabelled _ h _ hdevelopment =>
    grouped_eq_of_labelled hlabelled h hdevelopment⟩

/-- The last minutes of 2025, at a flat price, with the first of 2026. -/
def yearEnd : List BookRow := (List.range 62).map fun i =>
  { timestampNs := 1767221940000000000 + 60000000000 * i, bid := 10000, ask := 10001
    bid_pos := by decide, bid_le_ask := by decide }

theorem grouped_eq_iff_yearEnd :
    (∀ other, AgreeBeforeHoldout yearEnd other → ∀ split, split ≠ .holdout2026 →
      grouped other 60 1 (1 / 5000) split = grouped yearEnd 60 1 (1 / 5000) split) ↔
      LabelledBeforeHoldout yearEnd 60 1 :=
  grouped_eq_iff yearEnd 60 1 (1 / 5000) (by norm_num)

/-- A rise in the first minute of 2026 changes the label of the last sample of 2025. -/
theorem not_forall_grouped_eq : ¬ ∀ (rows other : List BookRow) (stride horizon : ℕ) (margin : ℚ),
    0 < stride → 0 < horizon → 0 < margin → AgreeBeforeHoldout rows other →
      ∀ split, split ≠ .holdout2026 →
        grouped other stride horizon margin split = grouped rows stride horizon margin split := by
  intro h
  have hsame := h yearEnd (yearEnd.set 61
    { timestampNs := 1767225600000000000, bid := 12000, ask := 12001, bid_pos := by decide
      bid_le_ask := by decide }) 60 1 (1 / 5000) (by decide) (by decide) (by norm_num)
    (agreeBeforeHoldout_set (List.getElem?_eq_getElem (by decide)) (by decide +kernel)
      (by decide +kernel)) .developmentValidation (by decide)
  exact absurd hsame (by decide +kernel)

end Astra.Report
