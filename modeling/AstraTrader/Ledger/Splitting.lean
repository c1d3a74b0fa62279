import AstraTrader.Ledger.Valuation
import AstraTrader.Numeric.Lot

/-! One fill cut in two at the same price: each part may add, reduce or turn, and the roundings
of the two parts never drift further than a unit from the rounding of the whole. -/

namespace Astra

namespace Unbounded
variable {config : LedgerConfig} {state middle : LedgerState} {first second price : ℤ}

/-- Both quantities buy or both sell. -/
def SameSide (first second : ℤ) : Prop := 0 < first ∧ 0 < second ∨ first < 0 ∧ second < 0

theorem sameSide_of_sign_eq (hfirst : first ≠ 0) (h : first.sign = second.sign) :
    SameSide first second := by
  rcases lt_or_gt_of_ne hfirst with hneg | hpos
  · rw [Int.sign_eq_neg_one_of_neg hneg] at h
    exact .inr ⟨hneg, Int.sign_eq_neg_one_iff_neg.mp h.symm⟩
  · rw [Int.sign_eq_one_of_pos hpos] at h
    exact .inl ⟨hpos, Int.sign_eq_one_iff_pos.mp h.symm⟩

theorem marketValue_add_sameSide (h : SameSide first second) (hprice : 0 < price) :
    ∃ lost, 0 ≤ lost ∧ lost ≤ 1 ∧ marketValue config (first + second) price =
      marketValue config first price + marketValue config second price + first.sign * lost := by
  have hsplit : ∀ {a b : ℤ}, 0 < a → 0 < b →
      marketValue config a price + marketValue config b price ≤ marketValue config (a + b) price ∧
        marketValue config (a + b) price ≤
          marketValue config a price + marketValue config b price + 1 := by
    intro a b ha hb
    unfold marketValue
    rw [add_mul]
    exact Decimal.truncate_add_of_nonneg _ (mul_pos ha hprice).le (mul_pos hb hprice).le
  rcases h with ⟨h1, h2⟩ | ⟨h1, h2⟩
  · obtain ⟨hlo, hhi⟩ := hsplit h1 h2
    refine ⟨_, sub_nonneg.mpr hlo, sub_le_iff_le_add'.mpr hhi, ?_⟩
    rw [Int.sign_eq_one_of_pos h1]
    ring
  · obtain ⟨hlo, hhi⟩ := hsplit (neg_pos.mpr h1) (neg_pos.mpr h2)
    rw [← neg_add, marketValue_neg, marketValue_neg, marketValue_neg] at hlo hhi
    refine ⟨_, sub_nonneg.mpr hlo, sub_le_iff_le_add'.mpr hhi, ?_⟩
    rw [Int.sign_eq_neg_one_of_neg h1]
    ring

section Kinds

theorem adds_of_adds (hside : SameSide first second) (h : adds state first)
    (hmiddle : middle.position = state.position + first) :
    adds middle second ∧ adds state (first + second) := by
  have hsum : (first + second).sign = first.sign := by
    rcases hside with ⟨h1, h2⟩ | ⟨h1, h2⟩
    · rw [Int.sign_eq_one_of_pos h1, Int.sign_eq_one_of_pos (by omega)]
    · rw [Int.sign_eq_neg_one_of_neg h1, Int.sign_eq_neg_one_of_neg (by omega)]
  refine ⟨.inr ?_, h.imp_right fun hs => hs.trans hsum.symm⟩
  rw [hmiddle]
  rcases hside with ⟨h1, h2⟩ | ⟨h1, h2⟩
  · have hp : 0 ≤ state.position := by
      rcases h with h0 | hs
      · exact h0.ge
      · rw [Int.sign_eq_one_of_pos h1] at hs
        exact (Int.sign_eq_one_iff_pos.mp hs).le
    rw [Int.sign_eq_one_of_pos h2, Int.sign_eq_one_of_pos (by omega)]
  · have hp : state.position ≤ 0 := by
      rcases h with h0 | hs
      · exact h0.le
      · rw [Int.sign_eq_neg_one_of_neg h1] at hs
        exact (Int.sign_eq_neg_one_iff_neg.mp hs).le
    rw [Int.sign_eq_neg_one_of_neg h2, Int.sign_eq_neg_one_of_neg (by omega)]

/-- A turn leaves nothing on the old side, so what follows on the same side opens or adds. -/
theorem adds_of_turns (hside : SameSide first second) (h : Turns state.position first)
    (hmiddle : middle.position = state.position + first) :
    adds middle second ∧ Turns state.position (first + second) := by
  obtain ⟨⟨hp, hq⟩ | ⟨hp, hq⟩, hle⟩ := h
  · have hsecond : second < 0 := hside.elim (fun h => absurd h.1 (by omega)) And.right
    rw [abs_of_pos hp, abs_of_neg hq] at hle
    refine ⟨?_, .inl ⟨hp, by omega⟩, by rw [abs_of_pos hp, abs_of_neg (by omega)]; omega⟩
    rcases (show state.position + first ≤ 0 by omega).eq_or_lt with h0 | hneg
    · exact .inl (hmiddle.trans h0)
    · exact .inr (by rw [hmiddle, Int.sign_eq_neg_one_of_neg hneg,
        Int.sign_eq_neg_one_of_neg hsecond])
  · have hsecond : 0 < second := hside.elim And.right (fun h => absurd h.1 (by omega))
    rw [abs_of_neg hp, abs_of_pos hq] at hle
    refine ⟨?_, .inr ⟨hp, by omega⟩, by rw [abs_of_neg hp, abs_of_pos (by omega)]; omega⟩
    rcases (show 0 ≤ state.position + first by omega).eq_or_lt with h0 | hpos
    · exact .inl (hmiddle.trans h0.symm)
    · exact .inr (by rw [hmiddle, Int.sign_eq_one_of_pos hpos, Int.sign_eq_one_of_pos hsecond])

theorem kinds_of_reduces {position : ℤ} (hside : SameSide first second)
    (h : Reduces position first) :
    Reduces (position + first) second ∧ Reduces position (first + second) ∨
      Turns (position + first) second ∧ Turns position (first + second) := by
  obtain ⟨⟨hp, hq⟩ | ⟨hp, hq⟩, hlt⟩ := h
  · have hsecond : second < 0 := hside.elim (fun h => absurd h.1 (by omega)) And.right
    rw [abs_of_pos hp, abs_of_neg hq] at hlt
    unfold Reduces Turns Opposite
    rw [abs_of_pos hp, abs_of_neg hsecond, abs_of_pos (by omega : 0 < position + first),
      abs_of_neg (by omega : first + second < 0)]
    omega
  · have hsecond : 0 < second := hside.elim And.right (fun h => absurd h.1 (by omega))
    rw [abs_of_neg hp, abs_of_pos hq] at hlt
    unfold Reduces Turns Opposite
    rw [abs_of_neg hp, abs_of_pos hsecond, abs_of_neg (by omega : position + first < 0),
      abs_of_pos (by omega : 0 < first + second)]
    omega

end Kinds

theorem SameSide.abs_add (h : SameSide first second) : |first + second| = |first| + |second| := by
  rcases h with ⟨hf, hs⟩ | ⟨hf, hs⟩
  · rw [abs_of_pos hf, abs_of_pos hs, abs_of_pos (by omega)]
  · rw [abs_of_neg hf, abs_of_neg hs, abs_of_neg (by omega)]
    ring

theorem Reduces.abs_eq {position : ℤ} (h : Reduces position first) :
    |position + first| = |position| - |first| := by
  obtain ⟨⟨hp, hq⟩ | ⟨hp, hq⟩, hlt⟩ := h
  · rw [abs_of_pos hp, abs_of_neg hq] at hlt ⊢
    rw [abs_of_pos (by omega)]
    ring
  · rw [abs_of_neg hp, abs_of_pos hq] at hlt ⊢
    rw [abs_of_neg (by omega)]
    ring

/-- An open position and its cost, on either side. -/
def lotOf (position positionCost : ℤ) (hopen : position ≠ 0) : Lot where
  cost := |positionCost|
  size := |position|
  cost_nonneg := abs_nonneg _
  size_pos := abs_pos.mpr hopen

@[simp] theorem lotOf_cost {position : ℤ} (positionCost : ℤ) (hopen : position ≠ 0) :
    (lotOf position positionCost hopen).cost = |positionCost| := rfl

@[simp] theorem lotOf_size {position : ℤ} (positionCost : ℤ) (hopen : position ≠ 0) :
    (lotOf position positionCost hopen).size = |position| := rfl

theorem Reduces.ne_zero {position : ℤ} (h : Reduces position first) : position ≠ 0 := h.1.ne_zero

theorem Reduces.lt_size {position : ℤ} (h : Reduces position first) (positionCost : ℤ) :
    |first| < (lotOf position positionCost h.ne_zero).size := h.2

theorem Reduces.allocatedCost_eq {position positionCost : ℤ} (hcost : OnSide position positionCost)
    (h : Reduces position first) : allocatedCost position positionCost first =
      position.sign * (lotOf position positionCost h.ne_zero).costOf |first| := by
  rw [Unbounded.allocatedCost_eq hcost, closeQuantity, min_eq_right h.2.le]
  rfl

theorem Reduces.costLeft_eq {position positionCost : ℤ} (hcost : OnSide position positionCost)
    (h : Reduces position first) : positionCost - allocatedCost position positionCost first =
      (position + first).sign *
        ((lotOf position positionCost h.ne_zero).sell |first| (h.lt_size _)).cost := by
  rw [h.allocatedCost_eq hcost, h.sign_eq.2, Lot.sell_cost, mul_sub, lotOf_cost, ← hcost]

theorem Reduces.lotOf_left {position positionCost : ℤ} (hcost : OnSide position positionCost)
    (h : Reduces position first) :
    lotOf (position + first) (positionCost - allocatedCost position positionCost first)
        h.sign_eq.1 = (lotOf position positionCost h.ne_zero).sell |first| (h.lt_size _) := by
  apply Lot.ext
  · rw [lotOf_cost, h.costLeft_eq hcost, abs_mul, Int.abs_sign_of_ne_zero h.sign_eq.1, one_mul,
      abs_of_nonneg (Lot.cost_nonneg _)]
  · rw [lotOf_size, h.abs_eq, Lot.sell_size, lotOf_size]

theorem allocatedCost_add {position positionCost : ℤ} (hcost : OnSide position positionCost)
    (hside : SameSide first second) (h1 : Reduces position first)
    (h2 : Reduces (position + first) second) (h : Reduces position (first + second)) :
    ∃ kept, 0 ≤ kept ∧ kept ≤ 1 ∧
      allocatedCost position positionCost (first + second) =
        allocatedCost position positionCost first + allocatedCost (position + first)
          (positionCost - allocatedCost position positionCost first) second +
            position.sign * kept := by
  have hmiddle : OnSide (position + first)
      (positionCost - allocatedCost position positionCost first) := by
    rw [h1.costLeft_eq hcost]
    exact onSide_sign_mul (Lot.cost_nonneg _)
  have hsum : |first| + |second| ≤ (lotOf position positionCost h1.ne_zero).size :=
    hside.abs_add ▸ (h.lt_size positionCost).le
  obtain ⟨hlo, hhi⟩ := Lot.costOf_add_between (abs_nonneg second) (h1.lt_size positionCost) hsum
  refine ⟨_, sub_nonneg.mpr hlo, sub_le_iff_le_add'.mpr hhi, ?_⟩
  rw [h.allocatedCost_eq hcost, h2.allocatedCost_eq hmiddle, h1.lotOf_left hcost, h1.sign_eq.2,
    h1.allocatedCost_eq hcost, hside.abs_add]
  ring

/-- No difference is larger than a unit, and none is left where the digits suffice, unless
both fills reduce. -/
structure Close (config : LedgerConfig) (position first second costError realizedError : ℤ) :
    Prop where
  cost : |costError| ≤ 1
  realized : |realizedError| ≤ 1
  equity : |realizedError - costError| ≤ 1
  exact : 0 ≤ scaleGap config → ¬ (Reduces position first ∧ Reduces (position + first) second) →
    costError = 0 ∧ realizedError = 0

theorem abs_roundingError_le (a b price : ℤ) :
    |marketValue config a price + marketValue config b price - marketValue config (a + b) price|
      ≤ 1 := by
  have h := @abs_marketValue_add_le config a b price
  rw [abs_le] at h ⊢
  constructor <;> omega

theorem roundingError_eq_zero (hgap : 0 ≤ scaleGap config) (a b price : ℤ) :
    marketValue config a price + marketValue config b price - marketValue config (a + b) price =
      0 := by
  rw [marketValue_add hgap, sub_self]

/-- Only the cost differs, by the rounding of two values against one. -/
theorem Close.of_cost {position costError realizedError : ℤ} (a b price : ℤ)
    (hcost : costError = marketValue config a price + marketValue config b price -
      marketValue config (a + b) price) (hrealized : realizedError = 0) :
    Close config position first second costError realizedError := by
  subst hcost hrealized
  have hle := @abs_roundingError_le config a b price
  refine ⟨hle, by decide, ?_, fun hgap _ => ⟨roundingError_eq_zero hgap a b price, rfl⟩⟩
  rwa [zero_sub, abs_neg]

theorem Close.of_realized {position costError realizedError : ℤ} (a b price : ℤ)
    (hcost : costError = 0) (hrealized : realizedError = marketValue config a price +
      marketValue config b price - marketValue config (a + b) price) :
    Close config position first second costError realizedError := by
  subst hcost hrealized
  have hle := @abs_roundingError_le config a b price
  exact ⟨by decide, hle, by rwa [sub_zero],
    fun hgap _ => ⟨rfl, roundingError_eq_zero hgap a b price⟩⟩

/-- In two reductions the value and the cost are rounded towards the same side. -/
theorem Close.of_reductions {position costError realizedError lost kept : ℤ}
    (h1 : Reduces position first) (h2 : Reduces (position + first) second)
    (hlost : 0 ≤ lost ∧ lost ≤ 1) (hkept : 0 ≤ kept ∧ kept ≤ 1)
    (hcost : costError = position.sign * kept)
    (hrealized : realizedError = position.sign * (kept - lost)) :
    Close config position first second costError realizedError := by
  have habs : ∀ {n : ℤ}, |n| ≤ 1 → |position.sign * n| ≤ 1 := by
    intro n hn
    rwa [abs_mul, Int.abs_sign_of_ne_zero h1.1.ne_zero, one_mul]
  refine ⟨?_, ?_, ?_, fun _ hnot => absurd ⟨h1, h2⟩ hnot⟩
  · rw [hcost]
    exact habs (abs_le.mpr ⟨by omega, hkept.2⟩)
  · rw [hrealized]
    exact habs (abs_le.mpr ⟨by omega, by omega⟩)
  · rw [hrealized, hcost, ← mul_sub]
    exact habs (abs_le.mpr ⟨by omega, by omega⟩)

/-- How two fills in a row differ from one, in cost and in realized result. -/
theorem trade_split (hcost : OnSide state.position state.positionCost) (hprice : 0 < price)
    (hside : SameSide first second) (hmiddle : middle.position = state.position + first)
    (hmiddleCost : middle.positionCost = (trade config state first price).1.positionCost) :
    Close config state.position first second
      ((trade config middle second price).1.positionCost -
        (trade config state (first + second) price).1.positionCost)
      ((trade config state first price).2 + (trade config middle second price).2 -
        (trade config state (first + second) price).2) := by
  have hfirst : first ≠ 0 := by
    rcases hside with ⟨h, _⟩ | ⟨h, _⟩ <;> omega
  have hmiddleSide : OnSide middle.position middle.positionCost := by
    rw [hmiddle, hmiddleCost, ← @trade_position config state first price]
    exact trade_onSide hcost hfirst hprice.le
  have hassoc : state.position + first + second = state.position + (first + second) :=
    add_assoc _ _ _
  rcases @adds_or_reduces_or_turns state _ hfirst with hadds | hreduces | hturns
  -- two additions: their notionals against one
  · obtain ⟨hadds2, haddsWhole⟩ := adds_of_adds hside hadds hmiddle
    obtain ⟨hc1, hr1⟩ := trade_of_adds config hprice hadds
    obtain ⟨hc2, hr2⟩ := trade_of_adds config hprice hadds2
    obtain ⟨hc, hr⟩ := trade_of_adds config hprice haddsWhole
    refine .of_cost first second price ?_ ?_
    · rw [hc2, hmiddleCost, hc1, hc]
      ring
    · rw [hr1, hr2, hr]
      rfl
  · obtain ⟨hc1, hr1⟩ := trade_of_reduces config hcost hprice hreduces
    rcases kinds_of_reduces hside hreduces with ⟨hreduces2, hwhole⟩ | ⟨hturns2, hwhole⟩
    · obtain ⟨hc2, hr2⟩ := trade_of_reduces config hmiddleSide hprice
        (hmiddle ▸ hreduces2)
      obtain ⟨hc, hr⟩ := trade_of_reduces config hcost hprice hwhole
      obtain ⟨lost, hlost, hlost', hvalue⟩ :=
        @marketValue_add_sameSide config _ _ _ hside hprice
      obtain ⟨kept, hkept, hkept', halloc⟩ :=
        allocatedCost_add hcost hside hreduces hreduces2 hwhole
      rw [hmiddle, hmiddleCost, hc1] at hc2 hr2
      rw [hreduces.1.sign_eq_neg] at hvalue
      refine .of_reductions hreduces hreduces2 ⟨hlost, hlost'⟩ ⟨hkept, hkept'⟩ ?_ ?_
      · rw [hc2, hc]
        linear_combination halloc
      · rw [hr1, hr2, hr]
        linear_combination halloc + hvalue
    -- a reduction and a turn: the value of what was held, in two parts
    · obtain ⟨hc2, hr2⟩ := trade_of_turns config hmiddleSide hprice
        (hmiddle ▸ hturns2)
      obtain ⟨hc, hr⟩ := trade_of_turns config hcost hprice hwhole
      rw [hmiddle] at hc2 hr2
      refine .of_realized (state.position + first) (-first) price ?_ ?_
      · rw [hc2, hc, hassoc, sub_self]
      · rw [hr1, hr2, hr, hmiddleCost, hc1, add_neg_cancel_right, marketValue_neg]
        ring
  -- a turn and an addition: the notional of what is opened, in two parts
  · obtain ⟨hadds2, hwhole⟩ := adds_of_turns hside hturns hmiddle
    obtain ⟨hc1, hr1⟩ := trade_of_turns config hcost hprice hturns
    obtain ⟨hc2, hr2⟩ := trade_of_adds config hprice hadds2
    obtain ⟨hc, hr⟩ := trade_of_turns config hcost hprice hwhole
    refine .of_cost (state.position + first) second price ?_ ?_
    · rw [hc2, hmiddleCost, hc1, hc, hassoc]
    · rw [hr1, hr2, hr]
      ring

theorem applyFill_split (h : Balanced config state) (hprice : 0 < price)
    (hside : SameSide first second) {fee₁ fee₂ : ℤ} (hfee₁ : 0 ≤ fee₁) (hfee₂ : 0 ≤ fee₂)
    {split single : LedgerState}
    (hsplit : split = (applyFill config (applyFill config state first price fee₁).1
      second price fee₂).1)
    (hsingle : single = (applyFill config state (first + second) price (fee₁ + fee₂)).1) :
    split.position = single.position ∧ split.totalFee = single.totalFee ∧
      split.cash - single.cash = split.realizedPnl - single.realizedPnl ∧
      split.equity - single.equity = split.realizedPnl - single.realizedPnl -
        (split.positionCost - single.positionCost) ∧
      Close config state.position first second (split.positionCost - single.positionCost)
        (split.realizedPnl - single.realizedPnl) := by
  have hfirst : first ≠ 0 := by
    rcases hside with ⟨h, _⟩ | ⟨h, _⟩ <;> omega
  have hsecond : second ≠ 0 := by
    rcases hside with ⟨_, h⟩ | ⟨_, h⟩ <;> omega
  have hwhole : first + second ≠ 0 := by
    rcases hside with ⟨h, h'⟩ | ⟨h, h'⟩ <;> omega
  have hmiddle := balanced_applyFill h hfirst hprice.le hfee₁
  have hbsplit := balanced_applyFill hmiddle hsecond hprice.le hfee₂
  have hbsingle := balanced_applyFill h hwhole hprice.le (add_nonneg hfee₁ hfee₂)
  have htrade := @trade_split config _ _ _ _ price h.side hprice hside
    (applyFill_position config state first price fee₁)
    (applyFill_positionCost fee₁ h.side hfirst hprice.le)
  rw [← applyFill_positionCost fee₂ hmiddle.side hsecond hprice.le,
    ← applyFill_positionCost (fee₁ + fee₂) h.side hwhole hprice.le] at htrade
  have hposition : split.position = single.position := by
    rw [hsplit, hsingle, applyFill_position, applyFill_position, applyFill_position, add_assoc]
  have hfees : split.totalFee = single.totalFee := by
    rw [hsplit, hsingle, applyFill_totalFee, applyFill_totalFee, applyFill_totalFee, add_assoc]
  have hrealized : split.realizedPnl - single.realizedPnl =
      (trade config state first price).2 +
        (trade config (applyFill config state first price fee₁).1 second price).2 -
          (trade config state (first + second) price).2 := by
    rw [hsplit, hsingle, applyFill_realizedPnl, applyFill_realizedPnl, applyFill_realizedPnl]
    simp only [applyFill]
    ring
  rw [← hrealized, ← hsplit, ← hsingle] at htrade
  rw [← hsplit] at hbsplit
  rw [← hsingle] at hbsingle
  have hmark : split.lastMarkPrice = price := by rw [hsplit, applyFill_lastMarkPrice]
  have hmark' : single.lastMarkPrice = price := by rw [hsingle, applyFill_lastMarkPrice]
  have hcash := hbsplit.cash
  have hcash' := hbsingle.cash
  have hequity := hbsplit.equity_eq (hmark.symm ▸ hprice)
  have hequity' := hbsingle.equity_eq (hmark'.symm ▸ hprice)
  rw [hmark, hposition] at hequity
  rw [hmark'] at hequity'
  exact ⟨hposition, hfees, by omega, by omega, htrade⟩

end Unbounded

/-- What two fills in a row leave, compared with what one fill leaves. -/
structure SplitAgrees (config : LedgerConfig) (before : LedgerState) (first second : Int64)
    (split single : LedgerState) : Prop where
  position : split.positionUnits = single.positionUnits
  totalFee : split.totalFeeUnits = single.totalFeeUnits
  positionCost : |split.positionCostUnits.toInt - single.positionCostUnits.toInt| ≤ 1
  realizedPnl : |split.realizedPnlUnits.toInt - single.realizedPnlUnits.toInt| ≤ 1
  cash : |split.cashUnits.toInt - single.cashUnits.toInt| ≤ 1
  equity : |split.equityUnits.toInt - single.equityUnits.toInt| ≤ 1
  exact : config.priceScale.toNat + config.quantityScale.toNat ≤ config.accountScale.toNat →
    ¬ (Unbounded.Reduces before.positionUnits.toInt first.toInt ∧
      Unbounded.Reduces (before.positionUnits.toInt + first.toInt) second.toInt) →
    split.positionCostUnits = single.positionCostUnits ∧
      split.realizedPnlUnits = single.realizedPnlUnits ∧ split.cashUnits = single.cashUnits ∧
      split.equityUnits = single.equityUnits

/-- Splitting a fill changes the accounting by at most a unit. -/
theorem run_split (config : LedgerConfig)
    (hconfig : (PerpetualLedger.new config).configError = .ok) (calls : List LedgerCall)
    (first second whole priceUnits fee₁ fee₂ fee : Int64)
    (hsign : first.toInt.sign = second.toInt.sign)
    (hwhole : whole.toInt = first.toInt + second.toInt) (hfee : fee.toInt = fee₁.toInt + fee₂.toInt)
    (hfirst : ((PerpetualLedger.run config calls).applyFill first priceUnits fee₁).2.error = .ok)
    (hsecond : (((PerpetualLedger.run config calls).applyFill first priceUnits fee₁).1.applyFill
      second priceUnits fee₂).2.error = .ok)
    (hsingle : ((PerpetualLedger.run config calls).applyFill whole priceUnits fee).2.error = .ok) :
    SplitAgrees config (PerpetualLedger.run config calls).state first second
      (((PerpetualLedger.run config calls).applyFill first priceUnits fee₁).1.applyFill
        second priceUnits fee₂).1.state
      ((PerpetualLedger.run config calls).applyFill whole priceUnits fee).1.state := by
  have hs := PerpetualLedger.sound_run hconfig calls
  obtain ⟨hargs₁, hexact₁⟩ := hs.applyFill_exact hfirst
  obtain ⟨hargs₂, hexact₂⟩ := (hs.applyFill first priceUnits fee₁).applyFill_exact hsecond
  obtain ⟨hargs, hexact⟩ := hs.applyFill_exact hsingle
  rw [hexact₁] at hexact₂
  rw [hwhole, hfee] at hexact
  obtain ⟨hposition, hfees, hcash, hequity, hclose⟩ := Unbounded.applyFill_split hs.balancedAt
    hargs₁.price (Unbounded.sameSide_of_sign_eq hargs₁.quantity hsign) hargs₁.fee hargs₂.fee
    hexact₂ hexact
  simp only [LedgerState.toUnbounded] at hposition hfees hcash hequity hclose
  refine ⟨Int64.toInt_inj.mp hposition, Int64.toInt_inj.mp hfees, hclose.cost, hclose.realized,
    ?_, ?_, fun hscale hnot => ?_⟩
  · rw [hcash]
    exact hclose.realized
  · rw [hequity]
    exact hclose.equity
  · obtain ⟨hcost, hrealized⟩ := hclose.exact ((Unbounded.scaleGap_nonneg_iff _).mpr hscale) hnot
    rw [hrealized] at hcash
    rw [hrealized, hcost, sub_zero] at hequity
    exact ⟨Int64.toInt_inj.mp (sub_eq_zero.mp hcost), Int64.toInt_inj.mp (sub_eq_zero.mp hrealized),
      Int64.toInt_inj.mp (sub_eq_zero.mp hcash), Int64.toInt_inj.mp (sub_eq_zero.mp hequity)⟩

/-- Two reductions of a position whose cost does not divide evenly. -/
theorem run_split_reductions :
    SplitAgrees { initialCashUnits := 10000, priceScale := 1 }
      (PerpetualLedger.run { initialCashUnits := 10000, priceScale := 1 }
        [.applyFill 7 15 0]).state (-2) (-3)
      (((PerpetualLedger.run { initialCashUnits := 10000, priceScale := 1 }
        [.applyFill 7 15 0]).applyFill (-2) 13 1).1.applyFill (-3) 13 2).1.state
      ((PerpetualLedger.run { initialCashUnits := 10000, priceScale := 1 }
        [.applyFill 7 15 0]).applyFill (-5) 13 3).1.state :=
  run_split { initialCashUnits := 10000, priceScale := 1 } (by decide +kernel)
    [.applyFill 7 15 0] (-2) (-3) (-5) 13 1 2 3 (by decide) (by decide) (by decide)
    (by decide +kernel) (by decide +kernel) (by decide +kernel)

end Astra
