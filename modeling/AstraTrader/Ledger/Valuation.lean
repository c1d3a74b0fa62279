import AstraTrader.Ledger.Conservation

/-! What a signed quantity is worth at a price. A fill adds to the position, reduces it, or turns
it round; each branch is said once in these terms, and so is what the fill does to the equity. -/

namespace Astra

namespace Unbounded
variable {config : LedgerConfig} {state : LedgerState} {signedQuantity price : ℤ}

/-- A signed quantity at a price in account units, rounded towards zero. -/
def marketValue (config : LedgerConfig) (quantity price : ℤ) : ℤ :=
  Decimal.truncate (scaleGap config) (quantity * price)

theorem sign_mul_notional (hprice : 0 < price) (quantity : ℤ) :
    quantity.sign * notional config quantity price = marketValue config quantity price := by
  rw [marketValue, Decimal.truncate, Int.sign_mul, Int.sign_eq_one_of_pos hprice, mul_one,
    abs_mul, abs_of_pos hprice, notional_eq_shift hprice.le]

@[simp] theorem marketValue_zero (price : ℤ) : marketValue config 0 price = 0 := by
  simp [marketValue]

@[simp] theorem marketValue_neg (quantity price : ℤ) :
    marketValue config (-quantity) price = -marketValue config quantity price := by
  rw [marketValue, neg_mul, Decimal.truncate_neg, marketValue]

theorem abs_marketValue_add_le (a b price : ℤ) :
    |marketValue config (a + b) price - marketValue config a price - marketValue config b price|
      ≤ 1 := by
  unfold marketValue
  rw [add_mul]
  exact Decimal.abs_truncate_add_le _ _ _

theorem marketValue_add (hgap : 0 ≤ scaleGap config) (a b price : ℤ) :
    marketValue config (a + b) price =
      marketValue config a price + marketValue config b price := by
  unfold marketValue
  rw [add_mul, Decimal.truncate_add_of_scale_nonneg hgap]

/-- The fill takes away a part of the position. -/
def Reduces (position signedQuantity : ℤ) : Prop :=
  Opposite position signedQuantity ∧ |signedQuantity| < |position|

/-- The fill takes away the whole position, and maybe opens the other side. -/
def Turns (position signedQuantity : ℤ) : Prop :=
  Opposite position signedQuantity ∧ |position| ≤ |signedQuantity|

theorem adds_or_reduces_or_turns (hq : signedQuantity ≠ 0) :
    adds state signedQuantity ∨ Reduces state.position signedQuantity ∨
      Turns state.position signedQuantity := by
  by_cases hadds : adds state signedQuantity
  · exact .inl hadds
  · have hopposite := opposite_of_not_adds hq hadds
    rcases lt_or_ge |signedQuantity| |state.position| with h | h
    · exact .inr (.inl ⟨hopposite, h⟩)
    · exact .inr (.inr ⟨hopposite, h⟩)

theorem Opposite.ne_zero {position : ℤ} (h : Opposite position signedQuantity) :
    position ≠ 0 := by
  rcases h with ⟨hp, _⟩ | ⟨hp, _⟩ <;> omega

theorem Opposite.not_adds (h : Opposite state.position signedQuantity) :
    ¬ adds state signedQuantity := by
  rintro (h0 | hs)
  · exact h.ne_zero h0
  · rw [h.sign_eq_neg] at hs
    exact h.ne_zero (Int.sign_eq_zero_iff_zero.mp (by omega))

theorem Reduces.sign_eq {position : ℤ} (h : Reduces position signedQuantity) :
    position + signedQuantity ≠ 0 ∧ (position + signedQuantity).sign = position.sign := by
  obtain ⟨⟨hp, hq⟩ | ⟨hp, hq⟩, hlt⟩ := h
  · rw [abs_of_neg hq, abs_of_pos hp] at hlt
    rw [Int.sign_eq_one_of_pos hp, Int.sign_eq_one_of_pos (by omega)]
    exact ⟨by omega, rfl⟩
  · rw [abs_of_pos hq, abs_of_neg hp] at hlt
    rw [Int.sign_eq_neg_one_of_neg hp, Int.sign_eq_neg_one_of_neg (by omega)]
    exact ⟨by omega, rfl⟩

/-- What is left after a turn lies on the side of the fill, if anything is left. -/
theorem Turns.sign_ne {position : ℤ} (h : Turns position signedQuantity)
    (h0 : position + signedQuantity ≠ 0) : (position + signedQuantity).sign ≠ position.sign := by
  obtain ⟨⟨hp, hq⟩ | ⟨hp, hq⟩, hle⟩ := h
  · rw [abs_of_neg hq, abs_of_pos hp] at hle
    rw [Int.sign_eq_one_of_pos hp, Int.sign_eq_neg_one_of_neg (by omega)]
    decide
  · rw [abs_of_pos hq, abs_of_neg hp] at hle
    rw [Int.sign_eq_neg_one_of_neg hp, Int.sign_eq_one_of_pos (by omega)]
    decide

section Branches
variable (config)

theorem trade_of_adds (hprice : 0 < price) (h : adds state signedQuantity) :
    (trade config state signedQuantity price).1.positionCost =
        state.positionCost + marketValue config signedQuantity price ∧
      (trade config state signedQuantity price).2 = 0 := by
  rw [trade, if_pos h, openOrAdd, sign_mul_notional hprice]
  exact ⟨rfl, rfl⟩

theorem allocatedCost_eq_sign_mul {position positionCost : ℤ} (hside : OnSide position positionCost)
    (hp : position ≠ 0) : position.sign * |allocatedCost position positionCost signedQuantity| =
      allocatedCost position positionCost signedQuantity := by
  rw [abs_allocatedCost hside hp, allocatedCost_eq hside]

theorem trade_of_reduces (hside : OnSide state.position state.positionCost) (hprice : 0 < price)
    (h : Reduces state.position signedQuantity) :
    (trade config state signedQuantity price).1.positionCost = state.positionCost -
        allocatedCost state.position state.positionCost signedQuantity ∧
      (trade config state signedQuantity price).2 = -marketValue config signedQuantity price -
        allocatedCost state.position state.positionCost signedQuantity := by
  have hclose : closeQuantity state.position signedQuantity = |signedQuantity| :=
    min_eq_right h.2.le
  have halloc := @allocatedCost_eq_sign_mul signedQuantity _ _ hside h.1.ne_zero
  have hvalue := @sign_mul_notional config price hprice signedQuantity
  rw [h.1.sign_eq_neg] at hvalue
  obtain ⟨h0, hsign⟩ := h.sign_eq
  rw [trade, if_neg h.1.not_adds]
  refine ⟨?_, ?_⟩
  · rw [closeOrReverse, costAfterClose, if_neg h0, if_pos hsign]
  · rw [closeOrReverse, realizedOnClose, hclose, notional_abs, mul_sub, halloc]
    linear_combination -hvalue

theorem trade_of_turns (hside : OnSide state.position state.positionCost) (hprice : 0 < price)
    (h : Turns state.position signedQuantity) :
    (trade config state signedQuantity price).1.positionCost =
        marketValue config (state.position + signedQuantity) price ∧
      (trade config state signedQuantity price).2 =
        marketValue config state.position price - state.positionCost := by
  have hclose : closeQuantity state.position signedQuantity = |state.position| :=
    min_eq_left h.2
  have hwhole : allocatedCost state.position state.positionCost signedQuantity =
      state.positionCost := allocatedCost_of_whole h.1.ne_zero hclose
  have hcost : state.positionCost = state.position.sign * |state.positionCost| := hside
  rw [trade, if_neg h.1.not_adds]
  refine ⟨?_, ?_⟩
  · simp only [closeOrReverse, costAfterClose]
    by_cases h0 : state.position + signedQuantity = 0
    · rw [if_pos h0, h0, marketValue_zero]
    · rw [if_neg h0, if_neg (h.sign_ne h0), sign_mul_notional hprice]
  · simp only [closeOrReverse, realizedOnClose]
    rw [hclose, notional_abs, hwhole, mul_sub, sign_mul_notional hprice, ← hcost]

end Branches

theorem turns_of_closes {position : ℤ} (hq : signedQuantity ≠ 0)
    (h : position + signedQuantity = 0) : Turns position signedQuantity := by
  have hneg : signedQuantity = -position := by omega
  refine ⟨?_, by rw [hneg, abs_neg]⟩
  rcases lt_or_gt_of_ne hq with hlt | hgt
  · exact .inl ⟨by omega, hlt⟩
  · exact .inr ⟨by omega, hgt⟩

theorem turns_of_reverses {position : ℤ} (h : position * (position + signedQuantity) < 0) :
    Turns position signedQuantity := by
  rcases mul_neg_iff.mp h with ⟨hp, hsum⟩ | ⟨hp, hsum⟩
  · refine ⟨.inl ⟨hp, by omega⟩, ?_⟩
    rw [abs_of_pos hp, abs_of_neg (by omega)]
    omega
  · refine ⟨.inr ⟨hp, by omega⟩, ?_⟩
    rw [abs_of_neg hp, abs_of_pos (by omega)]
    omega

/-! Equity. -/

/-- What a fill at the mark adds to the equity beyond its fee. -/
def gain (config : LedgerConfig) (state : LedgerState) (signedQuantity price : ℤ) : ℤ :=
  (trade config state signedQuantity price).2 -
    ((trade config state signedQuantity price).1.positionCost - state.positionCost) +
    (marketValue config (state.position + signedQuantity) price -
      marketValue config state.position price)

theorem gain_of_turns (hside : OnSide state.position state.positionCost) (hprice : 0 < price)
    (h : Turns state.position signedQuantity) : gain config state signedQuantity price = 0 := by
  obtain ⟨hcost, hrealized⟩ := trade_of_turns config hside hprice h
  rw [gain, hcost, hrealized]
  ring

theorem gain_of_not_turns (hside : OnSide state.position state.positionCost) (hprice : 0 < price)
    (hq : signedQuantity ≠ 0) (h : ¬ Turns state.position signedQuantity) :
    gain config state signedQuantity price =
      marketValue config (state.position + signedQuantity) price -
        marketValue config state.position price - marketValue config signedQuantity price := by
  rcases @adds_or_reduces_or_turns state _ hq with hadds | hreduces | hturns
  · obtain ⟨hcost, hrealized⟩ := trade_of_adds config hprice hadds
    rw [gain, hcost, hrealized]
    ring
  · obtain ⟨hcost, hrealized⟩ := trade_of_reduces config hside hprice hreduces
    rw [gain, hcost, hrealized]
    ring
  · exact absurd hturns h

theorem abs_gain_le (hside : OnSide state.position state.positionCost) (hprice : 0 < price)
    (hq : signedQuantity ≠ 0) : |gain config state signedQuantity price| ≤ 1 := by
  by_cases h : Turns state.position signedQuantity
  · rw [gain_of_turns hside hprice h]
    decide
  · rw [gain_of_not_turns hside hprice hq h]
    exact abs_marketValue_add_le _ _ _

theorem gain_eq_zero (hside : OnSide state.position state.positionCost) (hprice : 0 < price)
    (hq : signedQuantity ≠ 0) (h : 0 ≤ scaleGap config ∨ state.position = 0 ∨
      Turns state.position signedQuantity) : gain config state signedQuantity price = 0 := by
  by_cases hturns : Turns state.position signedQuantity
  · exact gain_of_turns hside hprice hturns
  · rw [gain_of_not_turns hside hprice hq hturns]
    rcases h with hgap | hflat | h
    · rw [marketValue_add hgap]
      ring
    · rw [hflat, zero_add, marketValue_zero]
      ring
    · exact absurd h hturns

theorem Balanced.equity_eq (h : Balanced config state) (hprice : 0 < state.lastMarkPrice) :
    state.equity = config.initialCashUnits.toInt + state.realizedPnl - state.totalFee +
      marketValue config state.position state.lastMarkPrice - state.positionCost := by
  have hcost : state.positionCost = state.position.sign * |state.positionCost| := h.side
  rw [h.equity, h.cash, h.unrealized, mul_sub, sign_mul_notional hprice, ← hcost]
  ring

theorem applyFill_lastMarkPrice (config : LedgerConfig) (state : LedgerState)
    (signedQuantity price fee : ℤ) :
    (applyFill config state signedQuantity price fee).1.lastMarkPrice = price := rfl

theorem Balanced.applyFill_equity (h : Balanced config state) (hprice : 0 < price)
    (hq : signedQuantity ≠ 0) {fee : ℤ} (hfee : 0 ≤ fee) :
    (applyFill config state signedQuantity price fee).1.equity =
      config.initialCashUnits.toInt + state.realizedPnl - state.totalFee +
        marketValue config state.position price - state.positionCost - fee +
          gain config state signedQuantity price := by
  have hnext := balanced_applyFill h hq hprice.le hfee
  rw [hnext.equity_eq (by rwa [applyFill_lastMarkPrice]), applyFill_lastMarkPrice,
    applyFill_realizedPnl, applyFill_totalFee, applyFill_position,
    applyFill_positionCost fee h.side hq hprice.le, gain]
  have hresult : (applyFill config state signedQuantity price fee).2 =
      (trade config state signedQuantity price).2 := rfl
  rw [hresult]
  ring

end Unbounded

namespace PerpetualLedger
variable {config : LedgerConfig} {ledger : PerpetualLedger}

theorem call_of_not_succeeds {c : LedgerCall} (h : ¬ ledger.Succeeds c) :
    ledger.call c = ledger := by
  cases c with
  | applyFill q p f =>
    rcases applyFill_cases ledger q p f with ⟨_, _, _, he⟩ | ⟨_, _, he⟩
    · exact absurd (show (ledger.applyFill q p f).2.error = .ok by rw [he]) h
    · exact congrArg Prod.fst he
  | markToMarket p =>
    rcases markToMarket_cases ledger p with ⟨_, _, he⟩ | ⟨_, _, he⟩
    · exact absurd (congrArg Prod.snd he) h
    · exact congrArg Prod.fst he

theorem Sound.lastMark_of_succeeds (h : Sound config ledger) {c : LedgerCall}
    (hc : ledger.Succeeds c) : 0 < c.priceUnits.toInt ∧
      (ledger.call c).state.lastMarkPriceUnits = c.priceUnits := by
  cases c with
  | applyFill q p f =>
    obtain ⟨hargs, hexact⟩ := h.applyFill_exact hc
    exact ⟨hargs.price,
      Int64.toInt_inj.mp (congrArg Unbounded.LedgerState.lastMarkPrice hexact)⟩
  | markToMarket p =>
    obtain ⟨hp, hexact⟩ := h.markToMarket_exact hc
    exact ⟨hp, Int64.toInt_inj.mp (congrArg Unbounded.LedgerState.lastMarkPrice hexact)⟩

/-- The last call that succeeded marked or filled at `priceUnits`. -/
def LastPriced (config : LedgerConfig) (calls : List LedgerCall) (priceUnits : Int64) : Prop :=
  ∃ before c after, calls = before ++ c :: after ∧ (run config before).Succeeds c ∧
    c.priceUnits = priceUnits ∧
    Process.AllSteps call (fun ledger c => ¬ ledger.Succeeds c) ((run config before).call c) after

theorem LastPriced.lastMark {calls : List LedgerCall} {priceUnits : Int64}
    (h : LastPriced config calls priceUnits) (hconfig : (new config).configError = .ok) :
    0 < priceUnits.toInt ∧ (run config calls).state.lastMarkPriceUnits = priceUnits := by
  obtain ⟨before, c, after, rfl, hc, rfl, hafter⟩ := h
  obtain ⟨hpos, hmark⟩ := (sound_run hconfig before).lastMark_of_succeeds hc
  have hsame : (run config (before ++ c :: after)) = (run config before).call c := by
    rw [run, List.foldl_append, List.foldl_cons]
    exact Process.run_invariant (I := fun ledger => ledger = (run config before).call c)
      (fun ledger d he hd => (call_of_not_succeeds hd).trans he) rfl hafter
  exact ⟨hpos, by rw [hsame, hmark]⟩

end PerpetualLedger

/-- The equity pays the fee and no more than a unit of rounding, which stays out with enough
account digits and when the fill opens from flat, closes exactly or reverses. -/
structure CostsTheFee (config : LedgerConfig) (before after : LedgerState)
    (feeUnits : Int64) : Prop where
  within : |after.equityUnits.toInt - (before.equityUnits.toInt - feeUnits.toInt)| ≤ 1
  exact : config.priceScale.toNat + config.quantityScale.toNat ≤ config.accountScale.toNat ∨
      before.positionUnits = 0 ∨ after.positionUnits = 0 ∨
      before.positionUnits.toInt * after.positionUnits.toInt < 0 →
    after.equityUnits.toInt = before.equityUnits.toInt - feeUnits.toInt

/-- A fill at the price of the last mark or fill costs its fee. -/
theorem run_tradesAtMark (config : LedgerConfig)
    (hconfig : (PerpetualLedger.new config).configError = .ok) (calls : List LedgerCall)
    (signedQuantityUnits priceUnits feeUnits : Int64)
    (hlast : PerpetualLedger.LastPriced config calls priceUnits)
    (hfill : ((PerpetualLedger.run config calls).applyFill signedQuantityUnits priceUnits
      feeUnits).2.error = .ok) :
    CostsTheFee config (PerpetualLedger.run config calls).state
      ((PerpetualLedger.run config calls).applyFill signedQuantityUnits priceUnits
        feeUnits).1.state feeUnits := by
  have hs := PerpetualLedger.sound_run hconfig calls
  obtain ⟨hprice, hmark⟩ := hlast.lastMark hconfig
  obtain ⟨hargs, hexact⟩ := hs.applyFill_exact hfill
  have hbalanced := hs.balancedAt
  generalize (PerpetualLedger.run config calls).state = before at hexact hbalanced hmark ⊢
  generalize ((PerpetualLedger.run config calls).applyFill signedQuantityUnits priceUnits
    feeUnits).1.state = after at hexact ⊢
  have hlastMark : before.toUnbounded.lastMarkPrice = priceUnits.toInt := congrArg Int64.toInt hmark
  have hold := hbalanced.equity_eq (hlastMark ▸ hprice)
  have hnew := hbalanced.applyFill_equity hprice hargs.quantity hargs.fee
  rw [← hexact] at hnew
  rw [hlastMark] at hold
  have hgain : after.equityUnits.toInt - (before.equityUnits.toInt - feeUnits.toInt) =
      Unbounded.gain config before.toUnbounded signedQuantityUnits.toInt priceUnits.toInt := by
    simp only [LedgerState.toUnbounded] at hnew hold ⊢
    omega
  have hposition : after.positionUnits.toInt =
      before.positionUnits.toInt + signedQuantityUnits.toInt := by
    have h := congrArg Unbounded.LedgerState.position hexact
    rwa [Unbounded.applyFill_position] at h
  refine ⟨?_, fun h => ?_⟩
  · rw [hgain]
    exact Unbounded.abs_gain_le hbalanced.side hprice hargs.quantity
  · rw [eq_zero_iff, eq_zero_iff, hposition] at h
    rw [← sub_eq_zero, hgain]
    apply Unbounded.gain_eq_zero hbalanced.side hprice hargs.quantity
    rcases h with hscale | hflat | hcloses | hreverses
    · exact .inl ((Unbounded.scaleGap_nonneg_iff _).mpr hscale)
    · exact .inr (.inl hflat)
    · exact .inr (.inr (Unbounded.turns_of_closes hargs.quantity hcloses))
    · exact .inr (.inr (Unbounded.turns_of_reverses hreverses))

/-- An addition at the mark where the rounding shows. -/
theorem run_tradesAtMark_addition :
    CostsTheFee { initialCashUnits := 10000, priceScale := 1 }
      (PerpetualLedger.run { initialCashUnits := 10000, priceScale := 1 }
        [.applyFill 3 11 0, .markToMarket 15, .applyFill 1 0 0]).state
      ((PerpetualLedger.run { initialCashUnits := 10000, priceScale := 1 }
        [.applyFill 3 11 0, .markToMarket 15, .applyFill 1 0 0]).applyFill 1 15 2).1.state 2 :=
  run_tradesAtMark { initialCashUnits := 10000, priceScale := 1 } (by decide +kernel)
    [.applyFill 3 11 0, .markToMarket 15, .applyFill 1 0 0] 1 15 2
    ⟨[.applyFill 3 11 0], .markToMarket 15, [.applyFill 1 0 0], rfl, by decide +kernel, rfl,
      by decide +kernel⟩ (by decide +kernel)

end Astra
