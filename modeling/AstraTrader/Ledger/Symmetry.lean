import AstraTrader.Ledger.Refinement

/-! Long and short are mirror images: a run whose fills are all turned round keeps the prices
and the fees of the other run, and the opposite of everything that carries a side. -/

namespace Astra

namespace Unbounded
variable {config : LedgerConfig}

/-- `mirrored` is what `state` looks like from the other side of the market. -/
structure Mirrored (state mirrored : LedgerState) : Prop where
  position : mirrored.position = -state.position
  positionCost : mirrored.positionCost = -state.positionCost
  realizedPnl : mirrored.realizedPnl = -state.realizedPnl
  unrealizedPnl : mirrored.unrealizedPnl = -state.unrealizedPnl
  averageEntryPrice : mirrored.averageEntryPrice = state.averageEntryPrice
  totalFee : mirrored.totalFee = state.totalFee
  lastMarkPrice : mirrored.lastMarkPrice = state.lastMarkPrice

section Pieces
variable (position positionCost signedQuantity price : ℤ)

theorem notional_neg : notional config (-signedQuantity) price =
    notional config signedQuantity price := by
  simp only [notional, abs_neg]

theorem averageEntry_neg : averageEntry config (-position) (-positionCost) =
    averageEntry config position positionCost := by
  simp only [averageEntry, abs_neg]

theorem unrealized_neg : unrealized config (-position) (-positionCost) price =
    -unrealized config position positionCost price := by
  rw [unrealized_eq, unrealized_eq, Int.sign_neg, notional_neg, abs_neg, neg_mul]

theorem closeQuantity_neg : closeQuantity (-position) (-signedQuantity) =
    closeQuantity position signedQuantity := by
  simp only [closeQuantity, abs_neg]

theorem allocatedCost_neg : allocatedCost (-position) (-positionCost) (-signedQuantity) =
    -allocatedCost position positionCost signedQuantity := by
  simp only [allocatedCost, closeQuantity_neg, abs_neg, neg_mul, Int.neg_tdiv]

theorem realizedOnClose_neg :
    realizedOnClose config (-position) (-positionCost) (-signedQuantity) price =
      -realizedOnClose config position positionCost signedQuantity price := by
  simp only [realizedOnClose, closeQuantity_neg, allocatedCost_neg, abs_neg, Int.sign_neg, neg_mul]

theorem costAfterClose_neg :
    costAfterClose config (-position) (-positionCost) (-signedQuantity) price =
      -costAfterClose config position positionCost signedQuantity price := by
  have hsum : -position + -signedQuantity = -(position + signedQuantity) := by ring
  have hzero : -(position + signedQuantity) = 0 ↔ position + signedQuantity = 0 := neg_eq_zero
  have hsign : (-(position + signedQuantity)).sign = (-position).sign ↔
      (position + signedQuantity).sign = position.sign := by
    rw [Int.sign_neg, Int.sign_neg, neg_inj]
  simp only [costAfterClose, hsum, hzero, hsign, allocatedCost_neg, notional_neg]
  split_ifs
  · exact neg_zero.symm
  · ring
  · rw [Int.sign_neg, neg_mul]

end Pieces

section Steps
variable {state mirrored : LedgerState} {signedQuantity price : ℤ}

theorem Mirrored.adds_iff (h : Mirrored state mirrored) :
    adds mirrored (-signedQuantity) ↔ adds state signedQuantity := by
  unfold adds
  rw [h.position, neg_eq_zero, Int.sign_neg, Int.sign_neg, neg_inj]

theorem Mirrored.trade (h : Mirrored state mirrored) (signedQuantity price : ℤ) :
    Mirrored (trade config state signedQuantity price).1
        (trade config mirrored (-signedQuantity) price).1 ∧
      (trade config mirrored (-signedQuantity) price).2 =
        -(trade config state signedQuantity price).2 := by
  unfold Unbounded.trade
  by_cases hadds : adds state signedQuantity
  · rw [if_pos hadds, if_pos (h.adds_iff.mpr hadds)]
    refine ⟨{ h with position := ?_, positionCost := ?_ }, rfl⟩
    · simp only [openOrAdd, h.position]
      ring
    · simp only [openOrAdd, h.positionCost, notional_neg, Int.sign_neg]
      ring
  · rw [if_neg hadds, if_neg (mt h.adds_iff.mp hadds)]
    refine ⟨{ h with position := ?_, positionCost := ?_ }, ?_⟩
    · simp only [closeOrReverse, h.position]
      ring
    · simp only [closeOrReverse, h.position, h.positionCost, costAfterClose_neg]
    · simp only [closeOrReverse, h.position, h.positionCost, realizedOnClose_neg]

theorem Mirrored.settle (h : Mirrored state mirrored) (realized fee : ℤ) :
    Mirrored (settle state realized fee) (settle mirrored (-realized) fee) where
  position := h.position
  positionCost := h.positionCost
  realizedPnl := by
    simp only [Unbounded.settle, h.realizedPnl]
    ring
  unrealizedPnl := h.unrealizedPnl
  averageEntryPrice := h.averageEntryPrice
  totalFee := by simp only [Unbounded.settle, h.totalFee]
  lastMarkPrice := h.lastMarkPrice

theorem Mirrored.refreshAverageEntry (h : Mirrored state mirrored) :
    Mirrored (refreshAverageEntry config state) (refreshAverageEntry config mirrored) := by
  unfold Unbounded.refreshAverageEntry
  by_cases h0 : state.position = 0
  · rw [if_pos h0, if_pos (by rw [h.position, h0, neg_zero])]
    exact { h with positionCost := neg_zero.symm, averageEntryPrice := rfl }
  · rw [if_neg h0, if_neg (by rwa [h.position, neg_eq_zero])]
    refine { h with averageEntryPrice := ?_ }
    simp only [h.position, h.positionCost, averageEntry_neg]

theorem Mirrored.refreshMark (h : Mirrored state mirrored) (price : ℤ) :
    Mirrored (refreshMark config state price) (refreshMark config mirrored price) := by
  refine { h with unrealizedPnl := ?_, lastMarkPrice := rfl }
  simp only [Unbounded.refreshMark, h.position, h.positionCost, unrealized_neg]

theorem Mirrored.applyFill (h : Mirrored state mirrored) (signedQuantity price fee : ℤ) :
    Mirrored (applyFill config state signedQuantity price fee).1
      (applyFill config mirrored (-signedQuantity) price fee).1 := by
  obtain ⟨htrade, hrealized⟩ := @Mirrored.trade config _ _ h signedQuantity price
  have hsettle := htrade.settle (Unbounded.trade config state signedQuantity price).2 fee
  rw [← hrealized] at hsettle
  exact hsettle.refreshAverageEntry.refreshMark price

end Steps
end Unbounded

/-- The same call seen from the other side. -/
inductive LedgerCall.Mirrors : LedgerCall → LedgerCall → Prop
  | applyFill {quantity opposite : Int64} (priceUnits feeUnits : Int64) :
      opposite.toInt = -quantity.toInt →
      Mirrors (.applyFill quantity priceUnits feeUnits) (.applyFill opposite priceUnits feeUnits)
  | markToMarket (priceUnits : Int64) :
      Mirrors (.markToMarket priceUnits) (.markToMarket priceUnits)

/-- Long and short symmetry, field by field; `total_fee` is added back to the cash. -/
structure LedgerState.MirrorOf (config : LedgerConfig) (state mirrored : LedgerState) : Prop where
  position : mirrored.positionUnits.toInt = -state.positionUnits.toInt
  positionCost : mirrored.positionCostUnits.toInt = -state.positionCostUnits.toInt
  realizedPnl : mirrored.realizedPnlUnits.toInt = -state.realizedPnlUnits.toInt
  unrealizedPnl : mirrored.unrealizedPnlUnits.toInt = -state.unrealizedPnlUnits.toInt
  averageEntryPrice : mirrored.averageEntryPriceUnits = state.averageEntryPriceUnits
  totalFee : mirrored.totalFeeUnits = state.totalFeeUnits
  lastMarkPrice : mirrored.lastMarkPriceUnits = state.lastMarkPriceUnits
  cash : mirrored.cashUnits.toInt - config.initialCashUnits.toInt + mirrored.totalFeeUnits.toInt =
    -(state.cashUnits.toInt - config.initialCashUnits.toInt + state.totalFeeUnits.toInt)

namespace PerpetualLedger
variable {config : LedgerConfig} {ledger mirrored : PerpetualLedger}

/-- Two sound ledgers, one the image of the other. -/
structure Paired (config : LedgerConfig) (ledger mirrored : PerpetualLedger) : Prop where
  sound : Sound config ledger
  soundMirrored : Sound config mirrored
  image : Unbounded.Mirrored ledger.state.toUnbounded mirrored.state.toUnbounded

theorem paired_new (hconfig : (new config).configError = .ok) :
    Paired config (new config) (new config) := by
  have hs := sound_new hconfig
  refine ⟨hs, hs, ?_⟩
  unfold new at hconfig ⊢
  split_ifs at hconfig ⊢
  constructor <;> rfl

theorem Paired.call (h : Paired config ledger mirrored) {c d : LedgerCall}
    (hmirrors : c.Mirrors d) (hc : ledger.Succeeds c) (hd : mirrored.Succeeds d) :
    Paired config (ledger.call c) (mirrored.call d) := by
  refine ⟨h.sound.call c, h.soundMirrored.call d, ?_⟩
  cases hmirrors with
  | @applyFill quantity opposite price fee hopposite =>
    have hexact := (h.sound.applyFill_exact hc).2
    have hexact' := (h.soundMirrored.applyFill_exact hd).2
    rw [hopposite] at hexact'
    rw [PerpetualLedger.call, PerpetualLedger.call, hexact, hexact']
    exact h.image.applyFill _ _ _
  | markToMarket price =>
    have hexact := (h.sound.markToMarket_exact hc).2
    have hexact' := (h.soundMirrored.markToMarket_exact hd).2
    rw [PerpetualLedger.call, PerpetualLedger.call, hexact, hexact']
    exact h.image.refreshMark _

theorem Paired.foldl (h : Paired config ledger mirrored) {calls mirrors : List LedgerCall}
    (hmirrors : List.Forall₂ LedgerCall.Mirrors calls mirrors)
    (hcalls : Process.AllSteps PerpetualLedger.call Succeeds ledger calls)
    (hmirrored : Process.AllSteps PerpetualLedger.call Succeeds mirrored mirrors) :
    Paired config (calls.foldl PerpetualLedger.call ledger)
      (mirrors.foldl PerpetualLedger.call mirrored) := by
  induction hmirrors generalizing ledger mirrored with
  | nil => exact h
  | cons hcd _ ih => exact ih (h.call hcd hcalls.1 hmirrored.1) hcalls.2 hmirrored.2

theorem Paired.mirrorOf (h : Paired config ledger mirrored) :
    ledger.state.MirrorOf config mirrored.state where
  position := h.image.position
  positionCost := h.image.positionCost
  realizedPnl := h.image.realizedPnl
  unrealizedPnl := h.image.unrealizedPnl
  averageEntryPrice := Int64.toInt_inj.mp h.image.averageEntryPrice
  totalFee := Int64.toInt_inj.mp h.image.totalFee
  lastMarkPrice := Int64.toInt_inj.mp h.image.lastMarkPrice
  cash := by
    -- the identities say that cash is the realized result net of fees
    have hcash := h.sound.balancedAt.cash
    have hcash' := h.soundMirrored.balancedAt.cash
    have hrealized := h.image.realizedPnl
    simp only [LedgerState.toUnbounded] at hcash hcash' hrealized
    omega

end PerpetualLedger

/-- After any number of steps of two runs that mirror each other and meet no error, the one
state is the mirror image of the other. -/
theorem run_mirrored (config : LedgerConfig)
    (hconfig : (PerpetualLedger.new config).configError = .ok) {calls mirrors : List LedgerCall}
    (hmirrors : List.Forall₂ LedgerCall.Mirrors calls mirrors)
    (hcalls : Process.AllSteps PerpetualLedger.call PerpetualLedger.Succeeds
      (PerpetualLedger.new config) calls)
    (hmirrored : Process.AllSteps PerpetualLedger.call PerpetualLedger.Succeeds
      (PerpetualLedger.new config) mirrors) (steps : ℕ) :
    (PerpetualLedger.run config (calls.take steps)).state.MirrorOf config
      (PerpetualLedger.run config (mirrors.take steps)).state := by
  have htake : ∀ {whole : List LedgerCall}, Process.AllSteps PerpetualLedger.call
      PerpetualLedger.Succeeds (PerpetualLedger.new config) whole →
      Process.AllSteps PerpetualLedger.call PerpetualLedger.Succeeds
        (PerpetualLedger.new config) (whole.take steps) := by
    intro whole hwhole
    rw [← List.take_append_drop steps whole, Process.AllSteps.append] at hwhole
    exact hwhole.1
  exact ((PerpetualLedger.paired_new hconfig).foldl (List.forall₂_take steps hmirrors)
    (htake hcalls) (htake hmirrored)).mirrorOf

/-- Open, add, reduce and reverse with odd remainders. -/
theorem run_mirrored_oddRemainders :
    (PerpetualLedger.run { initialCashUnits := 10000, priceScale := 1 }
      [.applyFill 3 15 1, .markToMarket 17, .applyFill (-2) 13 0,
        .applyFill (-8) 11 2]).state.MirrorOf
      { initialCashUnits := 10000, priceScale := 1 }
      (PerpetualLedger.run { initialCashUnits := 10000, priceScale := 1 }
        [.applyFill (-3) 15 1, .markToMarket 17, .applyFill 2 13 0, .applyFill 8 11 2]).state :=
  run_mirrored { initialCashUnits := 10000, priceScale := 1 } (by decide +kernel)
    (.cons (.applyFill 15 1 (by decide)) (.cons (.markToMarket 17)
      (.cons (.applyFill 13 0 (by decide)) (.cons (.applyFill 11 2 (by decide)) .nil))))
    (by decide +kernel) (by decide +kernel) 4

end Astra
