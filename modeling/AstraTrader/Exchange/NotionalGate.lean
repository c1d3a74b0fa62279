import AstraTrader.Exchange.Notional
import AstraTrader.Exchange.Reconciliation

/-! The order notional limit. The risk engine values a request at the price it carries, while an
order that executes at once trades at the touch: the limit binds the execution exactly when the
first value covers the second. -/

namespace Astra
open FixedWidth

section Valuation
variable {config : LedgerConfig}

theorem Unbounded.notional_sign_mul (side : Side) (quantity price : ℤ) :
    Unbounded.notional config (side.sign * quantity) price =
      Unbounded.notional config quantity price := by
  unfold Unbounded.notional
  cases side <;> simp [Side.sign]

theorem Unbounded.notional_mono {quantity quantity' price price' : ℤ}
    (hquantity : |quantity| ≤ |quantity'|) (hprice : 0 ≤ price) (hle : price ≤ price') :
    Unbounded.notional config quantity price ≤ Unbounded.notional config quantity' price' := by
  rw [Unbounded.notional_eq_shift hprice, Unbounded.notional_eq_shift (hprice.trans hle)]
  exact Decimal.shift_mono _ (mul_le_mul hquantity hle hprice (abs_nonneg _))

/-- A product that the ledger has booked at a positive price leaves room for any 64-bit price, even
for the quantity before it was cut down to whole steps. -/
theorem scaled_inRange {quantity requested price reference : ℤ}
    (hup : Unbounded.sourceScale config < config.accountScale.toNat) (hprice : 0 < price)
    (hquantity : 0 < quantity) (hrequested : 0 < requested) (hcut : requested < 2 * quantity)
    (hbooked : InRange64 (Unbounded.notional config quantity price))
    (hreference : |reference| ≤ 2 ^ 63) :
    InRange128 (|requested| * reference *
      10 ^ (config.accountScale.toNat - Unbounded.sourceScale config)) := by
  have hpow := Decimal.ten_pow_pos (config.accountScale.toNat - Unbounded.sourceScale config)
  rw [Unbounded.notional, Unbounded.rescale, if_pos hup, abs_of_pos hquantity] at hbooked
  rw [abs_of_pos hrequested]
  generalize (10 : ℤ) ^ (config.accountScale.toNat - Unbounded.sourceScale config) = scale
    at hpow hbooked ⊢
  -- the price that was booked is at least one
  have hscaled : quantity * scale ≤ quantity * price * scale :=
    mul_le_mul_of_nonneg_right (le_mul_of_one_le_right hquantity.le hprice) hpow.le
  have hless : requested * scale < 2 ^ 64 - 1 := by
    have hwhole := mul_le_mul_of_nonneg_right (Int.add_one_le_of_lt hcut) hpow.le
    have hbound := hbooked.2
    rw [mul_assoc, add_mul, one_mul] at hwhole
    omega
  have habs : |requested * reference * scale| ≤ requested * scale * 2 ^ 63 := by
    rw [mul_right_comm, abs_mul, abs_of_pos (mul_pos hrequested hpow)]
    exact mul_le_mul_of_nonneg_left hreference (mul_pos hrequested hpow).le
  obtain ⟨hlo, hhi⟩ := abs_le.mp habs
  constructor <;> omega

end Valuation

namespace RiskEngine

/-- The engine under another order notional limit. -/
def withOrderNotional (risk : RiskEngine) (limit : Int64) : RiskEngine :=
  { risk with limits := { risk.limits with maximumOrderNotionalUnits := limit } }

theorem evaluate_withOrderNotional (risk : RiskEngine) (request : OrderRequest)
    (market : MarketEvent) (ledger : LedgerState) (decisionTimeNs : Int64) {limit : Int64}
    (hlimit : 0 < limit) :
    (risk.withOrderNotional limit).evaluate request market ledger decisionTimeNs = .accept ↔
      (risk.withOrderNotional 0).evaluate request market ledger decisionTimeNs = .accept ∧
        accountNotional request market risk.ledgerConfig ≤ wide limit := by
  unfold evaluate withOrderNotional
  dsimp only
  by_cases hgate : accountNotional request market risk.ledgerConfig ≤ wide limit
  · have hnot : ¬ wide limit < accountNotional request market risk.ledgerConfig :=
      Int.not_lt.mpr hgate
    simp only [hgate, hnot, and_false, if_false, and_true, Int64.lt_irrefl, false_and]
  -- whichever check comes first, the request is refused
  · have hover := Int128.lt_of_not_le hgate
    simp only [hgate, hover, hlimit, and_false, iff_false, and_self, if_true]
    split_ifs <;> simp

end RiskEngine

namespace PaperExchange

def withOrderNotional (exchange : PaperExchange) (limit : Int64) : PaperExchange :=
  { exchange with risk := exchange.risk.withOrderNotional limit }

/-- `submit` stores the request, and it executes on the spot. -/
def ExecutesAtOnce (exchange : PaperExchange) (request : OrderRequest) (decisionTimeNs : Int64)
    (fill : PaperFill) : Prop :=
  (exchange.submit request decisionTimeNs).1.fills = exchange.fills ++ [fill]

instance (exchange : PaperExchange) (request : OrderRequest) (decisionTimeNs : Int64)
    (fill : PaperFill) : Decidable (exchange.ExecutesAtOnce request decisionTimeNs fill) :=
  inferInstanceAs (Decidable (_ = _))

section Submission
variable {exchange : PaperExchange} {request : OrderRequest} {market : MarketEvent}
  {decisionTimeNs limit : Int64} {fill : PaperFill}

theorem refusal_withOrderNotional (hlimit : 0 < limit) :
    (exchange.withOrderNotional limit).refusal request market decisionTimeNs = none ↔
      (exchange.withOrderNotional 0).refusal request market decisionTimeNs = none ∧
        RiskEngine.accountNotional request market exchange.risk.ledgerConfig ≤ wide limit := by
  have hrisk := RiskEngine.evaluate_withOrderNotional exchange.risk request market
    exchange.ledger.state decisionTimeNs hlimit
  unfold refusal withOrderNotional
  dsimp only
  split_ifs with hname hprice h1 h2 h3 <;> simp_all

theorem ExecutesAtOnce.admitted (h : exchange.ExecutesAtOnce request decisionTimeNs fill) :
    ∃ market, exchange.Admitted request market decisionTimeNs ∧
      (exchange.store (exchange.place request decisionTimeNs) market).1.fills =
        exchange.fills ++ [fill] := by
  unfold ExecutesAtOnce at h
  rcases submit_cases exchange request decisionTimeNs with he | ⟨market, hadmitted, he⟩ <;>
    rw [he] at h
  · exact absurd h (by simp)
  · exact ⟨market, hadmitted, h⟩

theorem executesAtOnce_iff (hmarket : exchange.market = some market) :
    exchange.ExecutesAtOnce request decisionTimeNs fill ↔
      exchange.Admitted request market decisionTimeNs ∧
        (exchange.store (exchange.place request decisionTimeNs) market).1.fills =
          exchange.fills ++ [fill] := by
  constructor
  · intro h
    obtain ⟨heard, hadmitted, hfills⟩ := h.admitted
    obtain rfl := Option.some.inj (hmarket.symm.trans hadmitted.heard)
    exact ⟨hadmitted, hfills⟩
  · rintro ⟨hadmitted, hfills⟩
    rw [ExecutesAtOnce, hadmitted.submit_eq]
    exact hfills

theorem executesAtOnce_withOrderNotional (hmarket : exchange.market = some market)
    (hlimit : 0 < limit) :
    (exchange.withOrderNotional limit).ExecutesAtOnce request decisionTimeNs fill ↔
      (exchange.withOrderNotional 0).ExecutesAtOnce request decisionTimeNs fill ∧
        RiskEngine.accountNotional request market exchange.risk.ledgerConfig ≤ wide limit := by
  have hheard : ∀ limit, (exchange.withOrderNotional limit).market = some market :=
    fun _ => hmarket
  rw [executesAtOnce_iff (hheard limit), executesAtOnce_iff (hheard 0)]
  constructor
  · rintro ⟨hadmitted, hfills⟩
    obtain ⟨hpasses, hgate⟩ := (refusal_withOrderNotional hlimit).mp hadmitted.passes
    exact ⟨⟨⟨hadmitted.unknown, hadmitted.configValid, hmarket, hpasses⟩, hfills⟩, hgate⟩
  · rintro ⟨⟨hadmitted, hfills⟩, hgate⟩
    exact ⟨⟨hadmitted.unknown, hadmitted.configValid, hmarket,
      (refusal_withOrderNotional hlimit).mpr ⟨hadmitted.passes, hgate⟩⟩, hfills⟩

theorem fill_of_activate {config : PaperExchangeConfig} {event : MarketEvent} {books : Executions}
    {order : PaperOrder}
    (h : (Executions.activate config event books order).1.fills = books.fills ++ [fill]) :
    fill.quantityUnits = order.remainingQuantityUnits ∧ ∃ price fee ledger mutation,
      books.ledger.applyFill (signedQuantity order.request.side order.remainingQuantityUnits) price
        fee = (ledger, mutation) ∧ mutation.succeeded = true := by
  have hunchanged : ∀ {P : Prop}, books.fills = books.fills ++ [fill] → P :=
    fun h => absurd h (by simp)
  have hbooked : ∀ price,
      (Executions.fill config books order order.remainingQuantityUnits price false event).1.fills =
        books.fills ++ [fill] →
      fill.quantityUnits = order.remainingQuantityUnits ∧ ∃ price fee ledger mutation,
        books.ledger.applyFill (signedQuantity order.request.side order.remainingQuantityUnits)
          price fee = (ledger, mutation) ∧ mutation.succeeded = true := by
    intro price h
    rcases fill_cases config books order price false event
      (int64_min_eq_right (Int64.le_refl order.remainingQuantityUnits)) with
      ⟨_, he⟩ | ⟨reason, he⟩ | ⟨fee, ledger, mutation, _, _, hbook, hm, he⟩ <;> rw [he] at h
    · exact hunchanged h
    · exact hunchanged h
    · have hlast := List.append_cancel_left h
      rw [← List.head_eq_of_cons_eq hlast]
      exact ⟨rfl, price, fee, ledger, mutation, hbook, hm⟩
  unfold Executions.activate at h
  dsimp only at h
  split_ifs at h
  · exact hunchanged h
  · split at h
    · exact hunchanged h
    · exact hbooked _ h
  · exact hunchanged h
  · exact hbooked _ h
  · exact hunchanged h

theorem ExecutesAtOnce.valid {config : PaperExchangeConfig} {calls : List ExchangeCall}
    (h : ((run config calls).withOrderNotional limit).ExecutesAtOnce request decisionTimeNs fill) :
    validConfig config = true := by
  obtain ⟨_, hadmitted, _⟩ := h.admitted
  exact @validConfig_of_run config calls hadmitted.configValid

/-- For a request that executes, the gate computes the exact value: nothing wraps. -/
theorem ExecutesAtOnce.gate_exact {config : PaperExchangeConfig} (hs : Consistent config exchange)
    (hmarket : exchange.market = some market)
    (h : (exchange.withOrderNotional limit).ExecutesAtOnce request decisionTimeNs fill) :
    fill.quantityUnits = (normalized config request).quantityUnits ∧
      (RiskEngine.accountNotional request market config.ledger).toInt =
        Unbounded.notional config.ledger request.quantityUnits.toInt
          (RiskEngine.referencePrice request market).toInt := by
  have hheard : (exchange.withOrderNotional limit).market = some market := hmarket
  obtain ⟨hadmitted, hfills⟩ := (executesAtOnce_iff hheard).mp h
  have hpasses := passes_of_refusal_eq_none hadmitted.passes
  have hrequested := (int64_pos_iff _).mp
    (RiskEngine.accepts_of_evaluate_eq_accept hpasses.risk).quantity
  have hquantity : 0 < (normalized config request).quantityUnits.toInt := by
    rw [← int64_pos_iff, ← hs.config_eq]
    exact hpasses.quantity
  have hvalid : validConfig config = true := hs.configValid_eq.symm.trans hadmitted.configValid
  have hcut := lt_two_mul_normalized (quantityStep_pos hvalid) hrequested hquantity
  unfold store at hfills
  split_ifs at hfills
  · obtain ⟨hfill, price, fee, ledger, mutation, hbook, hm⟩ := fill_of_activate hfills
    have hwhole : ((exchange.withOrderNotional limit).place request
        decisionTimeNs).remainingQuantityUnits = (normalized config request).quantityUnits := by
      rw [← hs.config_eq]
      rfl
    rw [hwhole] at hfill hbook
    obtain ⟨hprice, hnotional⟩ := hs.booked.sound.applyFill_notional hbook hm
    have hconfig : config.ledger.Valid := hs.booked.sound.config ▸ hs.booked.sound.valid
    refine ⟨hfill, toInt_accountNotional hconfig fun hup => ?_⟩
    refine scaled_inRange hup hprice hquantity hrequested hcut ?_ (abs_toInt_le _)
    rw [toInt_signedQuantity hquantity, Unbounded.notional_sign_mul] at hnotional
    exact hnotional
  · exact absurd hfills (by simp)

end Submission

/-- The request is worth no less to the gate, at the price it carries, than the stored quantity is
at the touch; or it is worth more to the gate than any limit. -/
def GateCovers (config : PaperExchangeConfig) (request : OrderRequest) (market : MarketEvent) :
    Prop :=
  let valued := Unbounded.notional config.ledger request.quantityUnits.toInt
    (RiskEngine.referencePrice request market).toInt
  Unbounded.notional config.ledger (normalized config request).quantityUnits.toInt
    (market.touch request.side).toInt ≤ max 1 valued ∨ 2 ^ 63 ≤ valued

instance (config : PaperExchangeConfig) (request : OrderRequest) (market : MarketEvent) :
    Decidable (GateCovers config request market) := inferInstanceAs (Decidable (_ ∨ _))

theorem gateCovers_of_touch_le {config : PaperExchangeConfig} {request : OrderRequest}
    {market : MarketEvent} (hstep : 0 < config.quantityStepUnits.toInt)
    (hquantity : 0 < request.quantityUnits.toInt) (htouch : 0 ≤ (market.touch request.side).toInt)
    (hle : market.touch request.side ≤ RiskEngine.referencePrice request market) :
    GateCovers config request market := by
  rw [Int64.le_iff_toInt_le] at hle
  refine .inl (le_max_of_le_right (Unbounded.notional_mono ?_ htouch hle))
  have hnonneg : 0 ≤ (normalized config request).quantityUnits.toInt := by
    rw [toInt_normalized hstep hquantity]
    exact mul_nonneg (Int.ediv_nonneg hquantity.le hstep.le) hstep.le
  rw [abs_of_nonneg hnonneg, abs_of_pos hquantity]
  exact normalized_le hstep hquantity

section Runs
variable {config : PaperExchangeConfig} {calls : List ExchangeCall} {request : OrderRequest}
  {decisionTimeNs limit : Int64} {market : MarketEvent} {fill : PaperFill}

theorem withOrderNotional_run (config : PaperExchangeConfig) (calls : List ExchangeCall) :
    (run config calls).withOrderNotional config.risk.maximumOrderNotionalUnits =
      run config calls := by
  have hrisk := (configured_run config calls).risk_eq
  have hsame : (run config calls).risk.withOrderNotional config.risk.maximumOrderNotionalUnits =
      (run config calls).risk := by
    rw [hrisk]
    rfl
  rw [withOrderNotional, hsame]

theorem executesAtOnce_iff_le (hmarket : (run config calls).market = some market)
    (hlimit : 0 < limit) :
    ((run config calls).withOrderNotional limit).ExecutesAtOnce request decisionTimeNs fill ↔
      ((run config calls).withOrderNotional 0).ExecutesAtOnce request decisionTimeNs fill ∧
        Unbounded.notional config.ledger request.quantityUnits.toInt
          (RiskEngine.referencePrice request market).toInt ≤ limit.toInt := by
  rw [executesAtOnce_withOrderNotional hmarket hlimit, (configured_run config calls).risk_eq]
  refine and_congr_right fun hoff => ?_
  obtain ⟨_, hexact⟩ := hoff.gate_exact (consistent_run hoff.valid calls) hmarket
  rw [Int128.le_def, hexact, toInt_wide]

end Runs

/-- A limit is kept by every request it admits, whatever the limit, exactly if the gate covers the
touch; the exchange as it was configured is one of the cases. -/
theorem submit_notional_le_iff (config : PaperExchangeConfig) (calls : List ExchangeCall)
    (request : OrderRequest) (decisionTimeNs : Int64) (market : MarketEvent) (fill : PaperFill)
    (hmarket : (run config calls).market = some market) :
    let touchNotional := Unbounded.notional config.ledger fill.quantityUnits.toInt
      (market.touch request.side).toInt
    (GateCovers config request market → 0 < config.risk.maximumOrderNotionalUnits →
      (run config calls).ExecutesAtOnce request decisionTimeNs fill →
      touchNotional ≤ config.risk.maximumOrderNotionalUnits.toInt) ∧
    (((run config calls).withOrderNotional 0).ExecutesAtOnce request decisionTimeNs fill →
      ((∀ limit, 0 < limit →
        ((run config calls).withOrderNotional limit).ExecutesAtOnce request decisionTimeNs fill →
        touchNotional ≤ limit.toInt) ↔ GateCovers config request market)) := by
  intro touchNotional
  have hkept : GateCovers config request market → ∀ limit, 0 < limit →
      ((run config calls).withOrderNotional limit).ExecutesAtOnce request decisionTimeNs fill →
      touchNotional ≤ limit.toInt := by
    intro hcovers limit hlimit h
    obtain ⟨hoff, hvalued⟩ := (executesAtOnce_iff_le hmarket hlimit).mp h
    obtain ⟨hquantity, _⟩ := hoff.gate_exact (consistent_run hoff.valid calls) hmarket
    rw [int64_pos_iff] at hlimit
    rcases hcovers with hle | hover
    · rw [← hquantity] at hle
      exact hle.trans (max_le hlimit hvalued)
    · have hlt := limit.toInt_lt
      omega
  refine ⟨fun hcovers hpos h => ?_, fun hoff => ⟨fun hall => ?_, hkept⟩⟩
  · rw [← withOrderNotional_run config calls] at h
    exact hkept hcovers _ hpos h
  · obtain ⟨hquantity, _⟩ := hoff.gate_exact (consistent_run hoff.valid calls) hmarket
    refine or_iff_not_imp_right.mpr fun hunder => ?_
    rw [not_le] at hunder
    -- the smallest limit that admits the request
    have hlimit : (Int64.ofInt (max 1 (Unbounded.notional config.ledger
        request.quantityUnits.toInt (RiskEngine.referencePrice request market).toInt))).toInt =
        max 1 (Unbounded.notional config.ledger request.quantityUnits.toInt
          (RiskEngine.referencePrice request market).toInt) :=
      Int64.toInt_ofInt_of_le (by omega) (by omega)
    have hpos : 0 < Int64.ofInt (max 1 (Unbounded.notional config.ledger
        request.quantityUnits.toInt (RiskEngine.referencePrice request market).toInt)) := by
      rw [int64_pos_iff, hlimit]
      omega
    rw [← hquantity, ← hlimit]
    refine hall _ hpos ((executesAtOnce_iff_le hmarket hpos).mpr ⟨hoff, ?_⟩)
    rw [hlimit]
    exact le_max_right _ _

/-- A limit that buys above the ask is valued above what it pays. -/
theorem submit_notional_le_crossingBuy :
    let config : PaperExchangeConfig :=
      { ledger := { initialCashUnits := 10000 }, risk := { maximumOrderNotionalUnits := 515 } }
    Unbounded.notional config.ledger (5 : Int64).toInt (101 : Int64).toInt ≤
      config.risk.maximumOrderNotionalUnits.toInt :=
  (submit_notional_le_iff
    { ledger := { initialCashUnits := 10000 }, risk := { maximumOrderNotionalUnits := 515 } }
    [.onMarketEvent { sequence := 1, exchangeTimeNs := 1, receiveTimeNs := 1
                      bestBidUnits := 99, bestAskUnits := 101 }]
    { clientOrderId := "a", type := .limit, quantityUnits := 5, limitPriceUnits := some 103 } 1
    { sequence := 1, exchangeTimeNs := 1, receiveTimeNs := 1, bestBidUnits := 99
      bestAskUnits := 101 }
    { fillId := 1, orderId := 1, clientOrderId := "a", marketSequence := 1, exchangeTimeNs := 1
      quantityUnits := 5, priceUnits := 101 } (by decide +kernel)).1
    (by decide +kernel) (by decide +kernel) (by decide +kernel)

/-- A market order may carry a price, at which the gate values it: at one unit it passes a limit of
100, and buys for 505. -/
theorem not_forall_submit_notional_le : ¬ ∀ (config : PaperExchangeConfig)
    (calls : List ExchangeCall) (request : OrderRequest) (decisionTimeNs : Int64)
    (market : MarketEvent) (fill : PaperFill), validConfig config = true →
    config.acknowledgementLatencyNs = 0 → 0 < config.risk.maximumOrderNotionalUnits →
    (run config calls).market = some market →
    (run config calls).ExecutesAtOnce request decisionTimeNs fill →
    Unbounded.notional config.ledger fill.quantityUnits.toInt
      (market.touch request.side).toInt ≤ config.risk.maximumOrderNotionalUnits.toInt := by
  intro h
  have hle := h
    { ledger := { initialCashUnits := 10000 }, risk := { maximumOrderNotionalUnits := 100 } }
    [.onMarketEvent { sequence := 1, exchangeTimeNs := 1, receiveTimeNs := 1
                      bestBidUnits := 99, bestAskUnits := 101 }]
    { clientOrderId := "a", quantityUnits := 5, limitPriceUnits := some 1 } 1
    { sequence := 1, exchangeTimeNs := 1, receiveTimeNs := 1, bestBidUnits := 99
      bestAskUnits := 101 }
    { fillId := 1, orderId := 1, clientOrderId := "a", marketSequence := 1, exchangeTimeNs := 1
      quantityUnits := 5, priceUnits := 101 }
    (by decide +kernel) (by decide +kernel) (by decide +kernel) (by decide +kernel)
    (by decide +kernel)
  exact absurd hle (by decide +kernel)

end PaperExchange
end Astra
