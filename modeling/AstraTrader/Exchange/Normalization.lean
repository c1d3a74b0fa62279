import AstraTrader.Exchange.Notional
import AstraTrader.Exchange.Steps

/-! Risk acceptance is downward closed in the quantity, so the order that `submit` stores, cut
down to whole steps after the risk check, would have passed that check too. -/

namespace Astra
open FixedWidth

theorem Unbounded.rescale_mono {value value' : ℤ} (sourceScale targetScale : ℕ)
    (h : value ≤ value') :
    Unbounded.rescale value sourceScale targetScale ≤
      Unbounded.rescale value' sourceScale targetScale := by
  unfold Unbounded.rescale
  split_ifs
  · exact mul_le_mul_of_nonneg_right h (Decimal.ten_pow_pos _).le
  · exact Int.tdiv_le_tdiv (Decimal.ten_pow_pos _) h

theorem scaled_between {quantity quantity' price : ℤ} {digits digits' : ℕ} (h0 : 0 ≤ quantity')
    (hle : quantity' ≤ quantity) (hdigits : digits' ≤ digits) :
    (0 ≤ price → 0 ≤ quantity' * price * 10 ^ digits' ∧
      quantity' * price * 10 ^ digits' ≤ quantity * price * 10 ^ digits) ∧
    (price ≤ 0 → quantity * price * 10 ^ digits ≤ quantity' * price * 10 ^ digits' ∧
      quantity' * price * 10 ^ digits' ≤ 0) := by
  have hpow := Decimal.ten_pow_pos digits'
  have hpows : (10 : ℤ) ^ digits' ≤ 10 ^ digits := pow_le_pow_right₀ (by norm_num) hdigits
  have hsize : quantity' * 10 ^ digits' ≤ quantity * 10 ^ digits :=
    mul_le_mul hle hpows hpow.le (h0.trans hle)
  have hnonneg := mul_nonneg h0 hpow.le
  rw [mul_right_comm quantity', mul_right_comm quantity]
  refine ⟨fun hp => ⟨mul_nonneg hnonneg hp, mul_le_mul_of_nonneg_right hsize hp⟩,
    fun hp => ⟨mul_le_mul_of_nonpos_right hsize hp, mul_nonpos_of_nonneg_of_nonpos hnonneg hp⟩⟩

namespace RiskEngine
variable {risk : RiskEngine} {request : OrderRequest} {market : MarketEvent} {ledger : LedgerState}
  {decisionTimeNs quantity : Int64}

/-- The same request for another quantity. -/
def resized (request : OrderRequest) (quantityUnits : Int64) : OrderRequest :=
  { request with quantityUnits }

theorem referencePrice_resized :
    referencePrice (resized request quantity) market = referencePrice request market := rfl

/-- The room for eighteen digits keeps the unchecked product of the engine exact. -/
theorem toInt_accountNotional_of_room (hv : risk.ledgerConfig.Valid)
    (hpos : 0 < quantity.toInt) (hle : quantity.toInt ≤ request.quantityUnits.toInt)
    (hroom : InRange128 (request.quantityUnits.toInt * (referencePrice request market).toInt *
      10 ^ 18)) :
    (accountNotional (resized request quantity) market risk.ledgerConfig).toInt =
      Unbounded.rescale (quantity.toInt * (referencePrice request market).toInt)
        (Unbounded.sourceScale risk.ledgerConfig) risk.ledgerConfig.accountScale.toNat := by
  have haccount := hv.account
  rw [toInt_accountNotional hv fun hup => ?_, referencePrice_resized, Unbounded.notional]
  · rw [resized, abs_of_pos hpos]
  · obtain ⟨hup, hdown⟩ := @scaled_between _ _ (referencePrice request market).toInt _ _ hpos.le
      hle (show risk.ledgerConfig.accountScale.toNat - Unbounded.sourceScale risk.ledgerConfig ≤ 18
        by omega)
    obtain ⟨hlo, hhi⟩ := hroom
    rw [referencePrice_resized, resized, abs_of_pos hpos]
    rcases le_total 0 (referencePrice request market).toInt with hp | hp
    · have h := hup hp
      constructor <;> omega
    · have h := hdown hp
      constructor <;> omega

theorem accountNotional_resized_le (hv : risk.ledgerConfig.Valid)
    (hpos : 0 < quantity.toInt) (hle : quantity.toInt ≤ request.quantityUnits.toInt)
    (hroom : InRange128 (request.quantityUnits.toInt * (referencePrice request market).toInt *
      10 ^ 18)) {limit : Int64} (hlimit : 0 < limit)
    (h : accountNotional request market risk.ledgerConfig ≤ wide limit) :
    accountNotional (resized request quantity) market risk.ledgerConfig ≤ wide limit := by
  have hself := @toInt_accountNotional_of_room risk request market request.quantityUnits hv
    (hpos.trans_le hle) le_rfl hroom
  rw [int64_pos_iff] at hlimit
  rw [Int128.le_def, toInt_wide] at h ⊢
  rw [toInt_accountNotional_of_room hv hpos hle hroom]
  change (accountNotional request market risk.ledgerConfig).toInt = _ at hself
  rw [hself] at h
  rcases le_total 0 (referencePrice request market).toInt with hp | hp
  · exact (Unbounded.rescale_mono _ _ (mul_le_mul_of_nonneg_right hle hp)).trans h
  · have hzero : Unbounded.rescale 0 (Unbounded.sourceScale risk.ledgerConfig)
        risk.ledgerConfig.accountScale.toNat = 0 := by simp [Unbounded.rescale]
    have hnonpos := Unbounded.rescale_mono (Unbounded.sourceScale risk.ledgerConfig)
      risk.ledgerConfig.accountScale.toNat (mul_nonpos_of_nonneg_of_nonpos hpos.le hp)
    rw [hzero] at hnonpos
    exact hnonpos.trans hlimit.le

theorem projected_resized_le (hpos : 0 < quantity.toInt)
    (hle : quantity.toInt ≤ request.quantityUnits.toInt) {limit : Int64}
    (hposition : |ledger.positionUnits.toInt| ≤ limit.toInt)
    (h : magnitude (projected request ledger) ≤ wide limit) :
    magnitude (projected (resized request quantity) ledger) ≤ wide limit := by
  rw [Int128.le_def, toInt_magnitude_projected, toInt_wide, abs_le] at h ⊢
  rw [abs_le] at hposition
  change _ ∧ _ + request.side.sign * quantity.toInt ≤ _
  cases hside : request.side with
  | buy =>
    rw [hside, Side.sign, one_mul] at h
    simp only [resized, hside, Side.sign, one_mul]
    omega
  | sell =>
    rw [hside, Side.sign, neg_one_mul] at h
    simp only [resized, hside, Side.sign, neg_one_mul]
    omega

theorem not_violated_resized (hpos : 0 < quantity.toInt)
    (hle : quantity.toInt ≤ request.quantityUnits.toInt)
    (h : ¬ reduceOnlyViolated request ledger) :
    ¬ reduceOnlyViolated (resized request quantity) ledger := by
  have hreduces := reduces_of_not_violated (hpos.trans_le hle) h
  exact not_violated_of_reduces hpos ((add_le_add_right hle _).trans hreduces)

theorem evaluate_resized (hv : risk.ledgerConfig.Valid)
    (hposition : 0 < risk.limits.maximumAbsolutePositionUnits →
      |ledger.positionUnits.toInt| ≤ risk.limits.maximumAbsolutePositionUnits.toInt)
    (hroom : InRange128 (request.quantityUnits.toInt * (referencePrice request market).toInt *
      10 ^ 18))
    (h : risk.evaluate request market ledger decisionTimeNs = .accept)
    (hpos : 0 < quantity.toInt) (hle : quantity.toInt ≤ request.quantityUnits.toInt) :
    risk.evaluate (resized request quantity) market ledger decisionTimeNs = .accept := by
  unfold evaluate at h ⊢
  dsimp only at h ⊢
  obtain ⟨hmarket, h⟩ := passed_of_ite_eq (by decide) h
  obtain ⟨hstale, h⟩ := passed_of_ite_eq (by decide) h
  obtain ⟨_, h⟩ := passed_of_ite_eq (by decide) h
  obtain ⟨horder, h⟩ := passed_of_ite_eq (by decide) h
  obtain ⟨hnotional, h⟩ := passed_of_ite_eq (by decide) h
  obtain ⟨hlimit, h⟩ := passed_of_ite_eq (by decide) h
  obtain ⟨hreduce, h⟩ := passed_of_ite_eq (by decide) h
  rw [if_neg hmarket, if_neg hstale, if_neg, if_neg, if_neg, if_neg, if_neg]
  -- spread and drawdown do not look at the request
  · exact h
  · rintro ⟨hflag, hviolated⟩
    exact not_violated_resized hpos hle (fun hv => hreduce ⟨hflag, hv⟩) hviolated
  · rintro ⟨hon, hover⟩
    refine absurd hover (Int.not_lt.mpr (projected_resized_le hpos hle (hposition hon) ?_))
    exact Int128.le_of_not_lt fun hlt => hlimit ⟨hon, hlt⟩
  · rintro ⟨hon, hover⟩
    refine absurd hover (Int.not_lt.mpr (accountNotional_resized_le hv hpos hle hroom hon ?_))
    exact Int128.le_of_not_lt fun hlt => hnotional ⟨hon, hlt⟩
  · rintro ⟨hon, hover⟩
    refine horder ⟨hon, Int64.lt_of_lt_of_le hover ?_⟩
    exact Int64.le_iff_toInt_le.mpr hle
  · rw [Int64.le_iff_toInt_le, Int64.toInt_zero]
    exact not_le.mpr hpos

end RiskEngine

namespace PaperExchange

/-- `submit` stores `order`, the last of its orders. -/
def StoredAs (exchange : PaperExchange) (request : OrderRequest) (decisionTimeNs : Int64)
    (order : PaperOrder) : Prop :=
  (exchange.submit request decisionTimeNs).1.orders = exchange.orders ++ [order]

instance (exchange : PaperExchange) (request : OrderRequest) (decisionTimeNs : Int64)
    (order : PaperOrder) : Decidable (exchange.StoredAs request decisionTimeNs order) :=
  inferInstanceAs (Decidable (_ = _))

theorem store_request (exchange : PaperExchange) (order : PaperOrder) (market : MarketEvent)
    (h : order.status = .pending) : (exchange.store order market).2.request = order.request := by
  unfold store
  split_ifs
  · exact (moves_order_eq (activate_moves (.inl h))).2
  · rfl

theorem StoredAs.resized {exchange : PaperExchange} {request : OrderRequest} {order : PaperOrder}
    {decisionTimeNs : Int64} (h : exchange.StoredAs request decisionTimeNs order) :
    (∃ market, exchange.Admitted request market decisionTimeNs) ∧ order.request =
      RiskEngine.resized request (normalized exchange.config request).quantityUnits := by
  unfold StoredAs at h
  rcases submit_cases exchange request decisionTimeNs with he | ⟨market, hadmitted, he⟩ <;>
    rw [he] at h
  · exact absurd h (by simp)
  · rw [store_eq, List.append_cancel_left_eq, List.singleton_inj] at h
    exact ⟨⟨market, hadmitted⟩, by rw [← h, store_request _ _ _ rfl]; rfl⟩

end PaperExchange

/-- Acceptance is downward closed in the quantity, and so the order that is stored for an accepted
request would have been accepted itself. -/
theorem accepted_downwardClosed (limits : RiskLimits) (ledgerConfig : LedgerConfig)
    (hconfig : (PerpetualLedger.new ledgerConfig).configError = .ok) (request : OrderRequest)
    (market : MarketEvent) (ledger : LedgerState) (decisionTimeNs : Int64)
    (hposition : 0 < limits.maximumAbsolutePositionUnits →
      |ledger.positionUnits.toInt| ≤ limits.maximumAbsolutePositionUnits.toInt)
    (hroom : InRange128 (request.quantityUnits.toInt *
      (RiskEngine.referencePrice request market).toInt * 10 ^ 18))
    (haccept : RiskEngine.evaluate ⟨limits, ledgerConfig⟩ request market ledger decisionTimeNs =
      .accept) :
    (∀ quantity : Int64, 1 ≤ quantity.toInt → quantity.toInt ≤ request.quantityUnits.toInt →
      RiskEngine.evaluate ⟨limits, ledgerConfig⟩ { request with quantityUnits := quantity } market
        ledger decisionTimeNs = .accept) ∧
    ∀ (config : PaperExchangeConfig) (calls : List ExchangeCall) (order : PaperOrder),
      config.risk = limits → config.ledger = ledgerConfig →
      (PaperExchange.run config calls).market = some market →
      (PaperExchange.run config calls).ledger.state = ledger →
      (PaperExchange.run config calls).StoredAs request decisionTimeNs order →
      RiskEngine.evaluate ⟨limits, ledgerConfig⟩ order.request market ledger decisionTimeNs =
        .accept := by
  have hv := new_configError_eq_ok.mp hconfig
  refine ⟨fun quantity hpos hle => ?_, fun config calls order _ _ _ _ hstored => ?_⟩
  · exact RiskEngine.evaluate_resized hv hposition hroom haccept hpos hle
  · obtain ⟨⟨heard, hadmitted⟩, hrequest⟩ := hstored.resized
    have hconfigured := PaperExchange.configured_run config calls
    have hpasses := PaperExchange.passes_of_refusal_eq_none hadmitted.passes
    have hleft := hpasses.quantity
    have hasked := (RiskEngine.accepts_of_evaluate_eq_accept haccept).quantity
    rw [int64_pos_iff] at hleft hasked
    have hstep := PaperExchange.quantityStep_pos
      (PaperExchange.validConfig_of_run hadmitted.configValid)
    rw [hconfigured.config_eq] at hleft hrequest
    rw [hrequest]
    exact RiskEngine.evaluate_resized hv hposition hroom haccept hleft
      (PaperExchange.normalized_le hstep hasked)

/-- A reduce-only sale of seven units, stored as four. -/
theorem accepted_downwardClosed_reduction :
    RiskEngine.evaluate
      ⟨{ maximumOrderNotionalUnits := 2000, maximumAbsolutePositionUnits := 20 },
        { initialCashUnits := 10000 }⟩
      { clientOrderId := "close", side := .sell, type := .limit, quantityUnits := 4,
        limitPriceUnits := some 105, reduceOnly := true }
      { sequence := 1, exchangeTimeNs := 1, receiveTimeNs := 1, bestBidUnits := 99,
        bestAskUnits := 101 }
      (PaperExchange.run
        { ledger := { initialCashUnits := 10000 }
          risk := { maximumOrderNotionalUnits := 2000, maximumAbsolutePositionUnits := 20 }
          quantityStepUnits := 4 }
        [.onMarketEvent { sequence := 1, exchangeTimeNs := 1, receiveTimeNs := 1,
                          bestBidUnits := 99, bestAskUnits := 101 },
          .submit { clientOrderId := "open", quantityUnits := 12 } 1]).ledger.state 1 = .accept :=
  (accepted_downwardClosed
    { maximumOrderNotionalUnits := 2000, maximumAbsolutePositionUnits := 20 }
    { initialCashUnits := 10000 } (by decide +kernel)
    { clientOrderId := "close", side := .sell, type := .limit, quantityUnits := 7,
      limitPriceUnits := some 105, reduceOnly := true }
    { sequence := 1, exchangeTimeNs := 1, receiveTimeNs := 1, bestBidUnits := 99,
      bestAskUnits := 101 }
    (PaperExchange.run
      { ledger := { initialCashUnits := 10000 }
        risk := { maximumOrderNotionalUnits := 2000, maximumAbsolutePositionUnits := 20 }
        quantityStepUnits := 4 }
      [.onMarketEvent { sequence := 1, exchangeTimeNs := 1, receiveTimeNs := 1,
                        bestBidUnits := 99, bestAskUnits := 101 },
        .submit { clientOrderId := "open", quantityUnits := 12 } 1]).ledger.state 1
    (fun _ => by decide +kernel) (by decide +kernel) (by decide +kernel)).2
    { ledger := { initialCashUnits := 10000 }
      risk := { maximumOrderNotionalUnits := 2000, maximumAbsolutePositionUnits := 20 }
      quantityStepUnits := 4 }
    [.onMarketEvent { sequence := 1, exchangeTimeNs := 1, receiveTimeNs := 1,
                      bestBidUnits := 99, bestAskUnits := 101 },
      .submit { clientOrderId := "open", quantityUnits := 12 } 1]
    { orderId := 2
      request := { clientOrderId := "close", side := .sell, type := .limit, quantityUnits := 4,
                   limitPriceUnits := some 105, reduceOnly := true }
      status := .open
      remainingQuantityUnits := 4
      activeTimeNs := 1 }
    rfl rfl (by decide +kernel) rfl (by decide +kernel)

end Astra
