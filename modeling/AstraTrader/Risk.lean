import AstraTrader.Ledger.Unbounded

/-! `RiskEngine` of `risk.cpp`: the checks a request passes before an order is stored. -/

namespace Astra
open FixedWidth

structure RiskLimits where
  maximumOrderQuantityUnits : Int64 := 0
  maximumOrderNotionalUnits : Int64 := 0
  maximumAbsolutePositionUnits : Int64 := 0
  maximumDataAgeNs : Int64 := 0
  maximumSpreadPpm : UInt32 := 0
  maximumDrawdownUnits : Int64 := 0
  deriving DecidableEq

inductive RiskDecision
  | accept | invalidMarket | staleMarket | invalidQuantity | orderLimit | positionLimit
  | spreadLimit | drawdownLimit | reduceOnlyViolation
  deriving DecidableEq, Repr

def RiskDecision.toString : RiskDecision → String
  | .accept => "accept"
  | .invalidMarket => "invalid_market"
  | .staleMarket => "stale_market"
  | .invalidQuantity => "invalid_quantity"
  | .orderLimit => "order_limit"
  | .positionLimit => "position_limit"
  | .spreadLimit => "spread_limit"
  | .drawdownLimit => "drawdown_limit"
  | .reduceOnlyViolation => "reduce_only_violation"

/-- The price a taker meets. -/
def MarketEvent.touch (event : MarketEvent) : Side → Int64
  | .buy => event.bestAskUnits
  | .sell => event.bestBidUnits

def wide32 (value : UInt32) : Wide := Int128.ofInt value.toNat

/-- Price times quantity brought to account units, with no overflow check: the tail that
`account_notional` and `calculate_notional` share. The scales are bytes, and so is the
exponent handed to `power_of_ten`. -/
def accountUnits (config : LedgerConfig) (value : Wide) : Wide :=
  let sourceScale := config.priceScale.toNat + config.quantityScale.toNat
  let accountScale := config.accountScale.toNat
  if accountScale < sourceScale then
    value / powerOfTen (UInt8.ofNat (sourceScale - accountScale)).toNat
  else if sourceScale < accountScale then
    value * powerOfTen (UInt8.ofNat (accountScale - sourceScale)).toNat
  else value

structure RiskEngine where
  limits : RiskLimits
  ledgerConfig : LedgerConfig
  deriving DecidableEq

namespace RiskEngine

def magnitude (value : Wide) : Wide := if value < 0 then -value else value

/-- The price at which a request is valued. -/
def referencePrice (request : OrderRequest) (market : MarketEvent) : Int64 :=
  request.limitPriceUnits.getD (market.touch request.side)

def accountNotional (request : OrderRequest) (market : MarketEvent) (config : LedgerConfig) :
    Wide :=
  accountUnits config
    (magnitude (wide request.quantityUnits) * wide (referencePrice request market))

def projected (request : OrderRequest) (ledger : LedgerState) : Wide :=
  let delta := match request.side with
    | .buy => wide request.quantityUnits
    | .sell => -wide request.quantityUnits
  wide ledger.positionUnits + delta

def reduceOnlyViolated (request : OrderRequest) (ledger : LedgerState) : Prop :=
  let projected := projected request ledger
  ledger.positionUnits = 0 ∨ magnitude (wide ledger.positionUnits) ≤ magnitude projected ∨
    projected ≠ 0 ∧ (decide (0 < projected) ≠ decide (0 < ledger.positionUnits))

instance (request : OrderRequest) (ledger : LedgerState) :
    Decidable (reduceOnlyViolated request ledger) := inferInstanceAs (Decidable (_ ∨ _))

def spreadPpm (market : MarketEvent) : Wide :=
  let midpoint := (wide market.bestBidUnits + wide market.bestAskUnits) / 2
  wide (market.bestAskUnits - market.bestBidUnits) * 1000000 / midpoint

def netPnl (ledger : LedgerState) : Wide :=
  wide ledger.realizedPnlUnits + wide ledger.unrealizedPnlUnits - wide ledger.totalFeeUnits

/-- A limit of zero is switched off. -/
def evaluate (risk : RiskEngine) (request : OrderRequest) (market : MarketEvent)
    (ledger : LedgerState) (decisionTimeNs : Int64) : RiskDecision :=
  let limits := risk.limits
  if market.bestBidUnits ≤ 0 ∨ market.bestAskUnits < market.bestBidUnits then .invalidMarket
  else if 0 < limits.maximumDataAgeNs ∧ (decisionTimeNs < market.receiveTimeNs ∨
      limits.maximumDataAgeNs < decisionTimeNs - market.receiveTimeNs) then .staleMarket
  else if request.quantityUnits ≤ 0 then .invalidQuantity
  else if 0 < limits.maximumOrderQuantityUnits ∧
      limits.maximumOrderQuantityUnits < request.quantityUnits then .orderLimit
  else if 0 < limits.maximumOrderNotionalUnits ∧
      wide limits.maximumOrderNotionalUnits <
        accountNotional request market risk.ledgerConfig then .orderLimit
  else if 0 < limits.maximumAbsolutePositionUnits ∧
      wide limits.maximumAbsolutePositionUnits <
        magnitude (projected request ledger) then .positionLimit
  else if request.reduceOnly ∧ reduceOnlyViolated request ledger then .reduceOnlyViolation
  else if 0 < limits.maximumSpreadPpm ∧
      wide32 limits.maximumSpreadPpm < spreadPpm market then .spreadLimit
  else if 0 < limits.maximumDrawdownUnits ∧
      netPnl ledger < wide (-limits.maximumDrawdownUnits) then .drawdownLimit
  else .accept

theorem passed_of_ite_eq {failed : Prop} [Decidable failed] {verdict rest result : RiskDecision}
    (hne : verdict ≠ result) (h : (if failed then verdict else rest) = result) :
    ¬ failed ∧ rest = result := by
  by_cases hfailed : failed
  · rw [if_pos hfailed] at h
    exact absurd h hne
  · rw [if_neg hfailed] at h
    exact ⟨hfailed, h⟩

/-- What an accepted request has passed. -/
structure Accepts (risk : RiskEngine) (request : OrderRequest) (market : MarketEvent)
    (ledger : LedgerState) : Prop where
  quantity : 0 < request.quantityUnits
  orderQuantity : 0 < risk.limits.maximumOrderQuantityUnits →
    request.quantityUnits ≤ risk.limits.maximumOrderQuantityUnits
  orderNotional : 0 < risk.limits.maximumOrderNotionalUnits →
    accountNotional request market risk.ledgerConfig ≤ wide risk.limits.maximumOrderNotionalUnits
  position : 0 < risk.limits.maximumAbsolutePositionUnits →
    magnitude (projected request ledger) ≤ wide risk.limits.maximumAbsolutePositionUnits
  reduceOnly : request.reduceOnly = true → ¬ reduceOnlyViolated request ledger

theorem accepts_of_evaluate_eq_accept {risk : RiskEngine} {request : OrderRequest}
    {market : MarketEvent} {ledger : LedgerState} {decisionTimeNs : Int64}
    (h : risk.evaluate request market ledger decisionTimeNs = .accept) :
    risk.Accepts request market ledger := by
  unfold evaluate at h
  dsimp only at h
  obtain ⟨_, h⟩ := passed_of_ite_eq (by decide) h
  obtain ⟨_, h⟩ := passed_of_ite_eq (by decide) h
  obtain ⟨hquantity, h⟩ := passed_of_ite_eq (by decide) h
  obtain ⟨horder, h⟩ := passed_of_ite_eq (by decide) h
  obtain ⟨hnotional, h⟩ := passed_of_ite_eq (by decide) h
  obtain ⟨hposition, h⟩ := passed_of_ite_eq (by decide) h
  obtain ⟨hreduce, h⟩ := passed_of_ite_eq (by decide) h
  refine ⟨Int64.not_le.mp hquantity, fun hpos => ?_, fun hpos => ?_, fun hpos => ?_,
    fun hflag hviolated => hreduce ⟨hflag, hviolated⟩⟩
  · exact Int64.not_lt.mp fun hlt => horder ⟨hpos, hlt⟩
  · exact Int128.le_of_not_lt fun hlt => hnotional ⟨hpos, hlt⟩
  · exact Int128.le_of_not_lt fun hlt => hposition ⟨hpos, hlt⟩

theorem toInt_projected (request : OrderRequest) (ledger : LedgerState) :
    (projected request ledger).toInt = ledger.positionUnits.toInt +
      request.side.sign * request.quantityUnits.toInt := by
  have hlo := ledger.positionUnits.le_toInt
  have hhi := ledger.positionUnits.toInt_lt
  have hqlo := request.quantityUnits.le_toInt
  have hqhi := request.quantityUnits.toInt_lt
  unfold projected
  cases request.side with
  | buy =>
    rw [Side.sign, one_mul]
    exact Int128.toInt_add ⟨by simp only [toInt_wide]; omega, by simp only [toInt_wide]; omega⟩
  | sell =>
    have hneg : (-wide request.quantityUnits).toInt = -request.quantityUnits.toInt :=
      Int128.toInt_neg ⟨by simp only [toInt_wide]; omega, by simp only [toInt_wide]; omega⟩
    dsimp only
    rw [Side.sign, neg_one_mul, Int128.toInt_add, hneg, toInt_wide]
    rw [hneg, toInt_wide]
    exact ⟨by omega, by omega⟩

theorem toInt_magnitude {value : Wide} (h : InRange128 |value.toInt|) :
    (magnitude value).toInt = |value.toInt| := by
  unfold magnitude
  split_ifs with hneg <;> rw [Int128.lt_def, Int128.toInt_zero] at hneg
  · rw [abs_of_neg hneg] at h ⊢
    exact Int128.toInt_neg h
  · rw [abs_of_nonneg (not_lt.mp hneg)]

theorem toInt_magnitude_projected (request : OrderRequest) (ledger : LedgerState) :
    (magnitude (projected request ledger)).toInt =
      |ledger.positionUnits.toInt + request.side.sign * request.quantityUnits.toInt| := by
  have hlo := ledger.positionUnits.le_toInt
  have hhi := ledger.positionUnits.toInt_lt
  have hqlo := request.quantityUnits.le_toInt
  have hqhi := request.quantityUnits.toInt_lt
  have hle : |(projected request ledger).toInt| ≤ 2 ^ 64 := by
    rw [toInt_projected, abs_le]
    cases request.side <;> simp only [Side.sign] <;> constructor <;> omega
  have hnonneg := abs_nonneg (projected request ledger).toInt
  rw [toInt_magnitude ⟨by omega, by omega⟩, toInt_projected]

theorem reduces_of_not_violated {request : OrderRequest} {ledger : LedgerState}
    (hq : 0 < request.quantityUnits.toInt) (h : ¬ reduceOnlyViolated request ledger) :
    request.side.sign * ledger.positionUnits.toInt + request.quantityUnits.toInt ≤ 0 := by
  obtain ⟨h0, hrest⟩ := not_or.mp h
  obtain ⟨hsmaller, hsign⟩ := not_or.mp hrest
  have hlt := Int128.lt_of_not_le hsmaller
  have hposition : |ledger.positionUnits.toInt| < 2 ^ 64 := by
    have hlo := ledger.positionUnits.le_toInt
    have hhi := ledger.positionUnits.toInt_lt
    rw [abs_lt]
    constructor <;> omega
  have hrange : InRange128 |(wide ledger.positionUnits).toInt| := by
    have hnonneg := abs_nonneg ledger.positionUnits.toInt
    rw [toInt_wide]
    exact ⟨by omega, by omega⟩
  rw [Int128.lt_def, toInt_magnitude_projected, toInt_magnitude hrange, toInt_wide] at hlt
  simp only [ne_eq, Int128.eq_zero_iff, Int128.lt_def, Int128.toInt_zero, int64_pos_iff,
    toInt_projected, decide_eq_decide, not_and, not_not] at hsign
  cases hside : request.side with
  | buy =>
    rw [hside, Side.sign, one_mul] at hlt hsign
    rw [Side.sign, one_mul]
    rcases abs_cases ledger.positionUnits.toInt with ⟨ha, _⟩ | ⟨ha, _⟩ <;>
      rcases abs_cases (ledger.positionUnits.toInt + request.quantityUnits.toInt) with
        ⟨hb, _⟩ | ⟨hb, _⟩ <;> rw [ha, hb] at hlt <;> omega
  | sell =>
    rw [hside, Side.sign, neg_one_mul] at hlt hsign
    rw [Side.sign, neg_one_mul]
    rcases abs_cases ledger.positionUnits.toInt with ⟨ha, _⟩ | ⟨ha, _⟩ <;>
      rcases abs_cases (ledger.positionUnits.toInt + -request.quantityUnits.toInt) with
        ⟨hb, _⟩ | ⟨hb, _⟩ <;> rw [ha, hb] at hlt <;> omega

theorem not_violated_of_reduces {request : OrderRequest} {ledger : LedgerState}
    (hq : 0 < request.quantityUnits.toInt)
    (h : request.side.sign * ledger.positionUnits.toInt + request.quantityUnits.toInt ≤ 0) :
    ¬ reduceOnlyViolated request ledger := by
  have hrange : InRange128 |(wide ledger.positionUnits).toInt| := by
    have hlo := ledger.positionUnits.le_toInt
    have hhi := ledger.positionUnits.toInt_lt
    rw [toInt_wide]
    rcases abs_cases ledger.positionUnits.toInt with ⟨ha, _⟩ | ⟨ha, _⟩ <;> rw [ha] <;>
      constructor <;> omega
  have hzero : ledger.positionUnits = 0 ↔ ledger.positionUnits.toInt = 0 := by
    rw [← Int64.toInt_inj, Int64.toInt_zero]
  simp only [reduceOnlyViolated, hzero, Int128.le_def, toInt_magnitude_projected,
    toInt_magnitude hrange, toInt_wide, ne_eq, Int128.eq_zero_iff, Int128.lt_def,
    Int128.toInt_zero, int64_pos_iff, toInt_projected, decide_eq_decide]
  cases hside : request.side with
  | buy =>
    rw [hside, Side.sign, one_mul] at h
    rw [Side.sign, one_mul, abs_of_nonpos (show ledger.positionUnits.toInt ≤ 0 by omega),
      abs_of_nonpos h]
    omega
  | sell =>
    rw [hside, Side.sign, neg_one_mul] at h
    rw [Side.sign, neg_one_mul, abs_of_nonneg (show 0 ≤ ledger.positionUnits.toInt by omega),
      abs_of_nonneg (by omega)]
    omega

end RiskEngine

end Astra
