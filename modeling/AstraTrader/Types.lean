import AstraTrader.Numeric.Int128

/-! The records of `types.hpp`, and the 128-bit helpers that the ledger, the risk engine
and the paper exchange each keep a copy of. -/

namespace Astra
open FixedWidth

inductive Side | buy | sell
  deriving DecidableEq, Repr

/-- The direction in which a side moves the position. -/
def Side.sign : Side → ℤ
  | .buy => 1
  | .sell => -1

inductive OrderType | market | limit | postOnly
  deriving DecidableEq, Repr

inductive OrderStatus
  | pending | «open» | partiallyFilled | filled | cancelPending | cancelled | rejected
  deriving DecidableEq, Repr

def signedQuantity (side : Side) (quantity : Int64) : Int64 :=
  match side with
  | .buy => quantity
  | .sell => -quantity

structure MarketEvent where
  sequence : UInt64 := 0
  exchangeTimeNs : Int64 := 0
  receiveTimeNs : Int64 := 0
  bestBidUnits : Int64 := 0
  bestAskUnits : Int64 := 0
  bidQuantityUnits : Int64 := 0
  askQuantityUnits : Int64 := 0
  tradePriceUnits : Option Int64 := none
  tradeQuantityUnits : Int64 := 0
  aggressorSide : Option Side := none
  deriving DecidableEq

structure OrderRequest where
  clientOrderId : String
  side : Side := .buy
  type : OrderType := .market
  quantityUnits : Int64 := 0
  limitPriceUnits : Option Int64 := none
  createdTimeNs : Int64 := 0
  reduceOnly : Bool := false
  deriving DecidableEq

/-- Identifiers count stored records, so they are kept as naturals. -/
structure PaperOrder where
  orderId : ℕ := 0
  request : OrderRequest
  status : OrderStatus := .pending
  remainingQuantityUnits : Int64 := 0
  filledQuantityUnits : Int64 := 0
  queueAheadUnits : Int64 := 0
  activeTimeNs : Int64 := 0
  cancelDueTimeNs : Option Int64 := none
  rejectReason : String := ""
  deriving DecidableEq

structure PaperFill where
  fillId : ℕ := 0
  orderId : ℕ := 0
  clientOrderId : String
  marketSequence : UInt64 := 0
  exchangeTimeNs : Int64 := 0
  side : Side := .buy
  quantityUnits : Int64 := 0
  priceUnits : Int64 := 0
  feeUnits : Int64 := 0
  realizedPnlUnits : Int64 := 0
  maker : Bool := false
  deriving DecidableEq

/-- `__int128`. -/
abbrev Wide := Int128

def wide (value : Int64) : Wide := Int128.ofInt64 value

def magnitude (value : Int64) : Wide := if value < 0 then -wide value else wide value

def powerOfTen : ℕ → Wide
  | 0 => 1
  | exponent + 1 => powerOfTen exponent * 10

def fits (value : Wide) : Bool :=
  decide (Int64.minValue.toInt ≤ value.toInt ∧ value.toInt ≤ Int64.maxValue.toInt)

/-- A cast to 64 bits guarded by `fits`. -/
def narrow (value : Wide) : Option Int64 := if fits value then some value.toInt64 else none

@[simp] theorem toInt_wide (value : Int64) : (wide value).toInt = value.toInt := rfl

@[simp] theorem toInt_magnitude (value : Int64) : (magnitude value).toInt = |value.toInt| := by
  have hlo := value.le_toInt
  have hhi := value.toInt_lt
  unfold magnitude
  split_ifs with h <;> rw [Int64.lt_iff_toInt_lt, Int64.toInt_zero] at h
  · rw [Int128.toInt_neg (by rw [toInt_wide]; constructor <;> omega), abs_of_neg h, toInt_wide]
  · rw [abs_of_nonneg (not_lt.mp h), toInt_wide]

theorem toInt_signedQuantity {quantity : Int64} (h : 0 < quantity.toInt) (side : Side) :
    (signedQuantity side quantity).toInt = side.sign * quantity.toInt := by
  have hlt := quantity.toInt_lt
  cases side with
  | buy => simp [signedQuantity, Side.sign]
  | sell =>
    have hneg : (-quantity).toInt = -quantity.toInt := by
      rw [Int64.toInt_neg]
      exact Int.bmod_eq_of_le (m := 2 ^ 64) (by omega) (by omega)
    rw [signedQuantity, hneg, Side.sign, neg_one_mul]

theorem ten_pow_inRange {k : ℕ} (hk : k ≤ 36) : InRange128 (10 ^ k) := by
  have hle : (10 : ℤ) ^ k ≤ 10 ^ 36 := pow_le_pow_right₀ (by norm_num) hk
  have hpos : (0 : ℤ) < 10 ^ k := by positivity
  constructor
  · omega
  · omega

theorem toInt_powerOfTen {exponent : ℕ} (h : exponent ≤ 36) :
    (powerOfTen exponent).toInt = 10 ^ exponent := by
  induction exponent with
  | zero => rfl
  | succ n ih =>
    have hten : (10 : Wide).toInt = 10 := Int128.toInt_ofNat (by norm_num)
    have hn := ih (by omega)
    have hmul : (powerOfTen n).toInt * (10 : Wide).toInt = 10 ^ (n + 1) := by
      rw [hn, hten, pow_succ]
    rw [powerOfTen, Int128.toInt_mul (hmul ▸ ten_pow_inRange h), hmul]

@[simp] theorem fits_iff (value : Wide) : fits value = true ↔ InRange64 value.toInt := by
  simp only [fits, decide_eq_true_eq, Int64.toInt_minValue, Int64.toInt_maxValue, InRange64]
  omega

theorem narrow_eq_some {value : Wide} {result : Int64} :
    narrow value = some result ↔ result.toInt = value.toInt := by
  unfold narrow
  constructor
  · intro h
    split_ifs at h with hfit
    rw [← Option.some.inj h, Int128.toInt_toInt64 ((fits_iff _).mp hfit)]
  · intro h
    have hr : InRange64 value.toInt := h ▸ int64_inRange result
    rw [if_pos ((fits_iff _).mpr hr), Option.some.injEq, ← Int64.toInt_inj,
      Int128.toInt_toInt64 hr, h]

end Astra
