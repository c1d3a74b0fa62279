import AstraTrader.Ledger.Model
import AstraTrader.Numeric.Decimal
import Mathlib.Algebra.Order.Ring.Abs
import Mathlib.Tactic.Ring
import Mathlib.Tactic.SplitIfs

/-! The ledger over unbounded integers: the algorithm of `PerpetualLedger` with every
range check and every cast removed, and the identities it maintains. -/

namespace Astra.Unbounded

@[ext] structure LedgerState where
  cash : ℤ := 0
  position : ℤ := 0
  positionCost : ℤ := 0
  averageEntryPrice : ℤ := 0
  realizedPnl : ℤ := 0
  unrealizedPnl : ℤ := 0
  totalFee : ℤ := 0
  equity : ℤ := 0
  lastMarkPrice : ℤ := 0
  deriving DecidableEq

def rescale (value : ℤ) (sourceScale targetScale : ℕ) : ℤ :=
  if sourceScale < targetScale then value * 10 ^ (targetScale - sourceScale)
  else value.tdiv (10 ^ (sourceScale - targetScale))

variable (config : LedgerConfig)

def sourceScale : ℕ := config.priceScale.toNat + config.quantityScale.toNat

/-- Account digits minus the digits of a price times a quantity. -/
def scaleGap : ℤ := config.accountScale.toNat - sourceScale config

theorem scaleGap_nonneg_iff : 0 ≤ scaleGap config ↔
    config.priceScale.toNat + config.quantityScale.toNat ≤ config.accountScale.toNat := by
  unfold scaleGap sourceScale
  omega

def notional (quantity price : ℤ) : ℤ :=
  rescale (|quantity| * price) (sourceScale config) config.accountScale.toNat

def unrealized (position positionCost price : ℤ) : ℤ :=
  if 0 < position then notional config position price - |positionCost|
  else if position < 0 then |positionCost| - notional config position price
  else 0

def refreshMark (candidate : LedgerState) (price : ℤ) : LedgerState :=
  let unrealizedPnl := unrealized config candidate.position candidate.positionCost price
  { candidate with
    unrealizedPnl
    equity := candidate.cash + unrealizedPnl
    lastMarkPrice := price }

def openOrAdd (candidate : LedgerState) (signedQuantity fillNotional : ℤ) : LedgerState × ℤ :=
  ({ candidate with
    position := candidate.position + signedQuantity
    positionCost := candidate.positionCost + signedQuantity.sign * fillNotional }, 0)

def closeQuantity (position signedQuantity : ℤ) : ℤ := min |position| |signedQuantity|

def allocatedCost (position positionCost signedQuantity : ℤ) : ℤ :=
  (positionCost * closeQuantity position signedQuantity).tdiv |position|

def realizedOnClose (position positionCost signedQuantity price : ℤ) : ℤ :=
  position.sign * (notional config (closeQuantity position signedQuantity) price -
    |allocatedCost position positionCost signedQuantity|)

def costAfterClose (position positionCost signedQuantity price : ℤ) : ℤ :=
  if position + signedQuantity = 0 then 0
  else if (position + signedQuantity).sign = position.sign then
    positionCost - allocatedCost position positionCost signedQuantity
  else (position + signedQuantity).sign * notional config (position + signedQuantity) price

def closeOrReverse (candidate : LedgerState) (signedQuantity price : ℤ) : LedgerState × ℤ :=
  ({ candidate with
    position := candidate.position + signedQuantity
    positionCost := costAfterClose config candidate.position candidate.positionCost
      signedQuantity price },
    realizedOnClose config candidate.position candidate.positionCost signedQuantity price)

def settle (candidate : LedgerState) (realized fee : ℤ) : LedgerState :=
  { candidate with
    cash := candidate.cash + (realized - fee)
    realizedPnl := candidate.realizedPnl + realized
    totalFee := candidate.totalFee + fee }

def averageEntry (position positionCost : ℤ) : ℤ :=
  (rescale |positionCost| config.accountScale.toNat (sourceScale config)).tdiv |position|

def refreshAverageEntry (candidate : LedgerState) : LedgerState :=
  if candidate.position = 0 then { candidate with positionCost := 0, averageEntryPrice := 0 }
  else { candidate with
    averageEntryPrice := averageEntry config candidate.position candidate.positionCost }

def adds (state : LedgerState) (signedQuantity : ℤ) : Prop :=
  state.position = 0 ∨ state.position.sign = signedQuantity.sign

instance (state : LedgerState) (signedQuantity : ℤ) : Decidable (adds state signedQuantity) :=
  inferInstanceAs (Decidable (_ ∨ _))

/-- The position and the cost after a fill, with the result it realizes. -/
def trade (state : LedgerState) (signedQuantity price : ℤ) : LedgerState × ℤ :=
  if adds state signedQuantity then
    openOrAdd state signedQuantity (notional config signedQuantity price)
  else closeOrReverse config state signedQuantity price

def applyFill (state : LedgerState) (signedQuantity price fee : ℤ) : LedgerState × ℤ :=
  let (candidate, realized) := trade config state signedQuantity price
  (refreshMark config (refreshAverageEntry config (settle candidate realized fee)) price, realized)

def initial : LedgerState :=
  { cash := config.initialCashUnits.toInt, equity := config.initialCashUnits.toInt }

section Notional
variable {config}

theorem notional_eq_shift {quantity price : ℤ} (hp : 0 ≤ price) :
    notional config quantity price = Decimal.shift (scaleGap config) (|quantity| * price) := by
  have hprod : 0 ≤ |quantity| * price := mul_nonneg (abs_nonneg _) hp
  unfold notional rescale scaleGap
  split_ifs with h
  · rw [Decimal.shift_of_nonneg (by omega)]
    congr 2
    omega
  · rw [Decimal.shift_of_nonpos (by omega), Int.tdiv_eq_ediv_of_nonneg hprod]
    congr 2
    omega

theorem notional_nonneg {quantity price : ℤ} (hp : 0 ≤ price) :
    0 ≤ notional config quantity price := by
  rw [notional_eq_shift hp]
  exact Decimal.shift_nonneg _ (mul_nonneg (abs_nonneg _) hp)

@[simp] theorem notional_zero (price : ℤ) : notional config 0 price = 0 := by
  simp [notional, rescale]

theorem notional_abs (quantity price : ℤ) :
    notional config |quantity| price = notional config quantity price := by
  simp only [notional, abs_abs]

theorem averageEntry_eq_shift (position positionCost : ℤ) :
    averageEntry config position positionCost =
      Decimal.shift (-scaleGap config) |positionCost| / |position| := by
  have hcost := abs_nonneg positionCost
  have hscale : rescale |positionCost| config.accountScale.toNat (sourceScale config) =
      Decimal.shift (-scaleGap config) |positionCost| := by
    unfold rescale scaleGap
    split_ifs with h
    · rw [Decimal.shift_of_nonneg (by omega)]
      congr 2
      omega
    · rw [Decimal.shift_of_nonpos (by omega), Int.tdiv_eq_ediv_of_nonneg hcost]
      congr 2
      omega
  rw [averageEntry, hscale, Int.tdiv_eq_ediv_of_nonneg (Decimal.shift_nonneg _ hcost)]

end Notional

/-! The identities. -/

/-- The cost basis of a position: none when flat, on the position's side otherwise. -/
def OnSide (position positionCost : ℤ) : Prop :=
  positionCost = position.sign * |positionCost|

structure Balanced (state : LedgerState) : Prop where
  cash : state.cash = config.initialCashUnits.toInt + state.realizedPnl - state.totalFee
  equity : state.equity = state.cash + state.unrealizedPnl
  unrealized : state.unrealizedPnl =
    state.position.sign *
      (notional config state.position state.lastMarkPrice - |state.positionCost|)
  side : OnSide state.position state.positionCost
  fee : 0 ≤ state.totalFee
  mark : 0 ≤ state.lastMarkPrice
  flat : state.position = 0 → state.averageEntryPrice = 0
  average : state.position ≠ 0 →
    state.averageEntryPrice = averageEntry config state.position state.positionCost

section Preservation
variable {config} {position positionCost signedQuantity price : ℤ}

/-- A fill goes against an open position. -/
def Opposite (position signedQuantity : ℤ) : Prop :=
  0 < position ∧ signedQuantity < 0 ∨ position < 0 ∧ 0 < signedQuantity

theorem opposite_of_sign_ne (hp : position ≠ 0) (hq : signedQuantity ≠ 0)
    (h : position.sign ≠ signedQuantity.sign) : Opposite position signedQuantity := by
  rcases lt_or_gt_of_ne hp with hp | hp <;> rcases lt_or_gt_of_ne hq with hq | hq
  · rw [Int.sign_eq_neg_one_of_neg hp, Int.sign_eq_neg_one_of_neg hq] at h
    exact absurd rfl h
  · exact .inr ⟨hp, hq⟩
  · exact .inl ⟨hp, hq⟩
  · rw [Int.sign_eq_one_of_pos hp, Int.sign_eq_one_of_pos hq] at h
    exact absurd rfl h

theorem unrealized_eq (position positionCost price : ℤ) :
    unrealized config position positionCost price =
      position.sign * (notional config position price - |positionCost|) := by
  unfold unrealized
  rcases lt_trichotomy position 0 with h | h | h
  · rw [if_neg (by omega), if_pos h, Int.sign_eq_neg_one_of_neg h]
    ring
  · subst h
    simp
  · rw [if_pos h, Int.sign_eq_one_of_pos h, one_mul]

theorem closeQuantity_nonneg : 0 ≤ closeQuantity position signedQuantity :=
  le_min (abs_nonneg _) (abs_nonneg _)

theorem allocatedCost_eq (h : OnSide position positionCost) :
    allocatedCost position positionCost signedQuantity = position.sign *
      (|positionCost| * closeQuantity position signedQuantity / |position|) := by
  have hnum : 0 ≤ |positionCost| * closeQuantity position signedQuantity :=
    mul_nonneg (abs_nonneg _) closeQuantity_nonneg
  rw [allocatedCost, ← Int.tdiv_eq_ediv_of_nonneg hnum]
  conv_lhs => rw [h, mul_assoc]
  rcases lt_trichotomy position 0 with hp | hp | hp
  · rw [Int.sign_eq_neg_one_of_neg hp, neg_one_mul, neg_one_mul, Int.neg_tdiv]
  · subst hp
    simp
  · rw [Int.sign_eq_one_of_pos hp, one_mul, one_mul]

theorem allocated_le (hp : position ≠ 0) :
    |positionCost| * closeQuantity position signedQuantity / |position| ≤ |positionCost| := by
  have hpos : 0 < |position| := abs_pos.mpr hp
  apply Int.ediv_le_of_le_mul hpos
  exact mul_le_mul_of_nonneg_left (min_le_left _ _) (abs_nonneg _)

theorem allocated_nonneg :
    0 ≤ |positionCost| * closeQuantity position signedQuantity / |position| :=
  Int.ediv_nonneg (mul_nonneg (abs_nonneg _) closeQuantity_nonneg) (abs_nonneg _)

theorem abs_allocatedCost (h : OnSide position positionCost) (hp : position ≠ 0) :
    |allocatedCost position positionCost signedQuantity| =
      |positionCost| * closeQuantity position signedQuantity / |position| := by
  rw [allocatedCost_eq h, abs_mul, Int.abs_sign_of_ne_zero hp, one_mul,
    abs_of_nonneg allocated_nonneg]

theorem allocatedCost_between (h : OnSide position positionCost) (hp : position ≠ 0) :
    (0 ≤ positionCost → 0 ≤ allocatedCost position positionCost signedQuantity ∧
      allocatedCost position positionCost signedQuantity ≤ positionCost) ∧
    (positionCost ≤ 0 → positionCost ≤ allocatedCost position positionCost signedQuantity ∧
      allocatedCost position positionCost signedQuantity ≤ 0) := by
  have hle := @allocated_le position positionCost signedQuantity hp
  have hnn := @allocated_nonneg position positionCost signedQuantity
  rw [allocatedCost_eq h]
  unfold OnSide at h
  rcases lt_or_gt_of_ne hp with hneg | hpos
  · rw [Int.sign_eq_neg_one_of_neg hneg] at h ⊢
    constructor <;> intro _ <;> constructor <;> omega
  · rw [Int.sign_eq_one_of_pos hpos] at h ⊢
    constructor <;> intro _ <;> constructor <;> omega

theorem onSide_sign_mul {position amount : ℤ} (h : 0 ≤ amount) :
    OnSide position (position.sign * amount) := by
  unfold OnSide
  by_cases h0 : position = 0
  · simp [h0]
  · rw [abs_mul, Int.abs_sign_of_ne_zero h0, one_mul, abs_of_nonneg h]

theorem onSide_openOrAdd {fillNotional : ℤ} (h : OnSide position positionCost)
    (hadds : position = 0 ∨ position.sign = signedQuantity.sign) (hn : 0 ≤ fillNotional)
    (hq : signedQuantity ≠ 0) :
    OnSide (position + signedQuantity) (positionCost + signedQuantity.sign * fillNotional) := by
  have hsign : (position + signedQuantity).sign = signedQuantity.sign := by
    rcases hadds with h0 | hs
    · rw [h0, zero_add]
    · rcases lt_or_gt_of_ne hq with hneg | hpos
      · rw [Int.sign_eq_neg_one_of_neg hneg] at hs ⊢
        have := Int.sign_eq_neg_one_iff_neg.mp hs
        exact Int.sign_eq_neg_one_of_neg (by omega)
      · rw [Int.sign_eq_one_of_pos hpos] at hs ⊢
        have := Int.sign_eq_one_iff_pos.mp hs
        exact Int.sign_eq_one_of_pos (by omega)
  have hcost : positionCost = signedQuantity.sign * |positionCost| := by
    rcases hadds with h0 | hs
    · rw [OnSide, h0, Int.sign_zero, zero_mul] at h
      simp [h]
    · rwa [OnSide, hs] at h
  have hsum : positionCost + signedQuantity.sign * fillNotional =
      (position + signedQuantity).sign * (|positionCost| + fillNotional) := by
    rw [hsign, mul_add, ← hcost]
  rw [hsum]
  exact onSide_sign_mul (add_nonneg (abs_nonneg _) hn)

theorem onSide_costAfterClose (h : OnSide position positionCost) (hp : position ≠ 0)
    (hprice : 0 ≤ price) :
    OnSide (position + signedQuantity)
      (costAfterClose config position positionCost signedQuantity price) := by
  unfold costAfterClose
  split_ifs with h0 hs
  · simp [OnSide]
  · have hrest : positionCost - allocatedCost position positionCost signedQuantity =
        (position + signedQuantity).sign * (|positionCost| -
          |positionCost| * closeQuantity position signedQuantity / |position|) := by
      rw [allocatedCost_eq h, hs, mul_sub, ← h]
    rw [hrest]
    exact onSide_sign_mul (sub_nonneg.mpr (allocated_le hp))
  · exact onSide_sign_mul (notional_nonneg hprice)

theorem balanced_initial : Balanced config (initial config) := by
  constructor <;> simp [initial, OnSide]

theorem balanced_refreshMark {state : LedgerState} (h : Balanced config state)
    (hp : 0 ≤ price) :
    Balanced config (refreshMark config state price) where
  cash := h.cash
  equity := rfl
  unrealized := unrealized_eq _ _ _
  side := h.side
  fee := h.fee
  mark := hp
  flat := h.flat
  average := h.average

theorem trade_cash (state : LedgerState) (signedQuantity price : ℤ) :
    (trade config state signedQuantity price).1.cash = state.cash := by
  unfold trade
  split_ifs <;> rfl

theorem trade_realizedPnl (state : LedgerState) (signedQuantity price : ℤ) :
    (trade config state signedQuantity price).1.realizedPnl = state.realizedPnl := by
  unfold trade
  split_ifs <;> rfl

theorem trade_totalFee (state : LedgerState) (signedQuantity price : ℤ) :
    (trade config state signedQuantity price).1.totalFee = state.totalFee := by
  unfold trade
  split_ifs <;> rfl

theorem trade_position (state : LedgerState) (signedQuantity price : ℤ) :
    (trade config state signedQuantity price).1.position = state.position + signedQuantity := by
  unfold trade
  split_ifs <;> rfl

theorem trade_onSide {state : LedgerState} (h : OnSide state.position state.positionCost)
    (hq : signedQuantity ≠ 0) (hp : 0 ≤ price) :
    OnSide (trade config state signedQuantity price).1.position
      (trade config state signedQuantity price).1.positionCost := by
  unfold trade
  split_ifs with hadds
  · exact onSide_openOrAdd h hadds (notional_nonneg hp) hq
  · exact onSide_costAfterClose h (fun h0 => hadds (.inl h0)) hp

theorem refreshAverageEntry_of_onSide {state : LedgerState}
    (h : OnSide state.position state.positionCost) :
    refreshAverageEntry config state = { state with
      averageEntryPrice := if state.position = 0 then 0
        else averageEntry config state.position state.positionCost } := by
  unfold refreshAverageEntry
  split_ifs with h0
  · have hcost : state.positionCost = 0 := by
      rw [h, h0, Int.sign_zero, zero_mul]
    rw [hcost]
  · rfl

theorem applyFill_position (config : LedgerConfig) (state : LedgerState)
    (signedQuantity price fee : ℤ) :
    (applyFill config state signedQuantity price fee).1.position =
      state.position + signedQuantity := by
  rw [← trade_position state signedQuantity price]
  simp only [applyFill, refreshMark, refreshAverageEntry]
  split_ifs <;> rfl

theorem applyFill_positionCost {state : LedgerState} (fee : ℤ)
    (h : OnSide state.position state.positionCost) (hq : signedQuantity ≠ 0) (hp : 0 ≤ price) :
    (applyFill config state signedQuantity price fee).1.positionCost =
      (trade config state signedQuantity price).1.positionCost := by
  have hside : OnSide (trade config state signedQuantity price).1.position
      (trade config state signedQuantity price).1.positionCost := trade_onSide h hq hp
  simp only [applyFill, refreshMark]
  rw [refreshAverageEntry_of_onSide (by simpa only [settle] using hside)]
  rfl

theorem applyFill_realizedPnl (config : LedgerConfig) (state : LedgerState)
    (signedQuantity price fee : ℤ) :
    (applyFill config state signedQuantity price fee).1.realizedPnl =
      state.realizedPnl + (applyFill config state signedQuantity price fee).2 := by
  rw [← trade_realizedPnl state signedQuantity price]
  simp only [applyFill, refreshMark, refreshAverageEntry]
  split_ifs <;> rfl

theorem applyFill_totalFee (config : LedgerConfig) (state : LedgerState)
    (signedQuantity price fee : ℤ) :
    (applyFill config state signedQuantity price fee).1.totalFee = state.totalFee + fee := by
  rw [← trade_totalFee state signedQuantity price]
  simp only [applyFill, refreshMark, refreshAverageEntry]
  split_ifs <;> rfl

theorem balanced_applyFill {state : LedgerState} {fee : ℤ} (h : Balanced config state)
    (hq : signedQuantity ≠ 0) (hp : 0 ≤ price) (hf : 0 ≤ fee) :
    Balanced config (applyFill config state signedQuantity price fee).1 := by
  have hside : OnSide (trade config state signedQuantity price).1.position
      (trade config state signedQuantity price).1.positionCost := trade_onSide h.side hq hp
  have hcash := h.cash
  have hfee := h.fee
  simp only [applyFill]
  rw [refreshAverageEntry_of_onSide (by simpa only [settle] using hside)]
  apply Balanced.mk
  · simp only [refreshMark, settle, trade_cash, trade_realizedPnl, trade_totalFee]
    omega
  · rfl
  · exact unrealized_eq _ _ _
  · exact hside
  · simp only [refreshMark, settle, trade_totalFee]
    omega
  · exact hp
  · intro h0
    exact if_pos h0
  · intro h0
    exact if_neg h0

end Preservation

end Astra.Unbounded
