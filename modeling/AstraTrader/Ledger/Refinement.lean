import AstraTrader.Ledger.Unbounded
import AstraTrader.Process.Fallible
import AstraTrader.Process.Run

/-! Every step of the 64-bit ledger that reports success is a step of the unbounded one. -/

namespace Astra
open FixedWidth

def LedgerState.toUnbounded (state : LedgerState) : Unbounded.LedgerState where
  cash := state.cashUnits.toInt
  position := state.positionUnits.toInt
  positionCost := state.positionCostUnits.toInt
  averageEntryPrice := state.averageEntryPriceUnits.toInt
  realizedPnl := state.realizedPnlUnits.toInt
  unrealizedPnl := state.unrealizedPnlUnits.toInt
  totalFee := state.totalFeeUnits.toInt
  equity := state.equityUnits.toInt
  lastMarkPrice := state.lastMarkPriceUnits.toInt

/-- What the constructor checks. -/
structure LedgerConfig.Valid (config : LedgerConfig) : Prop where
  cash : 0 ≤ config.initialCashUnits.toInt
  account : config.accountScale.toNat ≤ 18
  price : config.priceScale.toNat ≤ 18
  quantity : config.quantityScale.toNat ≤ 18

theorem LedgerConfig.Valid.scaleGap_le {config : LedgerConfig} (h : config.Valid) :
    (Unbounded.scaleGap config).natAbs ≤ 36 := by
  have := h.account
  have := h.price
  have := h.quantity
  unfold Unbounded.scaleGap Unbounded.sourceScale
  omega

theorem new_configError_eq_ok {config : LedgerConfig} :
    (PerpetualLedger.new config).configError = .ok ↔ config.Valid := by
  have hcash : config.initialCashUnits < 0 ↔ config.initialCashUnits.toInt < 0 := by
    rw [Int64.lt_iff_toInt_lt, Int64.toInt_zero]
  unfold PerpetualLedger.new
  split_ifs with h <;> rw [hcash] at h
  · refine iff_of_false (by simp) fun hv => ?_
    have := hv.cash
    have := hv.account
    have := hv.price
    have := hv.quantity
    omega
  · exact iff_of_true rfl ⟨by omega, by omega, by omega, by omega⟩

theorem toInt_sign (value : Int64) : (sign value).toInt = value.toInt.sign := by
  simp only [sign, Int64.lt_iff_toInt_lt, Int64.toInt_zero]
  split_ifs with h1 h2
  · rw [Int.sign_eq_one_of_pos h1]
    rfl
  · rw [Int.sign_eq_neg_one_of_neg h2]
    rfl
  · rw [show value.toInt = 0 by omega]
    rfl

theorem sign_eq_iff (a b : Int64) : sign a = sign b ↔ a.toInt.sign = b.toInt.sign := by
  rw [← Int64.toInt_inj, toInt_sign, toInt_sign]

theorem eq_zero_iff (a : Int64) : a = 0 ↔ a.toInt = 0 := by
  rw [← Int64.toInt_inj, Int64.toInt_zero]

section Arithmetic

theorem toInt_divideDigits (value : Wide) (exponent : ℕ) :
    (divideDigits value exponent).toInt = value.toInt.tdiv (10 ^ exponent) := by
  induction value, exponent using divideDigits.induct with
  | case1 value => simp [divideDigits]
  | case2 value exponent h ih =>
    have hpow : (powerOfTen (min exponent 18)).toInt = 10 ^ min exponent 18 :=
      toInt_powerOfTen (by omega)
    have hpos : 0 < (powerOfTen (min exponent 18)).toInt := hpow ▸ Decimal.ten_pow_pos _
    rw [divideDigits, if_neg h, ih, Int128.toInt_div_of_pos hpos, hpow,
      Decimal.tdiv_tdiv _ (Decimal.ten_pow_pos _).le, ← pow_add]
    congr 2
    omega

theorem rescale_eq_some {value : Wide} {sourceScale targetScale : ℕ} {result : Int64}
    (h : targetScale ≤ 36) :
    rescale value sourceScale targetScale = some result ↔
      result.toInt = Unbounded.rescale value.toInt sourceScale targetScale := by
  unfold rescale Unbounded.rescale
  by_cases hlt : sourceScale < targetScale
  · simp only [if_pos hlt, Option.bind_eq_bind, Option.bind_eq_some_iff, narrow_eq_some]
    rw [← toInt_powerOfTen (by omega)]
    constructor
    · rintro ⟨scaled, hs, hr⟩
      rw [hr, Int128.mulChecked_eq_some.mp hs]
    · intro hr
      have hin : InRange128 (value.toInt * (powerOfTen (targetScale - sourceScale)).toInt) :=
        hr ▸ (int64_inRange result).inRange128
      exact ⟨⟨_, hin⟩, Int128.mulChecked_eq_some.mpr rfl, hr⟩
  · simp only [if_neg hlt, Option.bind_eq_bind, Option.bind_some, narrow_eq_some]
    rw [toInt_divideDigits]

theorem checkedAdd_eq_some {left : Int64} {right : Wide} {result : Int64} :
    checkedAdd left right = some result ↔ result.toInt = left.toInt + right.toInt := by
  simp only [checkedAdd, Option.bind_eq_bind, Option.bind_eq_some_iff, narrow_eq_some,
    Int128.addChecked_eq_some, toInt_wide]
  constructor
  · rintro ⟨sum, hs, hr⟩
    rw [hr, hs]
  · intro hr
    exact ⟨⟨_, (hr ▸ int64_inRange result : InRange64 _).inRange128⟩, rfl, hr⟩

theorem abs_toInt_le (value : Int64) : |value.toInt| ≤ 2 ^ 63 :=
  abs_le.mpr ⟨by have := value.le_toInt; omega, by have := value.toInt_lt; omega⟩

theorem abs_sign_le (n : ℤ) : |n.sign| ≤ 2 ^ 63 := by
  rcases n.sign_trichotomy with h | h | h <;> rw [h] <;> norm_num

theorem abs_mul_inRange {a b : ℤ} (ha : |a| ≤ 2 ^ 63) (hb : |b| ≤ 2 ^ 63) :
    InRange128 (a * b) := by
  have h : |a * b| ≤ 2 ^ 63 * 2 ^ 63 := by
    rw [abs_mul]
    exact mul_le_mul ha hb (abs_nonneg _) (by norm_num)
  obtain ⟨h1, h2⟩ := abs_le.mp h
  constructor <;> norm_num at * <;> omega

end Arithmetic

section Blocks
variable {ledger : PerpetualLedger} {candidate next : LedgerState}

theorem notional_eq_some (hv : ledger.config.Valid) {quantityUnits priceUnits result : Int64} :
    ledger.notional quantityUnits priceUnits = some result ↔
      result.toInt = Unbounded.notional ledger.config quantityUnits.toInt priceUnits.toInt := by
  have hin : InRange128 ((magnitude quantityUnits).toInt * (wide priceUnits).toInt) := by
    rw [toInt_magnitude, toInt_wide]
    exact abs_mul_inRange (by rw [abs_abs]; exact abs_toInt_le _) (abs_toInt_le _)
  have hmul : (magnitude quantityUnits).mulChecked (wide priceUnits) =
      some ⟨|quantityUnits.toInt| * priceUnits.toInt, by simpa using hin⟩ :=
    Int128.mulChecked_eq_some.mpr (by simp)
  have := hv.account
  rw [PerpetualLedger.notional, Option.bind_eq_bind, hmul, Option.bind_some,
    rescale_eq_some (by omega)]
  rfl

theorem orOverflow_eq_ok {α : Type} {option : Option α} {value : α} :
    PerpetualLedger.orOverflow option = .ok value ↔ option = some value := by
  cases option <;> simp [PerpetualLedger.orOverflow]

theorem toInt_unrealized (hv : ledger.config.Valid) {priceUnits markedValue : Int64}
    (h : ledger.notional candidate.positionUnits priceUnits = some markedValue) :
    (PerpetualLedger.unrealized candidate markedValue).toInt =
      Unbounded.unrealized ledger.config candidate.toUnbounded.position
        candidate.toUnbounded.positionCost priceUnits.toInt := by
  rw [notional_eq_some hv] at h
  have hmark := int64_inRange markedValue
  have hcost := abs_toInt_le candidate.positionCostUnits
  have hnn := abs_nonneg candidate.positionCostUnits.toInt
  obtain ⟨hlo, hhi⟩ := hmark
  simp only [PerpetualLedger.unrealized, Unbounded.unrealized, Int64.lt_iff_toInt_lt,
    Int64.toInt_zero, LedgerState.toUnbounded, ← h]
  split_ifs
  · rw [Int128.toInt_sub] <;> rw [toInt_wide, toInt_magnitude]
    constructor <;> omega
  · rw [Int128.toInt_sub] <;> rw [toInt_wide, toInt_magnitude]
    constructor <;> omega
  · rfl

theorem refreshMark_eq_ok (hv : ledger.config.Valid) {priceUnits : Int64}
    (h : ledger.refreshMark candidate priceUnits = .ok next) :
    0 < priceUnits.toInt ∧ next.toUnbounded =
      Unbounded.refreshMark ledger.config candidate.toUnbounded priceUnits.toInt := by
  unfold PerpetualLedger.refreshMark at h
  split_ifs at h with hp
  rw [Int64.le_iff_toInt_le, Int64.toInt_zero, not_le] at hp
  simp only [orOverflow_eq_ok, Option.bind_eq_bind, Option.bind_eq_some_iff, narrow_eq_some,
    checkedAdd_eq_some, Option.some.injEq] at h
  obtain ⟨markedValue, hmark, unrealizedPnl, hu, equity, he, rfl⟩ := h
  rw [toInt_unrealized hv hmark] at hu he
  refine ⟨hp, ?_⟩
  simp only [LedgerState.toUnbounded, Unbounded.refreshMark, hu, he]

theorem openOrAdd_eq_some {signedQuantityUnits fillNotional : Int64} {realized : Wide}
    (h : PerpetualLedger.openOrAdd candidate signedQuantityUnits fillNotional =
      some (next, realized)) :
    (next.toUnbounded, realized.toInt) = Unbounded.openOrAdd candidate.toUnbounded
      signedQuantityUnits.toInt fillNotional.toInt := by
  have hmul : InRange128 (signedQuantityUnits.toInt.sign * fillNotional.toInt) :=
    abs_mul_inRange (abs_sign_le _) (abs_toInt_le _)
  simp only [PerpetualLedger.openOrAdd, Option.bind_eq_bind, Option.bind_eq_some_iff,
    checkedAdd_eq_some, Option.some.injEq, Prod.mk.injEq] at h
  obtain ⟨position, hp, cost, hc, rfl, rfl⟩ := h
  rw [Int128.toInt_mul (by simpa only [toInt_wide, toInt_sign] using hmul)] at hc
  simp only [toInt_wide, toInt_sign] at hp hc
  simp only [Unbounded.openOrAdd, LedgerState.toUnbounded, hp, hc, Int128.toInt_zero]

section Close
variable {signedQuantityUnits priceUnits : Int64}

/-- The facts under which the source takes the closing branch. -/
structure Opposed (candidate : LedgerState) (signedQuantityUnits : Int64) : Prop where
  position : candidate.positionUnits.toInt ≠ 0
  quantity : signedQuantityUnits.toInt ≠ 0
  sign : candidate.positionUnits.toInt.sign ≠ signedQuantityUnits.toInt.sign

theorem Opposed.opposite (h : Opposed candidate signedQuantityUnits) :
    Unbounded.Opposite candidate.positionUnits.toInt signedQuantityUnits.toInt :=
  Unbounded.opposite_of_sign_ne h.position h.quantity h.sign

/-- Of two opposite quantities one is positive, so the smaller magnitude fits 64 bits. -/
theorem Opposed.closeQuantity_inRange (h : Opposed candidate signedQuantityUnits) :
    InRange64 (Unbounded.closeQuantity candidate.positionUnits.toInt
      signedQuantityUnits.toInt) := by
  have hp := candidate.positionUnits.toInt_lt
  have hq := signedQuantityUnits.toInt_lt
  unfold Unbounded.closeQuantity
  rcases h.opposite with ⟨h1, h2⟩ | ⟨h1, h2⟩
  · rw [abs_of_pos h1, abs_of_neg h2]
    constructor <;> omega
  · rw [abs_of_neg h1, abs_of_pos h2]
    constructor <;> omega

theorem Opposed.abs_sum_inRange (h : Opposed candidate signedQuantityUnits) :
    InRange64 |candidate.positionUnits.toInt + signedQuantityUnits.toInt| := by
  have hp := int64_inRange candidate.positionUnits
  have hq := int64_inRange signedQuantityUnits
  obtain ⟨hp1, hp2⟩ := hp
  obtain ⟨hq1, hq2⟩ := hq
  rcases h.opposite with ⟨h1, h2⟩ | ⟨h1, h2⟩ <;>
    rcases abs_cases (candidate.positionUnits.toInt + signedQuantityUnits.toInt) with
      ⟨he, _⟩ | ⟨he, _⟩ <;> rw [he] <;> constructor <;> omega

theorem toInt_closeQuantity :
    (min (magnitude candidate.positionUnits) (magnitude signedQuantityUnits)).toInt =
      Unbounded.closeQuantity candidate.positionUnits.toInt signedQuantityUnits.toInt := by
  rw [Int128.toInt_min, toInt_magnitude, toInt_magnitude]
  rfl

theorem abs_closeQuantity_le :
    |Unbounded.closeQuantity candidate.positionUnits.toInt signedQuantityUnits.toInt| ≤
      2 ^ 63 := by
  rw [abs_of_nonneg Unbounded.closeQuantity_nonneg]
  exact (min_le_left _ _).trans (abs_toInt_le _)

theorem toInt_allocatedCost (hp : candidate.positionUnits.toInt ≠ 0) :
    (wide candidate.positionCostUnits *
      min (magnitude candidate.positionUnits) (magnitude signedQuantityUnits) /
        magnitude candidate.positionUnits).toInt =
      Unbounded.allocatedCost candidate.positionUnits.toInt
        candidate.positionCostUnits.toInt signedQuantityUnits.toInt := by
  have hmul : InRange128 ((wide candidate.positionCostUnits).toInt *
      (min (magnitude candidate.positionUnits) (magnitude signedQuantityUnits)).toInt) := by
    rw [toInt_closeQuantity, toInt_wide]
    exact abs_mul_inRange (abs_toInt_le _) abs_closeQuantity_le
  have hpos : 0 < (magnitude candidate.positionUnits).toInt := by
    rw [toInt_magnitude]
    exact abs_pos.mpr hp
  rw [Int128.toInt_div_of_pos hpos, Int128.toInt_mul hmul, toInt_closeQuantity, toInt_wide,
    toInt_magnitude]
  rfl

theorem allocatedCost_inRange (hside : Unbounded.OnSide candidate.positionUnits.toInt
      candidate.positionCostUnits.toInt) (hp : candidate.positionUnits.toInt ≠ 0) :
    InRange64 (Unbounded.allocatedCost candidate.positionUnits.toInt
      candidate.positionCostUnits.toInt signedQuantityUnits.toInt) := by
  obtain ⟨hlo, hhi⟩ := int64_inRange candidate.positionCostUnits
  obtain ⟨hpos, hneg⟩ := @Unbounded.allocatedCost_between _ _ signedQuantityUnits.toInt hside hp
  rcases le_total 0 candidate.positionCostUnits.toInt with h | h
  · have := hpos h
    constructor <;> omega
  · have := hneg h
    constructor <;> omega

theorem toInt_realized (hv : ledger.config.Valid) {closeNotional : Int64} {allocated : Wide}
    {closeQuantity : Wide}
    (hclose : InRange64 closeQuantity.toInt) (halloc : InRange64 allocated.toInt)
    (h : ledger.notional closeQuantity.toInt64 priceUnits = some closeNotional) :
    (wide (sign candidate.positionUnits) *
      (wide closeNotional - magnitude allocated.toInt64)).toInt =
    candidate.positionUnits.toInt.sign *
      (Unbounded.notional ledger.config closeQuantity.toInt priceUnits.toInt -
        |allocated.toInt|) := by
  rw [notional_eq_some hv, Int128.toInt_toInt64 hclose] at h
  have hmag : (magnitude allocated.toInt64).toInt = |allocated.toInt| := by
    rw [toInt_magnitude, Int128.toInt_toInt64 halloc]
  obtain ⟨hn1, hn2⟩ := int64_inRange closeNotional
  obtain ⟨ha1, ha2⟩ := halloc
  have hnn := abs_nonneg allocated.toInt
  have hle : |allocated.toInt| ≤ 2 ^ 63 := abs_le.mpr ⟨by omega, by omega⟩
  have hsub : (wide closeNotional - magnitude allocated.toInt64).toInt =
      closeNotional.toInt - |allocated.toInt| := by
    rw [Int128.toInt_sub] <;> rw [toInt_wide, hmag]
    constructor <;> omega
  rw [Int128.toInt_mul] <;> rw [hsub, toInt_wide, toInt_sign, h]
  rw [← h]
  rcases candidate.positionUnits.toInt.sign_trichotomy with hs | hs | hs <;> rw [hs] <;>
    constructor <;> omega

theorem costAfterClose_eq_some (hv : ledger.config.Valid) (hprice : 0 ≤ priceUnits.toInt)
    (hopp : Opposed candidate signedQuantityUnits)
    (hside : Unbounded.OnSide candidate.positionUnits.toInt candidate.positionCostUnits.toInt)
    {allocated : Wide} {position cost : Int64}
    (halloc : allocated.toInt = Unbounded.allocatedCost candidate.positionUnits.toInt
      candidate.positionCostUnits.toInt signedQuantityUnits.toInt)
    (hposition : position.toInt =
      candidate.positionUnits.toInt + signedQuantityUnits.toInt)
    (h : ledger.costAfterClose candidate position allocated priceUnits = some cost) :
    cost.toInt = Unbounded.costAfterClose ledger.config candidate.positionUnits.toInt
      candidate.positionCostUnits.toInt signedQuantityUnits.toInt priceUnits.toInt := by
  have hin := @allocatedCost_inRange _ signedQuantityUnits hside hopp.position
  rw [← halloc] at hin
  obtain ⟨ha1, ha2⟩ := hin
  obtain ⟨hc1, hc2⟩ := int64_inRange candidate.positionCostUnits
  unfold PerpetualLedger.costAfterClose at h
  unfold Unbounded.costAfterClose
  simp only [eq_zero_iff, sign_eq_iff, hposition] at h
  split_ifs at h ⊢ with h0 hs
  · rw [← Option.some.inj h, Int64.toInt_zero]
  · rw [narrow_eq_some, Int128.toInt_sub] at h
    · rw [h, halloc, toInt_wide]
    · rw [toInt_wide]
      constructor <;> omega
  · obtain ⟨openingNotional, hn, rfl⟩ := Option.map_eq_some_iff.mp h
    have hmag : (magnitude position).toInt64.toInt = |position.toInt| := by
      rw [Int128.toInt_toInt64] <;> rw [toInt_magnitude]
      rw [hposition]
      exact hopp.abs_sum_inRange
    rw [notional_eq_some hv, hmag, Unbounded.notional_abs, hposition] at hn
    obtain ⟨hn1, hn2⟩ := int64_inRange openingNotional
    have hnn : 0 ≤ openingNotional.toInt := hn ▸ Unbounded.notional_nonneg hprice
    rw [Int64.toInt_mul, toInt_sign, hposition, ← hn]
    apply Int.bmod_eq_of_le <;>
      rcases (candidate.positionUnits.toInt + signedQuantityUnits.toInt).sign_trichotomy with
        hs | hs | hs <;> rw [hs] <;> omega

theorem closeOrReverse_eq_some (hv : ledger.config.Valid) (hprice : 0 ≤ priceUnits.toInt)
    (hopp : Opposed candidate signedQuantityUnits)
    (hside : Unbounded.OnSide candidate.positionUnits.toInt candidate.positionCostUnits.toInt)
    {realized : Wide}
    (h : ledger.closeOrReverse candidate signedQuantityUnits priceUnits =
      some (next, realized)) :
    (next.toUnbounded, realized.toInt) = Unbounded.closeOrReverse ledger.config
        candidate.toUnbounded signedQuantityUnits.toInt priceUnits.toInt ∧
      InRange64 (Unbounded.notional ledger.config (Unbounded.closeQuantity
        candidate.positionUnits.toInt signedQuantityUnits.toInt) priceUnits.toInt) := by
  have halloc := @toInt_allocatedCost _ signedQuantityUnits hopp.position
  have hsum : (wide candidate.positionUnits + wide signedQuantityUnits).toInt =
      candidate.positionUnits.toInt + signedQuantityUnits.toInt := by
    obtain ⟨h1, h2⟩ := int64_inRange candidate.positionUnits
    obtain ⟨h3, h4⟩ := int64_inRange signedQuantityUnits
    rw [Int128.toInt_add] <;> rw [toInt_wide, toInt_wide]
    constructor <;> omega
  simp only [PerpetualLedger.closeOrReverse, Option.bind_eq_bind, Option.bind_eq_some_iff,
    Option.some.injEq, Prod.mk.injEq] at h
  obtain ⟨closeNotional, hclose, position, hposition, cost, hcost, rfl, rfl⟩ := h
  rw [narrow_eq_some, hsum] at hposition
  have hcost' := costAfterClose_eq_some hv hprice hopp hside halloc hposition hcost
  have hrealized := @toInt_realized ledger candidate priceUnits hv closeNotional _ _
    (toInt_closeQuantity ▸ hopp.closeQuantity_inRange)
    (halloc ▸ allocatedCost_inRange hside hopp.position) hclose
  rw [halloc, toInt_closeQuantity] at hrealized
  rw [notional_eq_some hv, Int128.toInt_toInt64 (toInt_closeQuantity ▸
    hopp.closeQuantity_inRange), toInt_closeQuantity] at hclose
  refine ⟨?_, hclose ▸ int64_inRange closeNotional⟩
  simp only [Unbounded.closeOrReverse, Unbounded.realizedOnClose, LedgerState.toUnbounded,
    hposition, hcost', hrealized]

end Close

theorem settle_eq_some {realized : Wide} {feeUnits : Int64} (hr : InRange64 realized.toInt)
    (h : PerpetualLedger.settle candidate realized feeUnits = some next) :
    next.toUnbounded =
      Unbounded.settle candidate.toUnbounded realized.toInt feeUnits.toInt := by
  have hsub : (realized - wide feeUnits).toInt = realized.toInt - feeUnits.toInt := by
    obtain ⟨h1, h2⟩ := hr
    obtain ⟨h3, h4⟩ := int64_inRange feeUnits
    rw [Int128.toInt_sub] <;> rw [toInt_wide]
    constructor <;> omega
  simp only [PerpetualLedger.settle, Option.bind_eq_bind, Option.bind_eq_some_iff,
    checkedAdd_eq_some, hsub, toInt_wide, Option.some.injEq] at h
  obtain ⟨cash, hcash, realizedPnl, hrealized, totalFee, hfee, rfl⟩ := h
  simp only [Unbounded.settle, LedgerState.toUnbounded, hcash, hrealized, hfee]

theorem averageNumerator_eq_some (hv : ledger.config.Valid) {cost numerator : Wide}
    (h : ledger.averageNumerator cost = some numerator) :
    numerator.toInt = Unbounded.rescale cost.toInt ledger.config.accountScale.toNat
      (Unbounded.sourceScale ledger.config) := by
  have := hv.account
  have := hv.price
  have := hv.quantity
  unfold PerpetualLedger.averageNumerator at h
  unfold Unbounded.rescale Unbounded.sourceScale
  dsimp only at h
  rcases lt_trichotomy ledger.config.accountScale.toNat
    (ledger.config.priceScale.toNat + ledger.config.quantityScale.toNat) with hlt | heq | hgt
  · rw [if_pos hlt.le, Int128.mulChecked_eq_some, toInt_powerOfTen (by omega)] at h
    rw [if_pos hlt, h]
  -- at equal scales the ledger multiplies by one and the exact algorithm divides by one
  · rw [if_pos heq.le, Int128.mulChecked_eq_some, heq, Nat.sub_self] at h
    rw [if_neg heq.not_lt, heq, Nat.sub_self, h, pow_zero, Int.tdiv_one]
    exact mul_one _
  · have hpow := toInt_powerOfTen (show ledger.config.accountScale.toNat -
      (ledger.config.priceScale.toNat + ledger.config.quantityScale.toNat) ≤ 36 by omega)
    rw [if_neg hgt.not_ge, Option.some.injEq] at h
    rw [if_neg hgt.le.not_gt, ← h, Int128.toInt_div_of_pos (hpow ▸ Decimal.ten_pow_pos _), hpow]

theorem refreshAverageEntry_eq_some (hv : ledger.config.Valid)
    (h : ledger.refreshAverageEntry candidate = some next) :
    next.toUnbounded =
      Unbounded.refreshAverageEntry ledger.config candidate.toUnbounded := by
  unfold PerpetualLedger.refreshAverageEntry at h
  unfold Unbounded.refreshAverageEntry
  simp only [eq_zero_iff] at h
  by_cases h0 : candidate.positionUnits.toInt = 0
  · rw [if_pos h0, Option.some.injEq] at h
    rw [if_pos (by exact h0), ← h]
    rfl
  · rw [if_neg h0] at h
    rw [if_neg (by exact h0)]
    simp only [Option.bind_eq_bind, Option.bind_eq_some_iff, narrow_eq_some,
      Option.some.injEq] at h
    obtain ⟨numerator, hn, average, ha, rfl⟩ := h
    have hpos : 0 < (magnitude candidate.positionUnits).toInt := by
      rw [toInt_magnitude]
      exact abs_pos.mpr h0
    rw [Int128.toInt_div_of_pos hpos, averageNumerator_eq_some hv hn, toInt_magnitude,
      toInt_magnitude] at ha
    simp only [LedgerState.toUnbounded, Unbounded.averageEntry, ha]

end Blocks

section Fill
variable {ledger : PerpetualLedger}

/-- The cast of the realized result is the one narrowing that no local check covers. It can
only fail for a short whose cost is `-2 ^ 63` and whose close is worth nothing, and such a
short has no average entry price that fits. -/
theorem realizedOnClose_inRange {config : LedgerConfig} {position positionCost signedQuantity
    price : ℤ} (hside : Unbounded.OnSide position positionCost) (hp : position ≠ 0)
    (hprice : 0 < price) (hcost : |positionCost| ≤ 2 ^ 63)
    (hclose : InRange64 (Unbounded.notional config
      (Unbounded.closeQuantity position signedQuantity) price))
    (haverage : InRange64 (Unbounded.averageEntry config position positionCost)) :
    InRange64 (Unbounded.realizedOnClose config position positionCost signedQuantity price) := by
  have hpos : 0 < |position| := abs_pos.mpr hp
  have hle := @Unbounded.allocated_le position positionCost signedQuantity hp
  have hnn := @Unbounded.allocated_nonneg position positionCost signedQuantity
  have hzero : Unbounded.notional config (Unbounded.closeQuantity position signedQuantity) price
      = 0 → |positionCost| * Unbounded.closeQuantity position signedQuantity / |position| ≠
        2 ^ 63 := by
    intro hn hfull
    -- the whole cost is allocated, so the whole position is closed
    have hcost' : |positionCost| = 2 ^ 63 := by omega
    have hwhole : |position| ≤ Unbounded.closeQuantity position signedQuantity := by
      have h := (Int.le_ediv_iff_mul_le hpos).mp hfull.ge
      rw [hcost'] at h
      exact le_of_mul_le_mul_left h (by norm_num)
    have hall : Unbounded.closeQuantity position signedQuantity = |position| :=
      le_antisymm (min_le_left _ _) hwhole
    -- an average price that fits forces a position worth at least one unit
    rw [Unbounded.averageEntry_eq_shift, hcost'] at haverage
    have hlt := (Int.ediv_lt_iff_lt_mul hpos).mp haverage.2
    have hone := Decimal.one_le_shift_of_shift_neg_lt hprice (by norm_num) hpos hlt
    rw [hall, Unbounded.notional_eq_shift hprice.le, abs_abs] at hn
    omega
  have hn0 := @Unbounded.notional_nonneg config
    (Unbounded.closeQuantity position signedQuantity) price hprice.le
  obtain ⟨hc1, hc2⟩ := hclose
  unfold Unbounded.realizedOnClose
  rw [Unbounded.abs_allocatedCost hside hp]
  rcases lt_or_gt_of_ne hp with hneg | hpos
  · rw [Int.sign_eq_neg_one_of_neg hneg]
    constructor <;> omega
  · rw [Int.sign_eq_one_of_pos hpos]
    constructor <;> omega

/-- The invariant that the exactness of a fill rests on. -/
def PerpetualLedger.Balanced (ledger : PerpetualLedger) : Prop :=
  Unbounded.Balanced ledger.config ledger.state.toUnbounded

/-- A fill the ledger takes: a quantity, a positive price and a fee. -/
structure FillArguments (signedQuantityUnits priceUnits feeUnits : Int64) : Prop where
  quantity : signedQuantityUnits.toInt ≠ 0
  price : 0 < priceUnits.toInt
  fee : 0 ≤ feeUnits.toInt

theorem trade_eq_some (hv : ledger.config.Valid) (hb : ledger.Balanced)
    {signedQuantityUnits priceUnits feeUnits fillNotional : Int64}
    (hargs : FillArguments signedQuantityUnits priceUnits feeUnits)
    (hn : ledger.notional signedQuantityUnits priceUnits = some fillNotional)
    {next : LedgerState} {realized : Wide}
    (h : ledger.trade signedQuantityUnits priceUnits fillNotional = some (next, realized)) :
    (next.toUnbounded, realized.toInt) = Unbounded.trade ledger.config
      ledger.state.toUnbounded signedQuantityUnits.toInt priceUnits.toInt ∧
      InRange64 realized.toInt := by
  rw [notional_eq_some hv] at hn
  unfold PerpetualLedger.trade at h
  simp only [eq_zero_iff, sign_eq_iff] at h
  by_cases hadds : Unbounded.adds ledger.state.toUnbounded signedQuantityUnits.toInt
  · rw [if_pos (by exact hadds)] at h
    have hopen := openOrAdd_eq_some h
    rw [Unbounded.trade, if_pos hadds, ← hn]
    refine ⟨hopen, ?_⟩
    rw [show realized.toInt = 0 from congrArg Prod.snd hopen]
    constructor <;> norm_num
  · rw [if_neg (by exact hadds)] at h
    obtain ⟨hp, hs⟩ := not_or.mp hadds
    obtain ⟨hclose, hcn⟩ :=
      closeOrReverse_eq_some hv hargs.price.le ⟨hp, hargs.quantity, hs⟩ hb.side h
    rw [Unbounded.trade, if_neg hadds]
    refine ⟨hclose, ?_⟩
    rw [show realized.toInt = _ from congrArg Prod.snd hclose]
    have haverage := hb.average hp
    exact realizedOnClose_inRange hb.side hp hargs.price (abs_toInt_le _) hcn
      (haverage ▸ int64_inRange ledger.state.averageEntryPriceUnits)

theorem fillCandidate_eq_ok (hv : ledger.config.Valid) (hb : ledger.Balanced)
    {signedQuantityUnits priceUnits feeUnits : Int64} {next : LedgerState} {realized : Wide}
    (h : ledger.fillCandidate signedQuantityUnits priceUnits feeUnits = .ok (next, realized)) :
    FillArguments signedQuantityUnits priceUnits feeUnits ∧
      (next.toUnbounded, realized.toInt) = Unbounded.applyFill ledger.config
        ledger.state.toUnbounded signedQuantityUnits.toInt priceUnits.toInt feeUnits.toInt ∧
      InRange64 realized.toInt := by
  unfold PerpetualLedger.fillCandidate at h
  split_ifs at h with hargs
  simp only [eq_zero_iff, Int64.le_iff_toInt_le, Int64.lt_iff_toInt_lt, Int64.toInt_zero,
    not_or, not_le, not_lt] at hargs
  obtain ⟨_, hq, hp, hf⟩ := hargs
  simp only [Process.bind_eq_ok_iff, orOverflow_eq_ok, Prod.exists] at h
  obtain ⟨fillNotional, hn, traded, realized', ht, settled, hs, averaged, ha, marked, hm, he⟩ := h
  obtain ⟨rfl, rfl⟩ := Prod.mk.inj (Except.ok.inj he)
  obtain ⟨htrade, hr⟩ := trade_eq_some hv hb ⟨hq, hp, hf⟩ hn ht
  refine ⟨⟨hq, hp, hf⟩, ?_, hr⟩
  obtain ⟨_, hmark⟩ := refreshMark_eq_ok hv hm
  rw [Unbounded.applyFill, ← htrade, hmark, refreshAverageEntry_eq_some hv ha,
    settle_eq_some hr hs]

/-! A reported error is never `ok`, so a report of `ok` means that the candidate was stored. -/

theorem except_bind_ne_error {α β : Type} {action : Except LedgerError α}
    {next : α → Except LedgerError β} {error : LedgerError} (h : action ≠ .error error)
    (hn : ∀ a, next a ≠ .error error) : (action >>= next) ≠ .error error := by
  cases action with
  | error e =>
    intro he
    cases he
    exact h rfl
  | ok a => exact hn a

theorem orOverflow_ne_ok {α : Type} (option : Option α) :
    PerpetualLedger.orOverflow option ≠ .error .ok := by
  cases option <;> simp [PerpetualLedger.orOverflow]

theorem refreshMark_ne_ok (candidate : LedgerState) (priceUnits : Int64) :
    ledger.refreshMark candidate priceUnits ≠ .error .ok := by
  unfold PerpetualLedger.refreshMark
  split_ifs
  · simp
  · exact orOverflow_ne_ok _

theorem fillCandidate_ne_ok (signedQuantityUnits priceUnits feeUnits : Int64) :
    ledger.fillCandidate signedQuantityUnits priceUnits feeUnits ≠ .error .ok := by
  unfold PerpetualLedger.fillCandidate
  split_ifs
  · simp
  · exact except_bind_ne_error (orOverflow_ne_ok _) fun _ =>
      except_bind_ne_error (orOverflow_ne_ok _) fun _ =>
      except_bind_ne_error (orOverflow_ne_ok _) fun _ =>
      except_bind_ne_error (orOverflow_ne_ok _) fun _ =>
      except_bind_ne_error (refreshMark_ne_ok _ _) fun _ => by simp [pure, Except.pure]

theorem applyFill_cases (ledger : PerpetualLedger)
    (signedQuantityUnits priceUnits feeUnits : Int64) :
    (∃ next realized,
      ledger.fillCandidate signedQuantityUnits priceUnits feeUnits = .ok (next, realized) ∧
      ledger.applyFill signedQuantityUnits priceUnits feeUnits =
        ({ ledger with state := next },
          { error := .ok, realizedPnlUnits := realized.toInt64, feeUnits })) ∨
    (∃ error, error ≠ .ok ∧
      ledger.applyFill signedQuantityUnits priceUnits feeUnits = (ledger, { error })) := by
  unfold PerpetualLedger.applyFill
  cases h : ledger.fillCandidate signedQuantityUnits priceUnits feeUnits with
  | ok result => exact .inl ⟨result.1, result.2, rfl, rfl⟩
  | error error =>
    refine .inr ⟨error, ?_, rfl⟩
    rintro rfl
    exact fillCandidate_ne_ok _ _ _ h

theorem markToMarket_cases (ledger : PerpetualLedger) (priceUnits : Int64) :
    (∃ next, ledger.refreshMark ledger.state priceUnits = .ok next ∧
      ledger.markToMarket priceUnits = ({ ledger with state := next }, .ok)) ∨
    (∃ error, error ≠ .ok ∧ ledger.markToMarket priceUnits = (ledger, error)) := by
  unfold PerpetualLedger.markToMarket
  split_ifs with hc
  · exact .inr ⟨_, hc, rfl⟩
  · cases h : ledger.refreshMark ledger.state priceUnits with
    | ok next => exact .inl ⟨next, rfl, rfl⟩
    | error error =>
      refine .inr ⟨error, ?_, rfl⟩
      rintro rfl
      exact refreshMark_ne_ok _ _ h

end Fill

/-! Runs. -/

inductive LedgerCall
  | applyFill (signedQuantityUnits priceUnits feeUnits : Int64)
  | markToMarket (priceUnits : Int64)

def LedgerCall.priceUnits : LedgerCall → Int64
  | .applyFill _ priceUnits _ => priceUnits
  | .markToMarket priceUnits => priceUnits

namespace PerpetualLedger

def call (ledger : PerpetualLedger) : LedgerCall → PerpetualLedger
  | .applyFill signedQuantityUnits priceUnits feeUnits =>
    (ledger.applyFill signedQuantityUnits priceUnits feeUnits).1
  | .markToMarket priceUnits => (ledger.markToMarket priceUnits).1

def run (config : LedgerConfig) (calls : List LedgerCall) : PerpetualLedger :=
  calls.foldl call (new config)

/-- What every call keeps: the configuration and the identities. -/
structure Sound (config : LedgerConfig) (ledger : PerpetualLedger) : Prop where
  config : ledger.config = config
  valid : ledger.config.Valid
  balanced : ledger.Balanced

theorem new_state (config : LedgerConfig) :
    (new config).state.positionUnits = 0 ∧ (new config).state.totalFeeUnits = 0 ∧
      (new config).state.realizedPnlUnits = 0 := by
  unfold new
  split_ifs <;> exact ⟨rfl, rfl, rfl⟩

theorem sound_new {config : LedgerConfig} (h : (new config).configError = .ok) :
    Sound config (new config) := by
  have hv := new_configError_eq_ok.mp h
  unfold new at h ⊢
  split_ifs at h ⊢
  exact ⟨rfl, hv, Unbounded.balanced_initial⟩

theorem Sound.applyFill {config : LedgerConfig} {ledger : PerpetualLedger}
    (h : Sound config ledger) (signedQuantityUnits priceUnits feeUnits : Int64) :
    Sound config (ledger.applyFill signedQuantityUnits priceUnits feeUnits).1 := by
  rcases applyFill_cases ledger signedQuantityUnits priceUnits feeUnits with
    ⟨next, realized, hok, he⟩ | ⟨_, _, he⟩ <;> rw [he]
  · obtain ⟨hargs, hexact, _⟩ := fillCandidate_eq_ok h.valid h.balanced hok
    refine ⟨h.config, h.valid, ?_⟩
    have hb := Unbounded.balanced_applyFill h.balanced hargs.quantity hargs.price.le hargs.fee
    rwa [← hexact] at hb
  · exact h

theorem Sound.markToMarket {config : LedgerConfig} {ledger : PerpetualLedger}
    (h : Sound config ledger) (priceUnits : Int64) :
    Sound config (ledger.markToMarket priceUnits).1 := by
  rcases markToMarket_cases ledger priceUnits with ⟨next, hok, he⟩ | ⟨_, _, he⟩ <;> rw [he]
  · obtain ⟨hp, hexact⟩ := refreshMark_eq_ok h.valid hok
    refine ⟨h.config, h.valid, ?_⟩
    have hb := Unbounded.balanced_refreshMark h.balanced hp.le
    rwa [← hexact] at hb
  · exact h

theorem Sound.call {config : LedgerConfig} {ledger : PerpetualLedger} (h : Sound config ledger)
    (c : LedgerCall) : Sound config (ledger.call c) := by
  cases c with
  | applyFill q p f => exact h.applyFill q p f
  | markToMarket p => exact h.markToMarket p

theorem sound_run {config : LedgerConfig} (h : (new config).configError = .ok)
    (calls : List LedgerCall) : Sound config (run config calls) :=
  Process.run_invariant_of_forall (fun _ c hs => hs.call c) (sound_new h) calls

theorem Sound.balancedAt {config : LedgerConfig} {ledger : PerpetualLedger}
    (h : Sound config ledger) : Unbounded.Balanced config ledger.state.toUnbounded :=
  h.config ▸ h.balanced

/-- A fill that is reported to have succeeded is the unbounded fill. -/
theorem Sound.applyFill_exact {config : LedgerConfig} {ledger : PerpetualLedger}
    (h : Sound config ledger) {signedQuantityUnits priceUnits feeUnits : Int64}
    (hok : (ledger.applyFill signedQuantityUnits priceUnits feeUnits).2.error = .ok) :
    FillArguments signedQuantityUnits priceUnits feeUnits ∧
      (ledger.applyFill signedQuantityUnits priceUnits feeUnits).1.state.toUnbounded =
        (Unbounded.applyFill config ledger.state.toUnbounded signedQuantityUnits.toInt
          priceUnits.toInt feeUnits.toInt).1 := by
  rcases applyFill_cases ledger signedQuantityUnits priceUnits feeUnits with
    ⟨next, realized, hcandidate, he⟩ | ⟨error, hne, he⟩ <;> rw [he] at hok ⊢
  · obtain ⟨hargs, hexact, _⟩ := fillCandidate_eq_ok h.valid h.balanced hcandidate
    rw [h.config] at hexact
    exact ⟨hargs, congrArg Prod.fst hexact⟩
  · exact absurd hok hne

theorem Sound.markToMarket_exact {config : LedgerConfig} {ledger : PerpetualLedger}
    (h : Sound config ledger) {priceUnits : Int64}
    (hok : (ledger.markToMarket priceUnits).2 = .ok) : 0 < priceUnits.toInt ∧
      (ledger.markToMarket priceUnits).1.state.toUnbounded =
        Unbounded.refreshMark config ledger.state.toUnbounded priceUnits.toInt := by
  rcases markToMarket_cases ledger priceUnits with ⟨next, hnext, he⟩ | ⟨error, hne, he⟩ <;>
    rw [he] at hok ⊢
  · have hexact := refreshMark_eq_ok h.valid hnext
    rwa [h.config] at hexact
  · exact absurd hok hne

/-- The call reports no error. -/
def Succeeds (ledger : PerpetualLedger) : LedgerCall → Prop
  | .applyFill signedQuantityUnits priceUnits feeUnits =>
    (ledger.applyFill signedQuantityUnits priceUnits feeUnits).2.error = .ok
  | .markToMarket priceUnits => (ledger.markToMarket priceUnits).2 = .ok

instance (ledger : PerpetualLedger) : (c : LedgerCall) → Decidable (ledger.Succeeds c)
  | .applyFill .. => inferInstanceAs (Decidable (_ = _))
  | .markToMarket _ => inferInstanceAs (Decidable (_ = _))

theorem Sound.applyFill_books {config : LedgerConfig} {ledger next : PerpetualLedger}
    {mutation : LedgerMutation} {signedQuantityUnits priceUnits feeUnits : Int64}
    (h : Sound config ledger)
    (he : ledger.applyFill signedQuantityUnits priceUnits feeUnits = (next, mutation))
    (hm : mutation.succeeded = true) :
    next.state.positionUnits.toInt =
        ledger.state.positionUnits.toInt + signedQuantityUnits.toInt ∧
      next.state.totalFeeUnits.toInt = ledger.state.totalFeeUnits.toInt + feeUnits.toInt ∧
      next.state.realizedPnlUnits.toInt =
        ledger.state.realizedPnlUnits.toInt + mutation.realizedPnlUnits.toInt := by
  rcases applyFill_cases ledger signedQuantityUnits priceUnits feeUnits with
    ⟨state, realized, hok, hcall⟩ | ⟨error, hne, hcall⟩ <;> rw [hcall] at he
  · obtain ⟨rfl, rfl⟩ := Prod.mk.inj he
    obtain ⟨_, hexact, hr⟩ := fillCandidate_eq_ok h.valid h.balanced hok
    have hstate := congrArg Prod.fst hexact
    have hposition := congrArg Unbounded.LedgerState.position hstate
    have hfee := congrArg Unbounded.LedgerState.totalFee hstate
    have hrealized := congrArg Unbounded.LedgerState.realizedPnl hstate
    rw [Unbounded.applyFill_position] at hposition
    rw [Unbounded.applyFill_totalFee] at hfee
    rw [Unbounded.applyFill_realizedPnl, ← congrArg Prod.snd hexact] at hrealized
    refine ⟨hposition, hfee, ?_⟩
    rw [Int128.toInt_toInt64 hr]
    exact hrealized
  · obtain ⟨_, rfl⟩ := Prod.mk.inj he
    simp [LedgerMutation.succeeded, hne] at hm

theorem Sound.applyFill_notional {config : LedgerConfig} {ledger next : PerpetualLedger}
    (h : Sound config ledger) {signedQuantityUnits priceUnits feeUnits : Int64}
    {mutation : LedgerMutation}
    (hfill : ledger.applyFill signedQuantityUnits priceUnits feeUnits = (next, mutation))
    (hok : mutation.succeeded = true) : 0 < priceUnits.toInt ∧
      InRange64 (Unbounded.notional config signedQuantityUnits.toInt priceUnits.toInt) := by
  rcases applyFill_cases ledger signedQuantityUnits priceUnits feeUnits with
    ⟨candidate, realized, hcandidate, _⟩ | ⟨error, herror, he⟩
  · obtain ⟨hargs, _, _⟩ := fillCandidate_eq_ok h.valid h.balanced hcandidate
    unfold fillCandidate at hcandidate
    split_ifs at hcandidate
    simp only [Process.bind_eq_ok_iff, orOverflow_eq_ok] at hcandidate
    obtain ⟨fillNotional, hnotional, _⟩ := hcandidate
    rw [notional_eq_some h.valid, h.config] at hnotional
    exact ⟨hargs.price, hnotional ▸ int64_inRange fillNotional⟩
  · obtain ⟨_, rfl⟩ := Prod.mk.inj (he.symm.trans hfill)
    exact absurd (of_decide_eq_true hok) herror

theorem Sound.markToMarket_books {config : LedgerConfig} {ledger : PerpetualLedger}
    (h : Sound config ledger) (priceUnits : Int64) :
    (ledger.markToMarket priceUnits).1.state.positionUnits = ledger.state.positionUnits ∧
      (ledger.markToMarket priceUnits).1.state.totalFeeUnits = ledger.state.totalFeeUnits ∧
      (ledger.markToMarket priceUnits).1.state.realizedPnlUnits =
        ledger.state.realizedPnlUnits := by
  rcases markToMarket_cases ledger priceUnits with ⟨next, hok, he⟩ | ⟨_, _, he⟩ <;> rw [he]
  · obtain ⟨_, hexact⟩ := refreshMark_eq_ok h.valid hok
    refine ⟨?_, ?_, ?_⟩ <;> rw [← Int64.toInt_inj]
    · exact congrArg Unbounded.LedgerState.position hexact
    · exact congrArg Unbounded.LedgerState.totalFee hexact
    · exact congrArg Unbounded.LedgerState.realizedPnl hexact
  · exact ⟨rfl, rfl, rfl⟩

end PerpetualLedger
end Astra
