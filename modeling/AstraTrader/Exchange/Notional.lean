import AstraTrader.Exchange.Model
import AstraTrader.Ledger.Refinement

/-! What a quantity is worth at a price, which the risk engine, the paper exchange and the ledger
each compute with a routine of their own. Only the ledger checks the power of ten it multiplies
by. -/

namespace Astra
open FixedWidth

section Valuation
variable {config : LedgerConfig}

theorem toInt_accountUnits (hv : config.Valid) {value : Wide}
    (hin : Unbounded.sourceScale config < config.accountScale.toNat →
      InRange128 (value.toInt * 10 ^ (config.accountScale.toNat - Unbounded.sourceScale config))) :
    (accountUnits config value).toInt = Unbounded.rescale value.toInt
      (Unbounded.sourceScale config) config.accountScale.toNat := by
  have hprice := hv.price
  have hquantity := hv.quantity
  have haccount := hv.account
  unfold Unbounded.sourceScale at hin ⊢
  unfold accountUnits Unbounded.rescale
  dsimp only
  have hbyte : ∀ k ≤ 36, (UInt8.ofNat k).toNat = k := by
    intro k hk
    rw [UInt8.toNat_ofNat']
    exact Nat.mod_eq_of_lt (by omega)
  split_ifs with hdown hup hup
  · omega
  · rw [hbyte _ (by omega), Int128.toInt_div_of_pos, toInt_powerOfTen (by omega)]
    rw [toInt_powerOfTen (by omega)]
    exact Decimal.ten_pow_pos _
  · rw [hbyte _ (by omega), Int128.toInt_mul, toInt_powerOfTen (by omega)]
    rw [toInt_powerOfTen (by omega)]
    exact hin hup
  · rw [show config.priceScale.toNat + config.quantityScale.toNat =
      config.accountScale.toNat by omega, Nat.sub_self, pow_zero, Int.tdiv_one]

theorem abs_mul_units_inRange (quantity price : Int64) :
    InRange128 (|quantity.toInt| * price.toInt) :=
  abs_mul_inRange (by rw [abs_abs]; exact abs_toInt_le _) (abs_toInt_le _)

theorem toInt_accountNotional (hv : config.Valid) {request : OrderRequest} {market : MarketEvent}
    (hin : Unbounded.sourceScale config < config.accountScale.toNat →
      InRange128 (|request.quantityUnits.toInt| *
        (RiskEngine.referencePrice request market).toInt *
        10 ^ (config.accountScale.toNat - Unbounded.sourceScale config))) :
    (RiskEngine.accountNotional request market config).toInt =
      Unbounded.notional config request.quantityUnits.toInt
        (RiskEngine.referencePrice request market).toInt := by
  have hmagnitude : (RiskEngine.magnitude (wide request.quantityUnits)).toInt =
      |request.quantityUnits.toInt| := by
    have hquantity := abs_toInt_le request.quantityUnits
    have hnonneg := abs_nonneg request.quantityUnits.toInt
    rw [RiskEngine.toInt_magnitude, toInt_wide]
    rw [toInt_wide]
    exact ⟨by omega, by omega⟩
  have hproduct : (RiskEngine.magnitude (wide request.quantityUnits) *
      wide (RiskEngine.referencePrice request market)).toInt =
      |request.quantityUnits.toInt| * (RiskEngine.referencePrice request market).toInt := by
    rw [Int128.toInt_mul, hmagnitude, toInt_wide]
    rw [hmagnitude, toInt_wide]
    exact abs_mul_units_inRange _ _
  rw [RiskEngine.accountNotional, toInt_accountUnits hv (by rwa [hproduct]), hproduct]
  rfl

theorem calculateNotional_eq_some (hv : config.Valid) {price quantity notional : Int64}
    (hin : Unbounded.sourceScale config < config.accountScale.toNat →
      InRange128 (|quantity.toInt| * price.toInt *
        10 ^ (config.accountScale.toNat - Unbounded.sourceScale config))) :
    calculateNotional price quantity config = some notional ↔
      notional.toInt = Unbounded.notional config quantity.toInt price.toInt := by
  have hproduct : (wide price * magnitude quantity).toInt = |quantity.toInt| * price.toInt := by
    rw [Int128.toInt_mul, toInt_wide, toInt_magnitude, mul_comm]
    rw [toInt_wide, toInt_magnitude, mul_comm]
    exact abs_mul_units_inRange _ _
  rw [calculateNotional, narrow_eq_some, toInt_accountUnits hv (by rwa [hproduct]), hproduct]
  rfl

end Valuation

/-! The three routines side by side. -/

/-- Price times quantity in account units, rounded down. -/
def exactNotional (config : LedgerConfig) (priceUnits quantityUnits : Int64) : ℤ :=
  Decimal.shift (Unbounded.scaleGap config) (|quantityUnits.toInt| * priceUnits.toInt)

/-- Exact values of what the routines build on the way; a division only makes them smaller. -/
def notionalProducts (config : LedgerConfig) (priceUnits quantityUnits : Int64) : List ℤ :=
  [|quantityUnits.toInt|, |quantityUnits.toInt| * priceUnits.toInt,
    10 ^ (Unbounded.scaleGap config).natAbs,
    |quantityUnits.toInt| * priceUnits.toInt *
      10 ^ (config.accountScale.toNat - Unbounded.sourceScale config)]

/-- A routine that reports failure has the exact value whenever it fits, and fails otherwise. -/
def ReportsExactly (exact : ℤ) (reported : Option Int64) : Prop :=
  (InRange64 exact → ∃ notional, reported = some notional ∧ notional.toInt = exact) ∧
    (reported = none ↔ ¬ InRange64 exact)

structure NotionalsAgree (config : LedgerConfig) (priceUnits quantityUnits : Int64) : Prop where
  risk : InRange64 (exactNotional config priceUnits quantityUnits) →
    ∀ request market, request.quantityUnits = quantityUnits →
      RiskEngine.referencePrice request market = priceUnits →
      (RiskEngine.accountNotional request market config).toInt =
        exactNotional config priceUnits quantityUnits
  exchange : ReportsExactly (exactNotional config priceUnits quantityUnits)
    (calculateNotional priceUnits quantityUnits config)
  ledger : ReportsExactly (exactNotional config priceUnits quantityUnits)
    ((PerpetualLedger.new config).notional quantityUnits priceUnits)
  products : ∀ product ∈ notionalProducts config priceUnits quantityUnits, InRange128 product

theorem reportsExactly_of_eq_some_iff {exact : ℤ} {reported : Option Int64}
    (h : ∀ notional, reported = some notional ↔ notional.toInt = exact) :
    ReportsExactly exact reported := by
  have hfits : InRange64 exact → ∃ notional, reported = some notional ∧ notional.toInt = exact := by
    intro hin
    have hvalue := int64_toInt_ofInt hin
    exact ⟨_, (h _).mpr hvalue, hvalue⟩
  refine ⟨hfits, fun hnone hin => ?_, fun hout => ?_⟩
  · obtain ⟨notional, hsome, _⟩ := hfits hin
    rw [hnone] at hsome
    exact absurd hsome (by simp)
  · cases hreported : reported with
    | none => rfl
    | some notional => exact absurd ((h notional).mp hreported ▸ int64_inRange notional) hout

theorem new_config (config : LedgerConfig) : (PerpetualLedger.new config).config = config := by
  unfold PerpetualLedger.new
  split_ifs <;> rfl

theorem notionalsAgree_iff (config : LedgerConfig)
    (hconfig : (PerpetualLedger.new config).configError = .ok) (priceUnits quantityUnits : Int64)
    (hprice : 0 < priceUnits.toInt) :
    NotionalsAgree config priceUnits quantityUnits ↔
      |quantityUnits.toInt| * priceUnits.toInt ≤ (2 ^ 127 - 1) /
        10 ^ (config.accountScale.toNat -
          (config.priceScale.toNat + config.quantityScale.toNat)) := by
  have hv := new_configError_eq_ok.mp hconfig
  have hpow := Decimal.ten_pow_pos (config.accountScale.toNat - Unbounded.sourceScale config)
  have hnonneg : 0 ≤ |quantityUnits.toInt| * priceUnits.toInt :=
    mul_nonneg (abs_nonneg _) hprice.le
  have hscaled := mul_nonneg hnonneg hpow.le
  change _ ↔ _ ≤ (2 ^ 127 - 1) / 10 ^ (config.accountScale.toNat - Unbounded.sourceScale config)
  rw [Int.le_ediv_iff_mul_le hpow]
  constructor
  · intro h
    have hin := h.products _ (List.mem_cons_of_mem _ (List.mem_cons_of_mem _
      (List.mem_cons_of_mem _ (List.mem_singleton_self _))))
    exact Int.le_sub_one_of_lt hin.2
  · intro hle
    have hin : InRange128 (|quantityUnits.toInt| * priceUnits.toInt *
        10 ^ (config.accountScale.toNat - Unbounded.sourceScale config)) :=
      ⟨by omega, Int.lt_of_le_sub_one hle⟩
    have hexact : Unbounded.notional config quantityUnits.toInt priceUnits.toInt =
        exactNotional config priceUnits quantityUnits := Unbounded.notional_eq_shift hprice.le
    refine ⟨fun _ request market hquantity hreference => ?_, ?_, ?_, ?_⟩
    · rw [toInt_accountNotional hv (fun _ => by rwa [hquantity, hreference]), hquantity, hreference,
        hexact]
    · refine reportsExactly_of_eq_some_iff fun notional => ?_
      rw [calculateNotional_eq_some hv (fun _ => hin), hexact]
    · refine reportsExactly_of_eq_some_iff fun notional => ?_
      rw [notional_eq_some (by rwa [new_config]), new_config, hexact]
    · have hquantity : InRange128 |quantityUnits.toInt| := by
        have hle := abs_toInt_le quantityUnits
        have := abs_nonneg quantityUnits.toInt
        exact ⟨by omega, by omega⟩
      simp only [notionalProducts, List.forall_mem_cons, List.not_mem_nil, false_implies,
        implies_true, and_true]
      exact ⟨hquantity, abs_mul_units_inRange _ _, ten_pow_inRange hv.scaleGap_le, hin⟩

theorem notionalsAgree_iff_eighteenDigits :
    NotionalsAgree { accountScale := 18 } 1000 (-2000) ↔
      |(-2000 : Int64).toInt| * (1000 : Int64).toInt ≤ (2 ^ 127 - 1) / 10 ^ (18 - (0 + 0)) :=
  notionalsAgree_iff { accountScale := 18 } (by decide +kernel) 1000 (-2000) (by decide)

/-- At `2 ^ 55` units of `2 ^ 55` the scaled product is a multiple of `2 ^ 128`: the ledger reports
an overflow, and the exchange a notional of zero. -/
theorem not_forall_notionalsAgree :
    ¬ ∀ (config : LedgerConfig) (priceUnits quantityUnits : Int64),
      (PerpetualLedger.new config).configError = .ok → 0 < priceUnits.toInt →
      NotionalsAgree config priceUnits quantityUnits := by
  intro h
  have hagree := h { accountScale := 18 } 36028797018963968 36028797018963968
    (by decide +kernel) (by decide)
  have hledger : (PerpetualLedger.new { accountScale := 18 }).notional 36028797018963968
      36028797018963968 = none := by decide +kernel
  have hexchange := hagree.exchange.2.mpr (hagree.ledger.2.mp hledger)
  exact absurd hexchange (by decide +kernel)

end Astra
