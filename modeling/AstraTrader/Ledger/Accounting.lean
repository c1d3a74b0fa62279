import AstraTrader.Ledger.Refinement

/-! What a reader of a `LedgerState` may rely on after any calls: exactness of every
accepted fill, and the accounting identities. -/

namespace Astra
open FixedWidth

namespace Unbounded
variable (config : LedgerConfig) (state : LedgerState) (signedQuantity price fee : ℤ)

/-- Exact values of the 128-bit operations of the closing branch that have no overflow check. -/
def plainClose : List ℤ :=
  let close := closeQuantity state.position signedQuantity
  let allocated := allocatedCost state.position state.positionCost signedQuantity
  [|state.position|, state.positionCost * close, allocated, |allocated|,
    notional config close price - |allocated|,
    realizedOnClose config state.position state.positionCost signedQuantity price,
    state.position + signedQuantity, state.positionCost - allocated,
    |state.position + signedQuantity|]

/-- The same for the settlement, the average entry price and the mark that follow. -/
def plainSettle : List ℤ :=
  let (traded, realized) := trade config state signedQuantity price
  let marked := notional config traded.position price
  [realized - fee, |traded.positionCost|, |traded.position|,
    marked - |traded.positionCost|, |traded.positionCost| - marked]

/-- All of them in `apply_fill`, with the largest power of ten that it builds. -/
def plainWide : List ℤ :=
  [10 ^ (scaleGap config).natAbs, |signedQuantity|] ++
  (if adds state signedQuantity then
    [signedQuantity.sign * notional config signedQuantity price]
  else plainClose config state signedQuantity price) ++
  plainSettle config state signedQuantity price fee

/-- Exact values of the 64-bit results that `apply_fill` stores without a range check. -/
def plainCasts : List ℤ :=
  let position := state.position + signedQuantity
  (if adds state signedQuantity then []
  else
    [closeQuantity state.position signedQuantity,
      allocatedCost state.position state.positionCost signedQuantity, |position|,
      costAfterClose config state.position state.positionCost signedQuantity price]) ++
  [(trade config state signedQuantity price).2]

end Unbounded

structure ExactFill (ledger : PerpetualLedger)
    (signedQuantityUnits priceUnits feeUnits : Int64) : Prop where
  state :
    (ledger.applyFill signedQuantityUnits priceUnits feeUnits).1.state.toUnbounded =
      (Unbounded.applyFill ledger.config ledger.state.toUnbounded signedQuantityUnits.toInt
        priceUnits.toInt feeUnits.toInt).1
  realized :
    (ledger.applyFill signedQuantityUnits priceUnits feeUnits).2.realizedPnlUnits.toInt =
      (Unbounded.applyFill ledger.config ledger.state.toUnbounded signedQuantityUnits.toInt
        priceUnits.toInt feeUnits.toInt).2
  change :
    (ledger.applyFill signedQuantityUnits priceUnits feeUnits).2.realizedPnlUnits.toInt =
      (ledger.applyFill signedQuantityUnits priceUnits
        feeUnits).1.state.realizedPnlUnits.toInt - ledger.state.realizedPnlUnits.toInt
  wide : ∀ value ∈ Unbounded.plainWide ledger.config ledger.state.toUnbounded
    signedQuantityUnits.toInt priceUnits.toInt feeUnits.toInt, InRange128 value
  casts : ∀ value ∈ Unbounded.plainCasts ledger.config ledger.state.toUnbounded
    signedQuantityUnits.toInt priceUnits.toInt, InRange64 value

structure RefinesUnbounded (ledger : PerpetualLedger) : Prop where
  fill : ∀ signedQuantityUnits priceUnits feeUnits,
    (ledger.applyFill signedQuantityUnits priceUnits feeUnits).2.error = .ok →
      ExactFill ledger signedQuantityUnits priceUnits feeUnits
  fillError : ∀ signedQuantityUnits priceUnits feeUnits,
    (ledger.applyFill signedQuantityUnits priceUnits feeUnits).2.error ≠ .ok →
      (ledger.applyFill signedQuantityUnits priceUnits feeUnits).1.state = ledger.state
  markError : ∀ priceUnits, (ledger.markToMarket priceUnits).2 ≠ .ok →
    (ledger.markToMarket priceUnits).1.state = ledger.state

section Exactness
variable {ledger : PerpetualLedger} {signedQuantityUnits priceUnits feeUnits : Int64}
  {next : LedgerState} {realized : Wide}

theorem inRange128_of_abs_le {n : ℤ} (h : |n| ≤ 2 ^ 65) : InRange128 n := by
  obtain ⟨h1, h2⟩ := abs_le.mp h
  constructor <;> norm_num at * <;> omega

theorem abs_le_of_inRange64 {n : ℤ} (h : InRange64 n) : |n| ≤ 2 ^ 63 :=
  abs_le.mpr ⟨h.1, h.2.le⟩

theorem abs_sub_le_of_abs_le {a b : ℤ} (ha : |a| ≤ 2 ^ 64) (hb : |b| ≤ 2 ^ 64) :
    |a - b| ≤ 2 ^ 65 :=
  (abs_sub a b).trans (by norm_num at *; omega)

theorem abs_le_of_abs_sign_mul_le {a b c : ℤ} (ha : a ≠ 0) (h : |a.sign * b| ≤ c) : |b| ≤ c := by
  rwa [abs_mul, Int.abs_sign_of_ne_zero ha, one_mul] at h

theorem inRange128_of_abs_le_63 {n : ℤ} (h : |n| ≤ 2 ^ 63) : InRange128 n :=
  inRange128_of_abs_le (h.trans (by norm_num))

theorem inRange128_abs {n : ℤ} (h : |n| ≤ 2 ^ 63) : InRange128 |n| :=
  inRange128_of_abs_le_63 (by rwa [abs_abs])

theorem inRange128_sub {a b : ℤ} (ha : |a| ≤ 2 ^ 63) (hb : |b| ≤ 2 ^ 63) : InRange128 (a - b) :=
  inRange128_of_abs_le (abs_sub_le_of_abs_le (ha.trans (by norm_num)) (hb.trans (by norm_num)))

theorem opposed_of_not_adds (hargs : FillArguments signedQuantityUnits priceUnits feeUnits)
    (h : ¬ Unbounded.adds ledger.state.toUnbounded signedQuantityUnits.toInt) :
    Opposed ledger.state signedQuantityUnits :=
  ⟨fun h0 => h (.inl h0), hargs.quantity, fun hs => h (.inr hs)⟩

/-- An accepted fill, as the lemmas below use it. -/
structure Accepted (ledger : PerpetualLedger) (signedQuantityUnits priceUnits feeUnits : Int64)
    (next : LedgerState) (realized : Wide) : Prop where
  valid : ledger.config.Valid
  balanced : ledger.Balanced
  arguments : FillArguments signedQuantityUnits priceUnits feeUnits
  exact : (next.toUnbounded, realized.toInt) = Unbounded.applyFill ledger.config
    ledger.state.toUnbounded signedQuantityUnits.toInt priceUnits.toInt feeUnits.toInt
  realized : InRange64 realized.toInt

section Accepted
variable (h : Accepted ledger signedQuantityUnits priceUnits feeUnits next realized)
include h

theorem Accepted.cost :
    (Unbounded.trade ledger.config ledger.state.toUnbounded signedQuantityUnits.toInt
      priceUnits.toInt).1.positionCost = next.positionCostUnits.toInt := by
  rw [← Unbounded.applyFill_positionCost feeUnits.toInt h.balanced.side
    h.arguments.quantity h.arguments.price.le, ← h.exact]
  rfl

theorem Accepted.position :
    (Unbounded.trade ledger.config ledger.state.toUnbounded signedQuantityUnits.toInt
      priceUnits.toInt).1.position = next.positionUnits.toInt := by
  rw [Unbounded.trade_position, ← Unbounded.applyFill_position ledger.config _ _
    priceUnits.toInt feeUnits.toInt, ← h.exact]
  rfl

theorem Accepted.result :
    (Unbounded.trade ledger.config ledger.state.toUnbounded signedQuantityUnits.toInt
      priceUnits.toInt).2 = realized.toInt :=
  (congrArg Prod.snd h.exact).symm

theorem Accepted.balanced_next : Unbounded.Balanced ledger.config next.toUnbounded := by
  have hb := Unbounded.balanced_applyFill h.balanced h.arguments.quantity h.arguments.price.le
    h.arguments.fee
  rwa [← h.exact] at hb

theorem Accepted.casts_inRange :
    ∀ value ∈ Unbounded.plainCasts ledger.config ledger.state.toUnbounded
      signedQuantityUnits.toInt priceUnits.toInt, InRange64 value := by
  simp only [Unbounded.plainCasts, h.result]
  by_cases hadds : Unbounded.adds ledger.state.toUnbounded signedQuantityUnits.toInt
  · simpa [if_pos hadds] using h.realized
  · have hopp := opposed_of_not_adds h.arguments hadds
    have hcost := h.cost
    rw [Unbounded.trade, if_neg hadds] at hcost
    simp only [if_neg hadds, List.cons_append, List.nil_append, List.forall_mem_cons,
      List.not_mem_nil, false_implies, implies_true, and_true]
    refine ⟨hopp.closeQuantity_inRange, allocatedCost_inRange h.balanced.side hopp.position,
      hopp.abs_sum_inRange, ?_, h.realized⟩
    exact (congrArg InRange64 hcost).mpr (int64_inRange next.positionCostUnits)

theorem Accepted.open_inRange
    (hadds : Unbounded.adds ledger.state.toUnbounded signedQuantityUnits.toInt) :
    InRange128 (signedQuantityUnits.toInt.sign *
      Unbounded.notional ledger.config signedQuantityUnits.toInt priceUnits.toInt) := by
  have hcost := h.cost
  rw [Unbounded.trade, if_pos hadds] at hcost
  have hdiff : signedQuantityUnits.toInt.sign * Unbounded.notional ledger.config
      signedQuantityUnits.toInt priceUnits.toInt =
        next.positionCostUnits.toInt - ledger.state.positionCostUnits.toInt := by
    rw [← hcost]
    exact (add_sub_cancel_left _ _).symm
  rw [hdiff]
  exact inRange128_sub (abs_toInt_le _) (abs_toInt_le _)

theorem Accepted.close_inRange
    (hadds : ¬ Unbounded.adds ledger.state.toUnbounded signedQuantityUnits.toInt) :
    ∀ value ∈ Unbounded.plainClose ledger.config ledger.state.toUnbounded
      signedQuantityUnits.toInt priceUnits.toInt, InRange128 value := by
  have hopp := opposed_of_not_adds h.arguments hadds
  have hresult := h.result
  rw [Unbounded.trade, if_neg hadds] at hresult
  have hrealized : |Unbounded.realizedOnClose ledger.config ledger.state.positionUnits.toInt
      ledger.state.positionCostUnits.toInt signedQuantityUnits.toInt priceUnits.toInt| ≤ 2 ^ 63 :=
    abs_le_of_inRange64 ((congrArg InRange64 hresult).mpr h.realized)
  have halloc := abs_le_of_inRange64 (@allocatedCost_inRange _ signedQuantityUnits
    h.balanced.side hopp.position)
  have hsum := abs_le_of_inRange64 hopp.abs_sum_inRange
  rw [abs_abs] at hsum
  simp only [Unbounded.plainClose, List.forall_mem_cons, List.not_mem_nil, false_implies,
    implies_true, and_true]
  refine ⟨inRange128_abs (abs_toInt_le _),
    abs_mul_inRange (abs_toInt_le _) abs_closeQuantity_le,
    inRange128_of_abs_le_63 halloc, inRange128_abs halloc, ?_,
    inRange128_of_abs_le_63 hrealized, inRange128_of_abs_le_63 hsum,
    inRange128_sub (abs_toInt_le _) halloc, inRange128_abs hsum⟩
  exact inRange128_of_abs_le_63 (abs_le_of_abs_sign_mul_le hopp.position hrealized)

theorem Accepted.marked_le :
    |Unbounded.notional ledger.config next.positionUnits.toInt priceUnits.toInt -
      (|next.positionCostUnits.toInt|)| ≤ 2 ^ 63 := by
  have hmark : next.lastMarkPriceUnits.toInt = priceUnits.toInt :=
    congrArg (fun r => r.1.lastMarkPrice) h.exact
  have hbn := h.balanced_next
  by_cases h0 : next.positionUnits.toInt = 0
  · have hside : next.positionCostUnits.toInt = next.positionUnits.toInt.sign * _ := hbn.side
    rw [h0, Int.sign_zero, zero_mul] at hside
    rw [h0, hside, Unbounded.notional_zero]
    norm_num
  · apply abs_le_of_abs_sign_mul_le h0
    have hu : next.unrealizedPnlUnits.toInt = _ := hbn.unrealized
    rw [← hmark]
    exact (congrArg (|·| ≤ _) hu).mp (abs_toInt_le next.unrealizedPnlUnits)

theorem Accepted.settle_inRange :
    ∀ value ∈ Unbounded.plainSettle ledger.config ledger.state.toUnbounded
      signedQuantityUnits.toInt priceUnits.toInt feeUnits.toInt, InRange128 value := by
  have hmarked := h.marked_le
  simp only [Unbounded.plainSettle, h.cost, h.position, h.result, List.forall_mem_cons,
    List.not_mem_nil, false_implies, implies_true, and_true]
  refine ⟨inRange128_sub (abs_le_of_inRange64 h.realized) (abs_toInt_le _),
    inRange128_abs (abs_toInt_le _), inRange128_abs (abs_toInt_le _),
    inRange128_of_abs_le_63 hmarked, inRange128_of_abs_le_63 ?_⟩
  rwa [abs_sub_comm]

theorem Accepted.wide_inRange :
    ∀ value ∈ Unbounded.plainWide ledger.config ledger.state.toUnbounded
      signedQuantityUnits.toInt priceUnits.toInt feeUnits.toInt, InRange128 value := by
  simp only [Unbounded.plainWide, List.forall_mem_append, List.forall_mem_cons,
    List.not_mem_nil, false_implies, implies_true, and_true]
  refine ⟨⟨⟨ten_pow_inRange h.valid.scaleGap_le, inRange128_abs (abs_toInt_le _)⟩, ?_⟩,
    h.settle_inRange⟩
  split_ifs with hadds
  · simpa using h.open_inRange hadds
  · exact h.close_inRange hadds

end Accepted
end Exactness

/-- Every accepted fill of a validly configured ledger is exact, and every refused call
leaves the state as it was. -/
theorem run_refinesUnbounded (config : LedgerConfig)
    (hconfig : (PerpetualLedger.new config).configError = .ok) (calls : List LedgerCall) :
    RefinesUnbounded (PerpetualLedger.run config calls) := by
  have hs := PerpetualLedger.sound_run hconfig calls
  refine ⟨fun q p f hok => ?_, fun q p f herr => ?_, fun p herr => ?_⟩
  · rcases applyFill_cases (PerpetualLedger.run config calls) q p f with
      ⟨next, realized, hnext, he⟩ | ⟨_, hne, he⟩
    · obtain ⟨hargs, hexact, hr⟩ := fillCandidate_eq_ok hs.valid hs.balanced hnext
      have ha : Accepted (PerpetualLedger.run config calls) q p f next realized :=
        ⟨hs.valid, hs.balanced, hargs, hexact, hr⟩
      have hcast : realized.toInt64.toInt = realized.toInt := Int128.toInt_toInt64 hr
      refine ⟨?_, ?_, ?_, ha.wide_inRange, ha.casts_inRange⟩ <;> rw [he]
      · exact congrArg Prod.fst hexact
      · exact hcast.trans (congrArg Prod.snd hexact)
      · have hp := Unbounded.applyFill_realizedPnl (PerpetualLedger.run config calls).config
          (PerpetualLedger.run config calls).state.toUnbounded q.toInt p.toInt f.toInt
        rw [← hexact] at hp
        rw [hcast]
        exact (sub_eq_of_eq_add' hp).symm
    · rw [he] at hok
      exact absurd hok hne
  · rcases applyFill_cases (PerpetualLedger.run config calls) q p f with
      ⟨_, _, _, he⟩ | ⟨_, _, he⟩ <;> rw [he] at herr ⊢
    exact absurd rfl herr
  · rcases markToMarket_cases (PerpetualLedger.run config calls) p with
      ⟨_, _, he⟩ | ⟨_, _, he⟩ <;> rw [he] at herr ⊢
    exact absurd rfl herr

theorem run_refinesUnbounded_reversal :
    RefinesUnbounded (PerpetualLedger.run { initialCashUnits := 10000 }
      [.applyFill 10 100 0, .applyFill (-20) 90 0]) :=
  run_refinesUnbounded _ (by decide +kernel) _

/-- The identities, in terms of `Decimal.shift z x`, which is `x * 10 ^ z` rounded down. -/
structure AccountingIdentities (config : LedgerConfig) (state : LedgerState) : Prop where
  cash : state.cashUnits.toInt = config.initialCashUnits.toInt +
    state.realizedPnlUnits.toInt - state.totalFeeUnits.toInt
  equity : state.equityUnits.toInt = state.cashUnits.toInt + state.unrealizedPnlUnits.toInt
  unrealized : state.unrealizedPnlUnits.toInt = state.positionUnits.toInt.sign *
    (Decimal.shift (Unbounded.scaleGap config)
      (|state.positionUnits.toInt| * state.lastMarkPriceUnits.toInt) -
        |state.positionCostUnits.toInt|)
  flat : state.positionUnits = 0 → state.positionCostUnits = 0 ∧
    state.averageEntryPriceUnits = 0 ∧ state.unrealizedPnlUnits = 0
  side : state.positionCostUnits = 0 ∨
    state.positionCostUnits.toInt.sign = state.positionUnits.toInt.sign
  fee : 0 ≤ state.totalFeeUnits.toInt
  average : state.positionUnits ≠ 0 → state.averageEntryPriceUnits.toInt =
    Decimal.shift (-Unbounded.scaleGap config) |state.positionCostUnits.toInt| /
      |state.positionUnits.toInt|

theorem sign_of_onSide {position positionCost : ℤ} (h : Unbounded.OnSide position positionCost) :
    positionCost = 0 ∨ positionCost.sign = position.sign := by
  by_cases h0 : positionCost = 0
  · exact .inl h0
  · right
    have hpos : 0 < |positionCost| := abs_pos.mpr h0
    conv_lhs => rw [h]
    rw [Int.sign_mul, Int.sign_eq_one_of_pos hpos, mul_one, Int.sign_sign]

theorem accounting_of_balanced {config : LedgerConfig} {state : LedgerState}
    (h : Unbounded.Balanced config state.toUnbounded) : AccountingIdentities config state where
  cash := h.cash
  equity := h.equity
  unrealized := by
    have hu := h.unrealized
    rw [Unbounded.notional_eq_shift h.mark] at hu
    exact hu
  flat h0 := by
    rw [eq_zero_iff] at h0
    have hcost : state.positionCostUnits.toInt = state.positionUnits.toInt.sign * _ := h.side
    have hu : state.unrealizedPnlUnits.toInt = state.positionUnits.toInt.sign * _ := h.unrealized
    rw [h0, Int.sign_zero, zero_mul] at hcost hu
    exact ⟨(eq_zero_iff _).mpr hcost, (eq_zero_iff _).mpr (h.flat h0), (eq_zero_iff _).mpr hu⟩
  side := by
    rw [eq_zero_iff]
    exact sign_of_onSide h.side
  fee := h.fee
  average h0 := by
    rw [← Unbounded.averageEntry_eq_shift]
    exact h.average (mt (eq_zero_iff _).mpr h0)

theorem run_accounting (config : LedgerConfig)
    (hconfig : (PerpetualLedger.new config).configError = .ok) (calls : List LedgerCall) :
    AccountingIdentities config (PerpetualLedger.run config calls).state := by
  have hs := PerpetualLedger.sound_run hconfig calls
  have hb := hs.balanced
  rw [PerpetualLedger.Balanced, hs.config] at hb
  exact accounting_of_balanced hb

theorem run_accounting_reversal : AccountingIdentities { initialCashUnits := 10000 }
    (PerpetualLedger.run { initialCashUnits := 10000 }
      [.applyFill 10 100 0, .applyFill (-20) 90 0, .markToMarket 80]).state :=
  run_accounting _ (by decide +kernel) _

end Astra
