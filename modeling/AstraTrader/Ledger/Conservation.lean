import AstraTrader.Ledger.Refinement
import Mathlib.Tactic.LinearCombination

/-! Value is conserved: realized result minus cost basis telescopes to the traded cash flow,
up to the unit that a reversal can lose by splitting one notional into two. -/

namespace Astra

namespace Unbounded
variable {config : LedgerConfig} {state : LedgerState} {signedQuantity price : ℤ}

/-- The signed cash a fill brings in, before fees. -/
def cashFlow (config : LedgerConfig) (signedQuantity price : ℤ) : ℤ :=
  -(signedQuantity.sign * Decimal.shift (scaleGap config) (|signedQuantity| * price))

/-- A fill reverses when it carries an open position to the other side. -/
def reverses (position signedQuantity : ℤ) : Prop := position * (position + signedQuantity) < 0

instance (position signedQuantity : ℤ) : Decidable (reverses position signedQuantity) :=
  inferInstanceAs (Decidable (_ < _))

/-- The notional lost or gained by cutting a quantity in two. -/
def splitError (config : LedgerConfig) (closed opened price : ℤ) : ℤ :=
  Decimal.shift (scaleGap config) (|closed| * price) +
    Decimal.shift (scaleGap config) (|opened| * price) -
      Decimal.shift (scaleGap config) ((|closed| + |opened|) * price)

theorem abs_splitError_le (closed opened price : ℤ) :
    |splitError config closed opened price| ≤ 1 := by
  have h1 := Decimal.add_le_shift (scaleGap config) (|closed| * price) (|opened| * price)
  have h2 := Decimal.shift_add_le (scaleGap config) (|closed| * price) (|opened| * price)
  rw [← add_mul] at h1 h2
  unfold splitError
  rw [abs_le]
  constructor <;> omega

theorem splitError_of_nonneg (h : 0 ≤ scaleGap config) (closed opened price : ℤ) :
    splitError config closed opened price = 0 := by
  rw [splitError, add_mul, Decimal.shift_add_of_nonneg h, sub_self]

/-- What a fill adds to the balance beyond its cash flow. -/
def tradeError (config : LedgerConfig) (position signedQuantity price : ℤ) : ℤ :=
  if reverses position signedQuantity then
    position.sign * splitError config position (position + signedQuantity) price
  else 0

theorem abs_tradeError_le (position signedQuantity price : ℤ) :
    |tradeError config position signedQuantity price| ≤
      if reverses position signedQuantity then 1 else 0 := by
  unfold tradeError
  split_ifs with hrev
  · have hp : position ≠ 0 := by
      rintro rfl
      exact absurd hrev (by simp [reverses])
    rw [abs_mul, Int.abs_sign_of_ne_zero hp, one_mul]
    exact abs_splitError_le _ _ _
  · exact abs_zero.le

theorem tradeError_of_nonneg (h : 0 ≤ scaleGap config) (position signedQuantity price : ℤ) :
    tradeError config position signedQuantity price = 0 := by
  unfold tradeError
  rw [splitError_of_nonneg h, mul_zero, ite_self]

theorem opposite_of_not_adds (hq : signedQuantity ≠ 0) (h : ¬ adds state signedQuantity) :
    Opposite state.position signedQuantity := by
  obtain ⟨hp, hs⟩ := not_or.mp h
  exact opposite_of_sign_ne hp hq hs

theorem Opposite.sign_eq_neg {position : ℤ} (h : Opposite position signedQuantity) :
    signedQuantity.sign = -position.sign := by
  rcases h with ⟨hp, hq⟩ | ⟨hp, hq⟩
  · rw [Int.sign_eq_neg_one_of_neg hq, Int.sign_eq_one_of_pos hp]
  · rw [Int.sign_eq_one_of_pos hq, Int.sign_eq_neg_one_of_neg hp, neg_neg]

theorem not_reverses_of_adds (h : adds state signedQuantity) :
    ¬ reverses state.position signedQuantity := by
  unfold reverses
  rcases h with h0 | hs
  · simp [h0]
  · rcases lt_trichotomy state.position 0 with hp | hp | hp
    · rw [Int.sign_eq_neg_one_of_neg hp] at hs
      have hq := Int.sign_eq_neg_one_iff_neg.mp hs.symm
      exact (mul_pos_of_neg_of_neg hp (by omega)).not_gt
    · simp [hp]
    · rw [Int.sign_eq_one_of_pos hp] at hs
      have hq := Int.sign_eq_one_iff_pos.mp hs.symm
      exact (mul_pos hp (by omega)).not_gt

theorem closeQuantity_of_not_reverses {position : ℤ} (h : Opposite position signedQuantity)
    (hrev : ¬ reverses position signedQuantity) :
    closeQuantity position signedQuantity = |signedQuantity| := by
  apply min_eq_right
  rcases h with ⟨hp, hq⟩ | ⟨hp, hq⟩
  · have hsum : 0 ≤ position + signedQuantity := by
      by_contra hneg
      exact hrev (mul_neg_of_pos_of_neg hp (by omega))
    rw [abs_of_neg hq, abs_of_pos hp]
    omega
  · have hsum : position + signedQuantity ≤ 0 := by
      by_contra hpos
      exact hrev (mul_neg_of_neg_of_pos hp (by omega))
    rw [abs_of_pos hq, abs_of_neg hp]
    omega

theorem closeQuantity_of_reverses {position : ℤ} (h : Opposite position signedQuantity)
    (hrev : reverses position signedQuantity) :
    closeQuantity position signedQuantity = |position| ∧
      |signedQuantity| = |position| + |position + signedQuantity| ∧
      (position + signedQuantity).sign = -position.sign := by
  unfold closeQuantity
  rcases h with ⟨hp, hq⟩ | ⟨hp, hq⟩
  · have hsum : position + signedQuantity < 0 := neg_of_mul_neg_right hrev hp.le
    rw [abs_of_neg hq, abs_of_pos hp, abs_of_neg hsum, Int.sign_eq_neg_one_of_neg hsum,
      Int.sign_eq_one_of_pos hp]
    omega
  · have hsum : 0 < position + signedQuantity := pos_of_mul_neg_right hrev hp.le
    rw [abs_of_pos hq, abs_of_neg hp, abs_of_pos hsum, Int.sign_eq_one_of_pos hsum,
      Int.sign_eq_neg_one_of_neg hp]
    omega

theorem allocatedCost_of_whole {position positionCost : ℤ} (hp : position ≠ 0)
    (h : closeQuantity position signedQuantity = |position|) :
    allocatedCost position positionCost signedQuantity = positionCost := by
  rw [allocatedCost, h]
  exact Int.mul_tdiv_cancel _ (abs_pos.mpr hp).ne'

theorem sign_eq_of_not_reverses {position : ℤ} (h : Opposite position signedQuantity)
    (hrev : ¬ reverses position signedQuantity) (h0 : position + signedQuantity ≠ 0) :
    (position + signedQuantity).sign = position.sign := by
  rcases h with ⟨hp, _⟩ | ⟨hp, _⟩
  · have hsum : 0 < position + signedQuantity := by
      by_contra hneg
      exact hrev (mul_neg_of_pos_of_neg hp (by omega))
    rw [Int.sign_eq_one_of_pos hsum, Int.sign_eq_one_of_pos hp]
  · have hsum : position + signedQuantity < 0 := by
      by_contra hpos
      exact hrev (mul_neg_of_neg_of_pos hp (by omega))
    rw [Int.sign_eq_neg_one_of_neg hsum, Int.sign_eq_neg_one_of_neg hp]

/-- The step of the telescope. -/
theorem trade_conserves (h : OnSide state.position state.positionCost)
    (hq : signedQuantity ≠ 0) (hprice : 0 ≤ price) :
    (trade config state signedQuantity price).2 -
        ((trade config state signedQuantity price).1.positionCost - state.positionCost) =
      cashFlow config signedQuantity price +
        tradeError config state.position signedQuantity price := by
  unfold trade tradeError
  by_cases hadds : adds state signedQuantity
  · rw [if_pos hadds, if_neg (not_reverses_of_adds hadds)]
    simp only [openOrAdd, cashFlow, notional_eq_shift hprice]
    ring
  have hopposite := opposite_of_not_adds hq hadds
  have hsign := hopposite.sign_eq_neg
  have hp : state.position ≠ 0 := fun h0 => hadds (.inl h0)
  rw [if_neg hadds]
  simp only [closeOrReverse, realizedOnClose, costAfterClose, cashFlow]
  have hcost : state.positionCost = state.position.sign * |state.positionCost| := h
  have halloc : allocatedCost state.position state.positionCost signedQuantity =
      state.position.sign * |allocatedCost state.position state.positionCost signedQuantity| := by
    rw [abs_allocatedCost h hp]
    exact allocatedCost_eq h
  by_cases hrev : reverses state.position signedQuantity
  -- the old cost leaves whole, and the rest of the fill opens the other side
  · obtain ⟨hclose, hsize, hflip⟩ := closeQuantity_of_reverses hopposite hrev
    have h0 : state.position + signedQuantity ≠ 0 := by
      intro h0
      rw [h0, Int.sign_zero] at hflip
      exact hp (Int.sign_eq_zero_iff_zero.mp (neg_eq_zero.mp hflip.symm))
    have hs : (state.position + signedQuantity).sign ≠ state.position.sign := by
      rw [hflip]
      intro hs
      exact hp (Int.sign_eq_zero_iff_zero.mp (by omega))
    rw [if_pos hrev, if_neg h0, if_neg hs, allocatedCost_of_whole hp hclose, hclose, hflip,
      hsign, hsize, splitError, notional_eq_shift hprice, notional_eq_shift hprice, abs_abs]
    linear_combination hcost
  · have hclose := closeQuantity_of_not_reverses hopposite hrev
    rw [if_neg hrev, hsign, hclose, notional_eq_shift hprice, abs_abs]
    by_cases h0 : state.position + signedQuantity = 0
    · have hwhole : closeQuantity state.position signedQuantity = |state.position| := by
        rw [hclose, ← abs_neg state.position]
        exact congrArg abs (by omega)
      rw [if_pos h0, allocatedCost_of_whole hp hwhole]
      linear_combination hcost
    -- what truncation keeps out of the result stays in the cost
    · rw [if_neg h0, if_pos (sign_eq_of_not_reverses hopposite hrev h0)]
      linear_combination halloc

end Unbounded

/-! The ledger with a tape of what it traded. -/

structure TapedLedger where
  ledger : PerpetualLedger
  cashFlow : ℤ := 0
  reversals : ℕ := 0

namespace TapedLedger

/-- A call of the ledger; the tape records accepted fills only. -/
def call (tape : TapedLedger) : LedgerCall → TapedLedger
  | .applyFill signedQuantityUnits priceUnits feeUnits =>
    let result := tape.ledger.applyFill signedQuantityUnits priceUnits feeUnits
    if result.2.succeeded then
      { ledger := result.1
        cashFlow := tape.cashFlow + Unbounded.cashFlow tape.ledger.config
          signedQuantityUnits.toInt priceUnits.toInt
        reversals := tape.reversals + if Unbounded.reverses
          tape.ledger.state.positionUnits.toInt signedQuantityUnits.toInt then 1 else 0 }
    else { tape with ledger := result.1 }
  | .markToMarket priceUnits => { tape with ledger := (tape.ledger.markToMarket priceUnits).1 }

def run (config : LedgerConfig) (calls : List LedgerCall) : TapedLedger :=
  calls.foldl call { ledger := PerpetualLedger.new config }

theorem run_ledger (config : LedgerConfig) (calls : List LedgerCall) :
    (run config calls).ledger = PerpetualLedger.run config calls := by
  refine Process.run_simulation_of_forall
    (fun (tape : TapedLedger) ledger => tape.ledger = ledger) (fun tape ledger c h => ?_) rfl calls
  subst h
  cases c with
  | applyFill q p f =>
    simp only [call, PerpetualLedger.call]
    split_ifs <;> rfl
  | markToMarket p => rfl

/-- How far realized result minus cost is from the traded cash flow. -/
def error (tape : TapedLedger) : ℤ :=
  tape.ledger.state.realizedPnlUnits.toInt - tape.ledger.state.positionCostUnits.toInt -
    tape.cashFlow

structure Conserved (config : LedgerConfig) (tape : TapedLedger) : Prop where
  sound : PerpetualLedger.Sound config tape.ledger
  error_le : |tape.error| ≤ tape.reversals
  exact : 0 ≤ Unbounded.scaleGap config → tape.error = 0

theorem call_applyFill_of_ok {tape : TapedLedger} {q p f : Int64} {next : LedgerState}
    {realized : Wide} (he : tape.ledger.applyFill q p f =
      ({ tape.ledger with state := next },
        { error := .ok, realizedPnlUnits := realized.toInt64, feeUnits := f })) :
    tape.call (.applyFill q p f) =
      { ledger := { tape.ledger with state := next }
        cashFlow := tape.cashFlow + Unbounded.cashFlow tape.ledger.config q.toInt p.toInt
        reversals := tape.reversals + if Unbounded.reverses
          tape.ledger.state.positionUnits.toInt q.toInt then 1 else 0 } := by
  simp [call, he, LedgerMutation.succeeded]

theorem error_applyFill {tape : TapedLedger} {q p f : Int64} {next : LedgerState}
    {realized : Wide} (hb : tape.ledger.Balanced) (hargs : FillArguments q p f)
    (hexact : (next.toUnbounded, realized.toInt) = Unbounded.applyFill tape.ledger.config
      tape.ledger.state.toUnbounded q.toInt p.toInt f.toInt) :
    next.realizedPnlUnits.toInt - next.positionCostUnits.toInt -
        (tape.cashFlow + Unbounded.cashFlow tape.ledger.config q.toInt p.toInt) =
      tape.error + Unbounded.tradeError tape.ledger.config
        tape.ledger.state.positionUnits.toInt q.toInt p.toInt := by
  have hstep := @Unbounded.trade_conserves tape.ledger.config _ _ _ hb.side hargs.quantity
    hargs.price.le
  have hrealized := Unbounded.applyFill_realizedPnl tape.ledger.config
    tape.ledger.state.toUnbounded q.toInt p.toInt f.toInt
  have hcost := @Unbounded.applyFill_positionCost tape.ledger.config _ _ _ f.toInt hb.side
    hargs.quantity hargs.price.le
  rw [← hexact] at hrealized hcost
  have hresult : realized.toInt = _ := congrArg Prod.snd hexact
  simp only [Unbounded.applyFill, LedgerState.toUnbounded] at hrealized hcost hresult hstep
  unfold error
  omega

theorem Conserved.applyFill {config : LedgerConfig} {tape : TapedLedger}
    (h : Conserved config tape) (q p f : Int64) :
    Conserved config (tape.call (.applyFill q p f)) := by
  have hs := h.sound.applyFill q p f
  rcases applyFill_cases tape.ledger q p f with ⟨next, realized, hok, he⟩ | ⟨e, hne, he⟩
  · obtain ⟨hargs, hexact, _⟩ := fillCandidate_eq_ok h.sound.valid h.sound.balanced hok
    have herror := error_applyFill h.sound.balanced hargs hexact
    rw [call_applyFill_of_ok he]
    rw [he] at hs
    refine ⟨hs, ?_, fun hz => ?_⟩
    · have hle := @Unbounded.abs_tradeError_le tape.ledger.config
        tape.ledger.state.positionUnits.toInt q.toInt p.toInt
      have hold := h.error_le
      show |next.realizedPnlUnits.toInt - next.positionCostUnits.toInt - _| ≤ _
      rw [herror]
      refine (abs_add_le _ _).trans ?_
      push_cast
      split_ifs at hle ⊢ <;> omega
    · have hold := h.exact hz
      have hnew := Unbounded.tradeError_of_nonneg (h.sound.config ▸ hz)
        tape.ledger.state.positionUnits.toInt q.toInt p.toInt
      show next.realizedPnlUnits.toInt - next.positionCostUnits.toInt - _ = 0
      rw [herror, hold, hnew, add_zero]
  · have hcall : tape.call (.applyFill q p f) = tape := by
      simp [call, he, LedgerMutation.succeeded, hne]
    rwa [hcall]

theorem Conserved.markToMarket {config : LedgerConfig} {tape : TapedLedger}
    (h : Conserved config tape) (p : Int64) :
    Conserved config (tape.call (.markToMarket p)) := by
  have hs := h.sound.markToMarket p
  rcases markToMarket_cases tape.ledger p with ⟨next, hok, he⟩ | ⟨_, _, he⟩
  · obtain ⟨_, hexact⟩ := refreshMark_eq_ok h.sound.valid hok
    have hrealized : next.realizedPnlUnits.toInt = tape.ledger.state.realizedPnlUnits.toInt :=
      congrArg Unbounded.LedgerState.realizedPnl hexact
    have hcost : next.positionCostUnits.toInt = tape.ledger.state.positionCostUnits.toInt :=
      congrArg Unbounded.LedgerState.positionCost hexact
    have herror : (tape.call (.markToMarket p)).error = tape.error := by
      simp only [call, he, error, hrealized, hcost]
    refine ⟨hs, ?_, fun hz => ?_⟩ <;> rw [herror]
    · exact h.error_le
    · exact h.exact hz
  · have hcall : tape.call (.markToMarket p) = tape := by simp only [call, he]
    rwa [hcall]

theorem conserved_run {config : LedgerConfig}
    (h : (PerpetualLedger.new config).configError = .ok) (calls : List LedgerCall) :
    Conserved config (run config calls) := by
  refine Process.run_invariant_of_forall (fun tape c hc => ?_) ?_ calls
  · cases c with
    | applyFill q p f => exact hc.applyFill q p f
    | markToMarket p => exact hc.markToMarket p
  · have hs := PerpetualLedger.sound_new h
    have herror : (TapedLedger.mk (PerpetualLedger.new config) 0 0).error = 0 := by
      unfold PerpetualLedger.new
      split_ifs <;> rfl
    exact ⟨hs, by rw [herror]; rfl, fun _ => herror⟩

end TapedLedger

theorem run_conserves (config : LedgerConfig)
    (hconfig : (PerpetualLedger.new config).configError = .ok) (calls : List LedgerCall) :
    ∃ E : ℤ,
      (PerpetualLedger.run config calls).state.realizedPnlUnits.toInt -
          (PerpetualLedger.run config calls).state.positionCostUnits.toInt =
        (TapedLedger.run config calls).cashFlow + E ∧
      |E| ≤ (TapedLedger.run config calls).reversals ∧
      ((TapedLedger.run config calls).reversals = 0 → E = 0) ∧
      (config.priceScale.toNat + config.quantityScale.toNat ≤ config.accountScale.toNat →
        E = 0) ∧
      ((PerpetualLedger.run config calls).state.positionUnits = 0 →
        |(PerpetualLedger.run config calls).state.realizedPnlUnits.toInt -
          (TapedLedger.run config calls).cashFlow| ≤ (TapedLedger.run config calls).reversals) := by
  have h := TapedLedger.conserved_run hconfig calls
  have hbalanced := h.sound.balanced
  rw [← TapedLedger.run_ledger]
  refine ⟨(TapedLedger.run config calls).error, ?_, h.error_le, fun h0 => ?_, fun hz => ?_,
    fun hflat => ?_⟩
  · unfold TapedLedger.error
    ring
  · have hle := h.error_le
    rw [h0] at hle
    exact abs_eq_zero.mp (le_antisymm (by exact_mod_cast hle) (abs_nonneg _))
  · exact h.exact ((Unbounded.scaleGap_nonneg_iff config).mpr hz)
  · have hcost : (TapedLedger.run config calls).ledger.state.positionCostUnits.toInt = 0 := by
      have hside : (TapedLedger.run config calls).ledger.state.positionCostUnits.toInt =
          (TapedLedger.run config calls).ledger.state.positionUnits.toInt.sign * _ :=
        hbalanced.side
      rw [hside, hflat, Int64.toInt_zero, Int.sign_zero, zero_mul]
    have hle := h.error_le
    unfold TapedLedger.error at hle
    rwa [hcost, sub_zero] at hle

theorem run_conserves_reversal : ∃ E : ℤ,
    (PerpetualLedger.run { initialCashUnits := 10000, priceScale := 1 }
        [.applyFill 3 15 0, .applyFill (-8) 13 1]).state.realizedPnlUnits.toInt -
      (PerpetualLedger.run { initialCashUnits := 10000, priceScale := 1 }
        [.applyFill 3 15 0, .applyFill (-8) 13 1]).state.positionCostUnits.toInt =
        (TapedLedger.run { initialCashUnits := 10000, priceScale := 1 }
          [.applyFill 3 15 0, .applyFill (-8) 13 1]).cashFlow + E ∧
      |E| ≤ (TapedLedger.run { initialCashUnits := 10000, priceScale := 1 }
        [.applyFill 3 15 0, .applyFill (-8) 13 1]).reversals := by
  obtain ⟨E, hE, hle, _⟩ := run_conserves { initialCashUnits := 10000, priceScale := 1 }
    (by decide +kernel) [.applyFill 3 15 0, .applyFill (-8) 13 1]
  exact ⟨E, hE, hle⟩

end Astra
