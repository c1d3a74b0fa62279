import AstraTrader.Ledger.Splitting
import AstraTrader.Numeric.Lot

/-! A position that is closed in parts is a lot that is sold in parts: the entry price never falls
on the way, and rises by no more than the rounding of the parts. -/

namespace Astra

namespace Unbounded
variable {config : LedgerConfig} {state : LedgerState} {signedQuantity price : ℤ}

theorem reduces_of_smaller {position : ℤ} (hopen : position ≠ 0)
    (hsign : (position + signedQuantity).sign = position.sign)
    (hless : |position + signedQuantity| < |position|) : Reduces position signedQuantity := by
  rcases lt_or_gt_of_ne hopen with hneg | hpos
  · rw [Int.sign_eq_neg_one_of_neg hneg, Int.sign_eq_neg_one_iff_neg] at hsign
    rw [abs_of_neg hsign, abs_of_neg hneg] at hless
    refine ⟨.inr ⟨hneg, by omega⟩, ?_⟩
    rw [abs_of_pos (by omega), abs_of_neg hneg]
    omega
  · rw [Int.sign_eq_one_of_pos hpos, Int.sign_eq_one_iff_pos] at hsign
    rw [abs_of_pos hsign, abs_of_pos hpos] at hless
    refine ⟨.inl ⟨hpos, by omega⟩, ?_⟩
    rw [abs_of_neg (by omega), abs_of_pos hpos]
    omega

theorem Reduces.quantity_ne_zero {position : ℤ} (h : Reduces position signedQuantity) :
    signedQuantity ≠ 0 := by
  rcases h.1 with ⟨_, hq⟩ | ⟨_, hq⟩
  · exact hq.ne
  · exact hq.ne'

def LedgerState.lot (state : LedgerState) (hopen : state.position ≠ 0) : Lot :=
  lotOf state.position state.positionCost hopen

theorem lot_applyFill (hside : OnSide state.position state.positionCost) (hprice : 0 < price)
    (h : Reduces state.position signedQuantity) (fee : ℤ)
    (hopen : (applyFill config state signedQuantity price fee).1.position ≠ 0) :
    (applyFill config state signedQuantity price fee).1.lot hopen =
      (state.lot h.ne_zero).sell |signedQuantity| (h.lt_size _) := by
  refine Eq.trans ?_ (h.lotOf_left hside)
  apply Lot.ext
  · rw [LedgerState.lot, lotOf_cost, lotOf_cost,
      applyFill_positionCost fee hside h.quantity_ne_zero hprice.le,
      (trade_of_reduces config hside hprice h).1]
  · rw [LedgerState.lot, lotOf_size, lotOf_size, applyFill_position]

theorem Balanced.averageEntryPrice_eq (h : Balanced config state) (hopen : state.position ≠ 0)
    (hgap : scaleGap config ≤ 0) : state.averageEntryPrice =
      (state.lot hopen).costOf (10 ^ (-scaleGap config).toNat) := by
  rw [h.average hopen, averageEntry_eq_shift, Decimal.shift_of_nonneg (neg_nonneg.mpr hgap)]
  rfl

theorem lot_refreshMark (price : ℤ) (hopen : state.position ≠ 0) :
    (refreshMark config state price).lot hopen = state.lot hopen := rfl

end Unbounded

/-- The call is a fill. -/
def LedgerCall.isFill : LedgerCall → Bool
  | .applyFill .. => true
  | .markToMarket _ => false

namespace PerpetualLedger
variable {config : LedgerConfig} {ledger : PerpetualLedger}

def lot (ledger : PerpetualLedger) (hopen : ledger.state.positionUnits.toInt ≠ 0) : Lot :=
  ledger.state.toUnbounded.lot hopen

theorem Sound.lot_applyFill (hs : Sound config ledger)
    {signedQuantityUnits priceUnits feeUnits : Int64}
    (hok : (ledger.applyFill signedQuantityUnits priceUnits feeUnits).2.error = .ok)
    (h : Unbounded.Reduces ledger.state.positionUnits.toInt signedQuantityUnits.toInt) :
    ∃ hopen, (ledger.applyFill signedQuantityUnits priceUnits feeUnits).1.lot hopen =
      (ledger.lot h.ne_zero).sell |signedQuantityUnits.toInt| (h.lt_size _) := by
  obtain ⟨hargs, hexact⟩ := hs.applyFill_exact hok
  have hlot := @Unbounded.lot_applyFill config ledger.state.toUnbounded _ _
    hs.balancedAt.side hargs.price h feeUnits.toInt
  rw [← hexact] at hlot
  refine ⟨?_, hlot _⟩
  have hposition := congrArg Unbounded.LedgerState.position hexact
  rw [Unbounded.applyFill_position] at hposition
  exact fun h0 => h.sign_eq.1 (hposition.symm.trans h0)

theorem Sound.lot_markToMarket (hs : Sound config ledger) {priceUnits : Int64}
    (hopen : ledger.state.positionUnits.toInt ≠ 0) :
    ∃ hopen', (ledger.markToMarket priceUnits).1.lot hopen' = ledger.lot hopen := by
  rcases markToMarket_cases ledger priceUnits with ⟨next, hok, he⟩ | ⟨_, _, he⟩ <;> rw [he]
  · have hexact := (refreshMark_eq_ok hs.valid hok).2
    refine ⟨?_, ?_⟩
    · have hposition := congrArg Unbounded.LedgerState.position hexact
      exact fun h0 => hopen (hposition.symm.trans h0)
    · simp only [lot, hexact]
      exact Unbounded.lot_refreshMark _ hopen
  · exact ⟨hopen, rfl⟩

/-- A fill, if the ledger takes it, closes a part of the position. -/
def ClosesPart (ledger : PerpetualLedger) : LedgerCall → Prop
  | .applyFill signedQuantityUnits priceUnits feeUnits =>
    ledger.Succeeds (.applyFill signedQuantityUnits priceUnits feeUnits) →
      Unbounded.Reduces ledger.state.positionUnits.toInt signedQuantityUnits.toInt
  | .markToMarket _ => True

theorem Sound.sold_call (hs : Sound config ledger)
    (hopen : ledger.state.positionUnits.toInt ≠ 0) {c : LedgerCall} (hpart : ledger.ClosesPart c) :
    ∃ hopen', Lot.Sold (if c.isFill then 1 else 0) (ledger.lot hopen)
      ((ledger.call c).lot hopen') := by
  cases c with
  | markToMarket p =>
    obtain ⟨hopen', hlot⟩ := @Sound.lot_markToMarket config ledger hs p hopen
    exact ⟨hopen', hlot ▸ .none _⟩
  | applyFill q p f =>
    by_cases hok : ledger.Succeeds (.applyFill q p f)
    · obtain ⟨hopen', hlot⟩ := hs.lot_applyFill hok (hpart hok)
      exact ⟨hopen', hlot ▸ .one (abs_nonneg _) _⟩
    · rw [call_of_not_succeeds hok]
      have hnothing := @Lot.Sold.one (ledger.lot hopen) 0 le_rfl (ledger.lot hopen).size_pos
      rw [Lot.sell_zero] at hnothing
      exact ⟨hopen, hnothing⟩

theorem Sound.sold_foldl (hs : Sound config ledger)
    (hopen : ledger.state.positionUnits.toInt ≠ 0) {calls : List LedgerCall}
    (hparts : Process.AllSteps PerpetualLedger.call ClosesPart ledger calls) :
    ∃ hlast, Lot.Sold (calls.countP LedgerCall.isFill) (ledger.lot hopen)
      ((calls.foldl PerpetualLedger.call ledger).lot hlast) := by
  induction calls generalizing ledger with
  | nil => exact ⟨hopen, .none _⟩
  | cons c calls ih =>
    obtain ⟨hopen', hfirst⟩ := hs.sold_call hopen hparts.1
    obtain ⟨hlast, hrest⟩ := ih (hs.call c) hopen' hparts.2
    refine ⟨hlast, ?_⟩
    rw [List.countP_cons, add_comm]
    exact hfirst.trans hrest

theorem Sound.averageEntryPrice_eq (hs : Sound config ledger)
    (hopen : ledger.state.positionUnits.toInt ≠ 0)
    (hscale : config.accountScale.toNat ≤ config.priceScale.toNat + config.quantityScale.toNat) :
    ledger.state.averageEntryPriceUnits.toInt = (ledger.lot hopen).costOf
      (10 ^ (config.priceScale.toNat + config.quantityScale.toNat -
        config.accountScale.toNat)) := by
  have hgap : Unbounded.scaleGap config ≤ 0 := by
    unfold Unbounded.scaleGap Unbounded.sourceScale
    omega
  have haverage := hs.balancedAt.averageEntryPrice_eq hopen hgap
  have hexponent : (-Unbounded.scaleGap config).toNat =
      config.priceScale.toNat + config.quantityScale.toNat - config.accountScale.toNat := by
    unfold Unbounded.scaleGap Unbounded.sourceScale
    omega
  rwa [hexponent] at haverage

end PerpetualLedger

/-- The entry price after a number of partial closes: not lower, and higher by no more than a unit
and the unit of cost each of them may leave, over what is left. -/
structure EntryPriceWithin (config : LedgerConfig) (fills : ℕ) (before after : LedgerState) :
    Prop where
  lower : before.averageEntryPriceUnits.toInt ≤ after.averageEntryPriceUnits.toInt
  upper : after.averageEntryPriceUnits.toInt ≤ before.averageEntryPriceUnits.toInt + 1 +
    fills * 10 ^ (config.priceScale.toNat + config.quantityScale.toNat -
      config.accountScale.toNat) / |after.positionUnits.toInt|

theorem PerpetualLedger.Sound.entryPriceWithin {config : LedgerConfig}
    {ledger next : PerpetualLedger} (hs : ledger.Sound config) (hnext : next.Sound config)
    (hscale : config.accountScale.toNat ≤ config.priceScale.toNat + config.quantityScale.toNat)
    {fills : ℕ} {hopen : ledger.state.positionUnits.toInt ≠ 0}
    {hlast : next.state.positionUnits.toInt ≠ 0}
    (hsold : Lot.Sold fills (ledger.lot hopen) (next.lot hlast)) :
    EntryPriceWithin config fills ledger.state next.state := by
  have hunit := (Decimal.ten_pow_pos
    (config.priceScale.toNat + config.quantityScale.toNat - config.accountScale.toNat)).le
  have hbefore := hs.averageEntryPrice_eq hopen hscale
  have hafter := hnext.averageEntryPrice_eq hlast hscale
  constructor
  · rw [hbefore, hafter]
    exact hsold.costOf_le hunit
  · rw [hbefore, hafter]
    exact hsold.costOf_le_add hunit

/-- The drift over any number of partial closes, with marks and rejected calls between them. -/
theorem run_entryPriceWithin (config : LedgerConfig)
    (hconfig : (PerpetualLedger.new config).configError = .ok)
    (hscale : config.accountScale.toNat ≤ config.priceScale.toNat + config.quantityScale.toNat)
    (calls closes : List LedgerCall)
    (hopen : (PerpetualLedger.run config calls).state.positionUnits ≠ 0)
    (hparts : Process.AllSteps PerpetualLedger.call PerpetualLedger.ClosesPart
      (PerpetualLedger.run config calls) closes) :
    EntryPriceWithin config (closes.countP LedgerCall.isFill)
      (PerpetualLedger.run config calls).state
      (PerpetualLedger.run config (calls ++ closes)).state := by
  have hs := PerpetualLedger.sound_run hconfig calls
  have hlast := PerpetualLedger.sound_run hconfig (calls ++ closes)
  have hrun : PerpetualLedger.run config (calls ++ closes) =
      closes.foldl PerpetualLedger.call (PerpetualLedger.run config calls) := List.foldl_append
  obtain ⟨_, hsold⟩ := hs.sold_foldl (mt (eq_zero_iff _).mpr hopen) hparts
  rw [hrun] at hlast ⊢
  exact hs.entryPriceWithin hlast hscale hsold

/-- What one partial close does to the entry price and to the cost. -/
structure KeepsEntryPrice (config : LedgerConfig) (before after : LedgerState) : Prop where
  lower : before.averageEntryPriceUnits.toInt ≤ after.averageEntryPriceUnits.toInt
  upper : after.averageEntryPriceUnits.toInt ≤ before.averageEntryPriceUnits.toInt + 1 +
    10 ^ (config.priceScale.toNat + config.quantityScale.toNat - config.accountScale.toNat) /
      |after.positionUnits.toInt|
  costRemoved : |before.positionCostUnits.toInt| - |after.positionCostUnits.toInt| =
    |before.positionCostUnits.toInt| *
      (|before.positionUnits.toInt| - |after.positionUnits.toInt|) / |before.positionUnits.toInt|

theorem PerpetualLedger.Sound.keepsEntryPrice {config : LedgerConfig} {ledger : PerpetualLedger}
    (hs : ledger.Sound config)
    (hscale : config.accountScale.toNat ≤ config.priceScale.toNat + config.quantityScale.toNat)
    {signedQuantityUnits priceUnits feeUnits : Int64}
    (hok : (ledger.applyFill signedQuantityUnits priceUnits feeUnits).2.error = .ok)
    (h : Unbounded.Reduces ledger.state.positionUnits.toInt signedQuantityUnits.toInt) :
    KeepsEntryPrice config ledger.state
      (ledger.applyFill signedQuantityUnits priceUnits feeUnits).1.state := by
  have hnext := hs.applyFill signedQuantityUnits priceUnits feeUnits
  obtain ⟨hleft, hlot⟩ := hs.lot_applyFill hok h
  generalize (ledger.applyFill signedQuantityUnits priceUnits feeUnits).1 = next at *
  have hsold : Lot.Sold 1 (ledger.lot h.ne_zero) (next.lot hleft) := by
    rw [hlot]
    exact .one (abs_nonneg _) _
  have hwithin := hs.entryPriceWithin hnext hscale hsold
  have hcost : |next.state.positionCostUnits.toInt| = |ledger.state.positionCostUnits.toInt| -
      |ledger.state.positionCostUnits.toInt| * |signedQuantityUnits.toInt| /
        |ledger.state.positionUnits.toInt| := congrArg Lot.cost hlot
  have hsize : |next.state.positionUnits.toInt| =
      |ledger.state.positionUnits.toInt| - |signedQuantityUnits.toInt| := congrArg Lot.size hlot
  refine ⟨hwithin.lower, ?_, ?_⟩
  · have hupper := hwithin.upper
    rwa [Nat.cast_one, one_mul] at hupper
  · rw [hcost, hsize, sub_sub_cancel, sub_sub_cancel]

/-- A fill that leaves a smaller position on the same side keeps the entry price up to rounding. -/
theorem run_keepsEntryPrice (config : LedgerConfig)
    (hconfig : (PerpetualLedger.new config).configError = .ok)
    (hscale : config.accountScale.toNat ≤ config.priceScale.toNat + config.quantityScale.toNat)
    (calls : List LedgerCall) (signedQuantityUnits priceUnits feeUnits : Int64)
    (hopen : (PerpetualLedger.run config calls).state.positionUnits ≠ 0)
    (hfill : ((PerpetualLedger.run config calls).applyFill signedQuantityUnits priceUnits
      feeUnits).2.error = .ok)
    (hsign : ((PerpetualLedger.run config calls).applyFill signedQuantityUnits priceUnits
      feeUnits).1.state.positionUnits.toInt.sign =
        (PerpetualLedger.run config calls).state.positionUnits.toInt.sign)
    (hless : |((PerpetualLedger.run config calls).applyFill signedQuantityUnits priceUnits
      feeUnits).1.state.positionUnits.toInt| <
        |(PerpetualLedger.run config calls).state.positionUnits.toInt|) :
    KeepsEntryPrice config (PerpetualLedger.run config calls).state
      ((PerpetualLedger.run config calls).applyFill signedQuantityUnits priceUnits
        feeUnits).1.state := by
  have hs := PerpetualLedger.sound_run hconfig calls
  have hposition := congrArg Unbounded.LedgerState.position (hs.applyFill_exact hfill).2
  rw [Unbounded.applyFill_position] at hposition
  apply hs.keepsEntryPrice hscale hfill
  apply Unbounded.reduces_of_smaller (mt (eq_zero_iff _).mpr hopen)
  · exact hposition ▸ hsign
  · exact hposition ▸ hless

/-- The remainder of the cost lifts the entry price from 14 to 16. -/
theorem run_keepsEntryPrice_odd :
    KeepsEntryPrice { initialCashUnits := 10000, priceScale := 1 }
      (PerpetualLedger.run { initialCashUnits := 10000, priceScale := 1 }
        [.applyFill 7 15 0]).state
      ((PerpetualLedger.run { initialCashUnits := 10000, priceScale := 1 }
        [.applyFill 7 15 0]).applyFill (-2) 13 1).1.state :=
  run_keepsEntryPrice { initialCashUnits := 10000, priceScale := 1 } (by decide +kernel)
    (by decide +kernel) [.applyFill 7 15 0] (-2) 13 1 (by decide +kernel) (by decide +kernel)
    (by decide +kernel) (by decide +kernel)

end Astra
