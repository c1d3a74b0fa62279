import AstraTrader.Replay.Tape
import AstraTrader.Research.Report
import Mathlib.Data.List.Forall2

/-! The simulator beside the replay of the same rows and decisions. They take the same position and
the same fills exactly while no decision is to hold a position, no order is worth too little to be
placed, and no sale slips by a fraction of a unit or down to nothing. -/

namespace Astra.Report
open Replay PaperExchange

/-- The action of a sample. -/
def direction : ModelAction → ℤ
  | .longPosition => 1
  | .shortPosition => -1
  | .hold => 0

def bookRow (row : DecidedRow) : BookRow where
  timestampNs := row.event.exchangeTimeNs.toInt
  bid := row.event.bestBidUnits.toInt
  ask := row.event.bestAskUnits.toInt
  bid_pos := (FixedWidth.int64_pos_iff _).mp row.wellFormed.2.2.2.1
  bid_le_ask := Int64.le_iff_toInt_le.mp row.wellFormed.2.2.2.2

/-- The tape is written with the row's index, plus one, as its sequence. -/
def sampledRow (row : DecidedRow) : SampledRow where
  index := row.event.sequence.toNat - 1
  book := bookRow row

def simulated (options : Options) (rows : List DecidedRow) : Simulation :=
  simulate (rows.map sampledRow) (rows.map (direction ·.action)) options.takerFeePpm.toNat
    options.marketSlippagePpm.toNat

def replayed (options : Options) (rows : List DecidedRow) : PaperExchange :=
  (replay options (events rows)).exchange

/-- The same event, side, quantity, price and fee. -/
structure SameFill (fill : PaperFill) (simulated : SimulatedFill) : Prop where
  marketSequence : fill.marketSequence.toNat = simulated.index + 1
  side : fill.side.sign = simulated.side
  quantity : fill.quantityUnits.toInt = simulated.quantity
  price : fill.priceUnits.toInt = simulated.price
  fee : fill.feeUnits.toInt = simulated.fee

/-- The replay and the simulator execute the same fills, are at the same position after every row,
and neither moves on a decision to hold. -/
structure Agrees (options : Options) (rows : List DecidedRow) : Prop where
  fills : List.Forall₂ SameFill (replayed options rows).fills (simulated options rows).fills
  position : ∀ seen later, rows = seen ++ later →
    (replayed options seen).ledger.state.positionUnits.toInt = (simulated options seen).position
  held : ∀ seen next later, rows = seen ++ next :: later → lastAction seen = .hold →
    (replayed options (seen ++ [next])).ledger.state.positionUnits =
        (replayed options seen).ledger.state.positionUnits ∧
      (simulated options (seen ++ [next])).position = (simulated options seen).position

/-- The decision that the last row has executed. -/
def executedAction (seen : List DecidedRow) : ModelAction := lastAction seen.dropLast

/-- What the next row is to trade, by the last two decisions. -/
def delta (seen : List DecidedRow) : ℤ :=
  100 * (direction (lastAction seen) - direction (executedAction seen))

def sideOf (delta : ℤ) : Side := if 0 < delta then .buy else .sell

/-- The conditions on one row and the decisions before it. -/
structure AlikeAt (options : Options) (seen : List DecidedRow) (next : DecidedRow) : Prop where
  held : lastAction seen = .hold → executedAction seen = .hold
  worth : delta seen ≠ 0 → ∀ row ∈ seen.getLast?,
    100 ≤ (row.event.touch (sideOf (delta seen))).toInt * |delta seen| / 1000
  whole : delta seen < 0 →
    1000000 ∣ next.event.bestBidUnits.toInt * options.marketSlippagePpm.toNat ∧
      options.marketSlippagePpm < 1000000

instance (options : Options) (seen : List DecidedRow) (next : DecidedRow) :
    Decidable (AlikeAt options seen next) :=
  decidable_of_iff ((lastAction seen = .hold → executedAction seen = .hold) ∧
    (delta seen ≠ 0 → ∀ row ∈ seen.getLast?,
      100 ≤ (row.event.touch (sideOf (delta seen))).toInt * |delta seen| / 1000) ∧
    (delta seen < 0 →
      1000000 ∣ next.event.bestBidUnits.toInt * options.marketSlippagePpm.toNat ∧
        options.marketSlippagePpm < 1000000))
    ⟨fun ⟨held, worth, whole⟩ => ⟨held, worth, whole⟩,
      fun ⟨held, worth, whole⟩ => ⟨held, worth, whole⟩⟩

def Alike (options : Options) (rows : List DecidedRow) : Prop :=
  ∀ seen next later, rows = seen ++ next :: later → AlikeAt options seen next

theorem alike_iff_allSteps {options : Options} {rows : List DecidedRow} :
    Process.AllSteps (fun seen row => seen ++ [row]) (AlikeAt options) [] rows ↔
      Alike options rows := by
  have hfoldl : ∀ rows start : List DecidedRow,
      rows.foldl (fun seen row => seen ++ [row]) start = start ++ rows := by
    intro rows
    induction rows with
    | nil => simp
    | cons row rows ih => simp [ih]
  constructor
  · rintro h seen next later rfl
    have hnext := (Process.AllSteps.append.mp h).2.1
    rwa [hfoldl] at hnext
  · intro h
    refine Process.AllSteps.of_split fun seen next later he => ?_
    rw [hfoldl]
    exact h seen next later he

instance (options : Options) (rows : List DecidedRow) : Decidable (Alike options rows) :=
  decidable_of_iff _ alike_iff_allSteps

section Simulations
variable {options : Options} {seen : List DecidedRow} {next : DecidedRow} {state : Simulation}
  {feePpm slippagePpm target decision : ℤ} {row : SampledRow} {action : ModelAction}

theorem simulated_concat : simulated options (seen ++ [next]) =
    (simulated options seen).step options.takerFeePpm.toNat options.marketSlippagePpm.toNat
      (sampledRow next) (direction next.action) := by
  have hzip : ∀ rows : List DecidedRow, (rows.map sampledRow).zip (rows.map (direction ·.action)) =
      rows.map fun row => (sampledRow row, direction row.action) := fun _ => List.zip_map'
  simp only [simulated, simulate, hzip]
  rw [List.map_append, List.foldl_append]
  rfl

theorem execute_position : (state.execute feePpm slippagePpm target row).position = target := by
  unfold Simulation.execute
  by_cases hdelta : target - state.position = 0
  · rw [if_pos hdelta]
    exact (sub_eq_zero.mp hdelta).symm
  · rw [if_neg hdelta]

theorem execute_of_eq (h : target = state.position) :
    state.execute feePpm slippagePpm target row = state := by
  unfold Simulation.execute
  exact if_pos (sub_eq_zero.mpr h)

/-- The touch of a row. -/
def SampledRow.touch (row : SampledRow) : Side → ℤ
  | .buy => row.book.ask
  | .sell => row.book.bid

/-- The fill that `execute` counts. -/
def simulatedFill (feePpm slippagePpm : ℤ) (row : SampledRow) (side : Side) (quantity : ℤ) :
    SimulatedFill :=
  let price := fillPrice (row.touch side) side.sign slippagePpm
  { index := row.index
    side := side.sign
    quantity
    price
    fee := (price * quantity / 1000 * feePpm + 999999) / 1000000 }

theorem execute_fills {side : Side} {quantity : ℤ} (hquantity : 0 < quantity)
    (h : target - state.position = side.sign * quantity) :
    (state.execute feePpm slippagePpm target row).fills =
      state.fills ++ [simulatedFill feePpm slippagePpm row side quantity] := by
  unfold Simulation.execute
  dsimp only
  cases side with
  | buy =>
    rw [Side.sign, one_mul] at h
    rw [h, if_neg hquantity.ne', abs_of_pos hquantity, if_pos hquantity]
    rfl
  | sell =>
    rw [Side.sign, neg_one_mul] at h
    have hnot : ¬ 0 < -quantity := by omega
    rw [h, if_neg (neg_ne_zero.mpr hquantity.ne'), abs_neg, abs_of_pos hquantity, if_neg hnot]
    rfl

theorem pending_concat :
    (simulated options (seen ++ [next])).pending = some (direction next.action) := by
  rw [simulated_concat]
  unfold Simulation.step
  cases next.action <;> rfl

theorem position_of_pending (h : state.pending = some (direction action)) :
    (state.step feePpm slippagePpm row decision).position = 100 * direction action ∧
      (state.step feePpm slippagePpm row decision).fills =
        (state.execute feePpm slippagePpm (100 * direction action) row).fills := by
  unfold Simulation.step
  rw [h]
  dsimp only
  rw [mul_comm (direction action)]
  exact ⟨execute_position, rfl⟩

theorem simulated_next :
    (simulated options (seen ++ [next])).position = 100 * direction (lastAction seen) ∧
      (simulated options (seen ++ [next])).fills =
        ((simulated options seen).execute options.takerFeePpm.toNat
          options.marketSlippagePpm.toNat (100 * direction (lastAction seen))
          (sampledRow next)).fills := by
  rw [simulated_concat]
  cases seen using List.reverseRecOn with
  | nil => exact ⟨rfl, rfl⟩
  | append_singleton first row =>
    rw [lastAction_concat]
    exact position_of_pending pending_concat

theorem simulated_position :
    (simulated options seen).position = 100 * direction (executedAction seen) := by
  cases seen using List.reverseRecOn with
  | nil => rfl
  | append_singleton first row =>
    rw [executedAction, List.dropLast_concat]
    exact simulated_next.1

theorem simulated_fills_extend (later : List DecidedRow) :
    (simulated options seen).fills <+: (simulated options (seen ++ later)).fills := by
  induction later using List.reverseRecOn with
  | nil => rw [List.append_nil]
  | append_singleton later row ih =>
    rw [← List.append_assoc, simulated_next.2]
    refine ih.trans ?_
    unfold Simulation.execute
    dsimp only
    by_cases hdelta : 100 * direction (lastAction (seen ++ later)) -
        (simulated options (seen ++ later)).position = 0
    · rw [if_pos hdelta]
    · rw [if_neg hdelta]
      exact List.prefix_append _ _

end Simulations

section Prices
variable {bid slippagePpm : ℤ}

theorem sell_slip_iff (hbid : 0 < bid) (hslippage : 0 ≤ slippagePpm) :
    (0 < bid - (bid * slippagePpm + 999999) / 1000000 ∧
      bid - (bid * slippagePpm + 999999) / 1000000 = fillPrice bid (-1) slippagePpm) ↔
      1000000 ∣ bid * slippagePpm ∧ slippagePpm < 1000000 := by
  have hless : slippagePpm < 1000000 ↔ bid * slippagePpm < bid * 1000000 :=
    (mul_lt_mul_iff_right₀ hbid).symm
  have hnonneg : 0 ≤ bid * slippagePpm := mul_nonneg hbid.le hslippage
  rw [fillPrice, if_neg (by decide), hless]
  generalize bid * slippagePpm = product at *
  omega

end Prices

/-- So far the same fills, and the same position. -/
structure Matches (options : Options) (seen : List DecidedRow) : Prop where
  fills : List.Forall₂ SameFill (replayed options seen).fills (simulated options seen).fills
  position : (replayed options seen).ledger.state.positionUnits.toInt =
    (simulated options seen).position

/-- What the next row does on either side. -/
inductive Compared (options : Options) (seen : List DecidedRow) (next : DecidedRow) : Prop
  | same : AlikeAt options seen next →
      (replayed options (seen ++ [next])).fills = (replayed options seen).fills →
      (replayed options (seen ++ [next])).ledger.state.positionUnits =
        (replayed options seen).ledger.state.positionUnits →
      (simulated options (seen ++ [next])).fills = (simulated options seen).fills →
      (simulated options (seen ++ [next])).position = (simulated options seen).position →
      Compared options seen next
  | filled (fill : PaperFill) (simulatedFill : SimulatedFill) : lastAction seen ≠ .hold →
      (AlikeAt options seen next ↔ SameFill fill simulatedFill) →
      (replayed options (seen ++ [next])).fills = (replayed options seen).fills ++ [fill] →
      (simulated options (seen ++ [next])).fills =
        (simulated options seen).fills ++ [simulatedFill] →
      (replayed options (seen ++ [next])).ledger.state.positionUnits.toInt =
        (simulated options (seen ++ [next])).position →
      Compared options seen next
  | apart : ¬ AlikeAt options seen next →
      (replayed options (seen ++ [next])).ledger.state.positionUnits.toInt ≠
        (simulated options (seen ++ [next])).position →
      Compared options seen next

theorem direction_injective {a b : ModelAction} (h : direction a = direction b) : a = b := by
  cases a <;> cases b <;> first | rfl | exact absurd h (by decide)

section Orders
variable {options : Options} {seen : List DecidedRow} {next row : DecidedRow}
  {pending : PendingDecision} {fill : PaperFill}

theorem toInt_target {action : ModelAction} (h : action ≠ .hold) (position : Int64) :
    (target action position).toInt = 100 * direction action := by
  cases action with
  | hold => exact absurd rfl h
  | longPosition => exact (by decide : targetUnits.toInt = 100 * 1)
  | shortPosition => exact (by decide : (-targetUnits).toInt = 100 * -1)

theorem sentOrder_delta (hposition : OnTarget (replayed options seen).ledger.state.positionUnits)
    (hmatches : Matches options seen) (haction : pending.decision.action = lastAction seen)
    (hne : lastAction seen ≠ .hold) (hsends : Sends (replay options (events seen)) pending) :
    0 < (sentOrder (replay options (events seen)) pending).quantityUnits.toInt ∧
      delta seen = (sentOrder (replay options (events seen)) pending).side.sign *
        (sentOrder (replay options (events seen)) pending).quantityUnits.toInt := by
  obtain ⟨hpos, hreaches⟩ := distance_reaches hposition.abs_lt
    (hposition.target pending.decision.action).abs_lt rfl hsends.2.2
  rw [FixedWidth.int64_pos_iff] at hpos
  refine ⟨hpos, ?_⟩
  have hgoal : (target pending.decision.action
      (replayed options seen).ledger.state.positionUnits).toInt =
      100 * direction (lastAction seen) := by rw [haction, toInt_target hne]
  have hstart := hmatches.position.trans simulated_position
  have hsum := hreaches.trans hgoal
  rw [hstart] at hsum
  rw [delta, mul_sub]
  exact (eq_sub_of_add_eq' hsum).symm

theorem sideOf_sign {side : Side} {quantity : ℤ} (h : 0 < quantity) :
    sideOf (side.sign * quantity) = side ∧ |side.sign * quantity| = quantity ∧
      (side.sign * quantity < 0 ↔ side = .sell) := by
  cases side with
  | buy =>
    rw [Side.sign, one_mul]
    exact ⟨if_pos h, abs_of_pos h, iff_of_false (by omega) (by decide)⟩
  | sell =>
    rw [Side.sign, neg_one_mul]
    exact ⟨if_neg (by omega), by rw [abs_neg, abs_of_pos h], iff_of_true (by omega) rfl⟩

/-- Sold, the row's bid has to slip by whole units. -/
def SlipsWhole (options : Options) (side : Side) (next : DecidedRow) : Prop :=
  side = .sell → 1000000 ∣ next.event.bestBidUnits.toInt * options.marketSlippagePpm.toNat ∧
    options.marketSlippagePpm < 1000000

theorem alikeAt_iff_of_order {side : Side} {quantity : ℤ} (hquantity : 0 < quantity)
    (hdelta : delta seen = side.sign * quantity) (hne : lastAction seen ≠ .hold)
    (hrow : row ∈ seen.getLast?) : AlikeAt options seen next ↔
      100 ≤ (row.event.touch side).toInt * quantity / 1000 ∧ SlipsWhole options side next := by
  obtain ⟨hside, habs, hsell⟩ := @sideOf_sign side quantity hquantity
  have hzero : delta seen ≠ 0 := by
    rw [hdelta]
    cases side <;> simp only [Side.sign] <;> omega
  constructor
  · intro h
    have hworth := h.worth hzero row hrow
    rw [hdelta, hside, habs] at hworth
    exact ⟨hworth, fun hs => h.whole (hdelta ▸ hsell.mpr hs)⟩
  · rintro ⟨hworth, hwhole⟩
    refine ⟨fun hhold => absurd hhold hne, fun _ other hother => ?_, fun hlt => ?_⟩
    · obtain rfl := Option.some.inj (hrow.symm.trans hother)
      rw [hdelta, hside, habs]
      exact hworth
    · rw [hdelta] at hlt
      exact hwhole (hsell.mp hlt)

theorem sell_slip_iff_whole :
    (0 < next.event.bestBidUnits.toInt -
        (next.event.bestBidUnits.toInt * options.marketSlippagePpm.toNat + 999999) / 1000000 ∧
      next.event.bestBidUnits.toInt -
        (next.event.bestBidUnits.toInt * options.marketSlippagePpm.toNat + 999999) / 1000000 =
          fillPrice next.event.bestBidUnits.toInt (-1) options.marketSlippagePpm.toNat) ↔
      SlipsWhole options .sell next := by
  refine (sell_slip_iff (bookRow next).bid_pos (Int.natCast_nonneg _)).trans ?_
  rw [SlipsWhole, UInt32.lt_iff_toNat_lt]
  simp [bookRow]

theorem sameFill_iff {order : OrderRequest} (hquantity : 0 < order.quantityUnits.toInt)
    (h : FilledAt options order next.event fill) :
    SameFill fill (simulatedFill options.takerFeePpm.toNat options.marketSlippagePpm.toNat
      (sampledRow next) order.side order.quantityUnits.toInt) ↔
      SlipsWhole options order.side next := by
  have htouch := (FixedWidth.int64_pos_iff _).mp (next.wellFormed.quoted.touch order.side)
  obtain ⟨hpositive, hprice⟩ := (slippedPrice_eq_some_iff htouch).mp h.price
  have hfee := toInt_fillFee hpositive h.fee
  rw [h.quantity, abs_of_pos hquantity] at hfee
  have hsequence : next.event.sequence.toNat ≠ 0 := by
    intro hzero
    exact next.wellFormed.1 (UInt64.toNat_inj.mp hzero)
  have hsame : SameFill fill (simulatedFill options.takerFeePpm.toNat
      options.marketSlippagePpm.toNat (sampledRow next) order.side order.quantityUnits.toInt) ↔
      fill.priceUnits.toInt = fillPrice (SampledRow.touch (sampledRow next) order.side)
        order.side.sign options.marketSlippagePpm.toNat := by
    refine ⟨fun hs => hs.price, fun hp => ⟨?_, congrArg Side.sign h.side, ?_, hp, ?_⟩⟩
    · rw [h.marketSequence]
      show _ = next.event.sequence.toNat - 1 + 1
      omega
    · rw [h.quantity]
      rfl
    · rw [hfee, hp]
      rfl
  rw [hsame, hprice]
  cases hside : order.side with
  | buy =>
    refine iff_of_true ?_ (fun hs => absurd hs (by decide))
    rw [Side.sign, one_mul]
    rfl
  | sell =>
    rw [hside, Side.sign, neg_one_mul, ← sub_eq_add_neg] at hprice
    rw [Side.sign, neg_one_mul, ← sub_eq_add_neg, ← sell_slip_iff_whole]
    refine (and_iff_right ?_).symm
    exact hprice ▸ hpositive

theorem replayed_next : replayed options (seen ++ [next]) =
      (Replay.step options (replay options (events seen)) next.event).exchange := by
  rw [replayed, events_concat, replay_concat]

theorem replayed_rests (hrows : Comparable options (seen ++ [next]))
    (hat : AtTarget (lastAction seen) (replayed options seen).ledger.state.positionUnits) :
    (replayed options (seen ++ [next])).fills = (replayed options seen).fills ∧
      (replayed options (seen ++ [next])).ledger.state.positionUnits =
        (replayed options seen).ledger.state.positionUnits := by
  have hkept := kept_replay hrows.left
  rw [replayed_next]
  exact hkept.rests hrows (not_exists.mp fun hsends => hkept.sends_iff.mp hsends hat)

theorem compared_of_idle (hrows : Comparable options (seen ++ [next]))
    (hmatches : Matches options seen)
    (hsame : lastAction seen = executedAction seen) : Compared options seen next := by
  have hat : AtTarget (lastAction seen) (replayed options seen).ledger.state.positionUnits := by
    by_cases hhold : lastAction seen = .hold
    · rw [hhold]
      rfl
    · refine Int64.toInt_inj.mp ?_
      rw [toInt_target hhold, hmatches.position, simulated_position, hsame]
  obtain ⟨hfills, hposition⟩ := replayed_rests hrows hat
  have hzero : delta seen = 0 := by rw [delta, hsame, sub_self, mul_zero]
  refine .same ?_ hfills hposition ?_ ?_
  · exact ⟨fun hhold => hsame ▸ hhold, fun hne => absurd hzero hne, fun hlt => absurd hzero hlt.ne⟩
  · rw [simulated_next.2, execute_of_eq]
    rw [simulated_position, hsame]
  · rw [simulated_next.1, simulated_position, hsame]

/-- The simulator closes what it holds, and the replay does not. -/
theorem compared_of_hold (hrows : Comparable options (seen ++ [next]))
    (hmatches : Matches options seen) (hhold : lastAction seen = .hold)
    (hne : executedAction seen ≠ .hold) : Compared options seen next := by
  obtain ⟨_, hposition⟩ := replayed_rests hrows (hhold ▸ rfl)
  refine .apart (fun halike => hne (halike.held hhold)) fun he => ?_
  rw [hposition, hmatches.position, simulated_position, simulated_next.1, hhold] at he
  exact hne (direction_injective (by omega))

/-- The simulator trades, and the replay fills, refuses or rejects the same order. -/
theorem compared_of_trade (hrows : Comparable options (seen ++ [next]))
    (hmatches : Matches options seen) (hne : lastAction seen ≠ .hold)
    (hturn : lastAction seen ≠ executedAction seen) : Compared options seen next := by
  have hkept := kept_replay hrows.left
  have hturned : 100 * direction (executedAction seen) ≠ 100 * direction (lastAction seen) :=
    fun he => hturn (direction_injective (by omega)).symm
  have hstart := hmatches.position.trans simulated_position
  have hnot : ¬ AtTarget (lastAction seen) (replayed options seen).ledger.state.positionUnits := by
    intro hat
    rw [← hstart, ← toInt_target hne, show target _ _ = _ from hat] at hturned
    exact hturned rfl
  obtain ⟨pending, hsends⟩ := hkept.sends_iff.mpr hnot
  obtain ⟨row, hrow, hexecuted⟩ := hkept.executed hrows hrows.undisturbed_next hsends
  obtain ⟨hquantity, hdelta⟩ := sentOrder_delta hkept.position hmatches
    (hkept.decides hsends.1).2.1 hne hsends
  have halike := @alikeAt_iff_of_order options seen next row _ _ hquantity hdelta hne hrow
  rw [← replayed_next] at hexecuted
  have hsimulated := @simulated_next options seen next
  rw [execute_fills hquantity (by rw [simulated_position, ← hdelta, delta, mul_sub])] at hsimulated
  generalize sentOrder (replay options (events seen)) pending = order at *
  -- while the replay stays where it was, the simulator has moved
  have hapart : (replayed options (seen ++ [next])).ledger.state.positionUnits =
      (replayed options seen).ledger.state.positionUnits →
      (replayed options (seen ++ [next])).ledger.state.positionUnits.toInt ≠
        (simulated options (seen ++ [next])).position := by
    intro hsame
    rw [hsame, hstart, hsimulated.1]
    exact hturned
  cases hexecuted with
  | refused hworth _ hposition =>
    refine .apart (fun h => ?_) (hapart hposition)
    have hleast := (halike.mp h).1
    rw [worth, abs_of_pos hquantity] at hworth
    omega
  | rejected hworth hside hnone _ hposition =>
    refine .apart (fun h => ?_) (hapart hposition)
    have hwhole := (halike.mp h).2
    rw [hside] at hwhole
    have hslip := slip_of_sell_eq_none (bookRow next).bid_pos hnone
    have hpositive := (sell_slip_iff_whole.mpr hwhole).1
    omega
  | filled fill hworth hfilled hfills hposition =>
    refine .filled fill _ hne ?_ hfills hsimulated.2 ?_
    · rw [sameFill_iff hquantity hfilled]
      rw [worth, abs_of_pos hquantity] at hworth
      exact halike.trans (and_iff_right hworth)
    · rw [hposition, toInt_target hne, hsimulated.1]

theorem compared (hrows : Comparable options (seen ++ [next])) (hmatches : Matches options seen) :
    Compared options seen next := by
  by_cases hsame : lastAction seen = executedAction seen
  · exact compared_of_idle hrows hmatches hsame
  · by_cases hhold : lastAction seen = .hold
    · exact compared_of_hold hrows hmatches hhold fun hflat => hsame (hhold.trans hflat.symm)
    · exact compared_of_trade hrows hmatches hhold hsame

/-- One row more keeps the two together exactly under its conditions. -/
theorem matches_next_iff (hrows : Comparable options (seen ++ [next]))
    (hmatches : Matches options seen) :
    Matches options (seen ++ [next]) ↔ AlikeAt options seen next := by
  cases compared hrows hmatches with
  | same halike hfills hposition hfills' hposition' =>
    refine iff_of_true ⟨?_, ?_⟩ halike
    · rw [hfills, hfills']
      exact hmatches.fills
    · rw [hposition, hposition']
      exact hmatches.position
  | filled fill other _ halike hfills hfills' hposition =>
    rw [halike]
    constructor
    · intro h
      have hboth := h.fills
      rw [hfills, hfills'] at hboth
      have hlast := List.forall₂_drop_append _ _ _ hboth
      rw [← hmatches.fills.length_eq, List.drop_left] at hlast
      exact (List.forall₂_cons.mp hlast).1
    · intro hsame
      refine ⟨?_, hposition⟩
      rw [hfills, hfills']
      exact List.rel_append hmatches.fills (.cons hsame .nil)
  | apart hnot hposition => exact iff_of_false (fun h => hposition h.position) hnot

theorem matches_nil : Matches options [] := by
  refine ⟨.nil, ?_⟩
  show (PerpetualLedger.new (exchangeConfig options).ledger).state.positionUnits.toInt = 0
  rw [(PerpetualLedger.new_state _).1]
  rfl

theorem replayed_fills_extend (later : List DecidedRow) :
    (replayed options seen).fills <+: (replayed options (seen ++ later)).fills := by
  obtain ⟨calls, hcalls⟩ := replay_calls options (events seen) (events later)
  have happend : events (seen ++ later) = events seen ++ events later := List.map_append ..
  rw [replayed, replayed, happend, hcalls]
  exact chain_fills_extend (foldl_transitions _ calls)

/-- Agreement over the whole run is agreement all along. -/
theorem Agrees.matches {rows : List DecidedRow} (h : Agrees options rows)
    (hrows : Comparable options rows) (later : List DecidedRow) (hsplit : rows = seen ++ later) :
    Matches options seen := by
  induction seen using List.reverseRecOn generalizing later with
  | nil => exact matches_nil
  | append_singleton seen next ih =>
    have hseen := ih (next :: later) (by simp [hsplit])
    have hnext : Comparable options (seen ++ [next]) := (hsplit ▸ hrows).left
    cases compared hnext hseen with
    | same halike => exact (matches_next_iff hnext hseen).mpr halike
    | filled fill other _ _ hfills hfills' hposition =>
      refine ⟨?_, hposition⟩
      obtain ⟨more, hmore⟩ := @replayed_fills_extend options (seen ++ [next]) later
      obtain ⟨more', hmore'⟩ := @simulated_fills_extend options (seen ++ [next]) later
      have hlength : (replayed options (seen ++ [next])).fills.length =
          (simulated options (seen ++ [next])).fills.length := by
        simp [hfills, hfills', hseen.fills.length_eq]
      have hall := h.fills
      rw [hsplit, ← hmore, ← hmore'] at hall
      have hfirst := List.forall₂_take_append _ _ _ hall
      rwa [← hlength, List.take_left] at hfirst
    | apart _ hposition => exact absurd (h.position _ later hsplit) hposition

theorem Alike.matches {rows : List DecidedRow} (h : Alike options rows)
    (hrows : Comparable options rows) (later : List DecidedRow) (hsplit : rows = seen ++ later) :
    Matches options seen := by
  induction seen using List.reverseRecOn generalizing later with
  | nil => exact matches_nil
  | append_singleton seen next ih =>
    have hsplit' : rows = seen ++ next :: later := by simp [hsplit]
    exact (matches_next_iff (hsplit ▸ hrows).left (ih _ hsplit')).mpr (h seen next later hsplit')

end Orders

/-- On rows that can be compared, the pre-check agrees with the replay exactly when its conditions
hold at every row. -/
theorem agrees_iff (options : Options) (rows : List DecidedRow) (h : Comparable options rows) :
    Agrees options rows ↔ Alike options rows := by
  constructor
  · rintro hagrees seen next later hsplit
    have hsplit' : rows = (seen ++ [next]) ++ later := by simp [hsplit]
    exact (matches_next_iff (hsplit' ▸ h).left (hagrees.matches h _ hsplit)).mp
      (hagrees.matches h _ hsplit')
  · intro halike
    refine ⟨(halike.matches h [] (by simp)).fills, fun seen later hsplit =>
      (halike.matches h later hsplit).position, ?_⟩
    intro seen next later hsplit hhold
    have hsplit' : rows = (seen ++ [next]) ++ later := by simp [hsplit]
    cases compared (hsplit' ▸ h).left (halike.matches h _ hsplit) with
    | same _ _ hposition _ hposition' => exact ⟨hposition, hposition'⟩
    | filled fill other hne => exact absurd hhold hne
    | apart hnot => exact absurd (halike seen next later hsplit) hnot

/-- Long, then short at a bid that slips by one unit. -/
theorem agrees_iff_reversal :
    let tape : DecisionTape :=
      { decisions := [(1, { action := .longPosition, stateSequence := 1 }),
          (2, { action := .shortPosition, stateSequence := 2 }), (3, { stateSequence := 3 })]
        keyed := by decide }
    let row : DecidedRow :=
      { event := { sequence := 1, exchangeTimeNs := 1000, receiveTimeNs := 1001000
                   bestBidUnits := 10000, bestAskUnits := 10001 }
        action := .longPosition, wellFormed := by decide }
    Agrees { model := .tape tape, probabilityThresholdPpm := 0 }
      [row,
       { event := { row.event with sequence := 2, exchangeTimeNs := 2000, receiveTimeNs := 1002000 }
         action := .shortPosition, wellFormed := by decide },
       { event := { row.event with sequence := 3, exchangeTimeNs := 3000, receiveTimeNs := 1003000 }
         action := .hold, wellFormed := by decide }] := by
  intro tape row
  exact (agrees_iff _ _ ⟨rfl, by decide +kernel, by decide +kernel, by decide +kernel,
    by decide +kernel, by decide +kernel, by decide +kernel⟩).mpr (by decide +kernel)

/-- Long, then hold: at the third row the simulator is flat. -/
theorem not_forall_agrees : ¬ ∀ (options : Options) (rows : List DecidedRow),
    Comparable options rows →
    (∃ start, rows.map (·.event.sequence.toNat) = List.range' start rows.length) →
    Agrees options rows := by
  intro h
  let tape : DecisionTape :=
    { decisions := [(1, { action := .longPosition, stateSequence := 1 }),
        (2, { action := .hold, stateSequence := 2 }), (3, { stateSequence := 3 })]
      keyed := by decide }
  let row : DecidedRow :=
    { event := { sequence := 1, exchangeTimeNs := 1000, receiveTimeNs := 1001000
                 bestBidUnits := 10000, bestAskUnits := 10001 }
      action := .longPosition, wellFormed := by decide }
  have hagrees := h { model := .tape tape, probabilityThresholdPpm := 0 }
    [row,
     { event := { row.event with sequence := 2, exchangeTimeNs := 2000, receiveTimeNs := 1002000 }
       action := .hold, wellFormed := by decide },
     { event := { row.event with sequence := 3, exchangeTimeNs := 3000, receiveTimeNs := 1003000 }
       action := .hold, wellFormed := by decide }]
    ⟨rfl, by decide +kernel, by decide +kernel, by decide +kernel, by decide +kernel,
      by decide +kernel, by decide +kernel⟩ ⟨1, by decide +kernel⟩
  exact absurd (hagrees.position _ [] (List.append_nil _).symm) (by decide +kernel)

end Astra.Report
