import AstraTrader.Features

/-! What the ring of `FeatureBuilder` holds: the latest midpoints, each at its number modulo the
length of the ring. The slot that is overwritten next is the oldest of them. -/

namespace Astra
open FixedWidth

theorem toInt_clampToI64 (value : Wide) :
    (clampToI64 value).toInt = max (-2 ^ 63) (min (2 ^ 63 - 1) value.toInt) := by
  have hlo : (wide Int64.minValue).toInt = -2 ^ 63 := by decide
  have hhi : (wide Int64.maxValue).toInt = 2 ^ 63 - 1 := by decide
  unfold clampToI64
  split_ifs with hless hmore <;> rw [Int128.lt_def] at *
  · rw [hlo] at hless
    rw [Int64.toInt_minValue]
    omega
  · rw [hhi] at hmore
    rw [Int64.toInt_maxValue]
    omega
  · rw [hlo] at hless
    rw [hhi] at hmore
    rw [Int128.toInt_toInt64 ⟨by omega, by omega⟩]
    omega

namespace FeatureBuilder

/-- The ring after `midpoints` have been pushed into it. -/
structure Holds (lookback : ℕ) (builder : FeatureBuilder) (midpoints : List Int64) : Prop where
  length : builder.midpoints.length = lookback
  nextIndex : builder.nextIndex = midpoints.length % lookback
  size : builder.size = min midpoints.length lookback
  latest : ∀ i, i < midpoints.length → midpoints.length ≤ i + lookback →
    builder.midpoints[i % lookback]? = midpoints[i]?

theorem holds_new (lookback : ℕ) : Holds lookback (new lookback) [] where
  length := List.length_replicate
  nextIndex := (Nat.zero_mod lookback).symm
  size := (Nat.zero_min lookback).symm
  latest i hi := absurd hi (Nat.not_lt_zero i)

variable {lookback : ℕ} {builder : FeatureBuilder} {midpoints : List Int64} {midpoint : Int64}

theorem Holds.push (h : Holds lookback builder midpoints) (hlookback : 0 < lookback)
    (midpoint : Int64) : Holds lookback (builder.push midpoint) (midpoints ++ [midpoint]) where
  length := (List.length_set ..).trans h.length
  nextIndex := by
    rw [FeatureBuilder.push, h.nextIndex, h.length, List.length_append, List.length_singleton,
      Nat.mod_add_mod]
  size := by
    show min (builder.size + 1) builder.midpoints.length = _
    rw [h.size, h.length, List.length_append, List.length_singleton]
    omega
  latest i hi hrecent := by
    rw [List.length_append, List.length_singleton] at hi hrecent
    rw [FeatureBuilder.push, h.nextIndex]
    rcases Nat.lt_succ_iff_lt_or_eq.mp hi with hlt | rfl
    -- an older midpoint that is still held is in another slot
    · have hne : midpoints.length % lookback ≠ i % lookback := fun heq => by
        have hzero := Nat.sub_mod_eq_zero_of_mod_eq heq
        rw [Nat.mod_eq_of_lt (by omega)] at hzero
        omega
      rw [List.getElem?_set_ne hne, List.getElem?_append_left hlt]
      exact h.latest i hlt (by omega)
    · rw [List.getElem?_set_self (by rw [h.length]; exact Nat.mod_lt _ hlookback),
        List.getElem?_concat_length]

theorem Holds.oldest (h : Holds lookback builder midpoints) (hlookback : 0 < lookback)
    (hfull : lookback ≤ midpoints.length) :
    builder.midpoints[builder.nextIndex]? = midpoints[midpoints.length - lookback]? := by
  have hmod : (midpoints.length - lookback) % lookback = midpoints.length % lookback :=
    (Nat.mod_eq_sub_mod hfull).symm
  rw [h.nextIndex, ← hmod]
  exact h.latest _ (by omega) (by omega)

theorem returnPpm_of_not_full (h : Holds lookback builder midpoints)
    (hfull : midpoints.length < lookback) (midpoint : Int64) : builder.returnPpm midpoint = 0 := by
  refine if_neg fun hreturn => ?_
  have hsize := hreturn.1
  rw [h.size, h.length] at hsize
  omega

theorem Holds.returnPpm_eq (h : Holds lookback builder midpoints) (hlookback : 0 < lookback)
    (midpoint : Int64) : builder.returnPpm midpoint =
      if lookback ≤ midpoints.length then
        let oldest := (midpoints[midpoints.length - lookback]?).getD 0
        if 0 < oldest then
          clampToI64 ((wide midpoint - wide oldest) * 1000000 / wide oldest)
        else 0
      else 0 := by
  split_ifs with hfull
  · have hsize : builder.size = builder.midpoints.length := by
      rw [h.size, h.length]
      omega
    unfold returnPpm
    simp only [List.getD_eq_getElem?_getD, h.oldest hlookback hfull, hsize, true_and]
  · exact returnPpm_of_not_full h (not_le.mp hfull) midpoint

theorem toInt_return {midpoint oldest : Int64} (hpos : 0 < oldest.toInt) :
    (clampToI64 ((wide midpoint - wide oldest) * 1000000 / wide oldest)).toInt = max (-2 ^ 63)
      (min (2 ^ 63 - 1) (((midpoint.toInt - oldest.toInt) * 1000000).tdiv oldest.toInt)) := by
  have hlo := midpoint.le_toInt
  have hhi := midpoint.toInt_lt
  have hbound := oldest.toInt_lt
  have hmillion : (1000000 : Wide).toInt = 1000000 := Int128.toInt_ofNat (by norm_num)
  have hsub : (wide midpoint - wide oldest).toInt = midpoint.toInt - oldest.toInt :=
    Int128.toInt_sub (by simp only [toInt_wide]; constructor <;> omega)
  have hmul : ((wide midpoint - wide oldest) * 1000000).toInt =
      (midpoint.toInt - oldest.toInt) * 1000000 := by
    rw [Int128.toInt_mul, hsub, hmillion]
    rw [hsub, hmillion]
    constructor <;> omega
  rw [toInt_clampToI64, Int128.toInt_div_of_pos hpos, hmul, toInt_wide]

theorem toInt_returnPpm (h : Holds lookback builder midpoints) (hlookback : 0 < lookback)
    (hfull : lookback ≤ midpoints.length) {oldest : Int64}
    (holdest : midpoints[midpoints.length - lookback]? = some oldest) (hpos : 0 < oldest.toInt)
    (midpoint : Int64) : (builder.returnPpm midpoint).toInt = max (-2 ^ 63)
      (min (2 ^ 63 - 1) (((midpoint.toInt - oldest.toInt) * 1000000).tdiv oldest.toInt)) := by
  rw [h.returnPpm_eq hlookback, if_pos hfull, holdest]
  dsimp only [Option.getD_some]
  rw [if_pos ((int64_pos_iff _).mpr hpos), toInt_return hpos]

/-- What the successive calls of `update` return. -/
def updatesFrom (builder : FeatureBuilder) : List (MarketEvent × Int64) → List ModelState
  | [] => []
  | call :: calls =>
    (builder.update call.1 call.2).2 :: updatesFrom (builder.update call.1 call.2).1 calls

def updates (lookback : ℕ) (calls : List (MarketEvent × Int64)) : List ModelState :=
  updatesFrom (new lookback) calls

def midpointsOf (calls : List (MarketEvent × Int64)) : List Int64 :=
  calls.map fun call => PaperExchange.midpoint call.1

section Updates
variable {calls : List (MarketEvent × Int64)} {state : ModelState} {k : ℕ}

theorem updatesFrom_getElem? (h : Holds lookback builder midpoints) (hlookback : 0 < lookback)
    (hstate : (updatesFrom builder calls)[k]? = some state) :
    ∃ call current, calls[k]? = some call ∧
      Holds lookback current (midpoints ++ midpointsOf (calls.take k)) ∧
      state = (current.update call.1 call.2).2 := by
  induction calls generalizing builder midpoints k with
  | nil => exact absurd hstate (by simp [updatesFrom])
  | cons call calls ih =>
    cases k with
    | zero =>
      refine ⟨call, builder, rfl, ?_, (Option.some.inj hstate).symm⟩
      simpa [midpointsOf] using h
    | succ k =>
      obtain ⟨found, current, hfound, hholds, hupdate⟩ :=
        ih (h.push hlookback (PaperExchange.midpoint call.1)) hstate
      refine ⟨found, current, hfound, ?_, hupdate⟩
      simpa [midpointsOf] using hholds

theorem midpointsOf_take_length {call : MarketEvent × Int64} (h : calls[k]? = some call) :
    (midpointsOf (calls.take k)).length = k := by
  have hlt := (List.getElem?_eq_some_iff.mp h).1
  rw [midpointsOf, List.length_map, List.length_take, Nat.min_eq_left hlt.le]

theorem midpointsOf_take_getElem? {j : ℕ} (h : j < k) :
    (midpointsOf (calls.take k))[j]? =
      calls[j]?.map fun call => PaperExchange.midpoint call.1 := by
  rw [midpointsOf, List.getElem?_map, List.getElem?_take_of_lt h]

theorem return_of_updates (hlookback : 0 < lookback)
    (hstate : (updates lookback calls)[k]? = some state) :
    ∃ call, calls[k]? = some call ∧
      state.flowImbalancePpm = imbalancePpm call.1 ∧
      state.return100EventsPpm =
        if lookback ≤ k then
          let oldest := (calls[k - lookback]?.map fun past => PaperExchange.midpoint past.1).getD 0
          if 0 < oldest then
            clampToI64 ((wide (PaperExchange.midpoint call.1) - wide oldest) * 1000000 /
              wide oldest)
          else 0
        else 0 := by
  obtain ⟨call, current, hcall, hholds, rfl⟩ :=
    updatesFrom_getElem? (holds_new lookback) hlookback hstate
  refine ⟨call, hcall, rfl, ?_⟩
  rw [List.nil_append] at hholds
  have hreturn := hholds.returnPpm_eq hlookback (PaperExchange.midpoint call.1)
  rw [midpointsOf_take_length hcall] at hreturn
  refine hreturn.trans ?_
  split_ifs with hfull
  · rw [midpointsOf_take_getElem? (by omega)]
  · rfl

end Updates

/-- An event with a positive bid and an ask that is no less. -/
structure Quoted (event : MarketEvent) : Prop where
  bid : 0 < event.bestBidUnits
  ask : event.bestBidUnits ≤ event.bestAskUnits

def floorMidpoint (event : MarketEvent) : ℤ :=
  (event.bestBidUnits.toInt + event.bestAskUnits.toInt) / 2

theorem Quoted.toInt_midpoint {event : MarketEvent} (h : Quoted event) :
    (PaperExchange.midpoint event).toInt = floorMidpoint event ∧ 0 < floorMidpoint event := by
  have hbid := (int64_pos_iff _).mp h.bid
  have hask := Int64.le_iff_toInt_le.mp h.ask
  have hmax := event.bestAskUnits.toInt_lt
  have htwo : (2 : Int64).toInt = 2 := rfl
  have hspread : (event.bestAskUnits - event.bestBidUnits).toInt =
      event.bestAskUnits.toInt - event.bestBidUnits.toInt :=
    int64_toInt_sub_of_nonneg (hbid.le.trans hask) hbid.le
  have hhalf : ((event.bestAskUnits - event.bestBidUnits) / 2).toInt =
      (event.bestAskUnits.toInt - event.bestBidUnits.toInt) / 2 := by
    rw [Int64.toInt_div, hspread, htwo, Int.tdiv_eq_ediv_of_nonneg (sub_nonneg.mpr hask)]
    exact Int.bmod_eq_of_le (m := 2 ^ 64) (by omega) (by omega)
  unfold floorMidpoint
  constructor
  · rw [PaperExchange.midpoint, int64_toInt_add_of_inRange, hhalf]
    · omega
    · rw [hhalf]
      constructor <;> omega
  · omega

theorem tdiv_ppm_bounds {part total : ℤ} (htotal : 0 < total) (hlo : -total ≤ part)
    (hhi : part ≤ total) :
    -1000000 ≤ (part * 1000000).tdiv total ∧ (part * 1000000).tdiv total ≤ 1000000 := by
  have hone : (total * 1000000).tdiv total = 1000000 := Int.mul_tdiv_cancel_left _ htotal.ne'
  have hneg : (-total * 1000000).tdiv total = -1000000 := by
    rw [Int.neg_mul, Int.neg_tdiv, hone]
  have hbelow : -total * 1000000 ≤ part * 1000000 := by omega
  have habove : part * 1000000 ≤ total * 1000000 := by omega
  exact ⟨hneg.symm.le.trans (Int.tdiv_le_tdiv htotal hbelow),
    (Int.tdiv_le_tdiv htotal habove).trans hone.le⟩

theorem imbalancePpm_bounds {event : MarketEvent} (hbid : 0 ≤ event.bidQuantityUnits.toInt)
    (hask : 0 ≤ event.askQuantityUnits.toInt) :
    -1000000 ≤ (imbalancePpm event).toInt ∧ (imbalancePpm event).toInt ≤ 1000000 := by
  have hbid' := event.bidQuantityUnits.toInt_lt
  have hask' := event.askQuantityUnits.toInt_lt
  have hmillion : (1000000 : Wide).toInt = 1000000 := Int128.toInt_ofNat (by norm_num)
  have hsum : (wide event.bidQuantityUnits + wide event.askQuantityUnits).toInt =
      event.bidQuantityUnits.toInt + event.askQuantityUnits.toInt :=
    Int128.toInt_add (by simp only [toInt_wide]; constructor <;> omega)
  have hdifference : (wide event.bidQuantityUnits - wide event.askQuantityUnits).toInt =
      event.bidQuantityUnits.toInt - event.askQuantityUnits.toInt :=
    Int128.toInt_sub (by simp only [toInt_wide]; constructor <;> omega)
  have hproduct : ((wide event.bidQuantityUnits - wide event.askQuantityUnits) * 1000000).toInt =
      (event.bidQuantityUnits.toInt - event.askQuantityUnits.toInt) * 1000000 := by
    rw [Int128.toInt_mul, hdifference, hmillion]
    rw [hdifference, hmillion]
    constructor <;> omega
  unfold imbalancePpm
  dsimp only
  split_ifs with hpos
  · rw [Int128.lt_def, hsum, Int128.toInt_zero] at hpos
    rw [toInt_clampToI64, Int128.toInt_div_of_pos (by rw [hsum]; exact hpos), hproduct, hsum]
    have hbounds := @tdiv_ppm_bounds
      (event.bidQuantityUnits.toInt - event.askQuantityUnits.toInt) _ hpos (by omega) (by omega)
    omega
  · exact ⟨by decide, by decide⟩

/-- What the returned states owe to the calls, counted from zero. -/
structure Lagged (lookback : ℕ) (calls : List (MarketEvent × Int64)) (states : List ModelState) :
    Prop where
  length : states.length = calls.length
  early : ∀ (k : ℕ) (state : ModelState), states[k]? = some state → k < lookback →
    state.return100EventsPpm = 0
  returns : ∀ (k : ℕ) (state : ModelState) (now past : MarketEvent × Int64),
    states[k]? = some state → lookback ≤ k → calls[k]? = some now →
    calls[k - lookback]? = some past → state.return100EventsPpm.toInt =
      max (-2 ^ 63) (min (2 ^ 63 - 1)
        (((floorMidpoint now.1 - floorMidpoint past.1) * 1000000).tdiv (floorMidpoint past.1)))
  imbalance : ∀ (k : ℕ) (state : ModelState) (now : MarketEvent × Int64),
    states[k]? = some state → calls[k]? = some now → 0 ≤ now.1.bidQuantityUnits.toInt →
    0 ≤ now.1.askQuantityUnits.toInt → -1000000 ≤ state.flowImbalancePpm.toInt ∧
      state.flowImbalancePpm.toInt ≤ 1000000

theorem updatesFrom_length (builder : FeatureBuilder) (calls : List (MarketEvent × Int64)) :
    (updatesFrom builder calls).length = calls.length := by
  induction calls generalizing builder with
  | nil => rfl
  | cons call calls ih => exact congrArg (· + 1) (ih _)

theorem lagged_updates {lookback : ℕ} (hlookback : 0 < lookback)
    {calls : List (MarketEvent × Int64)} (hquoted : ∀ call ∈ calls, Quoted call.1) :
    Lagged lookback calls (updates lookback calls) where
  length := updatesFrom_length _ calls
  early k state hstate hk := by
    obtain ⟨_, _, _, hreturn⟩ := return_of_updates hlookback hstate
    rw [hreturn, if_neg (not_le.mpr hk)]
  returns k state now past hstate hk hnow hpast := by
    obtain ⟨call, hcall, _, hreturn⟩ := return_of_updates hlookback hstate
    obtain rfl : now = call := Option.some.inj (hnow.symm.trans hcall)
    obtain ⟨hmidpoint, _⟩ := (hquoted now (List.mem_of_getElem? hnow)).toInt_midpoint
    obtain ⟨hoverwritten, hpos⟩ := (hquoted past (List.mem_of_getElem? hpast)).toInt_midpoint
    rw [← hoverwritten] at hpos
    rw [hreturn, if_pos hk, hpast]
    dsimp only [Option.map_some, Option.getD_some]
    rw [if_pos ((int64_pos_iff _).mpr hpos), toInt_return hpos, hmidpoint, hoverwritten]
  imbalance k state now hstate hnow hbid hask := by
    obtain ⟨call, hcall, himbalance, _⟩ := return_of_updates hlookback hstate
    obtain rfl : now = call := Option.some.inj (hnow.symm.trans hcall)
    rw [himbalance]
    exact imbalancePpm_bounds hbid hask

/-- The features at a call are the same in any two sequences that agree there and, once the ring is
full, one lookback before. -/
def Local (lookback : ℕ) : Prop :=
  ∀ (calls others : List (MarketEvent × Int64)) (k : ℕ) (state other : ModelState),
    (updates lookback calls)[k]? = some state → (updates lookback others)[k]? = some other →
    calls[k]?.map Prod.fst = others[k]?.map Prod.fst →
    (lookback ≤ k → calls[k - lookback]?.map Prod.fst = others[k - lookback]?.map Prod.fst) →
    state.return100EventsPpm = other.return100EventsPpm ∧
      state.flowImbalancePpm = other.flowImbalancePpm

theorem local_updates {lookback : ℕ} (hlookback : 0 < lookback) : Local lookback := by
  intro calls others k state other hstate hother hnow hpast
  obtain ⟨call, hcall, himbalance, hreturn⟩ := return_of_updates hlookback hstate
  obtain ⟨call', hcall', himbalance', hreturn'⟩ := return_of_updates hlookback hother
  rw [hcall, hcall'] at hnow
  have hevent : call.1 = call'.1 := Option.some.inj hnow
  rw [hreturn, hreturn', himbalance, himbalance', hevent]
  refine ⟨?_, rfl⟩
  split_ifs with hfull
  · have hmidpoint := congrArg (Option.map PaperExchange.midpoint) (hpast hfull)
    rw [Option.map_map, Option.map_map] at hmidpoint
    have hsame : calls[k - lookback]?.map (fun past => PaperExchange.midpoint past.1) =
        others[k - lookback]?.map fun past => PaperExchange.midpoint past.1 := hmidpoint
    rw [hsame]
  · rfl

/-- The ring keeps exactly the lag it was made for, through its filling and every wrap. -/
theorem updates_lag (lookback : ℕ) (hlookback : 1 ≤ lookback) :
    (∀ calls : List (MarketEvent × Int64), (∀ call ∈ calls, Quoted call.1) →
      Lagged lookback calls (updates lookback calls)) ∧ Local lookback :=
  ⟨fun _ hquoted => lagged_updates hlookback hquoted, local_updates hlookback⟩

/-- A ring of one midpoint, wrapped twice. -/
theorem updates_lag_one :
    let event : MarketEvent := { sequence := 1, exchangeTimeNs := 1, receiveTimeNs := 2
                                 bestBidUnits := 99, bestAskUnits := 101
                                 bidQuantityUnits := 3, askQuantityUnits := 1 }
    Lagged 1 [(event, 0), ({ event with sequence := 2, bestAskUnits := 121 }, -2), (event, 0)]
      (updates 1
        [(event, 0), ({ event with sequence := 2, bestAskUnits := 121 }, -2), (event, 0)]) := by
  intro event
  refine (updates_lag 1 le_rfl).1 _ ?_
  have hevent : Quoted event := ⟨by decide, by decide⟩
  have hwider : Quoted { event with sequence := 2, bestAskUnits := 121 } :=
    ⟨by decide, by decide⟩
  simp [hevent, hwider]

end FeatureBuilder
end Astra
