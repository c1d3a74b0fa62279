import AstraTrader.Exchange.Exposure
import AstraTrader.Exchange.History

/-! What the reduce-only flag is worth at execution. The flag is read at submission only, so
its promise lasts until another order trades on the same side. -/

namespace Astra
open FixedWidth

/-- The ledger position on which fill number `k` lands: what the fills before it sum to. -/
def PaperExchange.positionBefore (exchange : PaperExchange) (k : ℕ) : ℤ :=
  ((exchange.fills.take k).map (·.signedUnits)).sum

theorem Side.sign_mul_self (side : Side) : side.sign * side.sign = 1 := by cases side <;> rfl

theorem Side.sign_mul_of_ne {a b : Side} (h : b ≠ a) : a.sign * b.sign = -1 := by
  cases a <;> cases b <;> first | rfl | exact absurd rfl h

theorem closer_of_sign_mul {side : Side} {p p' q : ℤ} (hstep : side.sign * p' = side.sign * p + q)
    (hq : 0 < q) (hle : side.sign * p' ≤ 0) : |p'| < |p| ∧ (p' = 0 ∨ p'.sign = p.sign) := by
  cases side with
  | buy =>
    simp only [Side.sign, one_mul] at hstep hle
    have hp : p < 0 := by omega
    refine ⟨?_, ?_⟩
    · rw [abs_of_neg hp, abs_of_nonpos hle]
      omega
    · rcases hle.lt_or_eq with hlt | heq
      · exact .inr (by rw [Int.sign_eq_neg_one_of_neg hlt, Int.sign_eq_neg_one_of_neg hp])
      · exact .inl heq
  | sell =>
    simp only [Side.sign, neg_one_mul] at hstep hle
    have hp : 0 < p := by omega
    have hp' : 0 ≤ p' := by omega
    refine ⟨?_, ?_⟩
    · rw [abs_of_pos hp, abs_of_nonneg hp']
      omega
    · rcases hp'.lt_or_eq with hlt | heq
      · exact .inr (by rw [Int.sign_eq_one_of_pos hlt, Int.sign_eq_one_of_pos hp])
      · exact .inl heq.symm

section Fills
variable {fills : List PaperFill} {orderId : ℕ} {side : Side}

/-- Fills that either belong to one order on `side` or go the other way move the position along
`side` by no more than that order was given. -/
theorem sign_mul_sum_le (hpos : ∀ fill ∈ fills, 0 < fill.quantityUnits.toInt)
    (hown : ∀ fill ∈ fills, fill.orderId = orderId → fill.side = side)
    (hother : ∀ fill ∈ fills, fill.orderId ≠ orderId → fill.side ≠ side) :
    side.sign * (fills.map (·.signedUnits)).sum ≤ filledOf fills orderId := by
  induction fills using List.reverseRecOn with
  | nil => simp [filledOf]
  | append_singleton fills fill ih =>
    have hq := hpos fill (by simp)
    have hsigned : fill.signedUnits = fill.side.sign * fill.quantityUnits.toInt :=
      toInt_signedQuantity hq fill.side
    have hinit := ih (fun f hf => hpos f (by simp [hf])) (fun f hf => hown f (by simp [hf]))
      (fun f hf => hother f (by simp [hf]))
    rw [List.map_append, List.sum_append, mul_add, List.map_singleton, List.sum_singleton,
      filledOf_append, hsigned, ← mul_assoc]
    by_cases hid : fill.orderId = orderId
    · rw [if_pos hid, hown fill (by simp) hid, side.sign_mul_self]
      omega
    · rw [if_neg hid, Side.sign_mul_of_ne (hother fill (by simp) hid)]
      omega

end Fills

namespace PaperExchange
open Relation

/-- What is left of a submission once later calls have run: the fills made since then, and the
order in its place. -/
structure Followed (start final : PaperExchange) (request : OrderRequest)
    (fresh : List PaperFill) : Prop where
  fills : final.fills = start.fills ++ fresh
  order : ∃ order, final.orders[start.orders.length]? = some order ∧
    order.request = normalized start.config request

theorem followed_of_admitted {start : PaperExchange} {request : OrderRequest}
    {market : MarketEvent} {decisionTimeNs : Int64}
    (h : start.Admitted request market decisionTimeNs) (after : List ExchangeCall) :
    ∃ fresh, Followed start (after.foldl call (start.submit request decisionTimeNs).1) request
      fresh := by
  have hchain : ReflTransGen (Transition (fun _ => True) fun _ _ => True)
      (start.append (start.place request decisionTimeNs))
      (after.foldl call (start.submit request decisionTimeNs).1) :=
    (h.submit_eq ▸ store_moves h).trans (foldl_transitions _ after)
  obtain ⟨fresh, hfresh⟩ := chain_fills_extend hchain
  obtain ⟨rest, hrest⟩ := chain_requests_extend hchain
  refine ⟨fresh, hfresh.symm, ?_⟩
  have hget : (after.foldl call (start.submit request decisionTimeNs).1).requests[
      start.orders.length]? = some (normalized start.config request) := by
    rw [← hrest]
    simp [requests, PaperExchange.append, place]
  rwa [requests, List.getElem?_map, Option.map_eq_some_iff] at hget

section Followed
variable {config : PaperExchangeConfig} {start final : PaperExchange} {request : OrderRequest}
  {fresh : List PaperFill}

theorem Followed.positionBefore (h : Followed start final request fresh)
    (hstart : Consistent config start) (m : ℕ) :
    final.positionBefore (start.fills.length + m) =
      start.ledger.state.positionUnits.toInt + ((fresh.take m).map (·.signedUnits)).sum := by
  rw [PaperExchange.positionBefore, h.fills, List.take_length_add_append, List.map_append,
    List.sum_append, hstart.booked.position]

theorem Followed.filledOf_take_le (h : Followed start final request fresh)
    (hstart : Consistent config start) (hfinal : Consistent config final) (m : ℕ) :
    filledOf (fresh.take m) (start.orders.length + 1) ≤
      (normalized start.config request).quantityUnits.toInt := by
  obtain ⟨order, horder, hrequest⟩ := h.order
  have hreconciled := hfinal.orders order (List.mem_of_getElem? horder)
  have hold : filledOf start.fills (start.orders.length + 1) = 0 := by
    refine filledOf_eq_zero fun fill hfill he => ?_
    have := hstart.orderId_le hfill
    omega
  have hfresh : ∀ fill ∈ fresh, 0 < fill.quantityUnits.toInt := by
    intro fill hfill
    obtain ⟨_, _, hnames⟩ := hfinal.linked fill (by simp [h.fills, hfill])
    exact hnames.2.2.2
  have hdropped := @filledOf_nonneg (fresh.drop m)
    (fun fill hfill => hfresh fill (List.mem_of_mem_drop hfill)) (start.orders.length + 1)
  calc filledOf (fresh.take m) (start.orders.length + 1)
      ≤ filledOf (fresh.take m ++ fresh.drop m) (start.orders.length + 1) := by
        rw [filledOf_append_list]
        omega
    _ = filledOf final.fills order.orderId := by
        rw [List.take_append_drop, hfinal.indexed.orderId_eq horder, h.fills,
          filledOf_append_list, hold, zero_add]
    _ ≤ (normalized start.config request).quantityUnits.toInt := by
        rw [← hreconciled.filled, ← hrequest]
        exact hreconciled.le

/-- A reduce-only order only ever brings the position closer to flat, as long as no other order
trades on its side. -/
theorem Followed.reduces (h : Followed start final request fresh)
    (hstart : Consistent config start) (hfinal : Consistent config final)
    (hgate : request.side.sign * start.ledger.state.positionUnits.toInt +
      (normalized start.config request).quantityUnits.toInt ≤ 0)
    {m : ℕ} {fill : PaperFill} (hfill : fresh[m]? = some fill)
    (hid : fill.orderId = start.orders.length + 1)
    (hothers : ∀ other ∈ fresh.take m, other.orderId ≠ fill.orderId →
      other.side ≠ request.side) :
    request.side.sign * final.positionBefore (start.fills.length + m + 1) =
        request.side.sign * final.positionBefore (start.fills.length + m) +
          fill.quantityUnits.toInt ∧
      0 < fill.quantityUnits.toInt ∧
      request.side.sign * final.positionBefore (start.fills.length + m + 1) ≤ 0 := by
  have hown : ∀ other ∈ fresh, other.orderId = start.orders.length + 1 →
      other.side = request.side ∧ 0 < other.quantityUnits.toInt := by
    intro other hmem hother
    obtain ⟨order, horder, hrequest⟩ := h.order
    obtain ⟨_, _, hside, hpos⟩ := hfinal.names (by simp [h.fills, hmem]) horder hother
    rw [hrequest] at hside
    exact ⟨hside.symm, hpos⟩
  have hfresh : ∀ other ∈ fresh, 0 < other.quantityUnits.toInt := by
    intro other hmem
    obtain ⟨_, _, hnames⟩ := hfinal.linked other (by simp [h.fills, hmem])
    exact hnames.2.2.2
  have hmem : fill ∈ fresh := List.mem_of_getElem? hfill
  have htake : fresh.take (m + 1) = fresh.take m ++ [fill] := by
    rw [List.take_add_one, hfill, Option.toList_some]
  -- fills of other orders are on the other side, so they only take exposure away
  have hsum := @sign_mul_sum_le (fresh.take (m + 1)) (start.orders.length + 1) request.side
    (fun other hother => hfresh other (List.mem_of_mem_take hother))
    (fun other hother he => (hown other (List.mem_of_mem_take hother) he).1)
    (fun other hother he => by
      rw [htake, List.mem_append, List.mem_singleton] at hother
      rcases hother with hother | rfl
      · exact hothers other hother (by rwa [hid])
      · exact absurd hid he)
  have hle := h.filledOf_take_le hstart hfinal (m + 1)
  have hsigned : request.side.sign * fill.signedUnits = fill.quantityUnits.toInt := by
    rw [PaperFill.signedUnits, toInt_signedQuantity (hfresh fill hmem), (hown fill hmem hid).1,
      ← mul_assoc, Side.sign_mul_self, one_mul]
  rw [add_assoc, h.positionBefore hstart, h.positionBefore hstart, mul_add, mul_add]
  refine ⟨?_, hfresh fill hmem, by omega⟩
  rw [htake, List.map_append, List.sum_append, mul_add, List.map_singleton, List.sum_singleton,
    hsigned, add_assoc]

end Followed

theorem reduceOnly_reduces (config : PaperExchangeConfig) (before after : List ExchangeCall)
    (request : OrderRequest) (decisionTimeNs : Int64) (hflag : request.reduceOnly = true)
    (hstores : (run config before).Stores request decisionTimeNs) (k : ℕ) (fill : PaperFill)
    (hfill : (run config (before ++ .submit request decisionTimeNs :: after)).fills[k]? =
      some fill)
    (hid : fill.orderId = (run config before).orders.length + 1)
    (hothers : ∀ j other, (run config before).fills.length ≤ j → j < k →
      (run config (before ++ .submit request decisionTimeNs :: after)).fills[j]? = some other →
      other.orderId ≠ fill.orderId → other.side ≠ request.side) :
    let final := run config (before ++ .submit request decisionTimeNs :: after)
    |final.positionBefore (k + 1)| < |final.positionBefore k| ∧
      (final.positionBefore (k + 1) = 0 ∨
        (final.positionBefore (k + 1)).sign = (final.positionBefore k).sign) := by
  intro final
  obtain ⟨market, hadmitted⟩ := stores_iff.mp hstores
  have hvalid := validConfig_of_run hadmitted.configValid
  have hstart := consistent_run hvalid before
  have hfinal : Consistent config final := consistent_run hvalid _
  obtain ⟨fresh, hfollowed⟩ := followed_of_admitted hadmitted after
  have hrun : after.foldl call ((run config before).submit request decisionTimeNs).1 = final := by
    simp [final, run, call]
  rw [hrun] at hfollowed
  -- a fill of the new order is not among those made before it
  obtain ⟨m, rfl, hfresh⟩ : ∃ m, k = (run config before).fills.length + m ∧
      fresh[m]? = some fill := by
    by_cases hk : k < (run config before).fills.length
    · rw [hfollowed.fills, List.getElem?_append_left hk] at hfill
      have := hstart.orderId_le (List.mem_of_getElem? hfill)
      omega
    · refine ⟨k - (run config before).fills.length, by omega, ?_⟩
      rwa [hfollowed.fills, List.getElem?_append_right (not_lt.mp hk)] at hfill
  have hgate : request.side.sign * (run config before).ledger.state.positionUnits.toInt +
      (normalized (run config before).config request).quantityUnits.toInt ≤ 0 := by
    have haccepts :=
      RiskEngine.accepts_of_evaluate_eq_accept (passes_of_refusal_eq_none hadmitted.passes).risk
    have hq := (int64_pos_iff _).mp haccepts.quantity
    have hreduces := RiskEngine.reduces_of_not_violated hq (haccepts.reduceOnly hflag)
    have hle := @normalized_le (run config before).config request
      (by rw [hstart.config_eq]; exact quantityStep_pos hvalid) hq
    omega
  obtain ⟨hstep, hpos, hle⟩ := hfollowed.reduces hstart hfinal hgate hfresh hid fun other hmem => by
    obtain ⟨i, hi, hother⟩ := List.mem_take_iff_getElem.mp hmem
    refine hothers _ other (Nat.le_add_right _ i) (by omega) ?_
    rw [hfollowed.fills, List.getElem?_append_right (Nat.le_add_right _ _), Nat.add_sub_cancel_left]
    exact List.getElem?_eq_some_iff.mpr ⟨by omega, hother⟩
  exact closer_of_sign_mul hstep hpos hle

theorem reduceOnly_reduces_close :
    let final := run { ledger := { initialCashUnits := 10000 } }
      ([.onMarketEvent { sequence := 1, exchangeTimeNs := 1, receiveTimeNs := 1
                         bestBidUnits := 99, bestAskUnits := 101 },
        .submit { clientOrderId := "a", quantityUnits := 5 } 1] ++
        .submit { clientOrderId := "r", side := .sell, type := .limit, quantityUnits := 5
                  limitPriceUnits := some 102, reduceOnly := true } 1 ::
        [.onMarketEvent { sequence := 2, exchangeTimeNs := 2, receiveTimeNs := 2
                          bestBidUnits := 99, bestAskUnits := 101, tradePriceUnits := some 103
                          tradeQuantityUnits := 3, aggressorSide := some .buy }])
    |final.positionBefore 2| < |final.positionBefore 1| ∧
      (final.positionBefore 2 = 0 ∨
        (final.positionBefore 2).sign = (final.positionBefore 1).sign) := by
  refine reduceOnly_reduces _ _ _ _ _ rfl (by decide +kernel) 1
    { fillId := 2, orderId := 2, clientOrderId := "r", marketSequence := 2, exchangeTimeNs := 2
      side := .sell, quantityUnits := 3, priceUnits := 102, feeUnits := 0, realizedPnlUnits := 3
      maker := true } (by decide +kernel) (by decide +kernel) fun j other hj hlt => ?_
  exact absurd (hj.trans_lt hlt) (by decide +kernel)

/-- A plain order that trades first on the same side leaves the reduce-only order to open a
position of its own. -/
theorem not_forall_reduceOnly_reduces : ¬ ∀ (config : PaperExchangeConfig)
    (calls : List ExchangeCall) (k : ℕ) (fill : PaperFill) (order : PaperOrder),
    (run config calls).fills[k]? = some fill → order ∈ (run config calls).orders →
      order.orderId = fill.orderId → order.request.reduceOnly = true →
      |(run config calls).positionBefore (k + 1)| < |(run config calls).positionBefore k| ∧
        ((run config calls).positionBefore (k + 1) = 0 ∨
          ((run config calls).positionBefore (k + 1)).sign =
            ((run config calls).positionBefore k).sign) := by
  intro h
  have hfill := h { ledger := { initialCashUnits := 10000 } }
    [.onMarketEvent { sequence := 1, exchangeTimeNs := 1, receiveTimeNs := 1
                      bestBidUnits := 99, bestAskUnits := 101 },
     .submit { clientOrderId := "a", quantityUnits := 5 } 1,
     .submit { clientOrderId := "r", side := .sell, type := .limit, quantityUnits := 5
               limitPriceUnits := some 102, reduceOnly := true } 1,
     .submit { clientOrderId := "b", side := .sell, quantityUnits := 5 } 1,
     .onMarketEvent { sequence := 2, exchangeTimeNs := 2, receiveTimeNs := 2
                      bestBidUnits := 99, bestAskUnits := 101, tradePriceUnits := some 103
                      tradeQuantityUnits := 5, aggressorSide := some .buy }]
    2
    { fillId := 3, orderId := 2, clientOrderId := "r", marketSequence := 2, exchangeTimeNs := 2
      side := .sell, quantityUnits := 5, priceUnits := 102, feeUnits := 0, realizedPnlUnits := 0
      maker := true }
    { orderId := 2
      request := { clientOrderId := "r", side := .sell, type := .limit, quantityUnits := 5
                   limitPriceUnits := some 102, reduceOnly := true }
      status := .filled, filledQuantityUnits := 5, activeTimeNs := 1 }
    (by decide +kernel) (by decide +kernel) rfl rfl
  revert hfill
  decide +kernel

end PaperExchange
end Astra
