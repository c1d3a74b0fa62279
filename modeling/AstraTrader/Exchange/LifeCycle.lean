import AstraTrader.Exchange.History

/-! The life of an order: it is never renamed, its quantities move one way, and once it is
filled, cancelled or rejected neither it nor its fills change. -/

namespace Astra
open Relation Process

/-- What `later` keeps of the order it grew out of. -/
structure PaperOrder.Advances (order later : PaperOrder) : Prop where
  orderId : later.orderId = order.orderId
  request : later.request = order.request
  activeTimeNs : later.activeTimeNs = order.activeTimeNs
  filled : order.filledQuantityUnits ≤ later.filledQuantityUnits
  remaining : later.remainingQuantityUnits ≤ order.remainingQuantityUnits
  terminal : isTerminal order.status = true → later = order
  pending : later.status = .pending → order.status = .pending

theorem PaperOrder.Advances.refl (order : PaperOrder) : order.Advances order :=
  ⟨rfl, rfl, rfl, Int64.le_refl _, Int64.le_refl _, fun _ => rfl, id⟩

theorem PaperOrder.Advances.trans {a b c : PaperOrder} (hab : a.Advances b)
    (hbc : b.Advances c) : a.Advances c where
  orderId := hbc.orderId.trans hab.orderId
  request := hbc.request.trans hab.request
  activeTimeNs := hbc.activeTimeNs.trans hab.activeTimeNs
  filled := Int64.le_trans hab.filled hbc.filled
  remaining := Int64.le_trans hbc.remaining hab.remaining
  terminal h := by
    have hb := hab.terminal h
    rw [hbc.terminal (hb ▸ h), hb]
  pending h := hab.pending (hbc.pending h)

section Moves
variable {order moved : PaperOrder} {fills : List PaperFill}

theorem not_isTerminal (h : order.isLive = true) : isTerminal order.status ≠ true := by
  simpa [PaperOrder.isLive] using h

theorem advances_of_isLive (hlive : order.isLive = true)
    (hsame : moved.orderId = order.orderId ∧ moved.request = order.request ∧
      moved.activeTimeNs = order.activeTimeNs ∧
      moved.filledQuantityUnits = order.filledQuantityUnits ∧
      moved.remainingQuantityUnits = order.remainingQuantityUnits)
    (hpending : moved.status = .pending → order.status = .pending) : order.Advances moved := by
  obtain ⟨hid, hrequest, hactive, hfilled, hremaining⟩ := hsame
  refine ⟨hid, hrequest, hactive, ?_, ?_, fun h => absurd h (not_isTerminal hlive), hpending⟩
  · rw [hfilled]
    exact Int64.le_refl _
  · rw [hremaining]
    exact Int64.le_refl _

theorem OrderReconciled.advances_take (h : OrderReconciled fills order)
    (hlive : order.isLive = true) {quantity : Int64} (hpos : 0 < quantity)
    (hle : quantity ≤ order.remainingQuantityUnits) : order.Advances (order.take quantity) := by
  rw [FixedWidth.int64_pos_iff] at hpos
  rw [Int64.le_iff_toInt_le] at hle
  obtain ⟨hremaining, hfilled⟩ := h.toInt_take hlive hpos hle
  refine ⟨rfl, rfl, rfl, ?_, ?_, fun ht => absurd ht (not_isTerminal hlive), fun hp => ?_⟩
  · rw [Int64.le_iff_toInt_le, hfilled]
    omega
  · rw [Int64.le_iff_toInt_le, hremaining]
    omega
  · -- a fill leaves the order filled or partially filled
    simp only [PaperOrder.take] at hp
    split_ifs at hp

theorem OrderReconciled.advances {config : PaperExchangeConfig} {event : MarketEvent}
    {before after : Executions × PaperOrder} (h : OrderReconciled before.1.fills before.2)
    (hmove : Move config event before after) : before.2.Advances after.2 := by
  cases hmove with
  | reject books order reason hlive =>
    exact advances_of_isLive hlive ⟨rfl, rfl, rfl, rfl, rfl⟩ (by simp [PaperOrder.reject])
  | rest books order hwaiting =>
    refine advances_of_isLive (isLive_of_waiting hwaiting) ⟨rfl, rfl, rfl, rfl, rfl⟩ fun hp => ?_
    simp only [PaperOrder.rest] at hp
    split_ifs at hp
  | queue books order queueAheadUnits hlive =>
    exact advances_of_isLive hlive ⟨rfl, rfl, rfl, rfl, rfl⟩ id
  | execute books order quantity price fee maker ledger mutation hlive _ hpos hle =>
    exact h.advances_take hlive hpos hle
  | cancel books order hlive =>
    refine ⟨rfl, rfl, rfl, Int64.le_refl _, ?_, fun ht => absurd ht (not_isTerminal hlive),
      fun hp => absurd hp (by simp)⟩
    rw [Int64.le_iff_toInt_le, Int64.toInt_zero]
    exact (h.live hlive).le

end Moves

namespace PaperExchange

section Transitions
variable {heard : MarketEvent → Prop} {allow : PaperExchange → OrderRequest → Prop}
  {config : PaperExchangeConfig} {s t : PaperExchange}

theorem Transition.advances (h : Transition heard allow s t) (hs : Consistent config s) {i : ℕ}
    {order : PaperOrder} (horder : s.orders[i]? = some order) :
    ∃ later, t.orders[i]? = some later ∧ order.Advances later := by
  -- an order in another cell than the one rewritten stays
  have hcell : ∀ {pre post : List PaperOrder} {live moved : PaperOrder},
      s.orders = pre ++ live :: post → live.Advances moved →
      ∃ later, (pre ++ moved :: post)[i]? = some later ∧ order.Advances later := by
    intro pre post live moved hsplit hadvances
    rw [hsplit] at horder
    by_cases hi : i = pre.length
    · rw [hi, getElem?_cell, Option.some.injEq] at horder
      exact ⟨moved, by rw [hi, getElem?_cell], horder ▸ hadvances⟩
    · exact ⟨order, (getElem?_replace hi).trans horder, .refl order⟩
  cases h with
  | observe => exact ⟨order, horder, .refl order⟩
  | ignore => exact ⟨order, horder, .refl order⟩
  | mark => exact ⟨order, horder, .refl order⟩
  | move event pre post live moved books _ hsplit hmove =>
    have hlive : OrderReconciled s.fills live := hs.orders live (by simp [hsplit])
    exact hcell hsplit (@OrderReconciled.advances _ _ (s.toExecutions, live) _ hlive hmove)
  | append =>
    obtain ⟨hlt, _⟩ := List.getElem?_eq_some_iff.mp horder
    exact ⟨order, (List.getElem?_append_left hlt).trans horder, .refl order⟩
  | requestCancel pre post live due hsplit hlive =>
    exact hcell hsplit (advances_of_isLive hlive ⟨rfl, rfl, rfl, rfl, rfl⟩ (by simp))

theorem chain_advances (h : ReflTransGen (Transition heard allow) s t)
    (hs : Consistent config s) {i : ℕ} {order : PaperOrder}
    (horder : s.orders[i]? = some order) :
    ∃ later, t.orders[i]? = some later ∧ order.Advances later := by
  refine (chain_invariant (I := fun u => Consistent config u ∧
    ∃ later, u.orders[i]? = some later ∧ order.Advances later) ?_
    ⟨hs, order, horder, .refl order⟩ h).2
  rintro u v ⟨hu, later, hlater, hadvances⟩ hstep
  obtain ⟨last, hlast, hmore⟩ := hstep.advances hu hlater
  exact ⟨hu.transition hstep, last, hlast, hadvances.trans hmore⟩

end Transitions

theorem orderId_ne_of_filledOf_eq_zero {fills : List PaperFill} {orderId : ℕ}
    (hpos : ∀ fill ∈ fills, 0 < fill.quantityUnits.toInt) (h : filledOf fills orderId = 0) :
    ∀ fill ∈ fills, fill.orderId ≠ orderId := by
  intro fill hmem hid
  obtain ⟨pre, post, rfl⟩ := List.append_of_mem hmem
  rw [List.append_cons, filledOf_append_list, filledOf_append, if_pos hid] at h
  have hfill := hpos fill hmem
  have hpre := @filledOf_nonneg pre (fun f hf => hpos f (by simp [hf])) orderId
  have hpost := @filledOf_nonneg post (fun f hf => hpos f (by simp [hf])) orderId
  omega

/-- A later state of a run keeps every order in its place and lets it advance; the fills made
meanwhile do not name an order that was already terminal. -/
structure Outlives (exchange later : PaperExchange) (i : ℕ) (order : PaperOrder) : Prop where
  advances : ∃ next, later.orders[i]? = some next ∧ order.Advances next
  fills : ∃ fresh, later.fills = exchange.fills ++ fresh ∧
    (isTerminal order.status = true → ∀ fill ∈ fresh, fill.orderId ≠ order.orderId)

theorem Consistent.outlives {config : PaperExchangeConfig} {s t : PaperExchange}
    (hs : Consistent config s) (ht : Consistent config t)
    (h : ReflTransGen (Transition (fun _ => True) fun _ _ => True) s t) {i : ℕ}
    {order : PaperOrder} (horder : s.orders[i]? = some order) : s.Outlives t i order := by
  obtain ⟨next, hnext, hadvances⟩ := chain_advances h hs horder
  obtain ⟨fresh, hfresh⟩ := chain_fills_extend h
  refine ⟨⟨next, hnext, hadvances⟩, fresh, hfresh.symm, fun hterminal => ?_⟩
  -- the order was given as much after as before, so nothing of it is in the fresh fills
  have hbefore := (hs.orders order (List.mem_of_getElem? horder)).filled
  have hafter := (ht.orders next (List.mem_of_getElem? hnext)).filled
  rw [hadvances.terminal hterminal, ← hfresh, filledOf_append_list] at hafter
  refine orderId_ne_of_filledOf_eq_zero (fun fill hfill => ?_) (by omega)
  obtain ⟨_, _, hnames⟩ := ht.linked fill (by simp [← hfresh, hfill])
  exact hnames.2.2.2

theorem run_outlives (config : PaperExchangeConfig) (calls : List ExchangeCall)
    (c : ExchangeCall) (i : ℕ) (order : PaperOrder)
    (horder : (run config calls).orders[i]? = some order) :
    (run config calls).Outlives ((run config calls).call c) i order := by
  have hvalid := valid_of_getElem? horder
  have hnext : Consistent config ((run config calls).call c) := by
    rw [← run_concat]
    exact consistent_run hvalid _
  exact (consistent_run hvalid calls).outlives hnext (foldl_transitions _ [c]) horder

/-- A resting order that is cancelled while a trade fills it in part. -/
theorem run_outlives_partialFill :
    (run { ledger := { initialCashUnits := 10000 } }
      [.onMarketEvent { sequence := 1, exchangeTimeNs := 1, receiveTimeNs := 1
                        bestBidUnits := 99, bestAskUnits := 101 },
       .submit { clientOrderId := "a", type := .limit, quantityUnits := 5
                 limitPriceUnits := some 99 } 1,
       .cancel "a" 1]).Outlives
      ((run { ledger := { initialCashUnits := 10000 } }
        [.onMarketEvent { sequence := 1, exchangeTimeNs := 1, receiveTimeNs := 1
                          bestBidUnits := 99, bestAskUnits := 101 },
         .submit { clientOrderId := "a", type := .limit, quantityUnits := 5
                   limitPriceUnits := some 99 } 1,
         .cancel "a" 1]).call
        (.onMarketEvent { sequence := 2, exchangeTimeNs := 2, receiveTimeNs := 2
                          bestBidUnits := 99, bestAskUnits := 101
                          tradePriceUnits := some 99, tradeQuantityUnits := 3
                          aggressorSide := some .sell })) 0
      { orderId := 1
        request := { clientOrderId := "a", type := .limit, quantityUnits := 5
                     limitPriceUnits := some 99 }
        status := .cancelPending, remainingQuantityUnits := 5, activeTimeNs := 1
        cancelDueTimeNs := some 1 } :=
  run_outlives _ _ _ _ _ (by decide +kernel)

end PaperExchange
end Astra
