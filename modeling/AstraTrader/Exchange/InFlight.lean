import AstraTrader.Exchange.Cancellation

/-! A cancel in flight. The run with the cancel follows the run without it as long as the
activation loop, which meets cancel-pending orders again, finds the order as it rests. -/

namespace Astra
open Process FixedWidth

/-- What the activation loop leaves as it was: the event does not cross the order, and shows at its
price the quantity already ahead of it. -/
structure PaperOrder.Unmoved (order : PaperOrder) (event : MarketEvent) : Prop where
  uncrossed : order.crosses event = false
  bid : order.request.side = .buy → order.limit = event.bestBidUnits →
    event.bidQuantityUnits = order.queueAheadUnits
  ask : order.request.side = .sell → order.limit = event.bestAskUnits →
    event.askQuantityUnits = order.queueAheadUnits

instance (order : PaperOrder) (event : MarketEvent) : Decidable (order.Unmoved event) :=
  decidable_of_iff (order.crosses event = false ∧
    (order.request.side = .buy → order.limit = event.bestBidUnits →
      event.bidQuantityUnits = order.queueAheadUnits) ∧
    (order.request.side = .sell → order.limit = event.bestAskUnits →
      event.askQuantityUnits = order.queueAheadUnits))
    ⟨fun h => ⟨h.1, h.2.1, h.2.2⟩, fun h => ⟨h.uncrossed, h.bid, h.ask⟩⟩

/-- The order whose cancel is in flight, against the same order of the run without the cancel. -/
inductive Shadow (due : Int64) : PaperOrder → PaperOrder → Prop
  | pending (other : PaperOrder) : other.status = .open ∨ other.status = .partiallyFilled →
      other.request.type ≠ .market →
      Shadow due { other with status := .cancelPending, cancelDueTimeNs := some due } other
  | settled (other : PaperOrder) (cancelDueTimeNs : Option Int64) : other.status ≠ .pending →
      other.status ≠ .cancelPending → Shadow due { other with cancelDueTimeNs } other

section Orders
variable {config : PaperExchangeConfig} {event : MarketEvent} {due : Int64}
  {order other : PaperOrder}

theorem Shadow.fill (h : Shadow due order other) (config : PaperExchangeConfig)
    (event : MarketEvent) (books : Executions) (quantityUnits price : Int64)
    (maker : Bool) :
    (Executions.fill config books order quantityUnits price maker event).1 =
        (Executions.fill config books other quantityUnits price maker event).1 ∧
      Shadow due (Executions.fill config books order quantityUnits price maker event).2
        (Executions.fill config books other quantityUnits price maker event).2 := by
  obtain ⟨status, recorded, rfl⟩ : ∃ status recorded,
      order = { other with status, cancelDueTimeNs := recorded } := by
    cases h with
    | pending => exact ⟨_, _, rfl⟩
    | settled => exact ⟨_, _, rfl⟩
  unfold Executions.fill
  dsimp only
  split_ifs with hq
  · exact ⟨rfl, h⟩
  · cases Executions.fillFee config price (min quantityUnits other.remainingQuantityUnits)
      maker with
    | none => exact ⟨rfl, .settled (other.reject _) recorded (by simp [PaperOrder.reject])
        (by simp [PaperOrder.reject])⟩
    | some fee =>
      dsimp only
      split_ifs
      · obtain ⟨hpending, hcancel⟩ := status_take_ne other
          (min quantityUnits other.remainingQuantityUnits)
        exact ⟨rfl, .settled (other.take _) recorded hpending hcancel⟩
      · exact ⟨rfl, .settled (other.reject _) recorded (by simp [PaperOrder.reject])
          (by simp [PaperOrder.reject])⟩

theorem rest_of_unmoved (hpending : order.status = .cancelPending) (h : order.Unmoved event) :
    order.rest event = order := by
  have hqueue : (if order.request.side = .buy ∧ order.limit = event.bestBidUnits then
      event.bidQuantityUnits
    else if order.request.side = .sell ∧ order.limit = event.bestAskUnits then
      event.askQuantityUnits
    else order.queueAheadUnits) = order.queueAheadUnits := by
    split_ifs with hbid hask
    · exact h.bid hbid.1 hbid.2
    · exact h.ask hask.1 hask.2
    · rfl
  unfold PaperOrder.rest
  rw [hqueue, if_pos hpending, ← hpending]

theorem Shadow.activateDue (h : Shadow due order other) (books : Executions)
    (hquiet : order.status = .cancelPending → order.activeTimeNs ≤ event.receiveTimeNs →
      order.Unmoved event) :
    Executions.activateDue config event books order = (books, order) ∧
      Executions.activateDue config event books other = (books, other) := by
  cases h with
  | pending other hrests htype =>
    have hother : ¬ ((other.status = .pending ∨ other.status = .cancelPending) ∧
        other.activeTimeNs ≤ event.receiveTimeNs) := by
      rcases hrests with h | h <;> simp [h]
    refine ⟨?_, if_neg hother⟩
    -- activation ends where it started: no cross, the same queue, still cancel-pending
    by_cases hdue : other.activeTimeNs ≤ event.receiveTimeNs
    · have hunmoved := hquiet rfl hdue
      have hactive := Int64.not_lt.mpr hdue
      unfold Executions.activateDue Executions.activate
      rw [if_pos ⟨.inr rfl, hdue⟩]
      dsimp only at hactive ⊢
      rw [if_neg (by simp [isTerminal, hactive]), if_neg htype, hunmoved.uncrossed,
        if_neg (by simp), if_neg (by simp), rest_of_unmoved rfl hunmoved]
    · exact if_neg fun h => hdue h.2
  | settled other recorded hpending hcancel =>
    have hnot : ¬ ((other.status = .pending ∨ other.status = .cancelPending) ∧
        other.activeTimeNs ≤ event.receiveTimeNs) := fun hdue => hdue.1.elim hpending hcancel
    exact ⟨if_neg hnot, if_neg hnot⟩

theorem Shadow.meetsTrade_iff (h : Shadow due order other) {tradePriceUnits : Int64}
    {aggressorSide : Side} : order.meetsTrade event tradePriceUnits aggressorSide ↔
      other.meetsTrade event tradePriceUnits aggressorSide := by
  cases h with
  | pending other hrests htype =>
    refine and_congr_left fun _ => ?_
    rcases hrests with h | h <;> simp [h]
  | settled => rfl

theorem Shadow.advance (h : Shadow due order other) (available : Int64) :
    Shadow due (order.advance available) (other.advance available) := by
  cases h with
  | pending other hrests htype => exact .pending (other.advance available) hrests htype
  | settled other recorded hpending hcancel =>
    exact .settled (other.advance available) recorded hpending hcancel

theorem Shadow.matchOrder (h : Shadow due order other) (tradePriceUnits : Int64)
    (aggressorSide : Side) (pass : Executions × Int64) :
    (Executions.matchOrder config event tradePriceUnits aggressorSide pass order).1 =
        (Executions.matchOrder config event tradePriceUnits aggressorSide pass other).1 ∧
      Shadow due (Executions.matchOrder config event tradePriceUnits aggressorSide pass order).2
        (Executions.matchOrder config event tradePriceUnits aggressorSide pass other).2 := by
  have hsame : order.behindQueue pass.2 = other.behindQueue pass.2 ∧ order.limit = other.limit ∧
      order.remainingQuantityUnits = other.remainingQuantityUnits := by
    cases h with
    | pending => exact ⟨rfl, rfl, rfl⟩
    | settled => exact ⟨rfl, rfl, rfl⟩
  obtain ⟨hbehind, hlimit, hremaining⟩ := hsame
  rw [matchOrder_eq, matchOrder_eq, hbehind, hlimit, hremaining]
  simp only [h.meetsTrade_iff]
  split_ifs with hdone hmeets hahead
  · exact ⟨rfl, h⟩
  · exact ⟨rfl, h.advance _⟩
  · obtain ⟨hbooks, hshadow⟩ := (h.advance pass.2).fill config event pass.1
      (min other.remainingQuantityUnits (other.behindQueue pass.2)) other.limit true
    exact ⟨Prod.ext hbooks rfl, hshadow⟩
  · exact ⟨rfl, h⟩

theorem Shadow.applyDueCancel (h : Shadow due order other) (hnot : event.receiveTimeNs < due) :
    Shadow due (order.applyDueCancel event) (other.applyDueCancel event) := by
  have hkeep : ∀ (order : PaperOrder), order.status ≠ .cancelPending →
      order.applyDueCancel event = order := by
    intro order hstatus
    unfold PaperOrder.applyDueCancel
    split
    · exact if_neg fun h => hstatus h.1
    · rfl
  cases h with
  | pending other hrests htype =>
    rw [hkeep other (by rcases hrests with h | h <;> simp [h])]
    have hwait : ¬ due ≤ event.receiveTimeNs := Int64.not_le.mpr hnot
    simp only [PaperOrder.applyDueCancel, hwait, and_false, if_false]
    exact .pending other hrests htype
  | settled other recorded hpending hcancel =>
    rw [hkeep other hcancel, hkeep { other with cancelDueTimeNs := recorded } hcancel]
    exact .settled other recorded hpending hcancel

/-- What differs outside the books: the order is reported cancel-pending, and keeps its due time. -/
def PaperOrder.SameButCancel (order other : PaperOrder) : Prop :=
  (order.status = other.status ∨ order.status = .cancelPending) ∧
    order = { other with status := order.status, cancelDueTimeNs := order.cancelDueTimeNs }

theorem Shadow.sameButCancel (h : Shadow due order other) : order.SameButCancel other := by
  cases h with
  | pending => exact ⟨.inr rfl, rfl⟩
  | settled => exact ⟨.inl rfl, rfl⟩

end Orders

/-- Orders of the two runs are the same, but for order `number`, which may be a shadow. -/
def Mirrors (number : ℕ) (due : Int64) (order other : PaperOrder) : Prop :=
  order = other ∨ other.orderId = number ∧ Shadow due order other

namespace PaperExchange

/-- The event does not disturb order `number` where it rests with its cancel pending. -/
def Undisturbed (number : ℕ) (exchange : PaperExchange) (event : MarketEvent) : Prop :=
  ∀ order ∈ exchange.orders, order.orderId = number → order.status = .cancelPending →
    order.activeTimeNs ≤ event.receiveTimeNs → order.Unmoved event

instance (number : ℕ) (exchange : PaperExchange) (event : MarketEvent) :
    Decidable (exchange.Undisturbed number event) :=
  inferInstanceAs (Decidable (∀ order ∈ exchange.orders, _))

section Passes
variable {config : PaperExchangeConfig} {event : MarketEvent} {number : ℕ} {due : Int64}
  {t : PaperExchange} {orders : List PaperOrder}

theorem mirrors_activateOrders (h : List.Forall₂ (Mirrors number due) orders t.orders)
    (hquiet : Undisturbed number { t with orders } event) :
    ∃ moved, { t with orders }.activateOrders event =
        { t.activateOrders event with orders := moved } ∧
      List.Forall₂ (Mirrors number due) moved (t.activateOrders event).orders := by
  obtain ⟨hbooks, hmoved⟩ := sweep_rel (S := Eq) (R := Mirrors number due)
    (P := fun order => order.orderId = number → order.status = .cancelPending →
      order.activeTimeNs ≤ event.receiveTimeNs → order.Unmoved event)
    (Executions.activateDue t.config event) (Executions.activateDue t.config event) (by
      rintro books _ order other rfl (rfl | ⟨hid, hshadow⟩) hP
      · exact ⟨rfl, .inl rfl⟩
      · have hnumber : order.orderId = number := by
          cases hshadow <;> exact hid
        obtain ⟨horder, hother⟩ := hshadow.activateDue books (hP hnumber)
        rw [horder, hother]
        exact ⟨rfl, .inr ⟨hid, hshadow⟩⟩) (rfl : t.toExecutions = t.toExecutions) h hquiet
  refine ⟨_, ?_, hmoved⟩
  unfold activateOrders
  dsimp only
  rw [hbooks]

theorem mirrors_matchTrade (h : List.Forall₂ (Mirrors number due) orders t.orders) :
    ∃ moved, { t with orders }.matchTrade event = { t.matchTrade event with orders := moved } ∧
      List.Forall₂ (Mirrors number due) moved (t.matchTrade event).orders := by
  unfold matchTrade
  split
  · rename_i tradePriceUnits aggressorSide hprice hside
    split_ifs
    · exact ⟨orders, rfl, h⟩
    · obtain ⟨hpass, hmoved⟩ := sweep_rel (S := Eq) (R := Mirrors number due) (P := fun _ => True)
        (Executions.matchOrder t.config event tradePriceUnits aggressorSide)
        (Executions.matchOrder t.config event tradePriceUnits aggressorSide) (by
          rintro pass _ order other rfl (rfl | ⟨hid, hshadow⟩) _
          · exact ⟨rfl, .inl rfl⟩
          · obtain ⟨hpass, hnext⟩ := hshadow.matchOrder tradePriceUnits aggressorSide pass
            refine ⟨hpass, .inr ⟨?_, hnext⟩⟩
            exact (moves_order_eq (matchOrder_moves hprice hside)).1.trans hid)
        (rfl : (t.toExecutions, event.tradeQuantityUnits) = _) h fun _ _ => trivial
      refine ⟨_, ?_, hmoved⟩
      dsimp only
      rw [hpass]
  · exact ⟨orders, rfl, h⟩

theorem mirrors_applyDueCancels (h : List.Forall₂ (Mirrors number due) orders t.orders)
    (hnot : event.receiveTimeNs < due) :
    List.Forall₂ (Mirrors number due) ({ t with orders }.applyDueCancels event).orders
      (t.applyDueCancels event).orders := by
  refine List.rel_map (fun order other => ?_) h
  rintro (rfl | ⟨hid, hshadow⟩)
  · exact .inl rfl
  · refine .inr ⟨?_, hshadow.applyDueCancel hnot⟩
    unfold PaperOrder.applyDueCancel
    split
    · split_ifs <;> exact hid
    · exact hid

theorem mirrors_onMarketEvent (h : List.Forall₂ (Mirrors number due) orders t.orders)
    (hquiet : t.accepts event → Undisturbed number { t with orders } event)
    (hnot : t.accepts event → event.receiveTimeNs < due) :
    ∃ moved, ({ t with orders }.onMarketEvent event).1 =
        { (t.onMarketEvent event).1 with orders := moved } ∧
      List.Forall₂ (Mirrors number due) moved (t.onMarketEvent event).1.orders := by
  have hiff : { t with orders }.accepts event ↔ t.accepts event := Iff.rfl
  by_cases haccepts : t.accepts event
  · obtain ⟨active, hactivate, hactive⟩ := @mirrors_activateOrders event number due
      { t with market := some event } orders h (hquiet haccepts)
    obtain ⟨matched, hmatch, hmatched⟩ := @mirrors_matchTrade event _ _ _ _ hactive
    have hcancelled := mirrors_applyDueCancels hmatched (hnot haccepts)
    unfold onMarketEvent
    rw [if_pos haccepts, if_pos (hiff.mpr haccepts)]
    dsimp only at hactivate hmatch ⊢
    rw [hactivate, hmatch]
    exact ⟨_, rfl, hcancelled⟩
  · unfold onMarketEvent
    rw [if_neg haccepts, if_neg (mt hiff.mp haccepts)]
    exact ⟨orders, rfl, h⟩

theorem mirrors_findOrder (h : List.Forall₂ (Mirrors number due) orders t.orders) (name : String) :
    { t with orders }.findOrder name = none ↔ t.findOrder name = none := by
  have hnone : ∀ j : ℕ, orders[j]? = none ↔ t.orders[j]? = none := by
    intro j
    rw [List.getElem?_eq_none_iff, List.getElem?_eq_none_iff, h.length_eq]
  unfold findOrder
  dsimp only
  cases t.orderIndex.lookup name with
  | none => exact Iff.rfl
  | some j =>
    show (orders[j]?.bind fun order => some (j, order)) = none ↔
      (t.orders[j]?.bind fun order => some (j, order)) = none
    rw [Option.bind_eq_none_iff, Option.bind_eq_none_iff]
    simpa [Option.eq_none_iff_forall_ne_some] using hnone j

theorem mirrors_admitted (h : List.Forall₂ (Mirrors number due) orders t.orders)
    (request : OrderRequest) (market : MarketEvent) (decisionTimeNs : Int64) :
    { t with orders }.Admitted request market decisionTimeNs ↔
      t.Admitted request market decisionTimeNs := by
  refine ⟨fun ha => ?_, fun ha => ?_⟩
  · exact ⟨(mirrors_findOrder h _).mp ha.unknown, ha.configValid, ha.heard, ha.passes⟩
  · exact ⟨(mirrors_findOrder h _).mpr ha.unknown, ha.configValid, ha.heard, ha.passes⟩

theorem mirrors_submit (h : List.Forall₂ (Mirrors number due) orders t.orders)
    (request : OrderRequest) (decisionTimeNs : Int64) :
    ∃ moved, ({ t with orders }.submit request decisionTimeNs).1 =
        { (t.submit request decisionTimeNs).1 with orders := moved } ∧
      List.Forall₂ (Mirrors number due) moved (t.submit request decisionTimeNs).1.orders := by
  by_cases hadmitted : ∃ market, t.Admitted request market decisionTimeNs
  · obtain ⟨market, hadmitted⟩ := hadmitted
    rw [hadmitted.submit_eq, ((mirrors_admitted h _ _ _).mpr hadmitted).submit_eq]
    -- both runs store the same order, since neither the gate nor a fill looks at other orders
    refine ⟨orders ++ [(t.store (t.place request decisionTimeNs) market).2], ?_,
      List.rel_append h (.cons (.inl rfl) .nil)⟩
    unfold store
    dsimp only
    rw [h.length_eq]
    rfl
  · have hsame : (t.submit request decisionTimeNs).1 = t :=
      (submit_cases t request decisionTimeNs).resolve_right
        fun ⟨market, ha, _⟩ => hadmitted ⟨market, ha⟩
    have hsame' := (submit_cases { t with orders } request decisionTimeNs).resolve_right
      fun ⟨market, ha, _⟩ => hadmitted ⟨market, (mirrors_admitted h _ _ _).mp ha⟩
    rw [hsame, hsame']
    exact ⟨orders, rfl, h⟩

theorem mirrors_cancel {i : ℕ} (h : List.Forall₂ (Mirrors (i + 1) due) orders t.orders)
    (hindexed : t.Indexed) {name : String} (hother : t.orderIndex.lookup name ≠ some i)
    (requestTimeNs : Int64) :
    ∃ moved, ({ t with orders }.cancel name requestTimeNs).1 =
        { (t.cancel name requestTimeNs).1 with orders := moved } ∧
      List.Forall₂ (Mirrors (i + 1) due) moved (t.cancel name requestTimeNs).1.orders := by
  cases hlookup : t.orderIndex.lookup name with
  | none =>
    have hnone : ∀ orders, { t with orders }.findOrder name = none := by
      intro orders
      simp [findOrder, hlookup]
    have ht : t.findOrder name = none := hnone t.orders
    unfold cancel
    rw [ht, hnone orders]
    exact ⟨orders, rfl, h⟩
  | some j =>
    have hsame : orders[j]? = t.orders[j]? := by
      by_cases hj : j < t.orders.length
      · have hj' : j < orders.length := h.length_eq ▸ hj
        have hmirror := h.get hj' hj
        have hid := hindexed.orderId_eq (List.getElem?_eq_getElem hj)
        rw [List.getElem?_eq_getElem hj, List.getElem?_eq_getElem hj']
        -- the shadow has number `i + 1`, which is the order's position counted from one
        refine congrArg some (hmirror.resolve_right fun hshadow => hother ?_)
        have hnumber : t.orders[j].orderId = i + 1 := hshadow.1
        rw [hlookup, show j = i by omega]
      · rw [List.getElem?_eq_none (not_lt.mp hj),
          List.getElem?_eq_none (h.length_eq ▸ not_lt.mp hj)]
    have hfind : { t with orders }.findOrder name = t.findOrder name := by
      simp [findOrder, hlookup, hsame]
    unfold cancel
    rw [hfind]
    cases t.findOrder name with
    | none => exact ⟨orders, rfl, h⟩
    | some found =>
      dsimp only
      split_ifs
      · exact ⟨orders, rfl, h⟩
      · exact ⟨_, rfl, forall₂_set h (.inl rfl) _⟩

end Passes

/-- No market order ever rests. -/
def RestsPriced (order : PaperOrder) : Prop :=
  order.status = .open ∨ order.status = .partiallyFilled → order.request.type ≠ .market

theorem restsPriced_of_move {config : PaperExchangeConfig} {event : MarketEvent}
    {before after : Executions × PaperOrder} (h : RestsPriced before.2)
    (hmove : Move config event before after) : RestsPriced after.2 := by
  cases hmove with
  | reject => exact fun hrests => absurd hrests (by simp [PaperOrder.reject])
  | rest books order _ htype => exact fun _ => htype
  | queue => exact h
  | execute books order quantity price fee maker ledger mutation _ _ _ _ hall hpriced =>
    intro hrests
    cases hpriced with
    | market =>
      -- a market order is filled whole
      rw [hall rfl] at hrests
      exact absurd hrests (by simp [PaperOrder.take])
    | taker hlimit =>
      show order.request.type ≠ .market
      rw [hlimit]
      decide
    | maker _ _ hmeets => exact hmeets.2.2.1
  | cancel => exact fun hrests => absurd hrests (by simp)

theorem restsPriced_run (config : PaperExchangeConfig) (calls : List ExchangeCall) :
    ∀ order ∈ (run config calls).orders, RestsPriced order := by
  refine run_invariant_of_transitions (I := fun s => ∀ order ∈ s.orders, RestsPriced order)
    (fun order hmem => absurd hmem (List.not_mem_nil)) (fun {s t} h hstep => ?_) calls
  cases hstep with
  | observe => exact h
  | ignore => exact h
  | mark => exact h
  | move event pre post order moved books _ hsplit hmove =>
    exact forall_mem_replace (hsplit ▸ h)
      (restsPriced_of_move (h order (by simp [hsplit])) hmove)
  | append request market decisionTimeNs =>
    refine List.forall_mem_append.mpr ⟨h, List.forall_mem_singleton.mpr fun hrests => ?_⟩
    exact absurd hrests (by simp [place])
  | requestCancel pre post order due hsplit =>
    exact forall_mem_replace (hsplit ▸ h) fun hrests => absurd hrests (by simp)

/-- The run with the cancel, `s`, against the run without it, `t`. -/
structure InFlight (config : PaperExchangeConfig) (i : ℕ) (request : OrderRequest) (due : Int64)
    (s t : PaperExchange) : Prop where
  consistent : Consistent config t
  requested : t.requests[i]? = some request
  mirrors : ∃ orders, s = { t with orders } ∧ List.Forall₂ (Mirrors (i + 1) due) orders t.orders

/-- A call that comes before the cancel is due, and is not a cancel of the same order. -/
def Waits (clientOrderId : String) (dueTimeNs : ℤ) (exchange : PaperExchange) :
    ExchangeCall → Prop
  | .onMarketEvent event => exchange.accepts event → event.receiveTimeNs.toInt < dueTimeNs
  | .submit _ _ => True
  | .cancel other _ => other ≠ clientOrderId

/-- A call that leaves order `number` undisturbed. -/
def Calm (number : ℕ) (exchange : PaperExchange) : ExchangeCall → Prop
  | .onMarketEvent event => exchange.accepts event → exchange.Undisturbed number event
  | _ => True

instance (clientOrderId : String) (dueTimeNs : ℤ) (exchange : PaperExchange) :
    (c : ExchangeCall) → Decidable (Waits clientOrderId dueTimeNs exchange c)
  | .onMarketEvent event =>
    inferInstanceAs (Decidable (exchange.accepts event → event.receiveTimeNs.toInt < dueTimeNs))
  | .submit _ _ => .isTrue trivial
  | .cancel other _ => inferInstanceAs (Decidable (other ≠ clientOrderId))

instance (number : ℕ) (exchange : PaperExchange) :
    (c : ExchangeCall) → Decidable (Calm number exchange c)
  | .onMarketEvent event =>
    inferInstanceAs (Decidable (exchange.accepts event → exchange.Undisturbed number event))
  | .submit _ _ => .isTrue trivial
  | .cancel _ _ => .isTrue trivial

theorem Indexed.clientOrderId_eq {exchange : PaperExchange} (h : exchange.Indexed) {name : String}
    {i : ℕ} {request : OrderRequest} (hlookup : exchange.orderIndex.lookup name = some i)
    (hrequest : exchange.requests[i]? = some request) : request.clientOrderId = name := by
  have hname := (h.index name i).mp hlookup
  have hrequested := congrArg (Option.map (·.clientOrderId)) hrequest
  rw [requests, List.getElem?_map, Option.map_map] at hrequested
  rw [List.getElem?_map] at hname
  exact Option.some.inj (hrequested.symm.trans hname)

theorem InFlight.call {config : PaperExchangeConfig} {i : ℕ} {request : OrderRequest}
    {due : Int64} {s t : PaperExchange} (h : InFlight config i request due s t) {c : ExchangeCall}
    (hwaits : Waits request.clientOrderId due.toInt s c) (hcalm : Calm (i + 1) s c) :
    InFlight config i request due (s.call c) (t.call c) := by
  obtain ⟨orders, rfl, hmirrors⟩ := h.mirrors
  refine ⟨h.consistent.call c, ?_, ?_⟩
  · obtain ⟨fresh, hfresh⟩ : t.requests <+: (t.call c).requests :=
      chain_requests_extend (foldl_transitions t [c])
    obtain ⟨hlt, _⟩ := List.getElem?_eq_some_iff.mp h.requested
    rw [← hfresh, List.getElem?_append_left hlt]
    exact h.requested
  · cases c with
    | onMarketEvent event =>
      exact mirrors_onMarketEvent hmirrors hcalm fun haccepts =>
        Int64.lt_iff_toInt_lt.mpr (hwaits haccepts)
    | submit request decisionTimeNs => exact mirrors_submit hmirrors request decisionTimeNs
    | cancel other requestTimeNs =>
      refine mirrors_cancel hmirrors h.consistent.indexed (fun hlookup => hwaits ?_) requestTimeNs
      exact (h.consistent.indexed.clientOrderId_eq hlookup h.requested).symm

theorem inFlight_cancel {config : PaperExchangeConfig} {exchange : PaperExchange}
    (h : Consistent config exchange) {clientOrderId : String} {i : ℕ} {order : PaperOrder}
    (hfind : exchange.findOrder clientOrderId = some (i, order))
    (hrests : order.status = .open ∨ order.status = .partiallyFilled)
    (htype : order.request.type ≠ .market) (requestTimeNs : Int64) :
    InFlight config i order.request (requestTimeNs + config.cancellationLatencyNs)
      (exchange.cancel clientOrderId requestTimeNs).1 exchange := by
  have horder := (findOrder_eq_some hfind).2
  obtain ⟨pre, post, hsplit, rfl⟩ := findOrder_split hfind
  have haccepted : ¬ (isTerminal order.status = true ∨ order.status = .cancelPending) := by
    rcases hrests with h | h <;> simp [h, isTerminal]
  have hsame : ∀ orders, List.Forall₂ (Mirrors (pre.length + 1)
      (requestTimeNs + config.cancellationLatencyNs)) orders orders :=
    fun orders => List.forall₂_same.mpr fun _ _ => .inl rfl
  refine ⟨h, ?_, exchange.orders.set pre.length { order with
    status := .cancelPending
    cancelDueTimeNs := some (requestTimeNs + config.cancellationLatencyNs) }, ?_, ?_⟩
  · rw [requests, List.getElem?_map, horder]
    rfl
  · unfold cancel
    rw [hfind]
    dsimp only
    rw [if_neg haccepted, h.config_eq]
  · rw [hsplit, List.set_append_right _ _ le_rfl, Nat.sub_self, List.set_cons_zero]
    exact List.rel_append (hsame pre)
      (.cons (.inr ⟨h.indexed.orderId_eq horder, .pending order hrests htype⟩) (hsame post))

theorem cancel_invisible (config : PaperExchangeConfig) (calls : List ExchangeCall)
    (clientOrderId : String) (requestTimeNs : Int64) (i : ℕ) (order : PaperOrder)
    (hfind : (run config calls).findOrder clientOrderId = some (i, order))
    (hrests : order.status = .open ∨ order.status = .partiallyFilled)
    (hrange : InRange64 (requestTimeNs.toInt + config.cancellationLatencyNs.toInt))
    (later : List ExchangeCall)
    (hwaits : AllSteps call
      (Waits clientOrderId (requestTimeNs.toInt + config.cancellationLatencyNs.toInt))
      (run config (calls ++ [.cancel clientOrderId requestTimeNs])) later)
    (hcalm : AllSteps call (Calm order.orderId)
      (run config (calls ++ [.cancel clientOrderId requestTimeNs])) later) :
    let kept := run config (calls ++ later)
    let cancelled := run config (calls ++ .cancel clientOrderId requestTimeNs :: later)
    cancelled = { kept with orders := cancelled.orders } ∧
      List.Forall₂ (fun order' other => order' = other ∨
        other.orderId = order.orderId ∧ order'.SameButCancel other)
        cancelled.orders kept.orders := by
  intro kept cancelled
  obtain ⟨hlookup, horder⟩ := findOrder_eq_some hfind
  have hconsistent := consistent_run (valid_of_getElem? horder) calls
  have hnumber := hconsistent.indexed.orderId_eq horder
  have hstart := inFlight_cancel hconsistent hfind hrests
    (restsPriced_run config calls order (List.mem_of_getElem? horder) hrests) requestTimeNs
  obtain rfl := hconsistent.indexed.clientOrderId_eq hlookup hstart.requested
  rw [run, List.foldl_append, ← int64_toInt_add_of_inRange hrange] at hwaits
  rw [run, List.foldl_append, hnumber] at hcalm
  have hend : InFlight config i order.request (requestTimeNs + config.cancellationLatencyNs)
      (later.foldl call ((run config calls).cancel order.request.clientOrderId requestTimeNs).1)
      (later.foldl call (run config calls)) := by
    refine run_simulation (InFlight config i order.request _) (fun s t c h hp => ?_) hstart
      (hwaits.and hcalm)
    exact h.call hp.1 hp.2
  have hkept : kept = later.foldl call (run config calls) := List.foldl_append
  have hcancelled : cancelled =
      later.foldl call ((run config calls).cancel order.request.clientOrderId requestTimeNs).1 :=
    List.foldl_append
  rw [← hkept, ← hcancelled] at hend
  obtain ⟨orders, hstate, hmirrors⟩ := hend.mirrors
  rw [hstate]
  refine ⟨rfl, hmirrors.imp fun order' other h => h.imp_right ?_⟩
  rintro ⟨hid, hshadow⟩
  exact ⟨hid.trans hnumber.symm, hshadow.sameButCancel⟩

/-- The cancel is pending while a trade serves the queue ahead of the order and then the order. -/
theorem cancel_invisible_partialFill :
    let calls : List ExchangeCall := [
      .onMarketEvent { sequence := 1, exchangeTimeNs := 1, receiveTimeNs := 1
                       bestBidUnits := 99, bestAskUnits := 101, bidQuantityUnits := 7 },
      .submit { clientOrderId := "a", type := .limit, quantityUnits := 5
                limitPriceUnits := some 99 } 1]
    let later : List ExchangeCall := [
      .onMarketEvent { sequence := 2, exchangeTimeNs := 5, receiveTimeNs := 5
                       bestBidUnits := 99, bestAskUnits := 101, bidQuantityUnits := 7
                       tradePriceUnits := some 99, tradeQuantityUnits := 10
                       aggressorSide := some .sell }]
    let config : PaperExchangeConfig :=
      { ledger := { initialCashUnits := 10000 }, cancellationLatencyNs := 10 }
    (run config (calls ++ .cancel "a" 1 :: later)).toExecutions =
      (run config (calls ++ later)).toExecutions := by
  have h := (cancel_invisible
    { ledger := { initialCashUnits := 10000 }, cancellationLatencyNs := 10 }
    [.onMarketEvent { sequence := 1, exchangeTimeNs := 1, receiveTimeNs := 1
                      bestBidUnits := 99, bestAskUnits := 101, bidQuantityUnits := 7 },
     .submit { clientOrderId := "a", type := .limit, quantityUnits := 5
               limitPriceUnits := some 99 } 1]
    "a" 1 0
    { orderId := 1
      request := { clientOrderId := "a", type := .limit, quantityUnits := 5
                   limitPriceUnits := some 99 }
      status := .open, remainingQuantityUnits := 5, activeTimeNs := 1, queueAheadUnits := 7 }
    (by decide +kernel) (.inl rfl) (by decide +kernel)
    [.onMarketEvent { sequence := 2, exchangeTimeNs := 5, receiveTimeNs := 5
                      bestBidUnits := 99, bestAskUnits := 101, bidQuantityUnits := 7
                      tradePriceUnits := some 99, tradeQuantityUnits := 10
                      aggressorSide := some .sell }]
    (by decide +kernel) (by decide +kernel)).1
  dsimp only at h ⊢
  rw [h]

/-- Activation meets a cancel-pending order again: an ask that falls through its limit fills it at
once, where the order without the cancel goes on resting. -/
theorem not_forall_cancel_invisible : ¬ ∀ (config : PaperExchangeConfig)
    (calls : List ExchangeCall) (clientOrderId : String) (requestTimeNs : Int64) (i : ℕ)
    (order : PaperOrder),
    (run config calls).findOrder clientOrderId = some (i, order) →
    order.status = .open ∨ order.status = .partiallyFilled →
    InRange64 (requestTimeNs.toInt + config.cancellationLatencyNs.toInt) →
    ∀ later : List ExchangeCall,
      AllSteps call
        (Waits clientOrderId (requestTimeNs.toInt + config.cancellationLatencyNs.toInt))
        (run config (calls ++ [.cancel clientOrderId requestTimeNs])) later →
      (run config (calls ++ .cancel clientOrderId requestTimeNs :: later)).fills =
        (run config (calls ++ later)).fills := by
  intro h
  have hfills := h { ledger := { initialCashUnits := 10000 }, cancellationLatencyNs := 10 }
    [.onMarketEvent { sequence := 1, exchangeTimeNs := 1, receiveTimeNs := 1
                      bestBidUnits := 99, bestAskUnits := 101 },
     .submit { clientOrderId := "a", type := .limit, quantityUnits := 5
               limitPriceUnits := some 99 } 1]
    "a" 1 0
    { orderId := 1
      request := { clientOrderId := "a", type := .limit, quantityUnits := 5
                   limitPriceUnits := some 99 }
      status := .open, remainingQuantityUnits := 5, activeTimeNs := 1 }
    (by decide +kernel) (.inl rfl) (by decide +kernel)
    [.onMarketEvent { sequence := 2, exchangeTimeNs := 5, receiveTimeNs := 5
                      bestBidUnits := 97, bestAskUnits := 98 }]
    (by decide +kernel)
  exact absurd hfills (by decide +kernel)

end PaperExchange
end Astra
