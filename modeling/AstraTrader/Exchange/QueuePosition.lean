import AstraTrader.Exchange.TradePrint

/-! The queue position of an order over its whole life. A watcher notes what was ahead of the
order when it first rested, and adds up the prints that could have reached it since. -/

namespace Astra
open Process FixedWidth

/-- What the maker fills among `fills` have given an order. -/
def makerFilledOf (fills : List PaperFill) (orderId : ℕ) : ℤ :=
  quantityOf ((fills.filter fun fill => fill.orderId = orderId).filter fun fill => fill.maker)

namespace PaperOrder

def isResting (order : PaperOrder) : Bool :=
  order.status = .open || order.status = .partiallyFilled

/-- The event prints a trade of the other side, at the limit or through it. -/
def reachedBy (order : PaperOrder) (event : MarketEvent) : Bool :=
  match event.tradePriceUnits, event.aggressorSide with
  | some tradePriceUnits, some aggressorSide =>
    aggressorSide ≠ order.request.side && match order.request.side with
      | .buy => decide (tradePriceUnits ≤ order.limit)
      | .sell => decide (order.limit ≤ tradePriceUnits)
  | _, _ => false

end PaperOrder

structure QueueWatch where
  opening : Option ℤ := none
  volume : ℤ := 0
  deriving DecidableEq

namespace QueueWatch

/-- The order is seen to rest; the first time, the queue ahead of it is noted. -/
def look (watch : QueueWatch) (order : PaperOrder) : QueueWatch :=
  if order.isResting = true ∧ watch.opening = none then
    { watch with opening := some order.queueAheadUnits.toInt }
  else watch

def hear (watch : QueueWatch) (order : PaperOrder) (event : MarketEvent) : QueueWatch :=
  if order.isResting = true ∧ order.reachedBy event = true then
    { watch with volume := watch.volume + event.tradeQuantityUnits.toInt }
  else watch

end QueueWatch

/-- What a watcher knows of an order that no cancel was accepted for: the queue served and the
maker fills are paid for by the prints, and the queue before the fills. -/
structure Watched (filled : ℤ) (order : PaperOrder) (watch : QueueWatch) : Prop where
  uncancelled : order.status ≠ .cancelPending
  pending : order.status = .pending → watch.opening = none
  resting : order.isResting = true → watch.opening ≠ none
  unopened : watch.opening = none → filled = 0 ∧ watch.volume = 0
  opened : ∀ ahead, watch.opening = some ahead → order.queueAheadUnits.toInt ≤ ahead ∧
    ahead - order.queueAheadUnits.toInt + filled ≤ watch.volume ∧
    (0 < filled → order.queueAheadUnits.toInt = 0)

section Orders
variable {config : PaperExchangeConfig} {event : MarketEvent} {books : Executions}
  {order : PaperOrder} {watch : QueueWatch} {filled : ℤ}

theorem isResting_iff : order.isResting = true ↔
    order.status = .open ∨ order.status = .partiallyFilled := by
  simp [PaperOrder.isResting]

theorem reachedBy_of_meets {tradePriceUnits : Int64} {aggressorSide : Side}
    (hprice : event.tradePriceUnits = some tradePriceUnits)
    (hside : event.aggressorSide = some aggressorSide)
    (h : order.meetsTrade event tradePriceUnits aggressorSide) : order.reachedBy event = true := by
  obtain ⟨_, _, _, hopposite, hcross⟩ := h
  unfold PaperOrder.reachedBy
  rw [hprice, hside]
  cases hs : order.request.side <;> simpa [hs] using ⟨hs ▸ hopposite, by simpa [hs] using hcross⟩

theorem isResting_of_meets {tradePriceUnits : Int64} {aggressorSide : Side}
    (huncancelled : order.status ≠ .cancelPending)
    (h : order.meetsTrade event tradePriceUnits aggressorSide) : order.isResting = true := by
  rcases h.1 with hs | hs | hs
  · exact isResting_iff.mpr (.inl hs)
  · exact isResting_iff.mpr (.inr hs)
  · exact absurd hs huncancelled

theorem ne_pending_of_meets {tradePriceUnits : Int64} {aggressorSide : Side}
    (h : order.meetsTrade event tradePriceUnits aggressorSide) : order.status ≠ .pending := by
  intro hpending
  rcases h.1 with hs | hs | hs <;> simp [hs] at hpending

theorem hear_of_meets {tradePriceUnits : Int64} {aggressorSide : Side}
    (huncancelled : order.status ≠ .cancelPending)
    (hprice : event.tradePriceUnits = some tradePriceUnits)
    (hside : event.aggressorSide = some aggressorSide)
    (h : order.meetsTrade event tradePriceUnits aggressorSide) : watch.hear order event =
      { watch with volume := watch.volume + event.tradeQuantityUnits.toInt } :=
  if_pos ⟨isResting_of_meets huncancelled h, reachedBy_of_meets hprice hside h⟩

theorem makerFilledOf_record (books : Executions) (order : PaperOrder)
    (quantity price fee realized : Int64) (maker : Bool) (event : MarketEvent) :
    makerFilledOf (books.record order quantity price fee realized maker event).fills
      order.orderId = makerFilledOf books.fills order.orderId +
        if maker = true then quantity.toInt else 0 := by
  unfold makerFilledOf quantityOf Executions.record
  cases maker <;> simp

theorem Watched.look_eq (h : Watched filled order watch) : watch.look order = watch :=
  if_neg fun hlook => h.resting hlook.1 hlook.2

theorem Watched.settled (h : Watched filled order watch) {last : PaperOrder}
    (hdead : last.isLive = false) (hqueue : last.queueAheadUnits = order.queueAheadUnits) :
    Watched filled last watch where
  uncancelled := PaperExchange.ne_cancelPending_of_settled hdead
  pending hpending := absurd (isLive_of_waiting (.inl hpending)) (by simp [hdead])
  resting hresting := by
    rcases isResting_iff.mp hresting with hs | hs <;>
      simp [PaperOrder.isLive, isTerminal, hs] at hdead
  unopened := h.unopened
  opened := hqueue ▸ h.opened

theorem look_of_settled {last : PaperOrder} (hdead : last.isLive = false) :
    watch.look last = watch := by
  refine if_neg fun hlook => ?_
  rcases isResting_iff.mp hlook.1 with hs | hs <;> simp [PaperOrder.isLive, isTerminal, hs] at hdead

theorem Watched.activated (h : Watched filled order watch) {cell : Executions × PaperOrder}
    (hcell : Activated config event books order cell) :
    Watched filled cell.2 (watch.look cell.2) := by
  cases hcell with
  | idle =>
    rw [h.look_eq]
    exact h
  | refused reason =>
    rw [look_of_settled (isLive_reject order reason)]
    exact h.settled (isLive_reject order reason) rfl
  | taken =>
    rw [look_of_settled (isLive_take_all order)]
    exact h.settled (isLive_take_all order) rfl
  | rested hwaiting =>
    have hunopened := h.pending (hwaiting.resolve_right h.uncancelled)
    obtain ⟨rfl, hvolume⟩ := h.unopened hunopened
    have hstatus : (order.rest event).status = .open := if_neg h.uncancelled
    have hlook : watch.look (order.rest event) =
        { watch with opening := some (order.rest event).queueAheadUnits.toInt } :=
      if_pos ⟨isResting_iff.mpr (.inl hstatus), hunopened⟩
    rw [hlook]
    refine ⟨by simp [hstatus], by simp [hstatus], by simp, by simp, ?_⟩
    rintro ahead hahead
    obtain rfl := Option.some.inj hahead
    exact ⟨le_rfl, by simp [hvolume], fun hpos => absurd hpos (lt_irrefl 0)⟩

theorem Watched.queue_eq (h : Watched filled order watch) (hopen : watch.opening ≠ none)
    {cell : Executions × PaperOrder} (hcell : Activated config event books order cell) :
    cell.2.queueAheadUnits = order.queueAheadUnits := by
  cases hcell with
  | idle => rfl
  | refused => rfl
  | taken => rfl
  | rested hwaiting => exact absurd (h.pending (hwaiting.resolve_right h.uncancelled)) hopen

theorem Activated.makerFilledOf_eq {cell : Executions × PaperOrder}
    (h : Activated config event books order cell) :
    makerFilledOf cell.1.fills order.orderId = makerFilledOf books.fills order.orderId := by
  cases h with
  | idle => rfl
  | refused => rfl
  | rested => rfl
  | taken =>
    rw [makerFilledOf_record]
    simp

theorem Watched.heard (h : Watched filled order watch)
    (htrade : 0 ≤ event.tradeQuantityUnits.toInt) :
    Watched filled order (watch.hear order event) := by
  unfold QueueWatch.hear
  split_ifs with hheard
  · refine ⟨h.uncancelled, h.pending, h.resting, fun hnone => absurd hnone (h.resting hheard.1),
      fun ahead hahead => ?_⟩
    obtain ⟨hle, hpaid, hzero⟩ := h.opened ahead hahead
    exact ⟨hle, by simp only; omega, hzero⟩
  · exact h

theorem Watched.paid (h : Watched filled order watch) {moved : PaperOrder} {filled' spent : ℤ}
    (hresting : order.isResting = true)
    (hstatus : moved.status ≠ .pending ∧ moved.status ≠ .cancelPending)
    (hqueue : moved.queueAheadUnits.toInt ≤ order.queueAheadUnits.toInt)
    (hcost : order.queueDrop moved + (filled' - filled) ≤ spent)
    (hzero : 0 < filled' → moved.queueAheadUnits.toInt = 0) :
    Watched filled' moved { watch with volume := watch.volume + spent } := by
  have hopen := h.resting hresting
  refine ⟨hstatus.2, fun hpending => absurd hpending hstatus.1, fun _ => hopen,
    fun hnone => absurd hnone hopen, fun ahead hahead => ?_⟩
  obtain ⟨hle, hpaid, _⟩ := h.opened ahead hahead
  refine ⟨hqueue.trans hle, ?_, hzero⟩
  simp only [PaperOrder.queueDrop] at hcost ⊢
  omega

theorem Watched.served (h : Watched filled order watch) {tradePriceUnits available : Int64}
    {aggressorSide : Side} {cell : (Executions × Int64) × PaperOrder}
    (hcell : Served config event tradePriceUnits aggressorSide books available order cell)
    (hprice : event.tradePriceUnits = some tradePriceUnits)
    (hside : event.aggressorSide = some aggressorSide) (hqueue : 0 ≤ order.queueAheadUnits.toInt)
    (hremaining : order.isLive = true → 0 < order.remainingQuantityUnits.toInt)
    (htrade : 0 ≤ event.tradeQuantityUnits.toInt)
    (havailable : available.toInt ≤ event.tradeQuantityUnits.toInt)
    (hfilled : makerFilledOf books.fills order.orderId = filled) :
    Watched (makerFilledOf cell.1.1.fills order.orderId) cell.2 (watch.hear order event) := by
  subst hfilled
  cases hcell with
  | passedOver => exact h.heard htrade
  | queued hpos hmeets =>
    have hresting := isResting_of_meets h.uncancelled hmeets
    obtain ⟨ahead, hahead⟩ := Option.ne_none_iff_exists'.mp (h.resting hresting)
    have hzero := (h.opened ahead hahead).2.2
    have hqueued := (toInt_behindQueue hqueue hpos).2
    have hnonneg := le_min hqueue ((int64_pos_iff _).mp hpos).le
    have hle := min_le_left order.queueAheadUnits.toInt available.toInt
    have hle' := min_le_right order.queueAheadUnits.toInt available.toInt
    rw [hear_of_meets h.uncancelled hprice hside hmeets]
    dsimp only
    refine h.paid hresting ⟨ne_pending_of_meets hmeets, h.uncancelled⟩ ?_ ?_ fun hfilled => ?_
    · omega
    · simp only [PaperOrder.queueDrop]
      omega
    · have := hzero hfilled
      omega
  | refused quantity reason hpos hmeets hbehind hquantity =>
    have hresting := isResting_of_meets h.uncancelled hmeets
    obtain ⟨hleft, hahead⟩ := toInt_behindQueue_of_pos hqueue hpos hbehind
    have hrefused : ((order.advance available).reject reason).queueAheadUnits.toInt = 0 := hahead
    rw [int64_pos_iff] at hbehind
    rw [hear_of_meets h.uncancelled hprice hside hmeets]
    refine h.paid hresting ⟨by simp [PaperOrder.reject], by simp [PaperOrder.reject]⟩
      (hrefused.trans_le hqueue) ?_ fun _ => hrefused
    simp only [PaperOrder.queueDrop]
    omega
  | filled quantity fee ledger mutation hpos hmeets hbehind hquantity =>
    have hresting := isResting_of_meets h.uncancelled hmeets
    obtain ⟨hleft, hahead⟩ := toInt_behindQueue_of_pos hqueue hpos hbehind
    obtain ⟨hq, _, _⟩ := toInt_leftover hremaining hmeets.isLive hbehind hquantity
    have htaken : ((order.advance available).take quantity).queueAheadUnits.toInt = 0 := hahead
    have hle := min_le_right order.remainingQuantityUnits.toInt
      (order.behindQueue available).toInt
    have hfilled : makerFilledOf ({ books with ledger }.record (order.advance available) quantity
        order.limit fee mutation.realizedPnlUnits true event).fills order.orderId =
          makerFilledOf books.fills order.orderId + quantity.toInt :=
      makerFilledOf_record { books with ledger } (order.advance available) quantity order.limit fee
        mutation.realizedPnlUnits true event
    rw [hear_of_meets h.uncancelled hprice hside hmeets]
    refine h.paid hresting (status_take_ne _ _) (htaken.trans_le hqueue) ?_ fun _ => htaken
    simp only [PaperOrder.queueDrop]
    omega

end Orders

namespace PaperExchange

/-- What a call shows to the watcher of order `i`: an event after its activations, a request
once it is stored. -/
def observe (i : ℕ) (exchange : PaperExchange) (watch : QueueWatch) : ExchangeCall → QueueWatch
  | .onMarketEvent event =>
    if exchange.accepts event then
      match (exchange.opened event).orders[i]? with
      | some order => (watch.look order).hear order event
      | none => watch
    else watch
  | .submit request decisionTimeNs =>
    match (exchange.submit request decisionTimeNs).1.orders[i]? with
    | some order => watch.look order
    | none => watch
  | .cancel _ _ => watch

def watchCall (i : ℕ) (pair : PaperExchange × QueueWatch) (c : ExchangeCall) :
    PaperExchange × QueueWatch :=
  (pair.1.call c, observe i pair.1 pair.2 c)

/-- What the watcher of order `i` has noted after a run. -/
def watch (config : PaperExchangeConfig) (i : ℕ) (calls : List ExchangeCall) : QueueWatch :=
  (calls.foldl (watchCall i) (new config, {})).2

/-- The call is not an accepted cancel of order `i`. -/
def Uncancelled (i : ℕ) (exchange : PaperExchange) : ExchangeCall → Prop
  | .cancel clientOrderId requestTimeNs =>
    (exchange.cancel clientOrderId requestTimeNs).2 = true →
      ∀ order, exchange.findOrder clientOrderId ≠ some (i, order)
  | .onMarketEvent _ | .submit _ _ => True

structure WatchedAt (i : ℕ) (exchange : PaperExchange) (watch : QueueWatch) : Prop where
  absent : exchange.orders[i]? = none → watch = {}
  present : ∀ order, exchange.orders[i]? = some order →
    Watched (makerFilledOf exchange.fills (i + 1)) order watch

section Calls
variable {config : PaperExchangeConfig} {exchange : PaperExchange} {event : MarketEvent}
  {i : ℕ} {order : PaperOrder} {watch : QueueWatch}

theorem makerFilledOf_of_moves {a b : Executions × PaperOrder} {orderId : ℕ}
    (h : Relation.ReflTransGen (Move config event) a b) (hne : a.2.orderId ≠ orderId) :
    makerFilledOf b.1.fills orderId = makerFilledOf a.1.fills orderId := by
  rw [makerFilledOf, makerFilledOf, filter_fills_of_moves h hne]

theorem watched_opened (hs : Consistent config exchange)
    (horder : exchange.orders[i]? = some order)
    (h : Watched (makerFilledOf exchange.fills (i + 1)) order watch) :
    ∃ active, (exchange.opened event).orders[i]? = some active ∧
      Watched (makerFilledOf (exchange.opened event).fills (i + 1)) active (watch.look active) ∧
      (watch.opening ≠ none → active.queueAheadUnits = order.queueAheadUnits) := by
  have hid := hs.indexed.orderId_eq horder
  have hfills := sweep_measure (s := exchange.toExecutions)
    (f := fun books : Executions => makerFilledOf books.fills (i + 1)) horder
    fun books k other hother hne => makerFilledOf_of_moves
      (@activateDue_moves exchange.config event books other) (by
        rw [hs.indexed.orderId_eq hother]
        omega)
  have hcell := @activateDue_activated exchange.config event
    (sweepAt (Executions.activateDue exchange.config event) exchange.toExecutions exchange.orders
      i) order
  have hsame := hcell.makerFilledOf_eq
  rw [hid] at hsame
  refine ⟨_, @activateOrders_getElem? i { exchange with market := some event } event order horder,
    ?_, fun hopen => h.queue_eq hopen hcell⟩
  have htotal : makerFilledOf (exchange.opened event).fills (i + 1) =
      makerFilledOf exchange.fills (i + 1) := hfills.2.trans (hsame.trans hfills.1)
  rw [htotal]
  exact h.activated hcell

theorem watched_matchTrade (hs : Consistent config exchange)
    (hqueues : ∀ order ∈ exchange.orders, 0 ≤ order.queueAheadUnits.toInt)
    (htrade : 0 ≤ event.tradeQuantityUnits.toInt) (horder : exchange.orders[i]? = some order)
    (h : Watched (makerFilledOf exchange.fills (i + 1)) order watch) :
    ∃ matched, (exchange.matchTrade event).orders[i]? = some matched ∧
      Watched (makerFilledOf (exchange.matchTrade event).fills (i + 1)) matched
        (watch.hear order event) ∧
      matched.queueAheadUnits.toInt ≤ order.queueAheadUnits.toInt := by
  have hid := hs.indexed.orderId_eq horder
  have hmem := List.mem_of_getElem? horder
  rcases matchTrade_cases exchange event with he | ⟨price, side, hprice, hside, hquantity, he⟩
  · rw [he]
    exact ⟨order, horder, h.heard htrade, le_rfl⟩
  have hfills := sweep_measure (s := (exchange.toExecutions, event.tradeQuantityUnits))
    (f := fun pass : Executions × Int64 => makerFilledOf pass.1.fills (i + 1)) horder
    fun pass k other hother hne => makerFilledOf_of_moves
      (@matchOrder_moves exchange.config event pass.1 other price pass.2 side hprice hside) (by
        rw [hs.indexed.orderId_eq hother]
        omega)
  have hcell : Served exchange.config event price side _ _ order _ :=
    hs.served hmem (exchange.printAt event price side i)
  refine ⟨_, matchTrade_getElem? hprice hside hquantity horder, ?_,
    (hcell.queue_le (hqueues order hmem)).2⟩
  have htotal : makerFilledOf (exchange.matchTrade event).fills (i + 1) = _ :=
    (congrArg (fun t : PaperExchange => makerFilledOf t.fills (i + 1)) he).trans hfills.2
  have hbefore := hfills.1
  rw [htotal, ← hid]
  rw [← hid] at hbefore h
  exact h.served hcell hprice hside (hqueues order hmem) (hs.orders order hmem).live htrade
    (printAt_bounds price side hs hqueues htrade i).2 hbefore

theorem onMarketEvent_absent (haccepts : exchange.accepts event)
    (h : exchange.orders[i]? = none) :
    (exchange.opened event).orders[i]? = none ∧
      (exchange.onMarketEvent event).1.orders[i]? = none := by
  have hopened : (exchange.opened event).orders[i]? = none :=
    (sweep_getElem? _ _ _ i).trans (by rw [show _ = none from h]; rfl)
  refine ⟨hopened, ?_⟩
  rw [onMarketEvent_orders haccepts, List.getElem?_map]
  cases hmatched : ((exchange.opened event).matchTrade event).orders[i]? with
  | none => rfl
  | some matched =>
    obtain ⟨order, horder, _⟩ := matchTrade_origin hmatched
    rw [hopened] at horder
    exact absurd horder (by simp)

/-- How a call leaves order `i` and its watcher. -/
structure Watches (i : ℕ) (exchange : PaperExchange) (watch : QueueWatch) (next : PaperExchange)
    (watch' : QueueWatch) : Prop where
  watched : WatchedAt i next watch'
  shrinks : ∀ order, exchange.orders[i]? = some order → watch.opening ≠ none →
    watch'.opening ≠ none ∧ ∃ after, next.orders[i]? = some after ∧
      after.queueAheadUnits.toInt ≤ order.queueAheadUnits.toInt

theorem look_opening (h : watch.opening ≠ none) : (watch.look order).opening ≠ none := by
  unfold QueueWatch.look
  split_ifs with hlook
  · exact absurd hlook.2 h
  · exact h

theorem hear_opening (watch : QueueWatch) (order : PaperOrder) (event : MarketEvent) :
    (watch.hear order event).opening = watch.opening := by
  unfold QueueWatch.hear
  split_ifs <;> rfl

theorem watches_onMarketEvent (hs : Consistent config exchange) (hqueues : QueuesNonneg exchange)
    (hevent : event.Displayed) (h : WatchedAt i exchange watch) :
    Watches i exchange watch (exchange.onMarketEvent event).1
      (observe i exchange watch (.onMarketEvent event)) := by
  rw [observe]
  by_cases haccepts : exchange.accepts event
  · rw [if_pos haccepts]
    cases horder : exchange.orders[i]? with
    | none =>
      obtain ⟨hopened, hnext⟩ := onMarketEvent_absent haccepts horder
      rw [hopened]
      refine ⟨⟨fun _ => h.absent horder, fun order hsome => ?_⟩, fun order hsome => ?_⟩
      · exact absurd (hnext.symm.trans hsome) (by simp)
      · exact absurd (horder.symm.trans hsome) (by simp)
    | some order =>
      obtain ⟨active, hactive, hlooked, hkept⟩ := watched_opened hs horder (h.present order horder)
      obtain ⟨matched, hmatched, hheard, hle⟩ := watched_matchTrade (hs.opened haccepts)
        (queuesNonneg_opened hqueues hevent) hevent.trade hactive hlooked
      have hnext : (exchange.onMarketEvent event).1.orders[i]? = some matched := by
        rw [onMarketEvent_orders haccepts, List.getElem?_map, hmatched, Option.map_some,
          applyDueCancel_of_ne hheard.uncancelled]
      have hfills : (exchange.onMarketEvent event).1.fills =
          ((exchange.opened event).matchTrade event).fills := by
        rw [onMarketEvent, if_pos haccepts]
        rfl
      rw [hactive]
      refine ⟨⟨fun hnone => absurd (hnext.symm.trans hnone) (by simp), fun after hafter => ?_⟩,
        fun before hbefore hopen => ⟨?_, matched, hnext, ?_⟩⟩
      · rw [hfills, ← Option.some.inj (hnext.symm.trans hafter)]
        exact hheard
      · rw [hear_opening]
        exact look_opening hopen
      · rw [← Option.some.inj (horder.symm.trans hbefore), ← hkept hopen]
        exact hle
  · rw [if_neg haccepts, onMarketEvent, if_neg haccepts]
    exact ⟨⟨h.absent, h.present⟩, fun order horder hopen => ⟨hopen, order, horder, le_rfl⟩⟩

theorem watched_place (hs : Consistent config exchange) (request : OrderRequest)
    (decisionTimeNs : Int64) :
    Watched (makerFilledOf exchange.fills (exchange.orders.length + 1))
      (exchange.place request decisionTimeNs) {} := by
  have hnone : exchange.fills.filter (fun fill => fill.orderId = exchange.orders.length + 1) =
      [] := by
    refine List.filter_eq_nil_iff.mpr fun fill hfill hid => ?_
    have hle := hs.orderId_le hfill
    rw [of_decide_eq_true hid] at hle
    omega
  have hzero : makerFilledOf exchange.fills (exchange.orders.length + 1) = 0 := by
    rw [makerFilledOf, hnone]
    rfl
  have hresting : (exchange.place request decisionTimeNs).isResting = false := rfl
  rw [hzero]
  refine ⟨by simp [place], fun _ => rfl, fun h => ?_, fun _ => ⟨rfl, rfl⟩, fun ahead hahead => ?_⟩
  · exact absurd (hresting.symm.trans h) (by decide)
  · exact absurd hahead (by simp)

theorem place_orderId (hs : Consistent config exchange) (request : OrderRequest)
    (decisionTimeNs : Int64) :
    (exchange.place request decisionTimeNs).orderId = exchange.orders.length + 1 :=
  hs.indexed.nextOrderId

theorem watched_store (hs : Consistent config exchange) (request : OrderRequest)
    (decisionTimeNs : Int64) (market : MarketEvent) :
    let next := exchange.store (exchange.place request decisionTimeNs) market
    Watched (makerFilledOf next.1.fills (exchange.orders.length + 1)) next.2
      (({} : QueueWatch).look next.2) := by
  have hplaced := watched_place hs request decisionTimeNs
  unfold store
  split_ifs
  · have hcell : Activated exchange.config market exchange.toExecutions
        (exchange.place request decisionTimeNs) _ := activate_activated (.inl rfl)
    have hsame := hcell.makerFilledOf_eq
    rw [place_orderId hs] at hsame
    rw [← hsame] at hplaced
    exact hplaced.activated hcell
  · simp only
    rw [hplaced.look_eq]
    exact hplaced

theorem store_makerFilledOf (hs : Consistent config exchange) (request : OrderRequest)
    (decisionTimeNs : Int64) (market : MarketEvent) (hi : i < exchange.orders.length) :
    makerFilledOf (exchange.store (exchange.place request decisionTimeNs) market).1.fills (i + 1) =
      makerFilledOf exchange.fills (i + 1) := by
  unfold store
  split_ifs
  · have hne : (exchange.place request decisionTimeNs).orderId ≠ i + 1 := by
      rw [place_orderId hs]
      omega
    exact makerFilledOf_of_moves (@activate_moves exchange.config market exchange.toExecutions
      (exchange.place request decisionTimeNs) (.inl rfl)) hne
  · rfl

theorem watches_submit (hs : Consistent config exchange) (request : OrderRequest)
    (decisionTimeNs : Int64) (h : WatchedAt i exchange watch) :
    Watches i exchange watch (exchange.submit request decisionTimeNs).1
      (observe i exchange watch (.submit request decisionTimeNs)) := by
  rw [observe]
  cases horder : exchange.orders[i]? with
  | some order =>
    have hi := (List.getElem?_eq_some_iff.mp horder).1
    have hnext : (exchange.submit request decisionTimeNs).1.orders[i]? = some order :=
      (submit_getElem? exchange request decisionTimeNs hi).trans horder
    have hfills : makerFilledOf (exchange.submit request decisionTimeNs).1.fills (i + 1) =
        makerFilledOf exchange.fills (i + 1) := by
      rcases submit_cases exchange request decisionTimeNs with he | ⟨market, _, he⟩ <;> rw [he]
      exact store_makerFilledOf hs request decisionTimeNs market hi
    have hwatched := h.present order horder
    rw [hnext]
    simp only [hwatched.look_eq]
    refine ⟨⟨fun hnone => absurd (hnext.symm.trans hnone) (by simp), fun after hafter => ?_⟩,
      fun before hbefore hopen => ⟨hopen, order, hnext, ?_⟩⟩
    · rw [hfills, ← Option.some.inj (hnext.symm.trans hafter)]
      exact hwatched
    · rw [Option.some.inj (horder.symm.trans hbefore)]
  | none =>
    obtain rfl := h.absent horder
    refine ⟨?_, fun order hsome => absurd (horder.symm.trans hsome) (by simp)⟩
    rcases submit_cases exchange request decisionTimeNs with he | ⟨market, _, he⟩
    · rw [he, horder]
      exact ⟨fun _ => rfl, fun order hsome => absurd (horder.symm.trans hsome) (by simp)⟩
    · have hlength := List.getElem?_eq_none_iff.mp horder
      rw [he]
      have horders := congrArg PaperExchange.orders
        (store_eq exchange (exchange.place request decisionTimeNs) market)
      rcases Nat.eq_or_lt_of_le hlength with heq | hlt
      · have hnext : (exchange.store (exchange.place request decisionTimeNs) market).1.orders[i]? =
            some (exchange.store (exchange.place request decisionTimeNs) market).2 := by
          rw [horders, ← heq, List.getElem?_concat_length]
        rw [hnext]
        refine ⟨fun hnone => absurd (hnext.symm.trans hnone) (by simp), fun after hafter => ?_⟩
        rw [← Option.some.inj (hnext.symm.trans hafter), ← heq]
        exact watched_store hs request decisionTimeNs market
      · have hnext : (exchange.store (exchange.place request decisionTimeNs) market).1.orders[i]? =
            none := by
          rw [horders, List.getElem?_eq_none_iff, List.length_append]
          exact hlt
        rw [hnext]
        exact ⟨fun _ => rfl, fun order hsome => absurd (hnext.symm.trans hsome) (by simp)⟩

theorem watches_cancel {clientOrderId : String} {requestTimeNs : Int64}
    (huncancelled : Uncancelled i exchange (.cancel clientOrderId requestTimeNs))
    (h : WatchedAt i exchange watch) :
    Watches i exchange watch (exchange.cancel clientOrderId requestTimeNs).1 watch := by
  rcases cancel_cases exchange clientOrderId requestTimeNs with
    he | ⟨pre, order, post, hsplit, hfind, _, _, he⟩
  · rw [he]
    exact ⟨h, fun order horder hopen => ⟨hopen, order, horder, le_rfl⟩⟩
  · have hne : i ≠ pre.length := by
      rintro rfl
      exact huncancelled (by rw [he]) order hfind
    have hother : (exchange.cancel clientOrderId requestTimeNs).1.orders[i]? =
        exchange.orders[i]? := by
      rw [he, hsplit]
      exact getElem?_replace hne
    refine ⟨⟨?_, ?_⟩, fun order horder hopen => ⟨hopen, order, hother.trans horder, le_rfl⟩⟩
    · rw [hother]
      exact h.absent
    · rw [hother, he]
      exact h.present

theorem watches_call (hs : Consistent config exchange) (hqueues : QueuesNonneg exchange)
    (h : WatchedAt i exchange watch) {c : ExchangeCall} (hc : c.Displayed)
    (huncancelled : Uncancelled i exchange c) :
    Watches i exchange watch (exchange.call c) (observe i exchange watch c) := by
  cases c with
  | onMarketEvent event => exact watches_onMarketEvent hs hqueues hc h
  | submit request decisionTimeNs => exact watches_submit hs request decisionTimeNs h
  | cancel clientOrderId requestTimeNs => exact watches_cancel huncancelled h

theorem Watches.trans {s t u : PaperExchange} {w w' w'' : QueueWatch} (h : Watches i s w t w')
    (h' : Watches i t w' u w'') : Watches i s w u w'' := by
  refine ⟨h'.watched, fun order horder hopen => ?_⟩
  obtain ⟨hopen', mid, hmid, hle⟩ := h.shrinks order horder hopen
  obtain ⟨hopen'', last, hlast, hle'⟩ := h'.shrinks mid hmid hopen'
  exact ⟨hopen'', last, hlast, hle'.trans hle⟩

/-- A run keeps an order watched, and the queue ahead of it only gets shorter. -/
theorem watches_foldl {calls : List ExchangeCall} (hs : Consistent config exchange)
    (hqueues : QueuesNonneg exchange) (h : WatchedAt i exchange watch)
    (hcalls : ∀ c ∈ calls, c.Displayed)
    (huncancelled : AllSteps call (Uncancelled i) exchange calls) :
    Watches i exchange watch (calls.foldl (watchCall i) (exchange, watch)).1
      (calls.foldl (watchCall i) (exchange, watch)).2 := by
  have hsteps : AllSteps (watchCall i) (fun pair c => Uncancelled i pair.1 c ∧ c.Displayed)
      (exchange, watch) calls :=
    AllSteps.and (AllSteps.observed (f := Prod.fst) (fun _ _ => rfl) huncancelled)
      (AllSteps.of_mem _ hcalls)
  refine (run_invariant (I := fun pair : PaperExchange × QueueWatch => Consistent config pair.1 ∧
    QueuesNonneg pair.1 ∧ Watches i exchange watch pair.1 pair.2) ?_ ⟨hs, hqueues, h, ?_⟩
    hsteps).2.2
  · rintro pair c ⟨hpair, hpairQueues, hwatches⟩ ⟨hc, hdisplayed⟩
    exact ⟨hpair.call c, hpairQueues.call hpair hdisplayed,
      hwatches.trans (watches_call hpair hpairQueues hwatches.watched hdisplayed hc)⟩
  · exact fun order horder hopen => ⟨hopen, order, horder, le_rfl⟩

end Calls

theorem foldl_watchCall (config : PaperExchangeConfig) (i : ℕ) (calls : List ExchangeCall) :
    calls.foldl (watchCall i) (new config, {}) = (run config calls, watch config i calls) :=
  Prod.ext (foldl_observed (f := Prod.fst) (fun _ _ => rfl) _ calls) rfl

theorem watched_run {config : PaperExchangeConfig} {i : ℕ} {calls : List ExchangeCall}
    (hvalid : validConfig config = true) (hcalls : ∀ c ∈ calls, c.Displayed)
    (huncancelled : AllSteps call (Uncancelled i) (new config) calls) :
    WatchedAt i (run config calls) (watch config i calls) := by
  have hqueues : QueuesNonneg (new config) := @queuesNonneg_run config hvalid [] (by simp)
  have hstart : WatchedAt i (new config) {} := ⟨fun _ => rfl, fun order h => by simp [new] at h⟩
  have hwatches := watches_foldl (consistent_new hvalid) hqueues hstart hcalls huncancelled
  rw [foldl_watchCall] at hwatches
  exact hwatches.watched

/-- The queue that order `i` found when it opened is served before it, and is never added to. -/
structure QueueRespected (config : PaperExchangeConfig) (calls : List ExchangeCall) (i : ℕ)
    (order : PaperOrder) (ahead : ℤ) : Prop where
  filled : makerFilledOf (run config calls).fills order.orderId ≤
    max 0 ((watch config i calls).volume - ahead)
  opened : order.queueAheadUnits.toInt ≤ ahead
  shrinks : ∀ before after earlier, calls = before ++ after →
    (watch config i before).opening ≠ none → (run config before).orders[i]? = some earlier →
    order.queueAheadUnits.toInt ≤ earlier.queueAheadUnits.toInt

theorem run_queueRespected (config : PaperExchangeConfig) (calls : List ExchangeCall)
    (hcalls : ∀ c ∈ calls, c.Displayed) (i : ℕ)
    (huncancelled : AllSteps call (Uncancelled i) (new config) calls) (order : PaperOrder)
    (horder : (run config calls).orders[i]? = some order) (ahead : ℤ)
    (hopening : (watch config i calls).opening = some ahead) :
    QueueRespected config calls i order ahead := by
  have hvalid := valid_of_getElem? horder
  have hwatched := (watched_run hvalid hcalls huncancelled).present order horder
  rw [← (consistent_run hvalid calls).indexed.orderId_eq horder] at hwatched
  obtain ⟨hle, hpaid, hserved⟩ := hwatched.opened ahead hopening
  refine ⟨?_, hle, ?_⟩
  · rcases le_or_gt (makerFilledOf (run config calls).fills order.orderId) 0 with hnone | hpos
    · exact hnone.trans (le_max_left _ _)
    · have hzero := hserved hpos
      refine le_trans ?_ (le_max_right _ _)
      omega
  · rintro before after earlier rfl hopen hearlier
    rw [List.forall_mem_append] at hcalls
    rw [AllSteps.append] at huncancelled
    have hwatches := watches_foldl (consistent_run hvalid before)
      (queuesNonneg_run hvalid hcalls.1) (watched_run hvalid hcalls.1 huncancelled.1) hcalls.2
      huncancelled.2
    rw [← foldl_watchCall, ← List.foldl_append, foldl_watchCall] at hwatches
    obtain ⟨_, last, hlast, hshrunk⟩ := hwatches.shrinks earlier hearlier hopen
    rwa [Option.some.inj (horder.symm.trans hlast)]

/-- Five units ahead, prints of three and of four: at most two are filled. -/
theorem run_queueRespected_partialFill :
    QueueRespected { ledger := { initialCashUnits := 10000 }, acknowledgementLatencyNs := 1 }
      [.onMarketEvent { sequence := 1, exchangeTimeNs := 1, receiveTimeNs := 1, bestBidUnits := 99
                        bestAskUnits := 101, bidQuantityUnits := 7 },
       .submit { clientOrderId := "a", type := .limit, quantityUnits := 3
                 limitPriceUnits := some 99 } 1,
       .onMarketEvent { sequence := 2, exchangeTimeNs := 2, receiveTimeNs := 2, bestBidUnits := 99
                        bestAskUnits := 101, bidQuantityUnits := 5, tradePriceUnits := some 99
                        tradeQuantityUnits := 3, aggressorSide := some .sell },
       .onMarketEvent { sequence := 3, exchangeTimeNs := 3, receiveTimeNs := 3, bestBidUnits := 99
                        bestAskUnits := 101, bidQuantityUnits := 9, tradePriceUnits := some 98
                        tradeQuantityUnits := 4, aggressorSide := some .sell }] 0
      { orderId := 1
        request := { clientOrderId := "a", type := .limit, quantityUnits := 3
                     limitPriceUnits := some 99 }
        status := .partiallyFilled, remainingQuantityUnits := 1, filledQuantityUnits := 2
        activeTimeNs := 2 } 5 :=
  run_queueRespected _ _ (by decide) 0 (by simp only [AllSteps, Uncancelled, and_self]) _
    (by decide +kernel) 5 (by decide +kernel)

end PaperExchange
end Astra
