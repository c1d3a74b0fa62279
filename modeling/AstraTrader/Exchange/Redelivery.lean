import AstraTrader.Exchange.History
import AstraTrader.Exchange.Protection

/-! At-least-once delivery: an event or a request that comes again changes nothing but the
count of ignored events, and no call reads that count. -/

namespace Astra
open Process

/-- The checks on an event that ask nothing of the exchange. -/
def MarketEvent.WellFormed (event : MarketEvent) : Prop :=
  event.sequence ≠ 0 ∧ 0 < event.exchangeTimeNs ∧ event.exchangeTimeNs ≤ event.receiveTimeNs ∧
    0 < event.bestBidUnits ∧ event.bestBidUnits ≤ event.bestAskUnits

instance (event : MarketEvent) : Decidable event.WellFormed :=
  inferInstanceAs (Decidable (_ ∧ _))

theorem MarketEvent.WellFormed.quoted {event : MarketEvent} (h : event.WellFormed) :
    event.Quoted where
  bid := h.2.2.2.1
  ask := Int64.lt_of_lt_of_le h.2.2.2.1 h.2.2.2.2

namespace PaperExchange

def withIgnored (exchange : PaperExchange) (ignoredMarketEvents : ℕ) : PaperExchange :=
  { exchange with ignoredMarketEvents }

section Insensitive
variable (exchange : PaperExchange) (n : ℕ)

theorem accepts_withIgnored (event : MarketEvent) :
    (exchange.withIgnored n).accepts event ↔ exchange.accepts event := Iff.rfl

theorem activateOrders_withIgnored (event : MarketEvent) :
    (exchange.withIgnored n).activateOrders event =
      (exchange.activateOrders event).withIgnored n := rfl

theorem matchTrade_withIgnored (event : MarketEvent) :
    (exchange.withIgnored n).matchTrade event = (exchange.matchTrade event).withIgnored n := by
  unfold matchTrade
  split
  · split_ifs <;> rfl
  · rfl

theorem onMarketEvent_withIgnored (event : MarketEvent) :
    ∃ m, ((exchange.withIgnored n).onMarketEvent event).1 =
      (exchange.onMarketEvent event).1.withIgnored m := by
  by_cases haccepts : exchange.accepts event
  · refine ⟨n, ?_⟩
    unfold onMarketEvent
    rw [if_pos haccepts, if_pos ((accepts_withIgnored ..).mpr haccepts)]
    have hmatch := matchTrade_withIgnored
      (({ exchange with market := some event } : PaperExchange).activateOrders event) n event
    rw [← activateOrders_withIgnored] at hmatch
    exact congrArg
      (fun s : PaperExchange => (s.applyDueCancels event).markToMarket (midpoint event))
      hmatch
  · refine ⟨n + 1, ?_⟩
    unfold onMarketEvent
    rw [if_neg haccepts, if_neg (mt (accepts_withIgnored ..).mp haccepts)]
    rfl

theorem submit_withIgnored (request : OrderRequest) (decisionTimeNs : Int64) :
    (exchange.withIgnored n).submit request decisionTimeNs =
      ((exchange.submit request decisionTimeNs).1.withIgnored n,
        (exchange.submit request decisionTimeNs).2) := by
  have hfind : (exchange.withIgnored n).findOrder request.clientOrderId =
      exchange.findOrder request.clientOrderId := rfl
  have hvalid : (exchange.withIgnored n).configValid = exchange.configValid := rfl
  have hmarket : (exchange.withIgnored n).market = exchange.market := rfl
  unfold submit
  rw [hfind, hvalid, hmarket]
  cases exchange.findOrder request.clientOrderId with
  | some found => rfl
  | none =>
    dsimp only
    split_ifs with hconfig
    · cases exchange.market with
      | none => rfl
      | some market =>
        have hrefusal : (exchange.withIgnored n).refusal request market decisionTimeNs =
            exchange.refusal request market decisionTimeNs := rfl
        dsimp only
        rw [hrefusal]
        cases exchange.refusal request market decisionTimeNs with
        | some reason => rfl
        | none => rfl
    · rfl

theorem cancel_withIgnored (clientOrderId : String) (requestTimeNs : Int64) :
    (exchange.withIgnored n).cancel clientOrderId requestTimeNs =
      ((exchange.cancel clientOrderId requestTimeNs).1.withIgnored n,
        (exchange.cancel clientOrderId requestTimeNs).2) := by
  have hfind : (exchange.withIgnored n).findOrder clientOrderId =
      exchange.findOrder clientOrderId := rfl
  unfold cancel
  rw [hfind]
  cases exchange.findOrder clientOrderId with
  | none => rfl
  | some found =>
    dsimp only
    split_ifs <;> rfl

theorem call_withIgnored (c : ExchangeCall) :
    ∃ m, (exchange.withIgnored n).call c = (exchange.call c).withIgnored m := by
  cases c with
  | onMarketEvent event => exact onMarketEvent_withIgnored exchange n event
  | submit request decisionTimeNs =>
    exact ⟨n, congrArg Prod.fst (submit_withIgnored exchange n request decisionTimeNs)⟩
  | cancel clientOrderId requestTimeNs =>
    exact ⟨n, congrArg Prod.fst (cancel_withIgnored exchange n clientOrderId requestTimeNs)⟩

end Insensitive

section Repeated
variable {config : PaperExchangeConfig} {exchange : PaperExchange}

theorem call_of_not_accepts {event : MarketEvent} (h : ¬ exchange.accepts event) :
    exchange.call (.onMarketEvent event) =
      exchange.withIgnored (exchange.ignoredMarketEvents + 1) := by
  simp only [call, onMarketEvent, if_neg h]
  rfl

theorem not_accepts_of_runAccepts {calls : List ExchangeCall} {event : MarketEvent}
    (h : RunAccepts config calls event) : ¬ (run config calls).accepts event := by
  obtain ⟨before, after, rfl, haccepts⟩ := h
  have hmarket := market_sequence_ge after
    ⟨event, call_market_of_accepts haccepts, UInt64.le_refl _⟩
  rw [run_append]
  rintro hagain
  obtain ⟨market, hheard, hle⟩ := hmarket
  exact UInt64.not_lt.mpr hle (hagain.2.2.1 market hheard)

theorem Indexed.findOrder_eq (h : exchange.Indexed) {i : ℕ} {order : PaperOrder}
    (horder : exchange.orders[i]? = some order) :
    exchange.findOrder order.request.clientOrderId = some (i, order) := by
  have hlookup : exchange.orderIndex.lookup order.request.clientOrderId = some i := by
    rw [h.index, List.getElem?_map, horder]
    rfl
  simp [findOrder, hlookup, horder]

theorem Indexed.submit_of_stored (h : exchange.Indexed) {order : PaperOrder}
    (horder : order ∈ exchange.orders) {request : OrderRequest}
    (hname : order.request.clientOrderId = request.clientOrderId) (decisionTimeNs : Int64) :
    exchange.submit request decisionTimeNs =
      (exchange, { orderId := order.orderId, status := order.status, duplicate := true
                   reason := "duplicate_client_order_id" }) := by
  obtain ⟨i, hi⟩ := List.mem_iff_getElem?.mp horder
  unfold submit
  rw [← hname, h.findOrder_eq hi]

theorem indexed_of_mem {calls : List ExchangeCall} {order : PaperOrder}
    (h : order ∈ (run config calls).orders) : (run config calls).Indexed := by
  obtain ⟨i, hi⟩ := List.mem_iff_getElem?.mp h
  exact (consistent_run (valid_of_getElem? hi) calls).indexed

end Repeated

/-- `noisy` is `calls` with deliveries inserted: of events that the run had accepted by then, of
events that fail a check of the exchange as it then is, and of requests whose client order id the
run had stored by then. -/
inductive Redelivers (config : PaperExchangeConfig) :
    List ExchangeCall → List ExchangeCall → Prop
  | nil : Redelivers config [] []
  | call {calls noisy : List ExchangeCall} (c : ExchangeCall) : Redelivers config calls noisy →
      Redelivers config (calls ++ [c]) (noisy ++ [c])
  | event {calls noisy : List ExchangeCall} (event : MarketEvent) :
      Redelivers config calls noisy →
      RunAccepts config calls event ∨ ¬ (run config calls).accepts event →
      Redelivers config calls (noisy ++ [.onMarketEvent event])
  | resubmit {calls noisy : List ExchangeCall} (order : PaperOrder) (request : OrderRequest)
      (decisionTimeNs : Int64) : Redelivers config calls noisy →
      order ∈ (run config calls).orders →
      order.request.clientOrderId = request.clientOrderId →
      Redelivers config calls (noisy ++ [.submit request decisionTimeNs])

theorem Redelivers.run_eq {config : PaperExchangeConfig} {calls noisy : List ExchangeCall}
    (h : Redelivers config calls noisy) :
    ∃ n, run config noisy = (run config calls).withIgnored n := by
  induction h with
  | nil => exact ⟨0, rfl⟩
  | call c _ ih =>
    obtain ⟨n, he⟩ := ih
    rw [run_concat, run_concat, he]
    exact call_withIgnored _ n c
  | @event calls noisy event _ hagain ih =>
    obtain ⟨n, he⟩ := ih
    have hignored : ¬ (run config calls).accepts event :=
      hagain.elim not_accepts_of_runAccepts id
    rw [run_concat, he, call_of_not_accepts (mt (accepts_withIgnored ..).mp hignored)]
    exact ⟨_, rfl⟩
  | @resubmit calls noisy order request decisionTimeNs _ horder hname ih =>
    obtain ⟨n, he⟩ := ih
    rw [run_concat, he, PaperExchange.call, submit_withIgnored,
      (indexed_of_mem horder).submit_of_stored horder hname]
    exact ⟨n, rfl⟩

/-- Both runs end alike up to the count of ignored events, and what is delivered again at the
end is answered as such. -/
structure AtLeastOnce (config : PaperExchangeConfig) (calls noisy : List ExchangeCall) :
    Prop where
  same : run config noisy =
    { run config calls with ignoredMarketEvents := (run config noisy).ignoredMarketEvents }
  event : ∀ event, RunAccepts config calls event ∨ ¬ (run config calls).accepts event →
    ((run config noisy).onMarketEvent event).2 = false
  resubmit : ∀ order ∈ (run config calls).orders, ∀ request decisionTimeNs,
    order.request.clientOrderId = request.clientOrderId →
      ((run config noisy).submit request decisionTimeNs).2.duplicate = true ∧
        ((run config noisy).submit request decisionTimeNs).2.orderId = order.orderId

theorem redelivers_atLeastOnce (config : PaperExchangeConfig) (calls noisy : List ExchangeCall)
    (h : Redelivers config calls noisy) : AtLeastOnce config calls noisy := by
  obtain ⟨n, he⟩ := h.run_eq
  refine ⟨?_, fun event hagain => ?_, fun order horder request decisionTimeNs hname => ?_⟩
  · rw [he]
    rfl
  · have hignored : ¬ (run config calls).accepts event :=
      hagain.elim not_accepts_of_runAccepts id
    simp only [he, onMarketEvent, accepts_withIgnored, if_neg hignored]
  · rw [he, submit_withIgnored, (indexed_of_mem horder).submit_of_stored horder hname]
    exact ⟨rfl, rfl⟩

/-- The first event again, then altered, and the order once more with another quantity. -/
theorem redelivers_atLeastOnce_twice :
    let event : MarketEvent := { sequence := 1, exchangeTimeNs := 1, receiveTimeNs := 1
                                 bestBidUnits := 99, bestAskUnits := 101 }
    let late : MarketEvent := { event with receiveTimeNs := 5, bestBidUnits := 98 }
    AtLeastOnce { ledger := { initialCashUnits := 10000 } }
      [.onMarketEvent event, .submit { clientOrderId := "a", quantityUnits := 5 } 1]
      [.onMarketEvent event, .submit { clientOrderId := "a", quantityUnits := 5 } 1,
       .onMarketEvent event, .onMarketEvent late,
       .submit { clientOrderId := "a", quantityUnits := 7 } 2] := by
  intro event late
  have hcalls : Redelivers { ledger := { initialCashUnits := 10000 } }
      [.onMarketEvent event, .submit { clientOrderId := "a", quantityUnits := 5 } 1]
      [.onMarketEvent event, .submit { clientOrderId := "a", quantityUnits := 5 } 1] :=
    .call _ (.call _ .nil)
  have hevent := hcalls.event event (.inl ⟨[], _, rfl, by decide +kernel⟩)
  have hlate := hevent.event late (.inr (by decide +kernel))
  exact redelivers_atLeastOnce _ _ _ (hlate.resubmit
    { orderId := 1, request := { clientOrderId := "a", quantityUnits := 5 }, status := .filled
      filledQuantityUnits := 5, activeTimeNs := 1 }
    { clientOrderId := "a", quantityUnits := 7 } 2 (by decide +kernel) rfl)

end PaperExchange
end Astra
