import AstraTrader.Exchange.LifeCycle
import AstraTrader.Exchange.Protection

/-! Acknowledgement: with latency, an order meets no event before its active time, and never the
event it was submitted against. -/

namespace Astra
open Relation Process FixedWidth

/-- `event` made the fill, for an order that it found active. -/
def FilledBy (orders : List PaperOrder) (event : MarketEvent) (fill : PaperFill) : Prop :=
  fill.marketSequence = event.sequence ∧
    ∃ order ∈ orders, order.orderId = fill.orderId ∧
      order.request.clientOrderId = fill.clientOrderId ∧ order.activeTimeNs ≤ event.receiveTimeNs

theorem filledBy_of_move {config : PaperExchangeConfig} {event : MarketEvent}
    {before after : Executions × PaperOrder} (h : Move config event before after)
    {fill : PaperFill} (hfill : fill ∈ after.1.fills) :
    fill ∈ before.1.fills ∨ FilledBy [before.2] event fill := by
  cases h with
  | reject => exact .inl hfill
  | rest => exact .inl hfill
  | queue => exact .inl hfill
  | cancel => exact .inl hfill
  | execute books order _ _ _ _ _ _ _ hactive =>
    rcases List.mem_append.mp hfill with hold | hnew
    · exact .inl hold
    · rw [List.mem_singleton.mp hnew]
      exact .inr ⟨rfl, order, List.mem_singleton_self _, rfl, rfl, hactive⟩

namespace PaperExchange

/-- The states between accepting `event` and the end of `on_market_event`. -/
structure Handling (start : PaperExchange) (event : MarketEvent) (exchange : PaperExchange) :
    Prop where
  market : exchange.market = some event
  orders : ∀ order ∈ exchange.orders, ∃ old ∈ start.orders, old.orderId = order.orderId ∧
    old.request = order.request ∧ old.activeTimeNs = order.activeTimeNs
  fills : ∀ fill ∈ exchange.fills, fill ∈ start.fills ∨ FilledBy start.orders event fill

section Transitions
variable {start s t : PaperExchange} {event : MarketEvent}

theorem Handling.transition (h : Handling start event s)
    (hstep : Transition (fun _ => False) (fun _ _ => False) s t) : Handling start event t := by
  cases hstep with
  | observe _ _ hheard => exact hheard.elim
  | ignore => exact ⟨h.market, h.orders, h.fills⟩
  | mark => exact ⟨h.market, h.orders, h.fills⟩
  | move other pre post order moved books hmarket hsplit hmove =>
    obtain rfl : other = event := Option.some.inj (hmarket.symm.trans h.market)
    obtain ⟨old, hold, hid, hrequest, hactive⟩ := h.orders order (by simp [hsplit])
    obtain ⟨hmovedId, hmovedRequest, hmovedActive, _⟩ := hmove.order_eq
    refine ⟨h.market, forall_mem_replace (hsplit ▸ h.orders) ?_, fun fill hfill => ?_⟩
    · exact ⟨old, hold, hid.trans hmovedId.symm, hrequest.trans hmovedRequest.symm,
        hactive.trans hmovedActive.symm⟩
    · rcases filledBy_of_move hmove hfill with hbefore | ⟨hseq, _, hsingle, hnumber, hname, hdue⟩
      · exact h.fills fill hbefore
      · rw [List.mem_singleton.mp hsingle] at hnumber hname hdue
        exact .inr ⟨hseq, old, hold, hid.trans hnumber, by rwa [hrequest], by rwa [hactive]⟩
  | append _ _ _ _ hallow => exact hallow.elim
  | requestCancel pre post order due hsplit =>
    refine ⟨h.market, forall_mem_replace (hsplit ▸ h.orders) ?_, h.fills⟩
    exact h.orders order (by simp [hsplit])

theorem handling_onMarketEvent (h : s.accepts event) :
    Handling s event (s.onMarketEvent event).1 := by
  refine chain_invariant (I := Handling s event) (fun hu hstep => hu.transition hstep) ?_
    (observed_transitions h)
  exact ⟨rfl, fun order horder => ⟨order, horder, rfl, rfl, rfl⟩, fun fill hfill => .inl hfill⟩

theorem call_fills (hlatency : s.config.acknowledgementLatencyNs ≠ 0) (c : ExchangeCall)
    {fill : PaperFill} (h : fill ∈ (s.call c).fills) :
    fill ∈ s.fills ∨
      ∃ event, c = .onMarketEvent event ∧ s.accepts event ∧ FilledBy s.orders event fill := by
  cases c with
  | onMarketEvent event =>
    by_cases haccepts : s.accepts event
    · exact ((handling_onMarketEvent haccepts).fills fill h).imp_right fun hby =>
        ⟨event, rfl, haccepts, hby⟩
    · simp only [call, onMarketEvent, if_neg haccepts] at h
      exact .inl h
  | submit request decisionTimeNs =>
    left
    rcases submit_cases s request decisionTimeNs with he | ⟨market, _, he⟩
    · rwa [call, he] at h
    · rwa [call, he, store_eq, if_neg hlatency] at h
  | cancel clientOrderId requestTimeNs =>
    left
    rcases cancel_cases s clientOrderId requestTimeNs with he | ⟨_, _, _, _, _, _, _, he⟩ <;>
      rwa [call, he] at h

end Transitions

section Submitted
variable {config : PaperExchangeConfig} {before : List ExchangeCall} {request : OrderRequest}
  {decisionTimeNs : Int64} {market : MarketEvent}

theorem submitted_active (h : (run config before).Admitted request market decisionTimeNs)
    (mid : List ExchangeCall) :
    ∃ order, (run config (before ++ .submit request decisionTimeNs :: mid)).orders[
        (run config before).orders.length]? = some order ∧
      order.activeTimeNs = decisionTimeNs + config.acknowledgementLatencyNs := by
  have hvalid := validConfig_of_run h.configValid
  have hstart := (consistent_run hvalid before).append h
  have hplace : ((run config before).append ((run config before).place request
      decisionTimeNs)).orders[(run config before).orders.length]? =
        some ((run config before).place request decisionTimeNs) := by
    rw [PaperExchange.append, getElem?_cell]
  have hchain : ReflTransGen (Transition (fun _ => True) fun _ _ => True)
      ((run config before).append ((run config before).place request decisionTimeNs))
      (run config (before ++ .submit request decisionTimeNs :: mid)) := by
    rw [run_append]
    exact (h.submit_eq ▸ store_moves h).trans
      (foldl_transitions ((run config before).submit request decisionTimeNs).1 mid)
  obtain ⟨order, horder, hadvances⟩ := chain_advances hchain hstart hplace
  refine ⟨order, horder, hadvances.activeTimeNs.trans ?_⟩
  rw [place, (configured_run config before).config_eq]

theorem submitted_market (h : (run config before).Admitted request market decisionTimeNs)
    (mid : List ExchangeCall) :
    ∃ last, (run config (before ++ .submit request decisionTimeNs :: mid)).market = some last ∧
      market.sequence ≤ last.sequence := by
  rw [run_append]
  exact market_sequence_ge (_ :: mid) ⟨market, h.heard, UInt64.le_refl _⟩

/-- A call after the submission made the fill: an event newer than the market of the submission,
accepted once the order was acknowledged. -/
def FilledLater (config : PaperExchangeConfig) (before : List ExchangeCall)
    (request : OrderRequest) (decisionTimeNs : Int64) (after : List ExchangeCall)
    (fill : PaperFill) : Prop :=
  ∃ market mid event tail, (run config before).market = some market ∧
    after = mid ++ .onMarketEvent event :: tail ∧
    (run config (before ++ .submit request decisionTimeNs :: mid)).accepts event ∧
    fill ∉ (run config (before ++ .submit request decisionTimeNs :: mid)).fills ∧
    fill ∈ (run config (before ++ .submit request decisionTimeNs ::
      (mid ++ [.onMarketEvent event]))).fills ∧
    decisionTimeNs.toInt + config.acknowledgementLatencyNs.toInt ≤ event.receiveTimeNs.toInt ∧
    fill.marketSequence = event.sequence ∧ market.sequence < fill.marketSequence

theorem submitted_orderId (hlatency : 0 < config.acknowledgementLatencyNs)
    (h : (run config before).Admitted request market decisionTimeNs) :
    ((run config before).submit request decisionTimeNs).2.orderId =
      (run config before).orders.length + 1 := by
  have hvalid := validConfig_of_run h.configValid
  have hzero : (run config before).config.acknowledgementLatencyNs ≠ 0 := by
    rw [(configured_run config before).config_eq]
    rintro he
    rw [he] at hlatency
    exact absurd hlatency (by decide)
  unfold submit
  simp only [h.unknown, h.configValid, h.heard, h.passes, not_true_eq_false, if_false]
  rw [store, if_neg hzero]
  exact (consistent_run hvalid before).indexed.nextOrderId

theorem fill_acknowledged (hlatency : 0 < config.acknowledgementLatencyNs)
    (hrange : InRange64 (decisionTimeNs.toInt + config.acknowledgementLatencyNs.toInt))
    (h : (run config before).Admitted request market decisionTimeNs) (after : List ExchangeCall)
    {fill : PaperFill}
    (hfill : fill ∈ (run config (before ++ .submit request decisionTimeNs :: after)).fills)
    (hid : fill.orderId = (run config before).orders.length + 1) :
    FilledLater config before request decisionTimeNs after fill := by
  have hvalid := validConfig_of_run h.configValid
  have hzero : config.acknowledgementLatencyNs ≠ 0 := by
    rintro he
    rw [he] at hlatency
    exact absurd hlatency (by decide)
  -- walk back from the end of the run to the call that made the fill
  induction after using List.reverseRecOn with
  | nil =>
    rw [run_concat] at hfill
    rcases call_fills (by rwa [(configured_run config before).config_eq]) _ hfill with
      hold | ⟨event, hcall, _⟩
    · have := (consistent_run hvalid before).orderId_le hold
      omega
    · exact ExchangeCall.noConfusion hcall
  | append_singleton mid c ih =>
    have hrun : run config (before ++ .submit request decisionTimeNs :: (mid ++ [c])) =
        (run config (before ++ .submit request decisionTimeNs :: mid)).call c := by
      rw [← List.cons_append, ← List.append_assoc, run_concat]
    by_cases hearlier : fill ∈ (run config (before ++ .submit request decisionTimeNs :: mid)).fills
    · obtain ⟨heard, first, event, tail, hheard, rfl, hrest⟩ := ih hearlier
      exact ⟨heard, first, event, tail ++ [c], hheard, by simp, hrest⟩
    · have hconfig := configured_run config (before ++ .submit request decisionTimeNs :: mid)
      rw [hrun] at hfill
      obtain ⟨event, rfl, haccepts, hseq, order, horder, hnumber, _, hdue⟩ :=
        (call_fills (by rwa [hconfig.config_eq]) c hfill).resolve_left hearlier
      obtain ⟨found, hfound, hactive⟩ := submitted_active h mid
      obtain ⟨last, hlast, hle⟩ := submitted_market h mid
      -- the number of the filled order leads to the order submitted
      have hindexed := (consistent_run hvalid
        (before ++ .submit request decisionTimeNs :: mid)).indexed
      obtain ⟨j, hj⟩ := List.mem_iff_getElem?.mp horder
      obtain rfl : j = (run config before).orders.length := by
        have := hindexed.orderId_eq hj
        omega
      obtain rfl : found = order := Option.some.inj (hfound.symm.trans hj)
      rw [hactive, Int64.le_iff_toInt_le, int64_toInt_add_of_inRange hrange] at hdue
      refine ⟨market, mid, event, [], h.heard, rfl, haccepts, hearlier, ?_, hdue, hseq, ?_⟩
      · rwa [hrun]
      · rw [hseq]
        exact UInt64.lt_of_le_of_lt hle (haccepts.2.2.1 last hlast)

end Submitted
end PaperExchange
end Astra
