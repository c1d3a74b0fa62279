import AstraTrader.Exchange.Redelivery
import AstraTrader.Live.Interleaving

/-! From the feed to the exchange: across tickers, trades, refused messages and reconnects, what the
exchange takes is all that is sound of what the feed hands out, once and in order. -/

namespace Astra
open Process

namespace PublicFeed
open Text

section Decoding
variable {config : BinancePublicFeedConfig} {sequence : UInt64} {receiveTimeNs : Int64}
  {document : JsonObject} {book : Book} {event : MarketEvent} {feed : FeedState}
  {arrival : Arrival}

/-- The number of an event is the one that it was decoded under, and its times are in order. -/
structure Stamped (sequence : UInt64) (event : MarketEvent) : Prop where
  sequence_eq : event.sequence = sequence
  times : event.exchangeTimeNs ≤ event.receiveTimeNs

theorem stamped_clampTime (h : event.sequence = sequence) : Stamped sequence (clampTime event) := by
  unfold clampTime
  split_ifs with htimes
  · exact ⟨h, Int64.le_refl _⟩
  · exact ⟨h, Int64.not_lt.mp htimes⟩

theorem readTrade_sequence {data : JsonObject} {traded : MarketEvent}
    (h : readTrade config data event = .ok traded) : traded.sequence = event.sequence := by
  simp only [readTrade, bind_eq_ok_iff] at h
  obtain ⟨_, _, _, _, h⟩ := h
  rw [← Except.ok.inj h]

theorem stamped_decode (h : (decode config sequence receiveTimeNs document book).1 = .ok event) :
    Stamped sequence event := by
  unfold decode at h
  cases hheader : readHeader document with
  | error error => simp [hheader] at h
  | ok header =>
    rw [hheader] at h
    dsimp only at h
    split_ifs at h
    · obtain ⟨_, _, rfl⟩ := map_eq_ok_iff.mp h
      exact stamped_clampTime rfl
    · obtain ⟨traded, htraded, rfl⟩ := map_eq_ok_iff.mp h
      exact stamped_clampTime ((readTrade_sequence htraded).trans rfl)

theorem stamped_handed (h : Live.handed config feed arrival = some event) :
    Stamped (feed.sequence + 1) event := by
  unfold Live.handed at h
  split at h
  · split at h
    · rename_i hdecoded
      split_ifs at h
      exact Option.some.inj h ▸ stamped_decode hdecoded
    · cases h
  · cases h

theorem feedStep_events (config : BinancePublicFeedConfig) (feed : FeedState) (arrival : Arrival) :
    (feedStep config feed arrival).events =
      feed.events ++ (Live.handed config feed arrival).toList := by
  cases arrival with
  | disconnected error => exact (List.append_nil _).symm
  | message payload receiveTimeNs =>
    rcases payload with _ | payload
    · exact (List.append_nil _).symm
    cases payload with
    | object document =>
      unfold feedStep Live.handed
      dsimp only
      cases (decode config (feed.sequence + 1) receiveTimeNs document feed.book).1 with
      | error error => exact (List.append_nil _).symm
      | ok event =>
        dsimp only
        split_ifs
        · rfl
        · exact (List.append_nil _).symm
    | _ => exact (List.append_nil _).symm

theorem feedStep_sequence (config : BinancePublicFeedConfig) (feed : FeedState)
    (arrival : Arrival) : (feedStep config feed arrival).sequence = feed.sequence + 1 ∨
      (feedStep config feed arrival).sequence = feed.sequence ∧
        Live.handed config feed arrival = none := by
  cases arrival with
  | disconnected error => exact .inr ⟨rfl, rfl⟩
  | message payload receiveTimeNs =>
    rcases payload with _ | payload
    · exact .inr ⟨rfl, rfl⟩
    cases payload with
    | object document =>
      unfold feedStep
      dsimp only
      split <;> exact .inl rfl
    | _ => exact .inr ⟨rfl, rfl⟩

end Decoding
end PublicFeed

namespace Live
open PaperExchange

section Halves
variable (useLaya : Bool) (state : State) (callback : Callback)

/-- What a callback that acts leaves alone, and the calls that it makes. -/
structure Acts (action : Action) : Prop where
  exchange : action.state.exchange =
    (ServiceEvent.sentCalls callback.event action.sent).foldl call state.exchange
  exchangeClock : action.state.exchangeClock = state.exchangeClock
  latestDecision : action.state.latestDecision = state.latestDecision
  callback_eq : action.state.callback = none

theorem act_acts : Acts state callback (act state callback) := by
  unfold act
  dsimp only
  cases hlatest : state.latestDecision with
  | none => exact ⟨rfl, rfl, hlatest.symm, rfl⟩
  | some decision =>
    dsimp only
    split_ifs
    · refine ⟨?_, rfl, hlatest.symm, rfl⟩
      rcases execute_cases callback state.exchange decision with hnone | ⟨_, _, _, _, hsome⟩
      · rw [hnone]
        rfl
      · rw [hsome]
        rfl
    · exact ⟨rfl, rfl, hlatest.symm, rfl⟩

end Halves

namespace Service

/-- The clock, as the events heard give it. -/
def clockAfter (events : List ServiceEvent) : ExchangeClock :=
  (heard events).foldl
    (fun clock event => (clock.observe event.exchangeTimeNs event.receiveTimeNs).1) {}

/-- The loop is what the history says. -/
structure Mirrors (useLaya : Bool) (events : List ServiceEvent) (service : Service) : Prop where
  placed : service.live.callback.isSome = service.stage.busy
  exchange : service.live.exchange = run exchangeConfig (exchangeCalls events)
  exchangeClock : service.live.exchangeClock = clockAfter events
  latest : service.live.latestDecision = (delivered useLaya events).getLast?
  market : service.live.exchange.market = (heard events).getLast?
  callback : ∀ callback ∈ service.live.callback, (heard events).getLast? = some callback.event ∧
    callback.clock = service.live.exchangeClock.state
  ordered : (heard events).Pairwise fun a b => a.sequence < b.sequence

section Steps
variable {answers : ModelState → Outcome → Prop} {useLaya : Bool}
  {config : PublicFeed.BinancePublicFeedConfig} {events : List ServiceEvent}
  {service next : Service} {event : ServiceEvent}

theorem getLast?_append_toList {α : Type*} (as : List α) (a : Option α) :
    (as ++ a.toList).getLast? = a.or as.getLast? := by
  cases a with
  | none => rw [Option.toList_none, List.append_nil, Option.none_or]
  | some a => exact List.getLast?_concat

theorem run_exchangeCalls_concat : run exchangeConfig (exchangeCalls (events ++ [event])) =
    event.exchangeCalls.foldl call (run exchangeConfig (exchangeCalls events)) := by
  rw [exchangeCalls_concat, run_append]

theorem Mirrors.unseen (h : Mirrors useLaya events service) (hheard : event.heard? = none)
    (hdelivered : event.delivered? useLaya = none) (hcalls : event.exchangeCalls = [])
    (hexchange : next.live.exchange = service.live.exchange)
    (hclock : next.live.exchangeClock = service.live.exchangeClock)
    (hlatest : next.live.latestDecision = service.live.latestDecision)
    (hcallback : next.live.callback = service.live.callback)
    (hbusy : next.stage.busy = service.stage.busy) :
    Mirrors useLaya (events ++ [event]) next := by
  have hsame : heard (events ++ [event]) = heard events := by
    rw [heard_concat, hheard, Option.toList_none, List.append_nil]
  exact {
    placed := by rw [hcallback, hbusy, h.placed]
    exchange := by
      rw [run_exchangeCalls_concat, hcalls, hexchange]
      exact h.exchange
    exchangeClock := by rw [clockAfter, hsame, hclock, h.exchangeClock, clockAfter]
    latest := by
      rw [delivered_concat, hdelivered, Option.toList_none, List.append_nil, hlatest, h.latest]
    market := by rw [hsame, hexchange, h.market]
    callback := by
      rw [hsame, hcallback, hclock]
      exact h.callback
    ordered := by rw [hsame]; exact h.ordered }

theorem Mirrors.sequence_le (h : Mirrors useLaya events service) {market : MarketEvent}
    (hmarket : service.live.exchange.market = some market) :
    ∀ heardEvent ∈ heard events, heardEvent.sequence ≤ market.sequence := by
  intro heardEvent hmem
  have hordered := h.ordered
  have hlast := h.market.symm.trans hmarket
  rcases List.eq_nil_or_concat (heard events) with hnil | ⟨earlier, last, hconcat⟩
  · rw [hnil] at hmem
    exact absurd hmem List.not_mem_nil
  · rw [hconcat, List.concat_eq_append] at hmem hordered hlast
    obtain rfl := Option.some.inj (List.getLast?_concat.symm.trans hlast)
    rcases List.mem_append.mp hmem with hearlier | hsame
    · exact UInt64.le_of_lt ((List.pairwise_append.mp hordered).2.2 _ hearlier _
        (List.mem_singleton_self _))
    · rw [List.mem_singleton.mp hsame]
      exact UInt64.le_refl _

theorem Mirrors.step (h : Mirrors useLaya events service)
    (hstep : Step answers useLaya config service event next) :
    Mirrors useLaya (events ++ [event]) next := by
  cases hstep with
  | quiet arrival => exact h.unseen rfl rfl rfl rfl rfl rfl rfl rfl
  | ignored arrival given hstage _ _ hignored =>
    rw [receive_of_not_accepts _ _ _ hignored]
    have hsame : heard (events ++ [.ignored arrival given]) = heard events := by
      rw [heard_concat]
      exact List.append_nil _
    exact {
      placed := h.placed
      exchange := by
        rw [run_exchangeCalls_concat, ← h.exchange]
        rfl
      exchangeClock := by rw [clockAfter, hsame, h.exchangeClock, clockAfter]
      latest := by
        rw [delivered_concat]
        exact h.latest.trans (congrArg _ (List.append_nil _).symm)
      market := by
        rw [hsame, ← h.market]
        rcases call_market service.live.exchange (.onMarketEvent given) with
          hmarket | ⟨other, hcall, haccepts, _⟩
        · exact hmarket
        · exact absurd (ExchangeCall.onMarketEvent.inj hcall ▸ haccepts) hignored
      callback := by
        rw [hsame]
        exact h.callback
      ordered := by rw [hsame]; exact h.ordered }
  | heard arrival given hstage _ _ haccepts =>
    have hreceived := receive_of_accepts useLaya service.live given haccepts
    have hsame : heard (events ++ [.heard arrival given]) = heard events ++ [given] := heard_concat
    have hexchange : (receive useLaya service.live given).exchange =
        service.live.exchange.call (.onMarketEvent given) := hreceived.exchange
    exact {
      placed := by
        rw [hreceived.callback]
        rfl
      exchange := by
        rw [run_exchangeCalls_concat, ← h.exchange]
        exact hexchange
      exchangeClock := by
        rw [clockAfter, hsame, List.foldl_concat, hreceived.exchangeClock, h.exchangeClock,
          clockAfter]
      latest := by
        rw [delivered_concat, getLast?_append_toList, ← h.latest]
        exact hreceived.latestDecision
      market := by
        rw [hsame, List.getLast?_concat, hexchange]
        exact call_market_of_accepts haccepts
      callback := by
        intro callback hcallback
        obtain rfl := Option.some.inj (hreceived.callback.symm.trans hcallback)
        rw [hsame, List.getLast?_concat]
        exact ⟨rfl, rfl⟩
      ordered := by
        rw [hsame, List.pairwise_append]
        refine ⟨h.ordered, List.pairwise_singleton .., fun earlier hearlier last hlast => ?_⟩
        rw [List.mem_singleton.mp hlast]
        obtain ⟨market, hmarket⟩ : ∃ market, service.live.exchange.market = some market := by
          rw [h.market]
          exact Option.isSome_iff_exists.mp
            (List.getLast?_isSome.mpr (List.ne_nil_of_mem hearlier))
        exact UInt64.lt_of_le_of_lt (h.sequence_le hmarket earlier hearlier)
          (haccepts.2.2.1 market hmarket) }
  | took callback hstage hcallback =>
    have hsame : heard (events ++ [.took (take useLaya service.live).2]) = heard events := by
      rw [heard_concat]
      exact List.append_nil _
    exact {
      placed := by
        rw [busy_afterTake]
        show service.live.callback.isSome = true
        rw [hcallback]
        rfl
      exchange := by
        rw [run_exchangeCalls_concat]
        exact h.exchange
      exchangeClock := by
        rw [clockAfter, hsame]
        exact h.exchangeClock
      latest := by
        rw [delivered_concat, ServiceEvent.delivered?, getLast?_append_toList, ← h.latest]
        rfl
      market := by
        rw [hsame]
        exact h.market
      callback := by
        rw [hsame]
        exact h.callback
      ordered := by rw [hsame]; exact h.ordered }
  | decision made hstage => exact h.unseen rfl rfl rfl rfl rfl rfl rfl (by rw [hstage]; rfl)
  | composed callback hstage =>
    exact h.unseen rfl rfl rfl rfl rfl rfl rfl (by rw [hstage]; rfl)
  | published report hstage => exact h.unseen rfl rfl rfl rfl rfl rfl rfl (by rw [hstage]; rfl)
  | acted callback hstage hcallback =>
    have hacts := act_acts service.live callback
    have hsame : heard (events ++ [.acted callback.event (act service.live callback).acted
        (act service.live callback).sent
        (act service.live callback).state.exchange.ledger.state.positionUnits]) =
          heard events := by
      rw [heard_concat]
      exact List.append_nil _
    exact {
      placed := by
        rw [busy_afterAct, hacts.callback_eq]
        rfl
      exchange := by
        rw [run_exchangeCalls_concat, ← h.exchange]
        exact hacts.exchange
      exchangeClock := by
        rw [clockAfter, hsame, hacts.exchangeClock]
        exact h.exchangeClock
      latest := by
        rw [delivered_concat, hacts.latestDecision]
        exact h.latest.trans (congrArg _ (List.append_nil _).symm)
      market := by
        rw [hsame, ← h.market, hacts.exchange]
        cases (act service.live callback).sent with
        | none => rfl
        | some order =>
          rcases call_market service.live.exchange
            (.submit order.1 callback.event.receiveTimeNs) with hmarket | ⟨other, hcall, _⟩
          · exact hmarket
          · cases hcall
      callback := fun other hother => by
        rw [hacts.callback_eq] at hother
        cases hother
      ordered := by rw [hsame]; exact h.ordered }
  | order record hstage => exact h.unseen rfl rfl rfl rfl rfl rfl rfl (by rw [hstage]; rfl)
  | returned => exact h.unseen rfl rfl rfl rfl rfl rfl rfl rfl
  | worked workerEvent worker => exact h.unseen rfl rfl rfl rfl rfl rfl rfl rfl
  | wrote writerEvent audit => exact h.unseen rfl rfl rfl rfl rfl rfl rfl rfl
  | served request => exact h.unseen rfl rfl rfl rfl rfl rfl rfl rfl

end Steps

theorem mirrors_initial (useLaya : Bool) : Mirrors useLaya [] {} :=
  ⟨rfl, rfl, rfl, rfl, rfl, by simp [initial], List.Pairwise.nil⟩

theorem mirrors_trace {answers : ModelState → Outcome → Prop} {useLaya : Bool}
    {config : PublicFeed.BinancePublicFeedConfig} {events : List ServiceEvent} {service : Service}
    (htrace : Trace (Step answers useLaya config) {} events service) :
    Mirrors useLaya events service :=
  htrace.invariant (mirrors_initial useLaya) fun h hstep => h.step hstep

def arrivals (events : List ServiceEvent) : List PublicFeed.Arrival :=
  events.filterMap ServiceEvent.arrival?

/-- An event with a time and a book. -/
def Sound (event : MarketEvent) : Prop :=
  0 < event.exchangeTimeNs ∧ 0 < event.bestBidUnits ∧ event.bestBidUnits ≤ event.bestAskUnits

instance : DecidablePred Sound := fun _ => inferInstanceAs (Decidable (_ ∧ _))

/-- The feed is the one of the arrivals, and the exchange has heard what was sound of it. The
numbers of the events are those of the messages until they run over. -/
structure Hears (config : PublicFeed.BinancePublicFeedConfig) (events : List ServiceEvent)
    (service : Service) : Prop where
  feed : service.feed = PublicFeed.run config (arrivals events)
  counted : service.feed.sequence.toNat ≤ (arrivals events).length
  heard : (arrivals events).length < 2 ^ 64 →
    (∀ event ∈ heard events, event.sequence ≤ service.feed.sequence) ∧
      heard events = service.feed.events.filter Sound

section Hearing
variable {answers : ModelState → Outcome → Prop} {useLaya : Bool}
  {config : PublicFeed.BinancePublicFeedConfig} {events : List ServiceEvent}
  {service next : Service} {event : ServiceEvent} {given : MarketEvent}

theorem toNat_add_one_le (n : UInt64) : (n + 1).toNat ≤ n.toNat + 1 := by
  rw [UInt64.toNat_add]
  exact Nat.mod_le _ _

theorem lt_add_one {n : UInt64} (h : n.toNat + 1 < 2 ^ 64) : n < n + 1 := by
  rw [UInt64.lt_iff_toNat_lt, UInt64.toNat_add, UInt64.toNat_one, Nat.mod_eq_of_lt h]
  exact Nat.lt_succ_self _

theorem accepts_iff_sound (hmirrors : Mirrors useLaya events service)
    (hheard : ∀ event ∈ heard events, event.sequence ≤ service.feed.sequence)
    (hcount : service.feed.sequence.toNat + 1 < 2 ^ 64)
    (hstamped : PublicFeed.Stamped (service.feed.sequence + 1) given) :
    service.live.exchange.accepts given ↔ Sound given := by
  have hvalid : service.live.exchange.configValid = true := by
    rw [hmirrors.exchange, (configured_run exchangeConfig _).configValid_eq]
    decide
  have hnew := lt_add_one hcount
  constructor
  · rintro ⟨_, _, _, htime, _, hbid, hask⟩
    exact ⟨htime, hbid, hask⟩
  · rintro ⟨htime, hbid, hask⟩
    refine ⟨hvalid, ?_, fun market hmarket => ?_, htime, hstamped.times, hbid, hask⟩
    · rw [hstamped.sequence_eq]
      intro hzero
      rw [hzero] at hnew
      exact UInt64.not_lt_zero hnew
    · rw [hstamped.sequence_eq]
      apply UInt64.lt_of_le_of_lt _ hnew
      exact hheard market (List.mem_of_getLast? (hmirrors.market.symm.trans hmarket))

theorem Hears.unheard (h : Hears config events service) (harrival : event.arrival? = none)
    (hheard : event.heard? = none) (hfeed : next.feed = service.feed) :
    Hears config (events ++ [event]) next := by
  have harrivals : arrivals (events ++ [event]) = arrivals events := by
    rw [arrivals, filterMap_concat, harrival, Option.toList_none, List.append_nil, arrivals]
  have hsame : Service.heard (events ++ [event]) = Service.heard events := by
    rw [heard_concat, hheard, Option.toList_none, List.append_nil]
  exact ⟨by rw [hfeed, harrivals, h.feed], by rw [hfeed, harrivals]; exact h.counted,
    by rw [hfeed, harrivals, hsame]; exact h.heard⟩

theorem Hears.arrive (h : Hears config events service) {arrival : PublicFeed.Arrival}
    (harrival : event.arrival? = some arrival)
    (hfeed : next.feed = PublicFeed.feedStep config service.feed arrival)
    (hheard : (arrivals events).length + 1 < 2 ^ 64 → event.heard?.toList =
      (handed config service.feed arrival).toList.filter Sound) :
    Hears config (events ++ [event]) next := by
  have harrivals : arrivals (events ++ [event]) = arrivals events ++ [arrival] := by
    rw [arrivals, filterMap_concat, harrival, Option.toList_some, arrivals]
  have hlength : (arrivals (events ++ [event])).length = (arrivals events).length + 1 := by
    rw [harrivals, List.length_append, List.length_singleton]
  refine ⟨?_, ?_, fun hfew => ?_⟩
  · rw [hfeed, harrivals, h.feed]
    exact (List.foldl_concat ..).symm
  · rw [hlength, hfeed]
    rcases PublicFeed.feedStep_sequence config service.feed arrival with hone | ⟨hsame, _⟩
    · rw [hone]
      exact (toNat_add_one_le _).trans (Nat.succ_le_succ h.counted)
    · rw [hsame]
      exact h.counted.trans (Nat.le_succ _)
  · rw [hlength] at hfew
    obtain ⟨hbelow, hall⟩ := h.heard (Nat.lt_of_succ_lt hfew)
    have hcount : service.feed.sequence.toNat + 1 < 2 ^ 64 :=
      lt_of_le_of_lt (Nat.succ_le_succ h.counted) hfew
    have hgrows : service.feed.sequence ≤ next.feed.sequence := by
      rw [hfeed]
      rcases PublicFeed.feedStep_sequence config service.feed arrival with hone | ⟨hsame, _⟩
      · rw [hone]
        exact UInt64.le_of_lt (lt_add_one hcount)
      · rw [hsame]
        exact UInt64.le_refl _
    rw [heard_concat, hheard hfew, hfeed, PublicFeed.feedStep_events, List.filter_append, ← hall]
    refine ⟨fun heardEvent hmem => ?_, rfl⟩
    rcases List.mem_append.mp hmem with hold | hnew
    · rw [← hfeed]
      exact UInt64.le_trans (hbelow heardEvent hold) hgrows
    · have hhanded := Option.mem_toList.mp (List.mem_of_mem_filter hnew)
      rw [(PublicFeed.stamped_handed hhanded).sequence_eq]
      rcases PublicFeed.feedStep_sequence config service.feed arrival with hone | ⟨_, hnone⟩
      · rw [hone]
        exact UInt64.le_refl _
      · rw [hnone] at hhanded
        cases hhanded

theorem Hears.step (h : Hears config events service) (hmirrors : Mirrors useLaya events service)
    (hstep : Step answers useLaya config service event next) :
    Hears config (events ++ [event]) next := by
  have haccepts : ∀ {arrival given}, (arrivals events).length + 1 < 2 ^ 64 →
      handed config service.feed arrival = some given →
        (service.live.exchange.accepts given ↔ Sound given) := fun hfew hgiven =>
    accepts_iff_sound hmirrors (h.heard (Nat.lt_of_succ_lt hfew)).1
      (lt_of_le_of_lt (Nat.succ_le_succ h.counted) hfew) (PublicFeed.stamped_handed hgiven)
  cases hstep with
  | quiet arrival _ _ hnone =>
    refine h.arrive rfl rfl fun _ => ?_
    rw [hnone]
    rfl
  | ignored arrival given _ _ hgiven hignored =>
    refine h.arrive rfl rfl fun hfew => ?_
    have hsound := (haccepts hfew hgiven).not.mp hignored
    rw [hgiven, Option.toList_some, List.filter_singleton, decide_eq_false hsound]
    rfl
  | heard arrival given _ _ hgiven hheard =>
    refine h.arrive rfl rfl fun hfew => ?_
    have hsound := (haccepts hfew hgiven).mp hheard
    rw [hgiven, Option.toList_some, List.filter_singleton, decide_eq_true hsound]
    rfl
  | _ => exact h.unheard rfl rfl rfl

end Hearing

/-- The heard events and the orders sent, without the events that the exchange passes over. -/
def heardCalls (events : List ServiceEvent) : List ExchangeCall :=
  events.flatMap fun
    | .heard _ event => [.onMarketEvent event]
    | .acted event _ sent _ => ServiceEvent.sentCalls event sent
    | _ => []

theorem redelivers_concat {calls noisy : List ExchangeCall}
    (h : Redelivers exchangeConfig calls noisy) (more : List ExchangeCall) :
    Redelivers exchangeConfig (calls ++ more) (noisy ++ more) := by
  induction more using List.reverseRecOn with
  | nil => simpa using h
  | append_singleton more c ih =>
    rw [← List.append_assoc, ← List.append_assoc]
    exact .call c ih

/-- An event that is passed over fails a check of the exchange that has not heard the others. -/
theorem redelivers_trace {answers : ModelState → Outcome → Prop} {useLaya : Bool}
    {config : PublicFeed.BinancePublicFeedConfig} {events : List ServiceEvent} {service : Service}
    (htrace : Trace (Step answers useLaya config) {} events service) :
    Mirrors useLaya events service ∧
      Redelivers exchangeConfig (heardCalls events) (exchangeCalls events) := by
  apply htrace.invariant ⟨mirrors_initial useLaya, .nil⟩
  rintro service event next events ⟨hmirrors, hcalls⟩ hstep
  refine ⟨hmirrors.step hstep, ?_⟩
  rw [exchangeCalls_concat, heardCalls, List.flatMap_append, List.flatMap_singleton]
  cases hstep with
  | ignored arrival given _ _ _ hignored =>
    obtain ⟨n, hrun⟩ := hcalls.run_eq
    rw [hmirrors.exchange, hrun] at hignored
    rw [List.append_nil]
    exact .event given hcalls (.inr (mt (accepts_withIgnored ..).mpr hignored))
  | _ => exact redelivers_concat hcalls _

/-- The exchange takes what is sound of what the feed hands out, in order and under new numbers; of
the rest it keeps a count only. -/
theorem trace_hearsFeed (answers : ModelState → Outcome → Prop) (useLaya : Bool)
    (config : PublicFeed.BinancePublicFeedConfig) (events : List ServiceEvent) (service : Service)
    (htrace : Trace (Step answers useLaya config) {} events service)
    (hfew : (arrivals events).length < 2 ^ 64) :
    heard events = (PublicFeed.run config (arrivals events)).events.filter Sound ∧
      (heard events).Pairwise (fun a b => a.sequence < b.sequence) ∧
      ∃ ignoredMarketEvents, service.live.exchange =
        (run exchangeConfig (heardCalls events)).withIgnored ignoredMarketEvents := by
  have hinitial : Mirrors useLaya [] {} ∧ Hears config [] {} :=
    ⟨mirrors_initial useLaya, rfl, Nat.le_refl _, fun _ => ⟨by simp [heard], rfl⟩⟩
  have hboth : Mirrors useLaya events service ∧ Hears config events service := by
    apply htrace.invariant hinitial
    exact fun h hstep => ⟨h.1.step hstep, h.2.step h.1 hstep⟩
  obtain ⟨ignoredMarketEvents, hrun⟩ := (redelivers_trace htrace).2.run_eq
  rw [← hboth.2.feed]
  exact ⟨(hboth.2.heard hfew).2, hboth.1.ordered, ignoredMarketEvents,
    hboth.1.exchange.trans hrun⟩

/-- A trade before the first book is handed out and not taken, nor is a message that is refused;
the numbers go on across a reconnect. -/
theorem trace_hearsFeed_reconnect :
    let ticker : Text.JsonObject := [("e", .string "bookTicker".toList), ("E", .int64 1),
      ("b", .string "100.00".toList), ("a", .string "100.01".toList),
      ("B", .string "3".toList), ("A", .string "2.5".toList)]
    let trade : Text.JsonObject := [("e", .string "aggTrade".toList), ("E", .int64 2),
      ("p", .string "100.01".toList), ("q", .string "1".toList), ("m", .bool true)]
    let run := [.message (some (.object trade)) 1000000, .message (some (.object ticker)) 2000000,
      .message (some (.object [])) 3000000, .disconnected "end of stream",
      .message (some (.object trade)) 4000000].foldl (turn false {}) ([], {})
    (heard run.1).map MarketEvent.sequence = [2, 4] ∧ (heardCalls run.1).length = 2 ∧
      heard run.1 = (PublicFeed.run {} (arrivals run.1)).events.filter Sound ∧
      ∃ ignoredMarketEvents, run.2.live.exchange =
        (PaperExchange.run exchangeConfig (heardCalls run.1)).withIgnored
          ignoredMarketEvents := by
  intro ticker trade run
  have hhears := trace_hearsFeed (fun _ _ => True) false {} run.1 run.2
    (trace_turns _ false {} _) (by decide +kernel)
  exact ⟨by decide +kernel, by decide +kernel, hhears.1, hhears.2.2⟩

end Service
end Live
end Astra
