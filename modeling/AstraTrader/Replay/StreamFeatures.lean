import AstraTrader.FeatureWindow
import AstraTrader.Replay.Runs
import AstraTrader.Replay.StreamFormat

/-! What the features make of a stream that `write_stream` has written: the close of a minute comes
back as the midpoint of its event, and the flow imbalance as the imbalance of its quantities. -/

namespace Astra.Replay
open FixedWidth PaperExchange

/-- The builder of the main loop, once it has been updated with `events`. What `update` keeps does
not depend on the position that it is shown. -/
def builderAfter (events : List MarketEvent) : FeatureBuilder :=
  events.foldl (fun builder event => (builder.update event 0).1) (.new 100)

section Events
variable {feedLatencyNs : Int64} {number : ℕ} {item : Minute} {event : MarketEvent}

theorem Minute.ShownBy.midpoint (h : item.ShownBy feedLatencyNs number event)
    (hclose : 2 ≤ item.closeUnits) (hask : item.closeUnits + item.halfSpread < 2 ^ 63) :
    (PaperExchange.midpoint event).toInt = item.closeUnits := by
  obtain ⟨hspread, hbid⟩ := Minute.halfSpread_bounds hclose
  have hbestBid := h.bid
  have hbestAsk := h.ask
  have htwo : (2 : Int64).toInt = 2 := rfl
  have hdifference : (event.bestAskUnits - event.bestBidUnits).toInt = 2 * item.halfSpread := by
    rw [int64_toInt_sub_of_nonneg (by omega) (by omega)]
    omega
  have hhalf : ((event.bestAskUnits - event.bestBidUnits) / 2).toInt = item.halfSpread := by
    rw [Int64.toInt_div, hdifference, htwo, Int.mul_tdiv_cancel_left _ (by norm_num)]
    exact Int.bmod_eq_of_le (m := 2 ^ 64) (by omega) (by omega)
  rw [PaperExchange.midpoint, int64_toInt_add_of_inRange, hbestBid, hhalf]
  · omega
  · rw [hbestBid, hhalf]
    constructor <;> omega

theorem Minute.ShownBy.imbalancePpm (h : item.ShownBy feedLatencyNs number event) :
    (FeatureBuilder.imbalancePpm event).toInt = item.imbalance := by
  obtain ⟨hlo, hhi⟩ := item.imbalance_bounds
  have hbidQuantity := h.bidQuantity
  have haskQuantity := h.askQuantity
  have hmillion : (1000000 : Wide).toInt = 1000000 := Int128.toInt_ofNat (by norm_num)
  have hsum : (wide event.bidQuantityUnits + wide event.askQuantityUnits).toInt = 2000000 := by
    rw [Int128.toInt_add] <;> simp only [toInt_wide, hbidQuantity, haskQuantity]
    · ring
    · constructor <;> omega
  have hdifference : (wide event.bidQuantityUnits - wide event.askQuantityUnits).toInt =
      2 * item.imbalance := by
    rw [Int128.toInt_sub] <;> simp only [toInt_wide, hbidQuantity, haskQuantity]
    · ring
    · constructor <;> omega
  have hproduct : ((wide event.bidQuantityUnits - wide event.askQuantityUnits) * 1000000).toInt =
      2000000 * item.imbalance := by
    rw [Int128.toInt_mul] <;> rw [hdifference, hmillion]
    · ring
    · constructor <;> omega
  have hpositive : 0 < wide event.bidQuantityUnits + wide event.askQuantityUnits := by
    rw [Int128.lt_def, hsum, Int128.toInt_zero]
    norm_num
  unfold FeatureBuilder.imbalancePpm
  simp only [if_pos hpositive]
  rw [toInt_clampToI64, Int128.toInt_div_of_pos (by rw [hsum]; norm_num), hproduct, hsum,
    Int.mul_tdiv_cancel_left _ (by norm_num)]
  omega

end Events

theorem builderAfter_concat (events : List MarketEvent) (event : MarketEvent) :
    builderAfter (events ++ [event]) = (builderAfter events).push (PaperExchange.midpoint event) :=
  List.foldl_concat ..

theorem holds_builderAfter (events : List MarketEvent) :
    FeatureBuilder.Holds 100 (builderAfter events) (events.map PaperExchange.midpoint) := by
  induction events using List.reverseRecOn with
  | nil => exact FeatureBuilder.holds_new 100
  | append_singleton events event ih =>
    rw [builderAfter_concat, List.map_append]
    exact ih.push (by norm_num) _

/-- What the model is shown at an event, after the events before it. -/
def shownAfter (events : List MarketEvent) (event : MarketEvent) (positionUnits : Int64) :
    ModelState := ((builderAfter events).update event positionUnits).2

/-- The stream of `items` comes back as `events`, and the features see the minutes through them. -/
structure Lossless (feedLatencyNs : Int64) (items : List Minute) (events : List MarketEvent) :
    Prop where
  read : readStream feedLatencyNs (writeStream items) = .ok events
  length : events.length = items.length
  accepted : ∀ (k : ℕ) (event : MarketEvent), events[k]? = some event →
    event.sequence.toNat = k + 1 ∧ ∀ exchange : PaperExchange, exchange.configValid = true →
      (∀ heard ∈ exchange.market, heard.sequence.toNat ≤ k) → exchange.accepts event
  midpoint : ∀ (k : ℕ) (event : MarketEvent) (item : Minute), events[k]? = some event →
    items[k]? = some item → (PaperExchange.midpoint event).toInt = item.closeUnits
  imbalance : ∀ (k : ℕ) (event : MarketEvent) (item : Minute) (positionUnits : Int64),
    events[k]? = some event → items[k]? = some item →
    (shownAfter (events.take k) event positionUnits).flowImbalancePpm.toInt = item.imbalance
  early : ∀ (k : ℕ) (event : MarketEvent) (positionUnits : Int64), events[k]? = some event →
    k < 100 → (shownAfter (events.take k) event positionUnits).return100EventsPpm = 0
  returns : ∀ (k : ℕ) (event : MarketEvent) (item past : Minute) (positionUnits : Int64),
    events[k]? = some event → items[k]? = some item → 100 ≤ k → items[k - 100]? = some past →
    (shownAfter (events.take k) event positionUnits).return100EventsPpm.toInt =
      max (-2 ^ 63) (min (2 ^ 63 - 1)
        (((item.closeUnits - past.closeUnits) * 1000000).tdiv past.closeUnits))

/-- The main loop has observed all of `events`. -/
structure Observed (events : List MarketEvent) (state : State) : Prop where
  features : state.features = builderAfter events
  count : state.metrics.events = events.length
  heard : ∀ heard ∈ state.exchange.market, heard.sequence.toNat ≤ events.length

theorem Observed.step {options : Options} {events : List MarketEvent} {state : State}
    {event : MarketEvent} (h : Observed events state) (hwindow : inWindow options event)
    (haccepts : (settlePending state).exchange.accepts event)
    (hsequence : event.sequence.toNat = events.length + 1) :
    Observed (events ++ [event]) (step options state event) := by
  rw [step_of_inWindow _ _ _ hwindow]
  refine ⟨?_, ?_, fun heard hheard => ?_⟩
  · rw [hear_of_accepts _ _ _ haccepts, observe_features, settlePending_features, h.features,
      builderAfter_concat]
  · rw [hear_of_accepts _ _ _ haccepts, observe_events, settlePending_events, h.count,
      List.length_append, List.length_singleton]
  · rw [hear_exchange, call_market_of_accepts haccepts] at hheard
    rw [← Option.some.inj hheard, hsequence, List.length_append, List.length_singleton]

/-- The main loop takes up the features of the stream: no row is ignored, and the builder that
meets an event is the one `shownAfter` asks. -/
theorem Lossless.observed {options : Options} {items : List Minute} {events : List MarketEvent}
    (h : Lossless options.feedLatencyNs items events)
    (hwindow : ∀ event ∈ events, inWindow options event) (k : ℕ) :
    Observed (events.take k) (replay options (events.take k)) := by
  induction k with
  | zero => exact ⟨rfl, rfl, by simp [replay, initial, PaperExchange.new]⟩
  | succ k ih =>
    rcases hevent : events[k]? with _ | event
    · rw [List.getElem?_eq_none_iff] at hevent
      rwa [List.take_of_length_le (hevent.trans (Nat.le_succ k)), ← List.take_of_length_le hevent]
    · obtain ⟨hlt, hget⟩ := List.getElem?_eq_some_iff.mp hevent
      have hlength : (events.take k).length = k := List.length_take_of_le hlt.le
      have hvalid := (traced_replay options (events.take k)).settlePending.configValid
      obtain ⟨hsequence, haccepted⟩ := h.accepted k event hevent
      rw [List.take_succ_eq_append_getElem hlt, hget, replay_concat]
      refine ih.step (hwindow event (List.mem_of_getElem? hevent)) ?_ (by rw [hlength, hsequence])
      refine haccepted _ hvalid fun heard hheard => ?_
      rw [settlePending_market] at hheard
      exact (ih.heard heard hheard).trans_eq hlength

section Stream
variable {feedLatencyNs : Int64} {items : List Minute}

theorem streamEvents_eq_some {k : ℕ} {event : MarketEvent}
    (h : (streamEvents feedLatencyNs 1 items)[k]? = some event) :
    ∃ item, items[k]? = some item ∧ event = item.event feedLatencyNs (k + 1) := by
  rw [streamEvents_getElem?, Option.map_eq_some_iff] at h
  obtain ⟨item, hitem, rfl⟩ := h
  exact ⟨item, hitem, by rw [Nat.add_comm]⟩

theorem length_streamEvents (feedLatencyNs : Int64) (sequence : ℕ) (items : List Minute) :
    (streamEvents feedLatencyNs sequence items).length = items.length := by
  induction items generalizing sequence with
  | nil => rfl
  | cons item rest ih => rw [streamEvents, List.length_cons, List.length_cons, ih]

theorem midpoint_streamEvents (hlatency : 0 ≤ feedLatencyNs.toInt)
    (hitems : ∀ (k : ℕ) (item : Minute), items[k]? = some item →
      item.Emittable feedLatencyNs (k + 1)) {k : ℕ} {item : Minute}
    (hitem : items[k]? = some item) :
    (PaperExchange.midpoint (item.event feedLatencyNs (k + 1))).toInt = item.closeUnits :=
  ((hitems k item hitem).shownBy hlatency).midpoint (hitems k item hitem).close
    (hitems k item hitem).ask

theorem lossless_streamEvents (hlatency : 0 ≤ feedLatencyNs.toInt)
    (hitems : ∀ (k : ℕ) (item : Minute), items[k]? = some item →
      item.Emittable feedLatencyNs (k + 1)) :
    Lossless feedLatencyNs items (streamEvents feedLatencyNs 1 items) := by
  have hholds : ∀ k, FeatureBuilder.Holds 100
      (builderAfter ((streamEvents feedLatencyNs 1 items).take k))
      (((streamEvents feedLatencyNs 1 items).take k).map PaperExchange.midpoint) :=
    fun k => holds_builderAfter _
  have hseen : ∀ {k event}, (streamEvents feedLatencyNs 1 items)[k]? = some event →
      (((streamEvents feedLatencyNs 1 items).take k).map PaperExchange.midpoint).length = k := by
    intro k event hevent
    obtain ⟨hlt, _⟩ := List.getElem?_eq_some_iff.mp hevent
    rw [List.length_map, List.length_take]
    omega
  constructor
  case read =>
    refine readStream_writeStream hlatency fun k item hitem => ?_
    rw [Nat.add_comm]
    exact hitems k item hitem
  case length => exact length_streamEvents _ _ _
  case accepted =>
    intro k event hevent
    obtain ⟨item, hitem, rfl⟩ := streamEvents_eq_some hevent
    have hemittable := hitems k item hitem
    refine ⟨(hemittable.shownBy hlatency).sequence, fun exchange hvalid hheard => ?_⟩
    exact hemittable.accepts hlatency hvalid fun heard hmem => Nat.lt_succ_of_le (hheard heard hmem)
  case midpoint =>
    intro k event item hevent hitem
    obtain ⟨found, hfound, rfl⟩ := streamEvents_eq_some hevent
    obtain rfl := Option.some.inj (hfound.symm.trans hitem)
    exact midpoint_streamEvents hlatency hitems hitem
  case imbalance =>
    intro k event item positionUnits hevent hitem
    obtain ⟨found, hfound, rfl⟩ := streamEvents_eq_some hevent
    obtain rfl := Option.some.inj (hfound.symm.trans hitem)
    exact ((hitems k found hitem).shownBy hlatency).imbalancePpm
  case early =>
    intro k event positionUnits hevent hk
    exact FeatureBuilder.returnPpm_of_not_full (hholds k) (by rw [hseen hevent]; exact hk) _
  case returns =>
    intro k event item past positionUnits hevent hitem hk hpast
    have hlength := hseen hevent
    obtain ⟨found, hfound, rfl⟩ := streamEvents_eq_some hevent
    obtain rfl := Option.some.inj (hfound.symm.trans hitem)
    have hold := midpoint_streamEvents hlatency hitems hpast
    have holdest : (((streamEvents feedLatencyNs 1 items).take k).map PaperExchange.midpoint)[k -
        100]? = some (PaperExchange.midpoint (past.event feedLatencyNs (k - 100 + 1))) := by
      rw [List.getElem?_map, List.getElem?_take_of_lt (by omega), streamEvents_getElem?, hpast,
        Nat.add_comm 1]
      rfl
    have hclose := (hitems _ past hpast).close
    have hreturn := FeatureBuilder.toInt_returnPpm (hholds k) (by norm_num) (by omega)
      (by rw [hlength]; exact holdest) (by omega)
      (PaperExchange.midpoint (found.event feedLatencyNs (k + 1)))
    rwa [hold, midpoint_streamEvents hlatency hitems hitem] at hreturn

end Stream

theorem stream_lossless (feedLatencyNs : Int64) (hlatency : 0 ≤ feedLatencyNs)
    (items : List Minute) (hitems : ∀ (k : ℕ) (item : Minute), items[k]? = some item →
      item.Emittable feedLatencyNs (k + 1)) :
    ∃ events, Lossless feedLatencyNs items events :=
  ⟨_, lossless_streamEvents (Int64.le_iff_toInt_le.mp hlatency) hitems⟩

/-- Two minutes, the second with an odd close and an imbalance that is rounded. -/
theorem stream_lossless_twoMinutes :
    ∃ events, Lossless 1000000
      [{ timestampMs := 60000, closePrice := 94000, buyNotional := 3, sellNotional := 1 },
       { timestampMs := 120000, closePrice := 9400001 / 100, buyNotional := 1
         sellNotional := 2 }] events :=
  stream_lossless 1000000 (by decide) _ fun k item hitem => by
    match k, hitem with
    | 0, hitem =>
      rw [← Option.some.inj hitem]
      decide +kernel
    | 1, hitem =>
      rw [← Option.some.inj hitem]
      decide +kernel

/-- A hundred minutes at the least price and one at 2 ^ 62 units: the return does not fit, and
`clamp_to_i64` keeps the largest value that does. -/
theorem not_forall_returnTruncated : ¬ ∀ (feedLatencyNs : Int64), 0 ≤ feedLatencyNs →
    ∀ items : List Minute, (∀ (k : ℕ) (item : Minute), items[k]? = some item →
      item.Emittable feedLatencyNs (k + 1)) →
    ∀ events, readStream feedLatencyNs (writeStream items) = .ok events →
      ∀ (k : ℕ) (event : MarketEvent) (item past : Minute) (positionUnits : Int64),
        events[k]? = some event → items[k]? = some item → 100 ≤ k → items[k - 100]? = some past →
        (shownAfter (events.take k) event positionUnits).return100EventsPpm.toInt =
          ((item.closeUnits - past.closeUnits) * 1000000).tdiv past.closeUnits := by
  intro h
  have hclamped : ∀ cheap dear : Minute, cheap.closeUnits = 2 → dear.closeUnits = 2 ^ 62 →
      (∀ k < 101, cheap.Emittable 0 (k + 1) ∧ dear.Emittable 0 (k + 1)) → False := by
    intro cheap dear hcheap hdear hemittable
    have hitems : ∀ (k : ℕ) (item : Minute),
        (List.replicate 100 cheap ++ [dear])[k]? = some item → item.Emittable 0 (k + 1) := by
      intro k item hitem
      obtain ⟨hlt, _⟩ := List.getElem?_eq_some_iff.mp hitem
      have hboth := hemittable k (by simpa using hlt)
      rcases List.mem_append.mp (List.mem_of_getElem? hitem) with hmem | hmem
      · rw [List.eq_of_mem_replicate hmem]
        exact hboth.1
      · rw [List.mem_singleton.mp hmem]
        exact hboth.2
    have hread := @readStream_writeStream 0 _ (by decide) fun k item hitem => by
      rw [Nat.add_comm]
      exact hitems k item hitem
    have hreturn := h 0 (by decide) _ hitems _ hread 100 (dear.event 0 101) dear cheap 0
      (by rw [streamEvents_getElem?]; simp) (by simp) (by decide) (by simp)
    rw [hcheap, hdear] at hreturn
    have hbound := Int64.toInt_lt (shownAfter ((streamEvents 0 1
      (List.replicate 100 cheap ++ [dear])).take 100) (dear.event 0 101) 0).return100EventsPpm
    rw [hreturn] at hbound
    exact absurd hbound (by decide)
  refine hclamped
    { timestampMs := 1, closePrice := 1 / 50, buyNotional := 0, sellNotional := 0 }
    { timestampMs := 1, closePrice := 2 ^ 62 / 100, buyNotional := 0, sellNotional := 0 }
    (by decide +kernel) (by decide +kernel) (by decide +kernel)

end Astra.Replay
