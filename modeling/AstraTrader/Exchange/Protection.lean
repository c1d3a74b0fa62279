import AstraTrader.Exchange.Reconciliation

/-! Price protection: the terms on which every fill of a run was made, and the accepted event
that made it. -/

namespace Astra
open FixedWidth

/-- A price as good as `bound`, or better, for that side. -/
def within (side : Side) (priceUnits bound : Int64) : Prop :=
  match side with
  | .buy => priceUnits ≤ bound
  | .sell => bound ≤ priceUnits

/-- The terms of a fill of an order for `request` on `event`. -/
structure Protected (config : PaperExchangeConfig) (request : OrderRequest) (event : MarketEvent)
    (fill : PaperFill) : Prop where
  positive : 0 < fill.priceUnits
  limited : request.type ≠ .market → ∃ limit, request.limitPriceUnits = some limit ∧
    within request.side fill.priceUnits limit
  postOnly : request.type = .postOnly →
    fill.maker = true ∧ request.limitPriceUnits = some fill.priceUnits
  market : request.type = .market → fill.maker = false ∧
    within request.side (event.touch request.side) fill.priceUnits
  maker : fill.maker = true → ∃ limit tradePriceUnits aggressorSide,
    request.limitPriceUnits = some limit ∧ event.tradePriceUnits = some tradePriceUnits ∧
      event.aggressorSide = some aggressorSide ∧ aggressorSide ≠ request.side ∧
      within request.side tradePriceUnits limit
  fee : ∃ notional,
    calculateNotional fill.priceUnits fill.quantityUnits config.ledger = some notional ∧
      feeFor notional (if fill.maker then config.makerFeePpm else config.takerFeePpm) =
        some fill.feeUnits

section Prices

theorem toInt_wide32 (value : UInt32) : (wide32 value).toInt = value.toNat := by
  have hlt := value.toNat_lt
  exact Int128.toInt_ofInt ⟨by omega, by omega⟩

theorem mul_ppm_bounds {units : Int64} (h : 0 ≤ units.toInt) (ppm : UInt32) :
    0 ≤ units.toInt * ppm.toNat ∧ units.toInt * ppm.toNat ≤ 2 ^ 95 := by
  have hunits := units.toInt_lt
  have hppm : ((ppm.toNat : ℕ) : ℤ) < 2 ^ 32 := by exact_mod_cast ppm.toNat_lt
  constructor
  · positivity
  · nlinarith

theorem toInt_roundedParts {units : Int64} (h : 0 ≤ units.toInt) (ppm : UInt32) :
    (roundedParts units ppm).toInt = (units.toInt * ppm.toNat + 999999) / 1000000 := by
  obtain ⟨hlo, hhi⟩ := mul_ppm_bounds h ppm
  have hproduct : (wide units * wide32 ppm).toInt = units.toInt * ppm.toNat := by
    rw [Int128.toInt_mul, toInt_wide, toInt_wide32]
    rw [toInt_wide, toInt_wide32]
    exact ⟨by omega, by omega⟩
  have hmillion : (wide32 partsPerMillion).toInt = 1000000 := by decide +kernel
  unfold roundedParts
  dsimp only
  split_ifs with h0
  · rw [← hproduct, h0, Int128.toInt_zero]
    norm_num
  · have hpos : 1 ≤ units.toInt * ppm.toNat := by
      by_contra hlt
      refine h0 (Int128.ext ?_)
      rw [hproduct, Int128.toInt_zero]
      omega
    have hpred : (wide units * wide32 ppm - 1).toInt = units.toInt * ppm.toNat - 1 := by
      rw [Int128.toInt_sub, hproduct, Int128.toInt_one]
      rw [hproduct, Int128.toInt_one]
      exact ⟨by omega, by omega⟩
    have hquotient : ((wide units * wide32 ppm - 1) / wide32 partsPerMillion).toInt =
        (units.toInt * ppm.toNat - 1) / 1000000 := by
      rw [Int128.toInt_div_of_pos (by rw [hmillion]; norm_num), hpred, hmillion,
        Int.tdiv_eq_ediv_of_nonneg (by omega)]
    rw [Int128.toInt_add, hquotient, Int128.toInt_one]
    · omega
    · rw [hquotient, Int128.toInt_one]
      exact ⟨by omega, by omega⟩

theorem roundedParts_bounds {units : Int64} (h : 0 ≤ units.toInt) (ppm : UInt32) :
    0 ≤ (roundedParts units ppm).toInt ∧ (roundedParts units ppm).toInt ≤ 2 ^ 95 := by
  obtain ⟨hlo, hhi⟩ := mul_ppm_bounds h ppm
  rw [toInt_roundedParts h]
  omega

theorem positive_narrow_eq_some {value : Wide} {price : Int64} :
    (if value ≤ 0 then none else narrow value) = some price ↔
      0 < price.toInt ∧ price.toInt = value.toInt := by
  split_ifs with hvalue <;> rw [Int128.le_def, Int128.toInt_zero] at hvalue
  · refine iff_of_false (by simp) ?_
    rintro ⟨hprice, he⟩
    omega
  · rw [narrow_eq_some]
    omega

theorem slippedPrice_eq_some_iff {priceUnits price : Int64} {side : Side} {slippagePpm : UInt32}
    (hpos : 0 < priceUnits.toInt) : slippedPrice priceUnits side slippagePpm = some price ↔
      0 < price.toInt ∧ price.toInt = priceUnits.toInt +
        side.sign * ((priceUnits.toInt * slippagePpm.toNat + 999999) / 1000000) := by
  have hlt := priceUnits.toInt_lt
  obtain ⟨hlo, hhi⟩ := roundedParts_bounds hpos.le slippagePpm
  rw [← toInt_roundedParts hpos.le]
  refine positive_narrow_eq_some.trans ?_
  cases side with
  | buy =>
    dsimp only
    rw [Int128.toInt_add (by rw [toInt_wide]; exact ⟨by omega, by omega⟩), toInt_wide, Side.sign,
      one_mul]
  | sell =>
    dsimp only
    rw [Int128.toInt_sub (by rw [toInt_wide]; exact ⟨by omega, by omega⟩), toInt_wide, Side.sign,
      neg_one_mul, ← sub_eq_add_neg]

theorem slip_of_sell_eq_none {priceUnits : Int64} {slippagePpm : UInt32}
    (hpos : 0 < priceUnits.toInt) (h : slippedPrice priceUnits .sell slippagePpm = none) :
    priceUnits.toInt - (priceUnits.toInt * slippagePpm.toNat + 999999) / 1000000 ≤ 0 := by
  by_contra hlt
  have hunits := priceUnits.toInt_lt
  have hparts : 0 ≤ (priceUnits.toInt * slippagePpm.toNat + 999999) / 1000000 := by positivity
  have hexact : (Int64.ofInt (priceUnits.toInt -
      (priceUnits.toInt * slippagePpm.toNat + 999999) / 1000000)).toInt = _ :=
    Int64.toInt_ofInt_of_le (by omega) (by omega)
  have hsome : slippedPrice priceUnits .sell slippagePpm = some (Int64.ofInt (priceUnits.toInt -
      (priceUnits.toInt * slippagePpm.toNat + 999999) / 1000000)) :=
    (slippedPrice_eq_some_iff hpos).mpr
      ⟨by rw [hexact]; omega, by rw [hexact, Side.sign]; ring⟩
  exact absurd (hsome.symm.trans h) (by simp)

theorem slippedPrice_eq_some {priceUnits price : Int64} {side : Side} {slippagePpm : UInt32}
    (hpos : 0 < priceUnits.toInt) (h : slippedPrice priceUnits side slippagePpm = some price) :
    0 < price.toInt ∧ within side priceUnits price := by
  obtain ⟨hprice, hexact⟩ := (slippedPrice_eq_some_iff hpos).mp h
  have hparts : 0 ≤ (priceUnits.toInt * slippagePpm.toNat + 999999) / 1000000 := by positivity
  refine ⟨hprice, ?_⟩
  cases side with
  | buy =>
    show priceUnits ≤ price
    rw [Side.sign] at hexact
    rw [Int64.le_iff_toInt_le]
    omega
  | sell =>
    show price ≤ priceUnits
    rw [Side.sign] at hexact
    rw [Int64.le_iff_toInt_le]
    omega

theorem limitPriceUnits_of_limit_pos {order : PaperOrder} (h : 0 < order.limit) :
    order.request.limitPriceUnits = some order.limit := by
  unfold PaperOrder.limit at h ⊢
  cases hlimit : order.request.limitPriceUnits with
  | some limit => rfl
  | none =>
    rw [hlimit] at h
    exact absurd h (by decide)

end Prices

section Moves
variable {config : PaperExchangeConfig} {event : MarketEvent} {order : PaperOrder}
  {price : Int64} {maker : Bool}

structure MarketEvent.Quoted (event : MarketEvent) : Prop where
  bid : 0 < event.bestBidUnits
  ask : 0 < event.bestAskUnits

theorem MarketEvent.Quoted.touch (h : event.Quoted) (side : Side) : 0 < event.touch side := by
  cases side with
  | buy => exact h.ask
  | sell => exact h.bid

theorem crosses_iff : order.crosses event = true ↔
    within order.request.side (event.touch order.request.side) order.limit := by
  unfold PaperOrder.crosses within MarketEvent.touch
  cases order.request.side <;> simp

theorem Priced.protected (h : Priced config event order price maker) (hquoted : event.Quoted)
    (hlimit : order.request.type ≠ .market → 0 < order.limit) {fill : PaperFill}
    (hprice : fill.priceUnits = price) (hmaker : fill.maker = maker)
    (hfee : Executions.fillFee config price fill.quantityUnits maker = some fill.feeUnits) :
    Protected config order.request event fill := by
  have hcharged : ∃ notional,
      calculateNotional fill.priceUnits fill.quantityUnits config.ledger = some notional ∧
        feeFor notional (if fill.maker then config.makerFeePpm else config.takerFeePpm) =
          some fill.feeUnits := by
    rw [hprice, hmaker]
    exact Option.bind_eq_some_iff.mp hfee
  cases h with
  | market hmarket hslip =>
    have htouch := (int64_pos_iff _).mp (hquoted.touch order.request.side)
    obtain ⟨hpos, hworse⟩ := slippedPrice_eq_some htouch hslip
    exact {
      positive := by rwa [hprice, int64_pos_iff]
      limited := fun ht => absurd hmarket ht
      postOnly := fun ht => by simp [hmarket] at ht
      market := fun _ => ⟨hmaker, by rwa [hprice]⟩
      maker := fun hm => by simp [hmaker] at hm
      fee := hcharged }
  | taker htype hcross =>
    have hlimited := limitPriceUnits_of_limit_pos (hlimit (by simp [htype]))
    exact {
      positive := by
        rw [hprice]
        exact hquoted.touch _
      limited := fun _ => ⟨_, hlimited, by rwa [hprice, ← crosses_iff]⟩
      postOnly := fun ht => by simp [htype] at ht
      market := fun ht => by simp [htype] at ht
      maker := fun hm => by simp [hmaker] at hm
      fee := hcharged }
  | maker htrade hside hmeets =>
    obtain ⟨_, _, htype, hopposite, hthrough⟩ := hmeets
    have hlimited := limitPriceUnits_of_limit_pos (hlimit htype)
    exact {
      positive := by
        rw [hprice]
        exact hlimit htype
      limited := fun _ => ⟨_, hlimited, by
        rw [hprice]
        unfold within
        cases order.request.side <;> exact Int64.le_refl _⟩
      postOnly := fun _ => ⟨hmaker, by rw [hprice, hlimited]⟩
      market := fun ht => absurd ht htype
      maker := fun _ => ⟨_, _, _, hlimited, htrade, hside, hopposite, hthrough⟩
      fee := hcharged }

end Moves

namespace PaperExchange
open Process

/-- The event is one of the calls, and the exchange took it at that point of the run. -/
def RunAccepts (config : PaperExchangeConfig) (calls : List ExchangeCall) (event : MarketEvent) :
    Prop :=
  ∃ before after, calls = before ++ .onMarketEvent event :: after ∧
    (run config before).accepts event

/-- Terms of a fill whose event is one of `heard`. -/
def ProtectedBy (config : PaperExchangeConfig) (heard : MarketEvent → Prop) (orderId : ℕ)
    (request : OrderRequest) (fill : PaperFill) : Prop :=
  orderId = fill.orderId ∧ ∃ event, heard event ∧ fill.marketSequence = event.sequence ∧
    Protected config request event fill

/-- The invariant behind price protection: of the market, of the stored orders and of the fills. -/
structure Guarded (config : PaperExchangeConfig) (heard : MarketEvent → Prop)
    (exchange : PaperExchange) : Prop where
  config_eq : exchange.config = config
  market : ∀ event, exchange.market = some event → heard event ∧ event.Quoted
  priced : ∀ order ∈ exchange.orders, order.request.type ≠ .market → 0 < order.limit
  fills : Attributed (ProtectedBy config heard) exchange.fills exchange.orders

section Transitions
variable {heard : MarketEvent → Prop} {allow : PaperExchange → OrderRequest → Prop}
  {config : PaperExchangeConfig} {s t : PaperExchange} {event : MarketEvent}

theorem quoted_of_accepts (h : s.accepts event) : event.Quoted := by
  obtain ⟨_, _, _, _, _, hbid, hask⟩ := h
  refine ⟨hbid, ?_⟩
  rw [int64_pos_iff] at hbid ⊢
  rw [Int64.le_iff_toInt_le] at hask
  omega

theorem protectedBy_of_move {before after : Executions × PaperOrder}
    (hheard : heard event) (hquoted : event.Quoted)
    (hlimit : before.2.request.type ≠ .market → 0 < before.2.limit)
    (hmove : Move config event before after) {fill : PaperFill} (h : fill ∈ after.1.fills) :
    fill ∈ before.1.fills ∨
      ProtectedBy config heard before.2.orderId before.2.request fill := by
  cases hmove with
  | reject => exact .inl h
  | rest => exact .inl h
  | queue => exact .inl h
  | cancel => exact .inl h
  | execute _ _ _ _ _ _ _ _ _ _ _ _ _ hpriced hfee =>
    rcases List.mem_append.mp h with h | h
    · exact .inl h
    · rw [List.mem_singleton.mp h]
      exact .inr ⟨rfl, event, hheard, rfl, hpriced.protected hquoted hlimit rfl rfl hfee⟩

theorem Guarded.move (h : Guarded config heard s) {pre post : List PaperOrder}
    {order moved : PaperOrder} {books : Executions} (hmarket : s.market = some event)
    (hsplit : s.orders = pre ++ order :: post)
    (hmove : Move s.config event (s.toExecutions, order) (books, moved)) :
    Guarded config heard { s with toExecutions := books, orders := pre ++ moved :: post } := by
  obtain ⟨hid, hrequest, _, _⟩ := hmove.order_eq
  obtain ⟨hheard, hquoted⟩ := h.market event hmarket
  have hlimit : order.request.type ≠ .market → 0 < order.limit :=
    h.priced order (by simp [hsplit])
  rw [h.config_eq] at hmove
  refine ⟨h.config_eq, h.market, forall_mem_replace (hsplit ▸ h.priced) ?_,
    (hsplit ▸ h.fills).replace hid hrequest fun _ =>
      protectedBy_of_move hheard hquoted hlimit hmove⟩
  rw [PaperOrder.limit, hrequest]
  exact hlimit

theorem Guarded.transition (h : Guarded config heard s) (hstep : Transition heard allow s t) :
    Guarded config heard t := by
  cases hstep with
  | observe event haccepts hheard =>
    refine ⟨h.config_eq, fun other hother => ?_, h.priced, h.fills⟩
    rw [← Option.some.inj hother]
    exact ⟨hheard, quoted_of_accepts haccepts⟩
  | ignore => exact ⟨h.config_eq, h.market, h.priced, h.fills⟩
  | mark priceUnits => exact ⟨h.config_eq, h.market, h.priced, h.fills⟩
  | move event pre post order moved books hmarket hsplit hmove =>
    exact h.move hmarket hsplit hmove
  | append request market decisionTimeNs hadmitted =>
    refine ⟨h.config_eq, h.market, List.forall_mem_append.mpr ⟨h.priced, ?_⟩, h.fills.append _⟩
    exact List.forall_mem_singleton.mpr (passes_of_refusal_eq_none hadmitted.passes).priced
  | requestCancel pre post order due hsplit =>
    refine ⟨h.config_eq, h.market, forall_mem_replace (hsplit ▸ h.priced) ?_,
      (hsplit ▸ h.fills).replace rfl rfl fun _ => .inl⟩
    exact h.priced order (by simp [hsplit])

end Transitions

section Sequence
variable {exchange : PaperExchange}

theorem call_market (exchange : PaperExchange) (c : ExchangeCall) :
    (exchange.call c).market = exchange.market ∨
      ∃ event, c = .onMarketEvent event ∧ exchange.accepts event ∧
        (exchange.call c).market = some event := by
  cases c with
  | onMarketEvent event =>
    by_cases haccepts : exchange.accepts event
    · refine .inr ⟨event, rfl, haccepts, ?_⟩
      simp only [call, onMarketEvent, if_pos haccepts]
      exact (matchTrade_market _ _).trans (activateOrders_market _ _)
    · left
      simp only [call, onMarketEvent, if_neg haccepts]
  | submit request decisionTimeNs =>
    left
    rcases submit_cases exchange request decisionTimeNs with he | ⟨market, _, he⟩
    · rw [call, he]
    · rw [call, he, store_eq]
      rfl
  | cancel clientOrderId requestTimeNs =>
    left
    rcases cancel_cases exchange clientOrderId requestTimeNs with he | ⟨_, _, _, _, _, _, _, he⟩ <;>
      rw [call, he]

theorem call_market_of_accepts {event : MarketEvent} (h : exchange.accepts event) :
    (exchange.call (.onMarketEvent event)).market = some event := by
  simp only [call, onMarketEvent, if_pos h]
  exact (matchTrade_market _ _).trans (activateOrders_market _ _)

theorem market_sequence_ge {event : MarketEvent} (calls : List ExchangeCall)
    (h : ∃ market, exchange.market = some market ∧ event.sequence ≤ market.sequence) :
    ∃ market, (calls.foldl call exchange).market = some market ∧
      event.sequence ≤ market.sequence := by
  refine run_invariant_of_forall (I := fun s : PaperExchange => ∃ market, s.market = some market ∧
    event.sequence ≤ market.sequence) (fun s c ⟨market, hmarket, hle⟩ => ?_) h calls
  rcases call_market s c with he | ⟨next, _, haccepts, he⟩
  · exact ⟨market, he.trans hmarket, hle⟩
  · exact ⟨next, he, UInt64.le_of_lt (UInt64.lt_of_le_of_lt hle (haccepts.2.2.1 market hmarket))⟩

theorem sequence_lt_of_accepts {event later : MarketEvent} {mid : List ExchangeCall}
    (h : exchange.accepts event)
    (hlater : (mid.foldl call (exchange.call (.onMarketEvent event))).accepts later) :
    event.sequence < later.sequence := by
  obtain ⟨market, hmarket, hle⟩ :=
    market_sequence_ge mid ⟨event, call_market_of_accepts h, UInt64.le_refl _⟩
  exact UInt64.lt_of_le_of_lt hle (hlater.2.2.1 market hmarket)

theorem eq_or_sequence_lt {config : PaperExchangeConfig} {event later : MarketEvent}
    {before mid after tail : List ExchangeCall} (h : (run config before).accepts event)
    (hlater : (run config (before ++ mid)).accepts later)
    (hsplit : ExchangeCall.onMarketEvent event :: after = mid ++ .onMarketEvent later :: tail) :
    later = event ∨ event.sequence < later.sequence := by
  cases mid with
  | nil => exact .inl (ExchangeCall.onMarketEvent.inj (List.cons.inj hsplit).1).symm
  | cons c mid =>
    right
    obtain ⟨rfl, _⟩ := List.cons.inj hsplit
    rw [run, List.foldl_append] at hlater
    exact sequence_lt_of_accepts h hlater

theorem eq_of_runAccepts {config : PaperExchangeConfig} {calls : List ExchangeCall}
    {event other : MarketEvent} (h : RunAccepts config calls event)
    (hother : RunAccepts config calls other) (hseq : other.sequence = event.sequence) :
    other = event := by
  obtain ⟨before, after, rfl, haccepts⟩ := h
  obtain ⟨before', after', hcalls, haccepts'⟩ := hother
  -- one of the two events comes first, and accepted sequences only grow
  rcases List.append_eq_append_iff.mp hcalls with ⟨mid, rfl, htail⟩ | ⟨mid, rfl, htail⟩
  · rcases eq_or_sequence_lt haccepts haccepts' htail with he | hlt
    · exact he
    · exact absurd hseq.symm (UInt64.ne_of_lt hlt)
  · rcases eq_or_sequence_lt haccepts' haccepts htail with he | hlt
    · exact he.symm
    · exact absurd hseq (UInt64.ne_of_lt hlt)

end Sequence

theorem guarded_run (config : PaperExchangeConfig) (calls : List ExchangeCall) :
    Guarded config (RunAccepts config calls) (run config calls) := by
  have hsteps : AllSteps call (Permits (RunAccepts config calls) fun _ _ => True) (new config)
      calls := by
    refine AllSteps.of_split fun before c after he => ?_
    cases c with
    | onMarketEvent event => exact fun haccepts => ⟨before, after, he, haccepts⟩
    | submit request decisionTimeNs => exact fun _ => trivial
    | cancel clientOrderId requestTimeNs => trivial
  refine chain_invariant (fun h hstep => h.transition hstep) ?_ (run_transitions hsteps)
  exact ⟨rfl, by simp [new], by simp [new], by simp [new, Attributed]⟩

theorem run_protected (config : PaperExchangeConfig) (calls : List ExchangeCall) :
    ∀ fill ∈ (run config calls).fills, ∃ order ∈ (run config calls).orders,
      order.orderId = fill.orderId ∧ ∃ event, RunAccepts config calls event ∧
        fill.marketSequence = event.sequence ∧
        (∀ other, RunAccepts config calls other → other.sequence = fill.marketSequence →
          other = event) ∧
        Protected config order.request event fill := by
  intro fill hfill
  obtain ⟨order, horder, hid, event, hheard, hseq, hprotected⟩ :=
    (guarded_run config calls).fills fill hfill
  refine ⟨order, horder, hid, event, hheard, hseq, fun other hother he => ?_, hprotected⟩
  exact eq_of_runAccepts hheard hother (he.trans hseq)

/-- A resting buy, filled in part by the trade of the second event. -/
theorem run_protected_maker :
    let config : PaperExchangeConfig :=
      { ledger := { initialCashUnits := 10000 }, makerFeePpm := 10000 }
    let calls : List ExchangeCall := [
      .onMarketEvent { sequence := 1, exchangeTimeNs := 1, receiveTimeNs := 1
                       bestBidUnits := 99, bestAskUnits := 101 },
      .submit { clientOrderId := "a", type := .postOnly, quantityUnits := 5
                limitPriceUnits := some 99 } 1,
      .onMarketEvent { sequence := 2, exchangeTimeNs := 5, receiveTimeNs := 5
                       bestBidUnits := 99, bestAskUnits := 101, tradePriceUnits := some 98
                       tradeQuantityUnits := 2, aggressorSide := some .sell }]
    ∃ order ∈ (run config calls).orders, ∃ event, RunAccepts config calls event ∧
      event.sequence = 2 ∧ Protected config order.request event
        { fillId := 1, orderId := 1, clientOrderId := "a", marketSequence := 2, exchangeTimeNs := 5
          quantityUnits := 2, priceUnits := 99, feeUnits := 2, maker := true } := by
  obtain ⟨order, horder, _, event, hheard, hseq, _, hprotected⟩ := run_protected
    { ledger := { initialCashUnits := 10000 }, makerFeePpm := 10000 }
    [.onMarketEvent { sequence := 1, exchangeTimeNs := 1, receiveTimeNs := 1
                      bestBidUnits := 99, bestAskUnits := 101 },
     .submit { clientOrderId := "a", type := .postOnly, quantityUnits := 5
               limitPriceUnits := some 99 } 1,
     .onMarketEvent { sequence := 2, exchangeTimeNs := 5, receiveTimeNs := 5
                      bestBidUnits := 99, bestAskUnits := 101, tradePriceUnits := some 98
                      tradeQuantityUnits := 2, aggressorSide := some .sell }]
    { fillId := 1, orderId := 1, clientOrderId := "a", marketSequence := 2, exchangeTimeNs := 5
      quantityUnits := 2, priceUnits := 99, feeUnits := 2, maker := true } (by decide +kernel)
  exact ⟨order, horder, event, hheard, hseq.symm, hprotected⟩

end PaperExchange
end Astra
