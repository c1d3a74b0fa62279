import AstraTrader.Exchange.History
import AstraTrader.Process.Fallible

/-! The fills as a journal. A mark changes three members of the ledger, no fill reads them, and
every fill writes them again, so a ledger fed the recorded fills alone is the exchange's own. -/

namespace Astra
open Process

/-- The state up to what a mark overwrites. -/
def LedgerState.unmarked (state : LedgerState) : LedgerState :=
  { state with unrealizedPnlUnits := 0, equityUnits := 0, lastMarkPriceUnits := 0 }

namespace PerpetualLedger

/-- `apply_fill` with the members of a recorded fill. -/
def applyRecord (ledger : PerpetualLedger) (fill : PaperFill) :
    PerpetualLedger × LedgerMutation :=
  ledger.applyFill (signedQuantity fill.side fill.quantityUnits) fill.priceUnits fill.feeUnits

def recoverStep (ledger : PerpetualLedger) (fill : PaperFill) : PerpetualLedger :=
  (ledger.applyRecord fill).1

/-- A ledger rebuilt from recorded fills. -/
def recover (config : LedgerConfig) (fills : List PaperFill) : PerpetualLedger :=
  fills.foldl recoverStep (new config)

/-- The record is applied, with the result and the fee it was recorded with. -/
def Accounts (ledger : PerpetualLedger) (fill : PaperFill) : Prop :=
  (ledger.applyRecord fill).2 =
    { error := .ok, realizedPnlUnits := fill.realizedPnlUnits, feeUnits := fill.feeUnits }

instance (ledger : PerpetualLedger) (fill : PaperFill) : Decidable (ledger.Accounts fill) :=
  inferInstanceAs (Decidable (_ = _))

/-- Ledgers that differ at most in their marks. -/
structure SameBooks (a b : PerpetualLedger) : Prop where
  config : a.config = b.config
  configError : a.configError = b.configError
  state : a.state.unmarked = b.state.unmarked

section Stages
variable {ledger : PerpetualLedger} {state : LedgerState}

theorem orOverflow_map_bind {α β γ : Type} (option : Option α) (f : α → β)
    (next : β → Except LedgerError γ) :
    (orOverflow (option.map f) >>= next) = orOverflow option >>= fun a => next (f a) := by
  cases option <;> rfl

theorem openOrAdd_unmarked (state : LedgerState) (signedQuantityUnits fillNotional : Int64) :
    openOrAdd state.unmarked signedQuantityUnits fillNotional =
      (openOrAdd state signedQuantityUnits fillNotional).map fun r => (r.1.unmarked, r.2) := by
  have hposition : state.unmarked.positionUnits = state.positionUnits := rfl
  have hcost : state.unmarked.positionCostUnits = state.positionCostUnits := rfl
  unfold openOrAdd
  rw [hposition, hcost]
  cases checkedAdd state.positionUnits (wide signedQuantityUnits) with
  | none => rfl
  | some position =>
    cases checkedAdd state.positionCostUnits
      (wide (sign signedQuantityUnits) * wide fillNotional) <;> rfl

theorem closeOrReverse_unmarked (ledger : PerpetualLedger) (state : LedgerState)
    (signedQuantityUnits priceUnits : Int64) :
    ledger.closeOrReverse state.unmarked signedQuantityUnits priceUnits =
      (ledger.closeOrReverse state signedQuantityUnits priceUnits).map
        fun r => (r.1.unmarked, r.2) := by
  have hposition : state.unmarked.positionUnits = state.positionUnits := rfl
  have hcost : state.unmarked.positionCostUnits = state.positionCostUnits := rfl
  have hafter : ∀ (position : Int64) (allocated : Wide),
      ledger.costAfterClose state.unmarked position allocated priceUnits =
        ledger.costAfterClose state position allocated priceUnits := fun _ _ => rfl
  unfold closeOrReverse
  simp only [hposition, hcost, hafter]
  cases ledger.notional (min (magnitude state.positionUnits)
    (magnitude signedQuantityUnits)).toInt64 priceUnits with
  | none => rfl
  | some closeNotional =>
    cases narrow (wide state.positionUnits + wide signedQuantityUnits) with
    | none => rfl
    | some position =>
      simp only [Option.bind_eq_bind, Option.bind_some]
      cases ledger.costAfterClose state position _ priceUnits <;> rfl

theorem settle_unmarked (state : LedgerState) (realized : Wide) (feeUnits : Int64) :
    settle state.unmarked realized feeUnits =
      (settle state realized feeUnits).map LedgerState.unmarked := by
  have hcash : state.unmarked.cashUnits = state.cashUnits := rfl
  have hrealized : state.unmarked.realizedPnlUnits = state.realizedPnlUnits := rfl
  have hfee : state.unmarked.totalFeeUnits = state.totalFeeUnits := rfl
  unfold settle
  rw [hcash, hrealized, hfee]
  cases checkedAdd state.cashUnits (realized - wide feeUnits) with
  | none => rfl
  | some cash =>
    cases checkedAdd state.realizedPnlUnits realized with
    | none => rfl
    | some realizedPnl => cases checkedAdd state.totalFeeUnits (wide feeUnits) <;> rfl

theorem refreshAverageEntry_unmarked (ledger : PerpetualLedger) (state : LedgerState) :
    ledger.refreshAverageEntry state.unmarked =
      (ledger.refreshAverageEntry state).map LedgerState.unmarked := by
  have hposition : state.unmarked.positionUnits = state.positionUnits := rfl
  have hcost : state.unmarked.positionCostUnits = state.positionCostUnits := rfl
  unfold refreshAverageEntry
  rw [hposition, hcost]
  split_ifs
  · rfl
  · cases ledger.averageNumerator (magnitude state.positionCostUnits) with
    | none => rfl
    | some numerator =>
      simp only [Option.bind_eq_bind, Option.bind_some]
      cases narrow (numerator / magnitude state.positionUnits) <;> rfl

theorem refreshMark_books {priceUnits : Int64} {next : LedgerState}
    (h : ledger.refreshMark state priceUnits = .ok next) :
    next.unmarked = state.unmarked ∧ next.lastMarkPriceUnits = priceUnits ∧ 0 < priceUnits := by
  unfold refreshMark at h
  split_ifs at h with hprice
  obtain ⟨markedValue, _, h⟩ := Option.bind_eq_some_iff.mp (orOverflow_eq_ok.mp h)
  obtain ⟨pnl, _, h⟩ := Option.bind_eq_some_iff.mp h
  obtain ⟨equity, _, h⟩ := Option.bind_eq_some_iff.mp h
  rw [← Option.some.inj h]
  exact ⟨rfl, rfl, Int64.not_le.mp hprice⟩

theorem refreshMark_unmarked (ledger : PerpetualLedger) (state : LedgerState)
    (priceUnits : Int64) :
    ledger.refreshMark state.unmarked priceUnits = ledger.refreshMark state priceUnits := rfl

theorem trade_unmarked (ledger : PerpetualLedger)
    (signedQuantityUnits priceUnits fillNotional : Int64) :
    { ledger with state := ledger.state.unmarked }.trade signedQuantityUnits priceUnits
        fillNotional =
      (ledger.trade signedQuantityUnits priceUnits fillNotional).map
        fun r => (r.1.unmarked, r.2) := by
  have hposition : ledger.state.unmarked.positionUnits = ledger.state.positionUnits := rfl
  unfold trade
  simp only [hposition]
  split_ifs
  · exact openOrAdd_unmarked _ _ _
  · exact closeOrReverse_unmarked ledger ledger.state _ _

/-- No block of `apply_fill` reads a mark, and its last one writes them all. -/
theorem fillCandidate_unmarked (ledger : PerpetualLedger)
    (signedQuantityUnits priceUnits feeUnits : Int64) :
    { ledger with state := ledger.state.unmarked }.fillCandidate signedQuantityUnits priceUnits
        feeUnits = ledger.fillCandidate signedQuantityUnits priceUnits feeUnits := by
  have hnotional : { ledger with state := ledger.state.unmarked }.notional signedQuantityUnits
      priceUnits = ledger.notional signedQuantityUnits priceUnits := rfl
  have haverage : ∀ candidate, { ledger with state := ledger.state.unmarked }.refreshAverageEntry
      candidate = ledger.refreshAverageEntry candidate := fun _ => rfl
  have hmark : ∀ candidate, { ledger with state := ledger.state.unmarked }.refreshMark candidate
      priceUnits = ledger.refreshMark candidate priceUnits := fun _ => rfl
  unfold fillCandidate
  simp only [hnotional, haverage, hmark, trade_unmarked, orOverflow_map_bind, settle_unmarked,
    refreshAverageEntry_unmarked, refreshMark_unmarked]

theorem refreshMark_again {priceUnits : Int64} {next : LedgerState}
    (h : ledger.refreshMark state priceUnits = .ok next) :
    ledger.refreshMark next priceUnits = .ok next := by
  rw [← refreshMark_unmarked, (refreshMark_books h).1, refreshMark_unmarked, h]

theorem fillCandidate_marked {signedQuantityUnits priceUnits feeUnits : Int64}
    {next : LedgerState} {realized : Wide}
    (h : ledger.fillCandidate signedQuantityUnits priceUnits feeUnits = .ok (next, realized)) :
    ledger.configError = .ok ∧ ∃ candidate, ledger.refreshMark candidate priceUnits = .ok next := by
  unfold fillCandidate at h
  split_ifs at h with hargs
  refine ⟨by tauto, ?_⟩
  obtain ⟨fillNotional, _, h⟩ := bind_eq_ok_iff.mp h
  obtain ⟨⟨traded, result⟩, _, h⟩ := bind_eq_ok_iff.mp h
  obtain ⟨settled, _, h⟩ := bind_eq_ok_iff.mp h
  obtain ⟨averaged, _, h⟩ := bind_eq_ok_iff.mp h
  obtain ⟨marked, hmark, h⟩ := bind_eq_ok_iff.mp h
  obtain rfl : marked = next := congrArg Prod.fst (Except.ok.inj h)
  exact ⟨averaged, hmark⟩

end Stages

section Books
variable {a b : PerpetualLedger}

theorem SameBooks.fillCandidate (h : SameBooks a b)
    (signedQuantityUnits priceUnits feeUnits : Int64) :
    a.fillCandidate signedQuantityUnits priceUnits feeUnits =
      b.fillCandidate signedQuantityUnits priceUnits feeUnits := by
  obtain ⟨config, state, configError⟩ := a
  obtain ⟨config', state', configError'⟩ := b
  obtain ⟨rfl, rfl, hstate⟩ := h
  rw [← fillCandidate_unmarked, ← fillCandidate_unmarked ⟨config, state', configError⟩, hstate]

theorem SameBooks.applyFill (h : SameBooks a b) {signedQuantityUnits priceUnits feeUnits : Int64}
    (hok : (a.applyFill signedQuantityUnits priceUnits feeUnits).2.succeeded = true) :
    a.applyFill signedQuantityUnits priceUnits feeUnits =
      b.applyFill signedQuantityUnits priceUnits feeUnits := by
  rcases applyFill_cases a signedQuantityUnits priceUnits feeUnits with
    ⟨next, realized, hnext, he⟩ | ⟨error, hne, he⟩
  · have hcandidate := h.fillCandidate signedQuantityUnits priceUnits feeUnits
    rw [hnext] at hcandidate
    rw [he]
    unfold PerpetualLedger.applyFill
    rw [← hcandidate, h.config, h.configError]
  · rw [he] at hok
    exact absurd (of_decide_eq_true hok) hne

theorem markToMarket_eq {priceUnits : Int64} {next : LedgerState} (hok : a.configError = .ok)
    (h : a.refreshMark a.state priceUnits = .ok next) :
    a.markToMarket priceUnits = ({ a with state := next }, .ok) := by
  unfold PerpetualLedger.markToMarket
  rw [if_neg (not_not.mpr hok), h]

theorem applyFill_recorded {next : PerpetualLedger} {mutation : LedgerMutation}
    {signedQuantityUnits priceUnits feeUnits : Int64}
    (h : a.applyFill signedQuantityUnits priceUnits feeUnits = (next, mutation))
    (hok : mutation.succeeded = true) :
    mutation = { error := .ok, realizedPnlUnits := mutation.realizedPnlUnits, feeUnits } ∧
      next.markToMarket next.state.lastMarkPriceUnits = (next, .ok) := by
  rcases applyFill_cases a signedQuantityUnits priceUnits feeUnits with
    ⟨state, realized, hstate, he⟩ | ⟨error, hne, he⟩ <;>
    obtain ⟨rfl, rfl⟩ := Prod.mk.inj (he.symm.trans h)
  · obtain ⟨hconfig, candidate, hmark⟩ := fillCandidate_marked hstate
    refine ⟨rfl, ?_⟩
    rw [(refreshMark_books hmark).2.1]
    exact PerpetualLedger.markToMarket_eq hconfig (refreshMark_again hmark)
  · exact absurd (of_decide_eq_true hok) hne

theorem SameBooks.symm (h : SameBooks a b) : SameBooks b a :=
  ⟨h.config.symm, h.configError.symm, h.state.symm⟩

theorem SameBooks.markToMarket (h : SameBooks a b) (priceUnits : Int64) :
    SameBooks a (b.markToMarket priceUnits).1 := by
  rcases markToMarket_cases b priceUnits with ⟨next, hnext, he⟩ | ⟨error, _, he⟩
  · rw [he]
    refine ⟨h.config, h.configError, h.state.trans ?_⟩
    exact (refreshMark_books hnext).1.symm
  · rw [he]
    exact h

theorem configError_of_markToMarket {priceUnits : Int64}
    (hok : (a.markToMarket priceUnits).2 = .ok) : a.configError = .ok := by
  unfold PerpetualLedger.markToMarket at hok
  split_ifs at hok with hconfig
  · exact hok
  · exact not_not.mp hconfig

theorem SameBooks.markToMarket_eq (h : SameBooks a b) {priceUnits : Int64}
    (hok : (a.markToMarket priceUnits).2 = .ok) :
    b.markToMarket priceUnits = a.markToMarket priceUnits := by
  rcases markToMarket_cases a priceUnits with ⟨next, hnext, he⟩ | ⟨error, hne, he⟩
  · have hmark : b.refreshMark b.state priceUnits = .ok next := by
      rw [← hnext, ← refreshMark_unmarked, ← h.state, ← refreshMark_unmarked a]
      unfold refreshMark PerpetualLedger.notional
      rw [h.config]
    rw [he, PerpetualLedger.markToMarket_eq (h.configError.symm.trans
      (configError_of_markToMarket hok)) hmark, h.config, h.configError]
  · rw [he] at hok
    exact absurd hok hne

end Books
end PerpetualLedger

namespace PaperExchange
open PerpetualLedger

/-- The recorded fills bring back the books, and the last mark the rest of the ledger. -/
structure Recovered (config : PaperExchangeConfig) (exchange : PaperExchange) : Prop where
  accounts : AllSteps recoverStep Accounts (.new config.ledger) exchange.fills
  books : SameBooks (recover config.ledger exchange.fills) exchange.ledger
  marked : exchange.ledger = .new config.ledger ∧ exchange.fills = [] ∨
    (recover config.ledger exchange.fills).markToMarket
      exchange.ledger.state.lastMarkPriceUnits = (exchange.ledger, .ok)

section Transitions
variable {config : PaperExchangeConfig} {s t : PaperExchange}

theorem recover_concat (config : LedgerConfig) (fills : List PaperFill) (fill : PaperFill) :
    recover config (fills ++ [fill]) = recoverStep (recover config fills) fill := by
  rw [recover, List.foldl_append, List.foldl_cons, List.foldl_nil, recover]

theorem Recovered.mark (h : Recovered config s) (priceUnits : Int64) :
    Recovered config (s.markToMarket priceUnits) := by
  refine ⟨h.accounts, h.books.markToMarket priceUnits, ?_⟩
  rcases markToMarket_cases s.ledger priceUnits with ⟨next, hnext, he⟩ | ⟨error, _, he⟩
  · right
    have hok : (s.ledger.markToMarket priceUnits).2 = .ok := by rw [he]
    have hlast : (s.markToMarket priceUnits).ledger.state.lastMarkPriceUnits = priceUnits := by
      unfold PaperExchange.markToMarket
      rw [he]
      exact (refreshMark_books hnext).2.1
    rw [hlast]
    refine (h.books.symm.markToMarket_eq hok).trans (Prod.ext rfl hok)
  · have hsame : (s.markToMarket priceUnits).ledger = s.ledger := by
      unfold PaperExchange.markToMarket
      rw [he]
    rw [hsame]
    exact h.marked

theorem Recovered.execute (h : Recovered config s) {order : PaperOrder}
    {quantity price fee : Int64} {maker : Bool} {event : MarketEvent} {ledger : PerpetualLedger}
    {mutation : LedgerMutation}
    (hfill : s.ledger.applyFill (signedQuantity order.request.side quantity) price fee =
      (ledger, mutation)) (hok : mutation.succeeded = true) (orders : List PaperOrder) :
    Recovered config { s with
      toExecutions := { s.toExecutions with ledger }.record order quantity price fee
        mutation.realizedPnlUnits maker event
      orders } := by
  have hjournal : (recover config.ledger s.fills).applyFill
      (signedQuantity order.request.side quantity) price fee = (ledger, mutation) := by
    rw [← hfill]
    exact (h.books.symm.applyFill (by rw [hfill]; exact hok)).symm
  obtain ⟨hmutation, hmarked⟩ := applyFill_recorded hfill hok
  have hrecover : recover config.ledger (s.fills ++ [{
      fillId := s.nextFillId, orderId := order.orderId
      clientOrderId := order.request.clientOrderId, marketSequence := event.sequence
      exchangeTimeNs := event.exchangeTimeNs, side := order.request.side
      quantityUnits := quantity, priceUnits := price, feeUnits := fee
      realizedPnlUnits := mutation.realizedPnlUnits, maker }]) = ledger := by
    rw [recover_concat]
    exact congrArg Prod.fst hjournal
  refine ⟨AllSteps.append.mpr ⟨h.accounts, ?_, trivial⟩, ?_, .inr ?_⟩
  · exact (congrArg Prod.snd hjournal).trans hmutation
  · rw [Executions.record, hrecover]
    exact ⟨rfl, rfl, rfl⟩
  · rw [Executions.record, hrecover]
    exact hmarked

theorem Recovered.transition {heard : MarketEvent → Prop}
    {allow : PaperExchange → OrderRequest → Prop} (h : Recovered config s)
    (hstep : Transition heard allow s t) : Recovered config t := by
  cases hstep with
  | observe => exact ⟨h.accounts, h.books, h.marked⟩
  | ignore => exact ⟨h.accounts, h.books, h.marked⟩
  | append => exact ⟨h.accounts, h.books, h.marked⟩
  | requestCancel => exact ⟨h.accounts, h.books, h.marked⟩
  | mark priceUnits => exact h.mark priceUnits
  | move event pre post order moved books _ _ hmove =>
    cases hmove with
    | reject => exact ⟨h.accounts, h.books, h.marked⟩
    | rest => exact ⟨h.accounts, h.books, h.marked⟩
    | queue => exact ⟨h.accounts, h.books, h.marked⟩
    | cancel => exact ⟨h.accounts, h.books, h.marked⟩
    | execute _ _ quantity price fee maker ledger mutation _ _ _ _ _ _ _ hfill hok =>
      exact h.execute hfill hok _

theorem recovered_new (config : PaperExchangeConfig) : Recovered config (new config) :=
  ⟨trivial, ⟨rfl, rfl, rfl⟩, .inl ⟨rfl, rfl⟩⟩

theorem Recovered.foldl (h : Recovered config s) (calls : List ExchangeCall) :
    Recovered config (calls.foldl call s) :=
  chain_invariant (fun hs hstep => hs.transition hstep) h (foldl_transitions s calls)

/-- Whatever was called, the recorded fills rebuild the ledger: applied in order to a fresh one
they all succeed with their recorded results, and marking at the last price does the rest. -/
theorem run_recovered (config : PaperExchangeConfig) (calls : List ExchangeCall) :
    Recovered config (run config calls) :=
  (recovered_new config).foldl calls

end Transitions
end PaperExchange
end Astra
