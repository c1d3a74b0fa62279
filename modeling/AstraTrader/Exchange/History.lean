import AstraTrader.Exchange.Reconciliation

/-! What the exchange never takes back: fills are only appended, an order keeps its place, its
number and its request, and a terminal order is final. -/

namespace Astra
open Relation Process

theorem fills_extend_of_move {config : PaperExchangeConfig} {event : MarketEvent}
    {before after : Executions × PaperOrder} (h : Move config event before after) :
    before.1.fills <+: after.1.fills := by
  cases h with
  | reject => exact List.prefix_refl _
  | rest => exact List.prefix_refl _
  | queue => exact List.prefix_refl _
  | execute => exact List.prefix_append _ _
  | cancel => exact List.prefix_refl _

namespace PaperExchange

def requests (exchange : PaperExchange) : List OrderRequest := exchange.orders.map (·.request)

section Transitions
variable {heard : MarketEvent → Prop} {allow : PaperExchange → OrderRequest → Prop}
  {s t : PaperExchange}

theorem Transition.fills_extend (h : Transition heard allow s t) : s.fills <+: t.fills := by
  cases h with
  | observe => exact List.prefix_refl _
  | ignore => exact List.prefix_refl _
  | mark => exact List.prefix_refl _
  | move event pre post order moved books _ _ hmove => exact fills_extend_of_move hmove
  | append => exact List.prefix_refl _
  | requestCancel => exact List.prefix_refl _

theorem Transition.requests_extend (h : Transition heard allow s t) :
    s.requests <+: t.requests := by
  cases h with
  | observe => exact List.prefix_refl _
  | ignore => exact List.prefix_refl _
  | mark => exact List.prefix_refl _
  | move event pre post order moved books _ hsplit hmove =>
    rw [requests, requests, hsplit, List.map_append, List.map_append, List.map_cons, List.map_cons,
      hmove.order_eq.2.1]
  | append =>
    rw [requests, requests, PaperExchange.append, List.map_append]
    exact List.prefix_append _ _
  | requestCancel pre post order due hsplit =>
    rw [requests, requests, hsplit, List.map_append, List.map_append, List.map_cons, List.map_cons]

theorem Transition.terminal (h : Transition heard allow s t) {i : ℕ} {order : PaperOrder}
    (horder : s.orders[i]? = some order) (hdead : order.isLive = false) :
    t.orders[i]? = some order := by
  -- the order that a transition rewrites is live, so it stands at another position
  have hother : ∀ {pre post : List PaperOrder} {live : PaperOrder}, live.isLive = true →
      s.orders = pre ++ live :: post → i ≠ pre.length := by
    rintro pre post live hlive hsplit rfl
    rw [hsplit, getElem?_cell] at horder
    rw [← Option.some.inj horder, hlive] at hdead
    exact absurd hdead (by decide)
  cases h with
  | observe => exact horder
  | ignore => exact horder
  | mark => exact horder
  | move event pre post live moved books _ hsplit hmove =>
    rw [hsplit] at horder
    exact (getElem?_replace (hother hmove.order_eq.2.2.2 hsplit)).trans horder
  | append =>
    obtain ⟨hlt, _⟩ := List.getElem?_eq_some_iff.mp horder
    rw [PaperExchange.append, List.getElem?_append_left hlt]
    exact horder
  | requestCancel pre post live due hsplit hlive =>
    rw [hsplit] at horder
    exact (getElem?_replace (hother hlive hsplit)).trans horder

theorem chain_fills_extend (h : ReflTransGen (Transition heard allow) s t) :
    s.fills <+: t.fills :=
  chain_invariant (I := fun u => s.fills <+: u.fills)
    (fun hs hstep => hs.trans hstep.fills_extend) (List.prefix_refl _) h

theorem chain_requests_extend (h : ReflTransGen (Transition heard allow) s t) :
    s.requests <+: t.requests :=
  chain_invariant (I := fun u => s.requests <+: u.requests)
    (fun hs hstep => hs.trans hstep.requests_extend) (List.prefix_refl _) h

theorem chain_terminal (h : ReflTransGen (Transition heard allow) s t) {i : ℕ}
    {order : PaperOrder} (horder : s.orders[i]? = some order) (hdead : order.isLive = false) :
    t.orders[i]? = some order :=
  chain_invariant (I := fun u => u.orders[i]? = some order)
    (fun hs hstep => hstep.terminal hs hdead) horder h

theorem foldl_transitions (s : PaperExchange) (calls : List ExchangeCall) :
    ReflTransGen (Transition (fun _ => True) fun _ _ => True) s (calls.foldl call s) :=
  run_transitions (AllSteps.of_forall (fun _ c => by cases c <;> simp [Permits]) _ _)

theorem Consistent.call {config : PaperExchangeConfig} (h : Consistent config s)
    (c : ExchangeCall) : Consistent config (s.call c) :=
  chain_invariant (fun hs hstep => hs.transition hstep) h (foldl_transitions s [c])

theorem call_named {P : String → Prop} {c : ExchangeCall}
    (hs : ∀ order ∈ s.orders, P order.request.clientOrderId)
    (hc : ∀ request decisionTimeNs, c = .submit request decisionTimeNs → P request.clientOrderId) :
    ∀ order ∈ (s.call c).orders, P order.request.clientOrderId := by
  have hchain : ReflTransGen
      (Transition (fun _ => True) fun _ request => P request.clientOrderId) s (s.call c) := by
    refine call_transitions ?_
    cases c with
    | onMarketEvent event => exact fun _ => trivial
    | submit request decisionTimeNs => exact fun _ => hc request decisionTimeNs rfl
    | cancel clientOrderId requestTimeNs => trivial
  refine chain_invariant (I := fun t => ∀ order ∈ t.orders, P order.request.clientOrderId)
    (fun {t u} ht hstep => ?_) hs hchain
  cases hstep with
  | observe => exact ht
  | ignore => exact ht
  | mark => exact ht
  | move event pre post order moved books _ hsplit hmove =>
    refine forall_mem_replace (hsplit ▸ ht) ?_
    rw [hmove.order_eq.2.1]
    exact ht order (by simp [hsplit])
  | append request market decisionTimeNs _ hallow =>
    exact List.forall_mem_append.mpr ⟨ht, List.forall_mem_singleton.mpr hallow⟩
  | requestCancel pre post order due hsplit =>
    exact forall_mem_replace (hsplit ▸ ht) (ht order (by simp [hsplit]))

end Transitions

section Orders
variable {config : PaperExchangeConfig} {exchange : PaperExchange}

theorem Indexed.orderId_eq (h : exchange.Indexed) {i : ℕ} {order : PaperOrder}
    (horder : exchange.orders[i]? = some order) : order.orderId = i + 1 := by
  have hid : (exchange.orders.map (·.orderId))[i]? = some order.orderId := by
    rw [List.getElem?_map, horder]
    rfl
  obtain ⟨hlt, _⟩ := List.getElem?_eq_some_iff.mp horder
  rw [h.orderIds, List.getElem?_range' (by simpa using hlt)] at hid
  have := Option.some.inj hid
  omega

theorem Indexed.named_of_findOrder (h : exchange.Indexed) {name : String} {i : ℕ}
    {order : PaperOrder} (hfind : exchange.findOrder name = some (i, order)) :
    order ∈ exchange.orders ∧ order.request.clientOrderId = name := by
  obtain ⟨hlookup, horder⟩ := findOrder_eq_some hfind
  have hname := (h.index name i).mp hlookup
  rw [List.getElem?_map, horder] at hname
  exact ⟨List.mem_of_getElem? horder, Option.some.inj hname⟩

theorem Indexed.findOrder_eq_none (h : exchange.Indexed) {name : String}
    (hfresh : ∀ order ∈ exchange.orders, order.request.clientOrderId ≠ name) :
    exchange.findOrder name = none := by
  by_contra hne
  obtain ⟨⟨i, order⟩, hfind⟩ := Option.ne_none_iff_exists'.mp hne
  obtain ⟨hmem, hname⟩ := h.named_of_findOrder hfind
  exact hfresh order hmem hname

theorem Consistent.names (h : Consistent config exchange) {fill : PaperFill}
    (hfill : fill ∈ exchange.fills) {i : ℕ} {order : PaperOrder}
    (horder : exchange.orders[i]? = some order) (hid : fill.orderId = i + 1) :
    Names order.orderId order.request fill := by
  obtain ⟨found, hfound, hnames⟩ := h.linked fill hfill
  obtain ⟨j, hj⟩ := List.mem_iff_getElem?.mp hfound
  have hfoundId := h.indexed.orderId_eq hj
  have hij : j = i := by
    have := hnames.1
    omega
  rw [hij, horder] at hj
  rwa [Option.some.inj hj]

theorem Consistent.orderId_le (h : Consistent config exchange) {fill : PaperFill}
    (hfill : fill ∈ exchange.fills) : fill.orderId ≤ exchange.orders.length := by
  obtain ⟨found, hfound, hnames⟩ := h.linked fill hfill
  obtain ⟨j, hj⟩ := List.mem_iff_getElem?.mp hfound
  obtain ⟨hlt, _⟩ := List.getElem?_eq_some_iff.mp hj
  have hfoundId := h.indexed.orderId_eq hj
  have := hnames.1
  omega

theorem valid_of_getElem? {calls : List ExchangeCall} {i : ℕ} {order : PaperOrder}
    (h : (run config calls).orders[i]? = some order) : validConfig config = true := by
  cases hvalid : validConfig config with
  | true => rfl
  | false =>
    rw [(run_of_invalid hvalid calls).2] at h
    exact absurd h (by simp)

end Orders
end PaperExchange
end Astra
