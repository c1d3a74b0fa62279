import AstraTrader.Exchange.Steps
import AstraTrader.Ledger.Refinement

/-! Orders, index, fills and ledger agree after every call: each group of members has an
invariant of its own, and every transition keeps all of them. -/

namespace Astra

/-- The signed quantity by which a fill moved the position. -/
def PaperFill.signedUnits (fill : PaperFill) : ℤ :=
  (signedQuantity fill.side fill.quantityUnits).toInt

/-- The quantity that an order has been given by `fills`. -/
def filledOf (fills : List PaperFill) (orderId : ℕ) : ℤ :=
  ((fills.filter fun fill => fill.orderId = orderId).map fun fill => fill.quantityUnits.toInt).sum

structure OrderReconciled (fills : List PaperFill) (order : PaperOrder) : Prop where
  filled : order.filledQuantityUnits.toInt = filledOf fills order.orderId
  nonneg : 0 ≤ order.filledQuantityUnits.toInt
  le : order.filledQuantityUnits.toInt ≤ order.request.quantityUnits.toInt
  remaining : order.status ≠ .cancelled → order.filledQuantityUnits.toInt +
    order.remainingQuantityUnits.toInt = order.request.quantityUnits.toInt
  cancelled : order.status = .cancelled → order.remainingQuantityUnits = 0
  status : order.status = .filled ↔ order.filledQuantityUnits = order.request.quantityUnits
  live : order.isLive = true → 0 < order.remainingQuantityUnits.toInt

/-- Every fill belongs to an order that stands in the relation `Q` to it. -/
def Attributed (Q : ℕ → OrderRequest → PaperFill → Prop) (fills : List PaperFill)
    (orders : List PaperOrder) : Prop :=
  ∀ fill ∈ fills, ∃ order ∈ orders, Q order.orderId order.request fill

/-- A fill names its order and repeats what the order asked for. -/
def Names (orderId : ℕ) (request : OrderRequest) (fill : PaperFill) : Prop :=
  orderId = fill.orderId ∧ request.clientOrderId = fill.clientOrderId ∧
    request.side = fill.side ∧ 0 < fill.quantityUnits.toInt

structure Executions.Booked (config : LedgerConfig) (books : Executions) : Prop where
  sound : PerpetualLedger.Sound config books.ledger
  position : books.ledger.state.positionUnits.toInt = (books.fills.map (·.signedUnits)).sum
  totalFee : books.ledger.state.totalFeeUnits.toInt =
    (books.fills.map (·.feeUnits.toInt)).sum
  realizedPnl : books.ledger.state.realizedPnlUnits.toInt =
    (books.fills.map (·.realizedPnlUnits.toInt)).sum
  fillIds : books.fills.map (·.fillId) = List.range' 1 books.fills.length
  nextFillId : books.nextFillId = books.fills.length + 1

section Fills
variable {fills : List PaperFill} {fill : PaperFill}

theorem filledOf_append (orderId : ℕ) : filledOf (fills ++ [fill]) orderId =
    filledOf fills orderId + if fill.orderId = orderId then fill.quantityUnits.toInt else 0 := by
  unfold filledOf
  rw [List.filter_append, List.map_append, List.sum_append]
  split_ifs with h <;> simp [h]

theorem filledOf_eq_zero {orderId : ℕ} (h : ∀ fill ∈ fills, fill.orderId ≠ orderId) :
    filledOf fills orderId = 0 := by
  unfold filledOf
  rw [List.filter_eq_nil_iff.mpr (by simpa using h)]
  rfl

theorem filledOf_nonneg (hpos : ∀ fill ∈ fills, 0 < fill.quantityUnits.toInt) (orderId : ℕ) :
    0 ≤ filledOf fills orderId := by
  refine List.sum_nonneg fun x hx => ?_
  obtain ⟨fill, hmem, rfl⟩ := List.mem_map.mp hx
  exact (hpos fill (List.mem_of_mem_filter hmem)).le

theorem filledOf_append_list (fills more : List PaperFill) (orderId : ℕ) :
    filledOf (fills ++ more) orderId = filledOf fills orderId + filledOf more orderId := by
  unfold filledOf
  rw [List.filter_append, List.map_append, List.sum_append]

variable {Q : ℕ → OrderRequest → PaperFill → Prop} {fills' : List PaperFill}
  {orders pre post : List PaperOrder} {order moved : PaperOrder}

theorem Attributed.append (h : Attributed Q fills orders) (order : PaperOrder) :
    Attributed Q fills (orders ++ [order]) := by
  intro fill hfill
  obtain ⟨found, hfound, hQ⟩ := h fill hfill
  exact ⟨found, List.mem_append_left _ hfound, hQ⟩

theorem Attributed.replace (h : Attributed Q fills (pre ++ order :: post))
    (hid : moved.orderId = order.orderId) (hrequest : moved.request = order.request)
    (hnew : ∀ fill ∈ fills', fill ∈ fills ∨ Q order.orderId order.request fill) :
    Attributed Q fills' (pre ++ moved :: post) := by
  have hmoved : ∀ fill, Q order.orderId order.request fill →
      ∃ found ∈ pre ++ moved :: post, Q found.orderId found.request fill := by
    intro fill hQ
    refine ⟨moved, by simp, ?_⟩
    rwa [hid, hrequest]
  intro fill hfill
  rcases hnew fill hfill with hold | hQ
  · obtain ⟨found, hfound, hQ⟩ := h fill hold
    rcases Process.mem_replace hfound with rfl | hpre | hpost
    · exact hmoved fill hQ
    · exact ⟨found, List.mem_append_left _ hpre, hQ⟩
    · exact ⟨found, by simp [hpost], hQ⟩
  · exact hmoved fill hQ

end Fills

section Moves
variable {config : PaperExchangeConfig} {event : MarketEvent}
  {before after : Executions × PaperOrder}

theorem Executions.Booked.move (h : before.1.Booked config.ledger)
    (hmove : Move config event before after) : after.1.Booked config.ledger := by
  cases hmove with
  | reject => exact h
  | rest => exact h
  | queue => exact h
  | cancel => exact h
  | execute books order quantity price fee maker ledger mutation _ _ _ _ _ _ _ hfill hok =>
    have hs := h.sound.applyFill (signedQuantity order.request.side quantity) price fee
    rw [hfill] at hs
    obtain ⟨hposition, hfee, hrealized⟩ := h.sound.applyFill_books hfill hok
    have hids : books.fills.map (·.fillId) = List.range' 1 books.fills.length := h.fillIds
    have hnext : books.nextFillId = books.fills.length + 1 := h.nextFillId
    exact {
      sound := hs
      position := by simpa [Executions.record, PaperFill.signedUnits, h.position] using hposition
      totalFee := by simpa [Executions.record, h.totalFee] using hfee
      realizedPnl := by simpa [Executions.record, h.realizedPnl] using hrealized
      fillIds := by
        simp [Executions.record, hids, hnext, List.range'_concat, add_comm]
      nextFillId := by simp [Executions.record, hnext] }

theorem filledOf_move (hmove : Move config event before after) {orderId : ℕ}
    (hne : before.2.orderId ≠ orderId) :
    filledOf after.1.fills orderId = filledOf before.1.fills orderId := by
  cases hmove with
  | reject => rfl
  | rest => rfl
  | queue => rfl
  | cancel => rfl
  | execute =>
    rw [Executions.record, filledOf_append, if_neg hne, add_zero]

theorem status_ne_of_isLive {order : PaperOrder} (h : order.isLive = true) :
    order.status ≠ .filled ∧ order.status ≠ .cancelled ∧ order.status ≠ .rejected := by
  simpa [PaperOrder.isLive, isTerminal, and_assoc] using h

theorem OrderReconciled.filled_lt {order : PaperOrder} {fills : List PaperFill}
    (h : OrderReconciled fills order) (hlive : order.isLive = true) :
    order.filledQuantityUnits.toInt < order.request.quantityUnits.toInt := by
  have hremaining := h.remaining (status_ne_of_isLive hlive).2.1
  have hpos := h.live hlive
  omega

theorem OrderReconciled.of_isLive {order moved : PaperOrder} {fills : List PaperFill}
    (h : OrderReconciled fills order) (hlive : order.isLive = true)
    (hstatus : moved.status ≠ .filled) (hcancelled : moved.status ≠ .cancelled)
    (hsame : moved.orderId = order.orderId ∧ moved.request = order.request ∧
      moved.filledQuantityUnits = order.filledQuantityUnits ∧
      moved.remainingQuantityUnits = order.remainingQuantityUnits) :
    OrderReconciled fills moved := by
  obtain ⟨hid, hrequest, hfilled, hremaining⟩ := hsame
  have hlt := h.filled_lt hlive
  refine ⟨?_, ?_, ?_, fun _ => ?_, fun hc => absurd hc hcancelled,
    iff_of_false hstatus fun heq => ?_, fun _ => ?_⟩
  · rw [hfilled, hid, h.filled]
  · rw [hfilled]
    exact h.nonneg
  · rw [hfilled, hrequest]
    exact h.le
  · rw [hfilled, hremaining, hrequest]
    exact h.remaining (status_ne_of_isLive hlive).2.1
  · rw [hfilled, hrequest] at heq
    exact hlt.ne (congrArg Int64.toInt heq)
  · rw [hremaining]
    exact h.live hlive

theorem OrderReconciled.of_filledOf {order : PaperOrder} {fills fills' : List PaperFill}
    (h : OrderReconciled fills order)
    (hsame : filledOf fills' order.orderId = filledOf fills order.orderId) :
    OrderReconciled fills' order :=
  { h with filled := h.filled.trans hsame.symm }

theorem OrderReconciled.toInt_take {order : PaperOrder} {fills : List PaperFill}
    {quantity : Int64} (h : OrderReconciled fills order) (hlive : order.isLive = true)
    (hpos : 0 < quantity.toInt) (hle : quantity.toInt ≤ order.remainingQuantityUnits.toInt) :
    (order.take quantity).remainingQuantityUnits.toInt =
        order.remainingQuantityUnits.toInt - quantity.toInt ∧
      (order.take quantity).filledQuantityUnits.toInt =
        order.filledQuantityUnits.toInt + quantity.toInt := by
  have hsum := h.remaining (status_ne_of_isLive hlive).2.1
  have hnonneg := h.nonneg
  have hbound := order.request.quantityUnits.toInt_lt
  exact ⟨FixedWidth.int64_toInt_sub_of_nonneg (by omega) hpos.le,
    FixedWidth.int64_toInt_add_of_inRange ⟨by omega, by omega⟩⟩

theorem OrderReconciled.take {order : PaperOrder} {fills : List PaperFill} {quantity : Int64}
    (h : OrderReconciled fills order) (hlive : order.isLive = true) (hpos : 0 < quantity)
    (hle : quantity ≤ order.remainingQuantityUnits) {fill : PaperFill}
    (hfill : fill.orderId = order.orderId ∧ fill.quantityUnits = quantity) :
    OrderReconciled (fills ++ [fill]) (order.take quantity) := by
  have hsum := h.remaining (status_ne_of_isLive hlive).2.1
  have hnonneg := h.nonneg
  rw [FixedWidth.int64_pos_iff] at hpos
  rw [Int64.le_iff_toInt_le] at hle
  obtain ⟨hremaining, hfilled⟩ := h.toInt_take hlive hpos hle
  simp only [PaperOrder.take] at hremaining hfilled
  have hzero : order.remainingQuantityUnits - quantity = 0 ↔
      order.remainingQuantityUnits.toInt = quantity.toInt := by
    rw [← Int64.toInt_inj, hremaining, Int64.toInt_zero, sub_eq_zero]
  have hcancelled : (order.take quantity).status ≠ .cancelled := by
    simp only [PaperOrder.take]
    split_ifs <;> simp
  refine ⟨?_, ?_, ?_, fun _ => ?_, fun hc => absurd hc hcancelled, ?_, fun hl => ?_⟩
  · show _ = filledOf (fills ++ [fill]) order.orderId
    rw [filledOf_append, if_pos hfill.1, ← h.filled, hfill.2]
    exact hfilled
  · simp only [PaperOrder.take, hfilled]
    omega
  · simp only [PaperOrder.take, hfilled]
    omega
  · simp only [PaperOrder.take, hfilled, hremaining]
    omega
  · simp only [PaperOrder.take, ← Int64.toInt_inj, hfilled]
    split_ifs with h0 <;> rw [hremaining, Int64.toInt_zero] at h0
    · exact iff_of_true rfl (by omega)
    · exact iff_of_false (by simp) (by omega)
  · simp only [PaperOrder.take, hremaining]
    by_contra hle0
    refine (status_ne_of_isLive hl).1 ?_
    simp only [PaperOrder.take]
    exact if_pos (hzero.mpr (by omega))

theorem OrderReconciled.move (h : OrderReconciled before.1.fills before.2)
    (hmove : Move config event before after) : OrderReconciled after.1.fills after.2 := by
  cases hmove with
  | reject books order reason hlive =>
    exact h.of_isLive hlive (by simp [PaperOrder.reject]) (by simp [PaperOrder.reject])
      ⟨rfl, rfl, rfl, rfl⟩
  | rest books order hwaiting =>
    refine h.of_isLive (isLive_of_waiting hwaiting) ?_ ?_ ⟨rfl, rfl, rfl, rfl⟩ <;>
      simp only [PaperOrder.rest] <;> split_ifs <;> simp
  | queue books order queueAheadUnits hlive =>
    exact h.of_isLive hlive (status_ne_of_isLive hlive).1 (status_ne_of_isLive hlive).2.1
      ⟨rfl, rfl, rfl, rfl⟩
  | execute books order quantity price fee maker ledger mutation hlive _ hpos hle =>
    exact h.take hlive hpos hle ⟨rfl, rfl⟩
  | cancel books order hlive =>
    have hlt := h.filled_lt hlive
    exact ⟨h.filled, h.nonneg, h.le, fun hc => absurd rfl hc, fun _ => rfl,
      iff_of_false (by simp) fun heq => hlt.ne (congrArg Int64.toInt heq),
      fun hl => absurd rfl (status_ne_of_isLive hl).2.1⟩

theorem names_of_move (hmove : Move config event before after) {fill : PaperFill}
    (h : fill ∈ after.1.fills) :
    fill ∈ before.1.fills ∨ Names before.2.orderId before.2.request fill := by
  cases hmove with
  | reject => exact .inl h
  | rest => exact .inl h
  | queue => exact .inl h
  | cancel => exact .inl h
  | execute _ _ _ _ _ _ _ _ _ _ hpos =>
    rcases List.mem_append.mp h with h | h
    · exact .inl h
    · rw [List.mem_singleton.mp h]
      exact .inr ⟨rfl, rfl, rfl, (FixedWidth.int64_pos_iff _).mp hpos⟩

end Moves

namespace PaperExchange

structure Indexed (exchange : PaperExchange) : Prop where
  index : ∀ name i, exchange.orderIndex.lookup name = some i ↔
    (exchange.orders.map (·.request.clientOrderId))[i]? = some name
  orderIds : exchange.orders.map (·.orderId) = List.range' 1 exchange.orders.length
  nextOrderId : exchange.nextOrderId = exchange.orders.length + 1

/-- What every transition of an exchange built from `config` keeps. -/
structure Consistent (config : PaperExchangeConfig) (exchange : PaperExchange) : Prop
    extends Configured config exchange where
  booked : exchange.toExecutions.Booked config.ledger
  indexed : exchange.Indexed
  orders : ∀ order ∈ exchange.orders, OrderReconciled exchange.fills order
  linked : Attributed Names exchange.fills exchange.orders

section Orders
variable {exchange : PaperExchange} {pre post : List PaperOrder} {order moved : PaperOrder}

theorem Indexed.replace (h : exchange.Indexed) (hsplit : exchange.orders = pre ++ order :: post)
    {next : PaperExchange} (horders : next.orders = pre ++ moved :: post)
    (hid : moved.orderId = order.orderId) (hrequest : moved.request = order.request)
    (hindex : next.orderIndex = exchange.orderIndex)
    (hnext : next.nextOrderId = exchange.nextOrderId) : next.Indexed := by
  have hnames : next.orders.map (·.request.clientOrderId) =
      exchange.orders.map (·.request.clientOrderId) := by simp [horders, hsplit, hrequest]
  have hids : next.orders.map (·.orderId) = exchange.orders.map (·.orderId) := by
    simp [horders, hsplit, hid]
  have hlength : next.orders.length = exchange.orders.length := by simp [horders, hsplit]
  refine ⟨?_, ?_, ?_⟩
  · rw [hindex, hnames]
    exact h.index
  · rw [hids, hlength]
    exact h.orderIds
  · rw [hnext, hlength]
    exact h.nextOrderId

theorem Indexed.orderIds_nodup (h : exchange.Indexed) :
    (exchange.orders.map (·.orderId)).Nodup := by
  rw [h.orderIds]
  exact List.nodup_range'

theorem Indexed.orderId_ne (h : exchange.Indexed)
    (hsplit : exchange.orders = pre ++ order :: post) {other : PaperOrder}
    (hmem : other ∈ pre ∨ other ∈ post) : order.orderId ≠ other.orderId := by
  have hnodup := h.orderIds_nodup
  rw [hsplit, List.map_append, List.map_cons, List.nodup_append, List.nodup_cons] at hnodup
  obtain ⟨_, ⟨hpost, _⟩, hpre⟩ := hnodup
  rcases hmem with hmem | hmem
  · exact fun he => hpre _ (List.mem_map_of_mem hmem) _ (List.mem_cons_self ..) he.symm
  · exact fun he => hpost (he ▸ List.mem_map_of_mem hmem)

theorem Indexed.names_nodup (h : exchange.Indexed) :
    (exchange.orders.map (·.request.clientOrderId)).Nodup := by
  rw [List.nodup_iff_getElem?_ne_getElem?]
  intro i j hij hj he
  have hname := List.getElem?_eq_getElem hj
  have hi := (h.index _ i).mpr (he.trans hname)
  have hj := (h.index _ j).mpr hname
  exact hij.ne (Option.some.inj (hi.symm.trans hj))

theorem Indexed.lookup_of_findOrder_eq_none (h : exchange.Indexed) {name : String}
    (hfind : exchange.findOrder name = none) : exchange.orderIndex.lookup name = none := by
  cases hlookup : exchange.orderIndex.lookup name with
  | none => rfl
  | some i =>
    have hname := (h.index name i).mp hlookup
    rw [List.getElem?_map, Option.map_eq_some_iff] at hname
    obtain ⟨found, hfound, _⟩ := hname
    simp [findOrder, hlookup, hfound] at hfind

theorem lookup_concat_iff {index : List (String × ℕ)} {names : List String} {fresh : String}
    (h : ∀ name i, index.lookup name = some i ↔ names[i]? = some name)
    (hfresh : index.lookup fresh = none) (name : String) (i : ℕ) :
    (index ++ [(fresh, names.length)]).lookup name = some i ↔
      (names ++ [fresh])[i]? = some name := by
  rw [List.lookup_append, List.lookup_cons, List.lookup_nil, List.getElem?_append]
  by_cases hname : name = fresh
  · subst hname
    rw [hfresh, Option.none_or, beq_self_eq_true, Option.some.injEq]
    split_ifs with hi
    · refine iff_of_false hi.ne' fun hget => ?_
      rw [← h, hfresh] at hget
      exact absurd hget (by simp)
    · rw [List.getElem?_singleton]
      split_ifs with h0
      · exact iff_of_true (by omega) rfl
      · exact iff_of_false (by omega) (by simp)
  · have hbeq : (name == fresh) = false := by simpa using hname
    rw [hbeq, Option.or_none, h]
    split_ifs with hi
    · rfl
    · refine iff_of_false ?_ fun hget => ?_
      · rw [List.getElem?_eq_none (not_lt.mp hi)]
        simp
      · exact hname (by simpa using List.mem_of_getElem? hget)

theorem Indexed.append (h : exchange.Indexed) (hid : order.orderId = exchange.nextOrderId)
    (hfind : exchange.findOrder order.request.clientOrderId = none) :
    (exchange.append order).Indexed := by
  have hfresh := h.lookup_of_findOrder_eq_none hfind
  have hindex := lookup_concat_iff h.index hfresh
  refine ⟨fun name i => ?_, ?_, ?_⟩
  · simpa [PaperExchange.append, emplace, hfresh] using hindex name i
  · simp [PaperExchange.append, h.orderIds, hid, h.nextOrderId, List.range'_concat, add_comm]
  · simp [PaperExchange.append, h.nextOrderId]

end Orders

theorem consistent_new {config : PaperExchangeConfig} (hvalid : validConfig config = true) :
    Consistent config (new config) := by
  have hledger : (PerpetualLedger.new config.ledger).configError = .ok := by
    simp only [validConfig, Bool.and_eq_true, decide_eq_true_eq] at hvalid
    tauto
  obtain ⟨hposition, hfee, hrealized⟩ := PerpetualLedger.new_state config.ledger
  refine ⟨⟨rfl, rfl, rfl⟩, ?_, ⟨?_, rfl, rfl⟩, by simp [new], by simp [Attributed, new]⟩
  · exact {
      sound := PerpetualLedger.sound_new hledger
      position := congrArg Int64.toInt hposition
      totalFee := congrArg Int64.toInt hfee
      realizedPnl := congrArg Int64.toInt hrealized
      fillIds := rfl
      nextFillId := rfl }
  · simp [new]

section Transitions
variable {heard : MarketEvent → Prop} {allow : PaperExchange → OrderRequest → Prop}
  {config : PaperExchangeConfig} {s t : PaperExchange}

theorem orderReconciled_place {exchange : PaperExchange} {request : OrderRequest}
    {decisionTimeNs : Int64} (hpos : 0 < (normalized exchange.config request).quantityUnits)
    {fills : List PaperFill} (hfills : ∀ fill ∈ fills, fill.orderId ≠ exchange.nextOrderId) :
    OrderReconciled fills (exchange.place request decisionTimeNs) := by
  rw [FixedWidth.int64_pos_iff] at hpos
  refine ⟨(filledOf_eq_zero hfills).symm, le_rfl, hpos.le, fun _ => zero_add _,
    fun hc => absurd hc (by simp [place]), iff_of_false (by simp [place]) fun heq => ?_,
    fun _ => hpos⟩
  exact hpos.ne (congrArg Int64.toInt heq)

theorem Consistent.move (h : Consistent config s) {event : MarketEvent}
    {pre post : List PaperOrder} {order moved : PaperOrder} {books : Executions}
    (hsplit : s.orders = pre ++ order :: post)
    (hmove : Move s.config event (s.toExecutions, order) (books, moved)) :
    Consistent config { s with toExecutions := books, orders := pre ++ moved :: post } := by
  obtain ⟨hid, hrequest, _, _⟩ := hmove.order_eq
  have hbooked : s.toExecutions.Booked s.config.ledger := h.config_eq ▸ h.booked
  have hbooks := hbooked.move hmove
  rw [h.config_eq] at hbooks
  refine ⟨⟨h.config_eq, h.risk_eq, h.configValid_eq⟩, hbooks,
    h.indexed.replace hsplit rfl hid hrequest rfl rfl, fun other hmem => ?_,
    (hsplit ▸ h.linked).replace hid hrequest fun fill => names_of_move hmove⟩
  have hold : OrderReconciled s.fills order := h.orders order (by simp [hsplit])
  rcases Process.mem_replace hmem with rfl | hother
  · exact OrderReconciled.move hold hmove
  · have hin : other ∈ s.orders := by
      rw [hsplit, List.mem_append, List.mem_cons]
      exact hother.imp_right .inr
    exact (h.orders other hin).of_filledOf
      (filledOf_move hmove (h.indexed.orderId_ne hsplit hother))

theorem Consistent.append (h : Consistent config s) {request : OrderRequest}
    {market : MarketEvent} {decisionTimeNs : Int64}
    (hadmitted : s.Admitted request market decisionTimeNs) :
    Consistent config (s.append (s.place request decisionTimeNs)) := by
  have hpasses := passes_of_refusal_eq_none hadmitted.passes
  have hfresh : ∀ fill ∈ s.fills, fill.orderId ≠ s.nextOrderId := by
    intro fill hmem he
    obtain ⟨order, horder, hid, _⟩ := h.linked fill hmem
    have hin : order.orderId ∈ s.orders.map (·.orderId) := List.mem_map_of_mem horder
    rw [h.indexed.orderIds, List.mem_range'_1] at hin
    have hnext := h.indexed.nextOrderId
    omega
  refine ⟨⟨h.config_eq, h.risk_eq, h.configValid_eq⟩, h.booked,
    h.indexed.append rfl hadmitted.unknown, List.forall_mem_append.mpr ⟨h.orders, ?_⟩,
    h.linked.append _⟩
  exact List.forall_mem_singleton.mpr (orderReconciled_place hpasses.quantity hfresh)

theorem Consistent.mark (h : Consistent config s) (priceUnits : Int64) :
    Consistent config (s.markToMarket priceUnits) := by
  obtain ⟨hposition, hfee, hrealized⟩ := h.booked.sound.markToMarket_books priceUnits
  refine ⟨⟨h.config_eq, h.risk_eq, h.configValid_eq⟩, ?_,
    ⟨h.indexed.index, h.indexed.orderIds, h.indexed.nextOrderId⟩, h.orders, h.linked⟩
  exact {
    sound := h.booked.sound.markToMarket priceUnits
    position := (congrArg Int64.toInt hposition).trans h.booked.position
    totalFee := (congrArg Int64.toInt hfee).trans h.booked.totalFee
    realizedPnl := (congrArg Int64.toInt hrealized).trans h.booked.realizedPnl
    fillIds := h.booked.fillIds
    nextFillId := h.booked.nextFillId }

theorem Consistent.requestCancel (h : Consistent config s) {pre post : List PaperOrder}
    {order : PaperOrder} (due : Int64) (hsplit : s.orders = pre ++ order :: post)
    (hlive : order.isLive = true) :
    Consistent config { s with
      orders := pre ++ { order with status := .cancelPending, cancelDueTimeNs := some due } ::
        post } := by
  refine ⟨⟨h.config_eq, h.risk_eq, h.configValid_eq⟩, h.booked,
    h.indexed.replace hsplit rfl rfl rfl rfl rfl,
    Process.forall_mem_replace (hsplit ▸ h.orders) ?_,
    (hsplit ▸ h.linked).replace rfl rfl fun _ => .inl⟩
  have hold := h.orders order (by simp [hsplit])
  exact hold.of_isLive hlive (by simp) (by simp) ⟨rfl, rfl, rfl, rfl⟩

theorem Consistent.transition (h : Consistent config s) (hstep : Transition heard allow s t) :
    Consistent config t := by
  cases hstep with
  | observe event =>
    exact ⟨⟨h.config_eq, h.risk_eq, h.configValid_eq⟩, h.booked,
      ⟨h.indexed.index, h.indexed.orderIds, h.indexed.nextOrderId⟩, h.orders, h.linked⟩
  | ignore =>
    exact ⟨⟨h.config_eq, h.risk_eq, h.configValid_eq⟩, h.booked,
      ⟨h.indexed.index, h.indexed.orderIds, h.indexed.nextOrderId⟩, h.orders, h.linked⟩
  | mark priceUnits => exact h.mark priceUnits
  | move event pre post order moved books _ hsplit hmove => exact h.move hsplit hmove
  | append request market decisionTimeNs hadmitted => exact h.append hadmitted
  | requestCancel pre post order due hsplit hlive => exact h.requestCancel due hsplit hlive

theorem consistent_run (hvalid : validConfig config = true) (calls : List ExchangeCall) :
    Consistent config (run config calls) :=
  run_invariant_of_transitions (consistent_new hvalid) (fun h hstep => h.transition hstep) calls

end Transitions

theorem sum_map_sub {α : Type} (f g : α → ℤ) (as : List α) :
    (as.map fun a => f a - g a).sum = (as.map f).sum - (as.map g).sum := by
  induction as with
  | nil => rfl
  | cons a as ih =>
    simp only [List.map_cons, List.sum_cons, ih]
    ring

structure Reconciled (config : PaperExchangeConfig) (exchange : PaperExchange) : Prop where
  position : exchange.ledger.state.positionUnits.toInt =
    (exchange.fills.map (·.signedUnits)).sum
  totalFee : exchange.ledger.state.totalFeeUnits.toInt =
    (exchange.fills.map (·.feeUnits.toInt)).sum
  realizedPnl : exchange.ledger.state.realizedPnlUnits.toInt =
    (exchange.fills.map (·.realizedPnlUnits.toInt)).sum
  cash : exchange.ledger.state.cashUnits.toInt = config.ledger.initialCashUnits.toInt +
    (exchange.fills.map fun fill => fill.realizedPnlUnits.toInt - fill.feeUnits.toInt).sum
  orders : ∀ order ∈ exchange.orders, OrderReconciled exchange.fills order
  distinct : (exchange.orders.map (·.request.clientOrderId)).Nodup
  index : ∀ i order, exchange.orders[i]? = some order →
    exchange.orderIndex.lookup order.request.clientOrderId = some i
  orderIds : exchange.orders.map (·.orderId) = List.range' 1 exchange.orders.length
  fillIds : exchange.fills.map (·.fillId) = List.range' 1 exchange.fills.length

theorem Consistent.reconciled {config : PaperExchangeConfig} {exchange : PaperExchange}
    (h : Consistent config exchange) : Reconciled config exchange where
  position := h.booked.position
  totalFee := h.booked.totalFee
  realizedPnl := h.booked.realizedPnl
  cash := by
    have hcash : exchange.ledger.state.cashUnits.toInt =
        exchange.ledger.config.initialCashUnits.toInt +
          exchange.ledger.state.realizedPnlUnits.toInt -
          exchange.ledger.state.totalFeeUnits.toInt := h.booked.sound.balanced.cash
    rw [h.booked.sound.config, h.booked.realizedPnl, h.booked.totalFee] at hcash
    rw [hcash, sum_map_sub]
    ring
  orders := h.orders
  distinct := h.indexed.names_nodup
  index i order horder := by
    rw [h.indexed.index, List.getElem?_map, horder]
    rfl
  orderIds := h.indexed.orderIds
  fillIds := h.booked.fillIds

theorem run_reconciled (config : PaperExchangeConfig)
    (hvalid : (new config).configValid = true) (calls : List ExchangeCall) :
    Reconciled config (run config calls) :=
  (consistent_run hvalid calls).reconciled

theorem run_reconciled_partialFill :
    Reconciled { ledger := { initialCashUnits := 10000 } }
      (run { ledger := { initialCashUnits := 10000 } }
        [.onMarketEvent { sequence := 1, exchangeTimeNs := 1, receiveTimeNs := 1
                          bestBidUnits := 99, bestAskUnits := 101 },
         .submit { clientOrderId := "a", type := .limit, quantityUnits := 5
                   limitPriceUnits := some 99 } 1,
         .onMarketEvent { sequence := 2, exchangeTimeNs := 2, receiveTimeNs := 2
                          bestBidUnits := 99, bestAskUnits := 101
                          tradePriceUnits := some 99, tradeQuantityUnits := 3
                          aggressorSide := some .sell }]) :=
  run_reconciled _ (by decide +kernel) _

end PaperExchange
end Astra
