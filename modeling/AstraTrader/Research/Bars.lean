import AstraTrader.Process.Extremes
import AstraTrader.Process.Grouping
import AstraTrader.Process.Run
import Mathlib.Algebra.Order.Field.Rat

/-! The bars of `build_btc_tick_features.py` and the minutes that `build_btc_laya_tick_samples.py`
makes of them: two streaming stages, which give what grouping the trades by minute gives. -/

namespace Astra.Bars
open Process

/-- A row of an archive, its figures as exact numbers. -/
structure AggTrade where
  timestampMs : ℤ
  price : ℚ
  quantity : ℚ
  isBuyerMaker : String

namespace AggTrade

def notional (trade : AggTrade) : ℚ := trade.price * trade.quantity

def buys (trade : AggTrade) : Bool := trade.isBuyerMaker.toLower = "false"

end AggTrade

structure Bar where
  timestampMs : ℤ
  «open» : ℚ
  high : ℚ
  low : ℚ
  close : ℚ
  notional : ℚ
  buyNotional : ℚ := 0
  sellNotional : ℚ := 0
  tradeCount : ℕ := 1
  buyCount : ℕ := 0
  sellCount : ℕ := 0

def bucketOf (trade : AggTrade) : ℤ := trade.timestampMs / 5000 * 5000

namespace Bar

/-- The trade on the side of its taker. -/
def bySide (bar : Bar) (trade : AggTrade) : Bar :=
  if trade.buys then
    { bar with
      buyNotional := bar.buyNotional + trade.notional
      buyCount := bar.buyCount + 1 }
  else
    { bar with
      sellNotional := bar.sellNotional + trade.notional
      sellCount := bar.sellCount + 1 }

def first (trade : AggTrade) : Bar where
  timestampMs := bucketOf trade
  «open» := trade.price
  high := trade.price
  low := trade.price
  close := trade.price
  notional := trade.notional

def add (bar : Bar) (trade : AggTrade) : Bar :=
  { bar with
    high := max bar.high trade.price
    low := min bar.low trade.price
    close := trade.price
    notional := bar.notional + trade.notional
    tradeCount := bar.tradeCount + 1 }

end Bar

/-- The variables of `build`, with the rows that are written. -/
structure BuildState where
  rows : List Bar := []
  bucket : Option Bar := none
  trades : ℕ := 0
  firstMs : Option ℤ := none
  lastMs : Option ℤ := none

def emitBar (rows : List Bar) (bucket : Option Bar) : List Bar := rows ++ bucket.toList

def buildStep (state : BuildState) (trade : AggTrade) : BuildState :=
  let (rows, bar) :=
    match state.bucket with
    | none => (emitBar state.rows none, Bar.first trade)
    | some bar =>
      if bucketOf trade ≠ bar.timestampMs then (emitBar state.rows (some bar), Bar.first trade)
      else (state.rows, bar.add trade)
  { rows
    bucket := some (bar.bySide trade)
    trades := state.trades + 1
    firstMs := some (state.firstMs.elim trade.timestampMs (min · trade.timestampMs))
    lastMs := some (state.lastMs.elim trade.timestampMs (max · trade.timestampMs)) }

/-- The archives one after another; the last bucket is written at the end. -/
def build (archives : List (List AggTrade)) : BuildState :=
  let state := archives.foldl (fun state archive => archive.foldl buildStep state) {}
  { state with rows := emitBar state.rows state.bucket }

/-- The variables of the minute loop. -/
structure MinuteBar where
  minuteMs : ℤ
  close : ℚ
  high : ℚ
  low : ℚ
  buy : ℚ
  sell : ℚ
  trades : ℕ

namespace MinuteBar

def first (row : Bar) : MinuteBar where
  minuteMs := row.timestampMs / 60000 * 60000
  close := row.close
  high := row.high
  low := row.low
  buy := row.buyNotional
  sell := row.sellNotional
  trades := row.tradeCount

def add (minute : MinuteBar) (row : Bar) : MinuteBar :=
  { minute with
    close := row.close
    high := max minute.high row.high
    low := min minute.low row.low
    buy := minute.buy + row.buyNotional
    sell := minute.sell + row.sellNotional
    trades := minute.trades + row.tradeCount }

end MinuteBar

def minuteStep (state : List MinuteBar × Option MinuteBar) (row : Bar) :
    List MinuteBar × Option MinuteBar :=
  match state.2 with
  | none => (state.1, some (MinuteBar.first row))
  | some minute =>
    if row.timestampMs / 60000 * 60000 ≠ minute.minuteMs then
      (state.1 ++ [minute], some (MinuteBar.first row))
    else (state.1, some (minute.add row))

/-- The minutes in the order in which they are closed, the last one at the end. -/
def minuteBars (rows : List Bar) : List MinuteBar :=
  let state := rows.foldl minuteStep ([], none)
  state.1 ++ state.2.toList

/-! ### The two stages as groupings -/

def barGrouper : Grouper ℤ AggTrade Bar where
  key := bucketOf
  keyOf := Bar.timestampMs
  start trade := (Bar.first trade).bySide trade
  extend bar trade := (bar.add trade).bySide trade
  keyOf_start trade := by unfold Bar.bySide; split_ifs <;> rfl
  keyOf_extend bar trade := by unfold Bar.bySide; split_ifs <;> rfl

def minuteGrouper : Grouper ℤ Bar MinuteBar where
  key row := row.timestampMs / 60000 * 60000
  keyOf := MinuteBar.minuteMs
  start := MinuteBar.first
  extend := MinuteBar.add
  keyOf_start _ := rfl
  keyOf_extend _ _ := rfl

theorem buildStep_step (state : BuildState) (trade : AggTrade) :
    ((buildStep state trade).rows, (buildStep state trade).bucket) =
      barGrouper.step (state.rows, state.bucket) trade := by
  unfold buildStep Grouper.step
  cases state.bucket with
  | none => exact congrArg (·, _) (List.append_nil _)
  | some bar =>
    dsimp only
    by_cases hsame : barGrouper.key trade = barGrouper.keyOf bar
    · have hbucket : ¬ bucketOf trade ≠ bar.timestampMs := not_not.mpr hsame
      rw [if_neg hbucket, if_pos hsame]
      rfl
    · have hbucket : bucketOf trade ≠ bar.timestampMs := hsame
      rw [if_pos hbucket, if_neg hsame]
      rfl

theorem build_rows (archives : List (List AggTrade)) :
    (build archives).rows = barGrouper.grouped archives.flatten := by
  have hrun := foldl_observed (f := fun state : BuildState => (state.rows, state.bucket))
    buildStep_step {} archives.flatten
  unfold build Grouper.grouped Grouper.flush emitBar
  rw [← List.foldl_flatten]
  exact congrArg (fun state : List Bar × Option Bar => state.1 ++ state.2.toList) hrun

theorem minuteBars_eq (rows : List Bar) : minuteBars rows = minuteGrouper.grouped rows := by
  have hstep : minuteStep = minuteGrouper.step := by
    funext state row
    obtain ⟨closed, current⟩ := state
    unfold minuteStep Grouper.step
    cases current with
    | none => rfl
    | some minute =>
      dsimp only
      rw [ite_not]
      rfl
  unfold minuteBars
  rw [hstep]
  rfl

/-! ### What the stages keep of a group -/

/-- The figures that both kinds of bar have. -/
structure Totals where
  close : ℚ
  high : ℚ
  low : ℚ
  buy : ℚ
  sell : ℚ
  trades : ℕ

def AggTrade.totals (trade : AggTrade) : Totals where
  close := trade.price
  high := trade.price
  low := trade.price
  buy := if trade.buys then trade.notional else 0
  sell := if trade.buys then 0 else trade.notional
  trades := 1

def Bar.totals (bar : Bar) : Totals where
  close := bar.close
  high := bar.high
  low := bar.low
  buy := bar.buyNotional
  sell := bar.sellNotional
  trades := bar.tradeCount

def MinuteBar.totals (minute : MinuteBar) : Totals where
  close := minute.close
  high := minute.high
  low := minute.low
  buy := minute.buy
  sell := minute.sell
  trades := minute.trades

/-- The figures of `items` taken together, from the figures of each. -/
structure Totalled {ι : Type} (part : ι → Totals) (items : List ι) (whole : Totals) : Prop where
  close : items.getLast?.map (fun item => (part item).close) = some whole.close
  high : IsGreatest {x | x ∈ items.map fun item => (part item).high} whole.high
  low : IsLeast {x | x ∈ items.map fun item => (part item).low} whole.low
  buy : whole.buy = (items.map fun item => (part item).buy).sum
  sell : whole.sell = (items.map fun item => (part item).sell).sum
  trades : whole.trades = (items.map fun item => (part item).trades).sum

def Totals.combine (totals item : Totals) : Totals where
  close := item.close
  high := max totals.high item.high
  low := min totals.low item.low
  buy := totals.buy + item.buy
  sell := totals.sell + item.sell
  trades := totals.trades + item.trades

section Totalling
variable {ι : Type} {part : ι → Totals} {items : List ι} {whole : Totals}

theorem totalled_singleton (item : ι) : Totalled part [item] (part item) := by
  constructor <;> simp [IsGreatest, IsLeast, upperBounds, lowerBounds]

theorem Totalled.concat (h : Totalled part items whole) (item : ι) :
    Totalled part (items ++ [item]) (whole.combine (part item)) := by
  constructor
  · rw [List.getLast?_concat]
    rfl
  · rw [List.map_append]
    exact isGreatest_concat h.high
  · rw [List.map_append]
    exact isLeast_concat h.low
  · simp [Totals.combine, h.buy]
  · simp [Totals.combine, h.sell]
  · simp [Totals.combine, h.trades]

theorem totalled_flatten {chunks : List (List ι)} {bars : List Bar}
    (hchunks : List.Forall₂ (fun chunk bar => Totalled part chunk bar.totals) chunks bars)
    (hbars : Totalled Bar.totals bars whole) : Totalled part chunks.flatten whole where
  close := by
    rw [getLast?_flatten_of_forall₂ (hchunks.imp fun _ _ h => h.close)]
    exact hbars.close
  high := isGreatest_flatten_of_forall₂ (hchunks.imp fun _ _ h => h.high) hbars.high
  low := isLeast_flatten_of_forall₂ (hchunks.imp fun _ _ h => h.low) hbars.low
  buy := hbars.buy.trans (sum_flatten_of_forall₂ (hchunks.imp fun _ _ h => h.buy))
  sell := hbars.sell.trans (sum_flatten_of_forall₂ (hchunks.imp fun _ _ h => h.sell))
  trades := hbars.trades.trans (sum_flatten_of_forall₂ (hchunks.imp fun _ _ h => h.trades))

end Totalling

theorem totals_first (trade : AggTrade) :
    ((Bar.first trade).bySide trade).totals = trade.totals := by
  unfold Bar.bySide Bar.totals AggTrade.totals
  split_ifs <;> simp [Bar.first]

theorem totals_add (bar : Bar) (trade : AggTrade) :
    ((bar.add trade).bySide trade).totals = bar.totals.combine trade.totals := by
  unfold Bar.bySide Bar.totals AggTrade.totals Totals.combine
  split_ifs <;> simp [Bar.add]

theorem summarises_bars :
    barGrouper.Summarises fun trades bar => Totalled AggTrade.totals trades bar.totals where
  start trade := by
    show Totalled _ _ ((Bar.first trade).bySide trade).totals
    rw [totals_first]
    exact totalled_singleton trade
  extend trades bar trade h := by
    show Totalled _ _ ((bar.add trade).bySide trade).totals
    rw [totals_add]
    exact h.concat trade

theorem summarises_minutes :
    minuteGrouper.Summarises fun rows minute => Totalled Bar.totals rows minute.totals where
  start row := @totalled_singleton _ Bar.totals row
  extend _ _ row h := h.concat row

/-! ### Grouping by minute -/

def minuteOf (trade : AggTrade) : ℤ := trade.timestampMs / 60000

/-- The figures of the trades of a minute, taken from the trades. -/
structure Direct (trades : List AggTrade) (minute : MinuteBar) : Prop where
  close : trades.getLast?.map AggTrade.price = some minute.close
  high : IsGreatest {x | x ∈ trades.map AggTrade.price} minute.high
  low : IsLeast {x | x ∈ trades.map AggTrade.price} minute.low
  buy : minute.buy = ((trades.filter AggTrade.buys).map AggTrade.notional).sum
  sell : minute.sell = ((trades.filter fun trade => !trade.buys).map AggTrade.notional).sum
  trades : minute.trades = trades.length

/-- `minutes` is what grouping `trades` by minute gives. -/
structure GroupsByMinute (trades : List AggTrade) (minutes : List MinuteBar) : Prop where
  increasing : (minutes.map MinuteBar.minuteMs).Pairwise (· < ·)
  nonempty : ∀ k, k * 60000 ∈ minutes.map MinuteBar.minuteMs ↔ ∃ trade ∈ trades, minuteOf trade = k
  direct : ∀ minute ∈ minutes, ∃ k, minute.minuteMs = k * 60000 ∧
    Direct (trades.filter fun trade => minuteOf trade = k) minute
  count : (minutes.map MinuteBar.trades).sum = trades.length

section Minutes
variable {trades : List AggTrade} {minute : MinuteBar}

theorem sum_map_ite (side : AggTrade → Bool) (trades : List AggTrade) :
    (trades.map fun trade => if side trade then trade.notional else 0).sum =
      ((trades.filter side).map AggTrade.notional).sum := by
  induction trades with
  | nil => rfl
  | cons trade trades ih =>
    rw [List.map_cons, List.sum_cons, ih, List.filter_cons]
    split_ifs
    · rw [List.map_cons, List.sum_cons]
    · rw [zero_add]

theorem sum_map_trades (trades : List AggTrade) :
    (trades.map fun trade => trade.totals.trades).sum = trades.length := by
  induction trades with
  | nil => rfl
  | cons trade trades ih =>
    rw [List.map_cons, List.sum_cons, ih, List.length_cons]
    exact Nat.add_comm 1 _

theorem Totalled.direct (h : Totalled AggTrade.totals trades minute.totals) :
    Direct trades minute where
  close := h.close
  high := h.high
  low := h.low
  buy := h.buy.trans (sum_map_ite AggTrade.buys trades)
  sell := by
    refine h.sell.trans ((congrArg List.sum (List.map_congr_left fun trade _ => ?_)).trans
      (sum_map_ite (fun trade => !trade.buys) trades))
    unfold AggTrade.totals
    cases trade.buys <;> rfl
  trades := h.trades.trans (sum_map_trades trades)

theorem chunked_minutes (trades : List AggTrade) :
    Chunked (fun trade => minuteOf trade * 60000) MinuteBar.minuteMs
      (fun trades minute => Totalled AggTrade.totals trades minute.totals) trades
      (minuteBars (barGrouper.grouped trades)) := by
  rw [minuteBars_eq]
  refine (Grouper.chunked_grouped summarises_bars trades).trans
    (Grouper.chunked_grouped summarises_minutes _) (fun trade bar hkey => ?_)
    fun chunks bars minute hchunks hbars => totalled_flatten (hchunks.imp fun _ _ h => h.2) hbars
  have hbucket : trade.timestampMs / 5000 * 5000 = bar.timestampMs := hkey
  show trade.timestampMs / 60000 * 60000 = bar.timestampMs / 60000 * 60000
  omega

theorem increasing_minutes (hsorted : (trades.map AggTrade.timestampMs).Pairwise (· ≤ ·)) :
    ((minuteBars (barGrouper.grouped trades)).map MinuteBar.minuteMs).Pairwise (· < ·) := by
  rw [minuteBars_eq]
  have hbars : ((barGrouper.grouped trades).map Bar.timestampMs).Pairwise (· < ·) := by
    refine @Grouper.increasing_grouped _ _ _ _ barGrouper trades ?_
    rw [List.pairwise_map] at hsorted ⊢
    refine hsorted.imp fun {a b} hle => ?_
    show a.timestampMs / 5000 * 5000 ≤ b.timestampMs / 5000 * 5000
    omega
  refine @Grouper.increasing_grouped _ _ _ _ minuteGrouper _ ?_
  rw [List.pairwise_map] at hbars ⊢
  refine hbars.imp fun {a b} hlt => ?_
  show a.timestampMs / 60000 * 60000 ≤ b.timestampMs / 60000 * 60000
  omega

end Minutes

/-- Five seconds first and minutes from these: the minutes of the trades. -/
theorem minuteBars_build (archives : List (List AggTrade))
    (hsorted : (archives.flatten.map AggTrade.timestampMs).Pairwise (· ≤ ·)) :
    GroupsByMinute archives.flatten (minuteBars (build archives).rows) := by
  rw [build_rows]
  have hchunked := chunked_minutes archives.flatten
  have hincreasing := increasing_minutes hsorted
  have hdistinct : ((minuteBars (barGrouper.grouped archives.flatten)).map
      MinuteBar.minuteMs).Nodup := hincreasing.imp fun hlt => hlt.ne
  refine ⟨hincreasing, fun k => ⟨fun hk => ?_, ?_⟩, fun minute hminute => ?_, ?_⟩
  · obtain ⟨minute, hminute, hkey⟩ := List.mem_map.mp hk
    obtain ⟨trade, htrade⟩ := List.exists_mem_of_ne_nil _ (hchunked.filter hdistinct hminute).1
    obtain ⟨hmem, hsame⟩ := List.mem_filter.mp htrade
    have hk' := of_decide_eq_true hsame
    rw [hkey] at hk'
    exact ⟨trade, hmem, by omega⟩
  · rintro ⟨trade, htrade, rfl⟩
    obtain ⟨minute, hminute, hkey⟩ := hchunked.exists_key htrade
    exact List.mem_map.mpr ⟨minute, hminute, hkey⟩
  · obtain ⟨hne, htotalled⟩ := hchunked.filter hdistinct hminute
    obtain ⟨trade, htrade⟩ := List.exists_mem_of_ne_nil _ hne
    have hsame := of_decide_eq_true (List.mem_filter.mp htrade).2
    refine ⟨minuteOf trade, hsame.symm, ?_⟩
    have hfilter : (fun other => decide (minuteOf other * 60000 = minute.minuteMs)) =
        fun other => decide (minuteOf other = minuteOf trade) := by
      funext other
      exact decide_eq_decide.mpr (by omega)
    rw [hfilter] at htotalled
    exact htotalled.direct
  · obtain ⟨chunks, hflatten, hchunks⟩ := hchunked
    have hsum := sum_flatten_of_forall₂ (hchunks.imp fun _ _ h => h.2.2.trades)
    rw [hflatten, sum_map_trades] at hsum
    exact hsum

/-- Three trades of two minutes in two archives, the second archive within a bucket of the first. -/
theorem minuteBars_build_example :
    let trade : AggTrade :=
      { timestampMs := 59000, price := 100, quantity := 2, isBuyerMaker := "False" }
    let archives := [[trade], [{ trade with timestampMs := 59999, price := 90 },
      { trade with timestampMs := 60000, isBuyerMaker := "true" }]]
    GroupsByMinute archives.flatten (minuteBars (build archives).rows) :=
  minuteBars_build _ (by decide +kernel)

end Astra.Bars
