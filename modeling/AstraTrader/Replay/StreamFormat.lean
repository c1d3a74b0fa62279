import AstraTrader.Numeric.Rounding
import AstraTrader.Replay.Fields
import AstraTrader.Replay.Model

/-! The replay stream as a file: `write_stream` puts a minute down as one synthetic event, and the
main loop of `astra_replay` reads the events back. -/

namespace Astra.Replay
open FixedWidth Text

/-- The members of a `Minute` that `write_stream` reads. -/
structure Minute where
  timestampMs : ℤ
  closePrice : ℚ
  buyNotional : ℚ
  sellNotional : ℚ

/-- An operation on decimals, in the default context. -/
def decimal (x : ℚ) : ℚ := Decimal.inContext 28 x

def priceUnits (value : ℚ) : ℤ := Decimal.roundHalfUp (decimal (value * 100))

namespace Minute

def closeUnits (item : Minute) : ℤ := priceUnits item.closePrice

def halfSpread (item : Minute) : ℤ := max 1 (item.closeUnits / 100000)

def imbalance (item : Minute) : ℤ :=
  let total := decimal (item.buyNotional + item.sellNotional)
  let imbalance := if 0 < total then
      Decimal.roundHalfUp
        (decimal (decimal (decimal (item.buyNotional - item.sellNotional) / total) * 1000000))
    else 0
  max (-900000) (min 900000 imbalance)

def exchangeTimeNs (item : Minute) : ℤ := item.timestampMs * 1000000

def aggressor (item : Minute) : String := if 0 ≤ item.imbalance then "buy" else "sell"

/-- The numbers of the row of a minute, in the order of the columns after the sequence. -/
def numbers (item : Minute) : List ℤ :=
  [item.exchangeTimeNs, item.closeUnits - item.halfSpread, item.closeUnits + item.halfSpread,
    1000000 + item.imbalance, 1000000 - item.imbalance, item.closeUnits, 1]

def fields (sequence : ℕ) (item : Minute) : List Line :=
  Nat.toDigits 10 sequence :: item.numbers.map printInt ++ [item.aggressor.toList]

end Minute

def streamHeader : List Line :=
  ["sequence".toList, "exchange_time_ns".toList, "best_bid_units".toList, "best_ask_units".toList,
    "bid_quantity_units".toList, "ask_quantity_units".toList, "trade_price_units".toList,
    "trade_quantity_units".toList, "aggressor_side".toList]

/-- The rows of `items`, the first of them numbered `sequence`. -/
def streamRows (sequence : ℕ) : List Minute → List Line
  | [] => []
  | item :: rest => writeFields (item.fields sequence) :: streamRows (sequence + 1) rest

/-- The minutes of all archives, with the terminator that `write_stream` gives its writer. -/
def writeStream (items : List Minute) : Line :=
  (writeFields streamHeader :: streamRows 1 items).flatMap fun row => row ++ ['\n']

def headerRow : Line :=
  ("sequence,exchange_time_ns,best_bid_units,best_ask_units,bid_quantity_units," ++
    "ask_quantity_units,trade_price_units,trade_quantity_units,aggressor_side").toList

/-- `parse_row` on the text of a line. -/
def parseLine (feedLatencyNs : Int64) (line : Line) : Option MarketEvent :=
  match splitCsv line with
  | [sequence, exchangeTimeNs, bestBid, bestAsk, bidQuantity, askQuantity, tradePrice,
      tradeQuantity, aggressor] => do
    let sequence ← parseUInt64 sequence
    let exchangeTimeNs ← parseInt64 exchangeTimeNs
    let bestBidUnits ← parseInt64 bestBid
    let bestAskUnits ← parseInt64 bestAsk
    let bidQuantityUnits ← parseInt64 bidQuantity
    let askQuantityUnits ← parseInt64 askQuantity
    let tradePriceUnits ← parseInt64 tradePrice
    let tradeQuantityUnits ← parseInt64 tradeQuantity
    parseRow feedLatencyNs
      { sequence, exchangeTimeNs, bestBidUnits, bestAskUnits, bidQuantityUnits, askQuantityUnits
        tradePriceUnits, tradeQuantityUnits, aggressor := String.ofList aggressor }
  | _ => none

/-- The rows of the input, or the number of the first that is invalid. -/
def parseLines (feedLatencyNs : Int64) (rowNumber : ℕ) : List Line → Except ℕ (List MarketEvent)
  | [] => .ok []
  | line :: rest =>
    match parseLine feedLatencyNs line with
    | none => .error (rowNumber + 1)
    | some event =>
      (parseLines feedLatencyNs (rowNumber + 1) rest).map fun events => event :: events

/-- The lines that the main loop takes for rows: a header is only looked for at the start. -/
def rowsOf (text : Line) : List Line :=
  match lines text with
  | [] => []
  | first :: rest => if first = headerRow then rest else first :: rest

def readStream (feedLatencyNs : Int64) (text : Line) : Except ℕ (List MarketEvent) :=
  parseLines feedLatencyNs 0 (rowsOf text)

/-- A minute that can be written as row `sequence`, with all values in range. -/
structure Minute.Emittable (feedLatencyNs : Int64) (sequence : ℕ) (item : Minute) : Prop where
  timestamp : 0 < item.timestampMs
  close : 2 ≤ item.closeUnits
  sequence_pos : 0 < sequence
  sequence_lt : sequence < 2 ^ 64
  receive : item.exchangeTimeNs + feedLatencyNs.toInt < 2 ^ 63
  ask : item.closeUnits + item.halfSpread < 2 ^ 63

instance (feedLatencyNs : Int64) (sequence : ℕ) (item : Minute) :
    Decidable (item.Emittable feedLatencyNs sequence) :=
  decidable_of_iff (0 < item.timestampMs ∧ 2 ≤ item.closeUnits ∧ 0 < sequence ∧
    sequence < 2 ^ 64 ∧ item.exchangeTimeNs + feedLatencyNs.toInt < 2 ^ 63 ∧
    item.closeUnits + item.halfSpread < 2 ^ 63)
    ⟨fun h => ⟨h.1, h.2.1, h.2.2.1, h.2.2.2.1, h.2.2.2.2.1, h.2.2.2.2.2⟩,
      fun h => ⟨h.timestamp, h.close, h.sequence_pos, h.sequence_lt, h.receive, h.ask⟩⟩

/-- The event of a minute, once its row has been read. -/
def Minute.event (feedLatencyNs : Int64) (sequence : ℕ) (item : Minute) : MarketEvent where
  sequence := UInt64.ofNat sequence
  exchangeTimeNs := Int64.ofInt item.exchangeTimeNs
  receiveTimeNs := Int64.ofInt item.exchangeTimeNs + feedLatencyNs
  bestBidUnits := Int64.ofInt (item.closeUnits - item.halfSpread)
  bestAskUnits := Int64.ofInt (item.closeUnits + item.halfSpread)
  bidQuantityUnits := Int64.ofInt (1000000 + item.imbalance)
  askQuantityUnits := Int64.ofInt (1000000 - item.imbalance)
  tradePriceUnits := some (Int64.ofInt item.closeUnits)
  tradeQuantityUnits := Int64.ofInt 1
  aggressorSide := some (if 0 ≤ item.imbalance then .buy else .sell)

section Rows
variable {feedLatencyNs : Int64} {sequence : ℕ} {item : Minute}

theorem Minute.imbalance_bounds (item : Minute) :
    -900000 ≤ item.imbalance ∧ item.imbalance ≤ 900000 := by
  unfold Minute.imbalance
  dsimp only
  omega

theorem Minute.halfSpread_bounds (h : 2 ≤ item.closeUnits) :
    1 ≤ item.halfSpread ∧ item.halfSpread < item.closeUnits := by
  unfold Minute.halfSpread
  omega

theorem Minute.plain_fields (sequence : ℕ) (item : Minute) :
    ∀ field ∈ item.fields sequence, Plain field := by
  have haggressor : Plain item.aggressor.toList := by
    unfold Minute.aggressor
    split_ifs <;> exact plain_of_any rfl
  intro field hfield
  rcases List.mem_append.mp hfield with hfield | hfield
  · rcases List.mem_cons.mp hfield with rfl | hfield
    · exact plain_toDigits sequence
    · obtain ⟨value, _, rfl⟩ := List.mem_map.mp hfield
      exact plain_printInt value
  · rw [List.mem_singleton.mp hfield]
    exact haggressor

/-- The numbers of a minute, as the reader of row `number` has them. -/
structure Minute.ShownBy (feedLatencyNs : Int64) (number : ℕ) (item : Minute)
    (event : MarketEvent) : Prop where
  sequence : event.sequence.toNat = number
  exchangeTime : event.exchangeTimeNs.toInt = item.exchangeTimeNs
  receiveTime : event.receiveTimeNs.toInt = item.exchangeTimeNs + feedLatencyNs.toInt
  bid : event.bestBidUnits.toInt = item.closeUnits - item.halfSpread
  ask : event.bestAskUnits.toInt = item.closeUnits + item.halfSpread
  bidQuantity : event.bidQuantityUnits.toInt = 1000000 + item.imbalance
  askQuantity : event.askQuantityUnits.toInt = 1000000 - item.imbalance

theorem Minute.Emittable.ranges (hlatency : 0 ≤ feedLatencyNs.toInt)
    (h : item.Emittable feedLatencyNs sequence) : ∀ value ∈ item.numbers, InRange64 value := by
  have htime : item.exchangeTimeNs = item.timestampMs * 1000000 := rfl
  obtain ⟨hspread, hbid⟩ := Minute.halfSpread_bounds h.close
  obtain ⟨hlo, hhi⟩ := item.imbalance_bounds
  have htimestamp := h.timestamp
  have hreceive := h.receive
  have hask := h.ask
  simp only [Minute.numbers, List.forall_mem_cons, InRange64]
  refine ⟨⟨?_, ?_⟩, ⟨?_, ?_⟩, ⟨?_, ?_⟩, ⟨?_, ?_⟩, ⟨?_, ?_⟩, ⟨?_, ?_⟩, ⟨?_, ?_⟩, by simp⟩ <;> omega

theorem Minute.Emittable.shownBy (hlatency : 0 ≤ feedLatencyNs.toInt)
    (h : item.Emittable feedLatencyNs sequence) :
    item.ShownBy feedLatencyNs sequence (item.event feedLatencyNs sequence) := by
  have hranges := h.ranges hlatency
  simp only [Minute.numbers, List.forall_mem_cons] at hranges
  obtain ⟨htime, hbid, hask, hbidQuantity, haskQuantity, _, _, _⟩ := hranges
  have hexchange : (Int64.ofInt item.exchangeTimeNs).toInt = item.exchangeTimeNs :=
    int64_toInt_ofInt htime
  have hpositive : 0 < item.exchangeTimeNs := mul_pos h.timestamp (by norm_num)
  refine {
    sequence := ?_
    exchangeTime := hexchange
    receiveTime := ?_
    bid := int64_toInt_ofInt hbid
    ask := int64_toInt_ofInt hask
    bidQuantity := int64_toInt_ofInt hbidQuantity
    askQuantity := int64_toInt_ofInt haskQuantity }
  · exact UInt64.toNat_ofNat_of_lt' h.sequence_lt
  · have hreceive := h.receive
    refine (int64_toInt_add_of_inRange ?_).trans (by rw [hexchange])
    rw [hexchange]
    constructor <;> omega

theorem parseAggressor_eq (item : Minute) :
    parseAggressor (String.ofList item.aggressor.toList) =
      some (some (if 0 ≤ item.imbalance then .buy else .sell)) := by
  unfold Minute.aggressor
  split_ifs <;> rfl

theorem parseRow_numbers (hlatency : 0 ≤ feedLatencyNs.toInt)
    (h : item.Emittable feedLatencyNs sequence) :
    parseRow feedLatencyNs
      { sequence := UInt64.ofNat sequence
        exchangeTimeNs := Int64.ofInt item.exchangeTimeNs
        bestBidUnits := Int64.ofInt (item.closeUnits - item.halfSpread)
        bestAskUnits := Int64.ofInt (item.closeUnits + item.halfSpread)
        bidQuantityUnits := Int64.ofInt (1000000 + item.imbalance)
        askQuantityUnits := Int64.ofInt (1000000 - item.imbalance)
        tradePriceUnits := Int64.ofInt item.closeUnits
        tradeQuantityUnits := Int64.ofInt 1
        aggressor := String.ofList item.aggressor.toList } =
      some (item.event feedLatencyNs sequence) := by
  have hshown := h.shownBy hlatency
  have hranges := h.ranges hlatency
  simp only [Minute.numbers, List.forall_mem_cons] at hranges
  obtain ⟨_, _, _, _, _, hclose, _, _⟩ := hranges
  have hprice := int64_toInt_ofInt hclose
  have htime : 0 < item.exchangeTimeNs := mul_pos h.timestamp (by norm_num)
  obtain ⟨hspread, hbid⟩ := Minute.halfSpread_bounds h.close
  obtain ⟨hlo, hhi⟩ := item.imbalance_bounds
  have hclosePos := h.close
  have hsequence := uint64_ofNat_ne_zero h.sequence_pos h.sequence_lt
  have htraded : 0 < Int64.ofInt item.closeUnits := by
    rw [int64_pos_iff, hprice]
    omega
  unfold parseRow
  rw [if_neg, parseAggressor_eq, Option.map_some, if_pos htraded]
  · rfl
  · have hexchangeTime := hshown.exchangeTime
    have hbestBid := hshown.bid
    have hbestAsk := hshown.ask
    have hbidQuantity := hshown.bidQuantity
    have haskQuantity := hshown.askQuantity
    simp only [Minute.event] at hexchangeTime hbestBid hbestAsk hbidQuantity haskQuantity
    simp only [not_or, Int64.lt_iff_toInt_lt, Int64.le_iff_toInt_le,
      Int64.toInt_zero, hexchangeTime, hbestBid, hbestAsk, hbidQuantity, haskQuantity, hprice]
    refine ⟨hsequence, htime.not_ge, ?_, ?_, ?_, ?_, ?_, by decide⟩ <;> omega

theorem splitCsv_fields (sequence : ℕ) (item : Minute) :
    splitCsv (writeFields (item.fields sequence)) = item.fields sequence :=
  splitCsv_writeFields (by simp [Minute.fields]) (by simp [Minute.fields, Minute.numbers])
    (item.plain_fields sequence)

theorem parseLine_writeFields (hlatency : 0 ≤ feedLatencyNs.toInt)
    (h : item.Emittable feedLatencyNs sequence) :
    parseLine feedLatencyNs (writeFields (item.fields sequence)) =
      some (item.event feedLatencyNs sequence) := by
  have hranges := h.ranges hlatency
  simp only [Minute.numbers, List.forall_mem_cons] at hranges
  obtain ⟨htime, hbid, hask, hbidQuantity, haskQuantity, hclose, hone, _⟩ := hranges
  have hsequence : parseUInt64 (Nat.toDigits 10 sequence) = some (UInt64.ofNat sequence) := by
    rw [parseUInt64_eq_some_iff, UInt64.toNat_ofNat_of_lt' h.sequence_lt]
    exact numeral_toDigits sequence
  rw [parseLine, splitCsv_fields]
  simp only [Minute.fields, Minute.numbers, List.map_cons, List.map_nil, List.cons_append,
    List.nil_append, hsequence, parseInt64_printInt htime, parseInt64_printInt hbid,
    parseInt64_printInt hask, parseInt64_printInt hbidQuantity, parseInt64_printInt haskQuantity,
    parseInt64_printInt hclose, parseInt64_printInt hone, Option.bind_eq_bind, Option.bind_some]
  exact parseRow_numbers hlatency h

theorem Minute.Emittable.accepts (hlatency : 0 ≤ feedLatencyNs.toInt)
    (h : item.Emittable feedLatencyNs sequence) {exchange : PaperExchange}
    (hvalid : exchange.configValid = true)
    (hheard : ∀ heard ∈ exchange.market, heard.sequence.toNat < sequence) :
    exchange.accepts (item.event feedLatencyNs sequence) := by
  have hshown := h.shownBy hlatency
  have htime : 0 < item.exchangeTimeNs := mul_pos h.timestamp (by norm_num)
  obtain ⟨hspread, hbid⟩ := Minute.halfSpread_bounds h.close
  refine ⟨hvalid, uint64_ofNat_ne_zero h.sequence_pos h.sequence_lt, fun heard hmem => ?_, ?_, ?_,
    ?_, ?_⟩
  · rw [UInt64.lt_iff_toNat_lt, hshown.sequence]
    exact hheard heard hmem
  · rw [int64_pos_iff, hshown.exchangeTime]
    exact htime
  · rw [Int64.le_iff_toInt_le, hshown.exchangeTime, hshown.receiveTime]
    omega
  · rw [int64_pos_iff, hshown.bid]
    omega
  · rw [Int64.le_iff_toInt_le, hshown.bid, hshown.ask]
    omega

end Rows

section Stream
variable {feedLatencyNs : Int64} {items : List Minute}

/-- The events of `items`, the first of them numbered `sequence`. -/
def streamEvents (feedLatencyNs : Int64) (sequence : ℕ) : List Minute → List MarketEvent
  | [] => []
  | item :: rest => item.event feedLatencyNs sequence ::
      streamEvents feedLatencyNs (sequence + 1) rest

theorem streamEvents_getElem? (feedLatencyNs : Int64) (sequence : ℕ) (items : List Minute)
    (k : ℕ) : (streamEvents feedLatencyNs sequence items)[k]? =
      items[k]?.map fun item => item.event feedLatencyNs (sequence + k) := by
  induction items generalizing sequence k with
  | nil => rfl
  | cons item rest ih =>
    cases k with
    | zero => rfl
    | succ k =>
      rw [streamEvents, List.getElem?_cons_succ, List.getElem?_cons_succ, ih]
      congr 2
      funext item
      rw [Nat.add_right_comm, Nat.add_assoc]

theorem parseLines_streamRows (hlatency : 0 ≤ feedLatencyNs.toInt) (rowNumber sequence : ℕ)
    (hitems : ∀ (k : ℕ) (item : Minute), items[k]? = some item →
      item.Emittable feedLatencyNs (sequence + k)) :
    parseLines feedLatencyNs rowNumber (streamRows sequence items) =
      .ok (streamEvents feedLatencyNs sequence items) := by
  induction items generalizing rowNumber sequence with
  | nil => rfl
  | cons item rest ih =>
    have hfirst : item.Emittable feedLatencyNs sequence := hitems 0 item rfl
    have hrest := ih (rowNumber + 1) (sequence + 1) fun k next hnext => by
      rw [Nat.add_right_comm, Nat.add_assoc]
      exact hitems (k + 1) next hnext
    rw [streamRows, parseLines, parseLine_writeFields hlatency hfirst]
    simp only [hrest]
    rfl

theorem mem_streamRows {sequence : ℕ} {row : Line} (h : row ∈ streamRows sequence items) :
    ∃ (number : ℕ) (item : Minute), row = writeFields (item.fields number) := by
  induction items generalizing sequence with
  | nil => simp [streamRows] at h
  | cons item rest ih =>
    rcases List.mem_cons.mp h with rfl | h
    · exact ⟨sequence, item, rfl⟩
    · exact ih h

theorem rowsOf_writeStream (items : List Minute) :
    rowsOf (writeStream items) = streamRows 1 items := by
  have hlines : lines (writeStream items) = writeFields streamHeader :: streamRows 1 items := by
    refine lines_terminated (List.forall_mem_cons.mpr ⟨by decide +kernel, ?_⟩)
    intro row hrow
    obtain ⟨sequence, item, rfl⟩ := mem_streamRows hrow
    exact lineFeed_not_mem_writeFields (by simp [Minute.fields, Minute.numbers])
      (item.plain_fields sequence)
  have hheader : writeFields streamHeader = headerRow := by decide +kernel
  rw [rowsOf, hlines]
  simp only [if_pos hheader]

theorem readStream_writeStream (hlatency : 0 ≤ feedLatencyNs.toInt)
    (hitems : ∀ (k : ℕ) (item : Minute), items[k]? = some item →
      item.Emittable feedLatencyNs (1 + k)) :
    readStream feedLatencyNs (writeStream items) = .ok (streamEvents feedLatencyNs 1 items) := by
  rw [readStream, rowsOf_writeStream]
  exact parseLines_streamRows hlatency 0 1 hitems

end Stream
end Astra.Replay
