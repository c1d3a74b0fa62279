import AstraTrader.Live.FeedDecimal
import AstraTrader.Process.Fallible
import AstraTrader.Process.Run
import AstraTrader.Text.Json
import Mathlib.Data.List.Induction

/-! `BinancePublicFeed`: the messages of the exchange, and the top of book that the feed carries
from one to the next. The four values are read and assigned one by one. -/

namespace Astra.PublicFeed
open Process Text

structure BinancePublicFeedConfig where
  priceScale : UInt8 := 2
  quantityScale : UInt8 := 3

structure Book where
  bestBid : Int64 := 0
  bestAsk : Int64 := 0
  bidQuantity : Int64 := 0
  askQuantity : Int64 := 0
  deriving DecidableEq

inductive BookField | bestBid | bestAsk | bidQuantity | askQuantity
  deriving DecidableEq

namespace BookField

def key : BookField → String
  | bestBid => "b"
  | bestAsk => "a"
  | bidQuantity => "B"
  | askQuantity => "A"

def scale (config : BinancePublicFeedConfig) : BookField → UInt8
  | bestBid | bestAsk => config.priceScale
  | bidQuantity | askQuantity => config.quantityScale

def get : BookField → Book → Int64
  | bestBid, book => book.bestBid
  | bestAsk, book => book.bestAsk
  | bidQuantity, book => book.bidQuantity
  | askQuantity, book => book.askQuantity

def set : BookField → Int64 → Book → Book
  | bestBid, value, book => { book with bestBid := value }
  | bestAsk, value, book => { book with bestAsk := value }
  | bidQuantity, value, book => { book with bidQuantity := value }
  | askQuantity, value, book => { book with askQuantity := value }

/-- The order of the assignments in `decode`. -/
def all : List BookField := [bestBid, bestAsk, bidQuantity, askQuantity]

theorem mem_all (field : BookField) : field ∈ all := by cases field <;> decide

theorem nodup_all : all.Nodup := by decide

theorem cells : Cells get set where
  get_set_self field a s := by cases field <;> rfl
  get_set_ne field other a s h := by
    cases field <;> cases other <;> first | rfl | exact absurd rfl h
  ext s t h := by
    cases s
    cases t
    exact Book.mk.injEq .. ▸ ⟨h bestBid, h bestAsk, h bidQuantity, h askQuantity⟩

end BookField

def member (object : JsonObject) (key : String) : Except String Json :=
  match object.lookup key with
  | some item => .ok item
  | none => .error ("missing " ++ key)

def stringMember (object : JsonObject) (key : String) : Except String (List Char) := do
  match ← member object key with
  | .string value => pure (cString value)
  | _ => throw ("non-string " ++ key)

def intMember (object : JsonObject) (key : String) : Except String Int64 := do
  match ← member object key with
  | .int64 value => pure value
  | _ => throw ("non-integer " ++ key)

def scaledMember (object : JsonObject) (key : String) (scale : UInt8) : Except String Int64 := do
  parseScaled (← stringMember object key) scale

def eventData (document : JsonObject) : Except String JsonObject :=
  match document.lookup "data" with
  | none => .ok document
  | some (.object data) => .ok data
  | some _ => .error "invalid event data"

structure Header where
  data : JsonObject
  eventName : List Char
  exchangeTimeNs : Int64

def readHeader (document : JsonObject) : Except String Header := do
  let data ← eventData document
  match ← member data "e" with
  | .string name =>
    let exchangeTimeMs ← intMember data "E"
    pure { data, eventName := cString name, exchangeTimeNs := exchangeTimeMs * 1000000 }
  | _ => throw "invalid event name"

def readField (config : BinancePublicFeedConfig) (data : JsonObject) (field : BookField) :
    Except String Int64 := scaledMember data field.key (field.scale config)

def makerSells (data : JsonObject) : Bool :=
  match data.lookup "m" with
  | some (.bool maker) => maker
  | _ => false

def readTrade (config : BinancePublicFeedConfig) (data : JsonObject) (event : MarketEvent) :
    Except String MarketEvent := do
  let price ← scaledMember data "p" config.priceScale
  let quantity ← scaledMember data "q" config.quantityScale
  pure
    { event with
      tradePriceUnits := some price
      tradeQuantityUnits := quantity
      aggressorSide := some (if makerSells data then .sell else .buy) }

def withBook (event : MarketEvent) (book : Book) : MarketEvent :=
  { event with
    bestBidUnits := book.bestBid
    bestAskUnits := book.bestAsk
    bidQuantityUnits := book.bidQuantity
    askQuantityUnits := book.askQuantity }

/-- The exchange time of an event is not after its arrival. -/
def clampTime (event : MarketEvent) : MarketEvent :=
  if event.receiveTimeNs < event.exchangeTimeNs then
    { event with exchangeTimeNs := event.receiveTimeNs }
  else event

/-- The message as an event, and the book that is left, also when the message is refused. -/
def decode (config : BinancePublicFeedConfig) (sequence : UInt64) (receiveTimeNs : Int64)
    (document : JsonObject) (book : Book) : Except String MarketEvent × Book :=
  match readHeader document with
  | .error error => (.error error, book)
  | .ok header =>
    let event : MarketEvent :=
      withBook { sequence, exchangeTimeNs := header.exchangeTimeNs, receiveTimeNs } book
    if header.eventName = "bookTicker".toList then
      let (result, book) := assignAll (readField config header.data) BookField.set BookField.all book
      (result.map fun _ => clampTime (withBook event book), book)
    else if header.eventName = "aggTrade".toList then
      ((readTrade config header.data event).map clampTime, book)
    else (.error "unsupported Binance event", book)

/-- What the read loop meets: a payload with what it parses to, or the end of the connection. -/
inductive Arrival
  | message (payload : Option Json) (receiveTimeNs : Int64)
  | disconnected (error : String)

/-- What `run` keeps across messages and reconnects, and what it has handed out. -/
structure FeedState where
  sequence : UInt64 := 0
  book : Book := {}
  events : List MarketEvent := []
  errors : List String := []

def HandsOut (event : MarketEvent) : Prop :=
  event.tradePriceUnits.isSome = true ∨
    0 < event.bestBidUnits ∧ event.bestBidUnits ≤ event.bestAskUnits

instance (event : MarketEvent) : Decidable (HandsOut event) :=
  inferInstanceAs (Decidable (_ ∨ _))

def feedStep (config : BinancePublicFeedConfig) (state : FeedState) : Arrival → FeedState
  | .message (some (.object document)) receiveTimeNs =>
    let sequence := state.sequence + 1
    let decoded := decode config sequence receiveTimeNs document state.book
    match decoded.1 with
    | .error error =>
      { state with sequence, book := decoded.2, errors := state.errors ++ [error] }
    | .ok event =>
      { state with
        sequence
        book := decoded.2
        events := if HandsOut event then state.events ++ [event] else state.events }
  | .message _ _ => { state with errors := state.errors ++ ["invalid Binance JSON message"] }
  | .disconnected error => { state with errors := state.errors ++ [error] }

def run (config : BinancePublicFeedConfig) (arrivals : List Arrival) : FeedState :=
  arrivals.foldl (feedStep config) {}

def bookOf (event : MarketEvent) : Book where
  bestBid := event.bestBidUnits
  bestAsk := event.bestAskUnits
  bidQuantity := event.bidQuantityUnits
  askQuantity := event.askQuantityUnits

theorem bookOf_clampTime (event : MarketEvent) : bookOf (clampTime event) = bookOf event := by
  unfold clampTime
  split_ifs <;> rfl

/-- The message is a ticker, and `header` is what it starts with. -/
structure IsTicker (document : JsonObject) (header : Header) : Prop where
  header_eq : readHeader document = .ok header
  eventName : header.eventName = "bookTicker".toList

def assignBook (config : BinancePublicFeedConfig) (data : JsonObject) (book : Book) :
    Except String Unit × Book :=
  assignAll (readField config data) BookField.set BookField.all book

/-- The values of the message do not all come through, and one that does is new. -/
def TearsBook (config : BinancePublicFeedConfig) (document : JsonObject) (book : Book) : Prop :=
  ∃ header, IsTicker document header ∧
    Tears (readField config header.data) BookField.get BookField.all book

/-- A refused message leaves the book as it was. -/
def IntactOnFailure (config : BinancePublicFeedConfig) (document : JsonObject) (book : Book) :
    Prop :=
  ∀ (sequence : UInt64) (receiveTimeNs : Int64) (error : String),
    (decode config sequence receiveTimeNs document book).1 = .error error →
      (decode config sequence receiveTimeNs document book).2 = book

section Decoding
variable {config : BinancePublicFeedConfig} {sequence : UInt64} {receiveTimeNs : Int64}
  {document : JsonObject} {book : Book} {header : Header} {event : MarketEvent}

theorem decode_of_ticker (h : IsTicker document header) :
    decode config sequence receiveTimeNs document book =
      ((assignBook config header.data book).1.map fun _ =>
        clampTime (withBook { sequence, exchangeTimeNs := header.exchangeTimeNs, receiveTimeNs }
          (assignBook config header.data book).2), (assignBook config header.data book).2) := by
  unfold decode
  rw [h.header_eq]
  dsimp only
  rw [if_pos h.eventName]
  rfl

theorem readTrade_book {data : JsonObject} {traded : MarketEvent}
    (h : readTrade config data event = .ok traded) : bookOf traded = bookOf event := by
  simp only [readTrade, bind_eq_ok_iff] at h
  obtain ⟨_, _, _, _, h⟩ := h
  rw [← Except.ok.inj h]
  rfl

theorem decode_of_other (h : ∀ header, ¬ IsTicker document header) :
    (decode config sequence receiveTimeNs document book).2 = book ∧
      ∀ event, (decode config sequence receiveTimeNs document book).1 = .ok event →
        bookOf event = book := by
  unfold decode
  cases hheader : readHeader document with
  | error error => exact ⟨rfl, fun event h => absurd h (by simp)⟩
  | ok header =>
    have hname : ¬ header.eventName = "bookTicker".toList := fun hname => h header ⟨hheader, hname⟩
    dsimp only
    rw [if_neg hname]
    split_ifs
    · refine ⟨rfl, fun event h => ?_⟩
      obtain ⟨traded, htrade, rfl⟩ := map_eq_ok_iff.mp h
      rw [bookOf_clampTime, readTrade_book htrade]
      rfl
    · exact ⟨rfl, fun event h => absurd h (by simp)⟩

theorem decode_book (h : (decode config sequence receiveTimeNs document book).1 = .ok event) :
    bookOf event = (decode config sequence receiveTimeNs document book).2 := by
  by_cases hticker : ∃ header, IsTicker document header
  · obtain ⟨header, hheader⟩ := hticker
    rw [decode_of_ticker hheader] at h ⊢
    obtain ⟨_, _, rfl⟩ := map_eq_ok_iff.mp h
    rw [bookOf_clampTime]
    rfl
  · obtain ⟨hsame, hevent⟩ := @decode_of_other config sequence receiveTimeNs document book
      (not_exists.mp hticker)
    rw [hsame]
    exact hevent event h

theorem decode_intact_iff : IntactOnFailure config document book ↔
    ¬ TearsBook config document book := by
  have htears := fun header : Header => @assignAll_intact_iff _ _ _ _
    (readField config header.data) _ _ _ book BookField.cells BookField.nodup_all
  constructor
  · rintro hintact ⟨header, hheader, hnew⟩
    refine (htears header).mp (fun error herror => ?_) hnew
    have hfailure := hintact 0 0 error
    rw [decode_of_ticker hheader] at hfailure
    exact hfailure (by rw [assignBook, herror]; rfl)
  · intro hnew sequence receiveTimeNs error herror
    by_cases hticker : ∃ header, IsTicker document header
    · obtain ⟨header, hheader⟩ := hticker
      rw [decode_of_ticker hheader] at herror ⊢
      dsimp only at herror ⊢
      cases hassigned : (assignBook config header.data book).1 with
      | ok _ =>
        rw [hassigned] at herror
        exact absurd herror (by simp [Except.map])
      | error error' =>
        exact (htears header).mpr (fun h => hnew ⟨header, hheader, h⟩) error' hassigned
    · exact (decode_of_other (not_exists.mp hticker)).1

theorem decode_ok_book (h : (decode config sequence receiveTimeNs document book).1 = .ok event) :
    (decode config sequence receiveTimeNs document book).2 = book ∨
      ∃ header, IsTicker document header ∧ ∀ field : BookField,
        readField config header.data field =
          .ok (field.get (decode config sequence receiveTimeNs document book).2) := by
  by_cases hticker : ∃ header, IsTicker document header
  · obtain ⟨header, hheader⟩ := hticker
    rw [decode_of_ticker hheader] at h ⊢
    refine .inr ⟨header, hheader, fun field => ?_⟩
    obtain ⟨_, hassigned, _⟩ := map_eq_ok_iff.mp h
    have hall := assignAll_of_ok BookField.cells BookField.nodup_all hassigned
    exact hall.1 field (BookField.mem_all field)
  · exact .inl (decode_of_other (not_exists.mp hticker)).1

end Decoding

/-- The book is the initial one, or the four values of one of the tickers that arrived. -/
def FromOneTicker (config : BinancePublicFeedConfig) (arrivals : List Arrival) (book : Book) :
    Prop :=
  book = {} ∨ ∃ document receiveTimeNs header,
    .message (some (.object document)) receiveTimeNs ∈ arrivals ∧ IsTicker document header ∧
      ∀ field : BookField, readField config header.data field = .ok (field.get book)

/-- The arrival is a message that tears the book it meets. -/
def TearsAt (config : BinancePublicFeedConfig) (state : FeedState) (arrival : Arrival) : Prop :=
  ∃ document receiveTimeNs, arrival = .message (some (.object document)) receiveTimeNs ∧
    TearsBook config document state.book

section Runs
variable {config : BinancePublicFeedConfig} {arrivals : List Arrival} {arrival : Arrival}

theorem FromOneTicker.append {book : Book} (h : FromOneTicker config arrivals book)
    (more : List Arrival) : FromOneTicker config (arrivals ++ more) book := by
  rcases h with hzero | ⟨document, receiveTimeNs, header, hmem, hrest⟩
  · exact .inl hzero
  · exact .inr ⟨document, receiveTimeNs, header, List.mem_append_left _ hmem, hrest⟩

/-- What the feed carries and what it has handed out. -/
structure Untorn (config : BinancePublicFeedConfig) (arrivals : List Arrival) (state : FeedState) :
    Prop where
  book : FromOneTicker config arrivals state.book
  events : ∀ event ∈ state.events, FromOneTicker config arrivals (bookOf event)

theorem Untorn.append {state : FeedState} (h : Untorn config arrivals state)
    (more : List Arrival) : Untorn config (arrivals ++ more) state :=
  ⟨h.book.append more, fun event hevent => (h.events event hevent).append more⟩

theorem Untorn.step {state : FeedState} (h : Untorn config arrivals state)
    (htears : ¬ TearsAt config state arrival) :
    Untorn config (arrivals ++ [arrival]) (feedStep config state arrival) := by
  have hold := h.append [arrival]
  unfold feedStep
  split
  · rename_i document receiveTimeNs
    have hintact := (@decode_intact_iff config document state.book).mpr
      fun htorn => htears ⟨document, receiveTimeNs, rfl, htorn⟩
    dsimp only
    cases hdecoded : (decode config (state.sequence + 1) receiveTimeNs document state.book).1 with
    | error error =>
      refine ⟨?_, hold.events⟩
      rw [hintact _ _ error hdecoded]
      exact hold.book
    | ok event =>
      have hbook : FromOneTicker config (arrivals ++ [.message (some (.object document))
          receiveTimeNs]) (decode config (state.sequence + 1) receiveTimeNs document
            state.book).2 := by
        rcases decode_ok_book hdecoded with hsame | ⟨header, hheader, hread⟩
        · rw [hsame]
          exact hold.book
        · exact .inr ⟨document, receiveTimeNs, header, by simp, hheader, hread⟩
      refine ⟨hbook, fun handed hhanded => ?_⟩
      dsimp only at hhanded
      split_ifs at hhanded
      · rcases List.mem_append.mp hhanded with hbefore | hnew
        · exact hold.events handed hbefore
        · rw [List.mem_singleton.mp hnew, decode_book hdecoded]
          exact hbook
      · exact hold.events handed hhanded
  · exact ⟨hold.book, hold.events⟩
  · exact ⟨hold.book, hold.events⟩

theorem untorn_run
    (h : AllSteps (feedStep config) (fun state arrival => ¬ TearsAt config state arrival) {}
      arrivals) : Untorn config arrivals (run config arrivals) := by
  induction arrivals using List.reverseRecOn with
  | nil => exact ⟨.inl rfl, fun event hevent => absurd hevent (List.not_mem_nil)⟩
  | append_singleton arrivals arrival ih =>
    obtain ⟨hbefore, htears, _⟩ := AllSteps.append.mp h
    rw [run, List.foldl_concat]
    exact (ih hbefore).step htears

end Runs

/-- A message leaves the book intact unless it tears it, and while none does every event shows the
book of one ticker. -/
theorem decode_keepsBook (config : BinancePublicFeedConfig) :
    (∀ (document : JsonObject) (book : Book),
      IntactOnFailure config document book ↔ ¬ TearsBook config document book) ∧
    ∀ arrivals : List Arrival,
      AllSteps (feedStep config) (fun state arrival => ¬ TearsAt config state arrival) {}
        arrivals →
      ∀ event ∈ (run config arrivals).events, FromOneTicker config arrivals (bookOf event) :=
  ⟨fun _ _ => decode_intact_iff, fun _ h => (untorn_run h).events⟩

/-- A ticker, and a trade that is handed out with its book. -/
theorem decode_keepsBook_trade :
    let ticker : JsonObject := [("e", .string "bookTicker".toList), ("E", .int64 1),
      ("b", .string "100.00".toList), ("a", .string "100.01".toList),
      ("B", .string "3".toList), ("A", .string "2.5".toList)]
    let trade : JsonObject := [("e", .string "aggTrade".toList), ("E", .int64 2),
      ("p", .string "100.01".toList), ("q", .string "1".toList), ("m", .bool true)]
    let arrivals : List Arrival := [.message (some (.object ticker)) 2000000,
      .message (some (.object trade)) 3000000]
    ∀ event ∈ (run {} arrivals).events, FromOneTicker {} arrivals (bookOf event) := by
  intro ticker trade arrivals
  refine (decode_keepsBook {}).2 arrivals ⟨?_, ?_, trivial⟩
  · rintro ⟨document, receiveTimeNs, harrival, header, hheader, _, field, _, _, _, hfailed, _⟩
    obtain ⟨hdocument, _⟩ := Arrival.message.inj harrival
    obtain rfl : ticker = document := Json.object.inj (Option.some.inj hdocument)
    have hread : readHeader ticker = .ok { data := ticker, eventName := "bookTicker".toList,
                                           exchangeTimeNs := 1000000 } := rfl
    obtain rfl := Except.ok.inj (hheader.header_eq.symm.trans hread)
    have hok : (readField {} ticker field).isOk = true := by cases field <;> decide +kernel
    rw [hfailed] at hok
    exact absurd hok Bool.false_ne_true
  · rintro ⟨document, receiveTimeNs, harrival, header, hheader, _⟩
    obtain ⟨hdocument, _⟩ := Arrival.message.inj harrival
    obtain rfl : trade = document := Json.object.inj (Option.some.inj hdocument)
    have hread : readHeader trade = .ok { data := trade, eventName := "aggTrade".toList,
                                          exchangeTimeNs := 2000000 } := rfl
    obtain rfl := Except.ok.inj (hheader.header_eq.symm.trans hread)
    exact absurd hheader.eventName (by decide)

/-- A ticker without an ask leaves its bid in the book, and the next trade shows it. -/
theorem not_forall_intactOnFailure :
    (¬ ∀ (config : BinancePublicFeedConfig) (document : JsonObject) (book : Book),
      IntactOnFailure config document book) ∧
    (run {} [.message (some (.object [("e", .string "bookTicker".toList), ("E", .int64 1),
        ("b", .string "100.00".toList)])) 2000000,
      .message (some (.object [("e", .string "aggTrade".toList), ("E", .int64 2),
        ("p", .string "100.01".toList), ("q", .string "1".toList)])) 3000000]).events.map bookOf =
      [{ bestBid := 10000 }] := by
  refine ⟨fun h => ?_, by decide +kernel⟩
  have hintact := h {} [("e", .string "bookTicker".toList), ("E", .int64 1),
    ("b", .string "100.00".toList)] {} 1 2000000 "missing a" (by decide +kernel)
  exact absurd hintact (by decide +kernel)

end Astra.PublicFeed
