import AstraTrader.Types

/-! `PerpetualLedger` of `ledger.cpp`. A failed call returns before `state_ = candidate`,
so the candidate state is built in `Except` and stored only when every block succeeds. -/

namespace Astra
open FixedWidth

inductive LedgerError | ok | invalidConfiguration | invalidFill | arithmeticOverflow
  deriving DecidableEq, Repr

def LedgerError.toString : LedgerError → String
  | .ok => "ok"
  | .invalidConfiguration => "invalid_configuration"
  | .invalidFill => "invalid_fill"
  | .arithmeticOverflow => "arithmetic_overflow"

structure LedgerConfig where
  initialCashUnits : Int64 := 0
  accountScale : UInt8 := 0
  priceScale : UInt8 := 0
  quantityScale : UInt8 := 0
  deriving DecidableEq

@[ext] structure LedgerState where
  cashUnits : Int64 := 0
  positionUnits : Int64 := 0
  positionCostUnits : Int64 := 0
  averageEntryPriceUnits : Int64 := 0
  realizedPnlUnits : Int64 := 0
  unrealizedPnlUnits : Int64 := 0
  totalFeeUnits : Int64 := 0
  equityUnits : Int64 := 0
  lastMarkPriceUnits : Int64 := 0
  deriving DecidableEq

structure LedgerMutation where
  error : LedgerError := .ok
  realizedPnlUnits : Int64 := 0
  feeUnits : Int64 := 0
  deriving DecidableEq

def LedgerMutation.succeeded (mutation : LedgerMutation) : Bool := mutation.error = .ok

def sign (value : Int64) : Int64 := if 0 < value then 1 else if value < 0 then -1 else 0

/-- The loop of `rescale`: at most eighteen digits leave in one division. -/
def divideDigits (value : Wide) (exponent : ℕ) : Wide :=
  if exponent = 0 then value
  else divideDigits (value / powerOfTen (min exponent 18)) (exponent - min exponent 18)
termination_by exponent
decreasing_by omega

def rescale (value : Wide) (sourceScale targetScale : ℕ) : Option Int64 := do
  let value ←
    if sourceScale < targetScale then value.mulChecked (powerOfTen (targetScale - sourceScale))
    else some (divideDigits value (sourceScale - targetScale))
  narrow value

def checkedAdd (left : Int64) (right : Wide) : Option Int64 := do
  let sum ← (wide left).addChecked right
  narrow sum

structure PerpetualLedger where
  config : LedgerConfig
  state : LedgerState := {}
  configError : LedgerError := .ok
  deriving DecidableEq

namespace PerpetualLedger

/-- The constructor. -/
def new (config : LedgerConfig) : PerpetualLedger :=
  if config.initialCashUnits < 0 ∨ 18 < config.accountScale.toNat ∨
      18 < config.priceScale.toNat ∨ 18 < config.quantityScale.toNat then
    { config, configError := .invalidConfiguration }
  else
    { config
      state := { cashUnits := config.initialCashUnits, equityUnits := config.initialCashUnits } }

def notional (ledger : PerpetualLedger) (quantityUnits priceUnits : Int64) : Option Int64 := do
  let product ← (magnitude quantityUnits).mulChecked (wide priceUnits)
  rescale product (ledger.config.priceScale.toNat + ledger.config.quantityScale.toNat)
    ledger.config.accountScale.toNat

def orOverflow {α : Type} : Option α → Except LedgerError α
  | some value => .ok value
  | none => .error .arithmeticOverflow

def unrealized (candidate : LedgerState) (markedValue : Int64) : Wide :=
  let cost := magnitude candidate.positionCostUnits
  if 0 < candidate.positionUnits then wide markedValue - cost
  else if candidate.positionUnits < 0 then cost - wide markedValue
  else 0

def refreshMark (ledger : PerpetualLedger) (candidate : LedgerState) (priceUnits : Int64) :
    Except LedgerError LedgerState :=
  if priceUnits ≤ 0 then .error .invalidFill
  else orOverflow do
    let markedValue ← ledger.notional candidate.positionUnits priceUnits
    let unrealized := unrealized candidate markedValue
    let unrealizedPnlUnits ← narrow unrealized
    let equityUnits ← checkedAdd candidate.cashUnits unrealized
    some { candidate with
      unrealizedPnlUnits
      equityUnits
      lastMarkPriceUnits := priceUnits }

/-- `apply_fill` when the fill opens a position or adds to it. -/
def openOrAdd (candidate : LedgerState) (signedQuantityUnits fillNotional : Int64) :
    Option (LedgerState × Wide) := do
  let positionUnits ← checkedAdd candidate.positionUnits (wide signedQuantityUnits)
  let positionCostUnits ← checkedAdd candidate.positionCostUnits
    (wide (sign signedQuantityUnits) * wide fillNotional)
  some ({ candidate with positionUnits, positionCostUnits }, 0)

def costAfterClose (ledger : PerpetualLedger) (candidate : LedgerState) (positionUnits : Int64)
    (allocatedCost : Wide) (priceUnits : Int64) : Option Int64 :=
  if positionUnits = 0 then some 0
  else if sign positionUnits = sign candidate.positionUnits then
    narrow (wide candidate.positionCostUnits - allocatedCost)
  else
    let openingQuantity := magnitude positionUnits
    (ledger.notional openingQuantity.toInt64 priceUnits).map (sign positionUnits * ·)

/-- `apply_fill` when the fill reduces, closes or reverses the position. -/
def closeOrReverse (ledger : PerpetualLedger) (candidate : LedgerState)
    (signedQuantityUnits priceUnits : Int64) : Option (LedgerState × Wide) := do
  let oldPosition := candidate.positionUnits
  let oldCost := candidate.positionCostUnits
  let closeQuantity := min (magnitude oldPosition) (magnitude signedQuantityUnits)
  -- plain 128-bit operators, and casts that no range check guards
  let allocatedCost := wide oldCost * closeQuantity / magnitude oldPosition
  let closeNotional ← ledger.notional closeQuantity.toInt64 priceUnits
  let realized := wide (sign oldPosition) *
    (wide closeNotional - magnitude allocatedCost.toInt64)
  let newPosition := wide oldPosition + wide signedQuantityUnits
  let positionUnits ← narrow newPosition
  let positionCostUnits ←
    ledger.costAfterClose candidate positionUnits allocatedCost priceUnits
  some ({ candidate with positionUnits, positionCostUnits }, realized)

def trade (ledger : PerpetualLedger) (signedQuantityUnits priceUnits fillNotional : Int64) :
    Option (LedgerState × Wide) :=
  let oldPosition := ledger.state.positionUnits
  let adds := oldPosition = 0 ∨ sign oldPosition = sign signedQuantityUnits
  if adds then openOrAdd ledger.state signedQuantityUnits fillNotional
  else ledger.closeOrReverse ledger.state signedQuantityUnits priceUnits

/-- `apply_fill`: cash, realized result and fees take the fill in. -/
def settle (candidate : LedgerState) (realized : Wide) (feeUnits : Int64) :
    Option LedgerState := do
  let cashUnits ← checkedAdd candidate.cashUnits (realized - wide feeUnits)
  let realizedPnlUnits ← checkedAdd candidate.realizedPnlUnits realized
  let totalFeeUnits ← checkedAdd candidate.totalFeeUnits (wide feeUnits)
  some { candidate with cashUnits, realizedPnlUnits, totalFeeUnits }

def averageNumerator (ledger : PerpetualLedger) (cost : Wide) : Option Wide :=
  let sourceScale := ledger.config.priceScale.toNat + ledger.config.quantityScale.toNat
  let accountScale := ledger.config.accountScale.toNat
  if accountScale ≤ sourceScale then cost.mulChecked (powerOfTen (sourceScale - accountScale))
  else some (cost / powerOfTen (accountScale - sourceScale))

/-- `apply_fill`: the average entry price follows the new position and cost. -/
def refreshAverageEntry (ledger : PerpetualLedger) (candidate : LedgerState) :
    Option LedgerState :=
  if candidate.positionUnits = 0 then
    some { candidate with positionCostUnits := 0, averageEntryPriceUnits := 0 }
  else do
    let numerator ← ledger.averageNumerator (magnitude candidate.positionCostUnits)
    let averageEntryPriceUnits ← narrow (numerator / magnitude candidate.positionUnits)
    some { candidate with averageEntryPriceUnits }

/-- The candidate state that a fill leads to, with the result it realizes. -/
def fillCandidate (ledger : PerpetualLedger) (signedQuantityUnits priceUnits feeUnits : Int64) :
    Except LedgerError (LedgerState × Wide) :=
  if ledger.configError ≠ .ok ∨ signedQuantityUnits = 0 ∨ priceUnits ≤ 0 ∨ feeUnits < 0 then
    .error .invalidFill
  else do
    let fillNotional ← orOverflow (ledger.notional signedQuantityUnits priceUnits)
    let (candidate, realized) ← orOverflow
      (ledger.trade signedQuantityUnits priceUnits fillNotional)
    let candidate ← orOverflow (settle candidate realized feeUnits)
    let candidate ← orOverflow (ledger.refreshAverageEntry candidate)
    let candidate ← ledger.refreshMark candidate priceUnits
    return (candidate, realized)

def applyFill (ledger : PerpetualLedger) (signedQuantityUnits priceUnits feeUnits : Int64) :
    PerpetualLedger × LedgerMutation :=
  match ledger.fillCandidate signedQuantityUnits priceUnits feeUnits with
  | .error error => (ledger, { error })
  | .ok (candidate, realized) =>
    ({ ledger with state := candidate },
      { error := .ok, realizedPnlUnits := realized.toInt64, feeUnits })

def markToMarket (ledger : PerpetualLedger) (priceUnits : Int64) :
    PerpetualLedger × LedgerError :=
  if ledger.configError ≠ .ok then (ledger, ledger.configError)
  else match ledger.refreshMark ledger.state priceUnits with
  | .error error => (ledger, error)
  | .ok candidate => ({ ledger with state := candidate }, .ok)

end PerpetualLedger
end Astra
