import Mathlib.Data.List.Basic
import Mathlib.Data.Rat.Floor

/-! `run_btc_model_oos_report.py`: the labelled samples of each split, over exact rationals, and
the simulator that thresholds are chosen with. -/

namespace Astra.Report

/-- A row of the replay input. The script keeps one array for each column. -/
structure BookRow where
  timestampNs : ℤ
  bid : ℤ
  ask : ℤ
  bid_pos : 0 < bid
  bid_le_ask : bid ≤ ask
  deriving DecidableEq

def BookRow.mid (row : BookRow) : ℤ := (row.bid + row.ask) / 2

inductive Split | developmentTrain | developmentValidation | holdout2026
  deriving DecidableEq, Repr

/-- The ends of `SPLITS`, through `to_ns`. -/
def Split.start : Split → ℤ
  | .developmentTrain => 1735689600000000000
  | .developmentValidation => 1751328000000000000
  | .holdout2026 => 1767225600000000000

def Split.stop : Split → ℤ
  | .developmentTrain => 1751327999000000000
  | .developmentValidation => 1767225599000000000
  | .holdout2026 => 1788220799000000000

def splitFor (timestamp : ℤ) : Option Split :=
  [.developmentTrain, .developmentValidation, .holdout2026].find? fun split =>
    split.start ≤ timestamp ∧ timestamp ≤ split.stop

/-- `COSTS["base"]`. -/
def baseFeePpm : ℕ := 500
def baseSlippagePpm : ℕ := 100

inductive ClassName | hold | long | short
  deriving DecidableEq, Repr

/-- `label_for`, given the row at the index and the one `horizon` rows on. -/
def labelFor (current future : BookRow) (margin : ℚ) (feePpm slippagePpm : ℕ) : ClassName :=
  let roundTripCost : ℚ := 2 * (feePpm + slippagePpm) / 1000000
  let longEdge : ℚ := future.bid / current.ask - 1 - roundTripCost
  let shortEdge : ℚ := current.bid / future.ask - 1 - roundTripCost
  if max longEdge shortEdge ≤ margin then .hold
  else if shortEdge ≤ longEdge then .long else .short

/-- A sample without its features. -/
structure Sample where
  index : ℕ
  timestampNs : ℤ
  split : Split
  label : ClassName
  deriving DecidableEq

/-- Python's `range` with a positive step. -/
def range (start stop step : ℕ) : List ℕ :=
  List.range' start ((stop - start + step - 1) / step) step

def sampleAt (rows : List BookRow) (horizon : ℕ) (labelMargin : ℚ) (index : ℕ) :
    Option Sample := do
  let row ← rows[index]?
  let split ← splitFor row.timestampNs
  let future ← rows[index + horizon]?
  return {
    index
    timestampNs := row.timestampNs
    split
    label := labelFor row future labelMargin baseFeePpm baseSlippagePpm }

def buildSamples (rows : List BookRow) (stride horizon : ℕ) (labelMargin : ℚ) : List Sample :=
  (range 60 (rows.length - horizon) stride).filterMap (sampleAt rows horizon labelMargin)

/-- `grouped` of `main`. -/
def grouped (rows : List BookRow) (stride horizon : ℕ) (labelMargin : ℚ) (split : Split) :
    List Sample :=
  (buildSamples rows stride horizon labelMargin).filter (·.split = split)

/-! The simulator. -/

/-- A sample's index with the row it points at. -/
structure SampledRow where
  index : ℕ
  book : BookRow

def fillPrice (price side slippagePpm : ℤ) : ℤ :=
  if 0 < side then price + (price * slippagePpm + 999999) / 1000000
  else max 1 (price - price * slippagePpm / 1000000)

/-- What `execute` trades. The script only counts it. -/
structure SimulatedFill where
  index : ℕ
  side : ℤ
  quantity : ℤ
  price : ℤ
  fee : ℤ
  deriving DecidableEq

structure Simulation where
  cash : ℤ := 10000000
  position : ℤ := 0
  averageEntry : ℤ := 0
  pending : Option ℤ := none
  fills : List SimulatedFill := []
  fees : ℤ := 0
  grossProfit : ℤ := 0
  grossLoss : ℤ := 0
  equityPeak : ℤ := 10000000
  maxDrawdown : ℤ := 0
  equityCurve : List ℤ := []
  deriving DecidableEq

namespace Simulation

/-- What closing `closing` units of the position realizes at `price`. -/
def pnl (state : Simulation) (price closing : ℤ) : ℤ :=
  if 0 < state.position then (price - state.averageEntry) * closing / 1000
  else (state.averageEntry - price) * closing / 1000

def execute (feePpm slippagePpm : ℤ) (state : Simulation) (target : ℤ) (row : SampledRow) :
    Simulation :=
  let delta := target - state.position
  if delta = 0 then state
  else
    let side := if 0 < delta then 1 else -1
    let quantity := |delta|
    let price := fillPrice (if 0 < side then row.book.ask else row.book.bid) side slippagePpm
    let notional := price * quantity / 1000
    let fee := (notional * feePpm + 999999) / 1000000
    let closing :=
      if 0 < state.position ∧ side < 0 ∨ state.position < 0 ∧ 0 < side then
        min |state.position| quantity
      else 0
    let pnl := state.pnl price closing
    let remaining := quantity - closing
    { state with
      cash := state.cash + if 0 < side then -notional - fee else notional - fee
      fees := state.fees + fee
      grossProfit := state.grossProfit + max 0 pnl
      grossLoss := state.grossLoss + max 0 (-pnl)
      averageEntry :=
        if remaining ≠ 0 ∧ target ≠ 0 then price
        else if target = 0 then 0
        else if state.position ≠ 0 ∧ (0 < state.position ↔ 0 < target) ∧
            |state.position| < |target| then
          (state.averageEntry * |state.position| + price * remaining) / |target|
        else state.averageEntry
      position := target
      fills := state.fills ++ [{ index := row.index, side, quantity, price, fee }] }

def targetSize : ℤ := 100

/-- One turn of the loop of `simulate`: the decision taken at the row before is executed first. -/
def step (feePpm slippagePpm : ℤ) (state : Simulation) (row : SampledRow) (action : ℤ) :
    Simulation :=
  let state := match state.pending with
    | some pending => state.execute feePpm slippagePpm (pending * targetSize) row
    | none => state
  let equity := state.cash + state.position * row.book.mid / 1000
  let equityPeak := max state.equityPeak equity
  { state with
    pending := some (if action = 1 ∨ action = -1 then action else 0)
    equityCurve := state.equityCurve ++ [equity]
    equityPeak
    maxDrawdown := max state.maxDrawdown (equityPeak - equity) }

end Simulation

def simulate (rows : List SampledRow) (actions : List ℤ) (feePpm slippagePpm : ℤ) : Simulation :=
  (rows.zip actions).foldl (fun state (row, action) => state.step feePpm slippagePpm row action) {}

end Astra.Report
