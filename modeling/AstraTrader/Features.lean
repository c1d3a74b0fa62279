import AstraTrader.Decision
import AstraTrader.Exchange.Model

/-! `FeatureBuilder`: the state shown to the model, with a ring of the latest midpoints. -/

namespace Astra

def clampToI64 (value : Wide) : Int64 :=
  if value < wide Int64.minValue then Int64.minValue
  else if wide Int64.maxValue < value then Int64.maxValue
  else value.toInt64

structure FeatureBuilder where
  midpoints : List Int64
  nextIndex : ℕ := 0
  size : ℕ := 0
  deriving DecidableEq

namespace FeatureBuilder

def new (returnLookbackEvents : ℕ) : FeatureBuilder where
  midpoints := List.replicate returnLookbackEvents 0

/-- The return against the midpoint that the new one will overwrite. -/
def returnPpm (builder : FeatureBuilder) (midpoint : Int64) : Int64 :=
  let oldest := builder.midpoints.getD builder.nextIndex 0
  if builder.size = builder.midpoints.length ∧ 0 < oldest then
    clampToI64 ((wide midpoint - wide oldest) * 1000000 / wide oldest)
  else 0

def imbalancePpm (event : MarketEvent) : Int64 :=
  let liquidity := wide event.bidQuantityUnits + wide event.askQuantityUnits
  if 0 < liquidity then
    clampToI64 ((wide event.bidQuantityUnits - wide event.askQuantityUnits) * 1000000 / liquidity)
  else 0

def push (builder : FeatureBuilder) (midpoint : Int64) : FeatureBuilder where
  midpoints := builder.midpoints.set builder.nextIndex midpoint
  nextIndex := (builder.nextIndex + 1) % builder.midpoints.length
  size := min (builder.size + 1) builder.midpoints.length

def update (builder : FeatureBuilder) (event : MarketEvent) (currentPositionUnits : Int64) :
    FeatureBuilder × ModelState :=
  let midpoint := PaperExchange.midpoint event
  (builder.push midpoint, {
    sequence := event.sequence
    exchangeTimeNs := event.exchangeTimeNs
    stateAgeNs := event.receiveTimeNs - event.exchangeTimeNs
    bestBidUnits := event.bestBidUnits
    bestAskUnits := event.bestAskUnits
    bidQuantityUnits := event.bidQuantityUnits
    askQuantityUnits := event.askQuantityUnits
    return100EventsPpm := builder.returnPpm midpoint
    flowImbalancePpm := imbalancePpm event
    currentPositionUnits })

end FeatureBuilder
end Astra
