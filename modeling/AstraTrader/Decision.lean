import AstraTrader.Types

/-! The records of `model.hpp`: what a model is shown, and what it answers. -/

namespace Astra

inductive ModelAction | longPosition | shortPosition | hold
  deriving DecidableEq, Repr

structure ModelState where
  sequence : UInt64 := 0
  exchangeTimeNs : Int64 := 0
  stateAgeNs : Int64 := 0
  bestBidUnits : Int64 := 0
  bestAskUnits : Int64 := 0
  bidQuantityUnits : Int64 := 0
  askQuantityUnits : Int64 := 0
  return100EventsPpm : Int64 := 0
  flowImbalancePpm : Int64 := 0
  currentPositionUnits : Int64 := 0
  deriving DecidableEq

structure ModelDecision where
  action : ModelAction := .hold
  longProbabilityPpm : UInt32 := 0
  shortProbabilityPpm : UInt32 := 0
  holdProbabilityPpm : UInt32 := 1000000
  latencyNs : Int64 := 0
  stateSequence : UInt64 := 0
  model : String := ""
  error : String := ""
  deriving DecidableEq

namespace ModelDecision

def succeeded (decision : ModelDecision) : Bool := decision.error = ""

/-- The probability of the action proposed, as both main loops pick it. -/
def probabilityPpm (decision : ModelDecision) : UInt32 :=
  match decision.action with
  | .longPosition => decision.longProbabilityPpm
  | .shortPosition => decision.shortProbabilityPpm
  | .hold => decision.holdProbabilityPpm

end ModelDecision
end Astra
