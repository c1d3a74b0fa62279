import AstraTrader.Types

/-! `ExchangeClock`: the least offset seen between exchange time and receive time, and how far
behind it an event is. -/

namespace Astra

structure ExchangeClockState where
  offsetNs : Int64 := 0
  adjustedAgeNs : Int64 := 0
  samples : ℕ := 0
  stable : Bool := false
  deriving DecidableEq

structure ExchangeClock where
  warmupSamples : ℕ := 100
  maximumResidualNs : Int64 := 2000000000
  minimumOffsetNs : Option Int64 := none
  state : ExchangeClockState := {}
  deriving DecidableEq

namespace ExchangeClock

/-- The least offset once an offset is observed, and the number of samples it rests on. -/
def sample (clock : ExchangeClock) (observedOffset : Int64) : Int64 × ℕ :=
  match clock.minimumOffsetNs with
  | none => (observedOffset, 1)
  | some minimum =>
    if observedOffset < minimum then
      let shift := minimum - observedOffset
      -- a large shift means another clock: the warm-up starts again
      (observedOffset, if clock.maximumResidualNs < shift then 1 else clock.state.samples + 1)
    else (minimum, clock.state.samples + 1)

def observe (clock : ExchangeClock) (exchangeTimeNs receiveTimeNs : Int64) :
    ExchangeClock × ExchangeClockState :=
  if exchangeTimeNs ≤ 0 ∨ receiveTimeNs < exchangeTimeNs ∨ clock.maximumResidualNs ≤ 0 ∨
      clock.warmupSamples = 0 then
    let state := { clock.state with stable := false }
    ({ clock with state }, state)
  else
    let observedOffset := receiveTimeNs - exchangeTimeNs
    let (minimum, samples) := clock.sample observedOffset
    let adjustedAgeNs := max 0 (observedOffset - minimum)
    let state : ExchangeClockState :=
      { offsetNs := minimum
        adjustedAgeNs
        samples
        stable := clock.warmupSamples ≤ samples && adjustedAgeNs ≤ clock.maximumResidualNs }
    ({ clock with minimumOffsetNs := some minimum, state }, state)

theorem observe_state (clock : ExchangeClock) (exchangeTimeNs receiveTimeNs : Int64) :
    (clock.observe exchangeTimeNs receiveTimeNs).1.state =
      (clock.observe exchangeTimeNs receiveTimeNs).2 := by
  unfold observe
  split_ifs <;> rfl

end ExchangeClock
end Astra
