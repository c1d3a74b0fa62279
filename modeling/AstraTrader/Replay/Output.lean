import AstraTrader.Text.JsonText
import AstraTrader.Text.Padded
import AstraTrader.Live.LayaGateway
import AstraTrader.Replay.Cadence
import AstraTrader.Replay.CommandLine

/-! The texts that `astra_replay` leaves: a line of detail for each decision and each fill, and the
object of metrics. Only the model and the input are escaped, and only their quotes. -/

namespace Astra.Replay
open Text FixedWidth

/-- `json_escape`. -/
def jsonEscape (value : Line) : Line :=
  value.flatMap fun c => if c = '\"' ∨ c = '\\' then ['\\', c] else [c]

def sideText : Side → String
  | .buy => "buy"
  | .sell => "sell"

def fillMembers (fill : PaperFill) : List (String × Field) :=
  [("event", .raw "fill".toList),
    ("fill_id", .integer fill.fillId),
    ("order_id", .integer fill.orderId),
    ("sequence", .integer fill.marketSequence.toNat),
    ("side", .raw (sideText fill.side).toList),
    ("quantity_units", .integer fill.quantityUnits.toInt),
    ("price_units", .integer fill.priceUnits.toInt),
    ("fee_units", .integer fill.feeUnits.toInt),
    ("maker", .bool fill.maker)]

def decisionMembers (decision : ModelDecision) (proposedAction : ModelAction) (gateHold : Bool) :
    List (String × Field) :=
  [("event", .raw "decision".toList),
    ("sequence", .integer decision.stateSequence.toNat),
    ("action", .raw (LayaGateway.actionText decision.action).toList),
    ("proposed_action", .raw (LayaGateway.actionText proposedAction).toList),
    ("gate_hold", .bool gateHold),
    ("long_probability_ppm", .integer decision.longProbabilityPpm.toNat),
    ("short_probability_ppm", .integer decision.shortProbabilityPpm.toNat),
    ("hold_probability_ppm", .integer decision.holdProbabilityPpm.toNat),
    ("latency_ns", .integer decision.latencyNs.toInt),
    ("model", .raw (jsonEscape decision.model.toList)),
    ("succeeded", .bool decision.succeeded)]

/-- `write_decision_detail` and `write_fill_detail`, without the line feed. -/
def lineText : DetailLine → Line
  | .decision decision proposedAction gateHold =>
    writeObject (decisionMembers decision proposedAction gateHold)
  | .fill fill => writeObject (fillMembers fill)

def detailText (lines : List DetailLine) : Line := lines.flatMap fun line => lineText line ++ ['\n']

/-- The digits of the loop in `metrics_json`, the last first. -/
def pushDigits (value : ℕ) (digits : Line) : Line :=
  if value = 0 then digits else pushDigits (value / 10) (digits ++ [(value % 10).digitChar])
termination_by value
decreasing_by omega

/-- The text of a 128-bit number. -/
def wideText (value : Wide) : Line :=
  if value = 0 then ['0']
  else if value < 0 then (pushDigits (-value).toInt.toNat [] ++ ['-']).reverse
  else (pushDigits value.toInt.toNat []).reverse

def fixedRatio (numerator denominator : Int64) : Line :=
  if denominator ≤ 0 then (if 0 < numerator then "inf" else "0.000").toList
  else
    let scaled := wide numerator * 1000 / wide denominator
    let whole := scaled / 1000
    let fractional := (scaled % 1000).toInt64
    printInt whole.toInt64.toInt ++ ['.'] ++
      (if fractional < 100 then if fractional < 10 then ['0', '0'] else ['0'] else []) ++
      printInt fractional.toInt

def returnPpm (metrics : Metrics) : Wide :=
  let initial := if metrics.initialEquity = 0 then 1 else metrics.initialEquity
  wide (metrics.finalEquity - metrics.initialEquity) * 1000000 / wide initial

def metricsMembers (options : Arguments) (metrics : Metrics) (positionUnits : Int64) :
    List (String × Field) :=
  [("schema", .raw "astra.replay.metrics.v1".toList),
    ("model", .raw (jsonEscape options.model)),
    ("input", .raw (jsonEscape options.input)),
    ("decision_every", .integer options.decisionEvery.toNat),
    ("taker_fee_ppm", .integer options.takerFeePpm.toNat),
    ("market_slippage_ppm", .integer options.marketSlippagePpm.toNat),
    ("start_ns", .integer options.startNs.toInt),
    ("end_ns", .integer options.endNs.toInt),
    ("events", .integer metrics.events),
    ("decisions", .integer metrics.decisions),
    ("signals", .integer metrics.signals),
    ("accepted_orders", .integer metrics.acceptedOrders),
    ("rejected_orders", .integer metrics.rejectedOrders),
    ("fills", .integer metrics.fills),
    ("ignored_events", .integer metrics.ignoredEvents),
    ("initial_equity_units", .integer metrics.initialEquity.toInt),
    ("final_equity_units", .integer metrics.finalEquity.toInt),
    ("pnl_units", .integer (metrics.finalEquity - metrics.initialEquity).toInt),
    ("return_ppm", .literal (wideText (returnPpm metrics))),
    ("max_drawdown_units", .integer metrics.maxDrawdown.toInt),
    ("realized_pnl_units", .integer metrics.realizedPnl.toInt),
    ("unrealized_pnl_units", .integer metrics.unrealizedPnl.toInt),
    ("fees_units", .integer metrics.fees.toInt),
    ("gross_profit_units", .integer metrics.grossProfit.toInt),
    ("gross_loss_units", .integer metrics.grossLoss.toInt),
    ("profit_factor", .raw (fixedRatio metrics.grossProfit metrics.grossLoss)),
    ("position_units", .integer positionUnits.toInt)]

def metricsJson (options : Arguments) (metrics : Metrics) (positionUnits : Int64) : Line :=
  writeObject (metricsMembers options metrics positionUnits) ++ ['\n']

section Escapes
variable {value : Line}

/-- A text without control characters. -/
def Printable (value : Line) : Prop := ∀ c ∈ value, 32 ≤ c.toNat

instance : DecidablePred Printable := fun value => List.decidableBAll _ value

theorem scanString_jsonEscape_cons (c : Char) (value rest : Line) (hc : 32 ≤ c.toNat) :
    scanString (jsonEscape (c :: value) ++ rest) =
      (scanString (jsonEscape value ++ rest)).map fun scanned => (c :: scanned.1, scanned.2) := by
  have hcons : jsonEscape (c :: value) =
      (if c = '\"' ∨ c = '\\' then ['\\', c] else [c]) ++ jsonEscape value := List.flatMap_cons
  rw [hcons]
  split_ifs with hspecial
  · rcases hspecial with rfl | rfl
    · exact scanString_escape (by decide) rfl _
    · exact scanString_escape (by decide) rfl _
  · rw [not_or] at hspecial
    exact scanString_cons hc hspecial.1 hspecial.2 _

theorem scanString_jsonEscape (h : Printable value) (rest : Line) :
    scanString (jsonEscape value ++ '\"' :: rest) = some (value, rest) := by
  induction value with
  | nil => rfl
  | cons c value ih =>
    rw [scanString_jsonEscape_cons c value _ (h c (List.mem_cons_self ..)),
      ih fun d hd => h d (List.mem_cons_of_mem _ hd), Option.map_some]

theorem scanString_jsonEscape_eq_none (h : ¬ Printable value) (rest : Line) :
    scanString (jsonEscape value ++ '\"' :: rest) = none := by
  induction value with
  | nil => exact absurd (fun c hc => absurd hc (by simp)) h
  | cons c value ih =>
    by_cases hc : 32 ≤ c.toNat
    · rw [scanString_jsonEscape_cons c value _ hc, ih fun hrest => h ?_, Option.map_none]
      exact List.forall_mem_cons.mpr ⟨hc, hrest⟩
    · have hcons : jsonEscape (c :: value) = c :: jsonEscape value := by
        rw [jsonEscape, List.flatMap_cons, if_neg, List.singleton_append, jsonEscape]
        rintro (rfl | rfl) <;> exact hc (by decide)
      rw [hcons]
      exact scanString_control (Nat.not_le.mp hc) _

theorem reads_jsonEscape (h : Printable value) :
    (Field.raw (jsonEscape value)).Reads (.string value) := .raw (scanString_jsonEscape h)

end Escapes

section Numbers

theorem pushDigits_zero (digits : Line) : pushDigits 0 digits = digits := by
  rw [pushDigits, if_pos rfl]

theorem pushDigits_eq {value : ℕ} (h : 0 < value) (digits : Line) :
    pushDigits value digits = digits ++ (Nat.toDigits 10 value).reverse := by
  induction value using Nat.strong_induction_on generalizing digits with
  | h value ih =>
    rw [pushDigits, if_neg h.ne', Nat.toDigits_eq_if (by decide)]
    split_ifs with hlt
    · rw [Nat.div_eq_of_lt hlt, pushDigits_zero, Nat.mod_eq_of_lt hlt, List.reverse_singleton]
    · rw [ih (value / 10) (by omega) (by omega), List.reverse_append, List.append_assoc]
      rfl

theorem wideText_eq {value : Wide} (h : value.toInt ≠ -2 ^ 127) :
    wideText value = printInt value.toInt := by
  have hlo := value.le_toInt
  have hhi := value.toInt_lt
  have hneg : (-value).toInt = -value.toInt := Int128.toInt_neg ⟨by omega, by omega⟩
  unfold wideText
  by_cases hzero : value = 0
  · rw [if_pos hzero, hzero, Int128.toInt_zero]
    rfl
  · have hne : value.toInt ≠ 0 := fun he => hzero ((Int128.eq_zero_iff _).mpr he)
    have hsign : value < 0 ↔ value.toInt < 0 := by rw [Int128.lt_def, Int128.toInt_zero]
    rw [if_neg hzero, printInt]
    by_cases hlt : value.toInt < 0
    · rw [if_pos (hsign.mpr hlt), if_pos hlt, hneg, pushDigits_eq (by omega), List.nil_append,
        List.reverse_append, List.reverse_reverse, List.reverse_singleton, List.singleton_append]
      congr 2
      omega
    · rw [if_neg (mt hsign.mp hlt), if_neg hlt, pushDigits_eq (by omega), List.nil_append,
        List.reverse_reverse]
      congr 1
      omega

theorem toInt_wide_mul (value : Int64) {factor : ℤ} {scale : Wide} (hscale : scale.toInt = factor)
    (hfactor : 0 ≤ factor) (hle : factor ≤ 1000000) :
    (wide value * scale).toInt = value.toInt * factor ∧ |value.toInt * factor| ≤ 2 ^ 83 := by
  have habs : |value.toInt| ≤ 2 ^ 63 := abs_le.mpr ⟨value.le_toInt, value.toInt_lt.le⟩
  have hbound : |value.toInt * factor| ≤ 2 ^ 83 := by
    rw [abs_mul, abs_of_nonneg hfactor]
    calc |value.toInt| * factor ≤ 2 ^ 63 * 1000000 :=
          mul_le_mul habs hle hfactor (by norm_num)
      _ ≤ 2 ^ 83 := by norm_num
  obtain ⟨hlo, hhi⟩ := abs_le.mp hbound
  refine ⟨?_, hbound⟩
  rw [Int128.toInt_mul, toInt_wide, hscale]
  rw [toInt_wide, hscale]
  exact ⟨by omega, by omega⟩

theorem toInt_quotient {a : Wide} (b : Wide) (h : |a.toInt| ≤ 2 ^ 83) :
    (a / b).toInt = a.toInt.tdiv b.toInt ∧ |a.toInt.tdiv b.toInt| ≤ 2 ^ 83 := by
  have hle := Int.natAbs_tdiv_le_natAbs a.toInt b.toInt
  have hbound : |a.toInt.tdiv b.toInt| ≤ 2 ^ 83 := by
    rw [Int.abs_eq_natAbs] at h ⊢
    omega
  obtain ⟨hlo, hhi⟩ := abs_le.mp hbound
  exact ⟨Int128.toInt_div ⟨by omega, by omega⟩, hbound⟩

theorem toInt_returnPpm (metrics : Metrics) : (returnPpm metrics).toInt =
    ((metrics.finalEquity - metrics.initialEquity).toInt * 1000000).tdiv
        (if metrics.initialEquity = 0 then 1 else metrics.initialEquity.toInt) ∧
      |(returnPpm metrics).toInt| ≤ 2 ^ 83 := by
  have hmillion : (1000000 : Wide).toInt = 1000000 := Int128.toInt_ofNat (by norm_num)
  obtain ⟨hproduct, hbound⟩ := toInt_wide_mul (metrics.finalEquity - metrics.initialEquity) hmillion
    (by norm_num) le_rfl
  rw [← hproduct] at hbound
  obtain ⟨hquotient, hle⟩ := toInt_quotient
    (wide (if metrics.initialEquity = 0 then 1 else metrics.initialEquity)) hbound
  have hreturn : (returnPpm metrics).toInt = _ := hquotient
  rw [hreturn]
  refine ⟨?_, hle⟩
  rw [hproduct, toInt_wide]
  congr 1
  split_ifs <;> rfl

theorem padded_three (n : ℕ) : padded 3 n =
    [(n / 10 / 10 % 10).digitChar, (n / 10 % 10).digitChar, (n % 10).digitChar] := rfl

theorem padded_three_eq {n : ℕ} (h : n < 1000) :
    (if n < 100 then if n < 10 then ['0', '0'] else ['0'] else []) ++ Nat.toDigits 10 n =
      padded 3 n := by
  rw [padded_three, Nat.toDigits_eq_if (by decide)]
  have hzero : Nat.digitChar 0 = '0' := rfl
  by_cases hone : n < 10
  · rw [if_pos (by omega), if_pos hone, if_pos hone, Nat.div_eq_of_lt hone, Nat.mod_eq_of_lt hone,
      Nat.zero_div, Nat.zero_mod, hzero]
    rfl
  rw [if_neg hone, Nat.toDigits_eq_if (by decide)]
  by_cases htwo : n < 100
  · have hten : n / 10 < 10 := by omega
    rw [if_pos htwo, if_neg hone, if_pos hten, Nat.div_eq_of_lt hten, Nat.mod_eq_of_lt hten,
      Nat.zero_mod, hzero]
    rfl
  · have hten : ¬ n / 10 < 10 := by omega
    have hthree : n / 10 / 10 < 10 := by omega
    rw [if_neg htwo, if_neg hone, if_neg hten, Nat.toDigits_of_lt_base hthree,
      Nat.mod_eq_of_lt hthree]
    rfl

theorem fixedRatio_eq {numerator denominator : Int64} (hnumerator : 0 ≤ numerator.toInt)
    (hdenominator : 0 < denominator.toInt) :
    fixedRatio numerator denominator =
      printInt (numerator.toInt / denominator.toInt) ++ '.' ::
        padded 3 (numerator.toInt * 1000 / denominator.toInt % 1000).toNat := by
  have hthousand : (1000 : Wide).toInt = 1000 := Int128.toInt_ofNat (by norm_num)
  obtain ⟨hproduct, hbound⟩ := toInt_wide_mul numerator hthousand (by norm_num) (by norm_num)
  rw [← hproduct] at hbound
  obtain ⟨hscaled, hscaledBound⟩ := toInt_quotient (wide denominator) hbound
  rw [← hscaled] at hscaledBound
  obtain ⟨hwhole, _⟩ := toInt_quotient (1000 : Wide) hscaledBound
  unfold fixedRatio
  rw [if_neg (by rw [Int64.le_iff_toInt_le, Int64.toInt_zero]; omega)]
  dsimp only
  generalize wide numerator * 1000 / wide denominator = scaled at hscaled hwhole hscaledBound ⊢
  have hnonneg : 0 ≤ numerator.toInt * 1000 := by omega
  rw [hproduct, toInt_wide, Int.tdiv_eq_ediv_of_nonneg hnonneg] at hscaled
  have hscaledNonneg : 0 ≤ scaled.toInt := hscaled ▸ Int.ediv_nonneg hnonneg hdenominator.le
  rw [hthousand, Int.tdiv_eq_ediv_of_nonneg hscaledNonneg] at hwhole
  have hratio : scaled.toInt / 1000 = numerator.toInt / denominator.toInt := by
    rw [hscaled, Int.ediv_ediv_of_nonneg hdenominator.le,
      Int.mul_ediv_mul_of_pos_left _ _ (by norm_num)]
  have hmod : (scaled % 1000).toInt = scaled.toInt % 1000 := by
    show (Int128.ofInt (scaled.toInt.tmod (1000 : Wide).toInt)).toInt = _
    rw [hthousand, Int.tmod_eq_emod_of_nonneg hscaledNonneg]
    exact Int128.toInt_ofInt ⟨by omega, by omega⟩
  have hfraction : (scaled % 1000).toInt64.toInt = scaled.toInt % 1000 := by
    rw [Int128.toInt_toInt64, hmod]
    rw [hmod]
    constructor <;> omega
  have hquotient : (scaled / 1000).toInt64.toInt = numerator.toInt / denominator.toInt := by
    rw [Int128.toInt_toInt64, hwhole, hratio]
    rw [hwhole, hratio]
    have hle := Int.ediv_le_self denominator.toInt hnumerator
    have hlt := numerator.toInt_lt
    have hquotientNonneg := Int.ediv_nonneg hnumerator hdenominator.le
    constructor <;> omega
  obtain ⟨n, hn⟩ : ∃ n : ℕ, scaled.toInt % 1000 = n := Int.eq_ofNat_of_zero_le (by omega)
  have hlt : n < 1000 := by omega
  have hcompare : ∀ bound : Int64, (scaled % 1000).toInt64 < bound ↔ (n : ℤ) < bound.toInt := by
    intro bound
    rw [Int64.lt_iff_toInt_lt, hfraction, hn]
  have hprint : printInt (n : ℤ) = Nat.toDigits 10 n := by
    rw [printInt, if_neg (by omega), Int.natAbs_natCast]
  have hzeros : (if (scaled % 1000).toInt64 < 100 then
      if (scaled % 1000).toInt64 < 10 then ['0', '0'] else ['0'] else []) =
        if n < 100 then if n < 10 then ['0', '0'] else ['0'] else [] := by
    have hhundred : (100 : Int64).toInt = 100 := rfl
    have hten : (10 : Int64).toInt = 10 := rfl
    simp only [hcompare, hhundred, hten]
    norm_cast
  rw [hquotient, hfraction, ← hscaled, hn, Int.toNat_natCast, ← padded_three_eq hlt, hzeros, hprint]
  simp

theorem unescaped_printInt (value : ℤ) : Unescaped (printInt value) := by
  intro c hc
  rcases mem_printInt hc with rfl | hdigit
  · decide
  · rw [Char.isDigit_iff_toNat] at hdigit
    refine ⟨hdigit.1.trans' (by decide), ?_, ?_⟩ <;> rintro rfl <;> exact absurd hdigit (by decide)

theorem unescaped_fixedRatio (numerator denominator : Int64) :
    Unescaped (fixedRatio numerator denominator) := by
  unfold fixedRatio
  split_ifs with hloss hprofit
  · decide
  · decide
  · dsimp only
    intro c hc
    simp only [List.mem_append, List.mem_singleton] at hc
    rcases hc with ((hwhole | rfl) | hzeros) | hfraction
    · exact unescaped_printInt _ c hwhole
    · decide
    · have hzero : c = '0' := by
        split_ifs at hzeros <;> simp_all
      rw [hzero]
      decide
    · exact unescaped_printInt _ c hfraction

end Numbers

theorem actionText_injective :
    Function.Injective fun action => (LayaGateway.actionText action).toList := by
  intro a b h
  revert h
  cases a <;> cases b <;> decide

theorem unescaped_actionText (action : ModelAction) :
    Unescaped (LayaGateway.actionText action).toList := by
  cases action <;> decide

end Astra.Replay
