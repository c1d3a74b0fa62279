import AstraTrader.Replay.Fields
import AstraTrader.Text.Decimal

/-! `parse_scaled` of the public feed: a decimal of the exchange in fixed-point units. A decimal
whose units do not fit in a word comes back wrapped. -/

namespace Astra.PublicFeed
open FixedWidth Text

/-- The integer in units of `10 ^ -scale`; the multiplications and the sum wrap. -/
def scaledUnits (negative : Bool) (wholeValue fractionValue : UInt64) (fractionSize scale : ℕ) :
    Int64 :=
  let scaleFactor : Int64 := (· * 10)^[scale] 1
  let fractionValue := (· * 10)^[scale - fractionSize] fractionValue
  let value := wholeValue.toInt64 * scaleFactor + fractionValue.toInt64
  if negative then -value else value

/-- The fraction counts as nothing where there is none. -/
def parseFraction (fraction : List Char) : Option UInt64 :=
  if fraction = [] then some 0 else Replay.parseUInt64 fraction

def parseScaled (text : List Char) (scale : UInt8) : Except String Int64 :=
  if text = [] then .error "empty decimal"
  else
    let parts := DecimalParts.of text
    if parts.whole = [] ∨ scale.toNat < parts.fraction.length then .error "invalid decimal"
    else
      match Replay.parseUInt64 parts.whole with
      | none => .error "invalid decimal whole"
      | some wholeValue =>
        match parseFraction parts.fraction with
        | none => .error "invalid decimal fraction"
        | some fractionValue =>
          .ok (scaledUnits parts.negative wholeValue fractionValue parts.fraction.length
            scale.toNat)

section Words
variable {m n : ℕ} {negative : Bool}

theorem toInt64_ofNat (n : ℕ) : (UInt64.ofNat n).toInt64 = Int64.ofInt n := by
  rw [← Int64.toBitVec_inj, UInt64.toBitVec_toInt64, UInt64.toBitVec_ofNat', Int64.toBitVec_ofInt,
    BitVec.ofInt_natCast]

theorem iterate_ofNat (a k : ℕ) :
    (· * 10)^[k] (UInt64.ofNat a) = UInt64.ofNat (a * 10 ^ k) := by
  induction k with
  | zero => simp
  | succ k ih =>
    rw [Function.iterate_succ_apply', ih, pow_succ, ← Nat.mul_assoc]
    exact (UInt64.ofNat_mul ..).symm

theorem iterate_ofInt (a : ℤ) (k : ℕ) :
    (· * 10)^[k] (Int64.ofInt a) = Int64.ofInt (a * 10 ^ k) := by
  induction k with
  | zero => simp
  | succ k ih =>
    rw [Function.iterate_succ_apply', ih, pow_succ, ← Int.mul_assoc, Int64.ofInt_mul (a * 10 ^ k)]
    rfl

theorem scaledUnits_eq (m n fractionSize scale : ℕ) :
    scaledUnits negative (UInt64.ofNat m) (UInt64.ofNat n) fractionSize scale =
      Int64.ofInt ((if negative then -1 else 1) *
        (m * 10 ^ scale + n * 10 ^ (scale - fractionSize) : ℕ)) := by
  have hone : (1 : Int64) = Int64.ofInt 1 := rfl
  unfold scaledUnits
  dsimp only
  rw [hone, iterate_ofInt, iterate_ofNat, toInt64_ofNat, toInt64_ofNat, ← Int64.ofInt_mul,
    ← Int64.ofInt_add]
  split_ifs
  · rw [← Int64.ofInt_neg]
    congr 1
    push_cast
    ring
  · congr 1
    push_cast
    ring

end Words

section Reading
variable {text : List Char} {parts : DecimalParts} {scale : UInt8} {v : Int64}

theorem parseUInt64_of_digits {digits : List Char} (hne : digits ≠ [])
    (hdigits : ∀ c ∈ digits, c.isDigit = true) (hlt : Nat.ofDigitChars 10 digits 0 < 2 ^ 64) :
    Replay.parseUInt64 digits = some (UInt64.ofNat (Nat.ofDigitChars 10 digits 0)) := by
  rw [Replay.parseUInt64_eq_some_iff, UInt64.toNat_ofNat_of_lt' hlt]
  exact numeral_of_digits hne hdigits

theorem parseUInt64_digits {digits : List Char} {x : UInt64}
    (h : Replay.parseUInt64 digits = some x) : digits ≠ [] ∧
      (∀ c ∈ digits, c.isDigit = true) ∧ Nat.ofDigitChars 10 digits 0 < 2 ^ 64 ∧
      x = UInt64.ofNat (Nat.ofDigitChars 10 digits 0) := by
  have hnumeral := Replay.parseUInt64_eq_some_iff.mp h
  have hread := hnumeral.readNat_eq
  unfold readNat at hread
  split_ifs at hread with hdigits
  rw [Option.some.inj hread]
  exact ⟨hdigits.1, fun c hc => hnumeral.isDigit hc, x.toNat_lt, UInt64.ofNat_toNat.symm⟩

theorem parseFraction_of_digits {fraction : List Char}
    (hdigits : ∀ c ∈ fraction, c.isDigit = true)
    (hlt : Nat.ofDigitChars 10 fraction 0 < 2 ^ 64) :
    parseFraction fraction = some (UInt64.ofNat (Nat.ofDigitChars 10 fraction 0)) := by
  unfold parseFraction
  split_ifs with hnil
  · rw [hnil]
    rfl
  · exact parseUInt64_of_digits hnil hdigits hlt

theorem parseFraction_digits {fraction : List Char} {x : UInt64}
    (h : parseFraction fraction = some x) : (∀ c ∈ fraction, c.isDigit = true) ∧
      x = UInt64.ofNat (Nat.ofDigitChars 10 fraction 0) := by
  unfold parseFraction at h
  split_ifs at h with hnil
  · rw [hnil, ← Option.some.inj h]
    exact ⟨fun c hc => absurd hc (List.not_mem_nil), rfl⟩
  · obtain ⟨_, hdigits, _, hx⟩ := parseUInt64_digits h
    exact ⟨hdigits, hx⟩

theorem parseScaled_eq_ok_iff (hscale : scale.toNat ≤ 18) :
    parseScaled text scale = .ok v ↔ ∃ parts : DecimalParts, parts.Written text ∧
      parts.fraction.length ≤ scale.toNat ∧ parts.wholeValue < 2 ^ 64 ∧
      v = Int64.ofInt (parts.units scale.toNat) := by
  unfold parseScaled
  constructor
  · intro h
    dsimp only at h
    split_ifs at h with hnil hshape
    rw [not_or, not_lt] at hshape
    cases hwhole : Replay.parseUInt64 (DecimalParts.of text).whole with
    | none => rw [hwhole] at h; exact absurd h (by simp)
    | some wholeValue =>
      cases hfraction : parseFraction (DecimalParts.of text).fraction with
      | none => rw [hwhole, hfraction] at h; exact absurd h (by simp)
      | some fractionValue =>
        obtain ⟨hne, hwholeDigits, hlt, rfl⟩ := parseUInt64_digits hwhole
        obtain ⟨hfractionDigits, rfl⟩ := parseFraction_digits hfraction
        rw [hwhole, hfraction] at h
        refine ⟨_, DecimalParts.written_of hne hwholeDigits hfractionDigits, hshape.2, hlt, ?_⟩
        rw [← Except.ok.inj h, scaledUnits_eq]
        rfl
  · rintro ⟨parts, hwritten, hlength, hlt, rfl⟩
    obtain rfl := hwritten.eq_of
    have hnil : text ≠ [] := by
      rintro rfl
      exact hwritten.whole_ne_nil rfl
    have hsmall : Nat.ofDigitChars 10 (DecimalParts.of text).fraction 0 < 2 ^ 64 := by
      refine (DecimalParts.ofDigitChars_lt hwritten.fraction_digits).trans_le ?_
      exact (Nat.pow_le_pow_right (by decide) (hlength.trans hscale)).trans (by norm_num)
    rw [if_neg hnil, if_neg (not_or.mpr ⟨hwritten.whole_ne_nil, not_lt.mpr hlength⟩),
      parseUInt64_of_digits hwritten.whole_ne_nil hwritten.whole_digits hlt,
      parseFraction_of_digits hwritten.fraction_digits hsmall]
    dsimp only
    rw [scaledUnits_eq]
    rfl

end Reading

/-- The text denotes `units` units of `10 ^ -scale`, written with no more digits than these. -/
def Denotes (text : List Char) (scale : ℕ) (units : ℤ) : Prop :=
  ∃ parts : DecimalParts, parts.Written text ∧ parts.fraction.length ≤ scale ∧
    (units : ℚ) = parts.value * 10 ^ scale

/-- The text is a decimal that no signed word holds, but an unsigned one holds its whole part. -/
def Overflows (text : List Char) (scale : ℕ) : Prop :=
  ∃ parts : DecimalParts, parts.Written text ∧ parts.fraction.length ≤ scale ∧
    parts.wholeValue < 2 ^ 64 ∧ ∀ units : Int64, (units.toInt : ℚ) ≠ parts.value * 10 ^ scale

/-- The reader returns what the text denotes, and nothing else. -/
def ReadsExactly (text : List Char) (scale : UInt8) : Prop :=
  ∀ v : Int64, parseScaled text scale = .ok v ↔ Denotes text scale.toNat v.toInt

section Exactness
variable {text : List Char} {parts : DecimalParts} {scale : ℕ} {units : ℤ}

theorem denotes_iff (hwritten : parts.Written text) (hlength : parts.fraction.length ≤ scale) :
    Denotes text scale units ↔ units = parts.units scale := by
  rw [← @Int.cast_inj ℚ, DecimalParts.units_eq hlength]
  constructor
  · rintro ⟨other, hother, _, hunits⟩
    rw [hunits, hother.eq_of, ← hwritten.eq_of]
  · exact fun hunits => ⟨parts, hwritten, hlength, hunits⟩

/-- What an exact reader would refuse and this one wraps. -/
theorem parseScaled_exact_iff (text : List Char) (scale : UInt8) (hscale : scale ≤ 18) :
    ReadsExactly text scale ↔ ¬ Overflows text scale.toNat := by
  have hscale' : scale.toNat ≤ 18 := UInt8.le_iff_toNat_le.mp hscale
  constructor
  · rintro hexact ⟨parts, hwritten, hlength, hlt, hout⟩
    have hread := (parseScaled_eq_ok_iff hscale').mpr ⟨parts, hwritten, hlength, hlt, rfl⟩
    have hunits := (denotes_iff hwritten hlength).mp ((hexact _).mp hread)
    refine hout (Int64.ofInt (parts.units scale.toNat)) ?_
    rw [hunits, DecimalParts.units_eq hlength]
  · intro hfits v
    rw [parseScaled_eq_ok_iff hscale']
    constructor
    · rintro ⟨parts, hwritten, hlength, hlt, rfl⟩
      by_contra hwrong
      refine hfits ⟨parts, hwritten, hlength, hlt, fun units hunits => hwrong ?_⟩
      have hsame : units.toInt = parts.units scale.toNat :=
        (denotes_iff hwritten hlength).mp ⟨parts, hwritten, hlength, hunits⟩
      rw [denotes_iff hwritten hlength, ← hsame, Int64.ofInt_toInt]
    · rintro ⟨parts, hwritten, hlength, hunits⟩
      have hsame : v.toInt = parts.units scale.toNat :=
        (denotes_iff hwritten hlength).mp ⟨parts, hwritten, hlength, hunits⟩
      have hwhole := @DecimalParts.wholeValue_le parts scale.toNat
      have hlo := v.le_toInt
      have hhi := v.toInt_lt
      have habs : |parts.units scale.toNat| < 2 ^ 64 := by
        rw [← hsame, abs_lt]
        constructor <;> omega
      refine ⟨parts, hwritten, hlength, ?_, ?_⟩
      · exact_mod_cast hwhole.trans_lt habs
      · rw [← hsame, Int64.ofInt_toInt]

end Exactness

/-- A price with two decimals, of scale two. -/
theorem parseScaled_exact_price :
    ReadsExactly "-64250.10".toList 2 ↔ ¬ Overflows "-64250.10".toList 2 :=
  parseScaled_exact_iff _ 2 (by decide)

/-- The decimal `2 ^ 63` comes back negative. -/
theorem not_forall_readsExactly :
    ¬ ∀ (text : List Char) (scale : UInt8), scale ≤ 18 → ReadsExactly text scale := by
  intro h
  have hread : parseScaled "9223372036854775808".toList 0 = .ok (-9223372036854775808) := by
    decide +kernel
  obtain ⟨parts, hwritten, hlength, hunits⟩ :=
    (h "9223372036854775808".toList 0 (by decide) _).mp hread
  have hvalue := (denotes_iff hwritten hlength).mp ⟨parts, hwritten, hlength, hunits⟩
  rw [hwritten.eq_of] at hvalue
  exact absurd hvalue (by decide +kernel)

end Astra.PublicFeed
