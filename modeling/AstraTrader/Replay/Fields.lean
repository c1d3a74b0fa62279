import AstraTrader.Text.Csv
import AstraTrader.Types

/-! `parse_integer` and `split_csv` of `astra_replay`: the fields of a line, and the fields that
are numbers. A text is the list of its bytes. -/

namespace Astra.Replay
open FixedWidth Text

abbrev Line := List Char

def splitCsv (line : Line) : List Line := line.splitOn ','

theorem splitCsv_writeFields {fields : List Line} (hnil : fields ≠ []) (hne : fields ≠ [[]])
    (h : ∀ field ∈ fields, Plain field) : splitCsv (writeFields fields) = fields := by
  rw [writeFields_eq hne h]
  exact splitOn_fields hnil h

/-- `parse_integer` at an unsigned type of `bits` bits. -/
def parseUnsigned (bits : ℕ) (value : Line) : Option ℕ :=
  (readNat value).filter fun parsed => parsed < 2 ^ bits

def parseUInt64 (value : Line) : Option UInt64 := (parseUnsigned 64 value).map UInt64.ofNat

def parseUInt32 (value : Line) : Option UInt32 := (parseUnsigned 32 value).map UInt32.ofNat

/-- `parse_integer` at `std::int64_t`. -/
def parseInt64 (value : Line) : Option Int64 :=
  ((readInt value).filter fun parsed => -2 ^ 63 ≤ parsed ∧ parsed < 2 ^ 63).map Int64.ofInt

theorem parseUnsigned_eq_some_iff {bits n : ℕ} {value : Line} :
    parseUnsigned bits value = some n ↔ Numeral n value ∧ n < 2 ^ bits := by
  rw [parseUnsigned, Option.filter_eq_some_iff, readNat_eq_some_iff, decide_eq_true_eq]

theorem parseUInt64_eq_some_iff {value : Line} {x : UInt64} :
    parseUInt64 value = some x ↔ Numeral x.toNat value := by
  rw [parseUInt64, Option.map_eq_some_iff]
  constructor
  · rintro ⟨n, hn, rfl⟩
    obtain ⟨hnumeral, hlt⟩ := parseUnsigned_eq_some_iff.mp hn
    rwa [UInt64.toNat_ofNat_of_lt' hlt]
  · intro h
    exact ⟨x.toNat, parseUnsigned_eq_some_iff.mpr ⟨h, x.toNat_lt⟩, UInt64.ofNat_toNat⟩

theorem parseUInt32_eq_some_iff {value : Line} {x : UInt32} :
    parseUInt32 value = some x ↔ Numeral x.toNat value := by
  rw [parseUInt32, Option.map_eq_some_iff]
  constructor
  · rintro ⟨n, hn, rfl⟩
    obtain ⟨hnumeral, hlt⟩ := parseUnsigned_eq_some_iff.mp hn
    rwa [UInt32.toNat_ofNat_of_lt' hlt]
  · intro h
    exact ⟨x.toNat, parseUnsigned_eq_some_iff.mpr ⟨h, x.toNat_lt⟩, UInt32.ofNat_toNat⟩

theorem uint64_ofNat_ne_zero {n : ℕ} (hpos : 0 < n) (hlt : n < 2 ^ 64) : UInt64.ofNat n ≠ 0 := by
  intro hzero
  have htoNat := congrArg UInt64.toNat hzero
  rw [UInt64.toNat_ofNat_of_lt' hlt] at htoNat
  exact hpos.ne' htoNat

theorem parseInt64_printInt {value : ℤ} (h : InRange64 value) :
    parseInt64 (printInt value) = some (Int64.ofInt value) := by
  have hrange : decide (-2 ^ 63 ≤ value ∧ value < 2 ^ 63) = true := decide_eq_true h
  rw [parseInt64, readInt_printInt, Option.filter_some, if_pos hrange, Option.map_some]

end Astra.Replay
