import AstraTrader.Numeric.Calendar
import AstraTrader.Process.Dictionary
import AstraTrader.Replay.Fields
import AstraTrader.Text.Padded
import Mathlib.Data.List.Infix

/-! `archive_paths` of `build_btc_replay_csv.py`: the archives of the source folder that are read,
in the order in which they are read. A path is kept as its file name. -/

namespace Astra.Replay
open Calendar Process Text

/-- `START_MS`: the first millisecond of 2025. -/
def startMs : ℤ := 1735689600000

def namePrefix : Line := "BTCUSDT-aggTrades-".toList

def nameSuffix : Line := ".zip".toList

/-- The files that the pattern of the script matches. -/
def glob (names : List Line) : List Line :=
  names.filter fun name => namePrefix.isPrefixOf name && nameSuffix.isSuffixOf name

/-- `path.stem`, for a name that ends in the suffix. -/
def stem (name : Line) : Line := name.take (name.length - nameSuffix.length)

def stemParts (name : Line) : List Line := (stem name).splitOn '-'

/-- `"-".join(path.stem.split("-")[2:4])`. -/
def monthKey (name : Line) : Line := ['-'].intercalate (((stemParts name).take 4).drop 2)

def monthly (names : List Line) : List Line :=
  ((glob names).filter fun name => (stemParts name).length = 4).insertionSort (· ≤ ·)

def daily (names : List Line) : List Line :=
  let covered := (monthly names).map monthKey
  ((glob names).filter fun name =>
    (stemParts name).length = 5 ∧ monthKey name ∉ covered).insertionSort (· ≤ ·)

/-- The years of the requested range. -/
def Requested (name : Line) : Prop := "2025".toList <:+: name ∨ "2026".toList <:+: name

instance (name : Line) : Decidable (Requested name) := by
  unfold Requested
  infer_instance

def archivePaths (names : List Line) (endMs : ℤ) : List Line :=
  (monthly names ++ daily names).filter fun name => Requested name ∧ ¬ endMs < startMs

/-- What the name of an archive says that it holds. -/
inductive Period where
  | month (m : YearMonth)
  | day (d : Date)
  deriving DecidableEq

namespace Period

def yearMonth : Period → YearMonth
  | month m => m
  | day d => d.toYearMonth

def parts : Period → List Line
  | month m => ["BTCUSDT".toList, "aggTrades".toList, padded 4 m.year, padded 2 m.month]
  | day d => ["BTCUSDT".toList, "aggTrades".toList, padded 4 d.year, padded 2 d.month,
      padded 2 d.day]

def fileName (period : Period) : Line := ['-'].intercalate period.parts ++ nameSuffix

/-- The days of a period, by their ordinals: from the first to before the second. -/
def days : Period → ℕ × ℕ
  | month m => (m.firstDay, m.firstDay + m.length)
  | day d => (d.ordinal, d.ordinal + 1)

/-- The first millisecond of a day; 719163 is the ordinal of 1970-01-01. -/
def midnightMs (ordinal : ℕ) : ℤ := (ordinal - 719163) * 86400000

def start (period : Period) : ℤ := midnightMs period.days.1

def stop (period : Period) : ℤ := midnightMs period.days.2

def Before (period other : Period) : Prop := period.days.2 ≤ other.days.1

/-- The names write years with four digits. -/
def Named (period : Period) : Prop := period.yearMonth.year < 10 ^ 4

example : (month ⟨2025, 1, by decide, by decide, by decide⟩).start = startMs := by decide +kernel

example : (day ⟨⟨2025, 1, by decide, by decide, by decide⟩, 5, by decide, by decide⟩).fileName =
    "BTCUSDT-aggTrades-2025-01-05.zip".toList := by decide +kernel

end Period

/-- The part of a name that tells the month. -/
def keyOf (m : YearMonth) : Line := padded 4 m.year ++ '-' :: padded 2 m.month

section Names
variable {period other : Period} {m n : YearMonth} {d e : Date}

theorem length_keyOf (m : YearMonth) : (keyOf m).length = 7 := by
  simp [keyOf]

theorem keyOf_lt (h : m.Precedes n) (hn : n.year < 10 ^ 4) : keyOf m < keyOf n := by
  rcases h with hyear | ⟨hyear, hmonth⟩
  · exact append_lt_append_of_lt (padded_lt hyear hn) (by simp)
  · rw [keyOf, keyOf, hyear]
    refine append_lt_append_left (List.Lex.cons (padded_lt hmonth ?_))
    exact n.month_le.trans_lt (by norm_num)

theorem keyOf_injective (hm : m.year < 10 ^ 4) (hn : n.year < 10 ^ 4) (h : keyOf m = keyOf n) :
    m = n := by
  rcases m.precedes_or_eq_or_precedes n with hlt | heq | hgt
  · exact absurd h (keyOf_lt hlt hn).ne
  · exact heq
  · exact absurd h (keyOf_lt hgt hm).ne'

theorem namePrefix_eq :
    namePrefix = "BTCUSDT".toList ++ ['-'] ++ ("aggTrades".toList ++ ['-']) := by
  decide +kernel

theorem fileName_month : (Period.month m).fileName = namePrefix ++ (keyOf m ++ nameSuffix) := by
  rw [Period.fileName, Period.parts, namePrefix_eq, keyOf]
  simp only [List.intercalate_cons_cons, List.intercalate_singleton, List.append_assoc,
    List.cons_append, List.nil_append]

theorem fileName_day : (Period.day d).fileName =
    namePrefix ++ (keyOf d.toYearMonth ++ ('-' :: padded 2 d.day ++ nameSuffix)) := by
  rw [Period.fileName, Period.parts, namePrefix_eq, keyOf]
  simp only [List.intercalate_cons_cons, List.intercalate_singleton, List.append_assoc,
    List.cons_append, List.nil_append]

theorem fileName_month_lt (h : m.Precedes n) (hn : n.year < 10 ^ 4) :
    (Period.month m).fileName < (Period.month n).fileName := by
  rw [fileName_month, fileName_month]
  refine append_lt_append_left (append_lt_append_of_lt (keyOf_lt h hn) ?_)
  rw [length_keyOf, length_keyOf]

theorem fileName_day_lt (h : d.Precedes e) (he : e.year < 10 ^ 4) :
    (Period.day d).fileName < (Period.day e).fileName := by
  rw [fileName_day, fileName_day]
  refine append_lt_append_left ?_
  rcases h with hmonth | ⟨hmonth, hday⟩
  · refine append_lt_append_of_lt (keyOf_lt hmonth he) ?_
    rw [length_keyOf, length_keyOf]
  · rw [hmonth]
    have hbound : e.day < 10 ^ 2 := by
      have hle := e.day_le
      unfold daysInMonth at hle
      split_ifs at hle <;> omega
    refine append_lt_append_left (List.Lex.cons (append_lt_append_of_lt (padded_lt hday hbound) ?_))
    rw [length_padded, length_padded]

theorem dash_not_mem_parts : ∀ part ∈ period.parts, '-' ∉ part := by
  have hpadded : ∀ width n, '-' ∉ padded width n := fun width n hmem =>
    absurd (isDigit_of_mem_padded hmem) (by decide)
  have hsymbol : '-' ∉ "BTCUSDT".toList := by decide +kernel
  have hkind : '-' ∉ "aggTrades".toList := by decide +kernel
  cases period <;>
    simp only [Period.parts, List.forall_mem_cons, hpadded, hsymbol, hkind, not_false_eq_true,
      true_and, List.not_mem_nil, IsEmpty.forall_iff, implies_true]

theorem parts_ne_nil : period.parts ≠ [] := by
  cases period <;> exact List.cons_ne_nil _ _

theorem stemParts_fileName : stemParts period.fileName = period.parts := by
  have hstem : stem period.fileName = ['-'].intercalate period.parts := by
    rw [stem, Period.fileName, List.length_append, Nat.add_sub_cancel, List.take_left']
    rfl
  rw [stemParts, hstem, List.splitOn_intercalate '-' dash_not_mem_parts parts_ne_nil]

theorem monthKey_fileName : monthKey period.fileName = keyOf period.yearMonth := by
  rw [monthKey, stemParts_fileName]
  cases period <;> rfl

theorem glob_fileName : (namePrefix.isPrefixOf period.fileName &&
    nameSuffix.isSuffixOf period.fileName) = true := by
  rw [Bool.and_eq_true, List.isPrefixOf_iff_prefix, List.isSuffixOf_iff_suffix]
  refine ⟨?_, List.suffix_append _ _⟩
  cases period with
  | month m => exact fileName_month ▸ List.prefix_append _ _
  | day d => exact fileName_day ▸ List.prefix_append _ _

theorem fileName_injective (hperiod : period.Named) (hother : other.Named)
    (h : period.fileName = other.fileName) : period = other := by
  have hparts : period.parts = other.parts := by
    rw [← stemParts_fileName, h, stemParts_fileName]
  have hlength := congrArg List.length hparts
  cases period with
  | month m =>
    cases other with
    | month n =>
      rcases m.precedes_or_eq_or_precedes n with hlt | heq | hgt
      · exact absurd h (fileName_month_lt hlt hother).ne
      · rw [heq]
      · exact absurd h (fileName_month_lt hgt hperiod).ne'
    | day e => cases hlength
  | day d =>
    cases other with
    | month n => cases hlength
    | day e =>
      rcases d.precedes_or_eq_or_precedes e with hlt | heq | hgt
      · exact absurd h (fileName_day_lt hlt hother).ne
      · rw [heq]
      · exact absurd h (fileName_day_lt hgt hperiod).ne'

theorem before_of_fileName_month_lt (hm : m.year < 10 ^ 4)
    (h : (Period.month m).fileName < (Period.month n).fileName) :
    (Period.month m).Before (.month n) := by
  rcases m.precedes_or_eq_or_precedes n with hlt | rfl | hgt
  · exact hlt.firstDay_add_length_le
  · exact absurd h (lt_irrefl _)
  · exact absurd h (fileName_month_lt hgt hm).not_gt

theorem before_of_fileName_day_lt (hd : d.year < 10 ^ 4)
    (h : (Period.day d).fileName < (Period.day e).fileName) :
    (Period.day d).Before (.day e) := by
  rcases d.precedes_or_eq_or_precedes e with hlt | rfl | hgt
  · exact hlt.ordinal_lt
  · exact absurd h (lt_irrefl _)
  · exact absurd h (fileName_day_lt hgt hd).not_gt

theorem month_before_day (h : m.Precedes d.toYearMonth) : (Period.month m).Before (.day d) :=
  h.firstDay_add_length_le.trans d.firstDay_le

theorem day_before_month (h : d.toYearMonth.Precedes m) : (Period.day d).Before (.month m) :=
  (Nat.succ_le_of_lt d.ordinal_lt).trans h.firstDay_add_length_le

end Names

section Selection
variable {names : List Line} {name : Line} {period : Period}

theorem mem_of_mem_monthly (h : name ∈ monthly names) : name ∈ names := by
  rw [monthly, List.mem_insertionSort, List.mem_filter, glob, List.mem_filter] at h
  exact h.1.1

theorem mem_of_mem_daily (h : name ∈ daily names) : name ∈ names := by
  rw [daily, List.mem_insertionSort, List.mem_filter, glob, List.mem_filter] at h
  exact h.1.1

theorem mem_monthly : period.fileName ∈ monthly names ↔
    period.fileName ∈ names ∧ ∃ m, period = .month m := by
  rw [monthly, List.mem_insertionSort, List.mem_filter, glob, List.mem_filter,
    stemParts_fileName, decide_eq_true_eq, and_iff_left glob_fileName]
  refine and_congr_right fun _ => ?_
  cases period with
  | month m => exact iff_of_true rfl ⟨m, rfl⟩
  | day d => exact iff_of_false (show ¬ 5 = 4 by decide) (by rintro ⟨m, ⟨⟩⟩)

/-- The names are those of monthly and daily archives. -/
def AllNamed (names : List Line) : Prop :=
  ∀ name ∈ names, ∃ period : Period, period.Named ∧ period.fileName = name

theorem mem_covered (hnames : AllNamed names) (hperiod : period.Named) :
    keyOf period.yearMonth ∈ (monthly names).map monthKey ↔
      (Period.month period.yearMonth).fileName ∈ names := by
  rw [List.mem_map]
  constructor
  · rintro ⟨name, hname, hkey⟩
    have hmem := mem_of_mem_monthly hname
    obtain ⟨other, hother, rfl⟩ := hnames name hmem
    obtain ⟨_, m, rfl⟩ := mem_monthly.mp hname
    rw [monthKey_fileName] at hkey
    exact keyOf_injective hperiod hother hkey.symm ▸ hmem
  · intro hmem
    exact ⟨_, mem_monthly.mpr ⟨hmem, _, rfl⟩, monthKey_fileName⟩

theorem mem_daily (hnames : AllNamed names) (hperiod : period.Named) :
    period.fileName ∈ daily names ↔ period.fileName ∈ names ∧
      (∃ d, period = .day d) ∧ (Period.month period.yearMonth).fileName ∉ names := by
  rw [daily, List.mem_insertionSort, List.mem_filter, glob, List.mem_filter, stemParts_fileName,
    monthKey_fileName, decide_eq_true_eq, and_iff_left glob_fileName, mem_covered hnames hperiod]
  refine and_congr_right fun _ => and_congr_left fun _ => ?_
  cases period with
  | month m => exact iff_of_false (show ¬ 4 = 5 by decide) (by rintro ⟨d, ⟨⟩⟩)
  | day d => exact iff_of_true rfl ⟨d, rfl⟩

theorem pairwise_monthly (hnodup : names.Nodup) : (monthly names).Pairwise (· < ·) :=
  pairwise_lt_insertionSort ((hnodup.filter _).filter _)

theorem pairwise_daily (hnodup : names.Nodup) : (daily names).Pairwise (· < ·) :=
  pairwise_lt_insertionSort ((hnodup.filter _).filter _)

end Selection
end Astra.Replay
