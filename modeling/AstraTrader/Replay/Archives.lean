import AstraTrader.Replay.ArchivePaths
import AstraTrader.Replay.StreamFormat
import AstraTrader.Research.Bars

/-! `write_stream` on a folder of archives: the minutes of each of them, and when the rows of all
together are in the order of time. -/

namespace Astra.Replay
open Bars (AggTrade)
open Calendar Process Text

/-- `Minute(bucket, price, price)`. -/
def Minute.opened (bucket : ℤ) (price : ℚ) : Minute where
  timestampMs := bucket
  closePrice := price
  buyNotional := 0
  sellNotional := 0

def Minute.traded (item : Minute) (row : AggTrade) : Minute :=
  let notional := decimal (row.price * row.quantity)
  if row.buys then
    { item with
      closePrice := row.price
      buyNotional := decimal (item.buyNotional + notional) }
  else
    { item with
      closePrice := row.price
      sellNotional := decimal (item.sellNotional + notional) }

def minuteMs (row : AggTrade) : ℤ := row.timestampMs / 60000 * 60000

def minuteCollector (endMs : ℤ) : Collector ℤ AggTrade Minute where
  key row :=
    if row.timestampMs < startMs ∨ endMs < row.timestampMs then none else some (minuteMs row)
  update bucket row item := (item.getD (Minute.opened bucket row.price)).traded row

def aggregate (rows : List AggTrade) (endMs : ℤ) : List Minute :=
  inKeyOrder ((minuteCollector endMs).collect rows)

/-- An archive holds what its name says, in the order of time. -/
structure Archive where
  period : Period
  trades : List AggTrade
  named : period.Named
  ordered : trades.Pairwise fun trade next => trade.timestampMs ≤ next.timestampMs
  inside : ∀ trade ∈ trades, period.start ≤ trade.timestampMs ∧ trade.timestampMs < period.stop

def Archive.path (archive : Archive) : Line := archive.period.fileName

structure Folder where
  archives : List Archive
  nodup : (archives.map (·.period)).Nodup

namespace Folder

def names (folder : Folder) : List Line := folder.archives.map Archive.path

def read (folder : Folder) (path : Line) : List AggTrade :=
  ((folder.archives.find? fun archive => archive.path = path).map (·.trades)).getD []

/-- The minutes of one archive after another. -/
def minutes (folder : Folder) (endMs : ℤ) : List Minute :=
  (archivePaths folder.names endMs).flatMap fun path => aggregate (folder.read path) endMs

def stream (folder : Folder) (endMs : ℤ) : Line := writeStream (folder.minutes endMs)

def Covers (folder : Folder) (m : YearMonth) : Prop :=
  ∃ archive ∈ folder.archives, archive.period = .month m

end Folder

def stampOf (row : Line) : Option (ℕ × ℤ) :=
  match splitCsv row with
  | sequence :: exchangeTimeNs :: _ => do return (← readNat sequence, ← readInt exchangeTimeNs)
  | _ => none

def stamps (text : Line) : List (ℕ × ℤ) := (rowsOf text).filterMap stampOf

def InRange (endMs : ℤ) (row : AggTrade) : Prop :=
  startMs ≤ row.timestampMs ∧ row.timestampMs ≤ endMs

section Aggregate
variable {rows : List AggTrade} {endMs : ℤ}

theorem minuteCollector_key_eq_some {row : AggTrade} {bucket : ℤ} :
    (minuteCollector endMs).key row = some bucket ↔ InRange endMs row ∧ minuteMs row = bucket := by
  unfold minuteCollector InRange
  simp only [ite_eq_iff, reduceCtorEq, and_false, false_or, not_or, not_lt, Option.some.injEq]

@[simp]
theorem Minute.traded_timestampMs (item : Minute) (row : AggTrade) :
    (item.traded row).timestampMs = item.timestampMs := by
  unfold Minute.traded
  dsimp only
  split_ifs <;> rfl

theorem timestampMs_of_lookup (rows : List AggTrade) (bucket : ℤ) {item : Minute}
    (h : ((minuteCollector endMs).collect rows).lookup bucket = some item) :
    item.timestampMs = bucket := by
  refine Collector.forall_lookup_collect (P := fun bucket item => item.timestampMs = bucket)
    ?_ rows bucket h
  intro bucket row item _ hitem
  rw [minuteCollector, Minute.traded_timestampMs]
  cases item with
  | none => rfl
  | some item => exact hitem item rfl

theorem map_timestampMs_aggregate : (aggregate rows endMs).map (·.timestampMs) =
    ((minuteCollector endMs).collect rows).keys.insertionSort (· ≤ ·) :=
  map_inKeyOrder fun bucket _ => timestampMs_of_lookup rows bucket

theorem pairwise_aggregate : ((aggregate rows endMs).map (·.timestampMs)).Pairwise (· < ·) := by
  rw [map_timestampMs_aggregate]
  exact pairwise_lt_insertionSort (AList.keys_nodup _)

theorem mem_aggregate {bucket : ℤ} : bucket ∈ (aggregate rows endMs).map (·.timestampMs) ↔
    ∃ row ∈ rows, InRange endMs row ∧ minuteMs row = bucket := by
  rw [map_timestampMs_aggregate, List.mem_insertionSort, ← AList.mem_keys, Collector.mem_collect]
  simp only [minuteCollector_key_eq_some]

end Aggregate

section Stamps
variable {items : List Minute} {sequence : ℕ}

def streamStamps (sequence : ℕ) : List Minute → List (ℕ × ℤ)
  | [] => []
  | item :: rest => (sequence, item.exchangeTimeNs) :: streamStamps (sequence + 1) rest

theorem stampOf_fields (sequence : ℕ) (item : Minute) :
    stampOf (writeFields (item.fields sequence)) = some (sequence, item.exchangeTimeNs) := by
  rw [stampOf, splitCsv_fields]
  simp only [Minute.fields, Minute.numbers, List.map_cons, List.cons_append, readNat_toDigits,
    readInt_printInt]
  rfl

theorem filterMap_stampOf : (streamRows sequence items).filterMap stampOf =
    streamStamps sequence items := by
  induction items generalizing sequence with
  | nil => rfl
  | cons item rest ih =>
    rw [streamRows, List.filterMap_cons_some (stampOf_fields sequence item), ih, streamStamps]

theorem stamps_writeStream (items : List Minute) :
    stamps (writeStream items) = streamStamps 1 items := by
  rw [stamps, rowsOf_writeStream, filterMap_stampOf]

theorem map_fst_streamStamps :
    (streamStamps sequence items).map Prod.fst = List.range' sequence items.length := by
  induction items generalizing sequence with
  | nil => rfl
  | cons item rest ih => rw [streamStamps, List.map_cons, ih, List.length_cons, List.range'_succ]

theorem map_snd_streamStamps : (streamStamps sequence items).map Prod.snd =
    (items.map (·.timestampMs)).map fun timestampMs => timestampMs * 1000000 := by
  induction items generalizing sequence with
  | nil => rfl
  | cons item rest ih =>
    rw [streamStamps, List.map_cons, ih, List.map_cons, List.map_cons]
    rfl

theorem pairwise_streamStamps : (streamStamps sequence items).Pairwise
    (fun stamp next => stamp.1 < next.1 ∧ stamp.2 < next.2) ↔
      (items.map (·.timestampMs)).Pairwise (· < ·) := by
  have hsequence := @List.pairwise_lt_range' sequence items.length 1 Nat.one_pos
  rw [← map_fst_streamStamps, List.pairwise_map] at hsequence
  have htimes : ((streamStamps sequence items).map Prod.snd).Pairwise (· < ·) ↔
      (items.map (·.timestampMs)).Pairwise (· < ·) := by
    rw [map_snd_streamStamps, List.pairwise_map]
    simp only [mul_lt_mul_iff_left₀ (show (0 : ℤ) < 1000000 by decide)]
  rw [List.pairwise_and_iff, and_iff_right hsequence, ← htimes, List.pairwise_map]

end Stamps

namespace Folder
section Selected
variable {folder : Folder} {archive other : Archive} {endMs : ℤ} {path : Line}

theorem path_injective (h : archive.path = other.path) : archive.period = other.period :=
  fileName_injective archive.named other.named h

theorem allNamed (folder : Folder) : AllNamed folder.names := by
  intro name hname
  obtain ⟨archive, _, rfl⟩ := List.mem_map.mp hname
  exact ⟨archive.period, archive.named, rfl⟩

theorem nodup_names (folder : Folder) : folder.names.Nodup := by
  have hnodup := folder.nodup
  rw [List.nodup_iff_pairwise_ne, List.pairwise_map] at hnodup
  rw [names, List.nodup_iff_pairwise_ne, List.pairwise_map]
  exact hnodup.imp fun hne hpath => hne (path_injective hpath)

theorem path_mem_names (h : archive ∈ folder.archives) : archive.path ∈ folder.names :=
  List.mem_map_of_mem h

theorem read_path (h : archive ∈ folder.archives) : folder.read archive.path = archive.trades := by
  obtain ⟨found, hfound⟩ : ∃ found, folder.archives.find? (fun other => other.path = archive.path) =
      some found :=
    Option.isSome_iff_exists.mp (List.find?_isSome.mpr ⟨archive, h, decide_eq_true rfl⟩)
  have hpath : found.path = archive.path := by simpa using List.find?_some hfound
  have hsame : found = archive := List.inj_on_of_nodup_map folder.nodup
    (List.mem_of_find?_eq_some hfound) h (path_injective hpath)
  rw [read, hfound, hsame]
  rfl

theorem covers_iff {m : YearMonth} (hm : m.year < 10 ^ 4) :
    folder.Covers m ↔ (Period.month m).fileName ∈ folder.names := by
  constructor
  · rintro ⟨archive, harchive, hmonth⟩
    have hpath := path_mem_names harchive
    rwa [Archive.path, hmonth] at hpath
  · intro hmem
    obtain ⟨archive, harchive, hpath⟩ := List.mem_map.mp hmem
    exact ⟨archive, harchive, fileName_injective archive.named hm hpath⟩

theorem mem_filter_monthly : path ∈ (monthly folder.names).filter
      (fun name => Requested name ∧ ¬ endMs < startMs) ↔
    ∃ archive ∈ folder.archives, archive.path = path ∧ (∃ m, archive.period = .month m) ∧
      Requested path ∧ ¬ endMs < startMs := by
  rw [List.mem_filter, decide_eq_true_eq]
  constructor
  · rintro ⟨hmem, hrequested⟩
    obtain ⟨archive, harchive, rfl⟩ := List.mem_map.mp (mem_of_mem_monthly hmem)
    exact ⟨archive, harchive, rfl, (mem_monthly.mp hmem).2, hrequested⟩
  · rintro ⟨archive, harchive, rfl, hmonth, hrequested⟩
    exact ⟨mem_monthly.mpr ⟨path_mem_names harchive, hmonth⟩, hrequested⟩

theorem mem_filter_daily : path ∈ (daily folder.names).filter
      (fun name => Requested name ∧ ¬ endMs < startMs) ↔
    ∃ archive ∈ folder.archives, archive.path = path ∧
      ((∃ d, archive.period = .day d) ∧ ¬ folder.Covers archive.period.yearMonth) ∧
      Requested path ∧ ¬ endMs < startMs := by
  rw [List.mem_filter, decide_eq_true_eq]
  constructor
  · rintro ⟨hmem, hrequested⟩
    obtain ⟨archive, harchive, rfl⟩ := List.mem_map.mp (mem_of_mem_daily hmem)
    obtain ⟨_, hday, huncovered⟩ := (mem_daily folder.allNamed archive.named).mp hmem
    exact ⟨archive, harchive, rfl, ⟨hday, mt (covers_iff archive.named).mp huncovered⟩, hrequested⟩
  · rintro ⟨archive, harchive, rfl, ⟨hday, huncovered⟩, hrequested⟩
    exact ⟨(mem_daily folder.allNamed archive.named).mpr ⟨path_mem_names harchive, hday,
      mt (covers_iff archive.named).mpr huncovered⟩, hrequested⟩

end Selected

/-- Every month that is read from one file lies before every day that is read by itself, as far as
there is anything in the range to read. -/
def MonthsFirst (folder : Folder) (endMs : ℤ) : Prop :=
  ∀ archive ∈ folder.archives, ∀ other ∈ folder.archives, ∀ m d,
    archive.period = .month m → other.period = .day d →
    ¬ folder.Covers d.toYearMonth →
    Requested archive.path → Requested other.path →
    (∃ row ∈ archive.trades, InRange endMs row) → (∃ row ∈ other.trades, InRange endMs row) →
    m.Precedes d.toYearMonth

section Order
variable {folder : Folder} {archive other : Archive} {endMs : ℤ} {path next : Line} {bucket : ℤ}

def times (folder : Folder) (endMs : ℤ) (path : Line) : List ℤ :=
  (aggregate (folder.read path) endMs).map (·.timestampMs)

theorem map_timestampMs_minutes : (folder.minutes endMs).map (·.timestampMs) =
    (archivePaths folder.names endMs).flatMap (folder.times endMs) :=
  List.map_flatMap

theorem mem_times (h : archive ∈ folder.archives) : bucket ∈ folder.times endMs archive.path ↔
    ∃ row ∈ archive.trades, InRange endMs row ∧ minuteMs row = bucket := by
  rw [times, mem_aggregate, read_path h]

theorem minuteMs_lt_of_before (h : archive.period.Before other.period) {row row' : AggTrade}
    (hrow : row ∈ archive.trades) (hrow' : row' ∈ other.trades) : minuteMs row < minuteMs row' := by
  have hstop := (archive.inside row hrow).2
  have hstart := (other.inside row' hrow').1
  unfold Period.Before at h
  unfold Period.stop Period.midnightMs at hstop
  unfold Period.start Period.midnightMs at hstart
  unfold minuteMs
  omega

theorem times_lt_of_before (h : archive.period.Before other.period)
    (harchive : archive ∈ folder.archives) (hother : other ∈ folder.archives) :
    ∀ x ∈ folder.times endMs archive.path, ∀ y ∈ folder.times endMs other.path, x < y := by
  intro x hx y hy
  obtain ⟨row, hrow, _, rfl⟩ := (mem_times harchive).mp hx
  obtain ⟨row', hrow', _, rfl⟩ := (mem_times hother).mp hy
  exact minuteMs_lt_of_before h hrow hrow'

/-- Paths in the order of their names give minutes in the order of time, if their names sort the
periods as the calendar does. -/
theorem pairwise_times {paths : List Line} (hsorted : paths.Pairwise (· < ·))
    {P : Period → Prop}
    (hread : ∀ path ∈ paths, ∃ archive ∈ folder.archives, archive.path = path ∧ P archive.period)
    (hbefore : ∀ period other : Period, period.Named → P period → P other →
      period.fileName < other.fileName → period.Before other) :
    (paths.flatMap (folder.times endMs)).Pairwise (· < ·) := by
  rw [List.pairwise_flatMap]
  refine ⟨fun _ _ => pairwise_aggregate, hsorted.imp_of_mem ?_⟩
  intro path next hpath hnext hlt
  obtain ⟨archive, harchive, rfl, hperiod⟩ := hread path hpath
  obtain ⟨other, hother, rfl, hperiod'⟩ := hread next hnext
  exact times_lt_of_before (hbefore _ _ archive.named hperiod hperiod' hlt) harchive hother

theorem pairwise_monthly_times (folder : Folder) (endMs : ℤ) :
    (((monthly folder.names).filter fun name => Requested name ∧ ¬ endMs < startMs).flatMap
      (folder.times endMs)).Pairwise (· < ·) := by
  refine pairwise_times (P := fun period => ∃ m, period = .month m)
    ((pairwise_monthly folder.nodup_names).filter _) ?_ ?_
  · intro path hpath
    obtain ⟨archive, harchive, hsame, hmonth, _⟩ := mem_filter_monthly.mp hpath
    exact ⟨archive, harchive, hsame, hmonth⟩
  · rintro _ _ hnamed ⟨m, rfl⟩ ⟨n, rfl⟩ hlt
    exact before_of_fileName_month_lt hnamed hlt

theorem pairwise_daily_times (folder : Folder) (endMs : ℤ) :
    (((daily folder.names).filter fun name => Requested name ∧ ¬ endMs < startMs).flatMap
      (folder.times endMs)).Pairwise (· < ·) := by
  refine pairwise_times (P := fun period => ∃ d, period = .day d)
    ((pairwise_daily folder.nodup_names).filter _) ?_ ?_
  · intro path hpath
    obtain ⟨archive, harchive, hsame, ⟨hday, _⟩, _⟩ := mem_filter_daily.mp hpath
    exact ⟨archive, harchive, hsame, hday⟩
  · rintro _ _ hnamed ⟨d, rfl⟩ ⟨e, rfl⟩ hlt
    exact before_of_fileName_day_lt hnamed hlt

theorem precedes_or_precedes {m : YearMonth} {d : Date} (harchive : archive ∈ folder.archives)
    (hmonth : archive.period = .month m) (huncovered : ¬ folder.Covers d.toYearMonth) :
    m.Precedes d.toYearMonth ∨ d.toYearMonth.Precedes m := by
  rcases m.precedes_or_eq_or_precedes d.toYearMonth with hlt | rfl | hgt
  · exact .inl hlt
  · exact absurd ⟨archive, harchive, hmonth⟩ huncovered
  · exact .inr hgt

/-- The two parts of the list of paths are each in order; what matters is how they meet. -/
theorem pairwise_minutes_iff (folder : Folder) (endMs : ℤ) :
    ((folder.minutes endMs).map (·.timestampMs)).Pairwise (· < ·) ↔ folder.MonthsFirst endMs := by
  rw [map_timestampMs_minutes, archivePaths, List.filter_append, List.flatMap_append,
    List.pairwise_append, and_iff_right (pairwise_monthly_times folder endMs),
    and_iff_right (pairwise_daily_times folder endMs)]
  simp only [List.mem_flatMap]
  constructor
  · intro hcross archive harchive other hother m d hm hd huncovered hrequested hrequested'
    rintro ⟨row, hrow, hrange⟩ ⟨row', hrow', hrange'⟩
    have hend : ¬ endMs < startMs := not_lt.mpr (hrange.1.trans hrange.2)
    have hmonth := mem_filter_monthly.mpr
      ⟨archive, harchive, rfl, ⟨m, hm⟩, hrequested, hend⟩
    have hday := mem_filter_daily.mpr
      ⟨other, hother, rfl, ⟨⟨d, hd⟩, by rwa [hd]⟩, hrequested', hend⟩
    have hlt := hcross _ ⟨_, hmonth, (mem_times harchive).mpr ⟨row, hrow, hrange, rfl⟩⟩
      _ ⟨_, hday, (mem_times hother).mpr ⟨row', hrow', hrange', rfl⟩⟩
    refine (precedes_or_precedes harchive hm huncovered).resolve_right fun hlate => ?_
    have hbefore : other.period.Before archive.period := by
      rw [hm, hd]
      exact day_before_month hlate
    exact (minuteMs_lt_of_before hbefore hrow' hrow).not_gt hlt
  · rintro hfirst x ⟨path, hpath, hx⟩ y ⟨next, hnext, hy⟩
    obtain ⟨archive, harchive, rfl, ⟨m, hm⟩, hrequested, _⟩ := mem_filter_monthly.mp hpath
    obtain ⟨other, hother, rfl, ⟨⟨d, hd⟩, huncovered⟩, hrequested', _⟩ :=
      mem_filter_daily.mp hnext
    obtain ⟨row, hrow, hrange, _⟩ := (mem_times harchive).mp hx
    obtain ⟨row', hrow', hrange', _⟩ := (mem_times hother).mp hy
    rw [hd] at huncovered
    have hlt := hfirst archive harchive other hother m d hm hd huncovered hrequested hrequested'
      ⟨row, hrow, hrange⟩ ⟨row', hrow', hrange'⟩
    refine times_lt_of_before ?_ harchive hother x hx y hy
    rw [hm, hd]
    exact month_before_day hlt

theorem nodup_minutes (folder : Folder) (endMs : ℤ) :
    ((folder.minutes endMs).map (·.timestampMs)).Nodup := by
  rw [map_timestampMs_minutes, archivePaths, List.filter_append, List.flatMap_append,
    List.nodup_append]
  refine ⟨(pairwise_monthly_times folder endMs).imp fun h => h.ne,
    (pairwise_daily_times folder endMs).imp fun h => h.ne, ?_⟩
  simp only [List.mem_flatMap]
  rintro x ⟨path, hpath, hx⟩ y ⟨next, hnext, hy⟩
  obtain ⟨archive, harchive, rfl, ⟨m, hm⟩, _⟩ := mem_filter_monthly.mp hpath
  obtain ⟨other, hother, rfl, ⟨⟨d, hd⟩, huncovered⟩, _⟩ := mem_filter_daily.mp hnext
  rw [hd] at huncovered
  rcases precedes_or_precedes harchive hm huncovered with hearly | hlate
  · refine (times_lt_of_before ?_ harchive hother x hx y hy).ne
    rw [hm, hd]
    exact month_before_day hearly
  · refine (times_lt_of_before ?_ hother harchive y hy x hx).ne'
    rw [hm, hd]
    exact day_before_month hlate

end Order

/-- What a replay relies on: rows in the order of time, every minute in one of them, and no month
read twice. -/
structure Orderly (folder : Folder) (endMs : ℤ) : Prop where
  increasing : (stamps (folder.stream endMs)).Pairwise
    fun stamp next => stamp.1 < next.1 ∧ stamp.2 < next.2
  once : ∀ path ∈ archivePaths folder.names endMs, ∀ row ∈ folder.read path, InRange endMs row →
    ((stamps (folder.stream endMs)).map Prod.snd).count (minuteMs row * 1000000) = 1
  covered : ∀ archive ∈ folder.archives, ∀ d, archive.period = .day d →
    folder.Covers d.toYearMonth → archive.path ∉ archivePaths folder.names endMs

section StreamStamps
variable {folder : Folder} {endMs : ℤ}

theorem map_snd_stamps : (stamps (folder.stream endMs)).map Prod.snd =
    ((folder.minutes endMs).map (·.timestampMs)).map fun timestampMs => timestampMs * 1000000 := by
  rw [stream, stamps_writeStream, map_snd_streamStamps]

theorem count_stamps {path : Line} (hpath : path ∈ archivePaths folder.names endMs)
    {row : AggTrade} (hrow : row ∈ folder.read path) (hrange : InRange endMs row) :
    ((stamps (folder.stream endMs)).map Prod.snd).count (minuteMs row * 1000000) = 1 := by
  have hinjective : Function.Injective fun timestampMs : ℤ => timestampMs * 1000000 :=
    mul_left_injective₀ (by decide)
  rw [map_snd_stamps, List.count_map_of_injective _ _ hinjective]
  refine List.count_eq_one_of_mem (nodup_minutes folder endMs) ?_
  rw [map_timestampMs_minutes]
  exact List.mem_flatMap.mpr ⟨path, hpath, mem_aggregate.mpr ⟨row, hrow, hrange, rfl⟩⟩

theorem not_mem_archivePaths_of_covers {archive : Archive} {d : Date}
    (hday : archive.period = .day d) (h : folder.Covers d.toYearMonth) :
    archive.path ∉ archivePaths folder.names endMs := by
  rw [archivePaths, List.mem_filter, List.mem_append]
  rintro ⟨hmonthly | hdaily, _⟩
  · obtain ⟨_, m, hm⟩ := mem_monthly.mp hmonthly
    cases hday.symm.trans hm
  · obtain ⟨_, _, huncovered⟩ := (mem_daily folder.allNamed archive.named).mp hdaily
    refine huncovered ((covers_iff archive.named).mp ?_)
    rwa [hday]

/-- The stream is orderly exactly when no day read by itself lies before a month. -/
theorem orderly_iff (folder : Folder) (endMs : ℤ) :
    folder.Orderly endMs ↔ folder.MonthsFirst endMs := by
  rw [← pairwise_minutes_iff, ← pairwise_streamStamps, ← stamps_writeStream]
  refine ⟨fun h => h.increasing, fun h => ⟨h, ?_, ?_⟩⟩
  · intro path hpath row hrow hrange
    exact count_stamps hpath hrow hrange
  · intro archive _ d hday hcovers
    exact not_mem_archivePaths_of_covers hday hcovers

/-- March is read from one file, and before it comes a day of January that is read by itself. -/
theorem not_forall_orderly : ¬ ∀ (folder : Folder) (endMs : ℤ), folder.Orderly endMs := by
  intro h
  have hincreasing := (h
    { archives := [
        { period := .month ⟨2025, 3, by decide, by decide, by decide⟩
          trades := [⟨1740787200000, 90000, 1, "false"⟩]
          named := show 2025 < 10 ^ 4 by decide
          ordered := List.pairwise_singleton _ _
          inside := by decide +kernel },
        { period := .day ⟨⟨2025, 1, by decide, by decide, by decide⟩, 5, by decide, by decide⟩
          trades := [⟨1736035200000, 90000, 1, "false"⟩]
          named := show 2025 < 10 ^ 4 by decide
          ordered := List.pairwise_singleton _ _
          inside := by decide +kernel }]
      nodup := by decide +kernel } 1788220799000).increasing
  rw [stream, stamps_writeStream, pairwise_streamStamps] at hincreasing
  exact absurd hincreasing (by decide +kernel)

end StreamStamps
end Folder
end Astra.Replay
