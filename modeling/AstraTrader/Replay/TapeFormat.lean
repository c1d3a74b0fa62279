import AstraTrader.Replay.Fields
import AstraTrader.Replay.Model

/-! The decision tape as a file: `write_tape` puts it down, `DecisionTape::load` takes it up. They
are in two languages, and agree on what a row is up to leading zeros. -/

namespace Astra.Replay
open Text

/-- What `write_tape` is given for a row: the action and the rounded probabilities. -/
structure TapeRow where
  sequence : ℕ
  action : ModelAction
  longProbabilityPpm : ℕ
  shortProbabilityPpm : ℕ
  holdProbabilityPpm : ℕ
  sequence_pos : 0 < sequence
  sequence_lt : sequence < 2 ^ 64
  longProbabilityPpm_le : longProbabilityPpm ≤ 1000000
  shortProbabilityPpm_le : shortProbabilityPpm ≤ 1000000
  holdProbabilityPpm_le : holdProbabilityPpm ≤ 1000000

/-- `CLASS_NAMES`. -/
def className : ModelAction → Line
  | .hold => "hold".toList
  | .longPosition => "long".toList
  | .shortPosition => "short".toList

def tapeHeader : List Line :=
  ["sequence".toList, "action".toList, "long_probability_ppm".toList,
    "short_probability_ppm".toList, "hold_probability_ppm".toList]

def TapeRow.fields (row : TapeRow) : List Line :=
  [Nat.toDigits 10 row.sequence, className row.action, Nat.toDigits 10 row.longProbabilityPpm,
    Nat.toDigits 10 row.shortProbabilityPpm, Nat.toDigits 10 row.holdProbabilityPpm]

/-- `writerow` of a `csv.writer`, with the terminator it has by default. -/
def writeRow (fields : List Line) : Line := writeFields fields ++ ['\r', '\n']

def writeTape (rows : List TapeRow) : Line :=
  writeRow tapeHeader ++ rows.flatMap fun row => writeRow row.fields

def headerLine : Line :=
  "sequence,action,long_probability_ppm,short_probability_ppm,hold_probability_ppm".toList

def parseAction (field : Line) : Option ModelAction :=
  if field = "long".toList then some .longPosition
  else if field = "short".toList then some .shortPosition
  else if field = "hold".toList then some .hold
  else none

/-- The numbers of a row. -/
structure TapeValues where
  sequence : UInt64
  longProbability : UInt32
  shortProbability : UInt32
  holdProbability : UInt32

def parseValues (sequence long short hold : Line) : Option TapeValues := do
  let sequence ← parseUInt64 sequence
  let longProbability ← parseUInt32 long
  let shortProbability ← parseUInt32 short
  let holdProbability ← parseUInt32 hold
  if sequence = 0 ∨ 1000000 < longProbability ∨ 1000000 < shortProbability ∨
      1000000 < holdProbability then none
  else some { sequence, longProbability, shortProbability, holdProbability }

def TapeValues.decision (values : TapeValues) (action : ModelAction) : ModelDecision :=
  { action
    longProbabilityPpm := values.longProbability
    shortProbabilityPpm := values.shortProbability
    holdProbabilityPpm := values.holdProbability
    stateSequence := values.sequence
    model := "decision-tape" }

namespace DecisionTape

def empty : DecisionTape := ⟨[], by simp⟩

/-- `decisions_[sequence] = decision`, where the decision bears the sequence. -/
def insert (tape : DecisionTape) (decision : ModelDecision) : DecisionTape :=
  ⟨(decision.stateSequence, decision) :: tape.decisions,
    List.forall_mem_cons.mpr ⟨rfl, tape.keyed⟩⟩

def loadFields (tape : DecisionTape) (rowNumber : ℕ) (fields : List Line) :
    Except String DecisionTape :=
  match fields with
  | [sequence, action, long, short, hold] =>
    match parseValues sequence long short hold with
    | none => .error ("invalid decision tape values at row " ++ toString rowNumber)
    | some values =>
      match parseAction action with
      | none => .error ("invalid decision tape action at row " ++ toString rowNumber)
      | some action => .ok (tape.insert (values.decision action))
  | _ => .error ("invalid decision tape row " ++ toString rowNumber)

/-- One turn of the loop of `load`, on a line as `getline` reads it. -/
def loadLine (tape : DecisionTape) (rowNumber : ℕ) (line : Line) : Except String DecisionTape :=
  if chomp line = [] ∨ chomp line = headerLine then .ok tape
  else tape.loadFields rowNumber (splitCsv (chomp line))

def loadLines (tape : DecisionTape) (rowNumber : ℕ) : List Line → Except String DecisionTape
  | [] => .ok tape
  | line :: rest =>
    match tape.loadLine (rowNumber + 1) line with
    | .error error => .error error
    | .ok tape => tape.loadLines (rowNumber + 1) rest

/-- `load` into a fresh tape; there is no `file` if it cannot be opened. -/
def load (path : String) (file : Option Line) : Except String DecisionTape :=
  match file with
  | none => .error ("cannot open decision tape: " ++ path)
  | some text =>
    match empty.loadLines 0 (lines text) with
    | .error error => .error error
    | .ok tape => if tape.decisions = [] then .error "decision tape is empty" else .ok tape

end DecisionTape

/-- The line is the row as it is written, up to leading zeros of its numbers. -/
def TapeRow.Padded (row : TapeRow) (line : Line) : Prop :=
  ∃ sequence long short hold, Numeral row.sequence sequence ∧
    Numeral row.longProbabilityPpm long ∧ Numeral row.shortProbabilityPpm short ∧
    Numeral row.holdProbabilityPpm hold ∧
    line = [','].intercalate [sequence, className row.action, long, short, hold]

/-- What the tape makes of a row. -/
def TapeRow.decision (row : TapeRow) : ModelDecision where
  action := row.action
  longProbabilityPpm := UInt32.ofNat row.longProbabilityPpm
  shortProbabilityPpm := UInt32.ofNat row.shortProbabilityPpm
  holdProbabilityPpm := UInt32.ofNat row.holdProbabilityPpm
  stateSequence := UInt64.ofNat row.sequence
  model := "decision-tape"

section Fields
variable {sequence long short hold field : Line} {values : TapeValues} {action : ModelAction}

theorem parseAction_eq_some_iff : parseAction field = some action ↔ field = className action := by
  unfold parseAction
  split_ifs with hlong hshort hhold
  · subst hlong
    cases action <;> decide
  · subst hshort
    cases action <;> decide
  · subst hhold
    cases action <;> decide
  · cases action with
    | longPosition => exact iff_of_false (by simp) hlong
    | shortPosition => exact iff_of_false (by simp) hshort
    | hold => exact iff_of_false (by simp) hhold

/-- The numbers that `load` lets through, and how they may be written. -/
structure ReadsAs (sequence long short hold : Line) (values : TapeValues) : Prop where
  sequence : Numeral values.sequence.toNat sequence
  long : Numeral values.longProbability.toNat long
  short : Numeral values.shortProbability.toNat short
  hold : Numeral values.holdProbability.toNat hold
  sequence_ne : values.sequence ≠ 0
  long_le : values.longProbability ≤ 1000000
  short_le : values.shortProbability ≤ 1000000
  hold_le : values.holdProbability ≤ 1000000

theorem parseValues_eq_some_iff :
    parseValues sequence long short hold = some values ↔
      ReadsAs sequence long short hold values := by
  simp only [parseValues, Option.bind_eq_bind, Option.bind_eq_some_iff, parseUInt64_eq_some_iff,
    parseUInt32_eq_some_iff]
  constructor
  · rintro ⟨s, hs, l, hl, sh, hsh, h, hh, hchecked⟩
    split_ifs at hchecked with hbad
    obtain rfl := Option.some.inj hchecked
    simp only [not_or, UInt32.not_lt] at hbad
    exact ⟨hs, hl, hsh, hh, hbad.1, hbad.2.1, hbad.2.2.1, hbad.2.2.2⟩
  · intro h
    refine ⟨_, h.sequence, _, h.long, _, h.short, _, h.hold, if_neg ?_⟩
    simp only [not_or, UInt32.not_lt]
    exact ⟨h.sequence_ne, h.long_le, h.short_le, h.hold_le⟩

theorem plain_className (action : ModelAction) : Plain (className action) := by
  cases action <;> exact plain_of_any rfl

end Fields

namespace TapeRow
variable {row : TapeRow} {line : Line}

theorem plain_fields (row : TapeRow) : ∀ field ∈ row.fields, Plain field := by
  simp only [fields, List.forall_mem_cons]
  exact ⟨plain_toDigits _, plain_className _, plain_toDigits _, plain_toDigits _, plain_toDigits _,
    by simp⟩

theorem padded_writeFields (row : TapeRow) : row.Padded (writeFields row.fields) :=
  ⟨_, _, _, _, numeral_toDigits _, numeral_toDigits _, numeral_toDigits _, numeral_toDigits _,
    writeFields_eq (by simp [fields]) row.plain_fields⟩

theorem toNat_sequence (row : TapeRow) : (UInt64.ofNat row.sequence).toNat = row.sequence :=
  UInt64.toNat_ofNat_of_lt' row.sequence_lt

theorem toNat_probability {n : ℕ} (h : n ≤ 1000000) : (UInt32.ofNat n).toNat = n := by
  rw [UInt32.toNat_ofNat', Nat.mod_eq_of_lt (by omega)]

theorem probability_le {n : ℕ} (h : n ≤ 1000000) : UInt32.ofNat n ≤ 1000000 := by
  rw [UInt32.le_iff_toNat_le, toNat_probability h]
  exact h

theorem Padded.loadFields (h : row.Padded line) (tape : DecisionTape) (rowNumber : ℕ) :
    tape.loadFields rowNumber (splitCsv line) = .ok (tape.insert row.decision) := by
  obtain ⟨sequence, long, short, hold, hs, hl, hsh, hh, rfl⟩ := h
  have hfields : splitCsv ([','].intercalate [sequence, className row.action, long, short, hold]) =
      [sequence, className row.action, long, short, hold] := by
    refine splitOn_fields (by simp) ?_
    simp only [List.forall_mem_cons]
    exact ⟨hs.plain, plain_className _, hl.plain, hsh.plain, hh.plain, by simp⟩
  have hvalues : parseValues sequence long short hold = some
      { sequence := UInt64.ofNat row.sequence
        longProbability := UInt32.ofNat row.longProbabilityPpm
        shortProbability := UInt32.ofNat row.shortProbabilityPpm
        holdProbability := UInt32.ofNat row.holdProbabilityPpm } := by
    refine parseValues_eq_some_iff.mpr ?_
    exact {
      sequence := by rwa [row.toNat_sequence]
      long := by rwa [toNat_probability row.longProbabilityPpm_le]
      short := by rwa [toNat_probability row.shortProbabilityPpm_le]
      hold := by rwa [toNat_probability row.holdProbabilityPpm_le]
      sequence_ne := uint64_ofNat_ne_zero row.sequence_pos row.sequence_lt
      long_le := probability_le row.longProbabilityPpm_le
      short_le := probability_le row.shortProbabilityPpm_le
      hold_le := probability_le row.holdProbabilityPpm_le }
  rw [hfields, DecisionTape.loadFields, hvalues]
  simp only [parseAction_eq_some_iff.mpr rfl]
  rfl

theorem padded_of_loadFields {tape next : DecisionTape} {rowNumber : ℕ}
    (h : tape.loadFields rowNumber (splitCsv line) = .ok next) :
    ∃ row : TapeRow, row.Padded line := by
  have hline : [','].intercalate (splitCsv line) = line := List.intercalate_splitOn ','
  unfold DecisionTape.loadFields at h
  split at h
  · rename_i sequence action long short hold hfields
    cases hvalues : parseValues sequence long short hold with
    | none => simp [hvalues] at h
    | some values =>
      cases haction : parseAction action with
      | none => simp [hvalues, haction] at h
      | some parsed =>
        have hreads := parseValues_eq_some_iff.mp hvalues
        rw [parseAction_eq_some_iff] at haction
        subst haction
        refine ⟨{
          sequence := values.sequence.toNat
          action := parsed
          longProbabilityPpm := values.longProbability.toNat
          shortProbabilityPpm := values.shortProbability.toNat
          holdProbabilityPpm := values.holdProbability.toNat
          sequence_pos := Nat.pos_of_ne_zero fun hzero =>
            hreads.sequence_ne (UInt64.toNat_inj.mp hzero)
          sequence_lt := values.sequence.toNat_lt
          longProbabilityPpm_le := UInt32.le_iff_toNat_le.mp hreads.long_le
          shortProbabilityPpm_le := UInt32.le_iff_toNat_le.mp hreads.short_le
          holdProbabilityPpm_le := UInt32.le_iff_toNat_le.mp hreads.hold_le }, ?_⟩
        exact ⟨sequence, long, short, hold, hreads.sequence, hreads.long, hreads.short,
          hreads.hold, by rw [← hline, hfields]⟩
  · simp at h

/-- A line as the writer terminates it, before the line feed. -/
def text (row : TapeRow) : Line := writeFields row.fields ++ ['\r']

theorem not_mem_text (row : TapeRow) : '\n' ∉ row.text := by
  rw [text, List.mem_append, not_or]
  exact ⟨lineFeed_not_mem_writeFields (by simp [fields]) row.plain_fields, by decide⟩

end TapeRow

theorem lines_writeTape (rows : List TapeRow) :
    lines (writeTape rows) = (headerLine ++ ['\r']) :: rows.map TapeRow.text := by
  have htape : writeTape rows = ((headerLine ++ ['\r']) :: rows.map TapeRow.text).flatMap
      fun line => line ++ ['\n'] := by
    rw [List.flatMap_cons, List.flatMap_map, writeTape]
    simp only [writeRow, TapeRow.text, List.append_assoc]
    rfl
  rw [htape]
  refine lines_terminated (List.forall_mem_cons.mpr ⟨by decide, List.forall_mem_map.mpr ?_⟩)
  exact fun row _ => row.not_mem_text

namespace DecisionTape
variable {tape : DecisionTape}

def insertRows (tape : DecisionTape) (rows : List TapeRow) : DecisionTape :=
  rows.foldl (fun tape row => tape.insert row.decision) tape

theorem loadLine_text (tape : DecisionTape) (rowNumber : ℕ) (row : TapeRow) :
    tape.loadLine rowNumber row.text = .ok (tape.insert row.decision) := by
  have hsplit : splitCsv (writeFields row.fields) = row.fields :=
    splitCsv_writeFields (by simp [TapeRow.fields]) (by simp [TapeRow.fields]) row.plain_fields
  have hdata : ¬ (writeFields row.fields = [] ∨ writeFields row.fields = headerLine) := by
    rintro (hblank | hheader)
    · rw [hblank] at hsplit
      exact absurd (congrArg List.length hsplit) (by simp [TapeRow.fields, splitCsv])
    · have hnames : splitCsv headerLine = tapeHeader := by decide
      rw [hheader, hnames] at hsplit
      have hname : "sequence".toList = Nat.toDigits 10 row.sequence := (List.cons.inj hsplit).1
      exact absurd (@isDigit_of_mem_toDigits row.sequence 's' (hname ▸ by decide)) (by decide)
  rw [loadLine, TapeRow.text, chomp_append, if_neg hdata]
  exact row.padded_writeFields.loadFields tape rowNumber

theorem loadLines_text (tape : DecisionTape) (rowNumber : ℕ) (rows : List TapeRow) :
    tape.loadLines rowNumber (rows.map TapeRow.text) = .ok (tape.insertRows rows) := by
  induction rows generalizing tape rowNumber with
  | nil => rfl
  | cons row rows ih =>
    rw [List.map_cons, loadLines, loadLine_text]
    exact ih _ _

theorem decisions_insertRows (tape : DecisionTape) (rows : List TapeRow) :
    (tape.insertRows rows).decisions =
      (rows.map fun row => (row.decision.stateSequence, row.decision)).reverse ++
        tape.decisions := by
  induction rows generalizing tape with
  | nil => rfl
  | cons row rows ih =>
    rw [insertRows, List.foldl_cons, ← insertRows, ih]
    simp [insert]

theorem padded_of_loadLines {next : DecisionTape} {rowNumber : ℕ} {texts : List Line}
    (h : tape.loadLines rowNumber texts = .ok next) :
    ∀ line ∈ texts, chomp line = [] ∨ chomp line = headerLine ∨
      ∃ row : TapeRow, row.Padded (chomp line) := by
  induction texts generalizing tape rowNumber with
  | nil => simp
  | cons first rest ih =>
    rw [loadLines] at h
    cases hfirst : tape.loadLine (rowNumber + 1) first with
    | error error => simp [hfirst] at h
    | ok loaded =>
      rw [hfirst] at h
      refine List.forall_mem_cons.mpr ⟨?_, ih h⟩
      unfold loadLine at hfirst
      split_ifs at hfirst with hskip
      · exact hskip.imp_right .inl
      · exact .inr (.inr (TapeRow.padded_of_loadFields hfirst))

end DecisionTape

/-- The decision has what the row was written with, and no error. -/
structure TapeRow.AnsweredBy (row : TapeRow) (decision : ModelDecision) : Prop where
  action : decision.action = row.action
  longProbabilityPpm : decision.longProbabilityPpm.toNat = row.longProbabilityPpm
  shortProbabilityPpm : decision.shortProbabilityPpm.toNat = row.shortProbabilityPpm
  holdProbabilityPpm : decision.holdProbabilityPpm.toNat = row.holdProbabilityPpm
  error : decision.error = ""

/-- The tape decides what the rows say, the last row of a sequence first, and holds elsewhere. -/
structure Reproduces (rows : List TapeRow) (tape : DecisionTape) : Prop where
  contains : ∀ sequence, tape.contains sequence = true ↔
    ∃ row ∈ rows, row.sequence = sequence.toNat
  decides : ∀ (sequence : UInt64) (before : List TapeRow) (row : TapeRow) (after : List TapeRow),
    rows = before ++ row :: after → row.sequence = sequence.toNat →
    (∀ later ∈ after, later.sequence ≠ sequence.toNat) → row.AnsweredBy (tape.decide sequence)
  holds : ∀ sequence, (∀ row ∈ rows, row.sequence ≠ sequence.toNat) →
    (tape.decide sequence).action = .hold ∧ (tape.decide sequence).error ≠ ""

section Lookup
variable {rows : List TapeRow}

theorem stateSequence_eq_iff {row : TapeRow} {sequence : UInt64} :
    sequence = row.decision.stateSequence ↔ row.sequence = sequence.toNat := by
  rw [← UInt64.toNat_inj, TapeRow.decision, row.toNat_sequence, eq_comm]

theorem find_insertRows (rows : List TapeRow) (sequence : UInt64) :
    (DecisionTape.empty.insertRows rows).find sequence =
      (rows.map fun row => (row.decision.stateSequence, row.decision)).reverse.lookup sequence := by
  rw [DecisionTape.find, DecisionTape.decisions_insertRows, DecisionTape.empty, List.append_nil]

theorem find_eq_none {sequence : UInt64} (h : ∀ row ∈ rows, row.sequence ≠ sequence.toNat) :
    (DecisionTape.empty.insertRows rows).find sequence = none := by
  rw [find_insertRows, List.lookup_eq_none_iff]
  intro entry hentry
  obtain ⟨row, hrow, rfl⟩ := List.mem_map.mp (List.mem_reverse.mp hentry)
  rw [bne_iff_ne, Ne, stateSequence_eq_iff]
  exact h row hrow

theorem find_eq_some {sequence : UInt64} {before after : List TapeRow} {row : TapeRow}
    (hrow : row.sequence = sequence.toNat)
    (hlast : ∀ later ∈ after, later.sequence ≠ sequence.toNat) :
    (DecisionTape.empty.insertRows (before ++ row :: after)).find sequence = some row.decision := by
  have hafter := find_eq_none hlast
  rw [find_insertRows] at hafter ⊢
  rw [List.map_append, List.map_cons, List.reverse_append, List.reverse_cons, List.append_assoc,
    List.lookup_append, hafter, Option.none_or, List.singleton_append, List.lookup_cons,
    stateSequence_eq_iff.mpr hrow]
  simp

theorem reproduces_insertRows (rows : List TapeRow) :
    Reproduces rows (DecisionTape.empty.insertRows rows) where
  contains sequence := by
    rw [DecisionTape.contains, find_insertRows, List.lookup_isSome_iff]
    constructor
    · rintro ⟨entry, hentry, hkey⟩
      obtain ⟨row, hrow, rfl⟩ := List.mem_map.mp (List.mem_reverse.mp hentry)
      exact ⟨row, hrow, stateSequence_eq_iff.mp (beq_iff_eq.mp hkey)⟩
    · rintro ⟨row, hrow, hsequence⟩
      exact ⟨_, List.mem_reverse.mpr (List.mem_map_of_mem hrow),
        beq_iff_eq.mpr (stateSequence_eq_iff.mpr hsequence)⟩
  decides := by
    rintro sequence before row after rfl hrow hlast
    rw [DecisionTape.decide, find_eq_some hrow hlast]
    exact ⟨rfl, TapeRow.toNat_probability row.longProbabilityPpm_le,
      TapeRow.toNat_probability row.shortProbabilityPpm_le,
      TapeRow.toNat_probability row.holdProbabilityPpm_le, rfl⟩
  holds := by
    intro sequence hnone
    rw [DecisionTape.decide, find_eq_none hnone]
    refine ⟨rfl, fun herror => ?_⟩
    have hlength := congrArg String.length herror
    simp [String.length_append] at hlength

end Lookup

theorem load_writeTape_eq (path : String) {rows : List TapeRow} (hrows : rows ≠ []) :
    DecisionTape.load path (some (writeTape rows)) =
      .ok (DecisionTape.empty.insertRows rows) := by
  have hlines : DecisionTape.empty.loadLines 0 (lines (writeTape rows)) =
      .ok (DecisionTape.empty.insertRows rows) := by
    rw [lines_writeTape, DecisionTape.loadLines, DecisionTape.loadLine, chomp_append,
      if_pos (.inr rfl)]
    exact DecisionTape.loadLines_text _ 1 rows
  have hne : (DecisionTape.empty.insertRows rows).decisions ≠ [] := by
    rw [DecisionTape.decisions_insertRows]
    simpa [DecisionTape.empty] using hrows
  simp only [DecisionTape.load, hlines, if_neg hne]

/-- The tape survives the way from one program to the other, and nothing else passes for one. -/
theorem load_writeTape (path : String) :
    (∀ rows, rows ≠ [] → ∃ tape, DecisionTape.load path (some (writeTape rows)) = .ok tape ∧
      Reproduces rows tape) ∧
    ∀ text, ∀ line ∈ lines text, chomp line ≠ [] → chomp line ≠ headerLine →
      (∀ row : TapeRow, ¬ row.Padded (chomp line)) →
      ∃ error, DecisionTape.load path (some text) = .error error := by
  refine ⟨fun rows hrows => ⟨_, load_writeTape_eq path hrows, reproduces_insertRows rows⟩, ?_⟩
  intro text line hline hblank hheader hrow
  cases hloaded : DecisionTape.empty.loadLines 0 (lines text) with
  | error error => exact ⟨error, by simp only [DecisionTape.load, hloaded]⟩
  | ok tape =>
    rcases DecisionTape.padded_of_loadLines hloaded line hline with h | h | ⟨row, h⟩
    · exact absurd h hblank
    · exact absurd h hheader
    · exact absurd h (hrow row)

/-- Two rows of one sequence. -/
theorem load_writeTape_twoRows :
    let rows : List TapeRow :=
      [{ sequence := 60, action := .longPosition, longProbabilityPpm := 700000
         shortProbabilityPpm := 100000, holdProbabilityPpm := 200000, sequence_pos := by decide
         sequence_lt := by decide, longProbabilityPpm_le := by decide
         shortProbabilityPpm_le := by decide, holdProbabilityPpm_le := by decide },
       { sequence := 60, action := .hold, longProbabilityPpm := 0, shortProbabilityPpm := 0
         holdProbabilityPpm := 1000000, sequence_pos := by decide, sequence_lt := by decide
         longProbabilityPpm_le := by decide, shortProbabilityPpm_le := by decide
         holdProbabilityPpm_le := by decide }]
    ∃ tape, DecisionTape.load "tape.csv" (some (writeTape rows)) = .ok tape ∧
      Reproduces rows tape :=
  (load_writeTape "tape.csv").1 _ (by simp)

end Astra.Replay
