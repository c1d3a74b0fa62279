import AstraTrader.Text.Digits

/-! Rows of comma-separated fields: a writer that quotes as little as it can, and a reader that
knows no quotes. The two agree on fields that need none. -/

namespace Text

/-- Characters for which a field has to be quoted. -/
def special (c : Char) : Bool :=
  c = ',' || c = '\"' || c = '\r' || c = '\n'

def quote (field : List Char) : List Char :=
  '\"' :: field.flatMap (fun c => if c = '\"' then ['\"', '\"'] else [c]) ++ ['\"']

/-- A field as the writer puts it down. -/
def writeField (field : List Char) : List Char :=
  if field.any special = true then quote field else field

/-- A row without its terminator; a row of one empty field is quoted, to be told from no row. -/
def writeFields (fields : List (List Char)) : List Char :=
  if fields = [[]] then quote [] else [','].intercalate (fields.map writeField)

/-- The lines that reading up to each line feed finds; what follows the last one is a line only
if it is not empty. -/
def lines (text : List Char) : List (List Char) :=
  let segments := text.splitOn '\n'
  if segments.getLast? = some [] then segments.dropLast else segments

/-- A line without the carriage return that may end it. -/
def chomp (line : List Char) : List Char :=
  if line.getLast? = some '\r' then line.dropLast else line

theorem chomp_append (line : List Char) : chomp (line ++ ['\r']) = line := by
  rw [chomp, if_pos (List.getLast?_concat ..), List.dropLast_concat]

theorem splitOn_terminated {texts : List (List Char)} (h : ∀ text ∈ texts, '\n' ∉ text) :
    (texts.flatMap fun text => text ++ ['\n']).splitOn '\n' = texts ++ [[]] := by
  induction texts with
  | nil => rfl
  | cons text texts ih =>
    rw [List.flatMap_cons, List.append_assoc, List.singleton_append,
      List.splitOn_append_cons_self_of_not_mem (h text (List.mem_cons_self ..)),
      ih fun other hother => h other (List.mem_cons_of_mem _ hother), List.cons_append]

theorem lines_terminated {texts : List (List Char)} (h : ∀ text ∈ texts, '\n' ∉ text) :
    lines (texts.flatMap fun text => text ++ ['\n']) = texts := by
  unfold lines
  rw [splitOn_terminated h]
  dsimp only
  rw [if_pos (List.getLast?_concat ..), List.dropLast_concat]

/-- A field without special characters. -/
def Plain (field : List Char) : Prop := ∀ c ∈ field, special c = false

theorem plain_of_any {field : List Char} (h : field.any special = false) : Plain field := by
  intro c hc
  exact eq_false_of_ne_true (List.any_eq_false.mp h c hc)

section Fields
variable {fields : List (List Char)}

theorem writeField_eq {field : List Char} (h : Plain field) : writeField field = field := by
  refine if_neg fun hany => ?_
  obtain ⟨c, hc, hspecial⟩ := List.any_eq_true.mp hany
  rw [h c hc] at hspecial
  exact absurd hspecial (by decide)

theorem writeFields_eq (hne : fields ≠ [[]]) (h : ∀ field ∈ fields, Plain field) :
    writeFields fields = [','].intercalate fields := by
  rw [writeFields, if_neg hne,
    List.map_congr_left fun field hfield => writeField_eq (h field hfield), List.map_id']

theorem splitOn_fields (hne : fields ≠ []) (h : ∀ field ∈ fields, Plain field) :
    ([','].intercalate fields).splitOn ',' = fields := by
  refine List.splitOn_intercalate ',' (fun field hfield hmem => ?_) hne
  exact absurd (h field hfield ',' hmem) (by decide)

theorem mem_intercalate {c : Char} (hc : c ∈ [','].intercalate fields) :
    c = ',' ∨ ∃ field ∈ fields, c ∈ field := by
  induction fields with
  | nil => simp at hc
  | cons field rest ih =>
    cases rest with
    | nil =>
      rw [List.intercalate_singleton] at hc
      exact .inr ⟨field, List.mem_cons_self .., hc⟩
    | cons next rest =>
      rw [List.intercalate_cons_cons, List.append_assoc, List.mem_append, List.mem_append] at hc
      rcases hc with hc | hc | hc
      · exact .inr ⟨field, List.mem_cons_self .., hc⟩
      · exact .inl (List.mem_singleton.mp hc)
      · rcases ih hc with rfl | ⟨other, hother, hmem⟩
        · exact .inl rfl
        · exact .inr ⟨other, List.mem_cons_of_mem _ hother, hmem⟩

theorem not_mem_fields (h : ∀ field ∈ fields, Plain field) {c : Char} (hne : c ≠ ',')
    (hspecial : special c = true) : c ∉ [','].intercalate fields := by
  intro hc
  rcases mem_intercalate hc with hcomma | ⟨field, hfield, hmem⟩
  · exact hne hcomma
  · rw [h field hfield c hmem] at hspecial
    exact absurd hspecial (by decide)

theorem lineFeed_not_mem_writeFields (hne : fields ≠ [[]]) (h : ∀ field ∈ fields, Plain field) :
    '\n' ∉ writeFields fields := by
  rw [writeFields_eq hne h]
  exact not_mem_fields h (by decide) rfl

end Fields

theorem special_of_isDigit {c : Char} (h : c.isDigit = true) : special c = false := by
  by_contra hspecial
  simp only [special, Bool.not_eq_false, Bool.or_eq_true, decide_eq_true_eq] at hspecial
  rcases hspecial with ((rfl | rfl) | rfl) | rfl <;> exact absurd h (by decide)

theorem Numeral.plain {n : ℕ} {field : List Char} (h : Numeral n field) : Plain field := fun _ hc =>
  special_of_isDigit (h.isDigit hc)

theorem plain_toDigits (n : ℕ) : Plain (Nat.toDigits 10 n) := (numeral_toDigits n).plain

theorem plain_printInt (value : ℤ) : Plain (printInt value) := by
  intro c hc
  rcases mem_printInt hc with rfl | hdigit
  · rfl
  · exact special_of_isDigit hdigit

end Text
