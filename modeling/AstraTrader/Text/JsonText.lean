import AstraTrader.Text.Digits
import Mathlib.Data.List.Forall2
import Mathlib.Tactic.IntervalCases

/-! JSON as text: a reader of documents, and the flat objects that are written by joining texts.
Whatever the writer puts between two quotes is read back as the reader unescapes it. -/

namespace Text

/-- A document. Numbers with a fraction or an exponent are kept as they are written. -/
inductive Node
  | null
  | bool (value : Bool)
  | integer (value : ℤ)
  | real (literal : List Char)
  | string (value : List Char)
  | array (items : List Node)
  | object (members : List (List Char × Node))

def isBlank (c : Char) : Bool := c = ' ' || c = '\t' || c = '\n' || c = '\r'

def skipBlank (text : List Char) : List Char := text.dropWhile isBlank

def hexValue (c : Char) : Option ℕ :=
  if c.isDigit then some (c.toNat - 48)
  else if 'a' ≤ c ∧ c ≤ 'f' then some (c.toNat - 87)
  else if 'A' ≤ c ∧ c ≤ 'F' then some (c.toNat - 55)
  else none

/-- The character of an escape by number; surrogates are no characters. -/
def numbered (a b c d : Char) : Option Char := do
  let code := (((← hexValue a) * 16 + (← hexValue b)) * 16 + (← hexValue c)) * 16 + (← hexValue d)
  if code.isValidChar then some (Char.ofNat code) else none

def named : Char → Option Char
  | '\"' => some '\"'
  | '\\' => some '\\'
  | '/' => some '/'
  | 'b' => some (Char.ofNat 8)
  | 'f' => some (Char.ofNat 12)
  | 'n' => some '\n'
  | 'r' => some '\r'
  | 't' => some '\t'
  | _ => none

/-- The value of a string from behind its opening quote, and what follows the closing one. -/
def scanString : List Char → Option (List Char × List Char)
  | [] => none
  | '\"' :: rest => some ([], rest)
  | '\\' :: 'u' :: a :: b :: c :: d :: rest => do
    let decoded ← numbered a b c d
    (scanString rest).map fun scanned => (decoded :: scanned.1, scanned.2)
  | '\\' :: c :: rest => do
    let decoded ← named c
    (scanString rest).map fun scanned => (decoded :: scanned.1, scanned.2)
  | c :: rest =>
    if c.toNat < 32 then none
    else (scanString rest).map fun scanned => (c :: scanned.1, scanned.2)

def scanDigits (text : List Char) : List Char × List Char :=
  (text.takeWhile Char.isDigit, text.dropWhile Char.isDigit)

def scanMinus : List Char → List Char × List Char
  | '-' :: rest => (['-'], rest)
  | text => ([], text)

/-- A whole number has no leading zero. -/
def scanWhole : List Char → Option (List Char × List Char)
  | '0' :: rest => some (['0'], rest)
  | text => if (scanDigits text).1 = [] then none else some (scanDigits text)

def scanFraction : List Char → List Char × List Char
  | '.' :: rest =>
    if (scanDigits rest).1 = [] then ([], '.' :: rest)
    else ('.' :: (scanDigits rest).1, (scanDigits rest).2)
  | text => ([], text)

def scanSign : List Char → List Char × List Char
  | '+' :: rest => (['+'], rest)
  | '-' :: rest => (['-'], rest)
  | text => ([], text)

def scanExponent : List Char → List Char × List Char
  | [] => ([], [])
  | c :: rest =>
    let (sign, unsigned) := scanSign rest
    if (c = 'e' ∨ c = 'E') ∧ (scanDigits unsigned).1 ≠ [] then
      (c :: sign ++ (scanDigits unsigned).1, (scanDigits unsigned).2)
    else ([], c :: rest)

def scanNumber (text : List Char) : Option (Node × List Char) := do
  let (minus, unsigned) := scanMinus text
  let (whole, rest) ← scanWhole unsigned
  let (fraction, rest) := scanFraction rest
  let (exponent, rest) := scanExponent rest
  if fraction = [] ∧ exponent = [] then
    return (.integer (← readInt (minus ++ whole)), rest)
  else some (.real (minus ++ whole ++ fraction ++ exponent), rest)

mutual

/-- The value that a text starts with. -/
def scanValue : ℕ → List Char → Option (Node × List Char)
  | 0, _ => none
  | fuel + 1, text =>
    match text with
    | '\"' :: rest => (scanString rest).map fun scanned => (.string scanned.1, scanned.2)
    | '{' :: rest =>
      match skipBlank rest with
      | '}' :: rest => some (.object [], rest)
      | rest => (scanMembers fuel rest).map fun scanned => (.object scanned.1, scanned.2)
    | '[' :: rest =>
      match skipBlank rest with
      | ']' :: rest => some (.array [], rest)
      | rest => (scanItems fuel rest).map fun scanned => (.array scanned.1, scanned.2)
    | 'n' :: 'u' :: 'l' :: 'l' :: rest => some (.null, rest)
    | 't' :: 'r' :: 'u' :: 'e' :: rest => some (.bool true, rest)
    | 'f' :: 'a' :: 'l' :: 's' :: 'e' :: rest => some (.bool false, rest)
    | 'N' :: 'a' :: 'N' :: rest => some (.real ['N', 'a', 'N'], rest)
    | 'I' :: 'n' :: 'f' :: 'i' :: 'n' :: 'i' :: 't' :: 'y' :: rest =>
      some (.real ['I', 'n', 'f', 'i', 'n', 'i', 't', 'y'], rest)
    | '-' :: 'I' :: 'n' :: 'f' :: 'i' :: 'n' :: 'i' :: 't' :: 'y' :: rest =>
      some (.real ['-', 'I', 'n', 'f', 'i', 'n', 'i', 't', 'y'], rest)
    | text => scanNumber text

/-- The members of an object up to its closing brace. -/
def scanMembers : ℕ → List Char → Option (List (List Char × Node) × List Char)
  | fuel + 1, '\"' :: rest => do
    let (key, rest) ← scanString rest
    match skipBlank rest with
    | ':' :: rest =>
      let (value, rest) ← scanValue fuel (skipBlank rest)
      match skipBlank rest with
      | '}' :: rest => some ([(key, value)], rest)
      | ',' :: rest =>
        let (members, rest) ← scanMembers fuel (skipBlank rest)
        some ((key, value) :: members, rest)
      | _ => none
    | _ => none
  | _, _ => none

/-- The items of an array up to its closing bracket. -/
def scanItems : ℕ → List Char → Option (List Node × List Char)
  | 0, _ => none
  | fuel + 1, text => do
    let (value, rest) ← scanValue fuel text
    match skipBlank rest with
    | ']' :: rest => some ([value], rest)
    | ',' :: rest =>
      let (items, rest) ← scanItems fuel (skipBlank rest)
      some (value :: items, rest)
    | _ => none

end

/-- The document that a text is, blanks around it allowed. -/
def loads (text : List Char) : Option Node := do
  let (value, rest) ← scanValue (text.length + 1) (skipBlank text)
  if skipBlank rest = [] then some value else none

/-- The value of a key, the last one if there are several. -/
def Node.get (node : Node) (key : String) : Option Node :=
  match node with
  | .object members => (members.reverse.find? fun entry => entry.1 = key.toList).map (·.2)
  | _ => none

/-- What a writer puts behind a key: a text as it stands, between quotes or not, or a value. -/
inductive Field
  | raw (text : List Char)
  | literal (text : List Char)
  | integer (value : ℤ)
  | bool (value : Bool)

def Field.write : Field → List Char
  | .raw text => '\"' :: text ++ ['\"']
  | .literal text => text
  | .integer value => printInt value
  | .bool value => if value then "true".toList else "false".toList

/-- The value that a reader sees of a field whose text needs no escapes. -/
def Field.node : Field → Node
  | .raw text => .string text
  | .literal text => .real text
  | .integer value => .integer value
  | .bool value => .bool value

def nodeOf (entries : List (String × Field)) : Node :=
  .object (entries.map fun entry => (entry.1.toList, entry.2.node))

def writeMember (entry : String × Field) : List Char :=
  '\"' :: entry.1.toList ++ ['\"', ':'] ++ entry.2.write

def writeObject (members : List (String × Field)) : List Char :=
  '{' :: [','].intercalate (members.map writeMember) ++ ['}']

/-- A text that the reader takes from between quotes as it stands. -/
def Unescaped (text : List Char) : Prop := ∀ c ∈ text, 32 ≤ c.toNat ∧ c ≠ '\"' ∧ c ≠ '\\'

instance : DecidablePred Unescaped := fun text => List.decidableBAll _ text

/-- What the reader makes of a field. -/
inductive Field.Reads : Field → Node → Prop
  | raw {text value : List Char} :
      (∀ rest, scanString (text ++ '\"' :: rest) = some (value, rest)) →
      Reads (.raw text) (.string value)
  | literal {text : List Char} {value : ℤ} : text = printInt value →
      Reads (.literal text) (.integer value)
  | integer (value : ℤ) : Reads (.integer value) (.integer value)
  | bool (value : Bool) : Reads (.bool value) (.bool value)

section Strings
variable {c : Char} {text value rest : List Char}

theorem scanString_cons (hcontrol : 32 ≤ c.toNat) (hquote : c ≠ '\"') (hescape : c ≠ '\\')
    (rest : List Char) : scanString (c :: rest) =
      (scanString rest).map fun scanned => (c :: scanned.1, scanned.2) := by
  rw [scanString.eq_def]
  split
  · rename_i h
    cases h
  · rename_i h
    exact absurd (List.cons.inj h).1 hquote
  · rename_i h
    exact absurd (List.cons.inj h).1 hescape
  · rename_i h
    exact absurd (List.cons.inj h).1 hescape
  · rename_i h
    obtain ⟨rfl, rfl⟩ := List.cons.inj h
    rw [if_neg (Nat.not_lt.mpr hcontrol)]

theorem scanString_control (hcontrol : c.toNat < 32) (rest : List Char) :
    scanString (c :: rest) = none := by
  rw [scanString.eq_def]
  split
  · rfl
  · rename_i h
    rw [(List.cons.inj h).1] at hcontrol
    exact absurd hcontrol (by decide)
  · rename_i h
    rw [(List.cons.inj h).1] at hcontrol
    exact absurd hcontrol (by decide)
  · rename_i h
    rw [(List.cons.inj h).1] at hcontrol
    exact absurd hcontrol (by decide)
  · rename_i h
    obtain ⟨rfl, rfl⟩ := List.cons.inj h
    rw [if_pos hcontrol]

theorem scanString_escape {decoded : Char} (hc : c ≠ 'u') (hnamed : named c = some decoded)
    (rest : List Char) : scanString ('\\' :: c :: rest) =
      (scanString rest).map fun scanned => (decoded :: scanned.1, scanned.2) := by
  rw [scanString.eq_def]
  split
  · rename_i h
    cases h
  · rename_i h
    exact absurd (List.cons.inj h).1 (by decide)
  · rename_i h
    exact absurd (List.cons.inj (List.cons.inj h).2).1 hc
  · rename_i h
    obtain ⟨rfl, rfl⟩ := List.cons.inj (List.cons.inj h).2
    rw [hnamed]
    rfl
  · rename_i hnot h
    obtain ⟨rfl, rfl⟩ := List.cons.inj h
    exact absurd rfl (hnot c rest rfl)

theorem scanString_unescaped (h : Unescaped text) (rest : List Char) :
    scanString (text ++ '\"' :: rest) = some (text, rest) := by
  induction text with
  | nil => rfl
  | cons c text ih =>
    obtain ⟨hcontrol, hquote, hescape⟩ := h c (List.mem_cons_self ..)
    rw [List.cons_append, scanString_cons hcontrol hquote hescape,
      ih fun d hd => h d (List.mem_cons_of_mem _ hd), Option.map_some]

theorem Field.reads_unescaped (h : Unescaped text) : (Field.raw text).Reads (.string text) :=
  .raw fun rest => scanString_unescaped h rest

end Strings

section Numbers
variable {text rest : List Char}

/-- The text ends behind a value, or goes on as an object or an array does. -/
def Closes (text : List Char) : Prop :=
  text = [] ∨ ∃ rest, text = ',' :: rest ∨ text = '}' :: rest ∨ text = ']' :: rest

theorem scanDigits_append {digits : List Char} (h : ∀ c ∈ digits, c.isDigit = true)
    (hrest : Closes rest) : scanDigits (digits ++ rest) = (digits, rest) := by
  rw [scanDigits, List.takeWhile_append_of_pos h, List.dropWhile_append_of_pos h]
  obtain rfl | ⟨tail, rfl | rfl | rfl⟩ := hrest <;> simp

theorem toDigits_eq_zero_or (n : ℕ) : Nat.toDigits 10 n = ['0'] ∨
    ∃ c digits, Nat.toDigits 10 n = c :: digits ∧ c ≠ '0' := by
  induction n using Nat.strong_induction_on with
  | h n ih =>
    rw [Nat.toDigits_eq_if (by decide)]
    split_ifs with hlt
    · rcases Nat.eq_zero_or_pos n with rfl | hpos
      · exact .inl rfl
      · refine .inr ⟨_, [], rfl, ?_⟩
        interval_cases n <;> decide
    · right
      have hpos : n / 10 ≠ 0 := by omega
      rcases ih (n / 10) (by omega) with hzero | ⟨c, digits, hdigits, hc⟩
      · have hvalue := congrArg (fun digits => Nat.ofDigitChars 10 digits 0) hzero
        rw [Nat.ofDigitChars_ten_toDigits] at hvalue
        exact absurd hvalue hpos
      · exact ⟨c, digits ++ [(n % 10).digitChar], by rw [hdigits, List.cons_append], hc⟩

theorem scanWhole_toDigits (n : ℕ) (hrest : Closes rest) :
    scanWhole (Nat.toDigits 10 n ++ rest) = some (Nat.toDigits 10 n, rest) := by
  have hdigits : ∀ c ∈ Nat.toDigits 10 n, c.isDigit = true := fun c hc =>
    isDigit_of_mem_toDigits hc
  rcases toDigits_eq_zero_or n with hzero | ⟨c, digits, hcons, hc⟩
  · rw [hzero]
    rfl
  · have hscan := scanDigits_append hdigits hrest
    rw [hcons] at hscan ⊢
    rw [scanWhole.eq_def]
    split
    · rename_i h
      exact absurd (List.cons.inj h).1 hc
    · rw [hscan, if_neg (List.cons_ne_nil _ _)]

theorem scanMinus_toDigits (n : ℕ) (rest : List Char) :
    scanMinus (Nat.toDigits 10 n ++ rest) = ([], Nat.toDigits 10 n ++ rest) := by
  rw [scanMinus.eq_def]
  split
  · rename_i h
    rcases toDigits_eq_zero_or n with hzero | ⟨c, digits, hcons, _⟩
    · rw [hzero] at h
      exact absurd (List.cons.inj h).1 (by decide)
    · have hdigit := @isDigit_of_mem_toDigits n c (by simp [hcons])
      rw [hcons] at h
      rw [(List.cons.inj h).1] at hdigit
      exact absurd hdigit (by decide)
  · rfl

theorem scanFraction_closes (hrest : Closes rest) : scanFraction rest = ([], rest) := by
  obtain rfl | ⟨tail, rfl | rfl | rfl⟩ := hrest <;> rfl

theorem scanExponent_closes (hrest : Closes rest) : scanExponent rest = ([], rest) := by
  obtain rfl | ⟨tail, rfl | rfl | rfl⟩ := hrest <;> simp [scanExponent]

theorem scanNumber_printInt (value : ℤ) (hrest : Closes rest) :
    scanNumber (printInt value ++ rest) = some (.integer value, rest) := by
  have hminus : scanMinus (printInt value ++ rest) =
      (if value < 0 then ['-'] else [], Nat.toDigits 10 value.natAbs ++ rest) := by
    unfold printInt
    split_ifs
    · rfl
    · exact scanMinus_toDigits _ _
  have hread : (if value < 0 then ['-'] else []) ++ Nat.toDigits 10 value.natAbs =
      printInt value := by
    unfold printInt
    split_ifs <;> rfl
  unfold scanNumber
  simp [hminus, scanWhole_toDigits _ hrest, scanFraction_closes hrest, scanExponent_closes hrest,
    hread, readInt_printInt]

/-- A text that starts like a number starts nothing else. -/
theorem scanValue_number (fuel : ℕ) {c : Char} {text : List Char}
    (hc : c = '-' ∨ c.isDigit = true) (htext : text.head? ≠ some 'I') :
    scanValue (fuel + 1) (c :: text) = scanNumber (c :: text) := by
  have hne : ∀ e, e ≠ '-' → e.isDigit = false → c ≠ e := by
    rintro e hminus hdigit rfl
    rcases hc with hc | hc
    · exact hminus hc
    · rw [hdigit] at hc
      exact Bool.false_ne_true hc
  rw [scanValue] <;> intro tail h <;> obtain ⟨rfl, htail⟩ := List.cons.inj h
  case x_10 => exact htext (by rw [htail, List.head?_cons])
  all_goals exact hne _ (by decide) (by decide) rfl

theorem isDigit_ne_letter {c : Char} (h : c.isDigit = true) : c ≠ 'I' := by
  rintro rfl
  exact absurd h (by decide)

theorem scanValue_printInt (fuel : ℕ) (value : ℤ) (hrest : Closes rest) :
    scanValue (fuel + 1) (printInt value ++ rest) = some (.integer value, rest) := by
  rw [← scanNumber_printInt value hrest]
  have hend : rest.head? ≠ some 'I' := by
    obtain rfl | ⟨tail, rfl | rfl | rfl⟩ := hrest <;> simp
  have hmem : ∀ c ∈ Nat.toDigits 10 value.natAbs, c.isDigit = true := fun c hc =>
    isDigit_of_mem_toDigits hc
  -- what comes after the first character is a digit or the end of the number
  unfold printInt
  cases hdigits : Nat.toDigits 10 value.natAbs with
  | nil => exact absurd hdigits Nat.toDigits_ne_nil
  | cons c digits =>
    have hc := hmem c (by simp [hdigits])
    split_ifs
    · exact scanValue_number fuel (.inl rfl) (by simpa using isDigit_ne_letter hc)
    · cases digits with
      | nil => exact scanValue_number fuel (.inr hc) hend
      | cons d digits =>
        have hd := isDigit_ne_letter (hmem d (by simp [hdigits]))
        exact scanValue_number fuel (.inr hc) (by simpa using hd)

end Numbers

section Objects
variable {entry : String × Field} {entries : List (String × Field)} {key : String} {field : Field}
  {node : Node} {nodes : List (List Char × Node)} {rest : List Char}

theorem Field.Reads.scanValue (h : field.Reads node) (fuel : ℕ) (hrest : Closes rest) :
    scanValue (fuel + 1) (field.write ++ rest) = some (node, rest) := by
  cases h with
  | @raw text value hscan =>
    rw [Field.write, List.append_assoc, List.singleton_append, List.cons_append, Text.scanValue,
      hscan, Option.map_some]
  | @literal text value htext =>
    rw [Field.write, htext]
    exact scanValue_printInt fuel value hrest
  | integer value => exact scanValue_printInt fuel value hrest
  | bool value => cases value <;> rfl

/-- An entry that is read as a key and a node. -/
structure EntryReads (entry : String × Field) (member : List Char × Node) : Prop where
  unescaped : Unescaped entry.1.toList
  key : member.1 = entry.1.toList
  value : entry.2.Reads member.2

/-- The same without the key, which is read as it stands if it is plain. -/
structure ValueReads (entry : String × Field) (member : List Char × Node) : Prop where
  key : member.1 = entry.1.toList
  value : entry.2.Reads member.2

def IsAscii (c : Char) : Prop := 32 ≤ c.toNat ∧ c.toNat < 127

instance : DecidablePred IsAscii := fun c =>
  inferInstanceAs (Decidable (32 ≤ c.toNat ∧ c.toNat < 127))

def PlainKey (text : List Char) : Prop := ∀ c ∈ text, IsAscii c ∧ c ≠ '\"' ∧ c ≠ '\\'

instance : DecidablePred PlainKey := fun text => List.decidableBAll _ text

/-- Keys that are read as they stand. -/
def PlainKeys (entries : List (String × Field)) : Prop := ∀ entry ∈ entries, PlainKey entry.1.toList

instance : DecidablePred PlainKeys := fun entries => List.decidableBAll _ entries

theorem PlainKeys.of_map_eq {others : List (String × Field)} (h : PlainKeys others)
    (hkeys : entries.map Prod.fst = others.map Prod.fst) : PlainKeys entries := by
  intro entry hentry
  have hmem : entry.1 ∈ others.map Prod.fst := hkeys ▸ List.mem_map_of_mem hentry
  obtain ⟨other, hother, hkey⟩ := List.mem_map.mp hmem
  exact hkey ▸ h other hother

theorem PlainKeys.unescaped (h : PlainKeys entries) (hentry : entry ∈ entries) :
    Unescaped entry.1.toList := fun c hc => ⟨(h entry hentry c hc).1.1, (h entry hentry c hc).2⟩

theorem PlainKeys.reads (h : PlainKeys entries) (hvalues : List.Forall₂ ValueReads entries nodes) :
    List.Forall₂ EntryReads entries nodes := by
  refine List.forall₂_iff_get.mpr ⟨hvalues.length_eq, fun i hentry hnode => ?_⟩
  have hvalue := (List.forall₂_iff_get.mp hvalues).2 i hentry hnode
  exact ⟨h.unescaped (List.get_mem _ _), hvalue.key, hvalue.value⟩

theorem closes_comma (rest : List Char) : Closes (',' :: rest) := .inr ⟨rest, .inl rfl⟩

theorem closes_brace (rest : List Char) : Closes ('}' :: rest) := .inr ⟨rest, .inr (.inl rfl)⟩

theorem closes_bracket (rest : List Char) : Closes (']' :: rest) := .inr ⟨rest, .inr (.inr rfl)⟩

theorem skipBlank_cons {c : Char} (hc : isBlank c = false) (rest : List Char) :
    skipBlank (c :: rest) = c :: rest := List.dropWhile_cons_of_neg (by simp [hc])

theorem isBlank_of_mem_printInt {value : ℤ} {c : Char} (h : c ∈ printInt value) :
    isBlank c = false := by
  rcases mem_printInt h with rfl | hdigit
  · rfl
  · by_contra hblank
    simp only [isBlank, Bool.or_eq_false_iff, decide_eq_false_iff_not, not_and_or,
      not_not] at hblank
    rcases hblank with ((rfl | rfl) | rfl) | rfl <;> exact absurd hdigit (by decide)

theorem skipBlank_printInt (value : ℤ) (rest : List Char) :
    skipBlank (printInt value ++ rest) = printInt value ++ rest := by
  cases hdigits : printInt value with
  | nil =>
    have hread := readInt_printInt value
    rw [hdigits] at hread
    exact absurd hread (by simp [readInt, readNat])
  | cons c digits =>
    exact skipBlank_cons (isBlank_of_mem_printInt (hdigits ▸ List.mem_cons_self ..)) _

theorem Field.Reads.skipBlank_write (h : field.Reads node) (rest : List Char) :
    skipBlank (field.write ++ rest) = field.write ++ rest := by
  cases h with
  | raw => exact skipBlank_cons rfl _
  | @literal text value htext =>
    rw [Field.write, htext]
    exact skipBlank_printInt value rest
  | integer value => exact skipBlank_printInt value rest
  | bool value => cases value <;> exact skipBlank_cons rfl _

theorem writeMember_append (entry : String × Field) (rest : List Char) :
    writeMember entry ++ rest =
      '\"' :: (entry.1.toList ++ '\"' :: ':' :: (entry.2.write ++ rest)) := by
  simp [writeMember]

theorem scanMembers_last {member : List Char × Node} (h : EntryReads entry member) (fuel : ℕ)
    (rest : List Char) :
    scanMembers (fuel + 2) (writeMember entry ++ '}' :: rest) = some ([member], rest) := by
  rw [writeMember_append, scanMembers, scanString_unescaped h.unescaped]
  simp only [Option.bind_eq_bind, Option.bind_some, skipBlank_cons (c := ':') rfl,
    h.value.skipBlank_write,
    h.value.scanValue fuel (closes_brace rest), skipBlank_cons (c := '}') rfl, ← h.key]

theorem scanMembers_comma {member : List Char × Node} (h : EntryReads entry member) (fuel : ℕ)
    (rest : List Char) : scanMembers (fuel + 2) (writeMember entry ++ ',' :: '\"' :: rest) =
      (scanMembers (fuel + 1) ('\"' :: rest)).map fun scanned =>
        (member :: scanned.1, scanned.2) := by
  rw [writeMember_append, scanMembers, scanString_unescaped h.unescaped]
  simp only [Option.bind_eq_bind, Option.bind_some, skipBlank_cons (c := ':') rfl,
    h.value.skipBlank_write,
    h.value.scanValue fuel (closes_comma _), skipBlank_cons (c := ',') rfl,
    skipBlank_cons (c := '\"') rfl, ← h.key]
  cases scanMembers (fuel + 1) ('\"' :: rest) <;> rfl

theorem members_quoted (entry : String × Field) (entries : List (String × Field))
    (rest : List Char) :
    ∃ tail, [','].intercalate ((entry :: entries).map writeMember) ++ rest = '\"' :: tail := by
  cases entries with
  | nil => exact ⟨_, by rw [List.map_singleton, List.intercalate_singleton, writeMember_append]⟩
  | cons next entries => exact ⟨_, by rw [List.map_cons, List.map_cons,
      List.intercalate_cons_cons, List.append_assoc, List.append_assoc, writeMember_append]⟩

theorem scanMembers_written (h : List.Forall₂ EntryReads (entry :: entries) nodes) {fuel : ℕ}
    (hfuel : entries.length + 2 ≤ fuel) (rest : List Char) :
    scanMembers fuel ([','].intercalate ((entry :: entries).map writeMember) ++ '}' :: rest) =
      some (nodes, rest) := by
  induction entries generalizing entry nodes fuel with
  | nil =>
    obtain ⟨fuel, rfl⟩ := Nat.exists_eq_add_of_le' hfuel
    cases h with
    | cons hmember hnil =>
      cases hnil
      rw [List.map_singleton, List.intercalate_singleton]
      exact scanMembers_last hmember fuel rest
  | cons next entries ih =>
    obtain ⟨fuel, rfl⟩ := Nat.exists_eq_add_of_le' hfuel
    cases h with
    | cons hmember hmore =>
      have hlater : scanMembers (fuel + entries.length + 2)
          ([','].intercalate ((next :: entries).map writeMember) ++ '}' :: rest) = some (_, rest) :=
        ih hmore (by omega)
      obtain ⟨tail, htail⟩ := members_quoted next entries ('}' :: rest)
      rw [List.map_cons, List.map_cons, List.intercalate_cons_cons, ← List.map_cons,
        List.append_assoc, List.append_assoc, List.singleton_append, htail,
        show fuel + ((next :: entries).length + 2) = fuel + entries.length + 1 + 2 by simp; omega,
        scanMembers_comma hmember]
      rw [htail] at hlater
      rw [hlater, Option.map_some]

theorem mem_of_mem_intercalate {sep : List Char} {texts : List (List Char)} {c : Char}
    (h : c ∈ sep.intercalate texts) : c ∈ sep ∨ ∃ text ∈ texts, c ∈ text := by
  induction texts with
  | nil => exact absurd h (by simp [List.intercalate])
  | cons text texts ih =>
    cases texts with
    | nil =>
      rw [List.intercalate_singleton] at h
      exact .inr ⟨text, List.mem_singleton_self _, h⟩
    | cons next texts =>
      rw [List.intercalate_cons_cons, List.append_assoc] at h
      rcases List.mem_append.mp h with hfirst | hrest
      · exact .inr ⟨text, List.mem_cons_self .., hfirst⟩
      · rcases List.mem_append.mp hrest with hsep | hmore
        · exact .inl hsep
        · exact (ih hmore).imp_right fun ⟨other, hother, hc⟩ =>
            ⟨other, List.mem_cons_of_mem _ hother, hc⟩

/-- Punctuation of the writer. -/
def marks : List Char := ['\x7b', '\x7d', '\"', ',', ':']

theorem mem_writeObject {c : Char} (h : c ∈ writeObject entries) :
    c ∈ marks ∨ ∃ entry ∈ entries, c ∈ entry.1.toList ∨ c ∈ entry.2.write := by
  have hmember : ∀ entry ∈ entries, c ∈ writeMember entry →
      c ∈ marks ∨ ∃ entry ∈ entries, c ∈ entry.1.toList ∨ c ∈ entry.2.write := by
    intro entry hentry hc
    simp only [writeMember, List.cons_append, List.append_assoc, List.mem_cons, List.mem_append,
      List.nil_append] at hc
    rcases hc with rfl | hkey | rfl | rfl | hvalue
    · exact .inl (by decide)
    · exact .inr ⟨entry, hentry, .inl hkey⟩
    · exact .inl (by decide)
    · exact .inl (by decide)
    · exact .inr ⟨entry, hentry, .inr hvalue⟩
  rcases List.mem_append.mp h with hopen | hclose
  · rcases List.mem_cons.mp hopen with rfl | hjoined
    · exact .inl (by decide)
    · rcases mem_of_mem_intercalate hjoined with hsep | ⟨member, hwritten, hc⟩
      · rw [List.mem_singleton.mp hsep]
        exact .inl (by decide)
      · obtain ⟨entry, hentry, rfl⟩ := List.mem_map.mp hwritten
        exact hmember entry hentry hc
  · rw [List.mem_singleton.mp hclose]
    exact .inl (by decide)

/-- The texts of a field that are not numbers or words of the writer's own. -/
def Field.All (P : Char → Prop) : Field → Prop
  | .raw text | .literal text => ∀ c ∈ text, P c
  | .integer _ | .bool _ => True

theorem isAscii_of_mem_printInt {value : ℤ} {c : Char} (h : c ∈ printInt value) : IsAscii c := by
  rcases mem_printInt h with rfl | hdigit
  · decide
  · rw [Char.isDigit, Bool.and_eq_true, decide_eq_true_eq, decide_eq_true_eq] at hdigit
    exact ⟨le_trans (by decide) hdigit.1, lt_of_le_of_lt hdigit.2 (by decide)⟩

theorem Field.All.write {P : Char → Prop} (hascii : ∀ c, IsAscii c → P c) (h : field.All P)
    {c : Char} (hc : c ∈ field.write) : P c := by
  cases field with
  | raw text =>
    simp only [Field.write, List.cons_append, List.mem_cons, List.mem_append, List.not_mem_nil,
      or_false] at hc
    rcases hc with rfl | htext | rfl
    · exact hascii _ (by decide)
    · exact h c htext
    · exact hascii _ (by decide)
  | literal text => exact h c hc
  | integer value => exact hascii c (isAscii_of_mem_printInt hc)
  | bool value =>
    have hword : PlainKey (if value then "true".toList else "false".toList) := by
      cases value <;> decide
    exact hascii c (hword c hc).1

theorem forall_mem_writeObject {P : Char → Prop} (hascii : ∀ c, IsAscii c → P c)
    (hkeys : PlainKeys entries) (hfields : ∀ entry ∈ entries, entry.2.All P) {c : Char}
    (hc : c ∈ writeObject entries) : P c := by
  rcases mem_writeObject hc with hmark | ⟨entry, hentry, hkey | hvalue⟩
  · simp only [marks, List.mem_cons, List.not_mem_nil, or_false] at hmark
    apply hascii
    rcases hmark with rfl | rfl | rfl | rfl | rfl <;> decide
  · exact hascii c (hkeys entry hentry c hkey).1
  · exact (hfields entry hentry).write hascii hvalue

theorem length_le_intercalate (entries : List (String × Field)) :
    3 * entries.length ≤ ([','].intercalate (entries.map writeMember)).length := by
  have hmember : ∀ entry, 3 ≤ (writeMember entry).length := by
    intro entry
    simp only [writeMember, List.length_append, List.length_cons, List.length_nil]
    omega
  induction entries with
  | nil => exact Nat.zero_le _
  | cons entry entries ih =>
    have hfirst := hmember entry
    cases entries with
    | nil => simpa using hfirst
    | cons next entries =>
      rw [List.map_cons, List.map_cons, List.intercalate_cons_cons, ← List.map_cons,
        List.length_append, List.length_append, List.length_cons]
      omega

theorem loads_writeObject (h : List.Forall₂ EntryReads entries nodes) {blanks : List Char}
    (hblanks : skipBlank blanks = []) :
    loads (writeObject entries ++ blanks) = some (.object nodes) := by
  have hlength := length_le_intercalate entries
  have hscan : scanValue ((writeObject entries ++ blanks).length + 1)
      (writeObject entries ++ blanks) = some (.object nodes, blanks) := by
    cases entries with
    | nil =>
      cases h
      rfl
    | cons entry entries =>
      have hfuel : entries.length + 2 ≤ (writeObject (entry :: entries) ++ blanks).length := by
        simp only [writeObject, List.length_append, List.length_cons] at hlength ⊢
        omega
      have hmembers := scanMembers_written h hfuel blanks
      obtain ⟨tail, htail⟩ := members_quoted entry entries ('}' :: blanks)
      have hobject : writeObject (entry :: entries) ++ blanks = '{' :: '\"' :: tail := by
        rw [writeObject, List.append_assoc, List.singleton_append, List.cons_append, htail]
      rw [htail] at hmembers
      rw [hobject] at hmembers ⊢
      rw [scanValue, skipBlank_cons rfl]
      exact congrArg (Option.map _) hmembers
  have hstart : skipBlank (writeObject entries ++ blanks) = writeObject entries ++ blanks :=
    skipBlank_cons rfl _
  rw [loads, hstart, hscan]
  simp [hblanks]

theorem get_nodeOf (entries : List (String × Field)) (key : String) : (nodeOf entries).get key =
    (entries.reverse.find? fun entry => entry.1 = key).map fun entry => entry.2.node := by
  rw [nodeOf, Node.get, ← List.map_reverse, List.find?_map, Option.map_map]
  simp only [Function.comp_def, String.toList_inj]

/-- A text between quotes that needs no escapes, or a value. -/
def Field.Verbatim : Field → Prop
  | .raw text => Unescaped text
  | .literal _ => False
  | .integer _ | .bool _ => True

theorem Field.Verbatim.reads (h : field.Verbatim) : field.Reads field.node := by
  cases field with
  | raw text => exact .raw fun rest => scanString_unescaped h rest
  | literal text => exact h.elim
  | integer value => exact .integer value
  | bool value => exact .bool value

theorem loads_verbatim {blanks : List Char} (hkeys : PlainKeys entries)
    (hfields : ∀ entry ∈ entries, entry.2.Verbatim) (hblanks : skipBlank blanks = []) :
    loads (writeObject entries ++ blanks) = some (nodeOf entries) := by
  apply loads_writeObject (hkeys.reads ?_) hblanks
  apply List.forall₂_map_right_iff.mpr
  apply List.forall₂_same.mpr
  exact fun entry hentry => ⟨rfl, (hfields entry hentry).reads⟩

theorem scanMembers_unreadable {text : List Char} {before after : List (String × Field)}
    (hbefore : List.Forall₂ EntryReads before nodes) (hkey : Unescaped key.toList)
    (htext : ∀ rest, scanString (text ++ '\"' :: rest) = none) (fuel : ℕ) (rest : List Char) :
    scanMembers fuel ([','].intercalate ((before ++ (key, .raw text) :: after).map writeMember) ++
      rest) = none := by
  induction before generalizing nodes fuel with
  | nil =>
    obtain ⟨tail, htail⟩ : ∃ tail, [','].intercalate ((([] : List (String × Field)) ++
        (key, .raw text) :: after).map writeMember) ++ rest =
          writeMember (key, .raw text) ++ tail := by
      cases after with
      | nil => exact ⟨rest, by simp⟩
      | cons next after => exact ⟨',' :: ([','].intercalate ((next :: after).map writeMember) ++
          rest), by simp [List.intercalate_cons_cons]⟩
    rw [htail, writeMember_append]
    cases fuel with
    | zero => rfl
    | succ fuel =>
      rw [scanMembers, scanString_unescaped hkey]
      simp only [Option.bind_eq_bind, Option.bind_some, skipBlank_cons (c := ':') rfl, Field.write,
        List.cons_append, List.append_assoc, List.nil_append, skipBlank_cons (c := '\"') rfl]
      cases fuel with
      | zero => rfl
      | succ fuel => rw [scanValue, htext, Option.map_none, Option.bind_none]
  | cons entry before ih =>
    cases hbefore with
    | cons hentry hmore =>
      obtain ⟨next, entries, hnext⟩ : ∃ next entries,
          before ++ (key, .raw text) :: after = next :: entries := by
        cases before <;> exact ⟨_, _, rfl⟩
      have hlater := ih hmore
      obtain ⟨tail, htail⟩ := members_quoted next entries rest
      rw [List.cons_append, hnext, List.map_cons, List.map_cons, List.intercalate_cons_cons,
        ← List.map_cons, List.append_assoc, List.append_assoc, List.singleton_append, htail]
      rw [hnext, htail] at hlater
      match fuel with
      | 0 => rfl
      | 1 =>
        rw [writeMember_append, scanMembers, scanString_unescaped hentry.unescaped]
        simp only [Option.bind_eq_bind, Option.bind_some, skipBlank_cons (c := ':') rfl,
          hentry.value.skipBlank_write]
        rfl
      | fuel + 2 => rw [scanMembers_comma hentry, hlater, Option.map_none]

theorem loads_unreadable {text : List Char} {before after : List (String × Field)}
    (hbefore : List.Forall₂ EntryReads before nodes) (hkey : Unescaped key.toList)
    (htext : ∀ rest, scanString (text ++ '\"' :: rest) = none) (blanks : List Char) :
    loads (writeObject (before ++ (key, .raw text) :: after) ++ blanks) = none := by
  have hstart : skipBlank (writeObject (before ++ (key, .raw text) :: after) ++ blanks) =
      writeObject (before ++ (key, .raw text) :: after) ++ blanks := skipBlank_cons rfl _
  obtain ⟨next, entries, hnext⟩ : ∃ next entries,
      before ++ (key, .raw text) :: after = next :: entries := by
    cases before <;> exact ⟨_, _, rfl⟩
  have hmembers : scanMembers (writeObject (before ++ (key, .raw text) :: after) ++ blanks).length
      ([','].intercalate ((before ++ (key, .raw text) :: after).map writeMember) ++ '}' :: blanks) =
        none := scanMembers_unreadable hbefore hkey htext _ _
  obtain ⟨tail, htail⟩ := members_quoted next entries ('}' :: blanks)
  rw [hnext] at hmembers hstart ⊢
  have hobject : writeObject (next :: entries) ++ blanks = '{' :: '\"' :: tail := by
    rw [writeObject, List.append_assoc, List.singleton_append, List.cons_append, htail]
  rw [htail, hobject] at hmembers
  rw [loads, hstart, hobject, scanValue, skipBlank_cons rfl]
  show Option.bind (Option.map _ (scanMembers _ _)) _ = none
  rw [hmembers]
  rfl

end Objects
end Text
