import AstraTrader.Text.Digits
import Mathlib.Algebra.Order.Ring.Abs
import Mathlib.Algebra.Order.Ring.Int
import Mathlib.Tactic.FieldSimp
import Mathlib.Tactic.Ring

/-! Signed decimals with an optional fraction: their parts, where they stand in a text, and what
they denote. -/

namespace Text

structure DecimalParts where
  negative : Bool
  whole : List Char
  fraction : List Char
  deriving DecidableEq

def stripSign : List Char → Bool × List Char
  | '-' :: rest => (true, rest)
  | '+' :: rest => (false, rest)
  | text => (false, text)

/-- What stands before the first point, and what after it. -/
def splitPoint (text : List Char) : List Char × List Char :=
  (text.takeWhile (· != '.'), (text.dropWhile (· != '.')).tail)

namespace DecimalParts

def of (text : List Char) : DecimalParts where
  negative := (stripSign text).1
  whole := (splitPoint (stripSign text).2).1
  fraction := (splitPoint (stripSign text).2).2

/-- The text of a decimal: a sign or none, a digit or more, and a point with further digits or
none. -/
structure Written (parts : DecimalParts) (text : List Char) : Prop where
  text : ∃ sign tail, text = sign ++ parts.whole ++ tail ∧
    (parts.negative = true ∧ sign = ['-'] ∨ parts.negative = false ∧ (sign = [] ∨ sign = ['+'])) ∧
    (tail = [] ∧ parts.fraction = [] ∨ tail = '.' :: parts.fraction)
  whole_ne_nil : parts.whole ≠ []
  whole_digits : ∀ c ∈ parts.whole, c.isDigit = true
  fraction_digits : ∀ c ∈ parts.fraction, c.isDigit = true

def wholeValue (parts : DecimalParts) : ℕ := Nat.ofDigitChars 10 parts.whole 0

def fractionValue (parts : DecimalParts) : ℕ := Nat.ofDigitChars 10 parts.fraction 0

def sign (parts : DecimalParts) : ℤ := if parts.negative then -1 else 1

def value (parts : DecimalParts) : ℚ :=
  parts.sign * (parts.wholeValue + parts.fractionValue / 10 ^ parts.fraction.length)

/-- The same in units of `10 ^ -scale`. -/
def units (parts : DecimalParts) (scale : ℕ) : ℤ :=
  parts.sign * (parts.wholeValue * 10 ^ scale +
    parts.fractionValue * 10 ^ (scale - parts.fraction.length) : ℕ)

section Reading
variable {parts : DecimalParts} {text : List Char} {scale : ℕ}

theorem ne_point_of_isDigit {c : Char} (h : c.isDigit = true) : (c != '.') = true := by
  rw [bne_iff_ne]
  rintro rfl
  exact absurd h (by decide)

theorem splitPoint_of_digits {whole tail fraction : List Char}
    (hwhole : ∀ c ∈ whole, c.isDigit = true)
    (htail : tail = [] ∧ fraction = [] ∨ tail = '.' :: fraction) :
    splitPoint (whole ++ tail) = (whole, fraction) := by
  have hkept : ∀ c ∈ whole, (c != '.') = true := fun c hc => ne_point_of_isDigit (hwhole c hc)
  unfold splitPoint
  rw [List.takeWhile_append_of_pos hkept, List.dropWhile_append_of_pos hkept]
  rcases htail with ⟨rfl, rfl⟩ | rfl
  · simp
  · simp

theorem stripSign_of_digits {whole tail : List Char} (hne : whole ≠ [])
    (hwhole : ∀ c ∈ whole, c.isDigit = true) :
    stripSign (whole ++ tail) = (false, whole ++ tail) := by
  obtain ⟨c, rest, rfl⟩ := List.exists_cons_of_ne_nil hne
  have hc := hwhole c (List.mem_cons_self ..)
  rw [List.cons_append]
  unfold stripSign
  split
  · rename_i heq
    obtain rfl := (List.cons.inj heq).1
    exact absurd hc (by decide)
  · rename_i heq
    obtain rfl := (List.cons.inj heq).1
    exact absurd hc (by decide)
  · rfl

theorem Written.eq_of (h : parts.Written text) : parts = of text := by
  obtain ⟨⟨sign, tail, htext, hsign, htail⟩, hne, hwhole, _⟩ := h
  have hsplit := splitPoint_of_digits hwhole htail
  have hstrip : stripSign text = (parts.negative, parts.whole ++ tail) := by
    rw [htext, List.append_assoc]
    rcases hsign with ⟨hnegative, rfl⟩ | ⟨hpositive, rfl | rfl⟩
    · rw [hnegative]
      rfl
    · rw [hpositive, List.nil_append, stripSign_of_digits hne hwhole]
    · rw [hpositive]
      rfl
  unfold of
  rw [hstrip, hsplit]

theorem stripSign_eq (text : List Char) : ∃ sign, text = sign ++ (stripSign text).2 ∧
    ((stripSign text).1 = true ∧ sign = ['-'] ∨
      (stripSign text).1 = false ∧ (sign = [] ∨ sign = ['+'])) := by
  unfold stripSign
  split
  · exact ⟨['-'], rfl, .inl ⟨rfl, rfl⟩⟩
  · exact ⟨['+'], rfl, .inr ⟨rfl, .inr rfl⟩⟩
  · exact ⟨[], rfl, .inr ⟨rfl, .inl rfl⟩⟩

theorem splitPoint_eq (text : List Char) : ∃ tail, text = (splitPoint text).1 ++ tail ∧
    (tail = [] ∧ (splitPoint text).2 = [] ∨ tail = '.' :: (splitPoint text).2) := by
  refine ⟨text.dropWhile (· != '.'), List.takeWhile_append_dropWhile.symm, ?_⟩
  unfold splitPoint
  cases hrest : text.dropWhile (· != '.') with
  | nil => exact .inl ⟨rfl, rfl⟩
  | cons c rest =>
    have hpoint := List.head?_dropWhile_not (· != '.') text
    rw [hrest] at hpoint
    simp at hpoint
    exact .inr (by rw [hpoint]; rfl)

theorem written_of (hne : (of text).whole ≠ []) (hwhole : ∀ c ∈ (of text).whole, c.isDigit = true)
    (hfraction : ∀ c ∈ (of text).fraction, c.isDigit = true) : (of text).Written text := by
  obtain ⟨sign, htext, hsign⟩ := stripSign_eq text
  obtain ⟨tail, hrest, htail⟩ := splitPoint_eq (stripSign text).2
  refine ⟨⟨sign, tail, ?_, hsign, htail⟩, hne, hwhole, hfraction⟩
  rw [List.append_assoc]
  exact htext.trans (congrArg (sign ++ ·) hrest)

end Reading

section Values
variable {parts : DecimalParts} {text : List Char} {scale : ℕ}

theorem units_eq (h : parts.fraction.length ≤ scale) :
    (parts.units scale : ℚ) = parts.value * 10 ^ scale := by
  obtain ⟨gap, rfl⟩ := Nat.exists_eq_add_of_le h
  unfold units value
  rw [Nat.add_sub_cancel_left, pow_add]
  push_cast
  field_simp
  ring

theorem wholeValue_le (scale : ℕ) : (parts.wholeValue : ℤ) ≤ |parts.units scale| := by
  have hsign : |parts.sign| = 1 := by
    unfold sign
    split_ifs <;> rfl
  have hle : parts.wholeValue * 1 ≤ parts.wholeValue * 10 ^ scale :=
    Nat.mul_le_mul_left _ (Nat.one_le_pow _ _ (by decide))
  rw [units, abs_mul, hsign, one_mul, Nat.abs_cast]
  exact_mod_cast (Nat.mul_one _ ▸ hle).trans (Nat.le_add_right _ _)

theorem ofDigitChars_lt {digits : List Char} (h : ∀ c ∈ digits, c.isDigit = true) :
    Nat.ofDigitChars 10 digits 0 < 10 ^ digits.length := by
  induction digits using List.reverseRecOn with
  | nil => simp
  | append_singleton digits c ih =>
    obtain ⟨hlt, _⟩ := eq_digitChar_of_isDigit (h c (by simp))
    have hrest := ih fun d hd => h d (by simp [hd])
    have hzero : '0'.toNat = 48 := rfl
    rw [Nat.ofDigitChars_append, Nat.ofDigitChars_cons, Nat.ofDigitChars_nil, hzero,
      List.length_append, List.length_singleton, pow_succ]
    omega

end Values

end DecimalParts
end Text
