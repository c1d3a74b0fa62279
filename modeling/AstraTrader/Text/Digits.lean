import Mathlib.Data.Int.Basic
import Mathlib.Data.List.Induction
import Mathlib.Tactic.SplitIfs

/-! Decimal numerals as texts: what a strict reader accepts is what a printer writes, up to
leading zeros. -/

namespace Text

/-- A reader of unsigned decimals that takes digits only, and all of the text. -/
def readNat (text : List Char) : Option ℕ :=
  if text ≠ [] ∧ text.all Char.isDigit = true then some (Nat.ofDigitChars 10 text 0) else none

/-- The same with an optional minus sign. -/
def readInt (text : List Char) : Option ℤ :=
  match text with
  | '-' :: digits => (readNat digits).map fun n : ℕ => -(n : ℤ)
  | digits => (readNat digits).map fun n : ℕ => (n : ℤ)

def printInt (value : ℤ) : List Char :=
  if value < 0 then '-' :: Nat.toDigits 10 value.natAbs else Nat.toDigits 10 value.natAbs

/-- A numeral of `n`, leading zeros allowed. -/
def Numeral (n : ℕ) (text : List Char) : Prop :=
  ∃ zeros, text = List.replicate zeros '0' ++ Nat.toDigits 10 n

theorem isDigit_of_mem_toDigits {n : ℕ} {c : Char} (h : c ∈ Nat.toDigits 10 n) :
    c.isDigit = true :=
  Nat.isDigit_of_mem_toDigits (by decide) (by decide) h

theorem Numeral.isDigit {n : ℕ} {text : List Char} (h : Numeral n text) {c : Char}
    (hc : c ∈ text) : c.isDigit = true := by
  obtain ⟨zeros, rfl⟩ := h
  rcases List.mem_append.mp hc with hc | hc
  · rw [List.eq_of_mem_replicate hc]
    rfl
  · exact isDigit_of_mem_toDigits hc

theorem Numeral.readNat_eq {n : ℕ} {text : List Char} (h : Numeral n text) :
    readNat text = some n := by
  have hdigits : text.all Char.isDigit = true := List.all_eq_true.mpr fun c hc => h.isDigit hc
  obtain ⟨zeros, rfl⟩ := h
  have hne : List.replicate zeros '0' ++ Nat.toDigits 10 n ≠ [] := fun hnil =>
    Nat.toDigits_ne_nil (List.append_eq_nil_iff.mp hnil).2
  rw [readNat, if_pos ⟨hne, hdigits⟩, Nat.ofDigitChars_append, Nat.ofDigitChars_replicate_zero,
    Nat.mul_zero, Nat.ofDigitChars_ten_toDigits]

theorem numeral_toDigits (n : ℕ) : Numeral n (Nat.toDigits 10 n) := ⟨0, rfl⟩

theorem readNat_toDigits (n : ℕ) : readNat (Nat.toDigits 10 n) = some n :=
  (numeral_toDigits n).readNat_eq

theorem eq_digitChar_of_isDigit {c : Char} (h : c.isDigit = true) :
    c.toNat - 48 < 10 ∧ c = (c.toNat - 48).digitChar := by
  rw [Char.isDigit_iff_toNat] at h
  have hlo : 48 ≤ c.toNat := h.1
  have hhi : c.toNat ≤ 57 := h.2
  have hlt : c.toNat - 48 < 10 := by omega
  refine ⟨hlt, ?_⟩
  rw [← Char.toNat_inj, Nat.toNat_digitChar_of_lt_ten hlt]
  omega

/-- Digits are a numeral of their value; the induction peels the last one. -/
theorem numeral_of_digits {text : List Char} (hne : text ≠ [])
    (hdigits : ∀ c ∈ text, c.isDigit = true) : Numeral (Nat.ofDigitChars 10 text 0) text := by
  induction text using List.reverseRecOn with
  | nil => exact absurd rfl hne
  | append_singleton text c ih =>
    obtain ⟨hlt, hc⟩ := eq_digitChar_of_isDigit (hdigits c (by simp))
    have hvalue : Nat.ofDigitChars 10 (text ++ [c]) 0 =
        10 * Nat.ofDigitChars 10 text 0 + (c.toNat - 48) := by
      rw [Nat.ofDigitChars_append, Nat.ofDigitChars_cons, Nat.ofDigitChars_nil]
      rfl
    rw [hvalue]
    rcases List.eq_nil_or_concat text with rfl | ⟨_, _, hconcat⟩
    · refine ⟨0, ?_⟩
      rw [Nat.ofDigitChars_nil, Nat.mul_zero, Nat.zero_add, Nat.toDigits_of_lt_base hlt, ← hc]
      rfl
    · obtain ⟨zeros, hzeros⟩ := ih (by simp [hconcat]) fun d hd => hdigits d (by simp [hd])
      rcases Nat.eq_zero_or_pos (Nat.ofDigitChars 10 text 0) with hzero | hpos
      -- nothing but zeros so far
      · rw [hzero, Nat.toDigits_zero] at hzeros
        refine ⟨zeros + 1, ?_⟩
        rw [hzero, Nat.mul_zero, Nat.zero_add, Nat.toDigits_of_lt_base hlt, ← hc,
          List.replicate_succ', ← hzeros]
      · refine ⟨zeros, ?_⟩
        rw [← Nat.toDigits_append_toDigits (by decide) hpos hlt, Nat.toDigits_of_lt_base hlt, ← hc,
          ← List.append_assoc, ← hzeros]

theorem readNat_eq_some_iff {text : List Char} {n : ℕ} :
    readNat text = some n ↔ Numeral n text := by
  refine ⟨fun h => ?_, Numeral.readNat_eq⟩
  unfold readNat at h
  split_ifs at h with hdigits
  obtain rfl := Option.some.inj h
  exact numeral_of_digits hdigits.1 (List.all_eq_true.mp hdigits.2)

theorem readInt_printInt (value : ℤ) : readInt (printInt value) = some value := by
  unfold printInt
  split_ifs with hneg
  · simp only [readInt, readNat_toDigits, Option.map_some]
    congr 1
    omega
  · have hdigits : readInt (Nat.toDigits 10 value.natAbs) =
        (readNat (Nat.toDigits 10 value.natAbs)).map fun n : ℕ => (n : ℤ) := by
      unfold readInt
      split
      · rename_i digits hminus
        have hdigit := @isDigit_of_mem_toDigits value.natAbs '-' (by simp [hminus])
        exact absurd hdigit (by decide)
      · rfl
    rw [hdigits, readNat_toDigits, Option.map_some]
    congr 1
    omega

theorem mem_printInt {value : ℤ} {c : Char} (h : c ∈ printInt value) :
    c = '-' ∨ c.isDigit = true := by
  unfold printInt at h
  split_ifs at h
  · exact (List.mem_cons.mp h).imp_right isDigit_of_mem_toDigits
  · exact .inr (isDigit_of_mem_toDigits h)

end Text
