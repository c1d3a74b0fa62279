import Mathlib.Data.Char
import Mathlib.Data.List.Lex
import Mathlib.Tactic.IntervalCases

/-! Numerals of a fixed width. Among texts of one layout the lexicographic order is that of the
numbers. -/

namespace Text

/-- The last `width` digits of `n`. -/
def padded : ℕ → ℕ → List Char
  | 0, _ => []
  | width + 1, n => padded width (n / 10) ++ [(n % 10).digitChar]

@[simp]
theorem length_padded (width n : ℕ) : (padded width n).length = width := by
  induction width generalizing n with
  | zero => rfl
  | succ width ih => rw [padded, List.length_append, ih, List.length_singleton]

theorem isDigit_of_mem_padded {width n : ℕ} {c : Char} (h : c ∈ padded width n) :
    c.isDigit = true := by
  induction width generalizing n with
  | zero => simp [padded] at h
  | succ width ih =>
    rcases List.mem_append.mp h with h | h
    · exact ih h
    · rw [List.mem_singleton.mp h]
      rw [Nat.isDigit_digitChar, decide_eq_true_eq]
      exact Nat.mod_lt n (by decide)

section Order
variable {α : Type*} [LinearOrder α] {as bs xs ys : List α}

theorem append_lt_append_left (h : xs < ys) : as ++ xs < as ++ ys :=
  List.Lex.append_left _ h as

theorem append_lt_append_of_lt (h : as < bs) (hlength : as.length = bs.length) :
    as ++ xs < bs ++ ys := by
  induction h with
  | nil => cases hlength
  | rel h => exact List.Lex.rel h
  | cons _ ih => exact List.Lex.cons (ih (Nat.succ.inj hlength))

end Order

theorem digitChar_lt {n m : ℕ} (h : n < m) (hm : m < 10) : n.digitChar < m.digitChar := by
  interval_cases m <;> interval_cases n <;> decide

/-- The induction takes the last digit off both. -/
theorem padded_lt {width n m : ℕ} (h : n < m) (hm : m < 10 ^ width) :
    padded width n < padded width m := by
  induction width generalizing n m with
  | zero => omega
  | succ width ih =>
    rw [padded, padded]
    have hlength : (padded width (n / 10)).length = (padded width (m / 10)).length := by simp
    rcases (Nat.div_le_div_right h.le : n / 10 ≤ m / 10).lt_or_eq with hlt | heq
    · have hlead : m / 10 < 10 ^ width := Nat.div_lt_of_lt_mul (by rwa [← Nat.pow_succ'])
      exact append_lt_append_of_lt (ih hlt hlead) hlength
    · rw [heq]
      refine append_lt_append_left (List.Lex.rel (digitChar_lt ?_ (Nat.mod_lt m (by decide))))
      omega

end Text
