import Mathlib.Algebra.Order.Floor.Ring
import Mathlib.Data.Rat.Floor
import Mathlib.Tactic.Linarith

/-! A lot bought at a total cost and sold in parts. Each part takes its share of the cost, rounded
down; what the rounding leaves behind is carried by the units that are left. -/

/-- A number of units at a total cost. -/
@[ext] structure Lot where
  cost : ℤ
  size : ℤ
  cost_nonneg : 0 ≤ cost
  size_pos : 0 < size

namespace Lot
variable {lot last : Lot} {quantity : ℤ} {count : ℕ}

theorem size_cast_pos (lot : Lot) : (0 : ℚ) < lot.size := Int.cast_pos.mpr lot.size_pos

def unitCost (lot : Lot) : ℚ := lot.cost / lot.size

theorem unitCost_mul_size (lot : Lot) : lot.unitCost * lot.size = lot.cost :=
  div_mul_cancel₀ _ lot.size_cast_pos.ne'

/-- What a quantity costs at the unit cost, rounded down. -/
def costOf (lot : Lot) (quantity : ℤ) : ℤ := lot.cost * quantity / lot.size

theorem floor_div_eq (a : ℤ) {b : ℤ} (hb : 0 ≤ b) : ⌊(a : ℚ) / b⌋ = a / b := by
  rw [Int.floor_div_cast_of_nonneg hb, Int.floor_intCast]

theorem costOf_eq_floor (lot : Lot) (quantity : ℤ) :
    lot.costOf quantity = ⌊lot.unitCost * quantity⌋ := by
  rw [costOf, ← floor_div_eq _ lot.size_pos.le, unitCost, Int.cast_mul, div_mul_eq_mul_div]

theorem costOf_le (h : quantity ≤ lot.size) : lot.costOf quantity ≤ lot.cost := by
  apply Int.ediv_le_of_le_mul lot.size_pos
  exact mul_le_mul_of_nonneg_left h lot.cost_nonneg

def sell (lot : Lot) (quantity : ℤ) (h : quantity < lot.size) : Lot where
  cost := lot.cost - lot.costOf quantity
  size := lot.size - quantity
  cost_nonneg := sub_nonneg.mpr (costOf_le h.le)
  size_pos := sub_pos.mpr h

@[simp] theorem sell_cost (h : quantity < lot.size) :
    (lot.sell quantity h).cost = lot.cost - lot.costOf quantity := rfl

@[simp] theorem sell_size (h : quantity < lot.size) :
    (lot.sell quantity h).size = lot.size - quantity := rfl

theorem sell_zero (lot : Lot) : lot.sell 0 lot.size_pos = lot := by
  apply Lot.ext
  · simp [costOf]
  · exact sub_zero _

theorem sell_unitCost_eq (h : quantity < lot.size) : (lot.sell quantity h).unitCost =
    lot.unitCost + Int.fract (lot.unitCost * quantity) / (lot.sell quantity h).size := by
  have hpos := (lot.sell quantity h).size_cast_pos
  rw [unitCost, div_eq_iff hpos.ne', add_mul, div_mul_cancel₀ _ hpos.ne', Int.fract,
    ← costOf_eq_floor]
  simp only [sell_cost, sell_size, Int.cast_sub, mul_sub, unitCost_mul_size]
  ring

theorem unitCost_le_sell (h : quantity < lot.size) :
    lot.unitCost ≤ (lot.sell quantity h).unitCost := by
  rw [sell_unitCost_eq]
  exact le_add_of_nonneg_right
    (div_nonneg (Int.fract_nonneg _) (lot.sell quantity h).size_cast_pos.le)

theorem sell_unitCost_le (h : quantity < lot.size) :
    (lot.sell quantity h).unitCost ≤ lot.unitCost + 1 / (lot.sell quantity h).size := by
  rw [sell_unitCost_eq, add_le_add_iff_left]
  exact div_le_div_of_nonneg_right (Int.fract_lt_one _).le
    (lot.sell quantity h).size_cast_pos.le

theorem costOf_add_between {more : ℤ} (hmore : 0 ≤ more) (h : quantity < lot.size)
    (hsum : quantity + more ≤ lot.size) :
    lot.costOf quantity + (lot.sell quantity h).costOf more ≤ lot.costOf (quantity + more) ∧
      lot.costOf (quantity + more) ≤
        lot.costOf quantity + (lot.sell quantity h).costOf more + 1 := by
  have hpos := (lot.sell quantity h).size_cast_pos
  have hfract := Int.fract_nonneg (lot.unitCost * quantity)
  have hfract' := Int.fract_lt_one (lot.unitCost * quantity)
  have hpart : (0 : ℚ) ≤ more / (lot.sell quantity h).size :=
    div_nonneg (Int.cast_nonneg hmore) hpos.le
  have hpart' : (more : ℚ) / (lot.sell quantity h).size ≤ 1 := by
    rw [div_le_one hpos, Int.cast_le]
    exact le_sub_iff_add_le'.mpr hsum
  -- the second part takes its part of the fraction that the first left
  have hsecond : (lot.sell quantity h).unitCost * more = lot.unitCost * more +
      Int.fract (lot.unitCost * quantity) * (more / (lot.sell quantity h).size) := by
    rw [sell_unitCost_eq]
    ring
  have hfirst := Int.self_sub_floor (lot.unitCost * quantity)
  have hwhole : lot.unitCost * (quantity + more : ℤ) =
      lot.unitCost * quantity + lot.unitCost * more := by
    rw [Int.cast_add, mul_add]
  rw [← costOf_eq_floor] at hfirst
  constructor
  · have hle := Int.floor_le ((lot.sell quantity h).unitCost * more)
    rw [← costOf_eq_floor] at hle
    rw [costOf_eq_floor lot (quantity + more), Int.le_floor, Int.cast_add, hwhole]
    linarith [mul_le_of_le_one_right hfract hpart']
  · have hlt := Int.lt_floor_add_one ((lot.sell quantity h).unitCost * more)
    rw [← costOf_eq_floor] at hlt
    rw [costOf_eq_floor lot (quantity + more), ← Int.lt_add_one_iff, Int.floor_lt, hwhole]
    push_cast
    linarith [mul_nonneg hfract hpart]

/-- What is left of a lot after a number of sales. -/
inductive Sold : ℕ → Lot → Lot → Prop
  | none (lot : Lot) : Sold 0 lot lot
  | sale {count : ℕ} {lot last : Lot} {quantity : ℤ} (h0 : 0 ≤ quantity)
    (h : quantity < lot.size) (hrest : Sold count (lot.sell quantity h) last) :
    Sold (count + 1) lot last

theorem Sold.one (h0 : 0 ≤ quantity) (h : quantity < lot.size) :
    Sold 1 lot (lot.sell quantity h) := .sale h0 h (.none _)

theorem Sold.trans {more : ℕ} {next : Lot} (h : Sold count lot next) (hmore : Sold more next last) :
    Sold (count + more) lot last := by
  induction h with
  | none lot => rwa [zero_add]
  | sale h0 h _ ih =>
    rw [Nat.add_right_comm]
    exact .sale h0 h (ih hmore)

theorem Sold.size_le (h : Sold count lot last) : last.size ≤ lot.size := by
  induction h with
  | none lot => exact le_rfl
  | sale h0 h _ ih => exact ih.trans (sub_le_self _ h0)

theorem Sold.unitCost_le (h : Sold count lot last) : lot.unitCost ≤ last.unitCost := by
  induction h with
  | none lot => exact le_rfl
  | sale h0 h _ ih => exact (unitCost_le_sell h).trans ih

/-- Each sale leaves less than one unit of cost, over no fewer units than there are at last. -/
theorem Sold.unitCost_le_add (h : Sold count lot last) :
    last.unitCost ≤ lot.unitCost + count / last.size := by
  induction h with
  | none lot => simp
  | @sale count lot last quantity h0 h hrest ih =>
    have hsize : 1 / ((lot.sell quantity h).size : ℚ) ≤ 1 / last.size := by
      apply one_div_le_one_div_of_le last.size_cast_pos
      exact_mod_cast hrest.size_le
    have hsale := sell_unitCost_le h
    rw [Nat.cast_add, Nat.cast_one, add_div]
    linarith

/-! The same for the rounded cost of a fixed quantity. -/

theorem Sold.costOf_le (hq : 0 ≤ quantity) (h : Sold count lot last) :
    lot.costOf quantity ≤ last.costOf quantity := by
  rw [costOf_eq_floor, costOf_eq_floor]
  apply Int.floor_le_floor
  exact mul_le_mul_of_nonneg_right h.unitCost_le (Int.cast_nonneg hq)

theorem Sold.costOf_le_add (hq : 0 ≤ quantity) (h : Sold count lot last) :
    last.costOf quantity ≤ lot.costOf quantity + 1 + count * quantity / last.size := by
  have hunit : last.unitCost * quantity ≤
      lot.unitCost * quantity + ((count * quantity : ℤ) : ℚ) / last.size := by
    have := mul_le_mul_of_nonneg_right h.unitCost_le_add (Int.cast_nonneg (R := ℚ) hq)
    rwa [add_mul, div_mul_eq_mul_div, ← Int.cast_natCast, ← Int.cast_mul] at this
  have hsum := Int.le_floor_add_floor (lot.unitCost * quantity)
    (((count * quantity : ℤ) : ℚ) / last.size)
  rw [floor_div_eq _ last.size_pos.le, ← costOf_eq_floor] at hsum
  have hfloor := Int.floor_le_floor hunit
  rw [← costOf_eq_floor] at hfloor
  omega

end Lot
