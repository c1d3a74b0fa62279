import Mathlib.Data.List.Forall2
import Mathlib.Algebra.Order.Ring.Int
import Mathlib.Tactic.SplitIfs

/-! A loop over the cells of a vector that rewrites each cell in place and threads an
accumulator, with the rules that reduce a fact about the loop to one about its body, and what
rewriting one cell leaves as it was. -/

namespace Process

variable {σ τ α β : Type*}

/-- One pass of `body` over the cells, in order. -/
def sweep (body : σ → α → σ × α) : σ → List α → σ × List α
  | s, [] => (s, [])
  | s, a :: as =>
    let cell := body s a
    let rest := sweep body cell.1 as
    (rest.1, cell.2 :: rest.2)

section
variable (body : σ → α → σ × α)

@[simp] theorem sweep_nil (s : σ) : sweep body s [] = (s, []) := rfl

theorem sweep_cons (s : σ) (a : α) (as : List α) :
    sweep body s (a :: as) =
      ((sweep body (body s a).1 as).1, (body s a).2 :: (sweep body (body s a).1 as).2) := rfl

theorem sweep_map (f : α → α) (s : σ) (as : List α) :
    sweep (fun s a => (s, f a)) s as = (s, as.map f) := by
  induction as with
  | nil => rfl
  | cons a as ih => rw [sweep_cons, ih, List.map_cons]

theorem sweep_append (s : σ) (as bs : List α) :
    sweep body s (as ++ bs) =
      ((sweep body (sweep body s as).1 bs).1,
        (sweep body s as).2 ++ (sweep body (sweep body s as).1 bs).2) := by
  induction as generalizing s with
  | nil => rfl
  | cons a as ih => simp only [List.cons_append, sweep_cons, ih]

theorem sweep_take (s : σ) (as : List α) (k : ℕ) :
    (sweep body s (as.take k)).2 = (sweep body s as).2.take k := by
  induction as generalizing s k with
  | nil => simp
  | cons a as ih =>
    cases k with
    | zero => rfl
    | succ k => simp only [List.take_succ_cons, sweep_cons, ih]

theorem sweep_of_fixed {s : σ} {as : List α} (h : ∀ a ∈ as, body s a = (s, a)) :
    sweep body s as = (s, as) := by
  induction as with
  | nil => rfl
  | cons a as ih =>
    rw [sweep_cons, h a (List.mem_cons_self ..), ih fun b hb => h b (List.mem_cons_of_mem _ hb)]

/-- The accumulator as the pass meets cell `i`. -/
def sweepAt (s : σ) (as : List α) (i : ℕ) : σ := (sweep body s (as.take i)).1

theorem sweep_getElem? (s : σ) (as : List α) (i : ℕ) :
    (sweep body s as).2[i]? = as[i]?.map fun a => (body (sweepAt body s as i) a).2 := by
  induction as generalizing s i with
  | nil => simp
  | cons a as ih =>
    cases i with
    | zero => simp [sweep_cons, sweepAt]
    | succ i => simpa [sweep_cons, sweepAt] using ih (body s a).1 i

end

/-! What the accumulator is as the pass goes from cell to cell. -/

section Threaded
variable {body : σ → α → σ × α} {s : σ} {as : List α} {i j : ℕ} {a : α}

@[simp] theorem sweepAt_zero : sweepAt body s as 0 = s := by
  rw [sweepAt, List.take_zero, sweep_nil]

theorem sweepAt_succ (h : as[i]? = some a) :
    sweepAt body s as (i + 1) = (body (sweepAt body s as i) a).1 := by
  rw [sweepAt, List.take_add_one, h, sweep_append]
  rfl

theorem sweepAt_length : sweepAt body s as as.length = (sweep body s as).1 := by
  rw [sweepAt, List.take_length]

theorem sweepAt_const {γ : Type*} {f : σ → γ} (hij : i ≤ j)
    (hbody : ∀ s k b, i ≤ k → k < j → as[k]? = some b → f (body s b).1 = f s) :
    f (sweepAt body s as j) = f (sweepAt body s as i) := by
  induction j, hij using Nat.le_induction with
  | base => rfl
  | succ j hij ih =>
    rw [← ih fun s k b hik hkj => hbody s k b hik (Nat.lt_succ_of_lt hkj)]
    cases hj : as[j]? with
    | some b => rw [sweepAt_succ hj, hbody _ j b hij (Nat.lt_succ_self j) hj]
    | none => rw [sweepAt, sweepAt, List.take_add_one, hj, Option.toList_none, List.append_nil]

theorem sweep_measure {γ : Type*} {f : σ → γ} (hi : as[i]? = some a)
    (hother : ∀ s k b, as[k]? = some b → k ≠ i → f (body s b).1 = f s) :
    f (sweepAt body s as i) = f s ∧
      f (sweep body s as).1 = f (body (sweepAt body s as i) a).1 := by
  obtain ⟨hlt, _⟩ := List.getElem?_eq_some_iff.mp hi
  constructor
  · have hbefore := sweepAt_const (s := s) (Nat.zero_le i)
      fun s k b _ hk hb => hother s k b hb (Nat.ne_of_lt hk)
    rwa [sweepAt_zero] at hbefore
  · rw [← sweepAt_succ hi, ← sweepAt_length]
    exact sweepAt_const hlt fun s k b hk _ hb => hother s k b hb (Nat.ne_of_gt hk)

theorem sweepAt_anti {γ : Type*} [Preorder γ] {f : σ → γ} (hij : i ≤ j)
    (hbody : ∀ s, ∀ b ∈ as, f (body s b).1 ≤ f s) :
    f (sweepAt body s as j) ≤ f (sweepAt body s as i) := by
  induction j, hij using Nat.le_induction with
  | base => exact le_rfl
  | succ j hij ih =>
    refine le_trans ?_ ih
    cases hj : as[j]? with
    | some b =>
      rw [sweepAt_succ hj]
      exact hbody _ b (List.mem_of_getElem? hj)
    | none =>
      rw [sweepAt, sweepAt, List.take_add_one, hj, Option.toList_none, List.append_nil]

theorem sweepAt_invariant {I : σ → Prop} (hbody : ∀ s, ∀ b ∈ as, I s → I (body s b).1) (h : I s)
    (i : ℕ) : I (sweepAt body s as i) := by
  induction i with
  | zero => rwa [sweepAt_zero]
  | succ i ih =>
    cases hi : as[i]? with
    | some b =>
      rw [sweepAt_succ hi]
      exact hbody _ b (List.mem_of_getElem? hi) ih
    | none => rwa [sweepAt, List.take_add_one, hi, Option.toList_none, List.append_nil]

theorem forall_mem_sweep {P : α → Prop} (h : ∀ s, ∀ a ∈ as, P (body s a).2) :
    ∀ a ∈ (sweep body s as).2, P a := by
  intro b hb
  obtain ⟨i, hi⟩ := List.mem_iff_getElem?.mp hb
  rw [sweep_getElem?] at hi
  obtain ⟨a, ha, rfl⟩ := Option.map_eq_some_iff.mp hi
  exact h _ a (List.mem_of_getElem? ha)

/-- What each cell costs is paid out of a budget that the accumulator carries. -/
theorem sweep_cost {budget : σ → ℤ} {cost : α → α → ℤ}
    (hbody : ∀ s, ∀ a ∈ as, budget (body s a).1 + cost a (body s a).2 ≤ budget s) :
    budget (sweep body s as).1 + (List.zipWith cost as (sweep body s as).2).sum ≤ budget s := by
  induction as generalizing s with
  | nil => simp
  | cons a as ih =>
    have hcell := hbody s a (List.mem_cons_self ..)
    have hrest := ih (s := (body s a).1) fun s b hb => hbody s b (List.mem_cons_of_mem _ hb)
    simp only [sweep_cons, List.zipWith_cons_cons, List.sum_cons]
    omega

end Threaded

/-- Loop rule: a property of the accumulator and the whole vector that each rewrite of one
cell keeps is kept by the pass. -/
theorem sweep_invariant {body : σ → α → σ × α} {I : σ → List α → Prop}
    (hbody : ∀ s pre a post, I s (pre ++ a :: post) →
      I (body s a).1 (pre ++ (body s a).2 :: post))
    {s : σ} {as : List α} (h : I s as) : I (sweep body s as).1 (sweep body s as).2 := by
  suffices key : ∀ as pre s, I s (pre ++ as) →
      I (sweep body s as).1 (pre ++ (sweep body s as).2) from key as [] s h
  intro as
  induction as with
  | nil => intro pre s h; exact h
  | cons a as ih =>
    intro pre s h
    have hcell := hbody s pre a as h
    have hrest := ih (pre ++ [(body s a).2]) (body s a).1 (by simpa using hcell)
    simpa [sweep_cons] using hrest

theorem sweep_rel (body : σ → α → σ × α) (body' : τ → β → τ × β)
    {S : σ → τ → Prop} {R : α → β → Prop} {P : α → Prop}
    (hbody : ∀ s t a b, S s t → R a b → P a →
      S (body s a).1 (body' t b).1 ∧ R (body s a).2 (body' t b).2)
    {s : σ} {t : τ} {as : List α} {bs : List β} (hst : S s t) (hab : List.Forall₂ R as bs)
    (hP : ∀ a ∈ as, P a) :
    S (sweep body s as).1 (sweep body' t bs).1 ∧
      List.Forall₂ R (sweep body s as).2 (sweep body' t bs).2 := by
  induction hab generalizing s t with
  | nil => exact ⟨hst, .nil⟩
  | @cons a b as bs hR _ ih =>
    obtain ⟨h1, h2⟩ := hbody s t a b hst hR (hP a (by simp))
    obtain ⟨h3, h4⟩ := ih h1 fun c hc => hP c (List.mem_cons_of_mem _ hc)
    exact ⟨h3, .cons h2 h4⟩

theorem forall₂_set {R : α → β → Prop} {as : List α} {bs : List β} {a : α} {b : β}
    (h : List.Forall₂ R as bs) (hab : R a b) (i : ℕ) :
    List.Forall₂ R (as.set i a) (bs.set i b) := by
  induction h generalizing i with
  | nil => exact .nil
  | cons hR hrest ih =>
    cases i with
    | zero => exact .cons hab hrest
    | succ i => exact .cons hR (ih i)

section Cell
variable {pre post : List α} {a b c : α}

theorem mem_replace (h : c ∈ pre ++ b :: post) : c = b ∨ c ∈ pre ∨ c ∈ post := by
  rcases List.mem_append.mp h with hpre | hpost
  · exact .inr (.inl hpre)
  · exact (List.mem_cons.mp hpost).imp_right .inr

theorem forall_mem_replace {P : α → Prop} (h : ∀ c ∈ pre ++ a :: post, P c) (hb : P b) :
    ∀ c ∈ pre ++ b :: post, P c := by
  intro c hc
  rcases mem_replace hc with rfl | hpre | hpost
  · exact hb
  · exact h c (List.mem_append_left _ hpre)
  · exact h c (List.mem_append_right _ (List.mem_cons_of_mem _ hpost))

theorem getElem?_replace {i : ℕ} (h : i ≠ pre.length) :
    (pre ++ b :: post)[i]? = (pre ++ a :: post)[i]? := by
  rw [List.getElem?_append, List.getElem?_append]
  split_ifs with hi
  · rfl
  · obtain ⟨j, hj⟩ : ∃ j, i - pre.length = j + 1 := ⟨i - pre.length - 1, by omega⟩
    rw [hj, List.getElem?_cons_succ, List.getElem?_cons_succ]

theorem getElem?_cell (pre post : List α) (a : α) :
    (pre ++ a :: post)[pre.length]? = some a := by
  rw [List.getElem?_append_right (Nat.le_refl _), Nat.sub_self, List.getElem?_cons_zero]

end Cell

end Process
