import Mathlib.Data.List.Basic
import Mathlib.Logic.Relation
import Mathlib.Order.Basic

/-! Runs of a deterministic machine: a step function folded over a list of inputs,
with the rules that lift a fact about one step to every run. -/

namespace Process

variable {σ τ α : Type*}

/-- Every step of the run from `s` meets `P` in the state it starts from. -/
def AllSteps (step : σ → α → σ) (P : σ → α → Prop) : σ → List α → Prop
  | _, [] => True
  | s, a :: as => P s a ∧ AllSteps step P (step s a) as

instance (step : σ → α → σ) (P : σ → α → Prop) [∀ s a, Decidable (P s a)] (s : σ) :
    (as : List α) → Decidable (AllSteps step P s as)
  | [] => .isTrue trivial
  | a :: as =>
    haveI := instDecidableAllSteps step P (step s a) as
    inferInstanceAs (Decidable (P s a ∧ AllSteps step P (step s a) as))

section Rules
variable {step : σ → α → σ} {P : σ → α → Prop}

theorem AllSteps.append {s : σ} {as bs : List α} :
    AllSteps step P s (as ++ bs) ↔
      AllSteps step P s as ∧ AllSteps step P (as.foldl step s) bs := by
  induction as generalizing s with
  | nil => simp [AllSteps]
  | cons a as ih => simp only [List.cons_append, AllSteps, List.foldl_cons, ih, and_assoc]

theorem AllSteps.of_forall (h : ∀ s a, P s a) (s : σ) (as : List α) : AllSteps step P s as := by
  induction as generalizing s with
  | nil => trivial
  | cons a as ih => exact ⟨h s a, ih _⟩

theorem AllSteps.of_mem {Q : α → Prop} (s : σ) {as : List α} (h : ∀ a ∈ as, Q a) :
    AllSteps step (fun _ a => Q a) s as := by
  induction as generalizing s with
  | nil => trivial
  | cons a as ih =>
    exact ⟨h a (List.mem_cons_self ..), ih _ fun b hb => h b (List.mem_cons_of_mem _ hb)⟩

theorem AllSteps.imp {Q : σ → α → Prop} (h : ∀ s a, P s a → Q s a) {s : σ} {as : List α}
    (hall : AllSteps step P s as) : AllSteps step Q s as := by
  induction as generalizing s with
  | nil => trivial
  | cons a as ih => exact ⟨h s a hall.1, ih hall.2⟩

theorem AllSteps.and {Q : σ → α → Prop} {s : σ} {as : List α} (hP : AllSteps step P s as)
    (hQ : AllSteps step Q s as) : AllSteps step (fun s a => P s a ∧ Q s a) s as := by
  induction as generalizing s with
  | nil => trivial
  | cons a as ih => exact ⟨⟨hP.1, hQ.1⟩, ih hP.2 hQ.2⟩

theorem AllSteps.of_split {s : σ} {as : List α}
    (h : ∀ before a after, as = before ++ a :: after → P (before.foldl step s) a) :
    AllSteps step P s as := by
  induction as generalizing s with
  | nil => trivial
  | cons a as ih =>
    refine ⟨h [] a as rfl, ih fun before b after he => ?_⟩
    exact h (a :: before) b after (by rw [he, List.cons_append])

/-- An invariant that holds at the start and survives the steps taken holds at the end. -/
theorem run_invariant {I : σ → Prop} (hstep : ∀ s a, I s → P s a → I (step s a))
    {s : σ} {as : List α} (hs : I s) (hall : AllSteps step P s as) : I (as.foldl step s) := by
  induction as generalizing s with
  | nil => exact hs
  | cons a as ih => exact ih (hstep s a hs hall.1) hall.2

theorem run_invariant_of_forall {I : σ → Prop} (hstep : ∀ s a, I s → I (step s a))
    {s : σ} (hs : I s) (as : List α) : I (as.foldl step s) :=
  run_invariant (P := fun _ _ => True) (fun s a h _ => hstep s a h) hs
    (AllSteps.of_forall (fun _ _ => trivial) s as)

end Rules

theorem chain_invariant {r : σ → σ → Prop} {I : σ → Prop} (hstep : ∀ {s t}, I s → r s t → I t)
    {s t : σ} (hs : I s) (h : Relation.ReflTransGen r s t) : I t := by
  induction h with
  | refl => exact hs
  | tail _ hr ih => exact hstep ih hr

section Simulation
variable {step : σ → α → σ} {step' : τ → α → τ} (R : σ → τ → Prop)

/-- Two machines fed the same inputs stay related. -/
theorem run_simulation {P : σ → α → Prop}
    (hstep : ∀ s t a, R s t → P s a → R (step s a) (step' t a))
    {s : σ} {t : τ} {as : List α} (hst : R s t) (hall : AllSteps step P s as) :
    R (as.foldl step s) (as.foldl step' t) := by
  induction as generalizing s t with
  | nil => exact hst
  | cons a as ih => exact ih (hstep s t a hst hall.1) hall.2

theorem run_simulation_of_forall (hstep : ∀ s t a, R s t → R (step s a) (step' t a))
    {s : σ} {t : τ} (hst : R s t) (as : List α) : R (as.foldl step s) (as.foldl step' t) :=
  run_simulation R (P := fun _ _ => True) (fun s t a h _ => hstep s t a h) hst
    (AllSteps.of_forall (fun _ _ => trivial) s as)

end Simulation

section Observer
variable {step : σ → α → σ} {step' : τ → α → τ} {f : τ → σ}

/-- A machine that carries `f` along with observations of its own runs through the same states. -/
theorem foldl_observed (hf : ∀ t a, f (step' t a) = step (f t) a) (t : τ) (as : List α) :
    f (as.foldl step' t) = as.foldl step (f t) := by
  induction as generalizing t with
  | nil => rfl
  | cons a as ih => rw [List.foldl_cons, List.foldl_cons, ih, hf]

theorem AllSteps.observed {P : σ → α → Prop} (hf : ∀ t a, f (step' t a) = step (f t) a) {t : τ}
    {as : List α} (h : AllSteps step P (f t) as) : AllSteps step' (fun t a => P (f t) a) t as := by
  induction as generalizing t with
  | nil => trivial
  | cons a as ih => exact ⟨h.1, ih (hf t a ▸ h.2)⟩

end Observer

end Process
