import Mathlib.Data.List.Basic

/-! Runs of a labelled transition system: any interleaving of the steps it allows, with the
labels of the steps taken so far. -/

namespace Process

variable {σ ε : Type*}

/-- The labels `events` lead from `init` to a state. -/
inductive Trace (step : σ → ε → σ → Prop) (init : σ) : List ε → σ → Prop
  | nil : Trace step init [] init
  | snoc {events : List ε} {s t : σ} {e : ε} : Trace step init events s → step s e t →
      Trace step init (events ++ [e]) t

section Rules
variable {step : σ → ε → σ → Prop} {init : σ} {events : List ε} {s : σ}

theorem Trace.invariant {I : List ε → σ → Prop} (h : Trace step init events s) (hinit : I [] init)
    (hstep : ∀ {events s e t}, I events s → step s e t → I (events ++ [e]) t) : I events s := by
  induction h with
  | nil => exact hinit
  | snoc _ hs ih => exact hstep ih hs

theorem Trace.step_of_split {before after : List ε} {e : ε}
    (h : Trace step init (before ++ e :: after) s) :
    ∃ t u, Trace step init before t ∧ step t e u := by
  generalize hevents : before ++ e :: after = events at h
  induction h generalizing after with
  | nil => simp at hevents
  | @snoc events t u last htrace hs ih =>
    rcases List.eq_nil_or_concat after with rfl | ⟨rest, c, rfl⟩
    · obtain ⟨rfl, hlast⟩ := List.append_inj' hevents rfl
      obtain rfl : e = last := (List.cons.inj hlast).1
      exact ⟨t, u, htrace, hs⟩
    · rw [List.concat_eq_append, ← List.cons_append, ← List.append_assoc] at hevents
      exact ih (List.append_inj' hevents rfl).1

end Rules

theorem filterMap_concat {α β : Type*} (f : α → Option β) (as : List α) (a : α) :
    (as ++ [a]).filterMap f = as.filterMap f ++ (f a).toList := by
  rw [List.filterMap_append]
  cases h : f a <;> simp [h]

end Process
