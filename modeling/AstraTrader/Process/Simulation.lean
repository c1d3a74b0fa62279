import AstraTrader.Process.Trace

/-! Two levels of one system. A run of the finer one is explained by a run of the coarser one if
every step is answered by a step of the coarser that keeps the two related, or by none. -/

namespace Process

variable {σ τ ε δ : Type*}

/-- What is seen of a step of another system: a step, or nothing. -/
inductive Seen (step : τ → δ → τ → Prop) (u : τ) : Option δ → τ → Prop
  | stutter : Seen step u none u
  | step {d : δ} {v : τ} : step u d v → Seen step u (some d) v

section Rules
variable {fine : σ → ε → σ → Prop} {coarse : τ → δ → τ → Prop} {init : σ} {start u v : τ}
  {events : List ε} {s : σ}

theorem Trace.seen {others : List δ} {d : Option δ} (h : Trace coarse start others u)
    (hseen : Seen coarse u d v) : Trace coarse start (others ++ d.toList) v := by
  cases hseen with
  | stutter => rwa [Option.toList_none, List.append_nil]
  | step hstep => exact h.snoc hstep

/-- A part of a system, with the labels that are about it. -/
theorem Trace.project (view : σ → τ) (label : ε → Option δ) (h : Trace fine init events s)
    (hstep : ∀ {s e t}, fine s e t → Seen coarse (view s) (label e) (view t)) :
    Trace coarse (view init) (events.filterMap label) (view s) := by
  induction h with
  | nil => exact .nil
  | snoc _ hs ih =>
    rw [filterMap_concat]
    exact ih.seen (hstep hs)

/-- Forward simulation; the relation sees the labels of both runs. -/
theorem Trace.simulate {related : List ε → σ → List δ → τ → Prop} (h : Trace fine init events s)
    (hinit : related [] init [] start)
    (hstep : ∀ {events s e t others u}, related events s others u → fine s e t →
      ∃ d v, Seen coarse u d v ∧ related (events ++ [e]) t (others ++ d.toList) v) :
    ∃ others u, Trace coarse start others u ∧ related events s others u := by
  induction h with
  | nil => exact ⟨[], start, .nil, hinit⟩
  | snoc _ hs ih =>
    obtain ⟨others, u, htrace, hrelated⟩ := ih
    obtain ⟨d, v, hseen, hnext⟩ := hstep hrelated hs
    exact ⟨others ++ d.toList, v, htrace.seen hseen, hnext⟩

end Rules
end Process
