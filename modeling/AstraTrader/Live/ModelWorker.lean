import AstraTrader.Decision
import AstraTrader.Process.Trace
import Mathlib.Data.List.Pairwise

/-! `ModelWorker`: two single places between the feed thread and the evaluating thread. What
passes through them is accounted for, and decisions come out in the order of their states. -/

namespace Astra
open Process

/-- What the decision function does with a state; `none` is an exception of another kind. -/
inductive Outcome
  | decision (answer : ModelDecision)
  | exception (what : Option String)

def Outcome.decisionFor (state : ModelState) : Outcome → ModelDecision
  | .decision answer => answer
  | .exception what =>
    { stateSequence := state.sequence, error := what.getD "unknown model worker error" }

/-- The members, and where `run` stands: `evaluating` is its local state outside the lock. -/
structure ModelWorker where
  pending : Option ModelState := none
  completed : Option ModelDecision := none
  coalescedRequests : ℕ := 0
  stopping : Bool := false
  evaluating : Option ModelState := none
  finished : Bool := false
  deriving DecidableEq

namespace ModelWorker

def submit (worker : ModelWorker) (state : ModelState) : ModelWorker :=
  if worker.stopping then worker
  else { worker with
    pending := some state
    coalescedRequests :=
      if worker.pending.isSome then worker.coalescedRequests + 1 else worker.coalescedRequests }

def tryTake (worker : ModelWorker) : ModelWorker × Option ModelDecision :=
  ({ worker with completed := none }, worker.completed)

/-- The locked part of the destructor. -/
def stop (worker : ModelWorker) : ModelWorker :=
  { worker with stopping := true, pending := none }

end ModelWorker

/-- One atomic step, with what it moved. -/
inductive WorkerEvent
  | submit (state : ModelState)
  | take (state : ModelState)
  | publish (decision : ModelDecision)
  | tryTake (result : Option ModelDecision)
  | stop (discarded : Option ModelState)
  | finish

namespace ModelWorker

/-- The steps of both threads; `answers` is what the decision function may do. -/
inductive Step (answers : ModelState → Outcome → Prop) :
    ModelWorker → WorkerEvent → ModelWorker → Prop
  | submit (worker : ModelWorker) (state : ModelState) :
      Step answers worker (.submit state) (worker.submit state)
  | take (worker : ModelWorker) (state : ModelState) : worker.finished = false →
      worker.evaluating = none → worker.stopping = false → worker.pending = some state →
      Step answers worker (.take state)
        { worker with pending := none, evaluating := some state }
  | publish (worker : ModelWorker) (state : ModelState) (outcome : Outcome) :
      worker.evaluating = some state → answers state outcome →
      Step answers worker (.publish (outcome.decisionFor state))
        { worker with completed := some (outcome.decisionFor state), evaluating := none }
  | tryTake (worker : ModelWorker) :
      Step answers worker (.tryTake worker.tryTake.2) worker.tryTake.1
  | stop (worker : ModelWorker) : Step answers worker (.stop worker.pending) worker.stop
  | finish (worker : ModelWorker) : worker.evaluating = none → worker.stopping = true →
      Step answers worker .finish { worker with finished := true }

end ModelWorker

namespace WorkerEvent

def isStop : WorkerEvent → Bool
  | .stop _ => true
  | _ => false

def submitted? : WorkerEvent → Option ModelState
  | .submit state => some state
  | _ => none

def taken? : WorkerEvent → Option ModelState
  | .take state => some state
  | _ => none

def published? : WorkerEvent → Option ModelDecision
  | .publish decision => some decision
  | _ => none

def returned? : WorkerEvent → Option ModelDecision
  | .tryTake result => result
  | _ => none

def discarded? : WorkerEvent → Option ModelState
  | .stop discarded => discarded
  | _ => none

end WorkerEvent

/-- The states submitted before the destructor's stop; `submit` ignores the later ones. -/
def submitted (events : List WorkerEvent) : List ModelState :=
  (events.takeWhile fun event => !event.isStop).filterMap WorkerEvent.submitted?

def taken (events : List WorkerEvent) : List ModelState := events.filterMap WorkerEvent.taken?

def published (events : List WorkerEvent) : List ModelDecision :=
  events.filterMap WorkerEvent.published?

def returned (events : List WorkerEvent) : List ModelDecision :=
  events.filterMap WorkerEvent.returned?

def discarded (events : List WorkerEvent) : List ModelState :=
  events.filterMap WorkerEvent.discarded?

section History
variable {events : List WorkerEvent} {event : WorkerEvent}

theorem submitted_concat (events : List WorkerEvent) (event : WorkerEvent) :
    submitted (events ++ [event]) = submitted events ++
      if events.any WorkerEvent.isStop then [] else event.submitted?.toList := by
  induction events with
  | nil => cases event <;> rfl
  | cons first events ih =>
    unfold submitted at ih ⊢
    cases hstop : first.isStop with
    | true => simp [hstop]
    | false =>
      simp only [List.cons_append, List.takeWhile_cons, hstop, Bool.not_false, if_true,
        List.filterMap_cons, List.any_cons, Bool.false_or]
      cases first.submitted? with
      | none => exact ih
      | some state => exact congrArg (state :: ·) ih

@[simp] theorem taken_concat : taken (events ++ [event]) = taken events ++ event.taken?.toList :=
  filterMap_concat ..

@[simp] theorem published_concat :
    published (events ++ [event]) = published events ++ event.published?.toList :=
  filterMap_concat ..

@[simp] theorem returned_concat :
    returned (events ++ [event]) = returned events ++ event.returned?.toList :=
  filterMap_concat ..

@[simp] theorem discarded_concat :
    discarded (events ++ [event]) = discarded events ++ event.discarded?.toList :=
  filterMap_concat ..

end History

attribute [simp] WorkerEvent.isStop WorkerEvent.submitted? WorkerEvent.taken?
  WorkerEvent.published? WorkerEvent.returned? WorkerEvent.discarded?

namespace ModelWorker

/-- Where every state that was submitted has gone. -/
structure Accounted (events : List WorkerEvent) (worker : ModelWorker) : Prop where
  stopping : worker.stopping = events.any WorkerEvent.isStop
  stopped : worker.stopping = true → worker.pending = none
  counted : (submitted events).length = (taken events).length + worker.coalescedRequests +
    (worker.pending.toList.length + (discarded events).length)
  discardedOnce : (discarded events).length ≤ if worker.stopping then 1 else 0
  evaluated : (taken events).length = (published events).length + worker.evaluating.toList.length
  latest : ∀ state, worker.pending = some state → (submitted events).getLast? = some state

/-- The sequences in the places that a state passes, oldest first. -/
def line (events : List WorkerEvent) (worker : ModelWorker) : List UInt64 :=
  (returned events ++ worker.completed.toList).map (·.stateSequence) ++
    (worker.evaluating.toList ++ worker.pending.toList).map (·.sequence)

section Steps
variable {answers : ModelState → Outcome → Prop} {events : List WorkerEvent}
  {worker next : ModelWorker} {event : WorkerEvent}

theorem submitted_concat_of_stopping (h : worker.stopping = events.any WorkerEvent.isStop)
    (hstop : worker.stopping = true) : submitted (events ++ [event]) = submitted events := by
  rw [submitted_concat, if_pos (h ▸ hstop), List.append_nil]

theorem submitted_concat_of_running (h : worker.stopping = events.any WorkerEvent.isStop)
    (hstop : worker.stopping = false) :
    submitted (events ++ [event]) = submitted events ++ event.submitted?.toList := by
  rw [submitted_concat, if_neg (by simp [← h, hstop])]

theorem submitted_concat_of_other (h : event.submitted? = none) :
    submitted (events ++ [event]) = submitted events := by
  rw [submitted_concat, h]
  split_ifs <;> simp

theorem Accounted.submit (h : Accounted events worker) (state : ModelState) :
    Accounted (events ++ [.submit state]) (worker.submit state) := by
  have hcounted := h.counted
  cases hstop : worker.stopping with
  | true =>
    have hsubmitted := @submitted_concat_of_stopping events worker (.submit state) h.stopping hstop
    have hsame : worker.submit state = worker := if_pos hstop
    rw [hsame]
    exact {
      stopping := by simp [h.stopping]
      stopped := h.stopped
      counted := by simpa [hsubmitted] using hcounted
      discardedOnce := by simpa using h.discardedOnce
      evaluated := by simpa using h.evaluated
      latest := by simpa [hsubmitted] using h.latest }
  | false =>
    have hsubmitted := @submitted_concat_of_running events worker (.submit state) h.stopping hstop
    -- a state that waited is coalesced, else the place was free
    have hplace : (worker.submit state).coalescedRequests =
        worker.coalescedRequests + worker.pending.toList.length := by
      cases hpending : worker.pending <;> simp [ModelWorker.submit, hstop, hpending]
    have hsame : worker.submit state = { worker with
        pending := some state, coalescedRequests := (worker.submit state).coalescedRequests } := by
      simp [ModelWorker.submit, hstop]
    rw [hsame]
    exact {
      stopping := by simp [h.stopping]
      stopped := fun hs => absurd hs (by simp [hstop])
      counted := by
        simp only [hsubmitted, hplace, WorkerEvent.submitted?, Option.toList_some,
          List.length_append, List.length_singleton, taken_concat, discarded_concat,
          WorkerEvent.taken?, WorkerEvent.discarded?, Option.toList_none, List.append_nil]
        omega
      discardedOnce := by simpa using h.discardedOnce
      evaluated := by simpa using h.evaluated
      latest := by simp [hsubmitted] }

theorem Accounted.of_same (h : Accounted events worker)
    (hsame : next.stopping = worker.stopping ∧ next.pending = worker.pending ∧
      next.coalescedRequests = worker.coalescedRequests)
    (hevent : event.isStop = false ∧ event.submitted? = none ∧ event.taken? = none ∧
      event.discarded? = none)
    (hpublished : event.published?.toList.length + next.evaluating.toList.length =
      worker.evaluating.toList.length) : Accounted (events ++ [event]) next := by
  obtain ⟨hstopping, hpending, hcoalesced⟩ := hsame
  obtain ⟨hstop, hsubmit, htake, hdiscard⟩ := hevent
  have hsubmitted := @submitted_concat_of_other events event hsubmit
  have hevaluated := h.evaluated
  refine ⟨?_, ?_, ?_, ?_, ?_, ?_⟩
  · rw [hstopping, h.stopping, List.any_append, List.any_cons, hstop, List.any_nil,
      Bool.or_false, Bool.or_false]
  · rw [hstopping, hpending]
    exact h.stopped
  · rw [hsubmitted, hpending, hcoalesced, taken_concat, discarded_concat, htake, hdiscard]
    simpa using h.counted
  · rw [hstopping, discarded_concat, hdiscard]
    simpa using h.discardedOnce
  · simp only [taken_concat, htake, Option.toList_none, List.append_nil, published_concat,
      List.length_append]
    omega
  · rw [hsubmitted, hpending]
    exact h.latest

theorem Accounted.take (h : Accounted events worker) (hfree : worker.evaluating = none)
    {state : ModelState} (hpending : worker.pending = some state) :
    Accounted (events ++ [.take state])
      { worker with pending := none, evaluating := some state } := by
  have hsubmitted := @submitted_concat_of_other events (.take state) rfl
  have hcounted := h.counted
  have hevaluated := h.evaluated
  simp only [hpending, Option.toList_some, List.length_singleton] at hcounted
  simp only [hfree, Option.toList_none, List.length_nil] at hevaluated
  exact {
    stopping := by simp [h.stopping]
    stopped := fun _ => rfl
    counted := by
      simp [hsubmitted]
      omega
    discardedOnce := by simpa using h.discardedOnce
    evaluated := by simp [hevaluated]
    latest := fun _ hnone => absurd hnone (by simp) }

/-- A state is discarded only once nothing is left to wait, so a second stop finds nothing. -/
theorem Accounted.discardedOrPending (h : Accounted events worker) :
    (discarded events).length + worker.pending.toList.length ≤ 1 := by
  have hdiscarded := h.discardedOnce
  cases hstop : worker.stopping with
  | true =>
    rw [h.stopped hstop]
    simpa [hstop] using hdiscarded
  | false =>
    have hlength : worker.pending.toList.length ≤ 1 := by cases worker.pending <;> simp
    simp only [hstop, Bool.false_eq_true, if_false] at hdiscarded
    omega

theorem Accounted.stop (h : Accounted events worker) :
    Accounted (events ++ [.stop worker.pending]) worker.stop := by
  have hsubmitted := @submitted_concat_of_other events (.stop worker.pending) rfl
  have honce := h.discardedOrPending
  exact {
    stopping := by simp [ModelWorker.stop]
    stopped := fun _ => rfl
    counted := by
      have hcounted := h.counted
      simp [hsubmitted, ModelWorker.stop, hcounted]
      omega
    discardedOnce := by simpa [ModelWorker.stop] using honce
    evaluated := by simpa [ModelWorker.stop] using h.evaluated
    latest := fun _ hnone => absurd hnone (by simp [ModelWorker.stop]) }

theorem Accounted.step (h : Accounted events worker) (hstep : Step answers worker event next) :
    Accounted (events ++ [event]) next := by
  cases hstep with
  | submit state => exact h.submit state
  | take state _ hfree _ hpending => exact h.take hfree hpending
  | publish state outcome hevaluating _ =>
    exact h.of_same ⟨rfl, rfl, rfl⟩ ⟨rfl, rfl, rfl, rfl⟩ (by simp [hevaluating])
  | tryTake =>
    exact h.of_same ⟨rfl, rfl, rfl⟩ ⟨rfl, rfl, rfl, rfl⟩ (by simp [ModelWorker.tryTake])
  | stop => exact h.stop
  | finish => exact h.of_same ⟨rfl, rfl, rfl⟩ ⟨rfl, rfl, rfl, rfl⟩ (by simp)

/-- What lies in the places, and what has been returned, comes in the order of submission. -/
theorem line_sublist (haccounted : Accounted events worker)
    (hanswers : ∀ state answer, answers state (.decision answer) →
      answer.stateSequence = state.sequence)
    (h : (line events worker).Sublist ((submitted events).map (·.sequence)))
    (hstep : Step answers worker event next) :
    (line (events ++ [event]) next).Sublist
      ((submitted (events ++ [event])).map (·.sequence)) := by
  -- a step other than a submission only has to keep the line within what it was
  have hother : event.submitted? = none →
      (line (events ++ [event]) next).Sublist (line events worker) →
      (line (events ++ [event]) next).Sublist
        ((submitted (events ++ [event])).map (·.sequence)) := by
    intro hsubmit hline
    rw [submitted_concat_of_other hsubmit]
    exact hline.trans h
  cases hstep with
  | submit state =>
    cases hstop : worker.stopping with
    | true =>
      have hsame : worker.submit state = worker := if_pos hstop
      rw [submitted_concat_of_stopping haccounted.stopping hstop, hsame]
      simpa [line] using h
    | false =>
      rw [submitted_concat_of_running haccounted.stopping hstop, List.map_append]
      simp only [line, ModelWorker.submit, hstop, returned_concat, WorkerEvent.returned?,
        WorkerEvent.submitted?, Option.toList_none, List.append_nil, Bool.false_eq_true, if_false,
        Option.toList_some, List.map_append, ← List.append_assoc] at h ⊢
      exact List.Sublist.append ((List.sublist_append_left _ _).trans h) (List.Sublist.refl _)
  | take state _ hfree _ hpending =>
    refine hother rfl ?_
    simp [line, hfree, hpending]
  | publish state outcome hevaluating hanswer =>
    refine hother rfl ?_
    have hsequence : (outcome.decisionFor state).stateSequence = state.sequence := by
      cases outcome with
      | decision answer => exact hanswers state answer hanswer
      | exception what => rfl
    simp [line, hevaluating, hsequence]
  | tryTake =>
    refine hother rfl ?_
    simp [line, ModelWorker.tryTake]
  | stop =>
    refine hother rfl ?_
    simp [line, ModelWorker.stop]
  | finish =>
    refine hother rfl ?_
    simp [line]

end Steps

/-- Conservation of states and the order of decisions, over an interleaving. -/
structure LatestWins (events : List WorkerEvent) (worker : ModelWorker) : Prop where
  counted : (submitted events).length = (taken events).length + worker.coalescedRequests +
    (worker.pending.toList.length + (discarded events).length)
  pending : worker.pending.toList.length + (discarded events).length ≤ 1
  evaluating : (taken events).length = (published events).length + worker.evaluating.toList.length
  latest : ∀ before state after, events = before ++ .take state :: after →
    (submitted before).getLast? = some state
  ordered : (returned events).Pairwise fun a b => a.stateSequence < b.stateSequence
  belongs : ∀ decision ∈ returned events, ∃ state ∈ submitted events,
    decision.stateSequence = state.sequence

theorem trace_latestWins (answers : ModelState → Outcome → Prop)
    (hanswers : ∀ state answer, answers state (.decision answer) →
      answer.stateSequence = state.sequence)
    (events : List WorkerEvent) (worker : ModelWorker)
    (htrace : Trace (Step answers) {} events worker)
    (hincreasing : (submitted events).Pairwise fun a b => a.sequence < b.sequence) :
    LatestWins events worker := by
  have haccounted : ∀ {before : List WorkerEvent} {reached : ModelWorker},
      Trace (Step answers) {} before reached → Accounted before reached := fun hreached =>
    hreached.invariant ⟨rfl, fun _ => rfl, rfl, by simp [discarded], rfl, by simp⟩
      fun h hstep => h.step hstep
  have hline := (htrace.invariant (I := fun events worker => Accounted events worker ∧
    (line events worker).Sublist ((submitted events).map (·.sequence)))
    ⟨haccounted .nil, List.nil_sublist _⟩
    fun h hstep => ⟨h.1.step hstep, line_sublist h.1 hanswers h.2 hstep⟩).2
  have hreturned : ((returned events).map (·.stateSequence)).Sublist
      ((submitted events).map (·.sequence)) := by
    rw [line, List.map_append, List.append_assoc] at hline
    exact (List.sublist_append_left _ _).trans hline
  have h := haccounted htrace
  exact {
    counted := h.counted
    pending := by
      rw [Nat.add_comm]
      exact h.discardedOrPending
    evaluating := h.evaluated
    latest := by
      rintro before state after rfl
      obtain ⟨reached, next, hbefore, hstep⟩ := htrace.step_of_split
      cases hstep with
      | take _ _ _ _ hpending => exact (haccounted hbefore).latest state hpending
    ordered := by
      rw [← List.pairwise_map]
      exact (List.pairwise_map.mpr hincreasing).sublist hreturned
    belongs := by
      intro decision hmem
      obtain ⟨state, hstate, he⟩ := List.mem_map.mp
        (hreturned.subset (List.mem_map_of_mem hmem))
      exact ⟨state, hstate, he.symm⟩ }

/-- The second state is overtaken by the third while the first is evaluated. -/
theorem trace_latestWins_coalesced :
    LatestWins [.submit { sequence := 1 }, .take { sequence := 1 }, .submit { sequence := 2 },
        .submit { sequence := 3 }, .publish { stateSequence := 1 },
        .tryTake (some { stateSequence := 1 }), .take { sequence := 3 }, .stop none]
      { coalescedRequests := 1, stopping := true, evaluating := some { sequence := 3 } } := by
  have hstart := @Trace.nil ModelWorker WorkerEvent (Step fun state outcome =>
    outcome = .decision { stateSequence := state.sequence }) {}
  have htrace := ((hstart.snoc (.submit _ { sequence := 1 })).snoc
    (.take _ _ rfl rfl rfl rfl)).snoc (.submit _ { sequence := 2 })
  have hpublished := (htrace.snoc (.submit _ { sequence := 3 })).snoc (.publish _ _ _ rfl rfl)
  have hstopped := ((hpublished.snoc (.tryTake _)).snoc (.take _ _ rfl rfl rfl rfl)).snoc (.stop _)
  exact trace_latestWins _ (fun _ _ he => by rw [Outcome.decision.inj he]) _ _ hstopped
    (by decide +kernel)

end ModelWorker
end Astra
