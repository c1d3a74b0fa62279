import AstraTrader.Process.Trace

/-! `AuditWriter`: a bounded queue drained by a writing thread. A line is in the queue, in the
batch that was swapped out, or in the file, until the stream fails. -/

namespace Astra
open Process

/-- Where `run` stands; `writing` holds what is left of the batch. -/
inductive WriterPhase
  | opening
  | waiting
  | writing (batch : List String)
  | exited
  deriving DecidableEq

/-- The members, the state of the stream and the lines it has appended to what was in the file, and
whether the destructor has returned. -/
structure AuditWriter where
  queue : List String := []
  droppedEvents : ℕ := 0
  stopping : Bool := false
  healthy : Bool := true
  phase : WriterPhase := .opening
  failed : Bool := false
  file : List String := []
  destroyed : Bool := false
  deriving DecidableEq

namespace AuditWriter

def refuses (capacity : ℕ) (writer : AuditWriter) : Bool :=
  writer.stopping || capacity = 0 || capacity ≤ writer.queue.length

def append (capacity : ℕ) (writer : AuditWriter) (jsonLine : String) : AuditWriter :=
  if writer.refuses capacity then { writer with droppedEvents := writer.droppedEvents + 1 }
  else { writer with queue := writer.queue ++ [jsonLine] }

/-- The lines swapped out but not yet handed to the stream. -/
def batch (writer : AuditWriter) : List String :=
  match writer.phase with
  | .writing batch => batch
  | _ => []

end AuditWriter

/-- One atomic step; an append says whether its line was taken. -/
inductive WriterEvent
  | append (jsonLine : String) (accepted : Bool)
  | openOk
  | openFail
  | swap (batch : List String)
  | leave
  | write (line : String)
  | writeFail (line : String)
  | flush
  | flushFail
  | stop
  | join

namespace AuditWriter

/-- The steps of the callers, of the writing thread and of the destructor. -/
inductive Step (capacity : ℕ) : AuditWriter → WriterEvent → AuditWriter → Prop
  | append (writer : AuditWriter) (jsonLine : String) :
      Step capacity writer (.append jsonLine (!writer.refuses capacity))
        (writer.append capacity jsonLine)
  | openOk (writer : AuditWriter) : writer.phase = .opening →
      Step capacity writer .openOk { writer with phase := .waiting }
  | openFail (writer : AuditWriter) : writer.phase = .opening →
      Step capacity writer .openFail { writer with phase := .exited, healthy := false }
  | swap (writer : AuditWriter) : writer.phase = .waiting → writer.queue ≠ [] →
      Step capacity writer (.swap writer.queue)
        { writer with phase := .writing writer.queue, queue := [] }
  | leave (writer : AuditWriter) : writer.phase = .waiting → writer.stopping = true →
      writer.queue = [] → Step capacity writer .leave { writer with phase := .exited }
  | write (writer : AuditWriter) (line : String) (rest : List String) :
      writer.phase = .writing (line :: rest) → writer.failed = false →
      Step capacity writer (.write line)
        { writer with phase := .writing rest, file := writer.file ++ [line] }
  -- a failed stream takes nothing more
  | writeFail (writer : AuditWriter) (line : String) (rest : List String) :
      writer.phase = .writing (line :: rest) →
      Step capacity writer (.writeFail line) { writer with phase := .writing rest, failed := true }
  | flush (writer : AuditWriter) : writer.phase = .writing [] → writer.failed = false →
      Step capacity writer .flush { writer with phase := .waiting }
  | flushFail (writer : AuditWriter) : writer.phase = .writing [] →
      Step capacity writer .flushFail
        { writer with phase := .waiting, failed := true, healthy := false }
  | stop (writer : AuditWriter) : Step capacity writer .stop { writer with stopping := true }
  | join (writer : AuditWriter) : writer.stopping = true → writer.phase = .exited →
      Step capacity writer .join { writer with destroyed := true }

end AuditWriter

namespace WriterEvent

def appended? : WriterEvent → Option String
  | .append jsonLine _ => some jsonLine
  | _ => none

def accepted? : WriterEvent → Option String
  | .append jsonLine accepted => if accepted then some jsonLine else none
  | _ => none

end WriterEvent

/-- Every line handed to `append`, and those it took, in order. -/
def appended (events : List WriterEvent) : List String := events.filterMap WriterEvent.appended?

def accepted (events : List WriterEvent) : List String := events.filterMap WriterEvent.accepted?

section History
variable {events : List WriterEvent} {event : WriterEvent}

theorem appended_concat :
    appended (events ++ [event]) = appended events ++ event.appended?.toList :=
  filterMap_concat ..

theorem accepted_concat :
    accepted (events ++ [event]) = accepted events ++ event.accepted?.toList :=
  filterMap_concat ..

end History

namespace AuditWriter

/-- No line is lost while the stream is sound, and a failed stream is not called healthy once
its batch is done. -/
structure Kept (capacity : ℕ) (events : List WriterEvent) (writer : AuditWriter) : Prop where
  counted : (accepted events).length + writer.droppedEvents = (appended events).length
  bounded : writer.queue.length ≤ capacity
  lines : writer.failed = false → writer.file ++ (writer.batch ++ writer.queue) = accepted events
  failed : writer.failed = true →
    writer.healthy = false ∨ ∃ batch, writer.phase = .writing batch
  exited : writer.phase = .exited →
    writer.healthy = false ∨ writer.stopping = true ∧ writer.queue = []
  destroyed : writer.destroyed = true → writer.phase = .exited

section Steps
variable {capacity : ℕ} {events : List WriterEvent} {writer next : AuditWriter}
  {event : WriterEvent}

theorem Kept.append (h : Kept capacity events writer) (jsonLine : String) :
    Kept capacity (events ++ [.append jsonLine (!writer.refuses capacity)])
      (writer.append capacity jsonLine) := by
  have hcounted := h.counted
  unfold AuditWriter.append
  split_ifs with hrefuses
  · refine ⟨?_, h.bounded, ?_, h.failed, h.exited, h.destroyed⟩
    · simp [accepted_concat, appended_concat, WriterEvent.accepted?, WriterEvent.appended?,
        hrefuses]
      omega
    · rw [accepted_concat, hrefuses]
      simpa [WriterEvent.accepted?, batch] using h.lines
  · obtain ⟨⟨hrunning, _⟩, hroom⟩ : (writer.stopping = false ∧ capacity ≠ 0) ∧
        writer.queue.length < capacity := by simpa [refuses] using hrefuses
    have htaken : accepted (events ++ [.append jsonLine (!writer.refuses capacity)]) =
        accepted events ++ [jsonLine] := by
      rw [accepted_concat, Bool.eq_false_iff.mpr hrefuses]
      rfl
    refine ⟨?_, ?_, fun hsound => ?_, h.failed, fun hexited => ?_, h.destroyed⟩
    · simp [htaken, appended_concat, WriterEvent.appended?]
      omega
    · rw [List.length_append]
      exact hroom
    · rw [htaken, ← h.lines hsound]
      simp [batch]
    · exact .inl ((h.exited hexited).resolve_right fun hstop => by simp [hrunning] at hstop)

theorem Kept.of_quiet (h : Kept capacity events writer)
    (hquiet : event.appended? = none ∧ event.accepted? = none)
    (hdropped : next.droppedEvents = writer.droppedEvents)
    (hbounded : next.queue.length ≤ capacity)
    (hlines : next.failed = false → writer.failed = false ∧
      next.file ++ (next.batch ++ next.queue) = writer.file ++ (writer.batch ++ writer.queue))
    (hfailed : next.failed = true →
      next.healthy = false ∨ ∃ batch, next.phase = .writing batch)
    (hexited : next.phase = .exited →
      next.healthy = false ∨ next.stopping = true ∧ next.queue = [])
    (hdestroyed : next.destroyed = true → next.phase = .exited) :
    Kept capacity (events ++ [event]) next := by
  have haccepted : accepted (events ++ [event]) = accepted events := by
    rw [accepted_concat, hquiet.2, Option.toList_none, List.append_nil]
  have happended : appended (events ++ [event]) = appended events := by
    rw [appended_concat, hquiet.1, Option.toList_none, List.append_nil]
  refine ⟨?_, hbounded, fun hsound => ?_, hfailed, hexited, hdestroyed⟩
  · rw [haccepted, happended, hdropped]
    exact h.counted
  · obtain ⟨hbefore, he⟩ := hlines hsound
    rw [haccepted, he]
    exact h.lines hbefore

theorem Kept.step (h : Kept capacity events writer) (hstep : Step capacity writer event next) :
    Kept capacity (events ++ [event]) next := by
  -- the destructor does not return before the thread has
  have hrunning : writer.phase ≠ .exited → writer.destroyed ≠ true := fun hphase hdestroyed =>
    hphase (h.destroyed hdestroyed)
  cases hstep with
  | append jsonLine => exact h.append jsonLine
  | openOk hphase =>
    refine h.of_quiet ⟨rfl, rfl⟩ rfl h.bounded (fun hsound => ⟨hsound, ?_⟩) (fun hfailed => ?_)
      (by simp) fun hd => absurd hd (hrunning (by simp [hphase]))
    · simp [batch, hphase]
    · exact .inl ((h.failed hfailed).resolve_right (by simp [hphase]))
  | openFail hphase =>
    refine h.of_quiet ⟨rfl, rfl⟩ rfl h.bounded (fun hsound => ⟨hsound, ?_⟩) (fun _ => .inl rfl)
      (fun _ => .inl rfl) fun _ => rfl
    simp [batch, hphase]
  | swap hphase hqueue =>
    refine h.of_quiet ⟨rfl, rfl⟩ rfl (Nat.zero_le _) (fun hsound => ⟨hsound, ?_⟩)
      (fun _ => .inr ⟨_, rfl⟩) (by simp) fun hd => absurd hd (hrunning (by simp [hphase]))
    simp [batch, hphase]
  | leave hphase hstop hqueue =>
    refine h.of_quiet ⟨rfl, rfl⟩ rfl h.bounded (fun hsound => ⟨hsound, ?_⟩) (fun hfailed => ?_)
      (fun _ => .inr ⟨hstop, hqueue⟩) fun _ => rfl
    · simp [batch, hphase]
    · exact .inl ((h.failed hfailed).resolve_right (by simp [hphase]))
  | write line rest hphase hsound =>
    refine h.of_quiet ⟨rfl, rfl⟩ rfl h.bounded (fun _ => ⟨hsound, ?_⟩)
      (fun _ => .inr ⟨_, rfl⟩) (by simp) fun hd => absurd hd (hrunning (by simp [hphase]))
    simp [batch, hphase]
  | writeFail line rest hphase =>
    exact h.of_quiet ⟨rfl, rfl⟩ rfl h.bounded (by simp) (fun _ => .inr ⟨_, rfl⟩) (by simp)
      fun hd => absurd hd (hrunning (by simp [hphase]))
  | flush hphase hsound =>
    refine h.of_quiet ⟨rfl, rfl⟩ rfl h.bounded (fun _ => ⟨hsound, ?_⟩)
      (fun hfailed => absurd (hfailed.symm.trans hsound) (by simp)) (by simp)
      fun hd => absurd hd (hrunning (by simp [hphase]))
    simp [batch, hphase]
  | flushFail hphase =>
    exact h.of_quiet ⟨rfl, rfl⟩ rfl h.bounded (by simp) (fun _ => .inl rfl) (by simp)
      fun hd => absurd hd (hrunning (by simp [hphase]))
  | stop =>
    refine h.of_quiet ⟨rfl, rfl⟩ rfl h.bounded (fun hsound => ⟨hsound, rfl⟩) h.failed
      (fun hexited => ?_) h.destroyed
    exact (h.exited hexited).imp_right fun hempty => ⟨rfl, hempty.2⟩
  | join hstop hphase =>
    exact h.of_quiet ⟨rfl, rfl⟩ rfl h.bounded (fun hsound => ⟨hsound, rfl⟩) h.failed h.exited
      fun _ => hphase

end Steps

/-- What the log is worth once its writer is gone. -/
structure NoSilentLoss (capacity : ℕ) (events : List WriterEvent) (writer : AuditWriter) :
    Prop where
  bounded : writer.queue.length ≤ capacity
  counted : (accepted events).length + writer.droppedEvents = (appended events).length
  written : writer.destroyed = true → writer.healthy = false ∨ writer.file = accepted events

theorem trace_noSilentLoss (capacity : ℕ) (events : List WriterEvent) (writer : AuditWriter)
    (htrace : Trace (Step capacity) {} events writer) :
    NoSilentLoss capacity events writer := by
  have h : Kept capacity events writer := htrace.invariant
    ⟨rfl, Nat.zero_le _, fun _ => rfl, by simp, by simp, by simp⟩ fun h hstep => h.step hstep
  refine ⟨h.bounded, h.counted, fun hdestroyed => ?_⟩
  have hphase := h.destroyed hdestroyed
  rcases h.exited hphase with hunhealthy | ⟨_, hqueue⟩
  · exact .inl hunhealthy
  cases hfailed : writer.failed with
  | true => exact .inl ((h.failed hfailed).resolve_right (by simp [hphase]))
  | false =>
    have hlines := h.lines hfailed
    rw [hqueue, batch, hphase, List.append_nil, List.append_nil] at hlines
    exact .inr hlines

/-- Two lines are written across the shutdown, and a third is dropped by the full queue. -/
theorem trace_noSilentLoss_shutdown :
    NoSilentLoss 1 [.append "a" true, .openOk, .append "b" false, .swap ["a"], .append "c" true,
        .stop, .write "a", .flush, .swap ["c"], .write "c", .flush, .leave, .join]
      { droppedEvents := 1, stopping := true, phase := .exited, file := ["a", "c"]
        destroyed := true } := by
  have hstart := @Trace.nil AuditWriter WriterEvent (Step 1) {}
  have hopen := ((hstart.snoc (.append _ "a")).snoc (.openOk _ rfl)).snoc (.append _ "b")
  have hswap := ((hopen.snoc (.swap _ rfl (by decide +kernel))).snoc (.append _ "c")).snoc (.stop _)
  have hwrite := ((hswap.snoc (.write _ _ _ rfl rfl)).snoc (.flush _ rfl rfl)).snoc
    (.swap _ rfl (by decide +kernel))
  have hleave := ((hwrite.snoc (.write _ _ _ rfl rfl)).snoc (.flush _ rfl rfl)).snoc
    (.leave _ rfl rfl rfl)
  exact trace_noSilentLoss 1 _ _ (hleave.snoc (.join _ rfl rfl))

end AuditWriter
end Astra
