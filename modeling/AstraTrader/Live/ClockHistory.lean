import AstraTrader.Live.ExchangeClock
import AstraTrader.Process.Extremes
import Mathlib.Data.List.Forall2
import Mathlib.Data.List.Induction

/-! What the state of `ExchangeClock` says about the observations so far: the least offset, how far
the last one lies above it, and whether enough of them have come since the warm-up began again. -/

namespace Astra
open FixedWidth

/-- The arguments of a call of `observe`. -/
structure Observation where
  exchangeTimeNs : Int64
  receiveTimeNs : Int64
  deriving DecidableEq

namespace Observation

def Valid (o : Observation) : Prop := 0 < o.exchangeTimeNs ∧ o.exchangeTimeNs ≤ o.receiveTimeNs

instance (o : Observation) : Decidable o.Valid := inferInstanceAs (Decidable (_ ∧ _))

def offset (o : Observation) : ℤ := o.receiveTimeNs.toInt - o.exchangeTimeNs.toInt

theorem Valid.toInt_sub {o : Observation} (h : o.Valid) :
    0 ≤ o.offset ∧ (o.receiveTimeNs - o.exchangeTimeNs).toInt = o.offset := by
  have hpos := (int64_pos_iff _).mp h.1
  have hle := Int64.le_iff_toInt_le.mp h.2
  exact ⟨sub_nonneg.mpr hle, int64_toInt_sub_of_nonneg (hpos.le.trans hle) hpos.le⟩

end Observation

def validOffsets (observations : List Observation) : List ℤ :=
  (observations.filter fun o => o.Valid).map Observation.offset

/-- The `k`th offset restarts the warm-up: it is the first, or it lowers the least offset by more
than `residual`. -/
def ResetsAt (residual : ℤ) (offsets : List ℤ) (k : ℕ) : Prop :=
  ∃ offset, offsets[k]? = some offset ∧ ∀ d ∈ offsets.take k, residual < d - offset

/-- There are `count` offsets from the last that restarted the warm-up. -/
def SinceReset (residual : ℤ) (offsets : List ℤ) (count : ℕ) : Prop :=
  ∃ k, ResetsAt residual offsets k ∧ (∀ j, k < j → ¬ ResetsAt residual offsets j) ∧
    count = offsets.length - k

section Resets
variable {residual offset : ℤ} {offsets : List ℤ} {count : ℕ}

theorem ResetsAt.lt_length {k : ℕ} (h : ResetsAt residual offsets k) : k < offsets.length := by
  obtain ⟨_, hk, _⟩ := h
  exact (List.getElem?_eq_some_iff.mp hk).1

theorem resetsAt_concat {k : ℕ} : ResetsAt residual (offsets ++ [offset]) k ↔
    ResetsAt residual offsets k ∨ k = offsets.length ∧ ∀ d ∈ offsets, residual < d - offset := by
  rcases lt_trichotomy k offsets.length with hlt | rfl | hgt
  · have hne : k ≠ offsets.length := hlt.ne
    simp only [ResetsAt, List.getElem?_append_left hlt, List.take_append_of_le_length hlt.le, hne,
      false_and, or_false]
  · simp [ResetsAt]
  · have hnone : ∀ {as : List ℤ}, as.length ≤ k → ¬ ResetsAt residual as k := fun hle h =>
      absurd h.lt_length (not_lt.mpr hle)
    have hshort : (offsets ++ [offset]).length ≤ k := by
      rw [List.length_append, List.length_singleton]
      exact hgt
    exact iff_of_false (hnone hshort) fun h => h.elim (hnone hgt.le) fun h => hgt.ne' h.1

theorem sinceReset_one (h : ∀ d ∈ offsets, residual < d - offset) :
    SinceReset residual (offsets ++ [offset]) 1 := by
  refine ⟨offsets.length, resetsAt_concat.mpr (.inr ⟨rfl, h⟩), fun j hj hreset => ?_, by simp⟩
  have hlt := hreset.lt_length
  rw [List.length_append, List.length_singleton] at hlt
  omega

theorem SinceReset.concat (h : SinceReset residual offsets count)
    (hkeeps : ¬ ∀ d ∈ offsets, residual < d - offset) :
    SinceReset residual (offsets ++ [offset]) (count + 1) := by
  obtain ⟨k, hk, hlast, rfl⟩ := h
  refine ⟨k, resetsAt_concat.mpr (.inl hk), fun j hj hreset => ?_, ?_⟩
  · rcases resetsAt_concat.mp hreset with hold | ⟨_, hnew⟩
    · exact hlast j hj hold
    · exact hkeeps hnew
  · have hlt := hk.lt_length
    rw [List.length_append, List.length_singleton]
    omega

theorem SinceReset.unique {other : ℕ} (h : SinceReset residual offsets count)
    (h' : SinceReset residual offsets other) : count = other := by
  obtain ⟨k, hk, hlast, rfl⟩ := h
  obtain ⟨j, hj, hlast', rfl⟩ := h'
  rcases lt_trichotomy k j with hlt | rfl | hgt
  · exact absurd hj (hlast j hlt)
  · rfl
  · exact absurd hk (hlast' k hgt)

end Resets

namespace ExchangeClock

def start (warmupSamples : ℕ) (maximumResidualNs : Int64) : ExchangeClock :=
  { warmupSamples, maximumResidualNs }

def run (warmupSamples : ℕ) (maximumResidualNs : Int64) (observations : List Observation) :
    ExchangeClock :=
  observations.foldl (fun clock o => (clock.observe o.exchangeTimeNs o.receiveTimeNs).1)
    (start warmupSamples maximumResidualNs)

/-- The state is the one that the offsets of the valid observations call for. -/
structure Tracks (residual : ℤ) (offsets : List ℤ) (clock : ExchangeClock) : Prop where
  fresh : offsets = [] → clock.minimumOffsetNs = none ∧ clock.state.offsetNs = 0 ∧
    clock.state.adjustedAgeNs = 0
  minimum : offsets ≠ [] → clock.minimumOffsetNs = some clock.state.offsetNs
  least : offsets ≠ [] → IsLeast {d | d ∈ offsets} clock.state.offsetNs.toInt
  age : ∀ last ∈ offsets.getLast?,
    clock.state.adjustedAgeNs.toInt = last - clock.state.offsetNs.toInt
  samples : offsets ≠ [] → SinceReset residual offsets clock.state.samples

section Steps
variable {clock : ExchangeClock} {offsets : List ℤ} {o : Observation}

theorem observe_of_invalid (h : ¬ o.Valid) :
    (clock.observe o.exchangeTimeNs o.receiveTimeNs).1 =
      { clock with state := { clock.state with stable := false } } := by
  have hrefused : o.exchangeTimeNs ≤ 0 ∨ o.receiveTimeNs < o.exchangeTimeNs ∨
      clock.maximumResidualNs ≤ 0 ∨ clock.warmupSamples = 0 := by
    rcases not_and_or.mp h with hle | hlt
    · exact .inl (Int64.not_lt.mp hle)
    · exact .inr (.inl (Int64.not_le.mp hlt))
  rw [observe, if_pos hrefused]

/-- The new offset lowers the least one by more than `residual` exactly if it lies that far below
every offset before. -/
theorem resets_iff {minimum residual offset : ℤ} (h : IsLeast {d | d ∈ offsets} minimum) :
    (∀ d ∈ offsets, residual < d - offset) ↔ residual < minimum - offset := by
  refine ⟨fun hall => hall minimum h.1, fun hlt d hd => ?_⟩
  have hle : minimum ≤ d := h.2 hd
  omega

theorem Tracks.sample (h : Tracks clock.maximumResidualNs.toInt offsets clock)
    (hresidual : 0 < clock.maximumResidualNs.toInt) (hnonneg : ∀ d ∈ offsets, 0 ≤ d)
    {observedOffset : Int64} (hoffset : 0 ≤ observedOffset.toInt) :
    IsLeast {d | d ∈ offsets ++ [observedOffset.toInt]} (clock.sample observedOffset).1.toInt ∧
      SinceReset clock.maximumResidualNs.toInt (offsets ++ [observedOffset.toInt])
        (clock.sample observedOffset).2 := by
  unfold ExchangeClock.sample
  by_cases hfirst : offsets = []
  · rw [(h.fresh hfirst).1, hfirst]
    refine ⟨by simp [IsLeast, lowerBounds], sinceReset_one (by simp)⟩
  · have hleast := h.least hfirst
    have hmin := @Process.isLeast_concat _ _ offsets observedOffset.toInt _ hleast
    have hcount := h.samples hfirst
    have hold : 0 ≤ clock.state.offsetNs.toInt := hnonneg _ hleast.1
    rw [h.minimum hfirst]
    dsimp only
    split_ifs with hlower hshift <;> rw [Int64.lt_iff_toInt_lt] at hlower
    · rw [min_eq_right hlower.le] at hmin
      rw [Int64.lt_iff_toInt_lt, int64_toInt_sub_of_nonneg hold hoffset] at hshift
      exact ⟨hmin, sinceReset_one ((resets_iff hleast).mpr hshift)⟩
    · rw [min_eq_right hlower.le] at hmin
      rw [Int64.lt_iff_toInt_lt, int64_toInt_sub_of_nonneg hold hoffset] at hshift
      exact ⟨hmin, hcount.concat (mt (resets_iff hleast).mp hshift)⟩
    · rw [min_eq_left (not_lt.mp hlower)] at hmin
      refine ⟨hmin, hcount.concat (mt (resets_iff hleast).mp ?_)⟩
      omega

theorem observe_of_valid (h : o.Valid) (hresidual : 0 < clock.maximumResidualNs)
    (hwarmup : 1 ≤ clock.warmupSamples) :
    (clock.observe o.exchangeTimeNs o.receiveTimeNs).1 =
      let sampled := clock.sample (o.receiveTimeNs - o.exchangeTimeNs)
      let adjustedAgeNs := max 0 (o.receiveTimeNs - o.exchangeTimeNs - sampled.1)
      { clock with
        minimumOffsetNs := some sampled.1
        state :=
          { offsetNs := sampled.1
            adjustedAgeNs
            samples := sampled.2
            stable := clock.warmupSamples ≤ sampled.2 &&
              adjustedAgeNs ≤ clock.maximumResidualNs } } := by
  have haccepted : ¬ (o.exchangeTimeNs ≤ 0 ∨ o.receiveTimeNs < o.exchangeTimeNs ∨
      clock.maximumResidualNs ≤ 0 ∨ clock.warmupSamples = 0) := by
    simp only [not_or, Int64.not_le, Int64.not_lt]
    exact ⟨h.1, h.2, hresidual, Nat.one_le_iff_ne_zero.mp hwarmup⟩
  rw [observe, if_neg haccepted]

end Steps

/-- What is known of the clock after `observations`. -/
structure Followed (warmupSamples : ℕ) (maximumResidualNs : Int64)
    (observations : List Observation) (clock : ExchangeClock) : Prop where
  warmupSamples_eq : clock.warmupSamples = warmupSamples
  maximumResidualNs_eq : clock.maximumResidualNs = maximumResidualNs
  tracks : Tracks maximumResidualNs.toInt (validOffsets observations) clock
  stable : clock.state.stable = true ↔ (∃ o ∈ observations.getLast?, o.Valid) ∧
    warmupSamples ≤ clock.state.samples ∧ clock.state.adjustedAgeNs ≤ maximumResidualNs

section Runs
variable {warmupSamples : ℕ} {maximumResidualNs : Int64} {observations : List Observation}
  {clock : ExchangeClock} {o : Observation}

theorem validOffsets_nonneg : ∀ d ∈ validOffsets observations, 0 ≤ d := by
  intro d hd
  obtain ⟨o, ho, rfl⟩ := List.mem_map.mp hd
  have hvalid := of_decide_eq_true (List.mem_filter.mp ho).2
  exact hvalid.toInt_sub.1

theorem validOffsets_concat : validOffsets (observations ++ [o]) =
    validOffsets observations ++ if o.Valid then [o.offset] else [] := by
  unfold validOffsets
  rw [List.filter_append, List.map_append]
  by_cases h : o.Valid <;> simp [h]

theorem followed_start :
    Followed warmupSamples maximumResidualNs [] (start warmupSamples maximumResidualNs) := by
  refine ⟨rfl, rfl, ⟨fun _ => ⟨rfl, rfl, rfl⟩, fun h => absurd rfl h, fun h => absurd rfl h,
    fun last hlast => ?_, fun h => absurd rfl h⟩, by simp [start]⟩
  simp [validOffsets] at hlast

theorem Followed.invalid (h : Followed warmupSamples maximumResidualNs observations clock)
    (hinvalid : ¬ o.Valid) : Followed warmupSamples maximumResidualNs (observations ++ [o])
      (clock.observe o.exchangeTimeNs o.receiveTimeNs).1 := by
  have hsame : validOffsets (observations ++ [o]) = validOffsets observations := by
    rw [validOffsets_concat, if_neg hinvalid, List.append_nil]
  rw [observe_of_invalid hinvalid]
  obtain ⟨hfresh, hminimum, hleast, hage, hsamples⟩ := h.tracks
  refine ⟨h.warmupSamples_eq, h.maximumResidualNs_eq, ?_, ?_⟩
  · rw [hsame]
    exact ⟨hfresh, hminimum, hleast, hage, hsamples⟩
  · simp [hinvalid]

theorem Followed.valid (h : Followed warmupSamples maximumResidualNs observations clock)
    (hwarmup : 1 ≤ warmupSamples) (hresidual : 0 < maximumResidualNs) (hvalid : o.Valid) :
    Followed warmupSamples maximumResidualNs (observations ++ [o])
      (clock.observe o.exchangeTimeNs o.receiveTimeNs).1 := by
  obtain ⟨hwarmup_eq, rfl, htracks, _⟩ := h
  subst hwarmup_eq
  obtain ⟨hoffset, hsub⟩ := hvalid.toInt_sub
  obtain ⟨hleast, hcount⟩ := htracks.sample ((int64_pos_iff _).mp hresidual) validOffsets_nonneg
    (hsub.symm ▸ hoffset)
  rw [hsub] at hleast hcount
  have hoffsets : validOffsets (observations ++ [o]) = validOffsets observations ++ [o.offset] := by
    rw [validOffsets_concat, if_pos hvalid]
  have hmin : 0 ≤ (clock.sample (o.receiveTimeNs - o.exchangeTimeNs)).1.toInt := by
    have hmem := hleast.1
    rw [← hoffsets] at hmem
    exact validOffsets_nonneg _ hmem
  have hbelow : (clock.sample (o.receiveTimeNs - o.exchangeTimeNs)).1.toInt ≤ o.offset :=
    hleast.2 (by simp)
  have hage : (o.receiveTimeNs - o.exchangeTimeNs -
      (clock.sample (o.receiveTimeNs - o.exchangeTimeNs)).1).toInt =
        o.offset - (clock.sample (o.receiveTimeNs - o.exchangeTimeNs)).1.toInt := by
    rw [int64_toInt_sub_of_nonneg (hsub.symm ▸ hoffset) hmin, hsub]
  have hmax : max 0 (o.receiveTimeNs - o.exchangeTimeNs -
      (clock.sample (o.receiveTimeNs - o.exchangeTimeNs)).1) = o.receiveTimeNs -
        o.exchangeTimeNs - (clock.sample (o.receiveTimeNs - o.exchangeTimeNs)).1 := by
    refine if_pos (Int64.le_iff_toInt_le.mpr ?_)
    rw [hage, Int64.toInt_zero]
    omega
  rw [observe_of_valid hvalid hresidual hwarmup]
  refine ⟨rfl, rfl, ?_, ?_⟩
  · rw [hoffsets]
    refine ⟨fun h => absurd h (by simp), fun _ => rfl, fun _ => hleast, fun last hlast => ?_,
      fun _ => hcount⟩
    rw [List.getLast?_concat, Option.mem_some_iff] at hlast
    dsimp only
    rw [hmax, hage, hlast]
  · simp [hvalid]

theorem followed_run (hwarmup : 1 ≤ warmupSamples) (hresidual : 0 < maximumResidualNs)
    (observations : List Observation) : Followed warmupSamples maximumResidualNs observations
      (run warmupSamples maximumResidualNs observations) := by
  induction observations using List.reverseRecOn with
  | nil => exact followed_start
  | append_singleton observations o ih =>
    rw [run, List.foldl_concat]
    by_cases hvalid : o.Valid
    · exact ih.valid hwarmup hresidual hvalid
    · exact ih.invalid hvalid

end Runs

/-- The state after `observations`, in terms of the valid ones among them. -/
structure Specified (warmupSamples : ℕ) (maximumResidualNs : Int64)
    (observations : List Observation) (state : ExchangeClockState) : Prop where
  offset_none : validOffsets observations = [] → state.offsetNs = 0
  offset_least : validOffsets observations ≠ [] →
    IsLeast {d | d ∈ validOffsets observations} state.offsetNs.toInt
  age_none : validOffsets observations = [] → state.adjustedAgeNs = 0
  age : ∀ last ∈ (validOffsets observations).getLast?,
    state.adjustedAgeNs.toInt = last - state.offsetNs.toInt
  age_nonneg : 0 ≤ state.adjustedAgeNs
  stable : state.stable = true ↔ (∃ o ∈ observations.getLast?, o.Valid) ∧
    (∃ count, SinceReset maximumResidualNs.toInt (validOffsets observations) count ∧
      warmupSamples ≤ count) ∧ state.adjustedAgeNs ≤ maximumResidualNs

/-- The same observation, received later by a constant. -/
structure DelayedBy (constant : ℤ) (o delayed : Observation) : Prop where
  exchangeTimeNs : delayed.exchangeTimeNs = o.exchangeTimeNs
  receiveTimeNs : delayed.receiveTimeNs.toInt = o.receiveTimeNs.toInt + constant

section Specification
variable {warmupSamples : ℕ} {maximumResidualNs : Int64} {observations delayed : List Observation}
  {clock : ExchangeClock} {constant : ℤ}

theorem validOffsets_ne_nil_of_last (h : ∃ o ∈ observations.getLast?, o.Valid) :
    validOffsets observations ≠ [] := by
  obtain ⟨o, ho, hvalid⟩ := h
  have hmem : o ∈ observations.filter fun o => o.Valid :=
    List.mem_filter.mpr ⟨List.mem_of_getLast? ho, decide_eq_true hvalid⟩
  exact List.ne_nil_of_mem (List.mem_map_of_mem hmem)

theorem Followed.specified (h : Followed warmupSamples maximumResidualNs observations clock) :
    Specified warmupSamples maximumResidualNs observations clock.state := by
  obtain ⟨_, _, ⟨hfresh, _, hleast, hage, hsamples⟩, hstable⟩ := h
  refine ⟨fun hnil => (hfresh hnil).2.1, hleast, fun hnil => (hfresh hnil).2.2, hage, ?_, ?_⟩
  · rcases hlast : (validOffsets observations).getLast? with _ | last
    · rw [(hfresh (List.getLast?_eq_none_iff.mp hlast)).2.2]
      exact Int64.le_refl 0
    · have hmem := List.mem_of_getLast? hlast
      have hle : clock.state.offsetNs.toInt ≤ last := (hleast (List.ne_nil_of_mem hmem)).2 hmem
      rw [Int64.le_iff_toInt_le, hage last hlast, Int64.toInt_zero]
      exact sub_nonneg.mpr hle
  · rw [hstable]
    refine and_congr_right fun hlast => and_congr_left fun _ => ?_
    have hcount := hsamples (validOffsets_ne_nil_of_last hlast)
    refine ⟨fun hle => ⟨_, hcount, hle⟩, ?_⟩
    rintro ⟨count, hother, hle⟩
    rwa [hcount.unique hother]

theorem resetsAt_map_add {residual : ℤ} {offsets : List ℤ} {k : ℕ} :
    ResetsAt residual (offsets.map (· + constant)) k ↔ ResetsAt residual offsets k := by
  simp [ResetsAt, ← List.map_take]

theorem sinceReset_map_add {residual : ℤ} {offsets : List ℤ} {count : ℕ} :
    SinceReset residual (offsets.map (· + constant)) count ↔ SinceReset residual offsets count := by
  simp only [SinceReset, resetsAt_map_add, List.length_map]

theorem DelayedBy.valid {o d : Observation} (h : DelayedBy constant o d) (hconstant : 0 ≤ constant)
    (hvalid : o.Valid) : d.Valid := by
  refine ⟨h.exchangeTimeNs ▸ hvalid.1, ?_⟩
  have hle := Int64.le_iff_toInt_le.mp hvalid.2
  rw [Int64.le_iff_toInt_le, h.exchangeTimeNs, h.receiveTimeNs]
  omega

theorem validOffsets_delayed (hconstant : 0 ≤ constant) (hvalid : ∀ o ∈ observations, o.Valid)
    (h : List.Forall₂ (DelayedBy constant) observations delayed) :
    validOffsets delayed = (validOffsets observations).map (· + constant) := by
  induction h with
  | nil => rfl
  | @cons o d observations delayed hod _ ih =>
    have ho := hvalid o (List.mem_cons_self ..)
    have hrest := ih fun other hother => hvalid other (List.mem_cons_of_mem _ hother)
    have hoffset : d.offset = o.offset + constant := by
      rw [Observation.offset, Observation.offset, hod.exchangeTimeNs, hod.receiveTimeNs]
      omega
    unfold validOffsets at hrest ⊢
    simp only [List.filter_cons, hod.valid hconstant ho, ho, decide_true, if_true, List.map_cons,
      hoffset, hrest]

theorem getLast?_valid (hvalid : ∀ o ∈ observations, o.Valid) (hne : observations ≠ []) :
    ∃ o ∈ observations.getLast?, o.Valid := by
  refine ⟨observations.getLast hne, List.getLast?_eq_some_getLast hne, hvalid _ ?_⟩
  exact List.getLast_mem hne

theorem DelayedBy.all_valid (hconstant : 0 ≤ constant) (hvalid : ∀ o ∈ observations, o.Valid)
    (h : List.Forall₂ (DelayedBy constant) observations delayed) : ∀ d ∈ delayed, d.Valid := by
  induction h with
  | nil => exact hvalid
  | @cons o d observations delayed hod _ ih =>
    intro e he
    rcases List.mem_cons.mp he with rfl | he
    · exact hod.valid hconstant (hvalid o (List.mem_cons_self ..))
    · exact ih (fun other hother => hvalid other (List.mem_cons_of_mem _ hother)) e he

end Specification

/-- Two states that differ in the offset only, and there by the constant. -/
structure Shifted (constant : ℤ) (state delayed : ExchangeClockState) : Prop where
  offsetNs : delayed.offsetNs.toInt = state.offsetNs.toInt + constant
  others : delayed = { state with offsetNs := delayed.offsetNs }

section Delays
variable {warmupSamples : ℕ} {maximumResidualNs : Int64} {observations delayed : List Observation}
  {clock late : ExchangeClock} {constant : ℤ}

theorem isLeast_map_add {offsets : List ℤ} {minimum least : ℤ}
    (h : IsLeast {d | d ∈ offsets} minimum)
    (h' : IsLeast {d | d ∈ offsets.map (· + constant)} least) : least = minimum + constant := by
  obtain ⟨d, hd, hleast⟩ := List.mem_map.mp h'.1
  have hbelow : least ≤ minimum + constant := h'.2 (List.mem_map.mpr ⟨_, h.1, rfl⟩)
  have habove : minimum ≤ d := h.2 hd
  exact le_antisymm hbelow (hleast ▸ Int.add_le_add_right habove constant)

theorem Followed.shifted
    (h : Followed warmupSamples maximumResidualNs observations clock)
    (h' : Followed warmupSamples maximumResidualNs delayed late) (hconstant : 0 ≤ constant)
    (hvalid : ∀ o ∈ observations, o.Valid) (hne : observations ≠ [])
    (hdelays : List.Forall₂ (DelayedBy constant) observations delayed) :
    Shifted constant clock.state late.state := by
  have hoffsets := validOffsets_delayed hconstant hvalid hdelays
  have hlast := getLast?_valid hvalid hne
  have hlate : ∃ d ∈ delayed.getLast?, d.Valid := by
    refine getLast?_valid (DelayedBy.all_valid hconstant hvalid hdelays) fun hnil => hne ?_
    exact List.eq_nil_of_length_eq_zero (by rw [hdelays.length_eq, hnil, List.length_nil])
  have hsome := validOffsets_ne_nil_of_last hlast
  have hsome' := validOffsets_ne_nil_of_last hlate
  have hleast' := h'.tracks.least hsome'
  rw [hoffsets] at hleast'
  have hoffset := isLeast_map_add (h.tracks.least hsome) hleast'
  have hage : late.state.adjustedAgeNs = clock.state.adjustedAgeNs := by
    obtain ⟨last, hgetLast⟩ := Option.ne_none_iff_exists'.mp
      (mt List.getLast?_eq_none_iff.mp hsome)
    have hgetLast' : (validOffsets delayed).getLast? = some (last + constant) := by
      rw [hoffsets, List.getLast?_map, hgetLast, Option.map_some]
    rw [← Int64.toInt_inj, h.tracks.age last hgetLast, h'.tracks.age _ hgetLast', hoffset]
    omega
  have hsamples : late.state.samples = clock.state.samples := by
    have hcount := h'.tracks.samples hsome'
    rw [hoffsets, sinceReset_map_add] at hcount
    exact hcount.unique (h.tracks.samples hsome)
  have hstable : late.state.stable = clock.state.stable := by
    rw [Bool.eq_iff_iff, h.stable, h'.stable, hage, hsamples]
    exact and_congr_left fun _ => iff_of_true hlate hlast
  refine ⟨hoffset, ?_⟩
  cases hstate : late.state with
  | mk offsetNs adjustedAgeNs samples stable =>
    rw [hstate] at hage hsamples hstable
    rw [← hage, ← hsamples, ← hstable]

end Delays

/-- The clock is what its stream of observations calls for, and a constant delay of all of them
shows in the offset only. -/
theorem run_specified (warmupSamples : ℕ) (hwarmup : 1 ≤ warmupSamples) (maximumResidualNs : Int64)
    (hresidual : 0 < maximumResidualNs) (observations : List Observation) :
    Specified warmupSamples maximumResidualNs observations
        (run warmupSamples maximumResidualNs observations).state ∧
      ∀ (constant : ℤ) (delayed : List Observation), 0 ≤ constant →
        (∀ o ∈ observations, o.Valid) → observations ≠ [] →
        List.Forall₂ (DelayedBy constant) observations delayed →
        Shifted constant (run warmupSamples maximumResidualNs observations).state
          (run warmupSamples maximumResidualNs delayed).state := by
  have hrun := followed_run hwarmup hresidual observations
  refine ⟨hrun.specified, fun constant delayed hconstant hvalid hne hdelays => ?_⟩
  exact hrun.shifted (followed_run hwarmup hresidual delayed) hconstant hvalid hne hdelays

/-- The second sample lowers the minimum by 400 and starts the warm-up again, the third is
stable, the fourth comes before its exchange time. -/
theorem run_specified_example :
    Specified 2 300 [⟨1000, 1900⟩, ⟨2000, 2500⟩, ⟨3000, 3600⟩, ⟨4000, 3999⟩]
      (run 2 300 [⟨1000, 1900⟩, ⟨2000, 2500⟩, ⟨3000, 3600⟩, ⟨4000, 3999⟩]).state ∧
    Shifted 50 (run 2 300 [⟨1000, 1900⟩, ⟨2000, 2500⟩, ⟨3000, 3600⟩]).state
      (run 2 300 [⟨1000, 1950⟩, ⟨2000, 2550⟩, ⟨3000, 3650⟩]).state := by
  have hspecified := run_specified 2 (by decide) 300 (by decide)
  refine ⟨(hspecified _).1, (hspecified _).2 50 _ (by decide) (by decide) (by decide) ?_⟩
  exact .cons ⟨rfl, rfl⟩ (.cons ⟨rfl, rfl⟩ (.cons ⟨rfl, rfl⟩ .nil))

end ExchangeClock
end Astra
