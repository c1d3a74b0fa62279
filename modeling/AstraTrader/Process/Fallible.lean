import Mathlib.Data.List.Nodup

/-! Steps that may fail: what a sequence of them has done when it succeeds, and what a sequence of
assignments leaves behind when one of its reads fails. -/

namespace Process

variable {ε α β φ σ : Type}

theorem bind_eq_ok_iff {action : Except ε α} {next : α → Except ε β} {value : β} :
    (action >>= next) = .ok value ↔ ∃ a, action = .ok a ∧ next a = .ok value := by
  cases action <;> simp [bind, Except.bind]

theorem map_eq_ok_iff {f : α → β} {action : Except ε α} {value : β} :
    action.map f = .ok value ↔ ∃ a, action = .ok a ∧ f a = value := by
  cases action <;> simp [Except.map]

theorem except_map_injective {f : α → β} (hf : Function.Injective f) :
    Function.Injective fun action : Except ε α => f <$> action := by
  rintro (error | a) (error' | a') h
  · exact congrArg Except.error (Except.error.inj h)
  · cases h
  · cases h
  · exact congrArg Except.ok (hf (Except.ok.inj h))

/-- Assigns to one field after another what `read` gives for it, up to the first failure. -/
def assignAll (read : φ → Except ε α) (set : φ → α → σ → σ) : List φ → σ → Except ε Unit × σ
  | [], s => (.ok (), s)
  | field :: fields, s =>
    match read field with
    | .error e => (.error e, s)
    | .ok a => assignAll read set fields (set field a s)

/-- The fields are independent parts of the state, and all of it. -/
structure Cells (get : φ → σ → α) (set : φ → α → σ → σ) : Prop where
  get_set_self : ∀ field a s, get field (set field a s) = a
  get_set_ne : ∀ field other a s, field ≠ other → get field (set other a s) = get field s
  ext : ∀ s t, (∀ field, get field s = get field t) → s = t

/-- A read fails after another has brought something new. -/
def Tears (read : φ → Except ε α) (get : φ → σ → α) (fields : List φ) (s : σ) : Prop :=
  ∃ before field after e, fields = before ++ field :: after ∧ read field = .error e ∧
    (∀ other ∈ before, ∃ a, read other = .ok a) ∧ ∃ other ∈ before, read other ≠ .ok (get other s)

section Assignments
variable {read : φ → Except ε α} {get : φ → σ → α} {set : φ → α → σ → σ} {fields : List φ} {s : σ}

theorem assignAll_cons_ok {field : φ} {a : α} (h : read field = .ok a) :
    assignAll read set (field :: fields) s = assignAll read set fields (set field a s) := by
  rw [assignAll, h]

theorem assignAll_cons_error {field : φ} {e : ε} (h : read field = .error e) :
    assignAll read set (field :: fields) s = (.error e, s) := by
  rw [assignAll, h]

theorem assignAll_of_ok (hcells : Cells get set) (hnodup : fields.Nodup)
    (h : (assignAll read set fields s).1 = .ok ()) :
    (∀ field ∈ fields, read field = .ok (get field (assignAll read set fields s).2)) ∧
      ∀ field, field ∉ fields →
        get field (assignAll read set fields s).2 = get field s := by
  induction fields generalizing s with
  | nil => simp [assignAll]
  | cons field fields ih =>
    obtain ⟨hfresh, hrest⟩ := List.nodup_cons.mp hnodup
    cases hread : read field with
    | error e =>
      rw [assignAll_cons_error hread] at h
      exact absurd h (by simp)
    | ok a =>
      rw [assignAll_cons_ok hread] at h ⊢
      obtain ⟨hread', hother⟩ := ih hrest h
      refine ⟨fun f hf => ?_, fun f hf => ?_⟩
      · rcases List.mem_cons.mp hf with rfl | hf
        · rw [hother f hfresh, hcells.get_set_self, hread]
        · exact hread' f hf
      · rw [List.mem_cons, not_or] at hf
        rw [hother f hf.2, hcells.get_set_ne _ _ _ _ hf.1]

theorem assignAll_append {before after : List φ}
    (h : (assignAll read set before s).1 = .ok ()) : assignAll read set (before ++ after) s =
      assignAll read set after (assignAll read set before s).2 := by
  induction before generalizing s with
  | nil => rfl
  | cons field fields ih =>
    cases hread : read field with
    | error e =>
      rw [assignAll_cons_error hread] at h
      exact absurd h (by simp)
    | ok a =>
      rw [assignAll_cons_ok hread] at h
      rw [List.cons_append, assignAll_cons_ok hread, assignAll_cons_ok hread]
      exact ih h

theorem assignAll_eq_error {e : ε} (h : (assignAll read set fields s).1 = .error e) :
    ∃ before field after, fields = before ++ field :: after ∧ read field = .error e ∧
      (assignAll read set before s).1 = .ok () ∧
      (assignAll read set fields s).2 = (assignAll read set before s).2 := by
  induction fields generalizing s with
  | nil => exact absurd h (by simp [assignAll])
  | cons field fields ih =>
    cases hread : read field with
    | error e' =>
      rw [assignAll_cons_error hread] at h
      obtain rfl := Except.error.inj h
      exact ⟨[], field, fields, rfl, hread, rfl, by rw [assignAll_cons_error hread]; rfl⟩
    | ok a =>
      rw [assignAll_cons_ok hread] at h
      obtain ⟨before, failed, after, hfields, hfailed, hok, hstate⟩ := ih h
      refine ⟨field :: before, failed, after, by rw [hfields, List.cons_append], hfailed, ?_, ?_⟩
      · rwa [assignAll_cons_ok hread]
      · rwa [assignAll_cons_ok hread, assignAll_cons_ok hread]

theorem assignAll_of_reads {before : List φ} (h : ∀ field ∈ before, ∃ a, read field = .ok a) :
    (assignAll read set before s).1 = .ok () := by
  cases hresult : (assignAll read set before s).1 with
  | ok u => rfl
  | error e =>
    obtain ⟨first, field, after, rfl, hfailed, _⟩ := assignAll_eq_error hresult
    obtain ⟨a, ha⟩ := h field (by simp)
    rw [ha] at hfailed
    exact absurd hfailed (by simp)

theorem assignAll_intact_iff (hcells : Cells get set) (hnodup : fields.Nodup) :
    (∀ e, (assignAll read set fields s).1 = .error e → (assignAll read set fields s).2 = s) ↔
      ¬ Tears read get fields s := by
  constructor
  · rintro hintact ⟨before, field, after, e, rfl, hfailed, hreads, other, hother, hnew⟩
    have hok := @assignAll_of_reads _ _ _ _ _ set s _ hreads
    have happend := @assignAll_append _ _ _ _ read set s before (field :: after) hok
    rw [assignAll_cons_error hfailed] at happend
    rw [happend] at hintact
    have hassigned := (assignAll_of_ok hcells (List.nodup_append.mp hnodup).1 hok).1 other hother
    rw [hintact e rfl] at hassigned
    exact hnew hassigned
  · intro htears e herror
    obtain ⟨before, field, after, rfl, hfailed, hok, hstate⟩ := assignAll_eq_error herror
    obtain ⟨hassigned, hkept⟩ := assignAll_of_ok hcells (List.nodup_append.mp hnodup).1 hok
    rw [hstate]
    refine hcells.ext _ _ fun other => ?_
    by_cases hother : other ∈ before
    · by_contra hnew
      refine htears ⟨before, field, after, e, rfl, hfailed, fun f hf => ⟨_, hassigned f hf⟩, other,
        hother, fun hread => hnew ?_⟩
      exact Except.ok.inj ((hassigned other hother).symm.trans hread)
    · exact hkept other hother

end Assignments
end Process
