import Mathlib.Data.List.Basic
import Mathlib.Data.List.Nodup

/-! Command lines read against a table of named options. The options are tried in the order of the
table; one whose value does not fit hands that value on as a name to the options after it. -/

namespace Process

variable {τ σ : Type} [DecidableEq τ]

/-- An option by its name, with what a value makes of the settings if it fits. -/
structure Handler (τ σ : Type) where
  name : τ
  read : τ → Option (σ → σ)

/-- One turn: what is set, and the words left. -/
def dispatch : List (Handler τ σ) → List τ → Option ((σ → σ) × List τ)
  | handler :: handlers, name :: value :: rest =>
    if name = handler.name then
      match handler.read value with
      | some set => some (set, rest)
      | none => dispatch handlers (value :: rest)
    else dispatch handlers (name :: value :: rest)
  | _, _ => none

/-- The loop, which needs no more turns than there are words. -/
def readTurns (handlers : List (Handler τ σ)) : ℕ → List τ → σ → Option σ
  | _, [], settings => some settings
  | 0, _ :: _, _ => none
  | turns + 1, name :: rest, settings => do
    let (set, left) ← dispatch handlers (name :: rest)
    readTurns handlers turns left (set settings)

def readWords (handlers : List (Handler τ σ)) (words : List τ) (settings : σ) : Option σ :=
  readTurns handlers words.length words settings

/-- What one turn takes off a command line: names that are passed over, then an option. -/
structure Setting (τ : Type) where
  passed : List τ
  name : τ
  value : τ

def Setting.words (setting : Setting τ) : List τ := setting.passed ++ [setting.name, setting.value]

/-- The options of a table are of two kinds: some fit every value, the others fit no name. -/
structure Kinds (handlers : List (Handler τ σ)) (strict : τ → Prop) : Prop where
  nodup : (handlers.map (·.name)).Nodup
  refuses : ∀ handler ∈ handlers, strict handler.name →
    ∀ other ∈ handlers, handler.read other.name = none
  takes : ∀ handler ∈ handlers, ¬ strict handler.name → ∀ value, (handler.read value).isSome = true

/-- The option with the name of the setting, at its value. -/
def Setting.read (setting : Setting τ) (handlers : List (Handler τ σ)) : Option (σ → σ) :=
  (handlers.find? fun handler => handler.name = setting.name).bind fun handler =>
    handler.read setting.value

/-- Only strict options are passed over, and only in the order of the table. -/
structure Setting.Fits (setting : Setting τ) (handlers : List (Handler τ σ)) (strict : τ → Prop) :
    Prop where
  ordered : (setting.passed ++ [setting.name]).Sublist (handlers.map (·.name))
  strict : ∀ name ∈ setting.passed, strict name
  read : (setting.read handlers).isSome = true

section Turn
variable {handlers : List (Handler τ σ)} {handler : Handler τ σ} {strict : τ → Prop}
  {words left : List τ} {set : σ → σ} {setting : Setting τ}

omit [DecidableEq τ] in
theorem Kinds.tail (h : Kinds (handler :: handlers) strict) : Kinds handlers strict where
  nodup := (List.nodup_cons.mp h.nodup).2
  refuses other hother hstrict next hnext := h.refuses other (List.mem_cons_of_mem _ hother) hstrict
    next (List.mem_cons_of_mem _ hnext)
  takes other hother := h.takes other (List.mem_cons_of_mem _ hother)

theorem Setting.read_cons_of_ne (h : handler.name ≠ setting.name) :
    setting.read (handler :: handlers) = setting.read handlers := by
  rw [Setting.read, List.find?_cons_of_neg (by simpa using h), Setting.read]

theorem Setting.read_cons_of_eq (h : handler.name = setting.name) :
    setting.read (handler :: handlers) = handler.read setting.value := by
  rw [Setting.read, List.find?_cons_of_pos (by simpa using h), Option.bind_some]

theorem Setting.read_of_mem (h : Kinds handlers strict) (hmem : handler ∈ handlers)
    (hname : handler.name = setting.name) : setting.read handlers = handler.read setting.value := by
  induction handlers with
  | nil => exact absurd hmem (by simp)
  | cons first handlers ih =>
    rcases List.mem_cons.mp hmem with rfl | hrest
    · exact Setting.read_cons_of_eq hname
    · have hne : first.name ≠ setting.name := by
        intro hfirst
        have hmem : handler.name ∈ handlers.map (·.name) := List.mem_map_of_mem hrest
        rw [hname, ← hfirst] at hmem
        exact (List.nodup_cons.mp h.nodup).1 hmem
      rw [Setting.read_cons_of_ne hne]
      exact ih h.tail hrest

theorem Setting.Fits.mem (h : setting.Fits handlers strict) :
    setting.name ∈ handlers.map (·.name) :=
  h.ordered.subset (List.mem_append_right _ (List.mem_singleton_self _))

omit [DecidableEq τ] in
theorem Kinds.ne_of_mem_tail (h : Kinds (handler :: handlers) strict)
    (hmem : setting.name ∈ handlers.map (·.name)) : handler.name ≠ setting.name := by
  intro he
  rw [← he] at hmem
  exact (List.nodup_cons.mp h.nodup).1 hmem

/-- Behind a name that is passed over stands another name. -/
theorem Setting.Fits.next {passed : List τ} {p : τ}
    (h : setting.Fits handlers strict) (hpassed : setting.passed = p :: passed) :
    ∃ next rest, ({ setting with passed } : Setting τ).words = next :: rest ∧
      ∃ other ∈ handlers, other.name = next := by
  have hmem : ∀ name ∈ passed ++ [setting.name], ∃ other ∈ handlers, other.name = name := by
    intro name hname
    refine List.mem_map.mp (h.ordered.subset ?_)
    rw [hpassed]
    exact List.mem_cons_of_mem _ hname
  cases passed with
  | nil => exact ⟨_, _, rfl, hmem setting.name (by simp)⟩
  | cons next passed => exact ⟨_, _, rfl, hmem next (by simp)⟩

omit [DecidableEq τ] in
theorem Setting.head_words (setting : Setting τ) :
    ∃ name rest, setting.passed ++ [setting.name] = name :: rest ∧
      setting.words = name :: (rest ++ [setting.value]) := by
  obtain ⟨passed, name, value⟩ := setting
  cases passed with
  | nil => exact ⟨name, [], rfl, rfl⟩
  | cons p passed => exact ⟨p, passed ++ [name], rfl, by simp [words]⟩

theorem Setting.Fits.tail (h : Kinds (handler :: handlers) strict)
    (hfits : setting.Fits (handler :: handlers) strict) {name : τ} {rest : List τ}
    (hwords : setting.passed ++ [setting.name] = name :: rest) (hne : name ≠ handler.name) :
    setting.Fits handlers strict := by
  have hordered : (setting.passed ++ [setting.name]).Sublist (handlers.map (·.name)) := by
    have hall := hfits.ordered
    rw [hwords] at hall ⊢
    cases hall with
    | cons _ hrest => exact hrest
    | cons_cons => exact absurd rfl hne
  have hmem : setting.name ∈ handlers.map (·.name) := hordered.subset (by simp)
  exact ⟨hordered, hfits.strict, Setting.read_cons_of_ne (h.ne_of_mem_tail hmem) ▸ hfits.read⟩

theorem Setting.Fits.after (h : Kinds (handler :: handlers) strict) {passed : List τ}
    (hfits : setting.Fits (handler :: handlers) strict)
    (hpassed : setting.passed = handler.name :: passed) :
    ({ setting with passed } : Setting τ).Fits handlers strict := by
  have hordered : (passed ++ [setting.name]).Sublist (handlers.map (·.name)) := by
    have hall := hfits.ordered
    rw [hpassed, List.map_cons] at hall
    exact List.cons_sublist_cons.mp hall
  have hmem : setting.name ∈ handlers.map (·.name) := hordered.subset (by simp)
  refine ⟨hordered, fun name hname => hfits.strict name ?_, ?_⟩
  · rw [hpassed]
    exact List.mem_cons_of_mem _ hname
  · have hread := hfits.read
    rwa [Setting.read_cons_of_ne (h.ne_of_mem_tail hmem)] at hread

theorem dispatch_of_ne {name : τ} {rest : List τ} (h : name ≠ handler.name) :
    dispatch (handler :: handlers) (name :: rest) = dispatch handlers (name :: rest) := by
  cases rest with
  | nil => cases handlers <;> rfl
  | cons value rest => rw [dispatch, if_neg h]

theorem dispatch_words (h : Kinds handlers strict) (hfits : setting.Fits handlers strict)
    (left : List τ) :
    ∃ set, setting.read handlers = some set ∧
      dispatch handlers (setting.words ++ left) = some (set, left) := by
  induction handlers generalizing setting with
  | nil => exact absurd hfits.mem (by simp)
  | cons handler handlers ih =>
    obtain ⟨first, rest, hnames, hwords⟩ := setting.head_words
    by_cases hfirst : first = handler.name
    · subst hfirst
      obtain ⟨passed, name, value⟩ := setting
      cases passed with
      | nil =>
        obtain ⟨rfl, rfl⟩ := List.cons.inj hnames
        have hread : Setting.read ⟨[], handler.name, value⟩ (handler :: handlers) =
          handler.read value := Setting.read_cons_of_eq rfl
        obtain ⟨set, hset⟩ := Option.isSome_iff_exists.mp hfits.read
        refine ⟨set, hset, ?_⟩
        simp [Setting.words, dispatch, hread.symm.trans hset]
      | cons p passed =>
        obtain rfl : p = handler.name := (List.cons.inj hnames).1
        -- its value is the name behind it, which a strict option refuses
        have hrest := hfits.after h rfl
        obtain ⟨set, hset, hturn⟩ := ih h.tail hrest
        refine ⟨set, (Setting.read_cons_of_ne (h.ne_of_mem_tail hrest.mem)).trans hset, ?_⟩
        obtain ⟨next, rest', hnext, other, hother, hname⟩ := hfits.next rfl
        have hrefused : handler.read next = none := by
          rw [← hname]
          exact h.refuses handler (List.mem_cons_self ..) (hfits.strict _ (by simp)) other hother
        have hshape : (⟨handler.name :: passed, name, value⟩ : Setting τ).words ++ left =
            handler.name :: next :: (rest' ++ left) := by
          rw [← List.cons_append, ← List.cons_append, ← hnext]
          rfl
        rw [hshape, dispatch, if_pos rfl, hrefused]
        rw [hnext] at hturn
        exact hturn
    · have hrest := hfits.tail h hnames hfirst
      obtain ⟨set, hset, hturn⟩ := ih h.tail hrest
      refine ⟨set, (Setting.read_cons_of_ne (h.ne_of_mem_tail hrest.mem)).trans hset, ?_⟩
      rw [hwords, List.cons_append] at hturn ⊢
      exact (dispatch_of_ne hfirst).trans hturn

theorem words_of_dispatch (h : Kinds handlers strict)
    (hturn : dispatch handlers words = some (set, left)) :
    ∃ setting : Setting τ, setting.Fits handlers strict ∧ setting.read handlers = some set ∧
      words = setting.words ++ left := by
  induction handlers generalizing words with
  | nil => simp [dispatch] at hturn
  | cons handler handlers ih =>
    match words with
    | [] => simp [dispatch] at hturn
    | [name] => simp [dispatch] at hturn
    | name :: value :: rest =>
      rw [dispatch] at hturn
      by_cases hname : name = handler.name
      · rw [if_pos hname] at hturn
        subst hname
        cases hread : handler.read value with
        | some found =>
          rw [hread] at hturn
          obtain ⟨rfl, rfl⟩ := Prod.mk.inj (Option.some.inj hturn)
          have hsetting : Setting.read ⟨[], handler.name, value⟩ (handler :: handlers) =
            handler.read value := Setting.read_cons_of_eq rfl
          refine ⟨⟨[], handler.name, value⟩, ⟨by simp, by simp, ?_⟩, hsetting.trans hread, rfl⟩
          rw [hsetting, hread]
          rfl
        | none =>
          rw [hread] at hturn
          obtain ⟨setting, hfits, hset, hwords⟩ := ih h.tail hturn
          have hlater := (Setting.read_cons_of_ne (h.ne_of_mem_tail hfits.mem)).trans hset
          refine ⟨⟨handler.name :: setting.passed, setting.name, setting.value⟩, ⟨?_, ?_, ?_⟩,
            hlater, ?_⟩
          · exact hfits.ordered.cons_cons _
          · refine List.forall_mem_cons.mpr ⟨?_, hfits.strict⟩
            by_contra hfree
            have hsome := h.takes handler (List.mem_cons_self ..) hfree value
            rw [hread] at hsome
            exact absurd hsome (by simp)
          · exact Option.isSome_iff_exists.mpr ⟨_, hlater⟩
          · rw [hwords]
            rfl
      · rw [if_neg hname] at hturn
        obtain ⟨setting, hfits, hset, hwords⟩ := ih h.tail hturn
        have hlater := (Setting.read_cons_of_ne (h.ne_of_mem_tail hfits.mem)).trans hset
        exact ⟨setting, ⟨hfits.ordered.cons _, hfits.strict,
          Option.isSome_iff_exists.mpr ⟨_, hlater⟩⟩, hlater, hwords⟩

end Turn

/-- What a setting that fits does. -/
def Setting.apply (setting : Setting τ) (handlers : List (Handler τ σ)) (settings : σ) : σ :=
  ((setting.read handlers).getD id) settings

section Loop
variable {handlers : List (Handler τ σ)} {strict : τ → Prop} {settings result : σ}

omit [DecidableEq τ] in
theorem Setting.two_le_length (setting : Setting τ) : 2 ≤ setting.words.length := by
  simp [Setting.words]

/-- Every command line made of settings that fit is read, each setting over the ones before. -/
theorem readTurns_flatMap (h : Kinds handlers strict) {line : List (Setting τ)}
    (hfits : ∀ setting ∈ line, setting.Fits handlers strict) {turns : ℕ}
    (hturns : line.length ≤ turns) (settings : σ) :
    readTurns handlers turns (line.flatMap Setting.words) settings =
      some (line.foldl (fun settings setting => setting.apply handlers settings) settings) := by
  induction line generalizing turns settings with
  | nil => cases turns <;> rfl
  | cons setting line ih =>
    obtain ⟨turns, rfl⟩ := Nat.exists_eq_add_of_le' hturns
    obtain ⟨set, hset, hturn⟩ := dispatch_words h (hfits setting (List.mem_cons_self ..))
      (line.flatMap Setting.words)
    obtain ⟨first, rest, _, hwords⟩ := setting.head_words
    have hmore : readTurns handlers (turns + line.length) (line.flatMap Setting.words)
        (set settings) = some _ :=
      ih (fun other hother => hfits other (List.mem_cons_of_mem _ hother)) (by omega) _
    have happly : setting.apply handlers settings = set settings := by
      rw [Setting.apply, hset, Option.getD_some]
    rw [List.flatMap_cons, List.foldl_cons, happly, ← hmore]
    rw [hwords] at hturn ⊢
    rw [List.length_cons, ← Nat.add_assoc, List.cons_append, readTurns]
    rw [List.cons_append] at hturn
    rw [hturn]
    rfl

/-- And nothing else is read. -/
theorem flatMap_of_readTurns (h : Kinds handlers strict) {turns : ℕ} {words : List τ}
    (hread : readTurns handlers turns words settings = some result) :
    ∃ line : List (Setting τ), (∀ setting ∈ line, setting.Fits handlers strict) ∧
      words = line.flatMap Setting.words ∧
      result = line.foldl (fun settings setting => setting.apply handlers settings) settings := by
  induction turns generalizing words settings with
  | zero =>
    cases words with
    | nil => exact ⟨[], by simp, rfl, (Option.some.inj hread).symm⟩
    | cons word words => exact absurd hread (by simp [readTurns])
  | succ turns ih =>
    cases words with
    | nil => exact ⟨[], by simp, rfl, (Option.some.inj hread).symm⟩
    | cons word words =>
      rw [readTurns] at hread
      obtain ⟨⟨set, left⟩, hturn, hmore⟩ := Option.bind_eq_some_iff.mp hread
      obtain ⟨setting, hfits, hset, hwords⟩ := words_of_dispatch h hturn
      obtain ⟨line, hline, rfl, rfl⟩ := ih hmore
      refine ⟨setting :: line, List.forall_mem_cons.mpr ⟨hfits, hline⟩, hwords, ?_⟩
      rw [List.foldl_cons, Setting.apply, hset, Option.getD_some]

theorem readWords_eq_some_iff (h : Kinds handlers strict) {words : List τ} :
    readWords handlers words settings = some result ↔
      ∃ line : List (Setting τ), (∀ setting ∈ line, setting.Fits handlers strict) ∧
        words = line.flatMap Setting.words ∧
        result = line.foldl (fun settings setting => setting.apply handlers settings) settings := by
  constructor
  · exact flatMap_of_readTurns h
  · rintro ⟨line, hfits, rfl, rfl⟩
    refine readTurns_flatMap h hfits ?_ settings
    clear hfits
    induction line with
    | nil => exact Nat.zero_le _
    | cons setting line ih =>
      have hlength := setting.two_le_length
      rw [List.flatMap_cons, List.length_append, List.length_cons]
      omega

theorem readWords_flatMap (h : Kinds handlers strict) {line : List (τ × τ)}
    (hread : ∀ entry ∈ line, ((⟨[], entry.1, entry.2⟩ : Setting τ).read handlers).isSome = true) :
    readWords handlers (line.flatMap fun entry => [entry.1, entry.2]) settings =
      some (line.foldl (fun settings entry =>
        (⟨[], entry.1, entry.2⟩ : Setting τ).apply handlers settings) settings) := by
  refine (readWords_eq_some_iff h).mpr ⟨line.map fun entry => ⟨[], entry.1, entry.2⟩, ?_, ?_, ?_⟩
  · refine List.forall_mem_map.mpr fun entry hentry => ⟨?_, by simp, hread entry hentry⟩
    obtain ⟨set, hset⟩ := Option.isSome_iff_exists.mp (hread entry hentry)
    obtain ⟨handler, hfind, _⟩ := Option.bind_eq_some_iff.mp hset
    have hname : handler.name = entry.1 := by simpa using List.find?_some hfind
    rw [List.nil_append, ← hname]
    exact List.singleton_sublist.mpr (List.mem_map_of_mem (List.mem_of_find?_eq_some hfind))
  · rw [List.flatMap_map]
    rfl
  · rw [List.foldl_map]

end Loop
end Process
