import Mathlib.Data.List.Forall2
import Mathlib.Data.List.Induction
import Mathlib.Algebra.BigOperators.Group.List.Basic
import Mathlib.Order.Bounds.Basic

/-! Streams cut into groups of one key by an accumulator that is flushed when the key changes and
at the end. What the accumulator keeps of a group is stated by a relation between the group and its
summary, and two such stages in a row are one. -/

namespace Process

variable {κ ι α β γ : Type}

/-- How a group begins and grows, and the key that its summary remembers. -/
structure Grouper (κ α β : Type) where
  key : α → κ
  keyOf : β → κ
  start : α → β
  extend : β → α → β
  keyOf_start : ∀ a, keyOf (start a) = key a
  keyOf_extend : ∀ b a, keyOf (extend b a) = keyOf b

/-- `as` is cut into chunks with the summaries `bs`, each chunk of one key. -/
def Chunked (key : α → κ) (keyOf : β → κ) (S : List α → β → Prop) (as : List α) (bs : List β) :
    Prop :=
  ∃ chunks : List (List α), chunks.flatten = as ∧
    List.Forall₂ (fun chunk b => chunk ≠ [] ∧ (∀ a ∈ chunk, key a = keyOf b) ∧ S chunk b) chunks bs

section Chunks
variable {key : α → κ} {keyOf : β → κ} {S : List α → β → Prop} {as : List α} {bs : List β} {b : β}
  {a : α}

theorem chunked_nil : Chunked key keyOf S [] [] := ⟨[], rfl, .nil⟩

theorem Chunked.cons {chunk : List α} (h : Chunked key keyOf S as bs) (hne : chunk ≠ [])
    (hkey : ∀ a ∈ chunk, key a = keyOf b) (hS : S chunk b) :
    Chunked key keyOf S (chunk ++ as) (b :: bs) := by
  obtain ⟨chunks, rfl, hchunks⟩ := h
  exact ⟨chunk :: chunks, rfl, .cons ⟨hne, hkey, hS⟩ hchunks⟩

theorem chunked_cons_iff : Chunked key keyOf S as (b :: bs) ↔ ∃ chunk rest, as = chunk ++ rest ∧
    chunk ≠ [] ∧ (∀ a ∈ chunk, key a = keyOf b) ∧ S chunk b ∧ Chunked key keyOf S rest bs := by
  constructor
  · rintro ⟨chunks, rfl, hchunks⟩
    obtain ⟨chunk, rest, ⟨hne, hkey, hS⟩, hrest, rfl⟩ := List.forall₂_cons_right_iff.mp hchunks
    exact ⟨chunk, rest.flatten, rfl, hne, hkey, hS, rest, rfl, hrest⟩
  · rintro ⟨chunk, rest, rfl, hne, hkey, hS, hrest⟩
    exact hrest.cons hne hkey hS

theorem chunked_nil_iff : Chunked key keyOf S as [] ↔ as = [] := by
  constructor
  · rintro ⟨chunks, rfl, hchunks⟩
    rw [List.forall₂_nil_right_iff.mp hchunks]
    rfl
  · rintro rfl
    exact chunked_nil

theorem Chunked.append {as' : List α} {bs' : List β} (h : Chunked key keyOf S as bs)
    (h' : Chunked key keyOf S as' bs') : Chunked key keyOf S (as ++ as') (bs ++ bs') := by
  induction bs generalizing as with
  | nil =>
    rw [chunked_nil_iff.mp h]
    exact h'
  | cons b bs ih =>
    obtain ⟨chunk, rest, rfl, hne, hkey, hS, hrest⟩ := chunked_cons_iff.mp h
    rw [List.append_assoc]
    exact (ih hrest).cons hne hkey hS

theorem chunked_singleton (hkey : key a = keyOf b) (hS : S [a] b) :
    Chunked key keyOf S [a] [b] := by
  refine chunked_cons_iff.mpr ⟨[a], [], rfl, List.cons_ne_nil _ _, ?_, hS, chunked_nil⟩
  simpa using hkey

theorem Chunked.extend {b' : β} (h : Chunked key keyOf S as (bs ++ [b])) (hkey : key a = keyOf b')
    (hsame : keyOf b' = keyOf b) (hS : ∀ chunk, S chunk b → S (chunk ++ [a]) b') :
    Chunked key keyOf S (as ++ [a]) (bs ++ [b']) := by
  induction bs generalizing as with
  | nil =>
    obtain ⟨chunk, rest, rfl, hne, hchunk, hsummary, hrest⟩ := chunked_cons_iff.mp h
    obtain rfl := chunked_nil_iff.mp hrest
    rw [List.append_nil]
    refine chunked_cons_iff.mpr ⟨chunk ++ [a], [], (List.append_nil _).symm, by simp,
      fun c hc => ?_, hS chunk hsummary, chunked_nil⟩
    rcases List.mem_append.mp hc with hc | hc
    · rw [hchunk c hc, hsame]
    · rw [List.mem_singleton.mp hc, hkey]
  | cons first bs ih =>
    obtain ⟨chunk, rest, rfl, hne, hchunk, hsummary, hrest⟩ := chunked_cons_iff.mp h
    rw [List.append_assoc]
    exact (ih hrest).cons hne hchunk hsummary

theorem Chunked.exists_key (h : Chunked key keyOf S as bs) {a : α} (ha : a ∈ as) :
    ∃ b ∈ bs, keyOf b = key a := by
  induction bs generalizing as with
  | nil =>
    rw [chunked_nil_iff.mp h] at ha
    exact absurd ha (List.not_mem_nil)
  | cons b bs ih =>
    obtain ⟨chunk, rest, rfl, _, hchunk, _, hrest⟩ := chunked_cons_iff.mp h
    rcases List.mem_append.mp ha with ha | ha
    · exact ⟨b, List.mem_cons_self .., (hchunk a ha).symm⟩
    · obtain ⟨other, hother, hkey⟩ := ih hrest ha
      exact ⟨other, List.mem_cons_of_mem _ hother, hkey⟩

theorem Chunked.filter [DecidableEq κ] (h : Chunked key keyOf S as bs)
    (hdistinct : (bs.map keyOf).Nodup) (hb : b ∈ bs) :
    as.filter (fun a => key a = keyOf b) ≠ [] ∧ S (as.filter fun a => key a = keyOf b) b := by
  induction bs generalizing as with
  | nil => exact absurd hb (List.not_mem_nil)
  | cons first bs ih =>
    obtain ⟨chunk, rest, rfl, hne, hchunk, hS, hrest⟩ := chunked_cons_iff.mp h
    rw [List.map_cons, List.nodup_cons] at hdistinct
    rw [List.filter_append]
    rcases List.mem_cons.mp hb with rfl | hb
    · have hall : chunk.filter (fun a => key a = keyOf b) = chunk :=
        List.filter_eq_self.mpr fun a ha => decide_eq_true (hchunk a ha)
      have hnone : rest.filter (fun a => key a = keyOf b) = [] := by
        refine List.filter_eq_nil_iff.mpr fun a ha hkey => hdistinct.1 ?_
        obtain ⟨other, hother, hsame⟩ := hrest.exists_key ha
        exact List.mem_map.mpr ⟨other, hother, hsame.trans (of_decide_eq_true hkey)⟩
      rw [hall, hnone, List.append_nil]
      exact ⟨hne, hS⟩
    · have hnone : chunk.filter (fun a => key a = keyOf b) = [] := by
        refine List.filter_eq_nil_iff.mpr fun a ha hkey => hdistinct.1 ?_
        rw [← hchunk a ha, of_decide_eq_true hkey]
        exact List.mem_map_of_mem hb
      rw [hnone, List.nil_append]
      exact ih hrest hdistinct.2 hb

theorem Chunked.split {bs' : List β} (h : Chunked key keyOf S as (bs ++ bs')) :
    ∃ first last, as = first ++ last ∧ Chunked key keyOf S first bs ∧
      Chunked key keyOf S last bs' := by
  induction bs generalizing as with
  | nil => exact ⟨[], as, rfl, chunked_nil, h⟩
  | cons b bs ih =>
    obtain ⟨chunk, rest, rfl, hne, hkey, hS, hrest⟩ := chunked_cons_iff.mp h
    obtain ⟨first, last, rfl, hfirst, hlast⟩ := ih hrest
    exact ⟨chunk ++ first, last, (List.append_assoc ..).symm, hfirst.cons hne hkey hS, hlast⟩

theorem Chunked.forall_mem {P : α → Prop} (h : Chunked key keyOf S as bs)
    (hP : ∀ a, ∀ b ∈ bs, key a = keyOf b → P a) : ∀ a ∈ as, P a := by
  intro a ha
  obtain ⟨b, hb, hkey⟩ := h.exists_key ha
  exact hP a b hb hkey.symm

/-- Groups of groups are groups of the elements, by the coarser key. -/
theorem Chunked.trans {key' : β → ι} {keyOf' : γ → ι} {S' : List β → γ → Prop} {cs : List γ}
    (h : Chunked key keyOf S as bs) (h' : Chunked key' keyOf' S' bs cs) {coarse : α → ι}
    {T : List α → γ → Prop} (hkey : ∀ a b, key a = keyOf b → coarse a = key' b)
    (hT : ∀ chunks group c, List.Forall₂ (fun chunk b => chunk ≠ [] ∧ S chunk b) chunks group →
      S' group c → T chunks.flatten c) : Chunked coarse keyOf' T as cs := by
  induction cs generalizing as bs with
  | nil =>
    rw [chunked_nil_iff.mp h', chunked_nil_iff] at h
    exact chunked_nil_iff.mpr h
  | cons c cs ih =>
    obtain ⟨group, others, rfl, hne, hgroup, hS', hothers⟩ := chunked_cons_iff.mp h'
    obtain ⟨first, last, rfl, hfirst, hlast⟩ := h.split
    refine (ih hlast hothers).cons (fun hnil => ?_) (hfirst.forall_mem fun a b hb hsame => ?_) ?_
    · obtain ⟨b, rest, rfl⟩ := List.exists_cons_of_ne_nil hne
      obtain ⟨chunk, _, hsplit, hchunk, _⟩ := chunked_cons_iff.mp hfirst
      rw [hnil] at hsplit
      exact hchunk (List.append_eq_nil_iff.mp hsplit.symm).1
    · rw [hkey a b hsame, hgroup b hb]
    · obtain ⟨chunks, rfl, hchunks⟩ := hfirst
      exact hT chunks group c (hchunks.imp fun _ _ hchunk => ⟨hchunk.1, hchunk.2.2⟩) hS'

end Chunks

/-! Figures of a stream from those of its chunks. -/

section Figures
variable {R : List α → β → Prop} {chunks : List (List α)} {bs : List β} {f : α → ι} {g : β → ι}

theorem exists_of_forall₂ (h : List.Forall₂ R chunks bs) {chunk : List α} (hc : chunk ∈ chunks) :
    ∃ b ∈ bs, R chunk b := by
  induction h with
  | nil => exact absurd hc (List.not_mem_nil)
  | @cons first b rest bs hR _ ih =>
    rcases List.mem_cons.mp hc with rfl | hc
    · exact ⟨b, List.mem_cons_self .., hR⟩
    · obtain ⟨other, hother, hR'⟩ := ih hc
      exact ⟨other, List.mem_cons_of_mem _ hother, hR'⟩

theorem exists_of_forall₂_right (h : List.Forall₂ R chunks bs) {b : β} (hb : b ∈ bs) :
    ∃ chunk ∈ chunks, R chunk b := by
  induction h with
  | nil => exact absurd hb (List.not_mem_nil)
  | @cons chunk first rest bs hR _ ih =>
    rcases List.mem_cons.mp hb with rfl | hb
    · exact ⟨chunk, List.mem_cons_self .., hR⟩
    · obtain ⟨other, hother, hR'⟩ := ih hb
      exact ⟨other, List.mem_cons_of_mem _ hother, hR'⟩

theorem sum_flatten_of_forall₂ [AddMonoid ι]
    (h : List.Forall₂ (fun chunk b => g b = (chunk.map f).sum) chunks bs) :
    (bs.map g).sum = (chunks.flatten.map f).sum := by
  induction h with
  | nil => rfl
  | cons hR _ ih =>
    rw [List.map_cons, List.sum_cons, List.flatten_cons, List.map_append, List.sum_append, hR, ih]

theorem getLast?_flatten_of_forall₂
    (h : List.Forall₂ (fun chunk b => chunk.getLast?.map f = some (g b)) chunks bs) :
    chunks.flatten.getLast?.map f = bs.getLast?.map g := by
  induction h with
  | nil => rfl
  | @cons chunk b rest bs hR _ ih =>
    have hcons : (b :: bs).getLast? = bs.getLast?.or (some b) := @List.getLast?_append _ [b] bs
    rw [List.flatten_cons, List.getLast?_append, hcons, Option.map_or, Option.map_or, ih, hR]
    rfl

theorem isGreatest_flatten_of_forall₂ [Preorder ι] {greatest : ι}
    (h : List.Forall₂ (fun chunk b => IsGreatest {x | x ∈ chunk.map f} (g b)) chunks bs)
    (hgreatest : IsGreatest {x | x ∈ bs.map g} greatest) :
    IsGreatest {x | x ∈ chunks.flatten.map f} greatest := by
  constructor
  · obtain ⟨b, hb, rfl⟩ := List.mem_map.mp hgreatest.1
    obtain ⟨chunk, hchunk, hgreatest'⟩ := exists_of_forall₂_right h hb
    obtain ⟨a, ha, heq⟩ := List.mem_map.mp hgreatest'.1
    exact List.mem_map.mpr ⟨a, List.mem_flatten.mpr ⟨chunk, hchunk, ha⟩, heq⟩
  · rintro x hx
    obtain ⟨a, ha, rfl⟩ := List.mem_map.mp hx
    obtain ⟨chunk, hchunk, ha⟩ := List.mem_flatten.mp ha
    obtain ⟨b, hb, hgreatest'⟩ := exists_of_forall₂ h hchunk
    exact (hgreatest'.2 (List.mem_map_of_mem ha)).trans (hgreatest.2 (List.mem_map_of_mem hb))

theorem isLeast_flatten_of_forall₂ [Preorder ι] {least : ι}
    (h : List.Forall₂ (fun chunk b => IsLeast {x | x ∈ chunk.map f} (g b)) chunks bs)
    (hleast : IsLeast {x | x ∈ bs.map g} least) :
    IsLeast {x | x ∈ chunks.flatten.map f} least :=
  @isGreatest_flatten_of_forall₂ ιᵒᵈ α β chunks bs f g _ least h hleast

end Figures

namespace Grouper
variable [DecidableEq κ] (grouper : Grouper κ α β)

/-- The groups that are closed, and the one that is open. -/
def step (state : List β × Option β) (a : α) : List β × Option β :=
  match state.2 with
  | none => (state.1, some (grouper.start a))
  | some b =>
    if grouper.key a = grouper.keyOf b then (state.1, some (grouper.extend b a))
    else (state.1 ++ [b], some (grouper.start a))

/-- All groups, the open one last. -/
def flush (state : List β × Option β) : List β := state.1 ++ state.2.toList

def grouped (as : List α) : List β := flush (as.foldl grouper.step ([], none))

/-- The summary of a group is right from its first element on. -/
structure Summarises (S : List α → β → Prop) : Prop where
  start : ∀ a, S [a] (grouper.start a)
  extend : ∀ as b a, S as b → S (as ++ [a]) (grouper.extend b a)

section Runs
variable {grouper} {S : List α → β → Prop} {as : List α} {a : α}

theorem chunked_step (hS : grouper.Summarises S) {state : List β × Option β}
    (h : Chunked grouper.key grouper.keyOf S as (flush state)) :
    Chunked grouper.key grouper.keyOf S (as ++ [a]) (flush (grouper.step state a)) := by
  have hnew : Chunked grouper.key grouper.keyOf S [a] [grouper.start a] :=
    chunked_singleton (grouper.keyOf_start a).symm (hS.start a)
  obtain ⟨closed, current⟩ := state
  unfold step
  cases current with
  | none =>
    have hclosed : flush (closed, (none : Option β)) = closed := List.append_nil _
    rw [hclosed] at h
    exact h.append hnew
  | some b =>
    dsimp only
    split_ifs with hkey
    · exact Chunked.extend h (hkey.trans (grouper.keyOf_extend b a).symm)
        (grouper.keyOf_extend b a) fun chunk => hS.extend chunk b a
    · exact h.append hnew

theorem chunked_grouped (hS : grouper.Summarises S) (as : List α) :
    Chunked grouper.key grouper.keyOf S as (grouper.grouped as) := by
  unfold grouped
  induction as using List.reverseRecOn with
  | nil => exact chunked_nil
  | append_singleton as a ih =>
    rw [List.foldl_concat]
    exact chunked_step hS ih

theorem keyOf_current (as : List α) : (as.foldl grouper.step ([], none)).2.map grouper.keyOf =
    as.getLast?.map grouper.key := by
  induction as using List.reverseRecOn with
  | nil => rfl
  | append_singleton as a ih =>
    rw [List.foldl_concat, List.getLast?_concat]
    unfold step
    split
    · exact congrArg some (grouper.keyOf_start a)
    · split_ifs with hkey
      · exact congrArg some ((grouper.keyOf_extend _ a).trans hkey.symm)
      · exact congrArg some (grouper.keyOf_start a)

end Runs
end Grouper

theorem Grouper.increasing_grouped [LinearOrder κ] {grouper : Grouper κ α β} {as : List α}
    (hsorted : (as.map grouper.key).Pairwise (· ≤ ·)) :
    ((grouper.grouped as).map grouper.keyOf).Pairwise (· < ·) := by
  unfold Grouper.grouped
  induction as using List.reverseRecOn with
  | nil => exact .nil
  | append_singleton as a ih =>
    rw [List.map_append, List.pairwise_append] at hsorted
    have hrising := ih hsorted.1
    have hlast := @Grouper.keyOf_current _ _ _ _ grouper as
    rw [List.foldl_concat]
    rcases List.eq_nil_or_concat as with rfl | ⟨first, last, rfl⟩
    · exact List.pairwise_singleton _ _
    · rw [List.concat_eq_append] at hsorted hrising hlast ⊢
      rw [List.getLast?_concat] at hlast
      generalize (first ++ [last]).foldl grouper.step ([], none) = state at hrising hlast ⊢
      obtain ⟨closed, current⟩ := state
      obtain ⟨b, rfl, hkey⟩ := Option.map_eq_some_iff.mp hlast
      have hle : grouper.keyOf b ≤ grouper.key a := by
        rw [hkey]
        exact hsorted.2.2 _ (List.mem_map_of_mem (by simp)) _ (List.mem_singleton_self _)
      unfold Grouper.flush Grouper.step at *
      dsimp only [Option.toList] at hrising ⊢
      split_ifs with hsame
      · simpa [grouper.keyOf_extend] using hrising
      · have hbefore : ∀ k ∈ (closed ++ [b]).map grouper.keyOf, k ≤ grouper.keyOf b := by
          intro k hk
          rw [List.map_append] at hk hrising
          rcases List.mem_append.mp hk with hk | hk
          · exact ((List.pairwise_append.mp hrising).2.2 k hk _ (List.mem_singleton_self _)).le
          · exact (List.mem_singleton.mp hk).le
        dsimp only
        rw [List.map_append, List.pairwise_append]
        refine ⟨hrising, List.pairwise_singleton _ _, fun k hk k' hk' => ?_⟩
        rw [List.mem_singleton.mp hk', grouper.keyOf_start]
        exact (hbefore k hk).trans_lt (lt_of_le_of_ne hle fun h => hsame h.symm)

end Process
