import AstraTrader.Text.JsonText
import Mathlib.Data.List.Flatten
import Mathlib.Tactic.SplitIfs

/-! Texts as Python reads them: newlines made uniform, and lines that end at every break. -/

namespace Text

/-- What reading a file in text mode does to the ends of its lines. -/
def uniformNewlines : List Char → List Char
  | [] => []
  | '\r' :: '\n' :: rest => '\n' :: uniformNewlines rest
  | '\r' :: rest => '\n' :: uniformNewlines rest
  | c :: rest => c :: uniformNewlines rest

/-- A character at which `str.splitlines` ends a line. -/
def isBreak (c : Char) : Bool := c.toNat ∈ [10, 11, 12, 13, 28, 29, 30, 133, 8232, 8233]

/-- `str.splitlines`. -/
def splitLines : List Char → List (List Char)
  | [] => []
  | '\r' :: '\n' :: rest => [] :: splitLines rest
  | c :: rest =>
    if isBreak c then [] :: splitLines rest
    else
      match splitLines rest with
      | [] => [[c]]
      | line :: later => (c :: line) :: later

/-- The lines that a file is iterated by, each with its end. -/
def fileLines : List Char → List (List Char)
  | [] => []
  | '\n' :: rest => ['\n'] :: fileLines rest
  | c :: rest =>
    match fileLines rest with
    | [] => [[c]]
    | line :: later => (c :: line) :: later

/-- A text that stands on one line. -/
def Unbroken (text : List Char) : Prop := ∀ c ∈ text, isBreak c = false

instance : DecidablePred Unbroken := fun text => List.decidableBAll _ text

section Lines
variable {text : List Char}

theorem uniformNewlines_of_not_mem (h : '\r' ∉ text) : uniformNewlines text = text := by
  induction text with
  | nil => rfl
  | cons c rest ih =>
    have hc : c ≠ '\r' := fun he => h (he ▸ List.mem_cons_self ..)
    rw [uniformNewlines, ih fun hrest => h (List.mem_cons_of_mem _ hrest)]
    · exact fun _ he => absurd he hc
    · exact fun he => absurd he hc

theorem splitLines_cons {c : Char} (hc : isBreak c = false) (rest : List Char) :
    splitLines (c :: rest) = match splitLines rest with
      | [] => [[c]]
      | line :: later => (c :: line) :: later := by
  have hne : c ≠ '\r' := by
    rintro rfl
    exact absurd hc (by decide)
  rw [splitLines, if_neg (by rw [hc]; exact Bool.false_ne_true)]
  exact fun _ he => absurd he hne

theorem splitLines_append (h : Unbroken text) (rest : List Char) :
    splitLines (text ++ '\n' :: rest) = text :: splitLines rest := by
  induction text with
  | nil => rfl
  | cons c text ih =>
    rw [List.cons_append, splitLines_cons (h c (List.mem_cons_self ..)),
      ih fun d hd => h d (List.mem_cons_of_mem _ hd)]

theorem splitLines_flatMap {lines : List (List Char)} (h : ∀ line ∈ lines, Unbroken line) :
    splitLines (lines.flatMap fun line => line ++ ['\n']) = lines := by
  induction lines with
  | nil => rfl
  | cons line lines ih =>
    rw [List.flatMap_cons, List.append_assoc, List.singleton_append,
      splitLines_append (h line (List.mem_cons_self ..)),
      ih fun other hother => h other (List.mem_cons_of_mem _ hother)]

theorem fileLines_append (h : '\n' ∉ text) (rest : List Char) :
    fileLines (text ++ '\n' :: rest) = (text ++ ['\n']) :: fileLines rest := by
  induction text with
  | nil => rfl
  | cons c text ih =>
    have hc : c ≠ '\n' := fun he => h (he ▸ List.mem_cons_self ..)
    have hrest := ih fun htext => h (List.mem_cons_of_mem _ htext)
    rw [List.cons_append, fileLines, hrest]
    · rfl
    · exact hc

theorem fileLines_flatMap {lines : List (List Char)} (h : ∀ line ∈ lines, '\n' ∉ line) :
    fileLines (lines.flatMap fun line => line ++ ['\n']) =
      lines.map fun line => line ++ ['\n'] := by
  induction lines with
  | nil => rfl
  | cons line lines ih =>
    rw [List.flatMap_cons, List.append_assoc, List.singleton_append,
      fileLines_append (h line (List.mem_cons_self ..)),
      ih fun other hother => h other (List.mem_cons_of_mem _ hother), List.map_cons]

theorem Unbroken.not_mem_newline (h : Unbroken text) : '\n' ∉ text ∧ '\r' ∉ text :=
  ⟨fun hmem => absurd (h _ hmem) (by decide), fun hmem => absurd (h _ hmem) (by decide)⟩

theorem not_isBreak_of_isAscii {c : Char} (h : IsAscii c) : isBreak c = false := by
  obtain ⟨hlo, hhi⟩ := h
  simp only [isBreak, List.mem_cons, List.not_mem_nil, or_false, decide_eq_false_iff_not]
  omega

theorem unbroken_writeObject {entries : List (String × Field)} (hkeys : PlainKeys entries)
    (hfields : ∀ entry ∈ entries, entry.2.All fun c => isBreak c = false) :
    Unbroken (writeObject entries) := fun _ hc =>
  forall_mem_writeObject (fun _ => not_isBreak_of_isAscii) hkeys hfields hc

end Lines
end Text
