import AstraTrader.Numeric.Binary64
import Mathlib.Data.List.TakeWhile

/-! JSON documents as the parser hands them over, and texts cut where C strings end. -/

namespace Text

/-- A string is the list of its bytes, and an object has a value for each of its keys. -/
inductive Json
  | null
  | bool (value : Bool)
  | int64 (value : Int64)
  | uint64 (value : UInt64)
  | double (value : Binary64)
  | string (value : List Char)
  | array (items : List Json)
  | object (members : List (String × Json))

abbrev JsonObject := List (String × Json)

def nul : Char := Char.ofNat 0

/-- What `c_str` gives of a string: its bytes before the first zero. -/
def cString (text : List Char) : List Char := text.takeWhile (· != nul)

theorem cString_eq_self_iff {text : List Char} : cString text = text ↔ nul ∉ text := by
  rw [cString, List.takeWhile_eq_self_iff]
  simp only [bne_iff_ne]
  exact ⟨fun h hmem => h nul hmem rfl, fun h c hc heq => h (heq ▸ hc)⟩

end Text
