import AstraTrader.Text.JsonText

/-! Nested documents as text. What is serialized is read back, whatever its strings hold. -/

namespace Text

/-- A character as it stands between quotes. -/
def escape (c : Char) : List Char :=
  if c = '\"' then ['\\', '\"']
  else if c = '\\' then ['\\', '\\']
  else if c = Char.ofNat 8 then ['\\', 'b']
  else if c = Char.ofNat 12 then ['\\', 'f']
  else if c = '\n' then ['\\', 'n']
  else if c = '\r' then ['\\', 'r']
  else if c = '\t' then ['\\', 't']
  else if c.toNat < 32 then
    ['\\', 'u', '0', '0', (c.toNat / 16).digitChar, (c.toNat % 16).digitChar]
  else [c]

def quoted (text : List Char) : List Char := '\"' :: text.flatMap escape ++ ['\"']

mutual

def serialize : Node → List Char
  | .null => "null".toList
  | .bool value => if value then "true".toList else "false".toList
  | .integer value => printInt value
  | .real literal => literal
  | .string value => quoted value
  | .array items => '[' :: serializeItems items ++ [']']
  | .object members => '{' :: serializeMembers members ++ ['}']

def serializeItems : List Node → List Char
  | [] => []
  | [item] => serialize item
  | item :: items => serialize item ++ ',' :: serializeItems items

def serializeMembers : List (List Char × Node) → List Char
  | [] => []
  | [(key, value)] => quoted key ++ ':' :: serialize value
  | (key, value) :: members =>
    quoted key ++ ':' :: serialize value ++ ',' :: serializeMembers members

end

/-- A document without numbers that are kept as they are written. -/
inductive Node.Exact : Node → Prop
  | null : Exact .null
  | bool (value : Bool) : Exact (.bool value)
  | integer (value : ℤ) : Exact (.integer value)
  | string (value : List Char) : Exact (.string value)
  | array {items : List Node} : (∀ item ∈ items, Exact item) → Exact (.array items)
  | object {members : List (List Char × Node)} :
      (∀ member ∈ members, Exact member.2) → Exact (.object members)

section Strings
variable {text rest : List Char}

theorem numbered_control (n : ℕ) (h : n < 32) :
    numbered '0' '0' (n / 16).digitChar (n % 16).digitChar = some (Char.ofNat n) := by
  interval_cases n <;> decide

theorem scanString_escape_append (c : Char) (rest : List Char) :
    scanString (escape c ++ rest) =
      (scanString rest).map fun scanned => (c :: scanned.1, scanned.2) := by
  unfold escape
  split_ifs with hquote hescape hb hf hn hr ht hcontrol
  · subst hquote
    exact scanString_escape (by decide) rfl rest
  · subst hescape
    exact scanString_escape (by decide) rfl rest
  · subst hb
    exact scanString_escape (by decide) rfl rest
  · subst hf
    exact scanString_escape (by decide) rfl rest
  · subst hn
    exact scanString_escape (by decide) rfl rest
  · subst hr
    exact scanString_escape (by decide) rfl rest
  · subst ht
    exact scanString_escape (by decide) rfl rest
  · have hdecoded := numbered_control c.toNat hcontrol
    rw [Char.ofNat_toNat] at hdecoded
    simp only [List.cons_append, List.nil_append]
    rw [scanString, hdecoded]
    rfl
  · exact scanString_cons (Nat.not_lt.mp hcontrol) hquote hescape rest

theorem scanString_escaped (text rest : List Char) :
    scanString (text.flatMap escape ++ '\"' :: rest) = some (text, rest) := by
  induction text with
  | nil => rfl
  | cons c text ih =>
    rw [List.flatMap_cons, List.append_assoc, scanString_escape_append, ih, Option.map_some]

theorem quoted_append (text rest : List Char) :
    quoted text ++ rest = '\"' :: (text.flatMap escape ++ '\"' :: rest) := by
  simp [quoted]

end Strings

section Documents
variable {node : Node} {items : List Node} {members : List (List Char × Node)}

/-- The reader takes the serialized document off the front of a text. -/
def Node.ReadsBack (node : Node) : Prop :=
  ∀ (fuel : ℕ) (rest : List Char), (serialize node).length < fuel → Closes rest →
    scanValue fuel (serialize node ++ rest) = some (node, rest)

theorem printInt_head (value : ℤ) : ∃ c tail, printInt value = c :: tail ∧ isBlank c = false ∧
    c ≠ ']' := by
  cases hdigits : printInt value with
  | nil =>
    have hread := readInt_printInt value
    rw [hdigits] at hread
    exact absurd hread (by simp [readInt, readNat])
  | cons c tail =>
    have hc : c ∈ printInt value := hdigits ▸ List.mem_cons_self ..
    refine ⟨c, tail, rfl, isBlank_of_mem_printInt hc, ?_⟩
    rintro rfl
    rcases mem_printInt hc with h | h <;> exact absurd h (by decide)

theorem Node.Exact.serialize_head (h : node.Exact) : ∃ c tail, serialize node = c :: tail ∧
    isBlank c = false ∧ c ≠ ']' := by
  cases h with
  | null => exact ⟨'n', _, rfl, rfl, by decide⟩
  | bool value =>
    cases value
    · exact ⟨'f', _, rfl, rfl, by decide⟩
    · exact ⟨'t', _, rfl, rfl, by decide⟩
  | integer value =>
    rw [serialize]
    exact printInt_head value
  | string value => exact ⟨'\"', _, by rw [serialize, quoted]; rfl, rfl, by decide⟩
  | array => exact ⟨'[', _, by rw [serialize]; rfl, rfl, by decide⟩
  | object => exact ⟨'{', _, by rw [serialize]; rfl, rfl, by decide⟩

theorem Node.Exact.skipBlank_serialize (h : node.Exact) (rest : List Char) :
    skipBlank (serialize node ++ rest) = serialize node ++ rest := by
  obtain ⟨c, tail, hhead, hblank, _⟩ := h.serialize_head
  rw [hhead]
  exact skipBlank_cons hblank _

theorem serializeItems_cons (item next : Node) (items : List Node) :
    serializeItems (item :: next :: items) =
      serialize item ++ ',' :: serializeItems (next :: items) := by
  rw [serializeItems]
  exact List.cons_ne_nil _ _

theorem serializeMembers_cons (member next : List Char × Node)
    (members : List (List Char × Node)) : serializeMembers (member :: next :: members) =
      quoted member.1 ++ ':' :: serialize member.2 ++
        ',' :: serializeMembers (next :: members) := by
  rw [serializeMembers]
  exact List.cons_ne_nil _ _

theorem scanItems_serialized (hexact : ∀ item ∈ items, item.Exact)
    (h : ∀ item ∈ items, item.ReadsBack) (hne : items ≠ []) {fuel : ℕ}
    (hfuel : (serializeItems items).length + 1 < fuel) (rest : List Char) :
    scanItems fuel (serializeItems items ++ ']' :: rest) = some (items, rest) := by
  induction items generalizing fuel with
  | nil => exact absurd rfl hne
  | cons item items ih =>
    obtain ⟨fuel, rfl⟩ := Nat.exists_eq_add_of_le' (Nat.one_le_of_lt hfuel)
    have hitem := h item (List.mem_cons_self ..)
    cases items with
    | nil =>
      rw [serializeItems] at hfuel ⊢
      have hvalue := hitem fuel _ (by omega) (closes_bracket rest)
      rw [scanItems, hvalue]
      rfl
    | cons next items =>
      rw [serializeItems_cons] at hfuel ⊢
      rw [List.length_append, List.length_cons] at hfuel
      have hvalue := hitem fuel _ (by omega)
        (closes_comma (serializeItems (next :: items) ++ ']' :: rest))
      have hmore : scanItems fuel (serializeItems (next :: items) ++ ']' :: rest) =
          some (_, rest) :=
        ih (fun other hother => hexact other (List.mem_cons_of_mem _ hother))
          (fun other hother => h other (List.mem_cons_of_mem _ hother)) (List.cons_ne_nil _ _)
          (by omega)
      have hstart : skipBlank (serializeItems (next :: items) ++ ']' :: rest) =
          serializeItems (next :: items) ++ ']' :: rest := by
        have hnext := (hexact next (by simp)).skipBlank_serialize
        cases items with
        | nil =>
          rw [serializeItems]
          exact hnext _
        | cons other items =>
          rw [serializeItems_cons, List.append_assoc]
          exact hnext _
      rw [List.append_assoc, List.cons_append, scanItems, hvalue]
      simp only [Option.bind_eq_bind, Option.bind_some, skipBlank_cons (c := ',') rfl, hstart,
        hmore]

theorem members_start (member : List Char × Node) (members : List (List Char × Node))
    (rest : List Char) : ∃ tail, serializeMembers (member :: members) ++ rest = '\"' :: tail := by
  cases members with
  | nil => exact ⟨_, by rw [serializeMembers, List.append_assoc, quoted_append]⟩
  | cons next members => exact ⟨_, by
      rw [serializeMembers_cons, List.append_assoc, List.append_assoc, quoted_append]⟩

theorem scanMembers_key_last {fuel : ℕ} (key : List Char) (hexact : node.Exact) {rest : List Char}
    (hvalue : scanValue fuel (serialize node ++ '}' :: rest) = some (node, '}' :: rest)) :
    scanMembers (fuel + 1) (quoted key ++ ':' :: (serialize node ++ '}' :: rest)) =
      some ([(key, node)], rest) := by
  rw [quoted_append, scanMembers, scanString_escaped]
  simp only [Option.bind_eq_bind, Option.bind_some, skipBlank_cons (c := ':') rfl,
    hexact.skipBlank_serialize, hvalue, skipBlank_cons (c := '}') rfl]

theorem scanMembers_key_comma {fuel : ℕ} (key : List Char) (hexact : node.Exact)
    {more rest : List Char}
    (hvalue : scanValue fuel (serialize node ++ ',' :: '\"' :: more) =
      some (node, ',' :: '\"' :: more))
    (hmore : scanMembers fuel ('\"' :: more) = some (members, rest)) :
    scanMembers (fuel + 1) (quoted key ++ ':' :: (serialize node ++ ',' :: '\"' :: more)) =
      some ((key, node) :: members, rest) := by
  rw [quoted_append, scanMembers, scanString_escaped]
  simp only [Option.bind_eq_bind, Option.bind_some, skipBlank_cons (c := ':') rfl,
    hexact.skipBlank_serialize, hvalue, skipBlank_cons (c := ',') rfl,
    skipBlank_cons (c := '\"') rfl, hmore]

theorem scanMembers_serialized (hexact : ∀ member ∈ members, member.2.Exact)
    (h : ∀ member ∈ members, member.2.ReadsBack) (hne : members ≠ []) {fuel : ℕ}
    (hfuel : (serializeMembers members).length + 1 < fuel) (rest : List Char) :
    scanMembers fuel (serializeMembers members ++ '}' :: rest) = some (members, rest) := by
  induction members generalizing fuel with
  | nil => exact absurd rfl hne
  | cons member members ih =>
    obtain ⟨fuel, rfl⟩ := Nat.exists_eq_add_of_le' (Nat.one_le_of_lt hfuel)
    obtain ⟨key, value⟩ := member
    have hmember : value.ReadsBack := h (key, value) (List.mem_cons_self ..)
    have hvalue : value.Exact := hexact (key, value) (List.mem_cons_self ..)
    cases members with
    | nil =>
      rw [serializeMembers] at hfuel ⊢
      rw [List.length_append, List.length_cons] at hfuel
      rw [List.append_assoc, List.cons_append]
      exact scanMembers_key_last key hvalue (hmember fuel _ (by omega) (closes_brace rest))
    | cons next members =>
      rw [serializeMembers_cons] at hfuel ⊢
      simp only [List.length_append, List.length_cons] at hfuel
      have hmore : scanMembers fuel (serializeMembers (next :: members) ++ '}' :: rest) =
          some (_, rest) :=
        ih (fun other hother => hexact other (List.mem_cons_of_mem _ hother))
          (fun other hother => h other (List.mem_cons_of_mem _ hother)) (List.cons_ne_nil _ _)
          (by omega)
      obtain ⟨tail, htail⟩ := members_start next members ('}' :: rest)
      rw [List.append_assoc, List.append_assoc, List.cons_append, List.cons_append, htail]
      rw [htail] at hmore
      exact scanMembers_key_comma key hvalue (hmember fuel _ (by omega) (closes_comma _)) hmore

/-- The induction over a document: each part is read off the front of what follows it. -/
theorem Node.Exact.readsBack (h : node.Exact) : node.ReadsBack := by
  induction h with
  | null =>
    intro fuel rest hfuel _
    obtain ⟨fuel, rfl⟩ := Nat.exists_eq_add_of_le' (Nat.one_le_of_lt hfuel)
    rfl
  | bool value =>
    intro fuel rest hfuel _
    obtain ⟨fuel, rfl⟩ := Nat.exists_eq_add_of_le' (Nat.one_le_of_lt hfuel)
    cases value <;> rfl
  | integer value =>
    intro fuel rest hfuel hrest
    obtain ⟨fuel, rfl⟩ := Nat.exists_eq_add_of_le' (Nat.one_le_of_lt hfuel)
    exact scanValue_printInt fuel value hrest
  | string value =>
    intro fuel rest hfuel _
    obtain ⟨fuel, rfl⟩ := Nat.exists_eq_add_of_le' (Nat.one_le_of_lt hfuel)
    rw [serialize, quoted_append, scanValue, scanString_escaped, Option.map_some]
  | @array items hexact ih =>
    intro fuel rest hfuel _
    obtain ⟨fuel, rfl⟩ := Nat.exists_eq_add_of_le' (Nat.one_le_of_lt hfuel)
    rw [serialize] at hfuel ⊢
    cases items with
    | nil => rfl
    | cons item items =>
      simp only [List.length_append, List.length_cons, List.length_nil] at hfuel
      have hitems : scanItems fuel (serializeItems (item :: items) ++ ']' :: rest) =
          some (_, rest) :=
        scanItems_serialized hexact ih (List.cons_ne_nil _ _) (by omega) rest
      obtain ⟨c, tail, htail, hblank, hc⟩ : ∃ c tail,
          serializeItems (item :: items) ++ ']' :: rest = c :: tail ∧ isBlank c = false ∧
            c ≠ ']' := by
        obtain ⟨c, tail, hhead, hblank, hc⟩ := (hexact item (List.mem_cons_self ..)).serialize_head
        cases items with
        | nil => exact ⟨c, _, by rw [serializeItems, hhead]; rfl, hblank, hc⟩
        | cons next items =>
          exact ⟨c, _, by rw [serializeItems_cons, hhead]; rfl, hblank, hc⟩
      rw [List.append_assoc, List.singleton_append, List.cons_append]
      rw [htail] at hitems ⊢
      rw [scanValue, skipBlank_cons hblank]
      split
      · rename_i h
        exact absurd (List.cons.inj h).1 hc
      · exact congrArg (Option.map _) hitems
  | @object members hexact ih =>
    intro fuel rest hfuel _
    obtain ⟨fuel, rfl⟩ := Nat.exists_eq_add_of_le' (Nat.one_le_of_lt hfuel)
    rw [serialize] at hfuel ⊢
    cases members with
    | nil => rfl
    | cons member members =>
      simp only [List.length_append, List.length_cons, List.length_nil] at hfuel
      have hmembers : scanMembers fuel (serializeMembers (member :: members) ++ '}' :: rest) =
          some (_, rest) :=
        scanMembers_serialized hexact ih (List.cons_ne_nil _ _) (by omega) rest
      obtain ⟨tail, htail⟩ := members_start member members ('}' :: rest)
      rw [List.append_assoc, List.singleton_append, List.cons_append]
      rw [htail] at hmembers ⊢
      rw [scanValue, skipBlank_cons rfl]
      exact congrArg (Option.map _) hmembers

theorem loads_serialize (h : node.Exact) : loads (serialize node) = some node := by
  have hscan := h.readsBack _ [] (Nat.lt_succ_self _) (.inl rfl)
  have hstart := h.skipBlank_serialize []
  rw [List.append_nil] at hscan hstart
  rw [loads, hstart, hscan]
  rfl

end Documents
end Text
