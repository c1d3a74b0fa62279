import AstraTrader.Process.Fallible
import AstraTrader.Replay.Model
import AstraTrader.Text.Json

/-! `LayaGateway`: the answer of the model server, read member by member, and what `decide` makes
of the answers to its two attempts. -/

namespace Astra.LayaGateway
open Process Text

def objectMember (object : JsonObject) (key : String) : Except String JsonObject :=
  match object.lookup key with
  | some (.object members) => .ok members
  | _ => .error ("missing object: " ++ key)

def stringMember (object : JsonObject) (key : String) : Except String (List Char) :=
  match object.lookup key with
  | some (.string value) => .ok (cString value)
  | _ => .error ("missing string: " ++ key)

def probabilityOf : Json → Except String Binary64
  | .double value => .ok value
  | .int64 value => .ok (.ofInt value.toInt)
  | .uint64 value => .ok (.ofInt value.toNat)
  | _ => .error "invalid probability"

/-- A probability in millionths; the product is rounded as a double. -/
def toPpm : Binary64 → Except String UInt32
  | .finite value =>
    if value < 0 ∨ 1 < value then .error "probability outside [0,1]"
    else .ok (UInt32.ofInt (Decimal.roundHalfUp (Binary64.round (value * 1000000))))
  | _ => .error "probability outside [0,1]"

def probabilityPpm (probabilities : JsonObject) (key : String) : Except String UInt32 :=
  match probabilities.lookup key with
  | none => .ok 0
  | some value => (probabilityOf value).bind toPpm

def parseAction (choice : List Char) : Except String ModelAction :=
  if choice = "long".toList then .ok .longPosition
  else if choice = "short".toList then .ok .shortPosition
  else if choice = "hold".toList then .ok .hold
  else .error "unknown Laya action"

def modelMember (root : JsonObject) : String :=
  match root.lookup "model" with
  | some (.string value) => String.ofList (cString value)
  | _ => ""

/-- `body` is the document that the response parses to, if it does. -/
def parseResponse (body : Option Json) (stateSequence : UInt64) (latencyNs : Int64) :
    Except String ModelDecision :=
  match body with
  | some (.object root) => do
    let answers ← objectMember root "answers"
    let answer ← objectMember answers "direction"
    let probabilities ← objectMember answer "probabilities"
    let choice ← stringMember answer "choice"
    let action ← parseAction choice
    let longProbabilityPpm ← probabilityPpm probabilities "long"
    let shortProbabilityPpm ← probabilityPpm probabilities "short"
    let holdProbabilityPpm ← probabilityPpm probabilities "hold"
    pure
      { action, longProbabilityPpm, shortProbabilityPpm, holdProbabilityPpm, latencyNs
        stateSequence, model := modelMember root, error := "" }
  | _ => .error "invalid Laya JSON response"

/-- What comes of an attempt: a body with status ok, or the error on the way there. -/
inductive Attempt
  | answered (body : Option Json) (latencyNs : Int64)
  | failed (error : String)

def Attempt.decision (state : ModelState) : Attempt → Except String ModelDecision
  | .answered body latencyNs => parseResponse body state.sequence latencyNs
  | .failed error => .error error

/-- `model` is the one in the configuration, `elapsedNs` the time after both attempts. -/
def decide (model : String) (state : ModelState) (first second : Attempt) (elapsedNs : Int64) :
    ModelDecision :=
  match first.decision state with
  | .ok decision => decision
  | .error _ =>
    match second.decision state with
    | .ok decision => decision
    | .error lastError =>
      { action := .hold, longProbabilityPpm := 0, shortProbabilityPpm := 0
        holdProbabilityPpm := 1000000, latencyNs := elapsedNs, stateSequence := state.sequence
        model, error := lastError }

def actionText : ModelAction → String
  | .longPosition => "long"
  | .shortPosition => "short"
  | .hold => "hold"

/-- The document has the objects and the choice that the reader asks for. -/
def HasMembers (body : Option Json) (choice : List Char) (probabilities : JsonObject) : Prop :=
  ∃ root answers answer, body = some (.object root) ∧
    root.lookup "answers" = some (.object answers) ∧
    answers.lookup "direction" = some (.object answer) ∧
    answer.lookup "probabilities" = some (.object probabilities) ∧
    answer.lookup "choice" = some (.string choice)

def InUnit : Json → Prop
  | .double (.finite value) => 0 ≤ value ∧ value ≤ 1
  | .int64 value => 0 ≤ value.toInt ∧ value.toInt ≤ 1
  | .uint64 value => value.toNat ≤ 1
  | _ => False

def probabilityKeys : List String := ["long", "short", "hold"]

def NoneOutside (probabilities : JsonObject) : Prop :=
  ∀ key ∈ probabilityKeys, ∀ value, probabilities.lookup key = some value → InUnit value

/-- A complete answer: a known choice, and a probability for every choice there is. -/
def Complete (body : Option Json) (action : ModelAction) : Prop :=
  ∃ choice probabilities, HasMembers body choice probabilities ∧
    choice = (actionText action).toList ∧
    ∀ key ∈ probabilityKeys, ∃ value, probabilities.lookup key = some value ∧ InUnit value

def Accepted (body : Option Json) (action : ModelAction) : Prop :=
  ∃ choice probabilities, HasMembers body choice probabilities ∧
    cString choice = (actionText action).toList ∧ NoneOutside probabilities

theorem ok_bind {α β : Type} (a : α) (f : α → Except String β) : (Except.ok a >>= f) = f a := rfl

section Members
variable {body : Option Json} {object members probabilities : JsonObject} {key : String}
  {choice : List Char} {action : ModelAction} {value : Json}

theorem objectMember_eq_ok_iff :
    objectMember object key = .ok members ↔ object.lookup key = some (.object members) := by
  unfold objectMember
  split
  · rename_i found h
    rw [h]
    simp
  · rename_i h
    exact iff_of_false (by simp) (h members)

theorem stringMember_eq_ok_iff : stringMember object key = .ok choice ↔
    ∃ text, object.lookup key = some (.string text) ∧ cString text = choice := by
  unfold stringMember
  split
  · rename_i text h
    rw [h]
    simp
  · rename_i h
    exact iff_of_false (by simp) fun hfound => by
      obtain ⟨text, htext, _⟩ := hfound
      exact h text htext

theorem parseAction_eq_ok_iff :
    parseAction choice = .ok action ↔ choice = (actionText action).toList := by
  unfold parseAction
  constructor
  · intro h
    split_ifs at h with hlong hshort hhold <;> rw [← Except.ok.inj h]
    · exact hlong
    · exact hshort
    · exact hhold
  · rintro rfl
    cases action <;> decide

theorem toPpm_finite (value : ℚ) :
    (∃ ppm, toPpm (.finite value) = .ok ppm) ↔ 0 ≤ value ∧ value ≤ 1 := by
  unfold toPpm
  dsimp only
  split_ifs with houtside
  · exact iff_of_false (by simp) (by rw [not_and_or, not_le, not_le]; exact houtside)
  · rw [not_or, not_lt, not_lt] at houtside
    exact iff_of_true ⟨_, rfl⟩ houtside

/-- The double nearest to a tenth. -/
example : toPpm (.finite (3602879701896397 / 2 ^ 55)) = .ok 100000 := by decide +kernel

theorem toPpm_ofInt (n : ℤ) : (∃ ppm, toPpm (.ofInt n) = .ok ppm) ↔ 0 ≤ n ∧ n ≤ 1 :=
  (toPpm_finite _).trans (Binary64.round_intCast_mem_unit n)

theorem error_ne_ok {α : Type} (error : String) :
    ¬ ∃ value, (Except.error error : Except String α) = .ok value := by simp

theorem probability_iff :
    (∃ ppm, (probabilityOf value).bind toPpm = .ok ppm) ↔ InUnit value := by
  cases value with
  | double number =>
    cases number with
    | finite value => exact toPpm_finite value
    | infinite negative => exact iff_of_false (error_ne_ok _) id
    | nan => exact iff_of_false (error_ne_ok _) id
  | int64 value => exact toPpm_ofInt value.toInt
  | uint64 value => exact (toPpm_ofInt value.toNat).trans (by simp [InUnit])
  | null => exact iff_of_false (error_ne_ok _) id
  | bool value => exact iff_of_false (error_ne_ok _) id
  | string value => exact iff_of_false (error_ne_ok _) id
  | array items => exact iff_of_false (error_ne_ok _) id
  | object members => exact iff_of_false (error_ne_ok _) id

theorem probabilityPpm_iff : (∃ ppm, probabilityPpm probabilities key = .ok ppm) ↔
    ∀ value, probabilities.lookup key = some value → InUnit value := by
  unfold probabilityPpm
  cases hlookup : probabilities.lookup key with
  | none => simp
  | some found => simpa using probability_iff

end Members

section Responses
variable {body : Option Json} {stateSequence : UInt64} {latencyNs : Int64}
  {action : ModelAction} {decision : ModelDecision}

theorem parseResponse_iff :
    (∃ decision, parseResponse body stateSequence latencyNs = .ok decision ∧
      decision.action = action ∧ decision.stateSequence = stateSequence) ↔
      Accepted body action := by
  constructor
  · rintro ⟨decision, h, rfl, _⟩
    unfold parseResponse at h
    split at h
    · rename_i root
      obtain ⟨answers, hanswers, h⟩ := bind_eq_ok_iff.mp h
      obtain ⟨answer, hanswer, h⟩ := bind_eq_ok_iff.mp h
      obtain ⟨probabilities, hprobabilities, h⟩ := bind_eq_ok_iff.mp h
      obtain ⟨choice, hchoice, h⟩ := bind_eq_ok_iff.mp h
      obtain ⟨chosen, hchosen, h⟩ := bind_eq_ok_iff.mp h
      obtain ⟨longPpm, hlong, h⟩ := bind_eq_ok_iff.mp h
      obtain ⟨shortPpm, hshort, h⟩ := bind_eq_ok_iff.mp h
      obtain ⟨holdPpm, hhold, h⟩ := bind_eq_ok_iff.mp h
      rw [objectMember_eq_ok_iff] at hanswers hanswer hprobabilities
      obtain ⟨text, htext, hcut⟩ := stringMember_eq_ok_iff.mp hchoice
      have haction := parseAction_eq_ok_iff.mp hchosen
      rw [← Except.ok.inj h]
      refine ⟨text, probabilities, ⟨root, answers, answer, rfl, hanswers, hanswer, hprobabilities,
        htext⟩, hcut.trans haction, fun key hkey => probabilityPpm_iff.mp ?_⟩
      simp only [probabilityKeys, List.mem_cons, List.not_mem_nil, or_false] at hkey
      rcases hkey with rfl | rfl | rfl
      · exact ⟨_, hlong⟩
      · exact ⟨_, hshort⟩
      · exact ⟨_, hhold⟩
    · exact absurd h (by simp)
  · rintro ⟨choice, probabilities, ⟨root, answers, answer, rfl, hanswers, hanswer,
      hprobabilities, hchoice⟩, hcut, hnumbers⟩
    obtain ⟨longPpm, hlong⟩ := probabilityPpm_iff.mpr (hnumbers "long" (by simp [probabilityKeys]))
    obtain ⟨shortPpm, hshort⟩ :=
      probabilityPpm_iff.mpr (hnumbers "short" (by simp [probabilityKeys]))
    obtain ⟨holdPpm, hhold⟩ := probabilityPpm_iff.mpr (hnumbers "hold" (by simp [probabilityKeys]))
    rw [← objectMember_eq_ok_iff] at hanswers hanswer hprobabilities
    have htext := stringMember_eq_ok_iff.mpr ⟨choice, hchoice, hcut⟩
    have hchosen := parseAction_eq_ok_iff.mpr (rfl : (actionText action).toList = _)
    unfold parseResponse
    dsimp only
    rw [hanswers, ok_bind, hanswer, ok_bind, hprobabilities, ok_bind, htext, ok_bind, hchosen,
      ok_bind, hlong, ok_bind, hshort, ok_bind, hhold, ok_bind]
    exact ⟨_, rfl, rfl, rfl⟩

theorem parseResponse_eq (h : parseResponse body stateSequence latencyNs = .ok decision) :
    ∃ action longPpm shortPpm holdPpm model, decision =
      { action, longProbabilityPpm := longPpm, shortProbabilityPpm := shortPpm
        holdProbabilityPpm := holdPpm, latencyNs, stateSequence, model } := by
  unfold parseResponse at h
  split at h
  · simp only [bind_eq_ok_iff] at h
    obtain ⟨_, _, _, _, _, _, _, _, action, _, longPpm, _, shortPpm, _, holdPpm, _, h⟩ := h
    exact ⟨action, longPpm, shortPpm, holdPpm, _, (Except.ok.inj h).symm⟩
  · exact absurd h (by simp)

theorem HasMembers.unique {choice other : List Char} {probabilities others : JsonObject}
    (h : HasMembers body choice probabilities) (h' : HasMembers body other others) :
    choice = other ∧ probabilities = others := by
  obtain ⟨root, answers, answer, rfl, hanswers, hanswer, hprobabilities, hchoice⟩ := h
  obtain ⟨root', answers', answer', hroot, hanswers', hanswer', hprobabilities', hchoice'⟩ := h'
  obtain rfl : root = root' := Json.object.inj (Option.some.inj hroot)
  obtain rfl : answers = answers' :=
    Json.object.inj (Option.some.inj (hanswers.symm.trans hanswers'))
  obtain rfl : answer = answer' := Json.object.inj (Option.some.inj (hanswer.symm.trans hanswer'))
  exact ⟨Json.string.inj (Option.some.inj (hchoice.symm.trans hchoice')),
    Json.object.inj (Option.some.inj (hprobabilities.symm.trans hprobabilities'))⟩

theorem nul_not_mem_actionText (action : ModelAction) : nul ∉ (actionText action).toList := by
  cases action <;> decide

theorem Complete.accepted (h : Complete body action) : Accepted body action := by
  obtain ⟨choice, probabilities, hmembers, rfl, hnumbers⟩ := h
  refine ⟨_, probabilities, hmembers, cString_eq_self_iff.mpr (nul_not_mem_actionText action),
    fun key hkey value hvalue => ?_⟩
  obtain ⟨found, hfound, hunit⟩ := hnumbers key hkey
  rwa [Option.some.inj (hvalue.symm.trans hfound)]

end Responses

/-- Documents that pass although the choice goes on after a zero byte or a probability is
missing. -/
def PassesIncomplete (body : Option Json) : Prop :=
  ∃ choice probabilities action, HasMembers body choice probabilities ∧
    cString choice = (actionText action).toList ∧ NoneOutside probabilities ∧
    (nul ∈ choice ∨ ∃ key ∈ probabilityKeys, probabilities.lookup key = none)

/-- The reader accepts exactly the complete answers, with their action, and without one the gateway
holds. -/
structure RejectsIncomplete (body : Option Json) : Prop where
  accepts : ∀ (stateSequence : UInt64) (latencyNs : Int64) (action : ModelAction),
    (∃ decision, parseResponse body stateSequence latencyNs = .ok decision ∧
      decision.action = action ∧ decision.stateSequence = stateSequence) ↔ Complete body action
  holds : (∀ action, ¬ Complete body action) →
    ∀ (model : String) (state : ModelState) (firstNs secondNs elapsedNs : Int64),
      (decide model state (.answered body firstNs) (.answered body secondNs) elapsedNs).action =
        .hold

section Promise
variable {body : Option Json} {action : ModelAction}

theorem Accepted.complete (h : Accepted body action) (hcomplete : ¬ PassesIncomplete body) :
    Complete body action := by
  obtain ⟨choice, probabilities, hmembers, hcut, hnumbers⟩ := h
  have hnul : nul ∉ choice := fun hmem =>
    hcomplete ⟨choice, probabilities, action, hmembers, hcut, hnumbers, .inl hmem⟩
  refine ⟨choice, probabilities, hmembers, ?_, fun key hkey => ?_⟩
  · rw [← hcut, cString_eq_self_iff.mpr hnul]
  · cases hlookup : probabilities.lookup key with
    | none =>
      exact absurd ⟨choice, probabilities, action, hmembers, hcut, hnumbers,
        .inr ⟨key, hkey, hlookup⟩⟩ hcomplete
    | some value => exact ⟨value, rfl, hnumbers key hkey value hlookup⟩

theorem PassesIncomplete.not_complete (h : PassesIncomplete body) :
    ∃ action, Accepted body action ∧ ¬ Complete body action := by
  obtain ⟨choice, probabilities, action, hmembers, hcut, hnumbers, hmissing⟩ := h
  refine ⟨action, ⟨choice, probabilities, hmembers, hcut, hnumbers⟩, ?_⟩
  rintro ⟨other, others, hmembers', htext, hall⟩
  obtain ⟨rfl, rfl⟩ := hmembers.unique hmembers'
  rcases hmissing with hnul | ⟨key, hkey, hnone⟩
  · rw [htext] at hnul
    exact nul_not_mem_actionText action hnul
  · obtain ⟨value, hvalue, _⟩ := hall key hkey
    exact absurd (hnone.symm.trans hvalue) (by simp)

theorem decide_of_rejected (h : ∀ action, ¬ Accepted body action) (model : String)
    (state : ModelState) (firstNs secondNs elapsedNs : Int64) :
    (decide model state (.answered body firstNs) (.answered body secondNs) elapsedNs).action =
      .hold := by
  have herror : ∀ latencyNs, ∃ error,
      (Attempt.answered body latencyNs).decision state = .error error := by
    intro latencyNs
    cases hparsed : parseResponse body state.sequence latencyNs with
    | error error => exact ⟨error, hparsed⟩
    | ok decision =>
      have hsequence : decision.stateSequence = state.sequence := by
        obtain ⟨_, _, _, _, _, rfl⟩ := parseResponse_eq hparsed
        rfl
      exact absurd (parseResponse_iff.mp ⟨decision, hparsed, rfl, hsequence⟩) (h _)
  obtain ⟨first, hfirst⟩ := herror firstNs
  obtain ⟨second, hsecond⟩ := herror secondNs
  rw [decide, hfirst, hsecond]

/-- The gateway is a server as the replay takes one: an answer that parses, or the last error. -/
theorem decide_eq_layaDecision (state : ModelState) (first second : Attempt) (elapsedNs : Int64) :
    ∃ reply, decide "english" state first second elapsedNs = Replay.layaDecision state reply := by
  have hanswered : ∀ attempt decision, Attempt.decision state attempt = .ok decision →
      ∃ reply, decision = Replay.layaDecision state reply := by
    intro attempt decision h
    cases attempt with
    | failed error => exact absurd h (by simp [Attempt.decision])
    | answered body latencyNs =>
      obtain ⟨action, longPpm, shortPpm, holdPpm, model, rfl⟩ := parseResponse_eq h
      exact ⟨.answered action longPpm shortPpm holdPpm latencyNs model, rfl⟩
  unfold decide
  cases hfirst : first.decision state with
  | ok decision => exact hanswered first decision hfirst
  | error _ =>
    cases hsecond : second.decision state with
    | ok decision => exact hanswered second decision hsecond
    | error lastError => exact ⟨.failed elapsedNs lastError, rfl⟩

end Promise

theorem rejectsIncomplete_iff (body : Option Json) :
    RejectsIncomplete body ↔ ¬ PassesIncomplete body := by
  constructor
  · intro hrejects hpasses
    obtain ⟨action, haccepted, hnot⟩ := hpasses.not_complete
    exact hnot ((hrejects.accepts 0 0 action).mp (parseResponse_iff.mpr haccepted))
  · intro hcomplete
    refine ⟨fun stateSequence latencyNs action => parseResponse_iff.trans
      ⟨fun h => h.complete hcomplete, Complete.accepted⟩, fun hnone => ?_⟩
    exact decide_of_rejected fun action haccepted => hnone action (haccepted.complete hcomplete)

/-- A choice without any probability is taken as a decision. -/
theorem not_forall_rejectsIncomplete : ¬ ∀ body : Option Json, RejectsIncomplete body := by
  intro h
  have hbody := (h (some (.object [("answers", .object [("direction", .object
    [("choice", .string "long".toList), ("probabilities", .object [])])])]))).accepts 0 0
      .longPosition
  obtain ⟨choice, probabilities, hmembers, _, hall⟩ := hbody.mp ⟨_, rfl, rfl, rfl⟩
  obtain ⟨_, rfl⟩ := hmembers.unique ⟨_, _, _, rfl, rfl, rfl, rfl, rfl⟩
  obtain ⟨value, hvalue, _⟩ := hall "long" (List.mem_cons_self ..)
  exact absurd hvalue (by simp)

end Astra.LayaGateway
