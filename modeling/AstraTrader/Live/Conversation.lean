import AstraTrader.Live.LayaGateway
import AstraTrader.Process.Trace
import AstraTrader.Text.JsonDocument
import Mathlib.Data.List.DropRight

/-! What `LayaGateway::decide` says to the model server and hears from it: two attempts at most, on
a connection that is kept from call to call as long as nothing goes wrong. The server answers the
requests of a connection in their order, at any time and also after the gateway has left it. -/

namespace Astra.LayaGateway
open Process Text

/-! ### The request -/

def entry (key : String) (value : Node) : List Char × Node := (key.toList, value)

def text (value : String) : Node := .string value.toList

def marketState (state : ModelState) : Node := .object
  [entry "schema" (text "astra.market-state.v1"),
    entry "symbol" (text "BTCUSDT"),
    entry "sequence" (.integer state.sequence.toNat),
    entry "exchange_time_ns" (.integer state.exchangeTimeNs.toInt),
    entry "state_age_ns" (.integer state.stateAgeNs.toInt),
    entry "best_bid_units" (.integer state.bestBidUnits.toInt),
    entry "best_ask_units" (.integer state.bestAskUnits.toInt),
    entry "bid_quantity_units" (.integer state.bidQuantityUnits.toInt),
    entry "ask_quantity_units" (.integer state.askQuantityUnits.toInt),
    entry "return_100_events_ppm" (.integer state.return100EventsPpm.toInt),
    entry "flow_imbalance_ppm" (.integer state.flowImbalancePpm.toInt),
    entry "current_position_units" (.integer state.currentPositionUnits.toInt)]

def criteria : Node := .object
  [entry "long" (text "Price likely rises enough to exceed spread, fees, and slippage."),
    entry "short" (text "Price likely falls enough to exceed spread, fees, and slippage."),
    entry "hold" (text "No sufficiently reliable cost-adjusted directional edge.")]

def direction : Node := .object
  [entry "type" (text "choice"),
    entry "instructions" (text ("Choose the cost-adjusted BTCUSDT action for the next short " ++
      "horizon. Prefer hold when the numeric market state is weak, conflicting, stale, or " ++
      "uncertain.")),
    entry "criteria" criteria]

def questions : Node := .object [entry "direction" direction]

def request (state : ModelState) (model : String) : Node := .object
  [entry "model" (text model),
    entry "state" (marketState state),
    entry "questions" questions]

@[irreducible]
def requestJson (state : ModelState) (model : String) : List Char := serialize (request state model)

theorem exact_request (state : ModelState) (model : String) : (request state model).Exact := by
  have htext : ∀ value, (text value).Exact := fun value => .string _
  have hcriteria : criteria.Exact := by
    apply Node.Exact.object
    simp [entry, htext]
  have hdirection : direction.Exact := by
    apply Node.Exact.object
    simp [entry, htext, hcriteria]
  have hstate : (marketState state).Exact := by
    apply Node.Exact.object
    simp [entry, htext, Node.Exact.integer]
  have hquestions : questions.Exact := by
    apply Node.Exact.object
    simp [entry, hdirection]
  apply Node.Exact.object
  simp [entry, htext, hstate, hquestions]

theorem loads_requestJson (state : ModelState) (model : String) :
    loads (requestJson state model) = some (request state model) := by
  rw [requestJson]
  exact loads_serialize (exact_request state model)

theorem requestJson_injective {state other : ModelState} {model : String}
    (h : requestJson state model = requestJson other model) : state = other := by
  have hread := loads_requestJson state model
  rw [h, loads_requestJson] at hread
  have hsame : marketState other = marketState state := by
    simpa [request, entry] using Option.some.inj hread
  simp only [marketState, entry, Node.object.injEq, List.cons.injEq, Prod.mk.injEq,
    Node.integer.injEq, true_and, and_true, Int.natCast_inj, UInt64.toNat_inj,
    Int64.toInt_inj] at hsame
  obtain ⟨hsequence, htime, hage, hbid, hask, hbids, hasks, hreturn, hflow, hposition⟩ := hsame
  cases state
  cases other
  rw [ModelState.mk.injEq]
  exact ⟨hsequence.symm, htime.symm, hage.symm, hbid.symm, hask.symm, hbids.symm, hasks.symm,
    hreturn.symm, hflow.symm, hposition.symm⟩

/-! ### The two ends -/

/-- An answer of the server, and whether it keeps the connection. -/
structure Response where
  status : ℕ
  body : List Char
  keepAlive : Bool

/-- Only a status of 200 has a body to look at; `parse` is the JSON library's. -/
def Response.attempt (parse : List Char → Option Json) (response : Response) (latencyNs : Int64) :
    Attempt :=
  if response.status = 200 then .answered (parse response.body) latencyNs
  else .failed ("Laya HTTP status " ++ toString response.status)

/-- What has come over a connection so far. -/
structure Wire where
  requests : List (List Char) := []
  answers : List Response := []

/-- Where an attempt stands. -/
inductive Point | connecting | writing | reading
  deriving DecidableEq

/-- A turn of the loop in `decide`. -/
structure Trying where
  state : ModelState
  second : Bool := false
  point : Point := .connecting

/-- The gateway and every connection it has opened; `taken` counts the answers it has read from the
open one. -/
structure Gateway where
  trying : Option Trying := none
  connection : Option ℕ := none
  taken : ℕ := 0
  wires : List Wire := []

/-- One step of either end; `result` is what `decide` returns if it ends with the step. -/
inductive GatewayEvent
  | call (state : ModelState)
  | connect
  | reuse
  | write (connection : ℕ) (request : List Char)
  | lose (connection : ℕ) (request : List Char) (error : String) (result : Option ModelDecision)
  | fail (error : String) (result : Option ModelDecision)
  | answer (connection : ℕ) (request : List Char) (response : Response)
  | read (connection : ℕ) (response : Response) (latencyNs : Int64) (result : Option ModelDecision)
  | close

def heldDecision (model : String) (state : ModelState) (error : String) (elapsedNs : Int64) :
    ModelDecision :=
  { action := .hold, longProbabilityPpm := 0, shortProbabilityPpm := 0
    holdProbabilityPpm := 1000000, latencyNs := elapsedNs, stateSequence := state.sequence
    model, error }

namespace Gateway

/-- The end of an attempt. A failed one closes the connection and goes round the loop again, or
gives up. -/
def conclude (model : String) (gateway : Gateway) (trying : Trying) (attempt : Attempt)
    (elapsedNs : Int64) : Gateway × Option ModelDecision :=
  match attempt.decision trying.state with
  | .ok decision => ({ gateway with trying := none }, some decision)
  | .error error =>
    if trying.second then
      ({ gateway with trying := none, connection := none },
        some (heldDecision model trying.state error elapsedNs))
    else
      ({ gateway with
          trying := some { state := trying.state, second := true }, connection := none }, none)

def put (gateway : Gateway) (connection : ℕ) (wire : Wire) : Gateway :=
  { gateway with wires := gateway.wires.set connection wire }

def proceed (gateway : Gateway) (trying : Trying) (point : Point) : Gateway :=
  { gateway with trying := some { trying with point } }

end Gateway

open Gateway in
/-- The steps. Resolving, connecting, writing and reading may each fail, and a request whose writing
failed may have reached the server. -/
inductive Step (parse : List Char → Option Json) (model : String) :
    Gateway → GatewayEvent → Gateway → Prop
  | call (gateway : Gateway) (state : ModelState) : gateway.trying = none →
      Step parse model gateway (.call state) { gateway with trying := some { state } }
  | connect (gateway : Gateway) (trying : Trying) : gateway.trying = some trying →
      trying.point = .connecting → gateway.connection = none →
      Step parse model gateway .connect
        { gateway.proceed trying .writing with
          connection := some gateway.wires.length, taken := 0, wires := gateway.wires ++ [{}] }
  | reuse (gateway : Gateway) (trying : Trying) : gateway.trying = some trying →
      trying.point = .connecting → gateway.connection ≠ none →
      Step parse model gateway .reuse (gateway.proceed trying .writing)
  | write (gateway : Gateway) (trying : Trying) (connection : ℕ) (wire : Wire) :
      gateway.trying = some trying → trying.point = .writing →
      gateway.connection = some connection → gateway.wires[connection]? = some wire →
      Step parse model gateway (.write connection (requestJson trying.state model))
        ((gateway.put connection
          { wire with
            requests := wire.requests ++ [requestJson trying.state model] }).proceed trying
            .reading)
  | lose (gateway : Gateway) (trying : Trying) (connection : ℕ) (wire : Wire) (error : String)
      (elapsedNs : Int64) :
      gateway.trying = some trying → trying.point = .writing →
      gateway.connection = some connection → gateway.wires[connection]? = some wire →
      Step parse model gateway
        (.lose connection (requestJson trying.state model) error
          (gateway.conclude model trying (.failed error) elapsedNs).2)
        ((gateway.put connection
          { wire with requests := wire.requests ++ [requestJson trying.state model] }).conclude
            model trying (.failed error) elapsedNs).1
  | fail (gateway : Gateway) (trying : Trying) (error : String) (elapsedNs : Int64) :
      gateway.trying = some trying →
      (trying.point = .connecting → gateway.connection = none) →
      Step parse model gateway
        (.fail error (gateway.conclude model trying (.failed error) elapsedNs).2)
        (gateway.conclude model trying (.failed error) elapsedNs).1
  | answer (gateway : Gateway) (connection : ℕ) (wire : Wire) (asked : List Char)
      (response : Response) : gateway.wires[connection]? = some wire →
      wire.requests[wire.answers.length]? = some asked →
      Step parse model gateway (.answer connection asked response)
        (gateway.put connection { wire with answers := wire.answers ++ [response] })
  | read (gateway : Gateway) (trying : Trying) (connection : ℕ) (wire : Wire) (response : Response)
      (latencyNs elapsedNs : Int64) :
      gateway.trying = some trying → trying.point = .reading →
      gateway.connection = some connection → gateway.wires[connection]? = some wire →
      wire.answers[gateway.taken]? = some response →
      Step parse model gateway
        (.read connection response latencyNs
          (gateway.conclude model trying (response.attempt parse latencyNs) elapsedNs).2)
        ({ gateway with
            connection := if response.keepAlive then some connection else none
            taken := gateway.taken + 1 }.conclude model trying (response.attempt parse latencyNs)
          elapsedNs).1
  | close (gateway : Gateway) : gateway.trying = none →
      Step parse model gateway .close { gateway with connection := none }

namespace GatewayEvent

def call? : GatewayEvent → Option ModelState
  | .call state => some state
  | _ => none

/-- What came of the attempt that ends with a step. -/
def attempt? (parse : List Char → Option Json) : GatewayEvent → Option Attempt
  | .lose _ _ error _ | .fail error _ => some (.failed error)
  | .read _ response latencyNs _ => some (response.attempt parse latencyNs)
  | _ => none

def returned? : GatewayEvent → Option ModelDecision
  | .lose _ _ _ result | .fail _ result | .read _ _ _ result => result
  | _ => none

/-- A request that has reached the server. -/
def sent? : GatewayEvent → Option (ℕ × List Char)
  | .write connection request | .lose connection request _ _ => some (connection, request)
  | _ => none

def isAnswer : GatewayEvent → Bool
  | .answer .. => true
  | _ => false

end GatewayEvent

/-- The state that `decide` was last called with. -/
def called (events : List GatewayEvent) : Option ModelState :=
  (events.filterMap GatewayEvent.call?).getLast?

/-- The steps since the last call. -/
def sinceCall (events : List GatewayEvent) : List GatewayEvent :=
  events.rtakeWhile fun event => event.call?.isNone

def attempts (parse : List Char → Option Json) (events : List GatewayEvent) : List Attempt :=
  (sinceCall events).filterMap (GatewayEvent.attempt? parse)

def posted (events : List GatewayEvent) : List (ℕ × List Char) :=
  (sinceCall events).filterMap GatewayEvent.sent?

section Histories
variable {parse : List Char → Option Json} {events : List GatewayEvent} {event : GatewayEvent}

theorem called_concat (h : event.call? = none) : called (events ++ [event]) = called events := by
  rw [called, filterMap_concat, h, Option.toList_none, List.append_nil]
  rfl

theorem sinceCall_concat (h : event.call? = none) :
    sinceCall (events ++ [event]) = sinceCall events ++ [event] :=
  List.rtakeWhile_concat_pos _ _ _ (by simp [h])

theorem sinceCall_call (state : ModelState) : sinceCall (events ++ [.call state]) = [] :=
  List.rtakeWhile_concat_neg _ _ _ (by simp [GatewayEvent.call?])

theorem attempts_concat (h : event.call? = none) : attempts parse (events ++ [event]) =
    attempts parse events ++ (event.attempt? parse).toList := by
  rw [attempts, sinceCall_concat h, filterMap_concat]
  rfl

theorem posted_concat (h : event.call? = none) :
    posted (events ++ [event]) = posted events ++ event.sent?.toList := by
  rw [posted, sinceCall_concat h, filterMap_concat]
  rfl

end Histories

/-- Nothing has come of the attempts before this one, and each has sent one request at most. -/
structure Accounts (parse : List Char → Option Json) (events : List GatewayEvent)
    (trying : Trying) : Prop where
  called : called events = some trying.state
  first : trying.second = false → attempts parse events = []
  again : trying.second = true → ∃ first error, attempts parse events = [first] ∧
    first.decision trying.state = .error error
  sent : (posted events).length ≤
    (if trying.second then 1 else 0) + if trying.point = .reading then 1 else 0

structure Bookkept (parse : List Char → Option Json) (events : List GatewayEvent)
    (gateway : Gateway) : Prop where
  accounts : ∀ trying ∈ gateway.trying, Accounts parse events trying
  fresh : ∀ trying ∈ gateway.trying, trying.second = true → trying.point = .connecting →
    gateway.connection = none
  sent : (posted events).length ≤ 2

section Steps
variable {parse : List Char → Option Json} {model : String} {events : List GatewayEvent}
  {event : GatewayEvent} {gateway next : Gateway} {trying : Trying} {attempt : Attempt}

theorem conclude_cases (model : String) (gateway : Gateway) (trying : Trying) (attempt : Attempt)
    (elapsedNs : Int64) :
    (∃ decision, attempt.decision trying.state = .ok decision ∧
      gateway.conclude model trying attempt elapsedNs =
        ({ gateway with trying := none }, some decision)) ∨
    ∃ error, attempt.decision trying.state = .error error ∧
      (trying.second = true ∧ gateway.conclude model trying attempt elapsedNs =
          ({ gateway with trying := none, connection := none },
            some (heldDecision model trying.state error elapsedNs)) ∨
        trying.second = false ∧ gateway.conclude model trying attempt elapsedNs =
          ({ gateway with trying := some { state := trying.state, second := true }
                          connection := none }, none)) := by
  unfold Gateway.conclude
  cases hdecision : attempt.decision trying.state with
  | ok decision => exact .inl ⟨decision, rfl, rfl⟩
  | error error =>
    refine .inr ⟨error, rfl, ?_⟩
    cases hsecond : trying.second with
    | true => exact .inl ⟨rfl, rfl⟩
    | false => exact .inr ⟨rfl, rfl⟩

theorem Accounts.length_sent (h : Accounts parse events trying) (hevent : event.call? = none)
    (hsent : event.sent?.toList.length + (if trying.point = .reading then 1 else 0) ≤ 1) :
    (posted (events ++ [event])).length ≤ (if trying.second then 1 else 0) + 1 := by
  have hlength := h.sent
  rw [posted_concat hevent, List.length_append]
  omega

theorem Bookkept.conclude (h : Bookkept parse events gateway) (htrying : trying ∈ gateway.trying)
    (hevent : event.call? = none) (hattempt : event.attempt? parse = some attempt)
    (hsent : event.sent?.toList.length + (if trying.point = .reading then 1 else 0) ≤ 1)
    (other : Gateway) (elapsedNs : Int64) :
    Bookkept parse (events ++ [event]) (other.conclude model trying attempt elapsedNs).1 := by
  have haccounts := h.accounts trying htrying
  have hlength := haccounts.length_sent hevent hsent
  have htwo : (posted (events ++ [event])).length ≤ 2 := by
    split_ifs at hlength <;> omega
  rcases conclude_cases model other trying attempt elapsedNs with
    ⟨decision, _, hconclude⟩ | ⟨error, herror, ⟨_, hconclude⟩ | ⟨hfirst, hconclude⟩⟩
  · rw [hconclude]
    exact ⟨by simp, by simp, htwo⟩
  · rw [hconclude]
    exact ⟨by simp, by simp, htwo⟩
  · rw [hconclude]
    refine ⟨fun later hlater => ?_, fun later hlater _ _ => rfl, htwo⟩
    obtain rfl := Option.mem_some.mp hlater
    refine ⟨(called_concat hevent).trans haccounts.called, fun hfalse => ?_, fun _ => ?_, ?_⟩
    · exact absurd hfalse (by simp)
    · refine ⟨attempt, error, ?_, herror⟩
      rw [attempts_concat hevent, haccounts.first hfirst, hattempt]
      rfl
    · simpa [hfirst] using hlength

theorem Bookkept.proceed (h : Bookkept parse events gateway) (htrying : trying ∈ gateway.trying)
    (hevent : event.call? = none) (hattempt : event.attempt? parse = none) {point : Point}
    (hsent : event.sent?.toList.length + (if trying.point = .reading then 1 else 0) ≤
      if point = .reading then 1 else 0) (hpoint : point ≠ .connecting)
    (hnext : next.trying = some { trying with point }) :
    Bookkept parse (events ++ [event]) next := by
  have haccounts := h.accounts trying htrying
  have hlength := haccounts.sent
  have hattempts : attempts parse (events ++ [event]) = attempts parse events := by
    rw [attempts_concat hevent, hattempt, Option.toList_none, List.append_nil]
  have hmore : (posted (events ++ [event])).length ≤
      (if trying.second then 1 else 0) + if point = .reading then 1 else 0 := by
    rw [posted_concat hevent, List.length_append]
    omega
  refine ⟨fun later hlater => ?_, fun later hlater _ hconnecting => ?_, ?_⟩
  · obtain rfl := Option.mem_some.mp (hnext ▸ hlater)
    refine ⟨(called_concat hevent).trans haccounts.called, fun hfirst => ?_, fun hsecond => ?_,
      hmore⟩
    · exact hattempts.trans (haccounts.first hfirst)
    · rw [hattempts]
      exact haccounts.again hsecond
  · obtain rfl := Option.mem_some.mp (hnext ▸ hlater)
    exact absurd hconnecting hpoint
  · split_ifs at hmore <;> omega

theorem Bookkept.quiet (h : Bookkept parse events gateway) (hevent : event.call? = none)
    (hattempt : event.attempt? parse = none) (hsent : event.sent? = none)
    (htrying : next.trying = gateway.trying)
    (hconnection : next.connection = gateway.connection ∨ next.trying = none) :
    Bookkept parse (events ++ [event]) next := by
  have hattempts : attempts parse (events ++ [event]) = attempts parse events := by
    rw [attempts_concat hevent, hattempt, Option.toList_none, List.append_nil]
  have hsame : posted (events ++ [event]) = posted events := by
    rw [posted_concat hevent, hsent, Option.toList_none, List.append_nil]
  refine ⟨fun trying hmem => ?_, fun trying hmem hsecond hpoint => ?_, hsame ▸ h.sent⟩
  · have haccounts := h.accounts trying (htrying ▸ hmem)
    exact ⟨(called_concat hevent).trans haccounts.called,
      fun hfirst => hattempts.trans (haccounts.first hfirst),
      fun hsecond => by rw [hattempts]; exact haccounts.again hsecond, hsame ▸ haccounts.sent⟩
  · rcases hconnection with hconnection | hnone
    · rw [hconnection]
      exact h.fresh trying (htrying ▸ hmem) hsecond hpoint
    · exact absurd (hnone ▸ hmem) (by simp)

theorem Bookkept.step (h : Bookkept parse events gateway)
    (hstep : Step parse model gateway event next) : Bookkept parse (events ++ [event]) next := by
  cases hstep with
  | call state hnone =>
    have hnothing : attempts parse (events ++ [.call state]) = [] := by
      rw [attempts, sinceCall_call]
      rfl
    have hunsent : posted (events ++ [.call state]) = [] := by
      rw [posted, sinceCall_call]
      rfl
    refine ⟨fun trying htrying => ?_, fun trying htrying hsecond => ?_, by simp [hunsent]⟩
    · obtain rfl := Option.mem_some.mp htrying
      refine ⟨?_, fun _ => hnothing, fun hsecond => absurd hsecond (by simp), by simp [hunsent]⟩
      rw [called, filterMap_concat]
      exact List.getLast?_concat ..
    · obtain rfl := Option.mem_some.mp htrying
      exact absurd hsecond (by simp)
  | connect trying htrying hpoint hnone =>
    exact h.proceed htrying rfl rfl (by simp [GatewayEvent.sent?, hpoint]) (by decide) rfl
  | reuse trying htrying hpoint hsome =>
    exact h.proceed htrying rfl rfl (by simp [GatewayEvent.sent?, hpoint]) (by decide) rfl
  | write trying connection wire htrying hpoint hconnection hwire =>
    exact h.proceed htrying rfl rfl (by simp [GatewayEvent.sent?, hpoint]) (by decide) rfl
  | lose trying connection wire error elapsedNs htrying hpoint hconnection hwire =>
    exact h.conclude htrying rfl rfl (by simp [GatewayEvent.sent?, hpoint]) _ elapsedNs
  | fail trying error elapsedNs htrying hclosed =>
    apply h.conclude htrying rfl rfl _ _ elapsedNs
    show 0 + (if trying.point = .reading then 1 else 0) ≤ 1
    split_ifs <;> decide
  | answer connection wire asked response hwire hasked =>
    exact h.quiet rfl rfl rfl rfl (.inl rfl)
  | read trying connection wire response latencyNs elapsedNs htrying hpoint hconnection hwire =>
    exact h.conclude htrying rfl rfl (by simp [GatewayEvent.sent?, hpoint]) _ elapsedNs
  | close hnone => exact h.quiet rfl rfl rfl rfl (.inr hnone)

end Steps

/-- The gateway waits for the answer to the request that it wrote last, and has read the answers to
all the others on the connection. -/
structure Awaits (model : String) (events : List GatewayEvent) (gateway : Gateway)
    (state : ModelState) (connection : ℕ) (wire : Wire) : Prop where
  kept : gateway.connection = some connection
  found : gateway.wires[connection]? = some wire
  requests : ∃ earlier, wire.requests = earlier ++ [requestJson state model] ∧
    earlier.length = gateway.taken
  written : ∃ before since,
    events = before ++ .write connection (requestJson state model) :: since ∧
    (∀ event ∈ since, event.isAnswer = true) ∧
    ∀ response, wire.answers[gateway.taken]? = some response →
      .answer connection (requestJson state model) response ∈ since

/-- No connection has more answers than requests, and outside of a reading the open one has nothing
outstanding. -/
structure Wired (model : String) (events : List GatewayEvent) (gateway : Gateway) : Prop where
  bounded : ∀ wire ∈ gateway.wires, wire.answers.length ≤ wire.requests.length
  settled : ∀ connection ∈ gateway.connection,
    (∀ trying ∈ gateway.trying, trying.point ≠ .reading) →
    ∃ wire, gateway.wires[connection]? = some wire ∧ wire.requests.length = gateway.taken
  awaiting : ∀ trying ∈ gateway.trying, trying.point = .reading →
    ∃ connection wire, Awaits model events gateway trying.state connection wire

section Wires
variable {parse : List Char → Option Json} {model : String} {events : List GatewayEvent}
  {event : GatewayEvent} {gateway next : Gateway} {trying : Trying}

theorem conclude_wires (attempt : Attempt) (elapsedNs : Int64) :
    (gateway.conclude model trying attempt elapsedNs).1.wires = gateway.wires := by
  rcases conclude_cases model gateway trying attempt elapsedNs with
    ⟨_, _, h⟩ | ⟨_, _, ⟨_, h⟩ | ⟨_, h⟩⟩ <;> rw [h]

theorem conclude_point (attempt : Attempt) (elapsedNs : Int64) {later : Trying}
    (hlater : later ∈ (gateway.conclude model trying attempt elapsedNs).1.trying) :
    later.point ≠ .reading := by
  rcases conclude_cases model gateway trying attempt elapsedNs with
    ⟨_, _, h⟩ | ⟨_, _, ⟨_, h⟩ | ⟨_, h⟩⟩ <;> rw [h] at hlater
  · exact absurd hlater (by simp)
  · exact absurd hlater (by simp)
  · obtain rfl := Option.mem_some.mp hlater
    exact Point.noConfusion

theorem conclude_connection (attempt : Attempt) (elapsedNs : Int64) {connection : ℕ}
    (h : connection ∈ (gateway.conclude model trying attempt elapsedNs).1.connection) :
    (∃ decision, attempt.decision trying.state = .ok decision) ∧
      gateway.connection = some connection ∧
      (gateway.conclude model trying attempt elapsedNs).1.taken = gateway.taken := by
  rcases conclude_cases model gateway trying attempt elapsedNs with
    ⟨decision, hok, hconclude⟩ | ⟨_, _, ⟨_, hconclude⟩ | ⟨_, hconclude⟩⟩ <;> rw [hconclude] at h ⊢
  · exact ⟨⟨decision, hok⟩, h, rfl⟩
  · exact absurd h (by simp)
  · exact absurd h (by simp)

theorem bounded_put (h : Wired model events gateway) {connection : ℕ} {wire : Wire}
    (hwire : wire.answers.length ≤ wire.requests.length) :
    ∀ other ∈ (gateway.put connection wire).wires,
      other.answers.length ≤ other.requests.length := by
  intro other hother
  rcases List.mem_or_eq_of_mem_set hother with hmem | rfl
  · exact h.bounded other hmem
  · exact hwire

theorem wired_failed {error : String} (elapsedNs : Int64)
    (hbounded : ∀ wire ∈ gateway.wires, wire.answers.length ≤ wire.requests.length) :
    Wired model (events ++ [event])
      (gateway.conclude model trying (.failed error) elapsedNs).1 := by
  refine ⟨?_, fun connection hconnection => ?_, fun later hlater hpoint => ?_⟩
  · rw [conclude_wires]
    exact hbounded
  · obtain ⟨⟨decision, hok⟩, _⟩ := conclude_connection _ _ hconnection
    exact absurd hok (by simp [Attempt.decision])
  · exact absurd hpoint (conclude_point _ _ hlater)

theorem Wired.length_answers (h : Wired model events gateway) {connection : ℕ} {wire : Wire}
    (hwire : gateway.wires[connection]? = some wire) :
    wire.answers.length ≤ wire.requests.length :=
  h.bounded wire (List.mem_of_getElem? hwire)

theorem Awaits.answer {state : ModelState} {connection answered : ℕ} {wire other : Wire}
    {asked : List Char} (h : Awaits model events gateway state connection wire)
    (hother : gateway.wires[answered]? = some other)
    (hasked : other.requests[other.answers.length]? = some asked) (response : Response) :
    ∃ wire, Awaits model (events ++ [.answer answered asked response])
      (gateway.put answered { other with answers := other.answers ++ [response] })
      state connection wire := by
  obtain ⟨before, since, hevents, hanswers, hread⟩ := h.written
  have hmore : events ++ [.answer answered asked response] =
      before ++ .write connection (requestJson state model) ::
        (since ++ [.answer answered asked response]) := by
    rw [hevents, List.append_assoc, List.cons_append]
  have hall : ∀ event ∈ since ++ [.answer answered asked response], event.isAnswer = true := by
    intro event hevent
    rcases List.mem_append.mp hevent with hevent | hevent
    · exact hanswers event hevent
    · rw [List.mem_singleton.mp hevent]
      rfl
  by_cases hsame : answered = connection
  · subst hsame
    obtain rfl : other = wire := Option.some.inj (hother.symm.trans h.found)
    obtain ⟨earlier, hrequests, hlength⟩ := h.requests
    refine ⟨{ other with answers := other.answers ++ [response] }, h.kept, ?_,
      ⟨earlier, hrequests, hlength⟩, before, _, hmore, hall, fun answer hanswer => ?_⟩
    · exact List.getElem?_set_self (List.getElem?_eq_some_iff.mp hother).1
    · change (other.answers ++ [response])[gateway.taken]? = some answer at hanswer
      rcases lt_or_ge gateway.taken other.answers.length with hlt | hge
      · rw [List.getElem?_append_left hlt] at hanswer
        exact List.mem_append_left _ (hread answer hanswer)
      · -- the new answer, and the one request left to answer
        rw [List.getElem?_append_right hge] at hanswer
        have hindex : gateway.taken = other.answers.length := by
          by_contra hne
          rw [List.getElem?_eq_none (by simp; omega)] at hanswer
          exact absurd hanswer (by simp)
        rw [hindex, Nat.sub_self] at hanswer
        obtain rfl : response = answer := by simpa using hanswer
        rw [← hindex, ← hlength, hrequests, List.getElem?_concat_length] at hasked
        rw [Option.some.inj hasked]
        exact List.mem_append_right _ (List.mem_singleton_self _)
  · refine ⟨wire, h.kept, ?_, h.requests, before, _, hmore, hall, fun answer hanswer => ?_⟩
    · exact (List.getElem?_set_ne hsame).trans h.found
    · exact List.mem_append_left _ (hread answer hanswer)

theorem Wired.step (h : Wired model events gateway)
    (hstep : Step parse model gateway event next) : Wired model (events ++ [event]) next := by
  cases hstep with
  | call state hnone =>
    refine ⟨h.bounded, fun connection hconnection _ => ?_, fun trying htrying hpoint => ?_⟩
    · exact h.settled connection hconnection (by simp [hnone])
    · obtain rfl := Option.mem_some.mp htrying
      exact Point.noConfusion hpoint
  | connect trying htrying hpoint hnone =>
    refine ⟨fun wire hwire => ?_, fun connection hconnection _ => ?_, fun later hlater hreads => ?_⟩
    · rcases List.mem_append.mp hwire with hwire | hwire
      · exact h.bounded wire hwire
      · rw [List.mem_singleton.mp hwire]
        exact le_rfl
    · obtain rfl := Option.mem_some.mp hconnection
      exact ⟨{}, List.getElem?_concat_length, rfl⟩
    · obtain rfl := Option.mem_some.mp hlater
      exact Point.noConfusion hreads
  | reuse trying htrying hpoint hsome =>
    refine ⟨h.bounded, fun connection hconnection _ => ?_, fun later hlater hreads => ?_⟩
    · refine h.settled connection hconnection fun later hlater => ?_
      obtain rfl := Option.mem_some.mp (htrying ▸ hlater)
      rw [hpoint]
      exact Point.noConfusion
    · obtain rfl := Option.mem_some.mp hlater
      exact Point.noConfusion hreads
  | write trying connection wire htrying hpoint hconnection hwire =>
    have hanswers := h.length_answers hwire
    obtain ⟨other, hother, hlength⟩ := h.settled connection hconnection fun later hlater => by
      obtain rfl := Option.mem_some.mp (htrying ▸ hlater)
      rw [hpoint]
      exact Point.noConfusion
    obtain rfl : other = wire := Option.some.inj (hother.symm.trans hwire)
    refine ⟨?_, fun _ _ hidle => ?_, fun later hlater _ => ?_⟩
    · refine bounded_put h ?_
      rw [List.length_append]
      exact Nat.le_add_right_of_le hanswers
    · exact absurd rfl (hidle { trying with point := .reading } rfl)
    · obtain rfl := Option.mem_some.mp hlater
      refine ⟨connection,
        { other with requests := other.requests ++ [requestJson trying.state model] }, hconnection,
        ?_, ⟨other.requests, rfl, hlength⟩, events, [], rfl, by simp, fun response hresponse => ?_⟩
      · exact List.getElem?_set_self (List.getElem?_eq_some_iff.mp hwire).1
      · have hnone : other.answers[gateway.taken]? = none :=
          List.getElem?_eq_none (hlength ▸ hanswers)
        exact absurd (hnone.symm.trans hresponse) (by simp)
  | lose trying connection wire error elapsedNs htrying hpoint hconnection hwire =>
    refine wired_failed elapsedNs (bounded_put h ?_)
    rw [List.length_append]
    exact Nat.le_add_right_of_le (h.length_answers hwire)
  | fail trying error elapsedNs htrying hclosed => exact wired_failed elapsedNs h.bounded
  | answer connection wire asked response hwire hasked =>
    have hlt := (List.getElem?_eq_some_iff.mp hasked).1
    refine ⟨?_, fun other hother hidle => ?_, fun trying htrying hpoint => ?_⟩
    · refine bounded_put h ?_
      rw [List.length_append]
      exact hlt
    · obtain ⟨settled, hsettled, hlength⟩ := h.settled other hother hidle
      by_cases hsame : connection = other
      · subst hsame
        obtain rfl : settled = wire := Option.some.inj (hsettled.symm.trans hwire)
        exact ⟨_, List.getElem?_set_self (List.getElem?_eq_some_iff.mp hwire).1, hlength⟩
      · exact ⟨settled, (List.getElem?_set_ne hsame).trans hsettled, hlength⟩
    · obtain ⟨awaited, known, hawaits⟩ := h.awaiting trying htrying hpoint
      obtain ⟨later, hlater⟩ := hawaits.answer hwire hasked response
      exact ⟨awaited, later, hlater⟩
  | read trying connection wire response latencyNs elapsedNs htrying hpoint hconnection hwire
      hread =>
    refine ⟨?_, fun other hother _ => ?_, fun later hlater hreads => ?_⟩
    · rw [conclude_wires]
      exact h.bounded
    · obtain ⟨_, hopen, htaken⟩ := conclude_connection _ _ hother
      rw [conclude_wires, htaken]
      obtain ⟨awaited, known, hawaits⟩ := h.awaiting trying htrying hpoint
      obtain ⟨earlier, hrequests, hlength⟩ := hawaits.requests
      have hkept : connection = other := by
        dsimp only at hopen
        split_ifs at hopen
        exact Option.some.inj hopen
      obtain rfl : awaited = other :=
        Option.some.inj (hawaits.kept.symm.trans (hkept ▸ hconnection))
      refine ⟨known, hawaits.found, ?_⟩
      rw [hrequests, List.length_append, hlength]
      rfl
    · exact absurd hreads (conclude_point _ _ hlater)
  | close hnone =>
    exact ⟨h.bounded, by simp, fun trying htrying => absurd (hnone ▸ htrying) (by simp)⟩

end Wires

/-- The decision is what the only attempt of the call came to, or the one that `decide` makes of a
failed attempt and the one after it. -/
def Decides (parse : List Char → Option Json) (model : String) (before : List GatewayEvent)
    (event : GatewayEvent) (decision : ModelDecision) : Prop :=
  ∃ state, called before = some state ∧
    ((∃ only, attempts parse (before ++ [event]) = [only] ∧ only.decision state = .ok decision) ∨
      ∃ first second error elapsedNs, attempts parse (before ++ [event]) = [first, second] ∧
        first.decision state = .error error ∧
        decision = decide model state first second elapsedNs)

section Decisions
variable {parse : List Char → Option Json} {model : String} {events : List GatewayEvent}
  {event : GatewayEvent} {gateway next : Gateway} {trying : Trying} {attempt : Attempt}
  {decision : ModelDecision}

theorem Accounts.decides (h : Accounts parse events trying) (hevent : event.call? = none)
    (hattempt : event.attempt? parse = some attempt) (elapsedNs : Int64)
    (hresult : (gateway.conclude model trying attempt elapsedNs).2 = some decision) :
    Decides parse model events event decision := by
  have hattempts : attempts parse (events ++ [event]) = attempts parse events ++ [attempt] := by
    rw [attempts_concat hevent, hattempt, Option.toList_some]
  rcases conclude_cases model gateway trying attempt elapsedNs with
    ⟨other, hok, hconclude⟩ | ⟨error, herror, ⟨hsecond, hconclude⟩ | ⟨_, hconclude⟩⟩ <;>
    rw [hconclude] at hresult
  · obtain rfl := Option.some.inj hresult
    cases hsecond : trying.second with
    | false =>
      refine ⟨trying.state, h.called, .inl ⟨attempt, ?_, hok⟩⟩
      rw [hattempts, h.first hsecond, List.nil_append]
    | true =>
      obtain ⟨first, error, hfirst, herror⟩ := h.again hsecond
      refine ⟨trying.state, h.called, .inr ⟨first, attempt, error, elapsedNs, ?_, herror, ?_⟩⟩
      · rw [hattempts, hfirst, List.singleton_append]
      · rw [decide, herror, hok]
  · obtain rfl := Option.some.inj hresult
    obtain ⟨first, other, hfirst, hother⟩ := h.again hsecond
    refine ⟨trying.state, h.called, .inr ⟨first, attempt, other, elapsedNs, ?_, hother, ?_⟩⟩
    · rw [hattempts, hfirst, List.singleton_append]
    · rw [decide, hother, herror]
      rfl
  · exact absurd hresult (by simp)

theorem Bookkept.decides (h : Bookkept parse events gateway)
    (hstep : Step parse model gateway event next) (hresult : event.returned? = some decision) :
    Decides parse model events event decision := by
  cases hstep with
  | lose trying connection wire error elapsedNs htrying =>
    exact (h.accounts trying htrying).decides rfl rfl elapsedNs hresult
  | fail trying error elapsedNs htrying =>
    exact (h.accounts trying htrying).decides rfl rfl elapsedNs hresult
  | read trying connection wire response latencyNs elapsedNs htrying =>
    exact (h.accounts trying htrying).decides rfl rfl elapsedNs hresult
  | call | connect | reuse | write | answer | close =>
    exact absurd hresult (by simp [GatewayEvent.returned?])

end Decisions

end Astra.LayaGateway
