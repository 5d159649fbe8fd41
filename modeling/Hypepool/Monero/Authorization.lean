import Hypepool.Base.Run
import Hypepool.Monero.ExtraNonce
import Hypepool.Monero.MoneroPool

/-!
# Whether an authorized client is the miner on record

`OnLogin` writes `MinerName` before it validates the address, and the payment id path throws in
between.  So a client that is authorized already can change the name on record to one that was
never validated:

* `authorizedIsValid_run_iff`: the name on record stays valid exactly when no such client logs in
  with a `#` in the name, behind something that is no valid address.
-/

namespace Hypepool.MoneroPool

open Base

variable {Id Token : Type}

/-- One request of a client: the received data, the circumstances of its handler, and the job
manager's current job at the time. -/
structure Arrival (Id Token : Type) where
  deserialized : Except NetException (Option (JsonRpcRequest Id Token))
  circumstances : Circumstances
  currentJob : Option MoneroJob

/-- The handling of one request. -/
def handle (host : Host) (poolAddressBase58Prefix : UInt64)
    (toLogin : Token → Except NetException (Option MoneroLoginRequest)) (session : Session Id)
    (arrival : Arrival Id Token) : Unit × Session Id :=
  ((), onReceive host poolAddressBase58Prefix toLogin arrival.circumstances arrival.deserialized
    { session with currentJob := arrival.currentJob })

/-- If the client is authorized, then the miner on record has a valid address. -/
def AuthorizedIsValid (host : Host) (poolAddressBase58Prefix : UInt64) (session : Session Id) :
    Prop :=
  ∀ context, session.context = some context → context.isAuthorized = true →
    validateAddress host poolAddressBase58Prefix context.minerName = .ok true

/-- After the request, the miner on record of an authorized client has a valid address. -/
def EndsValid (host : Host) (poolAddressBase58Prefix : UInt64)
    (toLogin : Token → Except NetException (Option MoneroLoginRequest)) (session : Session Id)
    (arrival : Arrival Id Token) : Prop :=
  AuthorizedIsValid host poolAddressBase58Prefix
    (handle host poolAddressBase58Prefix toLogin session arrival).2

/-- The request is no login of an authorized client with a `#` in the first part of the login, or
what is in front of the `#` is a valid address. -/
def KeepsName (host : Host) (poolAddressBase58Prefix : UInt64)
    (toLogin : Token → Except NetException (Option MoneroLoginRequest)) (session : Session Id)
    (arrival : Arrival Id Token) : Prop :=
  ∀ loginRequest login context,
    processedLogin toLogin arrival.deserialized = some (loginRequest, login) →
    session.context = some context → context.isAuthorized = true → hash ∈ firstPart login →
    validateAddress host poolAddressBase58Prefix (some (beforeHash (firstPart login))) = .ok true

section Step

variable {host : Host} {poolAddressBase58Prefix : UInt64}
  {toLogin : Token → Except NetException (Option MoneroLoginRequest)} {session : Session Id}
  {arrival : Arrival Id Token} {context : MoneroWorkerContext}

theorem authorizedIsValid_of_standing {name : Option NetString} {isAuthorized : Bool}
    (stands : standing session = some (name, isAuthorized)) :
    AuthorizedIsValid host poolAddressBase58Prefix session ↔
      (isAuthorized = true → validateAddress host poolAddressBase58Prefix name = .ok true) := by
  unfold standing at stands
  rcases Option.map_eq_some_iff.mp stands with ⟨context, present, same⟩
  cases same
  constructor
  · intro valid
    exact valid context present
  · intro valid other present'
    cases Option.some.inj (present.symm.trans present')
    exact valid

theorem exists_context_of_standing {pair : Option NetString × Bool}
    (stands : standing session = some pair) : ∃ context, session.context = some context := by
  rcases Option.map_eq_some_iff.mp stands with ⟨context, present, _⟩
  exact ⟨context, present⟩

/-- What a request leaves on record: the same, or the name of a login, validated or behind a
`#`. -/
theorem standing_handle (present : session.context = some context) :
    standing (handle host poolAddressBase58Prefix toLogin session arrival).2 =
      match processedLogin toLogin arrival.deserialized with
      | none => some (context.minerName, context.isAuthorized)
      | some (_, login) =>
          if hash ∈ firstPart login then
            some (some (beforeHash (firstPart login)), context.isAuthorized)
          else some (some (firstPart login),
            isValid host poolAddressBase58Prefix (firstPart login)) := by
  have present' : ({ session with currentJob := arrival.currentJob } : Session Id).context =
      some context := present
  cases processed : processedLogin toLogin arrival.deserialized with
  | none =>
      have left := onReceive_of_not_processedLogin host poolAddressBase58Prefix
        arrival.circumstances { session with currentJob := arrival.currentJob } processed
      exact left.1.trans (standing_of_context present')
  | some pair =>
      rcases pair with ⟨loginRequest, login⟩
      have left := onReceive_of_processedLogin host poolAddressBase58Prefix
        arrival.circumstances present' processed
      dsimp only at left ⊢
      split at left
      case isTrue marked =>
        rw [if_pos marked]
        exact left.1
      case isFalse absent =>
        rw [if_neg absent]
        exact left.1

/-- A request ends with the name on record valid exactly when it is not one that replaces it
unvalidated. -/
theorem endsValid_iff (present : session.context = some context)
    (valid : AuthorizedIsValid host poolAddressBase58Prefix session) :
    EndsValid host poolAddressBase58Prefix toLogin session arrival ↔
      KeepsName host poolAddressBase58Prefix toLogin session arrival := by
  have stands : standing (handle host poolAddressBase58Prefix toLogin session arrival).2 = _ :=
    standing_handle present
  unfold EndsValid KeepsName
  cases processed : processedLogin toLogin arrival.deserialized with
  | none =>
      rw [processed] at stands
      rw [authorizedIsValid_of_standing stands]
      exact iff_of_true (valid context present) fun _ _ _ isLogin => nomatch isLogin
  | some pair =>
      rcases pair with ⟨loginRequest, login⟩
      rw [processed] at stands
      dsimp only at stands
      split at stands
      case isTrue marked =>
        -- nothing was validated: the client keeps its authorization
        rw [authorizedIsValid_of_standing stands]
        constructor
        · intro kept request login' context' isLogin present' isAuthorized _
          cases isLogin
          cases Option.some.inj (present.symm.trans present')
          exact kept isAuthorized
        · intro keeps isAuthorized
          exact keeps loginRequest login context rfl present isAuthorized marked
      case isFalse absent =>
        rw [authorizedIsValid_of_standing stands, validateAddress_some]
        refine iff_of_true (fun isAuthorized => isAuthorized ▸ rfl) ?_
        intro request login' context' isLogin _ _ marked
        cases isLogin
        exact (absent marked).elim

theorem exists_context_handle (present : session.context = some context) :
    ∃ context, (handle host poolAddressBase58Prefix toLogin session arrival).2.context =
      some context := by
  have stands : standing (handle host poolAddressBase58Prefix toLogin session arrival).2 = _ :=
    standing_handle present
  split at stands
  · exact exists_context_of_standing stands
  · split at stands
    · exact exists_context_of_standing stands
    · exact exists_context_of_standing stands

end Step

/-- **Authorization and the miner on record.**  For a client that has just connected, and any
sequence of requests: after each of them the miner on record of an authorized client has a valid
address, if and only if no request is a login of an already authorized client with a `#` in the
first part of the login, behind something that is no valid address. -/
theorem authorizedIsValid_run_iff (host : Host) (poolAddressBase58Prefix : UInt64)
    (toLogin : Token → Except NetException (Option MoneroLoginRequest)) (connectionId : NetString)
    (now : Int) (arrivals : List (Arrival Id Token)) :
    Along (handle host poolAddressBase58Prefix toLogin)
        (EndsValid host poolAddressBase58Prefix toLogin)
        (onConnect now { connectionId := connectionId }) arrivals ↔
      Along (handle host poolAddressBase58Prefix toLogin)
        (KeepsName host poolAddressBase58Prefix toLogin)
        (onConnect now { connectionId := connectionId }) arrivals := by
  apply along_iff_of_carried fun session => (∃ context, session.context = some context) ∧
    AuthorizedIsValid host poolAddressBase58Prefix session
  · intro session arrival both
    rcases both with ⟨⟨context, present⟩, valid⟩
    exact endsValid_iff present valid
  · intro session arrival both ends
    rcases both with ⟨⟨context, present⟩, _⟩
    exact ⟨exists_context_handle present, ends⟩
  · refine ⟨⟨_, rfl⟩, fun context present isAuthorized => ?_⟩
    cases Option.some.inj present
    cases isAuthorized

theorem firstPart_of_not_mem {login : NetString} (free : dot ∉ login) :
    firstPart login = login := by
  rw [firstPart, List.splitOn_eq_singleton free, List.headD_cons]

/-- A library that decodes the pool's own address, and no other. -/
def sampleHost : Host where
  isLittleEndian := true
  convertBlob _ _ := none
  decodeAddress address := if address = MoneroPoolContext.poolAddress then 53 else 0

/-- The client is alive, and `Send` works. -/
def sampleCircumstances : Circumstances where
  rent := MoneroJob.exactRent
  now := 0

/-- A login with the given string, on an ordinary job. -/
def loginArrival (login : NetString) : Arrival Unit MoneroLoginRequest where
  deserialized := .ok (some {
    method := some MoneroStratumMethods.login
    params := some (.token ⟨some login, none⟩)
    id := some () })
  circumstances := sampleCircumstances
  currentJob := some MoneroJob.sampleJob

theorem processedLogin_loginArrival {login : NetString} (given : login ≠ []) :
    processedLogin (fun token => .ok (some token)) (loginArrival login).deserialized =
      some (⟨some login, none⟩, login) := by
  dsimp only [loginArrival, processedLogin]
  rw [if_pos ⟨rfl, rfl⟩]
  dsimp only [JsonRpcRequest.paramsAs, DaemonClient.castResult]
  rw [givenLogin]
  exact if_neg given

theorem poolAddress_plain : dot ∉ MoneroPoolContext.poolAddress ∧
    hash ∉ MoneroPoolContext.poolAddress ∧
    MoneroPoolContext.poolAddress.length = MoneroConstants.addressLength := by
  refine ⟨?_, ?_, ?_⟩
  · simp [MoneroPoolContext.poolAddress, text, dot]
  · simp [MoneroPoolContext.poolAddress, text, hash]
  · simp [MoneroPoolContext.poolAddress, text, MoneroConstants.addressLength]

theorem poolAddress_ne_nil : MoneroPoolContext.poolAddress ≠ [] := by
  intro empty
  have length := poolAddress_plain.2.2
  rw [empty] at length
  cases length

theorem isValid_poolAddress : isValid sampleHost 53 MoneroPoolContext.poolAddress = true := by
  have decoded : sampleHost.decodeAddress MoneroPoolContext.poolAddress = 53 := by
    dsimp only [sampleHost]
    exact if_pos rfl
  rw [isValid, poolAddress_plain.2.2, decoded, beq_self_eq_true, beq_self_eq_true, Bool.and_self]

/-- A client logs in with a valid address, and then as `x#y`: it stays authorized, as `x`. -/
theorem authorized_as_unvalidated_name :
    ¬ Along (handle sampleHost 53 fun token => .ok (some token))
      (EndsValid sampleHost 53 fun token => .ok (some token))
      (onConnect 0 { connectionId := text "1" })
      [loginArrival MoneroPoolContext.poolAddress, loginArrival (text "x#y")] := by
  intro along
  obtain ⟨noDot, noHash, _⟩ := poolAddress_plain
  have present : (onConnect 0 { connectionId := text "1" } : Session Unit).context =
      some (MoneroWorkerContext.initializeContext {} (7500 * 255) 0) := rfl
  have stands : standing (handle sampleHost 53 (fun token => .ok (some token))
      (onConnect 0 { connectionId := text "1" })
      (loginArrival MoneroPoolContext.poolAddress)).2 =
        some (some MoneroPoolContext.poolAddress, true) := by
    rw [standing_handle present, processedLogin_loginArrival poolAddress_ne_nil]
    dsimp only
    rw [firstPart_of_not_mem noDot, if_neg noHash, isValid_poolAddress]
  rcases Option.map_eq_some_iff.mp stands with ⟨context, present', same⟩
  have keeps := (endsValid_iff present' along.1).mp along.2.1
  have replaced := keeps _ _ context (processedLogin_loginArrival (by decide)) present'
    (congrArg Prod.snd same) (by decide +kernel)
  rw [validateAddress_some] at replaced
  exact absurd replaced (by decide +kernel)

end Hypepool.MoneroPool
