import Hypepool.Common.Stratum
import Hypepool.Monero.MoneroJob

/-!
# The requests of a miner

`OnRequestAsync` dispatches a request by its method; `OnLogin` records who logs in, validates the
address, and answers with a job.  A handler runs on a `Session`, what the pool and the client keep
for one connection, and may end in an exception at any call that throws; `onReceive` catches it.

* `onRecord_of_processedLogin`: what a login does to the record of the client.
* `onRecord_of_not_processedLogin`: no other request touches it, the last activity apart.
-/

namespace Hypepool

open MoneroConstants

/-- `MoneroPoolContext.PoolAddress`. -/
def MoneroPoolContext.poolAddress : NetString :=
  text "A1fZZpe64V6R4z2jzkN6zm9YEYsGhNC3uTyDyGr1Ettp2o32" ++
    text "HNAwFhKXifcwuDcqNMQrkvm3JWXThh79KeUXhHZzA5MASZE"

namespace MoneroStratumMethods

def login : NetString := text "login"

def getJob : NetString := text "getjob"

def submit : NetString := text "submit"

def keepAlive : NetString := text "keepalived"

end MoneroStratumMethods

structure MoneroLoginRequest where
  login : Option NetString
  userAgent : Option NetString
  deriving DecidableEq

/-- The answer to a login.  Its `Job` is always `null`, as `CreateWorkerJob` returns that. -/
structure MoneroLoginResponse where
  status : NetString := text "OK"
  id : NetString
  deriving DecidableEq

/-- What there is of a connection while a request is handled. -/
structure Session (Id : Type) where
  connectionId : NetString
  context : Option MoneroWorkerContext := none
  /-- the job manager's `CurrentJob`. -/
  currentJob : Option MoneroJob := none
  /-- the responses sent, in order. -/
  sent : List (StratumResponse Id MoneroLoginResponse) := []
  /-- the addresses for which `IsAuthorized` was set, in order. -/
  accepted : List NetString := []

/-- What a handler meets when it runs: the array it rents, the time, whether `Send` finds the client
alive, and what it throws, if it does. -/
structure Circumstances where
  rent : Rent
  now : Int
  isAlive : Bool := true
  sendFails : Option NetException := none
  /-- for a client that is not alive nothing is tried. -/
  quiet : isAlive = false → sendFails = none := by first | exact fun _ => rfl | exact nofun

def Session.setContext {Id : Type} (session : Session Id) (context : MoneroWorkerContext) :
    Session Id := { session with context := some context }

abbrev Handler (Id α : Type) := EStateM NetException (Session Id) α

namespace MoneroPool

def dot : NetChar := 0x2e

def hash : NetChar := 0x23

variable {Id Token : Type}

/-- `ValidateAddress`. -/
def validateAddress (host : Host) (poolAddressBase58Prefix : UInt64) (address : Option NetString) :
    Except NetException Bool := do
  let address ← deref address
  if address.length ≠ addressLength then return false
  else return (← LibCryptonote.decodeAddress host (some address)) == poolAddressBase58Prefix

/-- Writing to the client's context. -/
def updateContext (change : MoneroWorkerContext → MoneroWorkerContext) : Handler Id Unit := do
  let context ← Base.liftExcept (deref (← get).context)
  modify fun session => session.setContext (change context)

/-- `Send`. -/
def send (circumstances : Circumstances) (response : StratumResponse Id MoneroLoginResponse) :
    Handler Id Unit :=
  if circumstances.isAlive then
    match circumstances.sendFails with
    | some exception => throw exception
    | none => modify fun session => { session with sent := session.sent ++ [response] }
  else return

/-- `RespondError`. -/
def respondError (circumstances : Circumstances) (error : StratumError) (message : NetString)
    (id : Option Id) : Handler Id Unit :=
  send circumstances { id := id, error := some (error.code, message) }

/-- The login request and its login, unless `string.IsNullOrEmpty(loginRequest?.Login)`. -/
def givenLogin (loginRequest : Option MoneroLoginRequest) :
    Option (MoneroLoginRequest × NetString) := do
  let loginRequest ← loginRequest
  let login ← loginRequest.login
  if login = [] then none else some (loginRequest, login)

/-- "extract worker & miner" and "set useragent". -/
def recordMiner (loginRequest : MoneroLoginRequest) (login : NetString) : Handler Id Unit :=
  let split := login.splitOn dot
  updateContext fun context =>
    { context with
      minerName := split[0]?
      workerName := split[1]?
      userAgent := loginRequest.userAgent }

/-- "set payment-id if any": what is in front of the `#` becomes the miner, and the payment id is
taken from this shorter name. -/
def recordPaymentId : Handler Id Unit := do
  let context ← Base.liftExcept (deref (← get).context)
  let minerName ← Base.liftExcept (deref context.minerName)
  match minerName.idxOf? hash with
  | none => return
  | some index =>
      let front ← Base.liftExcept (substring minerName 0 index)
      updateContext fun context => { context with minerName := some front }
      let paymentId ← Base.liftExcept (substringFrom front (index + 1))
      updateContext fun context => { context with paymentId := some paymentId }

/-- `context.IsAuthorized = context.IsSubscribed = ValidateAddress(context.MinerName)`. -/
def authorize (host : Host) (poolAddressBase58Prefix : UInt64) : Handler Id Bool := do
  let context ← Base.liftExcept (deref (← get).context)
  let hasValidAddress ←
    Base.liftExcept (validateAddress host poolAddressBase58Prefix context.minerName)
  updateContext fun context =>
    { context with isSubscribed := hasValidAddress, isAuthorized := hasValidAddress }
  if hasValidAddress then
    modify fun session => { session with accepted := session.accepted ++ context.minerName.toList }
  return hasValidAddress

/-- `CurrentJob.CreateWorkerJob(client)`. -/
def createLoginJob (host : Host) (rent : Rent) : Handler Id Unit := do
  let session ← get
  let job ← Base.liftExcept (deref session.currentJob)
  match (MoneroJob.createWorkerJob host rent session.context).run job with
  | .ok _ job => modify fun session => { session with currentJob := some job }
  | .error exception job =>
      modify fun session => { session with currentJob := some job }
      throw exception

/-- `OnLogin` once the address is validated. -/
def respondLogin (host : Host) (circumstances : Circumstances) (id : Option Id) :
    Handler Id Unit := do
  createLoginJob host circumstances.rent
  send circumstances { id := id, result := some { id := (← get).connectionId } }
  updateContext fun context => { context with lastActivity := circumstances.now }

/-- `OnLogin`. -/
def onLogin (host : Host) (poolAddressBase58Prefix : UInt64)
    (toLogin : Token → Except NetException (Option MoneroLoginRequest))
    (circumstances : Circumstances) (request : JsonRpcRequest Id Token) : Handler Id Unit := do
  if request.id.isNone then
    respondError circumstances .minusOne (text "missing request id") request.id
  else
    match givenLogin (← Base.liftExcept (request.paramsAs toLogin)) with
    | none => respondError circumstances .minusOne (text "missing login") request.id
    | some (loginRequest, login) =>
        recordMiner loginRequest login
        recordPaymentId
        if ← authorize host poolAddressBase58Prefix then
          respondLogin host circumstances request.id
        else respondError circumstances .minusOne (text "invalid login") request.id

/-- `OnRequestAsync`.  `getjob` and `submit` are not handled yet. -/
def onRequestAsync (host : Host) (poolAddressBase58Prefix : UInt64)
    (toLogin : Token → Except NetException (Option MoneroLoginRequest))
    (circumstances : Circumstances) (request : JsonRpcRequest Id Token) : Handler Id Unit :=
  if request.method = some MoneroStratumMethods.login then
    onLogin host poolAddressBase58Prefix toLogin circumstances request
  else if request.method = some MoneroStratumMethods.getJob then return
  else if request.method = some MoneroStratumMethods.submit then return
  else if request.method = some MoneroStratumMethods.keepAlive then
    updateContext fun context => { context with lastActivity := circumstances.now }
  else
    respondError circumstances .other
      (text "Unsupported request " ++ request.method.getD []) request.id

/-- `OnConnect`: the client gets a context with the difficulty 7500. -/
def onConnect (now : Int) (session : Session Id) : Session Id :=
  session.setContext (MoneroWorkerContext.initializeContext {} (7500 * 255) now)

/-- `StratumServer.OnReceive`: the request in the received data, if it can be deserialised, is
dispatched, and what it throws is logged. -/
def onReceive (host : Host) (poolAddressBase58Prefix : UInt64)
    (toLogin : Token → Except NetException (Option MoneroLoginRequest))
    (circumstances : Circumstances)
    (deserialized : Except NetException (Option (JsonRpcRequest Id Token)))
    (session : Session Id) : Session Id :=
  match deserialized with
  | .ok (some request) =>
      Base.stateAfter (onRequestAsync host poolAddressBase58Prefix toLogin circumstances request)
        session
  | _ => session

/-! ## What a request does to the standing of its client -/

/-- The miner on record and whether it is authorized. -/
def standing (session : Session Id) : Option (Option NetString × Bool) :=
  session.context.map fun context => (context.minerName, context.isAuthorized)

/-- What is on record of a client: its context, apart from the time of its last activity. -/
def onRecord (session : Session Id) : Option MoneroWorkerContext :=
  session.context.map fun context => { context with lastActivity := 0 }

/-- The login that `OnLogin` processes, if there is one in the received data. -/
def processedLogin (toLogin : Token → Except NetException (Option MoneroLoginRequest)) :
    Except NetException (Option (JsonRpcRequest Id Token)) →
      Option (MoneroLoginRequest × NetString)
  | .ok (some request) =>
      if request.method = some MoneroStratumMethods.login ∧ request.id.isNone = false then
        match request.paramsAs toLogin with
        | .ok loginRequest => givenLogin loginRequest
        | .error _ => none
      else none
  | _ => none

/-- `split[0]` of a login. -/
def firstPart (login : NetString) : NetString := (login.splitOn dot).headD []

/-- A name up to its first `#`. -/
def beforeHash (name : NetString) : NetString :=
  match name.idxOf? hash with
  | none => name
  | some index => name.take index

theorem standing_of_context {session : Session Id} {context : MoneroWorkerContext}
    (present : session.context = some context) :
    standing session = some (context.minerName, context.isAuthorized) := by
  rw [standing, present, Option.map_some]

/-- The standing of a client is on record. -/
theorem standing_of_onRecord {session : Session Id} {context : MoneroWorkerContext}
    (stands : onRecord session = some context) :
    standing session = some (context.minerName, context.isAuthorized) := by
  obtain ⟨before, present, same⟩ := Option.map_eq_some_iff.mp stands
  subst same
  have stands := standing_of_context present
  exact stands

/-- Whether an address has the length and the prefix `ValidateAddress` asks for. -/
def isValid (host : Host) (poolAddressBase58Prefix : UInt64) (address : NetString) : Bool :=
  address.length == addressLength && host.decodeAddress address == poolAddressBase58Prefix

section Standing

variable {host : Host} {poolAddressBase58Prefix : UInt64}
  {toLogin : Token → Except NetException (Option MoneroLoginRequest)}
  {circumstances : Circumstances} {request : JsonRpcRequest Id Token}
  {deserialized : Except NetException (Option (JsonRpcRequest Id Token))}
  {session : Session Id} {context : MoneroWorkerContext} {loginRequest : MoneroLoginRequest}
  {login first : NetString}

theorem validateAddress_some (host : Host) (poolAddressBase58Prefix : UInt64)
    (address : NetString) :
    validateAddress host poolAddressBase58Prefix (some address) =
      .ok (isValid host poolAddressBase58Prefix address) := by
  unfold validateAddress isValid
  rw [deref, Base.ok_bind]
  by_cases length : address.length = addressLength
  · have nonempty : address ≠ [] := by
      intro same
      subst same
      cases length
    rw [if_neg (not_not_intro length), LibCryptonote.decodeAddress, if_neg nonempty, Base.ok_bind,
      length, beq_self_eq_true, Bool.true_and]
    rfl
  · rw [if_pos length, beq_eq_false_iff_ne.mpr length, Bool.false_and]
    rfl

theorem run_updateContext {change : MoneroWorkerContext → MoneroWorkerContext}
    (present : session.context = some context) :
    (updateContext change).run session =
      .ok () (session.setContext (change context)) := by
  unfold updateContext
  rw [Base.run_bind_of_ok (EStateM.run_get session), present, deref,
    Base.run_bind_of_ok Base.run_liftExcept_ok]
  rfl

theorem splitOn_head (login : NetString) : (login.splitOn dot)[0]? = some (firstPart login) := by
  have nonempty := List.splitOn_ne_nil dot login
  unfold firstPart
  cases split : login.splitOn dot with
  | nil => exact (nonempty split).elim
  | cons first rest => rfl

/-- The context after `recordMiner`. -/
def recorded (context : MoneroWorkerContext) (loginRequest : MoneroLoginRequest)
    (login : NetString) : MoneroWorkerContext :=
  { context with
    minerName := some (firstPart login)
    workerName := (login.splitOn dot)[1]?
    userAgent := loginRequest.userAgent }

theorem run_recordMiner (present : session.context = some context) :
    (recordMiner loginRequest login).run session =
      .ok () (session.setContext (recorded context loginRequest login)) := by
  unfold recordMiner
  rw [run_updateContext present, splitOn_head]
  rfl

theorem run_recordPaymentId_of_not_mem (present : session.context = some context)
    (named : context.minerName = some first) (absent : hash ∉ first) :
    recordPaymentId.run session = .ok () session := by
  unfold recordPaymentId
  rw [Base.run_bind_of_ok (EStateM.run_get session), present, deref,
    Base.run_bind_of_ok Base.run_liftExcept_ok, named, deref,
    Base.run_bind_of_ok Base.run_liftExcept_ok, List.idxOf?_eq_none_iff.mpr absent]
  rfl

/-- A `#` in the name throws: the payment id is looked for behind the end of the shortened name. -/
theorem run_recordPaymentId_of_mem (present : session.context = some context)
    (named : context.minerName = some first) (marked : hash ∈ first) :
    recordPaymentId.run session = .error .argumentOutOfRange
      (session.setContext { context with minerName := some (beforeHash first) }) := by
  rcases Option.isSome_iff_exists.mp (List.isSome_idxOf?.mpr marked) with ⟨index, found⟩
  rcases List.idxOf?_eq_some_iff.mp found with ⟨bound, _⟩
  have front : substring first 0 index = .ok (first.take index) := by
    rw [substring, if_pos (by omega), List.drop_zero]
  have behind : substringFrom (first.take index) (index + 1) = .error .argumentOutOfRange := by
    rw [substringFrom, if_neg (by rw [List.length_take]; omega)]
  unfold recordPaymentId
  rw [Base.run_bind_of_ok (EStateM.run_get session), present, deref,
    Base.run_bind_of_ok Base.run_liftExcept_ok, named, deref,
    Base.run_bind_of_ok Base.run_liftExcept_ok, found]
  simp only [front]
  rw [Base.run_bind_of_ok Base.run_liftExcept_ok, Base.run_bind_of_ok (run_updateContext present),
    behind, Base.run_bind_of_error Base.run_liftExcept_error, beforeHash, found]

/-- The session after the address of the recorded miner was validated. -/
def authorized (host : Host) (poolAddressBase58Prefix : UInt64) (session : Session Id)
    (context : MoneroWorkerContext) (address : NetString) : Session Id :=
  let valid := isValid host poolAddressBase58Prefix address
  { session.setContext { context with isSubscribed := valid, isAuthorized := valid } with
    accepted := session.accepted ++ if valid then [address] else [] }

theorem run_authorize {address : NetString} (present : session.context = some context)
    (named : context.minerName = some address) :
    (authorize host poolAddressBase58Prefix).run session =
      .ok (isValid host poolAddressBase58Prefix address)
        (authorized host poolAddressBase58Prefix session context address) := by
  have valid : validateAddress host poolAddressBase58Prefix context.minerName =
      .ok (isValid host poolAddressBase58Prefix address) := by
    rw [named]
    exact validateAddress_some host poolAddressBase58Prefix address
  unfold authorize authorized
  rw [Base.run_bind_of_ok (EStateM.run_get session), present, deref,
    Base.run_bind_of_ok Base.run_liftExcept_ok, valid,
    Base.run_bind_of_ok Base.run_liftExcept_ok, Base.run_bind_of_ok (run_updateContext present),
    named]
  cases isValid host poolAddressBase58Prefix address with
  | false =>
      simp only [Bool.false_eq_true, if_false, List.append_nil]
      rfl
  | true => rfl

/-! ## The runs of a login -/

/-- Parameters that do not convert to a login end it. -/
theorem run_onLogin_of_unconverted {exception : NetException}
    (identified : request.id.isNone = false)
    (failed : request.paramsAs toLogin = .error exception) :
    (onLogin host poolAddressBase58Prefix toLogin circumstances request).run session =
      .error exception session := by
  unfold onLogin
  rw [if_neg (by rw [identified]; exact Bool.false_ne_true), failed]
  exact Base.run_bind_of_error Base.run_liftExcept_error

/-- A request without a login is answered with an error. -/
theorem run_onLogin_of_missing (identified : request.id.isNone = false)
    {given : Option MoneroLoginRequest} (converted : request.paramsAs toLogin = .ok given)
    (missing : givenLogin given = none) :
    (onLogin host poolAddressBase58Prefix toLogin circumstances request).run session =
      (respondError circumstances .minusOne (text "missing login") request.id).run session := by
  unfold onLogin
  rw [if_neg (by rw [identified]; exact Bool.false_ne_true), converted,
    Base.run_bind_of_ok Base.run_liftExcept_ok]
  simp only [missing]

/-- A `#` in the name ends the login: what is in front of it is recorded, and nothing is
validated. -/
theorem run_onLogin_of_mem (present : session.context = some context)
    (identified : request.id.isNone = false) {given : Option MoneroLoginRequest}
    (converted : request.paramsAs toLogin = .ok given)
    (carried : givenLogin given = some (loginRequest, login)) (marked : hash ∈ firstPart login) :
    (onLogin host poolAddressBase58Prefix toLogin circumstances request).run session =
      .error .argumentOutOfRange (session.setContext { recorded context loginRequest login with
        minerName := some (beforeHash (firstPart login)) }) := by
  have named : (recorded context loginRequest login).minerName = some (firstPart login) := rfl
  have present' : (session.setContext (recorded context loginRequest login)).context =
      some (recorded context loginRequest login) := rfl
  unfold onLogin
  rw [if_neg (by rw [identified]; exact Bool.false_ne_true), converted,
    Base.run_bind_of_ok Base.run_liftExcept_ok]
  simp only [carried]
  rw [Base.run_bind_of_ok (run_recordMiner present),
    Base.run_bind_of_error (run_recordPaymentId_of_mem present' named marked)]
  rfl

/-- Any other login is answered by whether the name is a valid address. -/
theorem run_onLogin_of_not_mem (host : Host) (poolAddressBase58Prefix : UInt64)
    (circumstances : Circumstances) (present : session.context = some context)
    (identified : request.id.isNone = false) {given : Option MoneroLoginRequest}
    (converted : request.paramsAs toLogin = .ok given)
    (carried : givenLogin given = some (loginRequest, login)) (absent : hash ∉ firstPart login) :
    (onLogin host poolAddressBase58Prefix toLogin circumstances request).run session =
      (if isValid host poolAddressBase58Prefix (firstPart login) = true then
        respondLogin host circumstances request.id
      else respondError circumstances .minusOne (text "invalid login") request.id).run
        (authorized host poolAddressBase58Prefix session (recorded context loginRequest login)
          (firstPart login)) := by
  have named : (recorded context loginRequest login).minerName = some (firstPart login) := rfl
  have present' : (session.setContext (recorded context loginRequest login)).context =
      some (recorded context loginRequest login) := rfl
  unfold onLogin
  rw [if_neg (by rw [identified]; exact Bool.false_ne_true), converted,
    Base.run_bind_of_ok Base.run_liftExcept_ok]
  simp only [carried]
  rw [Base.run_bind_of_ok (run_recordMiner present),
    Base.run_bind_of_ok (run_recordPaymentId_of_not_mem present' named absent),
    Base.run_bind_of_ok (run_authorize present' named)]
  rfl

/-! ## What is left alone -/

/-- A program that sends, draws a job or touches other fields of the context keeps the standing and
the accepted addresses. -/
def Untouched {α : Type} (x : Handler Id α) : Prop :=
  ∀ before : Session Id, Base.Maintains
    (fun session => standing session = standing before ∧ session.accepted = before.accepted) x

/-- A program that at most sends, draws a job and notes an activity leaves everything on record. -/
def Unrecorded {α : Type} (x : Handler Id α) : Prop :=
  ∀ before : Session Id, Base.Maintains
    (fun session => onRecord session = onRecord before ∧ session.accepted = before.accepted) x

theorem unrecorded_lastActivity {now : Int} :
    Unrecorded (updateContext fun context => { context with lastActivity := now } :
      Handler Id Unit) := by
  intro before session same
  cases present : session.context with
  | none =>
      have failed : (updateContext fun context => { context with lastActivity := now }).run
          session = .error .nullReference session := by
        unfold updateContext
        rw [Base.run_bind_of_ok (EStateM.run_get session), present]
        rfl
      rw [Base.stateAfter_of_error failed]
      exact same
  | some context =>
      rw [Base.stateAfter_of_ok (run_updateContext present)]
      refine ⟨?_, same.2⟩
      rw [← same.1, onRecord, onRecord, present]
      rfl

theorem unrecorded_send {response : StratumResponse Id MoneroLoginResponse} :
    Unrecorded (send circumstances response) := by
  intro before
  unfold send
  split
  · split
    · exact Base.maintains_throw
    · exact Base.maintains_modify fun _ same => same
  · exact Base.maintains_pure

theorem unrecorded_createLoginJob {rent : Rent} :
    Unrecorded (createLoginJob host rent : Handler Id Unit) := by
  intro before
  unfold createLoginJob
  refine Base.maintains_bind Base.maintains_get fun session => ?_
  refine Base.maintains_bind Base.maintains_liftExcept fun job => ?_
  split
  · exact Base.maintains_modify fun _ same => same
  · refine Base.maintains_bind (Base.maintains_modify fun _ same => same) fun _ => ?_
    exact Base.maintains_throw

theorem unrecorded_respondLogin {id : Option Id} :
    Unrecorded (respondLogin host circumstances id) := by
  intro before
  unfold respondLogin
  refine Base.maintains_bind (unrecorded_createLoginJob before) fun _ => ?_
  refine Base.maintains_bind Base.maintains_get fun session => ?_
  refine Base.maintains_bind (unrecorded_send before) fun _ => ?_
  exact unrecorded_lastActivity before

theorem Unrecorded.eq {x : Handler Id Unit} (unrecorded : Unrecorded x) (session : Session Id) :
    onRecord (Base.stateAfter x session) = onRecord session ∧
      (Base.stateAfter x session).accepted = session.accepted :=
  unrecorded session session ⟨rfl, rfl⟩

theorem standing_congr {before after : Session Id} (same : onRecord after = onRecord before) :
    standing after = standing before := by
  have fromRecord : ∀ session : Session Id, standing session =
      (onRecord session).map fun context => (context.minerName, context.isAuthorized) := by
    intro session
    rw [onRecord, Option.map_map]
    rfl
  rw [fromRecord, fromRecord, same]

theorem Unrecorded.untouched {x : Handler Id Unit} (unrecorded : Unrecorded x) : Untouched x := by
  intro before session same
  obtain ⟨record, accepted⟩ := unrecorded.eq session
  exact ⟨(standing_congr record).trans same.1, accepted.trans same.2⟩

/-! ## What a login does -/

/-- A processed login without a `#` in the name: the name is recorded, and the client is authorized
if it is a valid address. -/
theorem onLogin_of_not_mem (present : session.context = some context)
    (identified : request.id.isNone = false) {given : Option MoneroLoginRequest}
    (converted : request.paramsAs toLogin = .ok given)
    (carried : givenLogin given = some (loginRequest, login)) (absent : hash ∉ firstPart login) :
    let valid := isValid host poolAddressBase58Prefix (firstPart login)
    let after := Base.stateAfter
      (onLogin host poolAddressBase58Prefix toLogin circumstances request) session
    onRecord after = some { recorded context loginRequest login with
        isSubscribed := valid, isAuthorized := valid, lastActivity := 0 } ∧
      after.accepted = session.accepted ++ if valid then [firstPart login] else [] := by
  have answer : Unrecorded (if isValid host poolAddressBase58Prefix (firstPart login) = true then
      respondLogin host circumstances request.id
      else respondError circumstances .minusOne (text "invalid login") request.id) := by
    split
    · exact unrecorded_respondLogin
    · exact unrecorded_send
  intro valid after
  have ended : after = _ := Base.stateAfter_congr
    (run_onLogin_of_not_mem _ _ _ present identified converted carried absent)
  rw [ended]
  exact answer.eq _

/-- A processed login with a `#` in the name: what is in front of it is recorded, and nothing is
validated. -/
theorem onLogin_of_mem (present : session.context = some context)
    (identified : request.id.isNone = false) {given : Option MoneroLoginRequest}
    (converted : request.paramsAs toLogin = .ok given)
    (carried : givenLogin given = some (loginRequest, login)) (marked : hash ∈ firstPart login) :
    let after := Base.stateAfter
      (onLogin host poolAddressBase58Prefix toLogin circumstances request) session
    onRecord after = some { recorded context loginRequest login with
        minerName := some (beforeHash (firstPart login)), lastActivity := 0 } ∧
      after.accepted = session.accepted := by
  intro after
  have ended : after = _ := Base.stateAfter_of_error
    (run_onLogin_of_mem present identified converted carried marked)
  rw [ended]
  exact ⟨rfl, rfl⟩

/-- A login that is not processed leaves the record alone. -/
theorem unrecorded_onLogin (unprocessed : ∀ given, request.id.isNone = false →
      request.paramsAs toLogin = .ok given → givenLogin given = none) :
    Unrecorded (onLogin host poolAddressBase58Prefix toLogin circumstances request) := by
  intro before session same
  cases identified : request.id.isNone with
  | true =>
      rw [onLogin, if_pos identified]
      exact unrecorded_send before session same
  | false =>
      cases converted : request.paramsAs toLogin with
      | error exception =>
          rw [Base.stateAfter_of_error (run_onLogin_of_unconverted identified converted)]
          exact same
      | ok given =>
          rw [Base.stateAfter_congr (run_onLogin_of_missing identified converted
            (unprocessed given identified converted))]
          exact unrecorded_send before session same

/-! ## What a request does -/

/-- What a processed login leaves on record of a client. -/
theorem onRecord_of_processedLogin (host : Host) (poolAddressBase58Prefix : UInt64)
    (circumstances : Circumstances) (present : session.context = some context)
    (processed : processedLogin toLogin deserialized = some (loginRequest, login)) :
    let valid := isValid host poolAddressBase58Prefix (firstPart login)
    let after := onReceive host poolAddressBase58Prefix toLogin circumstances deserialized session
    if hash ∈ firstPart login then
      onRecord after = some { recorded context loginRequest login with
          minerName := some (beforeHash (firstPart login)), lastActivity := 0 } ∧
        after.accepted = session.accepted
    else
      onRecord after = some { recorded context loginRequest login with
          isSubscribed := valid, isAuthorized := valid, lastActivity := 0 } ∧
        after.accepted = session.accepted ++ if valid then [firstPart login] else [] := by
  unfold processedLogin at processed
  split at processed
  case h_2 => cases processed
  case h_1 request =>
    split at processed
    case isFalse => cases processed
    case isTrue login_request =>
      split at processed
      case h_2 => cases processed
      case h_1 given converted =>
        dsimp only [onReceive]
        rw [onRequestAsync, if_pos login_request.1]
        split
        case isTrue marked =>
          exact onLogin_of_mem present login_request.2 converted processed marked
        case isFalse absent =>
          exact onLogin_of_not_mem present login_request.2 converted processed absent

/-- What a request leaves in the session of a client with a context. -/
theorem onReceive_of_processedLogin (host : Host) (poolAddressBase58Prefix : UInt64)
    (circumstances : Circumstances) (present : session.context = some context)
    (processed : processedLogin toLogin deserialized = some (loginRequest, login)) :
    let valid := isValid host poolAddressBase58Prefix (firstPart login)
    let after := onReceive host poolAddressBase58Prefix toLogin circumstances deserialized session
    if hash ∈ firstPart login then
      standing after = some (some (beforeHash (firstPart login)), context.isAuthorized) ∧
        after.accepted = session.accepted
    else
      standing after = some (some (firstPart login), valid) ∧
        after.accepted = session.accepted ++ if valid then [firstPart login] else [] := by
  have left := onRecord_of_processedLogin host poolAddressBase58Prefix circumstances present
    processed
  dsimp only at left ⊢
  split at left
  case isTrue marked =>
    rw [if_pos marked]
    exact ⟨standing_of_onRecord left.1, left.2⟩
  case isFalse absent =>
    rw [if_neg absent]
    exact ⟨standing_of_onRecord left.1, left.2⟩

theorem unrecorded_onRequestAsync
    (unprocessed : processedLogin toLogin (.ok (some request)) = none) :
    Unrecorded (onRequestAsync host poolAddressBase58Prefix toLogin circumstances request) := by
  unfold onRequestAsync
  split
  case isTrue method =>
    apply unrecorded_onLogin
    intro given identified converted
    rw [processedLogin, if_pos ⟨method, identified⟩, converted] at unprocessed
    exact unprocessed
  case isFalse =>
    split
    · exact fun _ => Base.maintains_pure
    split
    · exact fun _ => Base.maintains_pure
    split
    · exact unrecorded_lastActivity
    · exact unrecorded_send

/-- Any other request leaves the record and the accepted addresses alone. -/
theorem onRecord_of_not_processedLogin (host : Host) (poolAddressBase58Prefix : UInt64)
    (circumstances : Circumstances) (session : Session Id)
    (unprocessed : processedLogin toLogin deserialized = none) :
    let after := onReceive host poolAddressBase58Prefix toLogin circumstances deserialized session
    onRecord after = onRecord session ∧ after.accepted = session.accepted := by
  cases deserialized with
  | error exception => exact ⟨rfl, rfl⟩
  | ok request =>
      cases request with
      | none => exact ⟨rfl, rfl⟩
      | some request => exact (unrecorded_onRequestAsync unprocessed).eq session

/-- Any other request leaves the standing and the accepted addresses alone. -/
theorem onReceive_of_not_processedLogin (host : Host) (poolAddressBase58Prefix : UInt64)
    (circumstances : Circumstances) (session : Session Id)
    (unprocessed : processedLogin toLogin deserialized = none) :
    let after := onReceive host poolAddressBase58Prefix toLogin circumstances deserialized session
    standing after = standing session ∧ after.accepted = session.accepted := by
  cases deserialized with
  | error exception => exact ⟨rfl, rfl⟩
  | ok request =>
      cases request with
      | none => exact ⟨rfl, rfl⟩
      | some request =>
          exact (unrecorded_onRequestAsync unprocessed).untouched session session ⟨rfl, rfl⟩

end Standing

end MoneroPool

end Hypepool
