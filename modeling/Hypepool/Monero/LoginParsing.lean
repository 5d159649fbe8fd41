import Hypepool.Monero.LoginReplies

/-!
# The parsing of a login

A login is an address, a payment id behind a `#` if there is one, and a worker name behind a `.` if
there is one.  `OnLogin` splits it at the dots, and the first part once more at the `#`.

* `Connected`: no handler ever sets a payment id, and so none of an earlier login is left over.
* `login_parsed_iff`: credentials are read back as they were written exactly when they are without a
  payment id, and there is a job to answer with.
-/

namespace Hypepool.MoneroPool

open Base

variable {Id Token : Type}

/-- A part of a login behind its separator. -/
def behind (separator : NetChar) : Option NetString → NetString
  | none => []
  | some part => separator :: part

/-- What a miner logs in with.  The address and the worker name hold no separator. -/
structure Credentials where
  address : NetString
  paymentId : Option NetString
  workerName : Option NetString
  address_plain : dot ∉ address ∧ hash ∉ address
  workerName_plain : ∀ name, workerName = some name → dot ∉ name ∧ hash ∉ name

/-- The login of a miner. -/
def Credentials.login (credentials : Credentials) : NetString :=
  credentials.address ++ behind hash credentials.paymentId ++ behind dot credentials.workerName

/-- `OnLogin` ends without an exception, with the client authorized under the credentials. -/
def LogsIn (host : Host) (poolAddressBase58Prefix : UInt64)
    (toLogin : Token → Except NetException (Option MoneroLoginRequest))
    (circumstances : Circumstances) (request : JsonRpcRequest Id Token) (session : Session Id)
    (credentials : Credentials) : Prop :=
  ∃ after context,
    (onLogin host poolAddressBase58Prefix toLogin circumstances request).run session =
      .ok () after ∧
    after.context = some context ∧ context.minerName = some credentials.address ∧
    context.paymentId = credentials.paymentId ∧ context.workerName = credentials.workerName ∧
    context.isAuthorized = true ∧ context.isSubscribed = true

/-! ## The parts of a login -/

section Parts

variable {credentials : Credentials} {front rest : NetString}

/-- Characters other than the dot go to the first part. -/
theorem firstPart_append (free : dot ∉ front) :
    firstPart (front ++ rest) = front ++ firstPart rest := by
  induction front with
  | nil => rfl
  | cons first front ih =>
      have free' : dot ∉ front := fun inside => free (List.mem_cons_of_mem first inside)
      have differs : dot ≠ first := fun same => free (same ▸ List.mem_cons_self)
      have other : ¬ (first == dot) = true := fun same => differs (eq_of_beq same).symm
      have found := splitOn_head (front ++ rest)
      rw [List.cons_append, List.cons_append, ← ih free', firstPart,
        List.splitOn_cons_eq_if_modifyHead, if_neg other]
      cases split : (front ++ rest).splitOn dot with
      | nil =>
          rw [split] at found
          cases found
      | cons head tail =>
          rw [split] at found
          cases found
          rfl

/-- Without a payment id, the address and the worker name are the parts. -/
theorem splitOn_login (without : credentials.paymentId = none) :
    credentials.login.splitOn dot = credentials.address :: credentials.workerName.toList := by
  rw [Credentials.login, without, behind, List.append_nil]
  cases named : credentials.workerName with
  | none =>
      rw [behind, List.append_nil]
      exact List.splitOn_eq_singleton credentials.address_plain.1
  | some name =>
      rw [behind, List.splitOn_append_cons_self_of_not_mem credentials.address_plain.1,
        List.splitOn_eq_singleton (credentials.workerName_plain name named).1]
      rfl

theorem firstPart_login (without : credentials.paymentId = none) :
    firstPart credentials.login = credentials.address := by
  rw [firstPart, splitOn_login without]
  rfl

theorem workerName_login (without : credentials.paymentId = none) :
    (credentials.login.splitOn dot)[1]? = credentials.workerName := by
  rw [splitOn_login without]
  cases credentials.workerName with
  | none => rfl
  | some name => rfl

/-- A payment id is looked for in the first part. -/
theorem hash_mem_firstPart_login {paymentId : NetString}
    (given : credentials.paymentId = some paymentId) : hash ∈ firstPart credentials.login := by
  have free : dot ∉ credentials.address ++ [hash] := by
    intro inside
    rcases List.mem_append.mp inside with front | mark
    · exact credentials.address_plain.1 front
    · cases List.mem_singleton.mp mark
  have shape : credentials.login = credentials.address ++ [hash] ++
      (paymentId ++ behind dot credentials.workerName) := by
    rw [Credentials.login, given, behind]
    simp only [List.append_assoc, List.cons_append, List.nil_append]
  rw [shape, firstPart_append free]
  exact List.mem_append_left _ (List.mem_append_right _ (List.mem_singleton_self hash))

end Parts

/-! ## What is left of earlier requests -/

/-- A client as `OnConnect` left it, the names and the standing apart. -/
def Connected (session : Session Id) : Prop :=
  ∃ context, session.context = some context ∧ context.paymentId = none ∧
    context.difficulty = 7500 * 255

section Requests

variable {host : Host} {poolAddressBase58Prefix : UInt64}
  {toLogin : Token → Except NetException (Option MoneroLoginRequest)} {session : Session Id}
  {arrival : Arrival Id Token} {context : MoneroWorkerContext}

theorem connected_of_onRecord (stands : onRecord session = some context)
    (without : context.paymentId = none) (initial : context.difficulty = 7500 * 255) :
    Connected session := by
  obtain ⟨before, present, same⟩ := Option.map_eq_some_iff.mp stands
  subst same
  exact ⟨before, present, without, initial⟩

/-- The payment id is only ever looked for behind the end of the name, which throws. -/
theorem Connected.handle (connected : Connected session) :
    Connected (handle host poolAddressBase58Prefix toLogin session arrival).2 := by
  obtain ⟨context, present, without, initial⟩ := connected
  have present' : ({ session with currentJob := arrival.currentJob } : Session Id).context =
      some context := present
  cases processed : processedLogin toLogin arrival.deserialized with
  | none =>
      have left := onRecord_of_not_processedLogin host poolAddressBase58Prefix
        arrival.circumstances { session with currentJob := arrival.currentJob } processed
      apply connected_of_onRecord (left.1.trans (congrArg (Option.map _) present'))
      · exact without
      · exact initial
  | some pair =>
      obtain ⟨loginRequest, login⟩ := pair
      have left := onRecord_of_processedLogin host poolAddressBase58Prefix
        arrival.circumstances present' processed
      dsimp only at left
      split at left
      case isTrue => exact connected_of_onRecord left.1 without initial
      case isFalse => exact connected_of_onRecord left.1 without initial

theorem connected_run (connectionId : NetString) (now : Int) (arrivals : List (Arrival Id Token)) :
    Connected (finalState (MoneroPool.handle host poolAddressBase58Prefix toLogin)
      (onConnect now { connectionId := connectionId }) arrivals) := by
  apply finalState_invariant Connected
  · intro session arrival connected
    exact connected.handle
  · exact ⟨_, rfl, rfl, rfl⟩

end Requests

/-! ## A login with a valid address -/

section Login

variable {host : Host} {poolAddressBase58Prefix : UInt64}
  {toLogin : Token → Except NetException (Option MoneroLoginRequest)}
  {circumstances : Circumstances} {request : JsonRpcRequest Id Token} {session : Session Id}
  {given : Option MoneroLoginRequest} {loginRequest : MoneroLoginRequest}
  {credentials : Credentials}

/-- The slice behind the `#` throws. -/
theorem not_logsIn_of_paymentId {paymentId : NetString} (connected : Connected session)
    (identified : request.id.isNone = false) (converted : request.paramsAs toLogin = .ok given)
    (carried : givenLogin given = some (loginRequest, credentials.login))
    (marked : credentials.paymentId = some paymentId) :
    ¬ LogsIn host poolAddressBase58Prefix toLogin circumstances request session credentials := by
  intro logsIn
  obtain ⟨context, present, _⟩ := connected
  obtain ⟨after, context', ended, _⟩ := logsIn
  rw [run_onLogin_of_mem present identified converted carried
    (hash_mem_firstPart_login marked)] at ended
  cases ended

/-- Without a payment id, all that is left to go wrong is the answer. -/
theorem logsIn_iff_of_no_paymentId (connected : Connected session)
    (identified : request.id.isNone = false) (converted : request.paramsAs toLogin = .ok given)
    (carried : givenLogin given = some (loginRequest, credentials.login))
    (valid : isValid host poolAddressBase58Prefix credentials.address = true)
    (without : credentials.paymentId = none) :
    LogsIn host poolAddressBase58Prefix toLogin circumstances request session credentials ↔
      circumstances.sendFails = none ∧ CreatesJob host circumstances.rent session := by
  obtain ⟨context, present, noPaymentId, initial⟩ := connected
  have first := firstPart_login without
  have absent : hash ∉ firstPart credentials.login := first ▸ credentials.address_plain.2
  have run := run_onLogin_of_not_mem host poolAddressBase58Prefix circumstances present identified
    converted carried absent
  rw [first, if_pos valid] at run
  -- validating the address changed nothing that a worker job depends on
  have same : CreatesJob host circumstances.rent (authorized host poolAddressBase58Prefix session
      (recorded context loginRequest credentials.login) credentials.address) ↔
        CreatesJob host circumstances.rent session := by
    constructor
    · intro creates
      exact creates.congr rfl present rfl rfl
    · intro creates
      exact creates.congr present rfl rfl rfl
  unfold LogsIn
  rw [run, ← same]
  constructor
  · intro logsIn
    obtain ⟨after, _, ended, _⟩ := logsIn
    have creates := createsJob_of_respondLogin ended
    obtain ⟨drawn, answered⟩ := run_respondLogin request.id rfl creates
    cases works : circumstances.sendFails with
    | none => exact ⟨rfl, creates⟩
    | some exception =>
        rw [works] at answered
        cases answered.symm.trans ended
  · intro answers
    obtain ⟨works, creates⟩ := answers
    obtain ⟨drawn, answered⟩ := run_respondLogin request.id rfl creates
    rw [works] at answered
    refine ⟨_, _, answered, rfl, ?_, ?_, ?_, valid, valid⟩
    · exact congrArg some first
    · exact noPaymentId.trans without.symm
    · exact workerName_login without

/-- An address that is valid is not empty. -/
theorem givenLogin_credentials (carried : loginRequest.login = some credentials.login)
    (valid : isValid host poolAddressBase58Prefix credentials.address = true) :
    givenLogin (some loginRequest) = some (loginRequest, credentials.login) := by
  have nonempty : credentials.login ≠ [] := by
    intro empty
    have none := List.append_eq_nil_iff.mp (List.append_eq_nil_iff.mp empty).1
    rw [none.1] at valid
    cases valid
  rw [givenLogin]
  simp only [Option.bind_eq_bind, Option.bind_some, carried, if_neg nonempty]

end Login

/-- **The parsing of a login.**  For a client that has just connected, any sequence of requests, and
then any login of credentials with a valid address: `OnLogin` ends without an exception, with the
client authorized and known under exactly these credentials, if and only if they are without a
payment id, `Send` works, and the current job has room for an extra nonce. -/
theorem login_parsed_iff (host : Host) (poolAddressBase58Prefix : UInt64)
    (toLogin : Token → Except NetException (Option MoneroLoginRequest)) (connectionId : NetString)
    (now : Int) (earlier : List (Arrival Id Token)) (currentJob : Option MoneroJob)
    (circumstances : Circumstances) (request : JsonRpcRequest Id Token)
    (loginRequest : MoneroLoginRequest) (credentials : Credentials)
    (identified : request.id.isNone = false)
    (converted : request.paramsAs toLogin = .ok (some loginRequest))
    (carried : loginRequest.login = some credentials.login)
    (valid : validateAddress host poolAddressBase58Prefix (some credentials.address) = .ok true) :
    let session := finalState (handle host poolAddressBase58Prefix toLogin)
      (onConnect now { connectionId := connectionId }) earlier
    LogsIn host poolAddressBase58Prefix toLogin circumstances request
        { session with currentJob := currentJob } credentials ↔
      credentials.paymentId = none ∧ circumstances.sendFails = none ∧
        ∃ job, currentJob = some job ∧ 0 ≤ job.blockTemplate.nonceOffset := by
  intro session
  have connected : Connected { session with currentJob := currentJob } :=
    connected_run connectionId now earlier
  have connected' := connected
  obtain ⟨context, present, _, initial⟩ := connected'
  rw [validateAddress_some] at valid
  have isValid := Except.ok.inj valid
  have given : givenLogin (some loginRequest) = some (loginRequest, credentials.login) :=
    givenLogin_credentials carried isValid
  cases marked : credentials.paymentId with
  | some paymentId =>
      refine iff_of_false (not_logsIn_of_paymentId connected identified converted given marked) ?_
      intro answers
      cases answers.1
  | none =>
      rw [logsIn_iff_of_no_paymentId connected identified converted given isValid marked,
        createsJob_iff_of_initial present initial]
      exact (and_iff_right rfl).symm

/-- The address of the pool, with the given payment id, and a worker. -/
def poolCredentials (paymentId : Option NetString) : Credentials where
  address := MoneroPoolContext.poolAddress
  paymentId := paymentId
  workerName := some (text "rig")
  address_plain := ⟨poolAddress_plain.1, poolAddress_plain.2.1⟩
  workerName_plain := by
    intro name same
    cases same
    decide +kernel

theorem validateAddress_poolAddress :
    validateAddress sampleHost 53 (some MoneroPoolContext.poolAddress) = .ok true := by
  rw [validateAddress_some, isValid_poolAddress]

/-- A login behind one that broke off at its payment id. -/
theorem login_parsed_later :
    let session := finalState (handle sampleHost 53 fun token => .ok (some token))
      (onConnect 0 { connectionId := text "1" }) [loginArrival (text "x#y")]
    LogsIn sampleHost 53 (fun token => .ok (some token)) sampleCircumstances
      (requestWith (some (.token ⟨some (poolCredentials none).login, none⟩)))
      { session with currentJob := some MoneroJob.sampleJob } (poolCredentials none) := by
  intro session
  apply (login_parsed_iff sampleHost 53 (fun token => .ok (some token)) (text "1") 0
    [loginArrival (text "x#y")] (some MoneroJob.sampleJob)
    sampleCircumstances (requestWith (some (.token ⟨some (poolCredentials none).login, none⟩)))
    ⟨some (poolCredentials none).login, none⟩ (poolCredentials none) rfl rfl rfl
    validateAddress_poolAddress).mpr
  exact ⟨rfl, rfl, MoneroJob.sampleJob, rfl, by decide +kernel⟩

/-- The first login of a client, with a payment id, a valid address and an ordinary job: it
throws. -/
theorem login_not_parsed :
    validateAddress sampleHost 53 (some (poolCredentials (some (text "p"))).address) = .ok true ∧
      ¬ LogsIn sampleHost 53 (fun token => .ok (some token))
        sampleCircumstances
        (requestWith (some (.token ⟨some (poolCredentials (some (text "p"))).login, none⟩)))
        { onConnect 0 { connectionId := text "1" } with currentJob := some MoneroJob.sampleJob }
        (poolCredentials (some (text "p"))) := by
  refine ⟨validateAddress_poolAddress, ?_⟩
  have connected : Connected ({ onConnect 0 { connectionId := text "1" } with
      currentJob := some MoneroJob.sampleJob } : Session Unit) := ⟨_, rfl, rfl, rfl⟩
  exact not_logsIn_of_paymentId connected rfl rfl
    (givenLogin_credentials rfl isValid_poolAddress) rfl

end Hypepool.MoneroPool
