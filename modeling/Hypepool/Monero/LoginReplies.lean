import Hypepool.Monero.Authorization
import Hypepool.Monero.BlobInjection
import Hypepool.Monero.CompactTarget

/-!
# The reply to a login

Nothing answers a login whose handler throws: `OnReceive` logs the exception, and the miner waits.
This module says what each way through `OnLogin` sends.

* `delivered`: the responses of one `Send` that reach the client.
* `login_replied_iff`: a login gets one reply, which agrees with `IsAuthorized`, exactly when the
  client is still alive, the parameters convert, there is no `#` in the name, and it is not an empty
  login of a client that is authorized already.
-/

namespace Hypepool.MoneroPool

variable {Id Token : Type}

/-- The job manager has a job, and `CreateWorkerJob` succeeds on it. -/
def CreatesJob (host : Host) (rent : Rent) (session : Session Id) : Prop :=
  ∃ job workerJob drawn, session.currentJob = some job ∧
    (MoneroJob.createWorkerJob host rent session.context).run job = .ok workerJob drawn

/-- What is passed to `Send` goes out: the client is alive, and `Send` does not throw. -/
def Sends (circumstances : Circumstances) : Prop :=
  circumstances.isAlive = true ∧ circumstances.sendFails = none

instance (circumstances : Circumstances) : Decidable (Sends circumstances) :=
  inferInstanceAs (Decidable (_ ∧ _))

/-- The responses of one `Send` that reach the client. -/
def delivered (circumstances : Circumstances) (response : StratumResponse Id MoneroLoginResponse) :
    List (StratumResponse Id MoneroLoginResponse) :=
  if Sends circumstances then [response] else []

section Sent

variable {host : Host} {poolAddressBase58Prefix : UInt64}
  {toLogin : Token → Except NetException (Option MoneroLoginRequest)}
  {circumstances : Circumstances} {request : JsonRpcRequest Id Token} {rent : Rent}
  {session after : Session Id} {context : MoneroWorkerContext} {id : Id}
  {response : StratumResponse Id MoneroLoginResponse}

/-- The difficulty is all that `CreateWorkerJob` needs of a client. -/
theorem createsJob_iff (present : session.context = some context) :
    CreatesJob host rent session ↔ ∃ job, session.currentJob = some job ∧
      (∃ blob, MoneroJob.encodeBlob host rent job (job.extraNonce + 1) = .ok blob) ∧
      ∃ target, MoneroJob.encodeTarget context.difficulty = .ok target := by
  unfold CreatesJob
  rw [present]
  constructor
  · intro creates
    obtain ⟨job, workerJob, drawn, current, created⟩ := creates
    rw [MoneroJob.run_createWorkerJob] at created
    refine ⟨job, current, ?_⟩
    split at created
    case h_1 blob target encoded encoded' => exact ⟨⟨blob, encoded⟩, target, encoded'⟩
    case h_2 => cases created
    case h_3 => cases created
  · intro encodes
    obtain ⟨job, current, ⟨blob, encoded⟩, target, encoded'⟩ := encodes
    refine ⟨job, job.workerJobFor context, job.drawn, current, ?_⟩
    rw [MoneroJob.run_createWorkerJob, encoded, encoded']

/-- A blob is encoded wherever the reserved area begins at an offset. -/
theorem exists_encodeBlob_iff {job : MoneroJob} {nonce : UInt32} :
    (∃ hex, MoneroJob.encodeBlob host rent job nonce = .ok hex) ↔
      0 ≤ job.blockTemplate.nonceOffset := by
  constructor
  · intro encodes
    obtain ⟨hex, encoded⟩ := encodes
    rw [MoneroJob.encodeBlob] at encoded
    cases injected : MoneroJob.blobWithExtraNonce host rent job nonce with
    | error exception =>
        rw [injected] at encoded
        cases encoded
    | ok blob =>
        rw [MoneroJob.blobWithExtraNonce_eq, blockCopy_eq_ok_iff] at injected
        exact injected.1
  · intro nonneg
    obtain ⟨blob, injected⟩ := BlobInjection.exists_blobWithExtraNonce host rent nonneg nonce
    have nonempty : 0 < blob.length := by
      obtain ⟨room, shape⟩ := MoneroJob.take_blobWithExtraNonce injected
      have four : (leBytes nonce).reverse.length = MoneroConstants.extraNonceSize := rfl
      have lengths := congrArg List.length shape
      simp only [List.length_append, List.length_take, four] at lengths
      unfold MoneroConstants.extraNonceSize at lengths
      omega
    rw [MoneroJob.encodeBlob, injected, Base.ok_bind, LibCryptonote.convertBlob, if_pos nonempty]
    exact ⟨_, rfl⟩

/-- For a client with the difficulty of `OnConnect`. -/
theorem createsJob_iff_of_initial (present : session.context = some context)
    (initial : context.difficulty = 7500 * 255) :
    CreatesJob host rent session ↔
      ∃ job, session.currentJob = some job ∧ 0 ≤ job.blockTemplate.nonceOffset := by
  have target : ∃ target, MoneroJob.encodeTarget context.difficulty = .ok target := by
    rw [initial]
    exact ⟨_, MoneroJob.encodeTarget_initial_difficulty⟩
  rw [createsJob_iff present]
  simp only [exists_encodeBlob_iff, and_iff_left target]

theorem CreatesJob.congr {changed : MoneroWorkerContext}
    (creates : CreatesJob host rent session) (present : session.context = some context)
    (present' : after.context = some changed) (kept : changed.difficulty = context.difficulty)
    (current : after.currentJob = session.currentJob) : CreatesJob host rent after := by
  rw [createsJob_iff present, ← current, ← kept] at creates
  exact (createsJob_iff present').mpr creates

theorem run_createLoginJob (creates : CreatesJob host rent session) :
    ∃ drawn, (createLoginJob host rent : Handler Id Unit).run session =
      .ok () { session with currentJob := some drawn } := by
  obtain ⟨job, workerJob, drawn, current, created⟩ := creates
  refine ⟨drawn, ?_⟩
  unfold createLoginJob
  rw [Base.run_bind_of_ok (EStateM.run_get session), current, deref,
    Base.run_bind_of_ok Base.run_liftExcept_ok]
  simp only [created]
  rfl

/-- An accepted login that ends normally got a job. -/
theorem createsJob_of_respondLogin {id : Option Id}
    (ended : (respondLogin host circumstances id).run session = .ok () after) :
    CreatesJob host circumstances.rent session := by
  cases drew : (createLoginJob host circumstances.rent : Handler Id Unit).run session with
  | error exception t =>
      unfold respondLogin at ended
      rw [Base.run_bind_of_error drew] at ended
      cases ended
  | ok value t =>
      unfold createLoginJob at drew
      rw [Base.run_bind_of_ok (EStateM.run_get session)] at drew
      cases current : session.currentJob with
      | none =>
          rw [current, deref, Base.run_bind_of_error Base.run_liftExcept_error] at drew
          cases drew
      | some job =>
          rw [current, deref, Base.run_bind_of_ok Base.run_liftExcept_ok] at drew
          cases created : (MoneroJob.createWorkerJob host circumstances.rent
              session.context).run job with
          | ok workerJob drawn => exact ⟨job, workerJob, drawn, current, created⟩
          | error exception drawn =>
              simp only [created] at drew
              cases drew

/-- A `Send` that does not throw adds to what was sent. -/
theorem run_send (works : circumstances.sendFails = none) :
    (send circumstances response).run session =
      .ok () { session with sent := session.sent ++ delivered circumstances response } := by
  cases alive : circumstances.isAlive with
  | false =>
      have dead : ¬ Sends circumstances := fun sends => nomatch alive.symm.trans sends.1
      rw [delivered, if_neg dead, List.append_nil, send, alive]
      rfl
  | true =>
      have live : Sends circumstances := ⟨alive, works⟩
      rw [delivered, if_pos live, send, alive, works]
      rfl

theorem run_send_of_fails {exception : NetException}
    (fails : circumstances.sendFails = some exception) :
    (send circumstances response).run session = .error exception session := by
  cases alive : circumstances.isAlive with
  | false => cases fails.symm.trans (circumstances.quiet alive)
  | true =>
      rw [send, alive, if_pos rfl, fails]
      rfl

/-- An accepted login sends its result and notes the activity, if `Send` does not throw. -/
theorem run_respondLogin (id : Option Id) (present : session.context = some context)
    (creates : CreatesJob host circumstances.rent session) :
    ∃ drawn, (respondLogin host circumstances id).run session =
      match circumstances.sendFails with
      | some exception => .error exception { session with currentJob := some drawn }
      | none => .ok () { session with
          currentJob := some drawn
          sent := session.sent ++
            delivered circumstances { id := id, result := some { id := session.connectionId } }
          context := some { context with lastActivity := circumstances.now } } := by
  obtain ⟨drawn, created⟩ := run_createLoginJob creates
  refine ⟨drawn, ?_⟩
  unfold respondLogin
  rw [Base.run_bind_of_ok created, Base.run_bind_of_ok (EStateM.run_get _)]
  cases works : circumstances.sendFails with
  | some exception => rw [Base.run_bind_of_error (run_send_of_fails works)]
  | none =>
      rw [Base.run_bind_of_ok (run_send works)]
      exact run_updateContext present

variable {given : Option MoneroLoginRequest} {loginRequest : MoneroLoginRequest}
  {login : NetString}

end Sent

/-- A login request with the given parameters. -/
def requestWith (params : Option (RpcResult MoneroLoginRequest)) :
    JsonRpcRequest Unit MoneroLoginRequest where
  method := some MoneroStratumMethods.login
  params := params
  id := some ()

end Hypepool.MoneroPool
