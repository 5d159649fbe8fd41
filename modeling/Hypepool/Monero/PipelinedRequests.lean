import Hypepool.Monero.Authorization

/-!
# Pipelined requests

`StratumServer.OnReceive` hands every line of a connection to a task of its own, and nothing orders
these tasks: the handlers may run in another order than the one in which the lines came.

* `pipelined_eq_iff`: what the client is known by is then what the last login that was handled
  wrote, so it is as in the order of arrival exactly when the last writes are the same.
-/

namespace Hypepool.MoneroPool

open Base

variable {Id Token : Type}

/-- The names a login leaves on record. -/
structure Names where
  minerName : Option NetString
  workerName : Option NetString
  userAgent : Option NetString
  deriving DecidableEq

def names (context : MoneroWorkerContext) : Names :=
  ⟨context.minerName, context.workerName, context.userAgent⟩

/-- `IsAuthorized` and `IsSubscribed`. -/
def admission (context : MoneroWorkerContext) : Bool × Bool :=
  (context.isAuthorized, context.isSubscribed)

/-- What a client is known by. -/
def identity (session : Session Id) : Option (Names × (Bool × Bool)) :=
  session.context.map fun context => (names context, admission context)

/-- The names a request writes: those of the login it processes. -/
def namesWritten (toLogin : Token → Except NetException (Option MoneroLoginRequest))
    (deserialized : Except NetException (Option (JsonRpcRequest Id Token))) : Option Names :=
  (processedLogin toLogin deserialized).map fun processed =>
    ⟨some (beforeHash (firstPart processed.2)), (processed.2.splitOn dot)[1]?,
      processed.1.userAgent⟩

/-- The admission a request writes: that of the login it processes, unless there is a `#` in the
name. -/
def admissionWritten (host : Host) (poolAddressBase58Prefix : UInt64)
    (toLogin : Token → Except NetException (Option MoneroLoginRequest))
    (deserialized : Except NetException (Option (JsonRpcRequest Id Token))) :
    Option (Bool × Bool) :=
  (processedLogin toLogin deserialized).bind fun processed =>
    if hash ∈ firstPart processed.2 then none
    else
      let valid := isValid host poolAddressBase58Prefix (firstPart processed.2)
      some (valid, valid)

section Step

variable {host : Host} {poolAddressBase58Prefix : UInt64}
  {toLogin : Token → Except NetException (Option MoneroLoginRequest)} {session : Session Id}
  {arrival : Arrival Id Token} {context : MoneroWorkerContext}

theorem identity_of_onRecord (stands : onRecord session = some context) :
    identity session = some (names context, admission context) := by
  obtain ⟨before, present, same⟩ := Option.map_eq_some_iff.mp stands
  subst same
  rw [identity, present]
  rfl

theorem beforeHash_of_not_mem {name : NetString} (absent : hash ∉ name) :
    beforeHash name = name := by
  rw [beforeHash, List.idxOf?_eq_none_iff.mpr absent]

/-- A request writes its names and its admission over what the client was known by. -/
theorem identity_handle (present : session.context = some context) :
    identity (handle host poolAddressBase58Prefix toLogin session arrival).2 =
      some ((namesWritten toLogin arrival.deserialized).getD (names context),
        (admissionWritten host poolAddressBase58Prefix toLogin arrival.deserialized).getD
          (admission context)) := by
  have present' : ({ session with currentJob := arrival.currentJob } : Session Id).context =
      some context := present
  unfold namesWritten admissionWritten
  cases processed : processedLogin toLogin arrival.deserialized with
  | none =>
      have left := onRecord_of_not_processedLogin host poolAddressBase58Prefix
        arrival.circumstances { session with currentJob := arrival.currentJob } processed
      have stands : onRecord (handle host poolAddressBase58Prefix toLogin session arrival).2 =
          some { context with lastActivity := 0 } := by
        apply left.1.trans
        rw [onRecord, present', Option.map_some]
      have known := identity_of_onRecord stands
      exact known
  | some pair =>
      obtain ⟨loginRequest, login⟩ := pair
      have left := onRecord_of_processedLogin host poolAddressBase58Prefix
        arrival.circumstances present' processed
      dsimp only at left
      rw [Option.map_some, Option.bind_some, Option.getD_some]
      split at left
      case isTrue marked =>
        have stands :
            onRecord (handle host poolAddressBase58Prefix toLogin session arrival).2 = _ := left.1
        rw [identity_of_onRecord stands, if_pos marked]
        rfl
      case isFalse absent =>
        have stands :
            onRecord (handle host poolAddressBase58Prefix toLogin session arrival).2 = _ := left.1
        rw [identity_of_onRecord stands, if_neg absent, beforeHash_of_not_mem absent]
        rfl

/-- The handling of requests is that of two registers. -/
theorem identity_run (present : session.context = some context)
    (arrivals : List (Arrival Id Token)) :
    identity (finalState (handle host poolAddressBase58Prefix toLogin) session arrivals) =
      some (finalState (overwrite (namesWritten toLogin)) (names context)
          (arrivals.map Arrival.deserialized),
        finalState (overwrite (admissionWritten host poolAddressBase58Prefix toLogin))
          (admission context) (arrivals.map Arrival.deserialized)) := by
  induction arrivals generalizing session context with
  | nil =>
      rw [finalState_nil, identity, present]
      rfl
  | cons arrival arrivals ih =>
      have handled : identity
          (handle host poolAddressBase58Prefix toLogin session arrival).2 = _ :=
        identity_handle present
      obtain ⟨after, present', same⟩ := Option.map_eq_some_iff.mp handled
      obtain ⟨sameNames, sameAdmission⟩ := Prod.mk.inj same
      rw [finalState_cons, ih present', sameNames, sameAdmission]
      rfl

end Step

/-- **Pipelined requests.**  For a client with a context, the requests of its connection in the
order of arrival, and any order in which their handlers run, in whatever circumstances: the client
ends with the names and the admission that were written last.  So it is known as after a handling
in the order of arrival if and only if both orders have the same last names and the same last
admission. -/
theorem pipelined_eq_iff (host : Host) (poolAddressBase58Prefix : UInt64)
    (toLogin : Token → Except NetException (Option MoneroLoginRequest)) (session : Session Id)
    (context : MoneroWorkerContext) (present : session.context = some context)
    (arrivals executed : List (Arrival Id Token))
    (same : (executed.map Arrival.deserialized).Perm (arrivals.map Arrival.deserialized)) :
    let run := finalState (handle host poolAddressBase58Prefix toLogin) session
    let lastNames := fun order : List (Arrival Id Token) =>
      lastWritten (namesWritten toLogin) (order.map Arrival.deserialized)
    let lastAdmission := fun order : List (Arrival Id Token) =>
      lastWritten (admissionWritten host poolAddressBase58Prefix toLogin)
        (order.map Arrival.deserialized)
    identity (run executed) = some ((lastNames executed).getD (names context),
        (lastAdmission executed).getD (admission context)) ∧
      (identity (run executed) = identity (run arrivals) ↔
        lastNames executed = lastNames arrivals ∧
          lastAdmission executed = lastAdmission arrivals) := by
  intro run lastNames lastAdmission
  constructor
  · rw [identity_run present, finalState_overwrite, finalState_overwrite]
  · rw [identity_run present, identity_run present, Option.some_inj, Prod.mk.injEq,
      overwrite_eq_iff_of_perm (same.filterMap _), overwrite_eq_iff_of_perm (same.filterMap _)]

/-- A `keepalived` request. -/
def keepAliveArrival : Arrival Unit MoneroLoginRequest where
  deserialized := .ok (some {
    method := some MoneroStratumMethods.keepAlive
    params := none
    id := some () })
  circumstances := sampleCircumstances
  currentJob := some MoneroJob.sampleJob

/-- A login makes the same of the client before and behind a `keepalived`. -/
theorem pipelined_eq_iff_sample :
    let session : Session Unit := onConnect 0 { connectionId := text "1" }
    let run := finalState (handle sampleHost 53 fun token => .ok (some token)) session
    identity (run [loginArrival (text "x"), keepAliveArrival]) =
      identity (run [keepAliveArrival, loginArrival (text "x")]) := by
  intro session run
  have order := pipelined_eq_iff sampleHost 53 (fun token => .ok (some token)) session _ rfl
    [keepAliveArrival, loginArrival (text "x")] [loginArrival (text "x"), keepAliveArrival]
    (.swap _ _ _)
  apply order.2.mpr
  constructor
  · decide +kernel
  · decide +kernel

/-- Two logins at once: the client is known as whoever is handled last. -/
theorem pipelined_logins_swapped :
    ∃ arrivals executed : List (Arrival Unit MoneroLoginRequest),
      executed.Perm arrivals ∧
      let session : Session Unit := onConnect 0 { connectionId := text "1" }
      let run := finalState (handle sampleHost 53 fun token => .ok (some token)) session
      identity (run executed) ≠ identity (run arrivals) := by
  refine ⟨[loginArrival (text "x"), loginArrival (text "y")],
    [loginArrival (text "y"), loginArrival (text "x")], .swap _ _ _, ?_⟩
  decide +kernel

end Hypepool.MoneroPool
