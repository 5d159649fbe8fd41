import Hypepool.Net.Runtime

/-!
# `DaemonClient`

A call of the daemon is one HTTP exchange.  `ExecuteCommandAsync` awaits it, drops what it threw,
and maps the finished task to a `DaemonResponse`: the faults of the exchange become error codes,
while a failed conversion of the result escapes to the caller.  `usable_iff` says which calls end in
an error or a response.

The parsed JSON of a reply is a parameter type, its conversion by `ToObject` a parameter function.
-/

namespace Hypepool

/-- `JsonRpcException`. -/
structure JsonRpcException where
  code : Int
  innerException : Option NetException := none
  deriving DecidableEq

/-- A non-null `result` as it is deserialised into `object`: arrays and objects stay JSON, the rest
becomes a .NET value. -/
inductive RpcResult (Token : Type)
  | primitive
  | token (value : Token)

structure JsonRpcResponse (Token : Type) where
  result : Option (RpcResult Token)
  error : Option JsonRpcException

structure DaemonResponse (T : Type) where
  error : Option JsonRpcException := none
  response : Option T := none
  deriving DecidableEq

/-- What the HTTP exchange of a call comes to: it throws, it is cancelled, its status is not a
success, or a body arrives, which is malformed, empty or a reply. -/
inductive HttpExchange (Token : Type)
  | thrown (exception : NetException)
  | cancelled
  | status (code : Nat)
  | malformed
  | empty
  | reply (response : JsonRpcResponse Token)

/-- A finished task. -/
inductive TaskOutcome (α : Type)
  | faulted (exception : NetException)
  | cancelled
  | completed (result : α)

/-- A client is initialized once it has its `_httpClient`. -/
structure DaemonClient where
  initialized : Bool := false
  deriving DecidableEq

namespace DaemonClient

variable {Token T : Type}

/-- `Initialize()`. -/
def initializeClient (client : DaemonClient) : DaemonClient :=
  { client with initialized := true }

/-- `MakeRequestAsync`. -/
def makeRequestAsync (client : DaemonClient) (exchange : HttpExchange Token) :
    TaskOutcome (Option (JsonRpcResponse Token)) :=
  if client.initialized then
    match exchange with
    | .thrown exception => .faulted exception
    | .cancelled => .cancelled
    | .status code => .faulted (.daemon code)
    | .malformed => .faulted .jsonReader
    | .empty => .completed none
    | .reply response => .completed (some response)
  else .faulted .nullReference

/-- The `result` of a reply as a `TResponse`, by `ToObject` or by a cast.  A primitive is of none of
the types that are asked for, which are `JToken` and the classes of the responses. -/
def castResult (toObject : Token → Except NetException (Option T)) :
    Option (RpcResult Token) → Except NetException (Option T)
  | some (.token value) => toObject value
  | some .primitive => .error .invalidCast
  | none => .ok none

/-- `MapDaemonResponse`. -/
def mapDaemonResponse (toObject : Token → Except NetException (Option T)) :
    TaskOutcome (Option (JsonRpcResponse Token)) → Except NetException (DaemonResponse T)
  | .faulted exception => .ok { error := some ⟨-999, some exception⟩ }
  | .cancelled => .ok { error := some ⟨-998, none⟩ }
  | .completed result => do
      let response ← castResult toObject (result.bind (·.result))
      return { error := result.bind (·.error), response := response }

/-- `ExecuteCommandAsync<TResponse>`. -/
def executeCommandAsync (client : DaemonClient) (toObject : Token → Except NetException (Option T))
    (exchange : HttpExchange Token) : Except NetException (DaemonResponse T) :=
  mapDaemonResponse toObject (client.makeRequestAsync exchange)

/-- A client that was never initialized answers every call with error -999 and nothing else. -/
theorem executeCommandAsync_of_uninitialized {client : DaemonClient}
    {toObject : Token → Except NetException (Option T)} {exchange : HttpExchange Token}
    (fresh : client.initialized = false) :
    client.executeCommandAsync toObject exchange =
      .ok { error := some ⟨-999, some .nullReference⟩ } := by
  unfold executeCommandAsync makeRequestAsync
  rw [if_neg (by rw [fresh]; decide)]
  rfl

/-! ## Which calls end in a usable answer -/

section Answers

/-- A call that returns, with an error or a response. -/
def Usable : Except NetException (DaemonResponse T) → Prop
  | .ok response => response.error ≠ none ∨ response.response ≠ none
  | .error _ => False

/-- The exchange fails, or its reply has a result that can be converted to a response, or beside an
error one that is missing or comes to `null`. -/
def Answering (toObject : Token → Except NetException (Option T)) : HttpExchange Token → Prop
  | .thrown _ | .cancelled | .status _ | .malformed => True
  | .empty => False
  | .reply response =>
      match response.result with
      | none => response.error ≠ none
      | some .primitive => False
      | some (.token value) =>
          ∃ converted, toObject value = .ok converted ∧ (converted ≠ none ∨ response.error ≠ none)

/-- What is mapped of a reply is usable when its conversion succeeds and leaves something. -/
theorem usable_mapDaemonResponse_reply {toObject : Token → Except NetException (Option T)}
    {response : JsonRpcResponse Token} :
    Usable (mapDaemonResponse toObject (.completed (some response))) ↔
      ∃ converted, castResult toObject response.result = .ok converted ∧
        (converted ≠ none ∨ response.error ≠ none) := by
  rw [mapDaemonResponse, Option.bind_some]
  cases castResult toObject response.result with
  | error exception =>
      rw [Base.error_bind]
      constructor
      · intro usable
        exact usable.elim
      · intro both
        obtain ⟨_, cast, _⟩ := both
        cases cast
  | ok converted =>
      rw [Base.ok_bind]
      constructor
      · intro usable
        exact ⟨converted, rfl, usable.symm⟩
      · intro both
        obtain ⟨_, cast, either⟩ := both
        cases Except.ok.inj cast
        exact either.symm

theorem answering_reply {toObject : Token → Except NetException (Option T)}
    {response : JsonRpcResponse Token} :
    Answering toObject (.reply response) ↔
      ∃ converted, castResult toObject response.result = .ok converted ∧
        (converted ≠ none ∨ response.error ≠ none) := by
  cases response with
  | mk result error =>
      cases result with
      | none =>
          constructor
          · intro failed
            exact ⟨none, rfl, Or.inr failed⟩
          · intro both
            obtain ⟨_, cast, either⟩ := both
            cases Except.ok.inj cast
            exact either.resolve_left fun missing => missing rfl
      | some result =>
          cases result with
          | token value => exact Iff.rfl
          | primitive =>
              constructor
              · intro impossible
                exact impossible.elim
              · intro both
                obtain ⟨_, cast, _⟩ := both
                cases cast

/-- **Usable answers.**  A call ends in an error or a response if and only if the client was never
initialized, the exchange fails, or the reply can be converted and holds one of them. -/
theorem usable_iff (client : DaemonClient) (toObject : Token → Except NetException (Option T))
    (exchange : HttpExchange Token) :
    Usable (client.executeCommandAsync toObject exchange) ↔
      client.initialized = false ∨ Answering toObject exchange := by
  cases initialized : client.initialized with
  | false =>
      rw [executeCommandAsync_of_uninitialized initialized]
      exact iff_of_true (Or.inl nofun) (Or.inl rfl)
  | true =>
      unfold executeCommandAsync makeRequestAsync
      rw [if_pos initialized]
      cases exchange with
      | thrown exception => exact iff_of_true (Or.inl nofun) (Or.inr trivial)
      | cancelled => exact iff_of_true (Or.inl nofun) (Or.inr trivial)
      | status code => exact iff_of_true (Or.inl nofun) (Or.inr trivial)
      | malformed => exact iff_of_true (Or.inl nofun) (Or.inr trivial)
      | empty =>
          constructor
          · intro usable
            rcases usable with error | response
            · exact (error rfl).elim
            · exact (response rfl).elim
          · intro answering
            rcases answering with fresh | impossible
            · cases fresh
            · exact impossible.elim
      | reply response =>
          dsimp only
          rw [usable_mapDaemonResponse_reply, answering_reply, or_iff_right nofun]

/-- A reply whose result is a number throws at the cast, and a success without a body leaves
neither an error nor a response. -/
theorem unusable_answers :
    let toObject : Unit → Except NetException (Option Unit) := fun _ => .ok (some ())
    executeCommandAsync ⟨true⟩ toObject (.reply ⟨some .primitive, none⟩) = .error .invalidCast ∧
      ¬ Usable (executeCommandAsync ⟨true⟩ toObject (.reply ⟨some .primitive, none⟩)) ∧
      executeCommandAsync ⟨true⟩ toObject .empty = .ok {} ∧
      ¬ Usable (executeCommandAsync ⟨true⟩ toObject .empty) := by
  refine ⟨rfl, fun usable => usable, rfl, fun usable => ?_⟩
  rcases usable with error | response
  · exact error rfl
  · exact response rfl

end Answers

end DaemonClient

end Hypepool
