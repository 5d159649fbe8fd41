import Hypepool.Common.DaemonClient

/-!
# Requests and responses of the stratum server

The `id` of a request is any JSON value, and only tested for `null` and sent back; the pool's
replies carry either an error or a result.
-/

namespace Hypepool

inductive StratumError
  | minusOne
  | other
  | jobNotFound
  | duplicateShare
  | lowDifficultyShare
  | unauthorizedWorker
  | notSubscribed
  deriving DecidableEq

/-- The number sent for an error. -/
def StratumError.code : StratumError → Int
  | .minusOne => -1
  | .other => 20
  | .jobNotFound => 21
  | .duplicateShare => 22
  | .lowDifficultyShare => 23
  | .unauthorizedWorker => 24
  | .notSubscribed => 25

/-- A request as it is deserialised; `params` and `id` are `object`s. -/
structure JsonRpcRequest (Id Token : Type) where
  method : Option NetString
  params : Option (RpcResult Token)
  id : Option Id

/-- `ParamsAs<TParam>`: JSON is converted by `ToObject`, anything else cast. -/
def JsonRpcRequest.paramsAs {Id Token T : Type} (toObject : Token → Except NetException (Option T))
    (request : JsonRpcRequest Id Token) : Except NetException (Option T) :=
  DaemonClient.castResult toObject request.params

/-- A response to the request with the given id. -/
structure StratumResponse (Id T : Type) where
  id : Option Id
  error : Option (Int × NetString) := none
  result : Option T := none
  deriving DecidableEq

end Hypepool
