import Hypepool.Net.Runtime

/-!
# The worker of a connection

`MoneroWorkerContext` is what the pool keeps of a client.  A difficulty is represented by
`(long)(difficulty * 255)`, the only thing ever computed from it, and an instant by a number.
-/

namespace Hypepool

structure MoneroWorkerContext where
  minerName : Option NetString := none
  workerName : Option NetString := none
  paymentId : Option NetString := none
  isAuthorized : Bool := false
  isSubscribed : Bool := false
  difficulty : Int := 0
  userAgent : Option NetString := none
  lastActivity : Int := 0
  deriving DecidableEq

/-- `Initialize(difficulty)`, at the instant `now`. -/
def MoneroWorkerContext.initializeContext (context : MoneroWorkerContext) (difficulty now : Int) :
    MoneroWorkerContext :=
  { context with difficulty := difficulty, lastActivity := now }

/-- The work handed to a worker. -/
structure MoneroWorkerJob where
  id : Int
  height : UInt32
  difficulty : Int
  extraNonce : UInt32
  deriving DecidableEq

end Hypepool
