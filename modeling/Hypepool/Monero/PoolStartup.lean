import Hypepool.Monero.MoneroJobManager
import Hypepool.Monero.MoneroPool

/-!
# From `Engine.Start` to the first miner

`Engine.Start` awaits `MoneroPool.Initialize` and then `MoneroPool.Start`.  `Initialize` is a
sequence of calls of the two daemons, whose answers decide where it goes on; an exception anywhere
in it is logged and ends it.  `Start` starts the job manager, which polls the mining daemon, and
starts the stratum server once there is a first job; from then on clients connect and send requests.

`step` is one such event.  What the daemons answer, and when, is up to the labels.
-/

namespace Hypepool

/-- The fields of `GetInfoResponse` that decide anything. -/
structure GetInfoResponse where
  incomingConnectionsCount : Int
  outgoingConnectionsCount : Int
  deriving DecidableEq

structure GetAddressResponse where
  address : Option NetString
  deriving DecidableEq

/-- The native library, and `ToObject` for the types the pool reads JSON as. -/
structure Surroundings (Token : Type) where
  host : Host
  toJson : Token → Except NetException (Option Token)
  toInfo : Token → Except NetException (Option GetInfoResponse)
  toTemplate : Token → Except NetException (Option GetBlockTemplateResponse)
  toAddress : Token → Except NetException (Option GetAddressResponse)
  toLogin : Token → Except NetException (Option MoneroLoginRequest)

namespace MoneroPool

/-- How far `Initialize` has come: the check or the answer it is at. -/
inductive Startup
  | preInitChecks
  /-- `IsDaemonConnectionHealthyAsync` has asked for `get_info`. -/
  | connecting
  /-- `IsDaemonConnectedToNetworkAsync` has asked for `get_info`. -/
  | waitingForPeers
  /-- `EnsureDaemonSynchedAsync` has asked for `getblocktemplate`. -/
  | synching
  /-- it has asked for `get_info`, not being synched yet. -/
  | measuringSync
  /-- `RunPostInitChecksAsync` has asked for `get_info`. -/
  | postInitChecks
  /-- it has asked the wallet daemon for `getaddress`. -/
  | askingWallet
  | initialized
  | aborted (exception : NetException)
  deriving DecidableEq

def Startup.isAborted : Startup → Bool
  | .aborted _ => true
  | _ => false

/-- `Initialize` has ended, one way or the other. -/
def Startup.isOver : Startup → Bool
  | .initialized | .aborted _ => true
  | _ => false

structure State (Id : Type) where
  startup : Startup := .preInitChecks
  poolAddressBase58Prefix : UInt64 := 0
  daemon : DaemonClient := {}
  walletDaemon : DaemonClient := {}
  jobManager : MoneroJobManager
  /-- the job manager polls for jobs. -/
  started : Bool := false
  /-- `StratumServer.Start` was called. -/
  serving : Bool := false
  clients : Nat → Option (Session Id) := fun _ => none

inductive Label (Id Token : Type)
  | runPreInitChecks
  | daemonAnswers (exchange : HttpExchange Token)
  | walletAnswers (exchange : HttpExchange Token)
  | start
  /-- the answer to a `getblocktemplate` poll of the job manager. -/
  | poll (exchange : HttpExchange Token)
  | connect (client : Nat) (connectionId : NetString) (now : Int)
  | request (client : Nat) (circumstances : Circumstances)
      (deserialized : Except NetException (Option (JsonRpcRequest Id Token)))
  | disconnect (client : Nat)

variable {Id Token : Type}

/-! ## `Initialize` -/

/-- `RunPreInitChecksAsync`. -/
def runPreInitChecks (host : Host) : EStateM NetException (State Id) Unit := do
  let decoded ←
    Base.liftExcept (LibCryptonote.decodeAddress host (some MoneroPoolContext.poolAddress))
  modify fun pool => { pool with poolAddressBase58Prefix := decoded }
  if decoded = 0 then
    throw (.poolStartupAborted "unable to decode configured pool address!")

/-- `IsDaemonConnectionHealthyAsync`. -/
def isDaemonConnectionHealthy (response : DaemonResponse GetInfoResponse) : Bool :=
  response.error.isNone

/-- `IsDaemonConnectedToNetworkAsync`. -/
def isDaemonConnectedToNetwork (response : DaemonResponse GetInfoResponse) : Bool :=
  response.error.isNone &&
    match response.response with
    | some info => 0 < int32 (info.outgoingConnectionsCount + info.incomingConnectionsCount)
    | none => false

/-- `isSynched` of `EnsureDaemonSynchedAsync`. -/
def isSynched (response : DaemonResponse GetBlockTemplateResponse) : Bool :=
  match response.error with
  | none => true
  | some error => error.code ≠ -9

/-- What `Initialize` does with an answer of the mining daemon: the check it goes on with, or an
exception.  `none` where it does not wait for one. -/
def afterDaemonAnswer (surroundings : Surroundings Token) (daemon : DaemonClient)
    (exchange : HttpExchange Token) : Startup → Option (Except NetException Startup)
  | .connecting => some do
      let response ← daemon.executeCommandAsync surroundings.toInfo exchange
      return if isDaemonConnectionHealthy response then .waitingForPeers else .connecting
  | .waitingForPeers => some do
      let response ← daemon.executeCommandAsync surroundings.toInfo exchange
      return if isDaemonConnectedToNetwork response then .synching else .waitingForPeers
  | .synching => some do
      let response ← daemon.executeCommandAsync surroundings.toTemplate exchange
      return if isSynched response then .postInitChecks else .measuringSync
  | .measuringSync => some do
      let response ← daemon.executeCommandAsync surroundings.toInfo exchange
      let _info ← deref response.response
      return .synching
  | .postInitChecks => some do
      let _response ← daemon.executeCommandAsync surroundings.toJson exchange
      return .askingWallet
  | _ => none

/-- `RunPostInitChecksAsync` on the answer of the wallet daemon. -/
def afterWalletAnswer (surroundings : Surroundings Token) (walletDaemon : DaemonClient)
    (exchange : HttpExchange Token) : Startup → Option (Except NetException Startup)
  | .askingWallet => some do
      let response ← walletDaemon.executeCommandAsync surroundings.toAddress exchange
      if response.response.bind (·.address) ≠ some MoneroPoolContext.poolAddress then
        .error (.poolStartupAborted "pool wallet does not own the configured pool address!")
      else return .initialized
  | _ => none

/-- The `catch` of `Initialize`: an exception is logged and ends it. -/
def continueWith : Except NetException Startup → Startup
  | .ok startup => startup
  | .error exception => .aborted exception

/-- `Initialize` up to its first call of a daemon. -/
def beginInitialize (host : Host) (pool : State Id) : State Id :=
  match (runPreInitChecks host).run pool with
  | .ok _ pool => { pool with
      daemon := pool.daemon.initializeClient
      walletDaemon := pool.walletDaemon.initializeClient
      startup := .connecting }
  | .error exception pool => { pool with startup := .aborted exception }

/-! ## Events -/

/-- The answer to a poll. -/
def templateAnswer (surroundings : Surroundings Token) (daemon : DaemonClient)
    (exchange : HttpExchange Token) : TemplateAnswer :=
  (daemon.executeCommandAsync surroundings.toTemplate exchange).map some

def setClient (pool : State Id) (client : Nat) (session : Option (Session Id)) : State Id :=
  { pool with clients := fun other => if other = client then session else pool.clients other }

/-- `UpdateJob`; the first job starts the stratum server. -/
def pollDaemon [CurrentCulture] (surroundings : Surroundings Token) (pool : State Id)
    (exchange : HttpExchange Token) : State Id :=
  let answer := templateAnswer surroundings pool.daemon exchange
  let (job, jobManager) := pool.jobManager.updateJob answer
  { pool with jobManager := jobManager, serving := pool.serving || job.isSome }

/-- `OnReceive` for one client.  Its handler may draw from the current job. -/
def handleRequest (surroundings : Surroundings Token) (pool : State Id) (client : Nat)
    (session : Session Id) (circumstances : Circumstances)
    (deserialized : Except NetException (Option (JsonRpcRequest Id Token))) : State Id :=
  let session := onReceive surroundings.host pool.poolAddressBase58Prefix surroundings.toLogin
    circumstances deserialized { session with currentJob := pool.jobManager.currentJob }
  { setClient pool client session with
    jobManager := { pool.jobManager with currentJob := session.currentJob } }

def step [CurrentCulture] (surroundings : Surroundings Token) (pool : State Id) :
    Label Id Token → Option (State Id)
  | .runPreInitChecks =>
      if pool.startup = .preInitChecks then some (beginInitialize surroundings.host pool) else none
  | .daemonAnswers exchange =>
      (afterDaemonAnswer surroundings pool.daemon exchange pool.startup).map fun next =>
        { pool with startup := continueWith next }
  | .walletAnswers exchange =>
      (afterWalletAnswer surroundings pool.walletDaemon exchange pool.startup).map fun next =>
        { pool with startup := continueWith next }
  | .start =>
      if pool.startup.isOver ∧ ¬ pool.started then some { pool with started := true } else none
  | .poll exchange => if pool.started then some (pollDaemon surroundings pool exchange) else none
  | .connect client connectionId now =>
      if pool.serving ∧ (pool.clients client).isNone then
        some (setClient pool client (some (onConnect now { connectionId := connectionId })))
      else none
  | .request client circumstances deserialized =>
      (pool.clients client).map fun session =>
        handleRequest surroundings pool client session circumstances deserialized
  | .disconnect client => some (setClient pool client none)

end MoneroPool

end Hypepool
