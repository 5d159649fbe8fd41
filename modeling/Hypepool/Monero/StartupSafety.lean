import Hypepool.Base.Run
import Hypepool.Monero.Authorization
import Hypepool.Monero.PoolStartup
import Hypepool.Monero.TipFollowing

/-!
# What a failed start-up lets through

`Engine.Start` goes on to `MoneroPool.Start` whether or not `Initialize` was aborted.  If the pool's
own address did not decode, the daemon clients were never initialized, so that no poll ever brings a
job; after any other abort they were, and the first template starts the stratum server.

* `accepted_decode_to_poolAddress`: as the stratum server runs only with initialized daemon clients,
  every address a client was authorized for has the prefix of the pool's own address, and this is
  not zero.
* `aborted_never_serves_iff`: an aborted pool stays away from its miners exactly when no later poll
  brings it a usable template.
-/

namespace Hypepool.MoneroPool

open Base

variable {Id Token : Type}

/-! ## The enabled events -/

section Events

variable {surroundings : Surroundings Token} {pool after : State Id} {label : Label Id Token}

/-- One rule for each way an event can happen, with what it finds and what it leaves. -/
inductive Taken [CurrentCulture] (surroundings : Surroundings Token) (pool : State Id) :
    Label Id Token → State Id → Prop
  | undecodable (here : pool.startup = .preInitChecks)
    (zero : surroundings.host.decodeAddress MoneroPoolContext.poolAddress = 0) :
    Taken surroundings pool .runPreInitChecks { pool with
      poolAddressBase58Prefix := 0
      startup := .aborted (.poolStartupAborted "unable to decode configured pool address!") }
  | decodable (here : pool.startup = .preInitChecks)
    (nonzero : surroundings.host.decodeAddress MoneroPoolContext.poolAddress ≠ 0) :
    Taken surroundings pool .runPreInitChecks { pool with
      poolAddressBase58Prefix := surroundings.host.decodeAddress MoneroPoolContext.poolAddress
      daemon := pool.daemon.initializeClient
      walletDaemon := pool.walletDaemon.initializeClient
      startup := .connecting }
  | answered {exchange : HttpExchange Token} {next : Except NetException Startup}
    (here : afterDaemonAnswer surroundings pool.daemon exchange pool.startup = some next) :
    Taken surroundings pool (.daemonAnswers exchange) { pool with startup := continueWith next }
  | walletAnswered {exchange : HttpExchange Token} {next : Except NetException Startup}
    (here : afterWalletAnswer surroundings pool.walletDaemon exchange pool.startup = some next) :
    Taken surroundings pool (.walletAnswers exchange) { pool with startup := continueWith next }
  | start (ended : pool.startup.isOver = true) : Taken surroundings pool .start
    { pool with started := true }
  | poll {exchange : HttpExchange Token} (started : pool.started = true) :
    Taken surroundings pool (.poll exchange) (pollDaemon surroundings pool exchange)
  | connect {client : Nat} {connectionId : NetString} {now : Int} (serving : pool.serving = true) :
    Taken surroundings pool (.connect client connectionId now)
      (setClient pool client (some (onConnect now { connectionId := connectionId })))
  | request {client : Nat} {circumstances : Circumstances} {session : Session Id}
    {deserialized : Except NetException (Option (JsonRpcRequest Id Token))}
    (present : pool.clients client = some session) :
    Taken surroundings pool (.request client circumstances deserialized)
      (handleRequest surroundings pool client session circumstances deserialized)
  | disconnect {client : Nat} :
    Taken surroundings pool (.disconnect client) (setClient pool client none)

/-- What the first check leaves. -/
theorem run_runPreInitChecks (host : Host) (pool : State Id) :
    (runPreInitChecks host).run pool =
      let decoded := host.decodeAddress MoneroPoolContext.poolAddress
      if decoded = 0 then
        .error (.poolStartupAborted "unable to decode configured pool address!")
          { pool with poolAddressBase58Prefix := decoded }
      else .ok () { pool with poolAddressBase58Prefix := decoded } := by
  unfold runPreInitChecks
  rw [LibCryptonote.decodeAddress]
  dsimp only
  rw [if_neg poolAddress_ne_nil, run_bind_of_ok run_liftExcept_ok,
    run_bind_of_ok (EStateM.run_modify _ _)]
  split
  · rfl
  · rfl

theorem step_cases [CurrentCulture] (taken : step surroundings pool label = some after) :
    Taken surroundings pool label after := by
  cases label with
  | runPreInitChecks =>
      dsimp only [step] at taken
      split at taken
      case isFalse => cases taken
      case isTrue here =>
        rw [beginInitialize, run_runPreInitChecks] at taken
        dsimp only at taken
        by_cases zero : surroundings.host.decodeAddress MoneroPoolContext.poolAddress = 0
        · rw [if_pos zero, zero] at taken
          exact Option.some.inj taken ▸ .undecodable here zero
        · rw [if_neg zero] at taken
          exact Option.some.inj taken ▸ .decodable here zero
  | daemonAnswers exchange =>
      rcases Option.map_eq_some_iff.mp taken with ⟨next, here, rfl⟩
      exact .answered here
  | walletAnswers exchange =>
      rcases Option.map_eq_some_iff.mp taken with ⟨next, here, rfl⟩
      exact .walletAnswered here
  | start =>
      dsimp only [step] at taken
      split at taken
      case isFalse => cases taken
      case isTrue here => exact Option.some.inj taken ▸ .start here.1
  | poll exchange =>
      dsimp only [step] at taken
      split at taken
      case isFalse => cases taken
      case isTrue started => exact Option.some.inj taken ▸ .poll started
  | connect client connectionId now =>
      dsimp only [step] at taken
      split at taken
      case isFalse => cases taken
      case isTrue here => exact Option.some.inj taken ▸ .connect here.1
  | request client circumstances deserialized =>
      rcases Option.map_eq_some_iff.mp taken with ⟨session, present, rfl⟩
      exact .request present
  | disconnect client => exact Option.some.inj taken ▸ .disconnect

/-- `Initialize` never returns to its first check. -/
theorem continueWith_bind {α : Type} {x : Except NetException α}
    {f : α → Except NetException Startup} (later : ∀ a, continueWith (f a) ≠ .preInitChecks) :
    continueWith (x >>= f) ≠ .preInitChecks := by
  cases x with
  | error exception => exact Startup.noConfusion
  | ok a => exact later a

/-- Where `Initialize` waits for the mining daemon, and where it goes on. -/
theorem afterDaemonAnswer_some {exchange : HttpExchange Token} {startup : Startup}
    {daemon : DaemonClient} {next : Except NetException Startup}
    (here : afterDaemonAnswer surroundings daemon exchange startup = some next) :
    startup ≠ .preInitChecks ∧ startup.isOver = false ∧ continueWith next ≠ .preInitChecks := by
  cases startup with
  | connecting =>
      refine ⟨Startup.noConfusion, rfl, Option.some.inj here ▸ continueWith_bind fun response => ?_⟩
      cases isDaemonConnectionHealthy response <;> exact Startup.noConfusion
  | waitingForPeers =>
      refine ⟨Startup.noConfusion, rfl, Option.some.inj here ▸ continueWith_bind fun response => ?_⟩
      cases isDaemonConnectedToNetwork response <;> exact Startup.noConfusion
  | synching =>
      refine ⟨Startup.noConfusion, rfl, Option.some.inj here ▸ continueWith_bind fun response => ?_⟩
      cases isSynched response <;> exact Startup.noConfusion
  | measuringSync =>
      refine ⟨Startup.noConfusion, rfl, Option.some.inj here ▸ continueWith_bind fun response => ?_⟩
      exact continueWith_bind fun _ => Startup.noConfusion
  | postInitChecks =>
      refine ⟨Startup.noConfusion, rfl, Option.some.inj here ▸ continueWith_bind fun response => ?_⟩
      exact Startup.noConfusion
  | _ => cases here

theorem afterWalletAnswer_some {exchange : HttpExchange Token} {startup : Startup}
    {walletDaemon : DaemonClient} {next : Except NetException Startup}
    (here : afterWalletAnswer surroundings walletDaemon exchange startup = some next) :
    startup ≠ .preInitChecks ∧ startup.isOver = false ∧ continueWith next ≠ .preInitChecks := by
  cases startup with
  | askingWallet =>
      refine ⟨Startup.noConfusion, rfl, Option.some.inj here ▸ continueWith_bind fun response => ?_⟩
      split
      · exact Startup.noConfusion
      · exact Startup.noConfusion
  | _ => cases here

/-! ## Polls -/

variable [CurrentCulture]

/-- A poll that brings no job keeps the current one. -/
theorem pollDaemon_of_not_adoptable {exchange : HttpExchange Token}
    (refused : ¬ MoneroJobManager.Adoptable pool.jobManager
      (templateAnswer surroundings pool.daemon exchange)) :
    ∃ counter, pollDaemon surroundings pool exchange =
      { pool with jobManager := { pool.jobManager with jobCounter := counter } } := by
  rcases MoneroJobManager.updateJob_of_not_adoptable refused with ⟨counter, _, result⟩
  refine ⟨counter, ?_⟩
  rw [pollDaemon, result]
  simp only [Option.isSome_none, Bool.or_false]

/-- A poll that brings a job has the stratum server started. -/
theorem pollDaemon_of_adoptable {exchange : HttpExchange Token}
    (adoptable : MoneroJobManager.Adoptable pool.jobManager
      (templateAnswer surroundings pool.daemon exchange)) :
    ∃ manager, pollDaemon surroundings pool exchange =
      { pool with jobManager := manager, serving := true } := by
  rcases MoneroJobManager.updateJob_of_adoptable adoptable with ⟨template, job, _, _, _, result⟩
  refine ⟨(pool.jobManager.updateJob (templateAnswer surroundings pool.daemon exchange)).2, ?_⟩
  rw [pollDaemon, result]
  simp only [Option.isSome_some, Bool.or_true]

/-- Nothing is adoptable from a client that was never initialized. -/
theorem not_adoptable_of_uninitialized {exchange : HttpExchange Token}
    (fresh : pool.daemon.initialized = false) :
    ¬ MoneroJobManager.Adoptable pool.jobManager
      (templateAnswer surroundings pool.daemon exchange) := by
  intro both
  rcases both with ⟨template, served, _⟩
  rw [templateAnswer, DaemonClient.executeCommandAsync_of_uninitialized fresh] at served
  cases served

end Events

/-! ## The invariant of a run -/

/-- A client of the pool: it has a context, its accepted addresses are valid, and it is not
authorized without one. -/
structure Accredited (host : Host) (poolAddressBase58Prefix : UInt64) (session : Session Id) :
    Prop where
  context : ∃ context, session.context = some context
  valid : ∀ address ∈ session.accepted, isValid host poolAddressBase58Prefix address = true
  basis : ∀ name, standing session = some (name, true) → session.accepted ≠ []

/-- What holds of the pool from `Engine.Start` on. -/
structure Sound (host : Host) (pool : State Id) : Prop where
  unchecked : pool.startup = .preInitChecks → pool.daemon.initialized = false
  checked : pool.startup ≠ .preInitChecks →
    (pool.daemon.initialized = true ↔ host.decodeAddress MoneroPoolContext.poolAddress ≠ 0)
  decoded : pool.daemon.initialized = true →
    pool.poolAddressBase58Prefix = host.decodeAddress MoneroPoolContext.poolAddress
  ordered : pool.started = true → pool.startup.isOver = true
  served : pool.serving = true → pool.started = true ∧ pool.daemon.initialized = true
  jobless : pool.serving = false → pool.jobManager.currentJob = none
  connected : ∀ client session, pool.clients client = some session → pool.serving = true
  accredited : ∀ client session, pool.clients client = some session →
    Accredited host pool.poolAddressBase58Prefix session

section Invariant

variable {host : Host} {poolAddressBase58Prefix : UInt64} {surroundings : Surroundings Token}
  {pool after : State Id} {label : Label Id Token} {session : Session Id}
  {toLogin : Token → Except NetException (Option MoneroLoginRequest)}

theorem accredited_onConnect {connectionId : NetString} {now : Int} :
    Accredited host poolAddressBase58Prefix
      (onConnect now { connectionId := connectionId } : Session Id) :=
  ⟨⟨_, rfl⟩, fun _ member => (nomatch member), fun _ stands => (nomatch stands)⟩

/-- A request keeps a client accredited. -/
theorem accredited_onReceive {circumstances : Circumstances}
    {deserialized : Except NetException (Option (JsonRpcRequest Id Token))}
    (accredited : Accredited host poolAddressBase58Prefix session) :
    Accredited host poolAddressBase58Prefix (onReceive host poolAddressBase58Prefix toLogin
      circumstances deserialized session) := by
  rcases accredited.context with ⟨context, present⟩
  have stands := standing_of_context present
  cases processed : processedLogin toLogin deserialized with
  | none =>
      have left := onReceive_of_not_processedLogin host poolAddressBase58Prefix circumstances
        session processed
      refine ⟨exists_context_of_standing (left.1.trans stands), ?_, ?_⟩
      · rw [left.2]
        exact accredited.valid
      · rw [left.1, left.2]
        exact accredited.basis
  | some pair =>
      rcases pair with ⟨loginRequest, login⟩
      have left := onReceive_of_processedLogin host poolAddressBase58Prefix circumstances present
        processed
      dsimp only at left
      split at left
      case isTrue =>
        refine ⟨exists_context_of_standing left.1, ?_, ?_⟩
        · rw [left.2]
          exact accredited.valid
        · rw [left.1, left.2]
          intro name isAuthorized
          apply accredited.basis context.minerName
          rw [stands, (Prod.mk.inj (Option.some.inj isAuthorized)).2]
      case isFalse =>
        refine ⟨exists_context_of_standing left.1, ?_, ?_⟩
        · rw [left.2]
          intro address member
          rcases List.mem_append.mp member with earlier | last
          · exact accredited.valid address earlier
          · split at last
            case isTrue valid => exact List.mem_singleton.mp last ▸ valid
            case isFalse => cases last
        · rw [left.1, left.2]
          intro name isAuthorized
          rw [if_pos (Prod.mk.inj (Option.some.inj isAuthorized)).2]
          exact List.append_ne_nil_of_right_ne_nil _ (List.cons_ne_nil _ _)

theorem clients_setClient {client other : Nat} {entry : Option (Session Id)}
    (present : (setClient pool client entry).clients other = some session) :
    (other = client ∧ entry = some session) ∨ pool.clients other = some session := by
  by_cases same : other = client
  · have entered : (setClient pool client entry).clients other = entry := if_pos same
    exact Or.inl ⟨same, entered.symm.trans present⟩
  · have kept : (setClient pool client entry).clients other = pool.clients other := if_neg same
    exact Or.inr (kept.symm.trans present)

theorem Sound.initial {manager : MoneroJobManager} (jobless : manager.currentJob = none) :
    Sound host ({ jobManager := manager } : State Id) where
  unchecked := fun _ => rfl
  checked := fun checked => (checked rfl).elim
  decoded := fun initialized => nomatch initialized
  ordered := fun started => nomatch started
  served := fun serving => nomatch serving
  jobless := fun _ => jobless
  connected := fun _ _ present => nomatch present
  accredited := fun _ _ present => nomatch present

/-- Before `Initialize` is over, there is nobody to serve. -/
theorem Sound.not_serving (sound : Sound host pool) (busy : pool.startup.isOver = false) :
    pool.serving = false := by
  rw [Bool.eq_false_iff]
  intro serving
  cases busy.symm.trans (sound.ordered (sound.served serving).1)

theorem Sound.no_clients (sound : Sound host pool) (idle : pool.serving = false) (client : Nat)
    (session : Session Id) : pool.clients client ≠ some session := fun present =>
  nomatch idle.symm.trans (sound.connected client session present)

/-- `Initialize` goes on after an answer. -/
theorem Sound.continue {next : Except NetException Startup} (sound : Sound host pool)
    (begun : pool.startup ≠ .preInitChecks) (busy : pool.startup.isOver = false)
    (later : continueWith next ≠ .preInitChecks) :
    Sound host { pool with startup := continueWith next } where
  unchecked := fun here => (later here).elim
  checked := fun _ => sound.checked begun
  decoded := sound.decoded
  ordered := fun started => nomatch busy.symm.trans (sound.ordered started)
  served := sound.served
  jobless := sound.jobless
  connected := sound.connected
  accredited := sound.accredited

/-- A client comes, is handled, or goes. -/
theorem Sound.setClient {client : Nat} {entry : Option (Session Id)} (sound : Sound host pool)
    (entitled : ∀ session, entry = some session →
      pool.serving = true ∧ Accredited host pool.poolAddressBase58Prefix session) :
    Sound host (setClient pool client entry) where
  unchecked := sound.unchecked
  checked := sound.checked
  decoded := sound.decoded
  ordered := sound.ordered
  served := sound.served
  jobless := sound.jobless
  connected := fun other session present => by
    rcases clients_setClient present with ⟨_, new⟩ | old
    · exact (entitled session new).1
    · exact sound.connected other session old
  accredited := fun other session present => by
    rcases clients_setClient present with ⟨_, new⟩ | old
    · exact (entitled session new).2
    · exact sound.accredited other session old

/-- Once the pool serves, its job is free to change. -/
theorem Sound.setJobManager {manager : MoneroJobManager} (sound : Sound host pool)
    (serving : pool.serving = true) : Sound host { pool with jobManager := manager } :=
  ⟨sound.unchecked, sound.checked, sound.decoded, sound.ordered, sound.served,
    fun idle => (nomatch serving.symm.trans idle), sound.connected, sound.accredited⟩

theorem Sound.step [CurrentCulture] (sound : Sound surroundings.host pool)
    (taken : Taken surroundings pool label after) : Sound surroundings.host after := by
  cases taken with
  | undecodable here zero =>
      have fresh := sound.unchecked here
      have idle := sound.not_serving (here ▸ rfl)
      refine ⟨Startup.noConfusion, fun _ => ?_, ?_, fun _ => rfl, sound.served, sound.jobless,
        sound.connected, ?_⟩
      · exact iff_of_false (Bool.eq_false_iff.mp fresh) (not_not_intro zero)
      · exact fun initialized => nomatch fresh.symm.trans initialized
      · exact fun client session present => (sound.no_clients idle client session present).elim
  | decodable here nonzero =>
      have idle := sound.not_serving (here ▸ rfl)
      refine ⟨Startup.noConfusion, fun _ => iff_of_true rfl nonzero, fun _ => rfl, ?_, ?_,
        sound.jobless, sound.connected, ?_⟩
      · intro started
        have ended := sound.ordered started
        rw [here] at ended
        cases ended
      · exact fun serving => nomatch idle.symm.trans serving
      · exact fun client session present => (sound.no_clients idle client session present).elim
  | answered here =>
      rcases afterDaemonAnswer_some here with ⟨begun, busy, later⟩
      exact sound.continue begun busy later
  | walletAnswered here =>
      rcases afterWalletAnswer_some here with ⟨begun, busy, later⟩
      exact sound.continue begun busy later
  | start ended =>
      exact ⟨sound.unchecked, sound.checked, sound.decoded, fun _ => ended,
        fun serving => ⟨rfl, (sound.served serving).2⟩, sound.jobless, sound.connected,
        sound.accredited⟩
  | @poll exchange started =>
      by_cases adoptable : MoneroJobManager.Adoptable pool.jobManager
        (templateAnswer surroundings pool.daemon exchange)
      · rcases pollDaemon_of_adoptable adoptable with ⟨manager, result⟩
        have initialized : pool.daemon.initialized = true := by
          by_contra fresh
          exact not_adoptable_of_uninitialized (Bool.eq_false_iff.mpr fresh) adoptable
        rw [result]
        exact ⟨sound.unchecked, sound.checked, sound.decoded, sound.ordered,
          fun _ => ⟨started, initialized⟩, fun idle => (nomatch idle), fun _ _ _ => rfl,
          sound.accredited⟩
      · rcases pollDaemon_of_not_adoptable adoptable with ⟨counter, result⟩
        rw [result]
        exact ⟨sound.unchecked, sound.checked, sound.decoded, sound.ordered, sound.served,
          sound.jobless, sound.connected, sound.accredited⟩
  | connect serving =>
      apply sound.setClient
      intro session new
      exact ⟨serving, Option.some.inj new ▸ accredited_onConnect⟩
  | @request client circumstances session deserialized present =>
      have serving := sound.connected client session present
      have accredited := sound.accredited client session present
      apply (sound.setJobManager serving).setClient
      intro after new
      refine ⟨serving, Option.some.inj new ▸ accredited_onReceive ?_⟩
      exact ⟨accredited.context, accredited.valid, accredited.basis⟩
  | disconnect => exact sound.setClient fun _ gone => nomatch gone

end Invariant

/-- The pool as `Initialize` has configured it, before its first check. -/
def configured (Id : Type) (instanceId : InstanceId) : State Id :=
  { jobManager := { instanceId := instanceId } }

theorem sound_run [CurrentCulture] {surroundings : Surroundings Token} {instanceId : InstanceId}
    {schedule : List (Label Id Token)} {pool : State Id}
    (run : exec (step surroundings) (configured Id instanceId) schedule = some pool) :
    Sound surroundings.host pool :=
  exec_invariant (Sound surroundings.host) (fun _ _ _ sound taken => sound.step (step_cases taken))
    (Sound.initial rfl) run

/-- **Which addresses are accepted.**  In every run from `Engine.Start` on, whatever the daemons
answer, wherever `Initialize` is aborted and whatever the clients send: every address on the basis
of which a client was authorized has 95 characters and decodes to the prefix the pool's own address
decodes to, which is not zero; and no client is authorized without such an address. -/
theorem accepted_decode_to_poolAddress [CurrentCulture] (surroundings : Surroundings Token)
    (instanceId : InstanceId) {schedule : List (Label Id Token)} {pool : State Id}
    (run : exec (step surroundings) (configured Id instanceId) schedule = some pool)
    (client : Nat) (session : Session Id) (present : pool.clients client = some session) :
    (∀ address ∈ session.accepted, address.length = 95 ∧
      surroundings.host.decodeAddress address =
        surroundings.host.decodeAddress MoneroPoolContext.poolAddress ∧
      surroundings.host.decodeAddress address ≠ 0) ∧
    (∀ context, session.context = some context → context.isAuthorized = true →
      session.accepted ≠ []) := by
  have sound := sound_run run
  have accredited := sound.accredited client session present
  have serving := sound.connected client session present
  have initialized := (sound.served serving).2
  have begun : pool.startup ≠ .preInitChecks := fun here =>
    nomatch (sound.unchecked here).symm.trans initialized
  have decodable := (sound.checked begun).mp initialized
  have isPoolPrefix := sound.decoded initialized
  constructor
  · intro address member
    have valid := accredited.valid address member
    rw [isValid, Bool.and_eq_true, beq_iff_eq, beq_iff_eq, isPoolPrefix] at valid
    exact ⟨valid.1, valid.2, valid.2 ▸ decodable⟩
  · intro context isContext isAuthorized
    apply accredited.basis context.minerName
    rw [standing_of_context isContext, isAuthorized]

/-! ## Aborted pools -/

/-- The poll brings an aborted pool with a decodable address no template a job can be made of. -/
def Withholds [CurrentCulture] (surroundings : Surroundings Token) (pool : State Id) :
    Label Id Token → Prop
  | .poll exchange => pool.startup.isAborted = true →
      surroundings.host.decodeAddress MoneroPoolContext.poolAddress ≠ 0 →
      ∀ template, MoneroJobManager.served
        (templateAnswer surroundings { initialized := true } exchange) = some template →
        ¬ MoneroJob.Constructible template
  | _ => True

section Aborted

variable {surroundings : Surroundings Token} {pool after : State Id} {label : Label Id Token}
  {exchange : HttpExchange Token}

theorem daemon_eq_initialized {daemon : DaemonClient} (initialized : daemon.initialized = true) :
    daemon = { initialized := true } := by
  cases daemon
  exact congrArg DaemonClient.mk initialized

theorem Sound.decodable_of_aborted (sound : Sound surroundings.host pool)
    (aborted : pool.startup.isAborted = true) :
    pool.daemon.initialized = true ↔
      surroundings.host.decodeAddress MoneroPoolContext.poolAddress ≠ 0 := by
  apply sound.checked
  intro here
  rw [here] at aborted
  cases aborted

variable [CurrentCulture]

/-- A poll that withholds a template brings an aborted pool no job. -/
theorem not_adoptable_of_withholds (sound : Sound surroundings.host pool)
    (aborted : pool.startup.isAborted = true)
    (withholds : Withholds surroundings pool (.poll exchange)) :
    ¬ MoneroJobManager.Adoptable pool.jobManager
      (templateAnswer surroundings pool.daemon exchange) := by
  intro adoptable
  cases initialized : pool.daemon.initialized with
  | false => exact not_adoptable_of_uninitialized initialized adoptable
  | true =>
      rcases adoptable with ⟨template, served, constructible, _⟩
      rw [daemon_eq_initialized initialized] at served
      exact withholds aborted ((sound.decodable_of_aborted aborted).mp initialized) template served
        constructible

theorem aborted_not_serving_step (sound : Sound surroundings.host pool)
    (idle : pool.startup.isAborted = true → pool.serving = false)
    (withholds : Withholds surroundings pool label) (taken : Taken surroundings pool label after) :
    after.startup.isAborted = true → after.serving = false := by
  intro aborted
  cases taken with
  | undecodable here zero => exact sound.not_serving (here ▸ rfl)
  | decodable here nonzero => exact sound.not_serving (here ▸ rfl)
  | answered here => exact sound.not_serving (afterDaemonAnswer_some here).2.1
  | walletAnswered here => exact sound.not_serving (afterWalletAnswer_some here).2.1
  | poll started =>
      have refused := not_adoptable_of_withholds sound aborted withholds
      rcases pollDaemon_of_not_adoptable refused with ⟨counter, result⟩
      rw [result] at aborted ⊢
      exact idle aborted
  | _ => exact idle aborted

/-- An aborted pool that serves goes on doing so. -/
theorem aborted_serving_step (both : pool.startup.isAborted = true ∧ pool.serving = true)
    (taken : Taken surroundings pool label after) :
    after.startup.isAborted = true ∧ after.serving = true := by
  have ended : pool.startup.isOver = true := by
    cases startup : pool.startup with
    | aborted exception => rfl
    | _ => rw [startup] at both; cases both.1
  cases taken with
  | undecodable here zero => rw [here] at ended; cases ended
  | decodable here nonzero => rw [here] at ended; cases ended
  | answered here => cases ended.symm.trans (afterDaemonAnswer_some here).2.1
  | walletAnswered here => cases ended.symm.trans (afterWalletAnswer_some here).2.1
  | poll started =>
      refine ⟨both.1, ?_⟩
      rw [pollDaemon]
      simp only [both.2, Bool.true_or]
  | _ => exact both

/-- A poll that does not withhold its template leaves an aborted pool serving. -/
theorem serving_of_not_withholds (sound : Sound surroundings.host pool)
    (brings : ¬ Withholds surroundings pool label) (taken : Taken surroundings pool label after) :
    after.startup.isAborted = true ∧ after.serving = true := by
  cases taken with
  | @poll exchange started =>
      unfold Withholds at brings
      push Not at brings
      rcases brings with ⟨aborted, decodable, template, served, constructible⟩
      cases serving : pool.serving with
      | true => exact aborted_serving_step ⟨aborted, serving⟩ (.poll started)
      | false =>
          have initialized := (sound.decodable_of_aborted aborted).mpr decodable
          have newer : MoneroJobManager.Newer pool.jobManager template := fun current isCurrent =>
            nomatch (sound.jobless serving).symm.trans isCurrent
          rw [← daemon_eq_initialized initialized] at served
          obtain ⟨manager, result⟩ :=
            pollDaemon_of_adoptable ⟨template, served, constructible, newer⟩
          rw [result]
          exact ⟨aborted, rfl⟩
  | _ => exact (brings trivial).elim

end Aborted

/-- **Aborted pools and their miners.**  In every run from `Engine.Start` on: a pool whose
`Initialize` was aborted has not started the stratum server, if and only if its own address does not
decode or no poll since has brought a template from which a job can be constructed. -/
theorem aborted_never_serves_iff [CurrentCulture] (surroundings : Surroundings Token)
    (instanceId : InstanceId) {schedule : List (Label Id Token)} {pool : State Id}
    (run : exec (step surroundings) (configured Id instanceId) schedule = some pool) :
    (pool.startup.isAborted = true → pool.serving = false) ↔
      Guarded (step surroundings) (Withholds surroundings) (configured Id instanceId) schedule := by
  constructor
  · intro idle
    rw [guarded_iff_forall_split]
    intro before label rest reached split found
    by_contra brings
    rw [split] at run
    rcases exec_append_eq_some.mp run with ⟨_, again, remaining⟩
    cases Option.some.inj (found.symm.trans again)
    rcases exec_cons_eq_some.mp remaining with ⟨next, taken, remaining⟩
    have serving := serving_of_not_withholds (sound_run found) brings (step_cases taken)
    have final : pool.startup.isAborted = true ∧ pool.serving = true :=
      exec_invariant (fun pool => pool.startup.isAborted = true ∧ pool.serving = true)
        (fun _ _ _ both taken => aborted_serving_step both (step_cases taken)) serving remaining
    cases (idle final.1).symm.trans final.2
  · intro withholds
    have final : Sound surroundings.host pool ∧
        (pool.startup.isAborted = true → pool.serving = false) :=
      exec_invariant_of_guarded (fun pool => Sound surroundings.host pool ∧
          (pool.startup.isAborted = true → pool.serving = false))
        (fun _ _ _ both withholds taken => ⟨both.1.step (step_cases taken),
          aborted_not_serving_step both.1 both.2 withholds (step_cases taken)⟩)
        ⟨Sound.initial rfl, fun _ => rfl⟩ withholds run
    exact final.2

/-! ## Sample runs -/

section Samples

open OrdinalCulture

/-- JSON that is one of the answers or a login request. -/
inductive SampleToken
  | info (response : GetInfoResponse)
  | template (response : GetBlockTemplateResponse)
  | address (response : GetAddressResponse)
  | login (request : MoneroLoginRequest)

def SampleToken.toInfo : SampleToken → Except NetException (Option GetInfoResponse)
  | .info response => .ok (some response)
  | _ => .error .jsonSerialization

def SampleToken.toTemplate : SampleToken → Except NetException (Option GetBlockTemplateResponse)
  | .template response => .ok (some response)
  | _ => .error .jsonSerialization

def SampleToken.toAddress : SampleToken → Except NetException (Option GetAddressResponse)
  | .address response => .ok (some response)
  | _ => .error .jsonSerialization

def SampleToken.toLogin : SampleToken → Except NetException (Option MoneroLoginRequest)
  | .login request => .ok (some request)
  | _ => .error .jsonSerialization

def sampleSurroundings : Surroundings SampleToken where
  host := sampleHost
  toJson token := .ok (some token)
  toInfo := SampleToken.toInfo
  toTemplate := SampleToken.toTemplate
  toAddress := SampleToken.toAddress
  toLogin := SampleToken.toLogin

/-- A daemon's reply with the given result. -/
def answerWith (token : SampleToken) : HttpExchange SampleToken :=
  .reply { result := some (.token token), error := none }

def sampleInfo : SampleToken := .info ⟨8, 4⟩

/-- The daemons answer as they should, but the wallet has the given address. -/
def startupWith (walletAddress : NetString) : List (Label Unit SampleToken) :=
  [.runPreInitChecks, .daemonAnswers (answerWith sampleInfo),
    .daemonAnswers (answerWith sampleInfo),
    .daemonAnswers (answerWith (.template (MoneroJobManager.template1088295 "3b4aff4f"))),
    .daemonAnswers (answerWith sampleInfo),
    .walletAnswers (answerWith (.address ⟨some walletAddress⟩)), .start,
    .poll (answerWith (.template (MoneroJobManager.template1088295 "3b4aff4f")))]

/-- The wallet has another address: `Initialize` is aborted, and the pool serves all the same. -/
theorem aborted_pool_serves :
    ∃ pool, exec (step sampleSurroundings) (configured Unit ⟨[1, 2, 3], rfl⟩)
        (startupWith (text "9x")) = some pool ∧
      ¬ (pool.startup.isAborted = true → pool.serving = false) := by
  have outcome : (exec (step sampleSurroundings) (configured Unit ⟨[1, 2, 3], rfl⟩)
      (startupWith (text "9x"))).map (fun pool => (pool.startup.isAborted, pool.serving)) =
        some (true, true) := by
    decide +kernel
  rcases Option.map_eq_some_iff.mp outcome with ⟨pool, run, both⟩
  have aborted := congrArg Prod.fst both
  have serving := congrArg Prod.snd both
  refine ⟨pool, run, fun idle => ?_⟩
  cases (idle aborted).symm.trans serving

/-- The pool's address does not decode: no template brings a job. -/
theorem undecodable_pool_waits :
    ∃ pool, exec (step { sampleSurroundings with host := { sampleHost with
          decodeAddress := fun _ => 0 } }) (configured Unit ⟨[1, 2, 3], rfl⟩)
        [.runPreInitChecks, .start,
          .poll (answerWith (.template (MoneroJobManager.template1088295 "3b4aff4f")))] =
        some pool ∧
      (pool.startup.isAborted = true → pool.serving = false) := by
  have outcome : (exec (step { sampleSurroundings with host := { sampleHost with
      decodeAddress := fun _ => 0 } }) (configured Unit ⟨[1, 2, 3], rfl⟩)
      [.runPreInitChecks, .start,
        .poll (answerWith (.template (MoneroJobManager.template1088295 "3b4aff4f")))]).isSome =
        true := by
    decide +kernel
  rcases Option.isSome_iff_exists.mp outcome with ⟨pool, run⟩
  refine ⟨pool, run, (aborted_never_serves_iff _ _ run).mpr (guarded_of_forall ?_)⟩
  intro pool label member
  cases label with
  | poll exchange => exact fun _ nonzero => (nonzero rfl).elim
  | _ => trivial

/-- The daemons answer as they should, and a miner logs in with the pool's own address. -/
def loginRun : List (Label Unit SampleToken) :=
  startupWith MoneroPoolContext.poolAddress ++ [.connect 0 (text "1") 0,
    .request 0 sampleCircumstances (.ok (some {
      method := some MoneroStratumMethods.login
      params := some (.token (.login ⟨some MoneroPoolContext.poolAddress, none⟩))
      id := some () }))]

/-- The address it is authorized for decodes to the pool's prefix. -/
theorem accepted_own_address :
    ∃ pool session, exec (step sampleSurroundings) (configured Unit ⟨[1, 2, 3], rfl⟩) loginRun =
        some pool ∧ pool.clients 0 = some session ∧
      session.accepted = [MoneroPoolContext.poolAddress] ∧
      sampleHost.decodeAddress MoneroPoolContext.poolAddress ≠ 0 := by
  have outcome : (exec (step sampleSurroundings) (configured Unit ⟨[1, 2, 3], rfl⟩)
      loginRun).bind (fun pool => (pool.clients 0).map (·.accepted)) =
        some [MoneroPoolContext.poolAddress] := by
    decide +kernel
  rcases Option.bind_eq_some_iff.mp outcome with ⟨pool, run, entry⟩
  rcases Option.map_eq_some_iff.mp entry with ⟨session, present, accepted⟩
  have sound := accepted_decode_to_poolAddress sampleSurroundings _ run 0 session present
  have own : MoneroPoolContext.poolAddress ∈ session.accepted :=
    accepted ▸ List.mem_singleton_self _
  exact ⟨pool, session, run, present, accepted, (sound.1 _ own).2.2⟩

end Samples

end Hypepool.MoneroPool
