import Hypepool.Base.Run
import Hypepool.Core.CorrelationIdGenerator
import Mathlib.Data.List.AList
import Mathlib.Logic.Function.Basic

/-!
# `StratumServer` and its clients

The loop thread accepts connections and reads from them; timers, the iterations of `ForEachClient`
and the tasks of `OnReceive` run on other threads.  `step` is one atomic step of one of them, a lock
region being one step.  `DisconnectClient` may be called by the loop thread, by a timer and by the
action of an iteration, and several calls for one client may be under way at once.

What an `IPool` is asked for is left open: the context it creates, what a request does to it, and
what the action of `ForEachClient` does besides disconnecting clients.
-/

namespace Hypepool

open CorrelationIdGenerator

/-- A `StratumClient`, by the number of clients created before it. -/
abbrev ClientRef := Nat

namespace StratumServer

/-- What the server, the pool and the timers read and write of a `StratumClient`. -/
structure Client (Context : Type) where
  connectionId : Option NetString := none
  isAlive : Bool := false
  /-- `_subscription` is not null. -/
  subscription : Bool := false
  lastReceive : Option Int := none
  context : Option Context := none

/-- `StratumClient.Disconnect`.  Disposing of the subscription wakes the loop thread up, which shuts
the connection down. -/
def Client.disconnect {Context : Type} (client : Client Context) : Client Context :=
  { client with subscription := false, isAlive := false }

/-- `_clients`. -/
abbrev Registry := AList fun _ : NetString => ClientRef

/-- `_clients.Values`, in some order. -/
def Registry.values (registry : Registry) : List ClientRef := registry.entries.map Sigma.snd

/-- A registry that leads each id to the client that has it holds no client twice. -/
theorem Registry.nodup_values {registry : Registry} {idOf : ClientRef → Option NetString}
    (identified : ∀ id client, registry.lookup id = some client → idOf client = some id) :
    registry.values.Nodup := by
  refine List.Nodup.map_on ?_ (List.NodupKeys.nodup registry.nodupKeys)
  intro first member second member' same
  have named := identified _ _ (AList.mem_lookup_iff.mpr member)
  have named' := identified _ _ (AList.mem_lookup_iff.mpr member')
  rw [same, named'] at named
  exact Sigma.ext (Option.some.inj named).symm (heq_of_eq same)

/-- A call of `DisconnectClient`, before or after `client.Disconnect()`. -/
structure DisconnectCall where
  client : ClientRef
  subscriptionId : Option NetString
  disconnected : Bool := false
  deriving DecidableEq

/-- What a step of a call comes to. -/
inductive Progress
  | running (call : DisconnectCall)
  | returned
  | thrown

def Progress.call : Progress → Option DisconnectCall
  | .running call => some call
  | _ => none

/-- What the loop thread is doing: the next statement of `OnClientConnected`, or a call of
`DisconnectClient`. -/
inductive LoopPhase
  | idle
  | initializing (client : ClientRef) (connectionId : NetString)
  | registering (client : ClientRef) (connectionId : NetString)
  /-- `OnConnect` is about to set the context. -/
  | connecting (client : ClientRef)
  /-- `EnsureNoZombie` is next. -/
  | scheduling (client : ClientRef)
  | disconnecting (call : DisconnectCall)

def LoopPhase.ofProgress : Progress → LoopPhase
  | .running call => .disconnecting call
  | _ => .idle

/-- Where the loop of `ForEachClient` is. -/
inductive ActionPhase
  | between
  | acting
  /-- the action is inside a call of `DisconnectClient`. -/
  | disconnecting (call : DisconnectCall)

/-- An exception leaves the action, and the loop catches it. -/
def ActionPhase.ofProgress : Progress → ActionPhase
  | .running call => .disconnecting call
  | .returned => .acting
  | .thrown => .between

/-- A call of `ForEachClient` after it has taken its snapshot. -/
structure Iteration where
  snapshot : List ClientRef
  /-- the clients the action was called with, in order. -/
  visited : List ClientRef := []
  remaining : List ClientRef
  phase : ActionPhase := .between

/-- The loop has gone through its snapshot. -/
def Iteration.Over (iteration : Iteration) : Prop :=
  iteration.remaining = [] ∧ iteration.phase = .between

inductive Thread
  /-- the callback of `EnsureNoZombie`, and its call until that is over. -/
  | zombieCheck (call : Option DisconnectCall)
  | forEachClient (iteration : Iteration)

structure State (Context : Type) where
  /-- `CorrelationIdGenerator._lastId`. -/
  lastId : Int
  created : Nat := 0
  object : ClientRef → Client Context := fun _ => {}
  clients : Registry := ∅
  loop : LoopPhase := .idle
  /-- the clients whose connection is being read. -/
  reading : List ClientRef := []
  /-- the clients with a pending zombie check. -/
  timers : List ClientRef := []
  threads : List Thread := []
  /-- the tasks `OnReceive` has started, by the client the line is from. -/
  tasks : List ClientRef := []
  /-- the clients `OnClientConnected` has put into `_clients`, and those for which a
  `DisconnectClient` has been through its lock region. -/
  registered : List ClientRef := []
  unregistered : List ClientRef := []

inductive Label (Context : Type)
  /-- a connection is accepted and gets its id; `KeepAlive` may throw. -/
  | accept (fails : Bool)
  | initializeClient (fails : Bool)
  | register
  | setContext (context : Context)
  | schedule (fails : Bool)
  /-- `count` bytes are read at the time `now`, which complete some lines, and may exceed the
  limit. -/
  | read (client : ClientRef) (now : Int) (count lines : Nat) (flooded : Bool)
  | readError (client : ClientRef)
  | endOfStream (client : ClientRef)
  | advanceLoop (throws : Bool)
  /-- the zombie check of a client is due. -/
  | zombie (client : ClientRef)
  /-- `ForEachClient` is called, and takes a snapshot of the clients in some order. -/
  | forEachClient (order : List ClientRef)
  | visit (thread : Nat)
  /-- the action disconnects a client, which may be any that has ever been registered. -/
  | callDisconnect (thread : Nat) (client : ClientRef)
  /-- the action returns, or throws. -/
  | finishAction (thread : Nat)
  | advance (thread : Nat) (throws : Bool)
  /-- a task of `OnReceive` runs, and dispatches a request with some effect if there is one. -/
  | dispatch (client : ClientRef) (effect : Option (Context → Context))

variable {Context : Type}

/-- The other thread whose step it is, if it is one. -/
def Label.thread : Label Context → Option Nat
  | .visit thread | .callDisconnect thread _ | .finishAction thread | .advance thread _ =>
      some thread
  | _ => none

def Label.isAccept : Label Context → Bool
  | .accept _ => true
  | _ => false

namespace State

def modify (s : State Context) (client : ClientRef) (change : Client Context → Client Context) :
    State Context :=
  { s with object := Function.update s.object client (change (s.object client)) }

theorem object_modify (s : State Context) (client other : ClientRef)
    (change : Client Context → Client Context) :
    (s.modify client change).object other =
      if other = client then change (s.object client) else s.object other :=
  Function.update_apply ..

/-- The beginning of `DisconnectClient`. -/
def call (s : State Context) (client : ClientRef) : DisconnectCall :=
  { client, subscriptionId := (s.object client).connectionId }

/-- The lock region of `DisconnectClient`, which it enters unless
`string.IsNullOrEmpty(subscriptionId)`.  `OnDisconnect` after it does nothing. -/
def unregister (s : State Context) (call : DisconnectCall) : State Context :=
  match call.subscriptionId with
  | none => s
  | some subscriptionId =>
      if subscriptionId = [] then s
      else { s with
        clients := s.clients.erase subscriptionId
        unregistered := s.unregistered ++ [call.client] }

/-- The next step of a call of `DisconnectClient`: `client.Disconnect()`, which may throw, or the
lock region. -/
def advance (s : State Context) (call : DisconnectCall) (throws : Bool) :
    State Context × Progress :=
  if call.disconnected then (s.unregister call, .returned)
  else if throws then (s, .thrown)
  else (s.modify call.client Client.disconnect, .running { call with disconnected := true })

/-- `DisconnectClient`, when `client.Disconnect()` does not throw and nothing comes in between. -/
def disconnectClient (s : State Context) (client : ClientRef) : State Context :=
  (s.modify client Client.disconnect).unregister (s.call client)

theorem disconnectClient_eq (s : State Context) (client : ClientRef) :
    s.advance (s.call client) false =
        (s.modify client Client.disconnect, .running { s.call client with disconnected := true }) ∧
      (s.modify client Client.disconnect).advance { s.call client with disconnected := true }
        false = (s.disconnectClient client, .returned) := ⟨rfl, rfl⟩

def setThread (s : State Context) (i : Nat) (thread : Thread) : State Context :=
  { s with threads := s.threads.set i thread }

/-- The call of `DisconnectClient` that a label advances. -/
def advancing (s : State Context) : Label Context → Option DisconnectCall
  | .advanceLoop _ =>
      match s.loop with
      | .disconnecting call => some call
      | _ => none
  | .advance thread _ =>
      match s.threads[thread]? with
      | some (.zombieCheck call) => call
      | some (.forEachClient ⟨_, _, _, .disconnecting call⟩) => some call
      | _ => none
  | _ => none

end State

/-- A server whose process has drawn connection ids up to `start`. -/
def initial (start : Int) : State Context := { lastId := int64 start }

/-- The steps of the loop thread. -/
def loopStep (s : State Context) : LoopPhase → Label Context → Option (State Context)
  | .idle, .accept fails =>
      let (connectionId, lastId) := getNextId s.lastId
      some { s with
        lastId
        created := s.created + 1
        loop := if fails then .idle else .initializing s.created connectionId }
  | .initializing client connectionId, .initializeClient fails =>
      if fails then some { s with loop := .idle }
      else some { s.modify client (fun _ =>
          { connectionId := some connectionId, isAlive := true, subscription := true }) with
        reading := s.reading ++ [client]
        loop := .registering client connectionId }
  | .registering client connectionId, .register =>
      some { s with
        clients := s.clients.insert connectionId client
        registered := s.registered ++ [client]
        loop := .connecting client }
  | .connecting client, .setContext context =>
      some { s.modify client (fun object => { object with context := some context }) with
        loop := .scheduling client }
  | .scheduling client, .schedule fails =>
      some { s with
        timers := if fails then s.timers else s.timers ++ [client]
        loop := .idle }
  | .idle, .read client now count lines flooded =>
      if client ∉ s.reading then none
      else if count = 0 ∨ (s.object client).isAlive = false then some s
      else some { s.modify client (fun object => { object with lastReceive := some now }) with
        tasks := s.tasks ++ List.replicate lines client
        loop := if flooded then .disconnecting (s.call client) else .idle }
  | .idle, .readError client =>
      if client ∉ s.reading then none else some { s with loop := .disconnecting (s.call client) }
  | .idle, .endOfStream client =>
      if client ∉ s.reading then none
      else some { s.modify client (fun object => { object with isAlive := false }) with
        loop := .disconnecting (s.call client) }
  | .disconnecting call, .advanceLoop throws =>
      let (s, progress) := s.advance call throws
      some { s with loop := .ofProgress progress }
  | _, _ => none

/-- The steps of the thread `i`. -/
def threadStep (s : State Context) (i : Nat) : Thread → Label Context → Option (State Context)
  | .zombieCheck (some call), .advance _ throws =>
      let (s, progress) := s.advance call throws
      some (s.setThread i (.zombieCheck progress.call))
  | .forEachClient ⟨snapshot, visited, client :: rest, .between⟩, .visit _ =>
      some (s.setThread i (.forEachClient ⟨snapshot, visited ++ [client], rest, .acting⟩))
  | .forEachClient ⟨snapshot, visited, remaining, .acting⟩, .callDisconnect _ client =>
      if client ∉ s.registered then none
      else some (s.setThread i
        (.forEachClient ⟨snapshot, visited, remaining, .disconnecting (s.call client)⟩))
  | .forEachClient ⟨snapshot, visited, remaining, .acting⟩, .finishAction _ =>
      some (s.setThread i (.forEachClient ⟨snapshot, visited, remaining, .between⟩))
  | .forEachClient ⟨snapshot, visited, remaining, .disconnecting call⟩, .advance _ throws =>
      let (s, progress) := s.advance call throws
      some (s.setThread i (.forEachClient ⟨snapshot, visited, remaining, .ofProgress progress⟩))
  | _, _ => none

/-- One step of the loop thread, of another thread, of a timer or of a task. -/
def step (s : State Context) (label : Label Context) : Option (State Context) :=
  match label with
  | .zombie client =>
      if client ∉ s.timers then none
      else if (s.object client).lastReceive.isSome then
        some { s with timers := s.timers.erase client }
      else some { s with
        timers := s.timers.erase client
        threads := s.threads ++ [.zombieCheck (some (s.call client))] }
  | .forEachClient order =>
      if order.isPerm s.clients.values then
        some { s with
          threads := s.threads ++ [.forEachClient { snapshot := order, remaining := order }] }
      else none
  | .dispatch client effect =>
      if client ∉ s.tasks then none
      else some { s.modify client (fun object =>
          { object with context := object.context.map (effect.getD id) }) with
        tasks := s.tasks.erase client }
  | .visit thread | .callDisconnect thread _ | .finishAction thread | .advance thread _ =>
      s.threads[thread]?.bind fun current => threadStep s thread current label
  | _ => loopStep s s.loop label

/-! ## The enabled steps -/

/-- One rule for each way a step can be taken, with what it finds and what it leaves. -/
inductive Taken (s : State Context) : Label Context → State Context → Prop
  | accept {fails : Bool} (here : s.loop = .idle) :
    Taken s (.accept fails) { s with
      lastId := (getNextId s.lastId).2
      created := s.created + 1
      loop := if fails then .idle else .initializing s.created (getNextId s.lastId).1 }
  | abandon {client : ClientRef} {connectionId : NetString}
    (here : s.loop = .initializing client connectionId) :
    Taken s (.initializeClient true) { s with loop := .idle }
  | initializeClient {client : ClientRef} {connectionId : NetString}
    (here : s.loop = .initializing client connectionId) :
    Taken s (.initializeClient false) { s.modify client (fun _ =>
        { connectionId := some connectionId, isAlive := true, subscription := true }) with
      reading := s.reading ++ [client]
      loop := .registering client connectionId }
  | register {client : ClientRef} {connectionId : NetString}
    (here : s.loop = .registering client connectionId) :
    Taken s .register { s with
      clients := s.clients.insert connectionId client
      registered := s.registered ++ [client]
      loop := .connecting client }
  | setContext {client : ClientRef} {context : Context} (here : s.loop = .connecting client) :
    Taken s (.setContext context)
      { s.modify client (fun object => { object with context := some context }) with
        loop := .scheduling client }
  | schedule {client : ClientRef} {fails : Bool} (here : s.loop = .scheduling client) :
    Taken s (.schedule fails) { s with
      timers := if fails then s.timers else s.timers ++ [client]
      loop := .idle }
  | ignore {client : ClientRef} {now : Int} {count lines : Nat} {flooded : Bool} :
    Taken s (.read client now count lines flooded) s
  | read {client : ClientRef} {now : Int} {count lines : Nat} {flooded : Bool}
    (here : s.loop = .idle) (member : client ∈ s.reading) :
    Taken s (.read client now count lines flooded)
      { s.modify client (fun object => { object with lastReceive := some now }) with
        tasks := s.tasks ++ List.replicate lines client
        loop := if flooded then .disconnecting (s.call client) else .idle }
  | readError {client : ClientRef} (here : s.loop = .idle) (member : client ∈ s.reading) :
    Taken s (.readError client) { s with loop := .disconnecting (s.call client) }
  | endOfStream {client : ClientRef} (here : s.loop = .idle) (member : client ∈ s.reading) :
    Taken s (.endOfStream client)
      { s.modify client (fun object => { object with isAlive := false }) with
        loop := .disconnecting (s.call client) }
  | advanceLoop {call : DisconnectCall} {throws : Bool} (here : s.loop = .disconnecting call) :
    Taken s (.advanceLoop throws)
      { (s.advance call throws).1 with loop := .ofProgress (s.advance call throws).2 }
  | excused {client : ClientRef} (due : client ∈ s.timers) :
    Taken s (.zombie client) { s with timers := s.timers.erase client }
  | zombie {client : ClientRef} (due : client ∈ s.timers) :
    Taken s (.zombie client) { s with
      timers := s.timers.erase client
      threads := s.threads ++ [.zombieCheck (some (s.call client))] }
  | forEachClient {order : List ClientRef} (listed : order.Perm s.clients.values) :
    Taken s (.forEachClient order) { s with
      threads := s.threads ++ [.forEachClient { snapshot := order, remaining := order }] }
  | dispatch {client : ClientRef} {effect : Option (Context → Context)}
    (started : client ∈ s.tasks) :
    Taken s (.dispatch client effect)
      { s.modify client (fun object =>
          { object with context := object.context.map (effect.getD id) }) with
        tasks := s.tasks.erase client }
  | advanceCheck {i : Nat} {call : DisconnectCall} {throws : Bool}
    (here : s.threads[i]? = some (.zombieCheck (some call))) :
    Taken s (.advance i throws) ((s.advance call throws).1.setThread i
      (.zombieCheck (s.advance call throws).2.call))
  | visit {i : Nat} {snapshot visited rest : List ClientRef} {client : ClientRef}
    (here : s.threads[i]? = some (.forEachClient ⟨snapshot, visited, client :: rest, .between⟩)) :
    Taken s (.visit i)
      (s.setThread i (.forEachClient ⟨snapshot, visited ++ [client], rest, .acting⟩))
  | callDisconnect {i : Nat} {snapshot visited remaining : List ClientRef} {client : ClientRef}
    (here : s.threads[i]? = some (.forEachClient ⟨snapshot, visited, remaining, .acting⟩))
    (known : client ∈ s.registered) :
    Taken s (.callDisconnect i client) (s.setThread i
      (.forEachClient ⟨snapshot, visited, remaining, .disconnecting (s.call client)⟩))
  | finishAction {i : Nat} {snapshot visited remaining : List ClientRef}
    (here : s.threads[i]? = some (.forEachClient ⟨snapshot, visited, remaining, .acting⟩)) :
    Taken s (.finishAction i)
      (s.setThread i (.forEachClient ⟨snapshot, visited, remaining, .between⟩))
  | advanceAction {i : Nat} {snapshot visited remaining : List ClientRef} {call : DisconnectCall}
    {throws : Bool}
    (here : s.threads[i]? =
      some (.forEachClient ⟨snapshot, visited, remaining, .disconnecting call⟩)) :
    Taken s (.advance i throws) ((s.advance call throws).1.setThread i
      (.forEachClient ⟨snapshot, visited, remaining, .ofProgress (s.advance call throws).2⟩))

section Enabled

variable {s t : State Context} {i : Nat} {label : Label Context}

theorem loopStep_cases {phase : LoopPhase}
    (here : s.loop = phase) (taken : loopStep s phase label = some t) : Taken s label t := by
  unfold loopStep at taken
  split at taken
  case h_1 =>
    cases taken
    exact .accept here
  case h_2 =>
    split at taken
    case isTrue fails =>
      cases taken
      exact fails ▸ .abandon here
    case isFalse succeeds =>
      cases taken
      exact (Bool.eq_false_iff.mpr succeeds) ▸ .initializeClient here
  case h_3 =>
    cases taken
    exact .register here
  case h_4 =>
    cases taken
    exact .setContext here
  case h_5 =>
    cases taken
    exact .schedule here
  case h_6 =>
    split at taken
    case isTrue => cases taken
    case isFalse member =>
      split at taken
      case isTrue =>
        cases taken
        exact .ignore
      case isFalse =>
        cases taken
        exact .read here (not_not.mp member)
  case h_7 =>
    split at taken
    case isTrue => cases taken
    case isFalse member =>
      cases taken
      exact .readError here (not_not.mp member)
  case h_8 =>
    split at taken
    case isTrue => cases taken
    case isFalse member =>
      cases taken
      exact .endOfStream here (not_not.mp member)
  case h_9 =>
    cases taken
    exact .advanceLoop here
  case h_10 => cases taken

theorem threadStep_cases {thread : Thread} (here : s.threads[i]? = some thread)
    (ofThread : label.thread = some i)
    (taken : threadStep s i thread label = some t) : Taken s label t := by
  unfold threadStep at taken
  split at taken
  case h_6 => cases taken
  all_goals cases ofThread
  case h_1 =>
    cases taken
    exact .advanceCheck here
  case h_2 =>
    cases taken
    exact .visit here
  case h_3 =>
    split at taken
    case isTrue => cases taken
    case isFalse known =>
      cases taken
      exact .callDisconnect here (not_not.mp known)
  case h_4 =>
    cases taken
    exact .finishAction here
  case h_5 =>
    cases taken
    exact .advanceAction here

theorem step_cases (taken : step s label = some t) : Taken s label t := by
  have ofThread : ∀ i, label.thread = some i →
      (s.threads[i]?.bind fun current => threadStep s i current label) = some t →
      Taken s label t := by
    intro i ofThread moved
    obtain ⟨thread, here, moved⟩ := Option.bind_eq_some_iff.mp moved
    exact threadStep_cases here ofThread moved
  unfold step at taken
  split at taken
  case h_1 =>
    split at taken
    case isTrue => cases taken
    case isFalse due =>
      split at taken
      case isTrue =>
        cases taken
        exact .excused (not_not.mp due)
      case isFalse =>
        cases taken
        exact .zombie (not_not.mp due)
  case h_2 =>
    split at taken
    case isTrue listed =>
      cases taken
      exact .forEachClient (List.isPerm_iff.mp listed)
    case isFalse => cases taken
  case h_3 =>
    split at taken
    case isTrue => cases taken
    case isFalse started =>
      cases taken
      exact .dispatch (not_not.mp started)
  case h_4 | h_5 | h_6 | h_7 => exact ofThread _ rfl taken
  case h_8 => exact loopStep_cases rfl taken

theorem step_of_thread {thread : Thread} (here : s.threads[i]? = some thread)
    (ofThread : label.thread = some i) : step s label = threadStep s i thread label := by
  cases label with
  | visit | callDisconnect | finishAction | advance =>
      cases ofThread
      dsimp only [step]
      rw [here, Option.bind_some]
  | _ => cases ofThread

/-- The loop of `ForEachClient` never gets stuck, whatever its actions have thrown. -/
theorem exists_step_of_not_over {iteration : Iteration}
    (here : s.threads[i]? = some (.forEachClient iteration)) (unfinished : ¬ iteration.Over) :
    ∃ label, label.thread = some i ∧ (step s label).isSome := by
  rcases iteration with ⟨snapshot, visited, remaining, phase⟩
  cases phase with
  | between =>
      cases remaining with
      | nil => exact (unfinished ⟨rfl, rfl⟩).elim
      | cons client rest => exact ⟨.visit i, rfl, by rw [step_of_thread here rfl]; rfl⟩
  | acting =>
      refine ⟨.finishAction i, rfl, ?_⟩
      rw [step_of_thread here rfl]
      cases remaining with
      | nil => rfl
      | cons client rest => rfl
  | disconnecting call =>
      refine ⟨.advance i false, rfl, ?_⟩
      rw [step_of_thread here rfl]
      cases remaining with
      | nil => rfl
      | cons client rest => rfl

end Enabled

end StratumServer

end Hypepool
