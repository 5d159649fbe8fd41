import Hypepool.Core.ClientRegistry
import Hypepool.Monero.ExtraNonce
import Hypepool.Monero.TipFollowing
import Mathlib.Logic.Function.Iterate

/-!
# The broadcast of a new job

`BroadcastJob` goes through a snapshot of the registry.  It passes over the clients that are not
logged in, disconnects the idle ones, and calls `CreateWorkerJob` for the others; what is thrown for
a client is logged, and ends its turn only.

* `stateAfter_broadcastTo`: one client's turn.
* `Reached.turn`: what a turn preserves of what the broadcast has done so far.
* `broadcastJob_reaches`: the clients removed and the worker jobs created by a whole broadcast.
-/

namespace Hypepool

open StratumServer

/-- A call of `CreateWorkerJob` for a client: the job it is called on, and the extra nonce it
draws. -/
structure WorkerJobCall where
  client : ClientRef
  job : MoneroJob
  extraNonce : UInt32

/-- What `BroadcastJob` works on.  The registry is a dictionary, with at most `int.MaxValue`
entries, and leads each id to the client that has it. -/
structure BroadcastingPool where
  server : State MoneroWorkerContext
  manager : MoneroJobManager
  /-- the calls of `CreateWorkerJob` so far, in order. -/
  calls : List WorkerJobCall := []
  identified : ∀ id client, server.clients.lookup id = some client →
    id ≠ [] ∧ (server.object client).connectionId = some id
  count : server.clients.entries.length ≤ 0x7fffffff

namespace BroadcastingPool

/-- The server of any run can be broadcast to, as long as a dictionary holds its clients. -/
theorem exists_of_run {start : Int} {schedule : List (Label MoneroWorkerContext)}
    {server : State MoneroWorkerContext}
    (run : Base.exec step (initial start) schedule = some server)
    (few : connections schedule < 0x8000000000000000)
    (count : server.clients.entries.length ≤ 0x7fffffff) (manager : MoneroJobManager) :
    ∃ pool : BroadcastingPool, pool.server = server ∧ pool.manager = manager := by
  have sound := sound_run run few
  have identified : ∀ id client, server.clients.lookup id = some client →
      id ≠ [] ∧ (server.object client).connectionId = some id := by
    intro id client found
    obtain ⟨same, member, _⟩ := (sound.registry id client).mp found
    exact ⟨same ▸ idOf_ne_nil, same ▸ (sound.known client member).2⟩
  exact ⟨{ server, manager, identified, count }, rfl, rfl⟩

/-- The ticks of a second. -/
def ticksPerSecond : Int := 10000000

/-- `timeout`, in seconds. -/
def timeout : Int := 600

def clientContext (pool : BroadcastingPool) (client : ClientRef) : Option MoneroWorkerContext :=
  (pool.server.object client).context

theorem disconnectClient_sub {server : State MoneroWorkerContext} {client : ClientRef} :
    (server.disconnectClient client).clients.entries.length ≤ server.clients.entries.length ∧
    (∀ id other, (server.disconnectClient client).clients.lookup id = some other →
      server.clients.lookup id = some other) ∧
    ∀ other, ((server.disconnectClient client).object other).connectionId =
      (server.object other).connectionId := by
  have identities : ∀ other, ((server.modify client Client.disconnect).object other).connectionId =
      (server.object other).connectionId := by
    intro other
    rw [State.object_modify]
    split
    · rename_i same
      exact same ▸ rfl
    · rfl
  unfold State.disconnectClient State.unregister
  split
  · exact ⟨Nat.le_refl _, fun _ _ found => found, identities⟩
  · rename_i connectionId _
    split
    · exact ⟨Nat.le_refl _, fun _ _ found => found, identities⟩
    · refine ⟨(List.kerase_sublist connectionId _).length_le, fun id other found => ?_, identities⟩
      by_cases same : id = connectionId
      · subst same
        rw [AList.lookup_erase] at found
        cases found
      · rwa [AList.lookup_erase_ne same] at found

/-- `DisconnectClient`. -/
def disconnectClient (pool : BroadcastingPool) (client : ClientRef) : BroadcastingPool :=
  { pool with
    server := pool.server.disconnectClient client
    identified := fun id other found =>
      let before := pool.identified id other (disconnectClient_sub.2.1 id other found)
      ⟨before.1, (disconnectClient_sub.2.2 other).trans before.2⟩
    count := Nat.le_trans disconnectClient_sub.1 pool.count }

/-- A call of `CreateWorkerJob` has left the job as `after`. -/
def called (pool : BroadcastingPool) (client : ClientRef) (job after : MoneroJob) :
    BroadcastingPool :=
  { pool with
    manager := { pool.manager with currentJob := some after }
    calls := pool.calls ++ [⟨client, job, after.extraNonce⟩] }

/-- `CurrentJob.CreateWorkerJob(client)`. -/
def createWorkerJob (host : Host) (rent : Rent) (client : ClientRef) :
    EStateM NetException BroadcastingPool Unit := do
  let pool ← get
  let job ← Base.liftExcept (deref pool.manager.currentJob)
  match (MoneroJob.createWorkerJob host rent (pool.clientContext client)).run job with
  | .ok _ after => set (pool.called client job after)
  | .error exception after =>
      set (pool.called client job after)
      throw exception

/-- What `BroadcastJob` does for one client, at the time `now`. -/
def broadcastTo (host : Host) (rent : Rent) (now : Int) (client : ClientRef) :
    EStateM NetException BroadcastingPool Unit := do
  let context ← Base.liftExcept (deref ((← get).clientContext client))
  if !context.isAuthorized || !context.isSubscribed then return
  let lastActivity := now - context.lastActivity
  if timeout > 0 ∧ lastActivity > timeout * ticksPerSecond then
    modify fun pool => pool.disconnectClient client
    return
  createWorkerJob host rent client

/-- `ForEachClient` over a snapshot of the registry: an exception is logged, and the next client's
turn comes. -/
def forEachClient (snapshot : List ClientRef)
    (action : ClientRef → EStateM NetException BroadcastingPool Unit) (pool : BroadcastingPool) :
    BroadcastingPool :=
  snapshot.foldl (fun pool client => Base.stateAfter (action client) pool) pool

/-- `BroadcastJob`, with what each client's turn finds.  The job it is given is only logged. -/
def broadcastJob (host : Host) (rent : ClientRef → Rent) (now : ClientRef → Int)
    (snapshot : List ClientRef) (_job : MoneroJob) (pool : BroadcastingPool) : BroadcastingPool :=
  forEachClient snapshot (fun client => broadcastTo host (rent client) (now client) client) pool

/-- A poll of the job manager.  `Concat` starts the next one when this one, and the broadcast of its
job, are over. -/
def poll [CurrentCulture] (pool : BroadcastingPool) (answer : TemplateAnswer) : BroadcastingPool :=
  { pool with manager := (MoneroJobManager.updateJob pool.manager answer).2 }

/-! ## One client's turn -/

/-- An authorized and subscribed client that was not active for longer than the timeout. -/
def evicts (now : Int) : Option MoneroWorkerContext → Bool
  | none => false
  | some context => context.isAuthorized && context.isSubscribed &&
      decide (now - context.lastActivity > timeout * ticksPerSecond)

/-- Any other authorized and subscribed client. -/
def serves (now : Int) : Option MoneroWorkerContext → Bool
  | none => false
  | some context => context.isAuthorized && context.isSubscribed &&
      decide (now - context.lastActivity ≤ timeout * ticksPerSecond)

section Turn

variable {host : Host} {rent : Rent} {now : Int} {client : ClientRef} {pool : BroadcastingPool}
  {job : MoneroJob}

/-- Encoding the blob or the target may throw: the draws are made all the same. -/
theorem stateAfter_job (context : MoneroWorkerContext) :
    Base.stateAfter (MoneroJob.createWorkerJob host rent (some context)) job = job.drawn := by
  have run := MoneroJob.run_createWorkerJob host rent job context
  split at run
  · exact Base.stateAfter_of_ok run
  · exact Base.stateAfter_of_error run
  · exact Base.stateAfter_of_error run

theorem stateAfter_createWorkerJob {context : MoneroWorkerContext}
    (current : pool.manager.currentJob = some job)
    (present : pool.clientContext client = some context) :
    Base.stateAfter (createWorkerJob host rent client) pool =
      pool.called client job job.drawn := by
  unfold createWorkerJob
  rw [Base.stateAfter_bind_of_ok (EStateM.run_get pool), current, deref,
    Base.stateAfter_bind_of_ok Base.run_liftExcept_ok, present, ← stateAfter_job context]
  cases ended : (MoneroJob.createWorkerJob host rent (some context)).run job with
  | ok workerJob after =>
      rw [Base.stateAfter_of_ok ended]
      rfl
  | error exception after =>
      rw [Base.stateAfter_of_error ended]
      rfl

theorem stateAfter_broadcastTo (current : pool.manager.currentJob = some job) :
    Base.stateAfter (broadcastTo host rent now client) pool =
      if evicts now (pool.clientContext client) then pool.disconnectClient client
      else if serves now (pool.clientContext client) then pool.called client job job.drawn
      else pool := by
  unfold broadcastTo
  rw [Base.stateAfter_bind_of_ok (EStateM.run_get pool)]
  cases present : pool.clientContext client with
  | none => rfl
  | some context =>
      rw [deref, Base.stateAfter_bind_of_ok Base.run_liftExcept_ok]
      rw [← Bool.not_and]
      by_cases eligible : (context.isAuthorized && context.isSubscribed) = true
      · have evicted : evicts now (some context) =
            decide (now - context.lastActivity > timeout * ticksPerSecond) := by
          rw [evicts, eligible, Bool.true_and]
        have served : serves now (some context) =
            decide (now - context.lastActivity ≤ timeout * ticksPerSecond) := by
          rw [serves, eligible, Bool.true_and]
        rw [eligible, if_neg (by decide), evicted, served]
        by_cases idle : now - context.lastActivity > timeout * ticksPerSecond
        · rw [if_pos ⟨by decide, idle⟩, if_pos (decide_eq_true idle)]
          rfl
        · rw [if_neg fun both => idle both.2, if_neg (by simpa using idle),
            if_pos (decide_eq_true (Int.not_lt.mp idle))]
          exact stateAfter_createWorkerJob current present
      · have ineligible := Bool.eq_false_iff.mpr eligible
        have kept : evicts now (some context) = false := by rw [evicts, ineligible, Bool.false_and]
        have skipped : serves now (some context) = false := by
          rw [serves, ineligible, Bool.false_and]
        rw [ineligible, kept, skipped]
        rfl

theorem not_serves_of_evicts {context : Option MoneroWorkerContext}
    (evicted : evicts now context = true) : serves now context = false := by
  cases context with
  | none => rfl
  | some context =>
      have parts := Bool.and_eq_true_iff.mp evicted
      have late : ¬ now - context.lastActivity ≤ timeout * ticksPerSecond :=
        Int.not_le.mpr (of_decide_eq_true parts.2)
      rw [serves, decide_eq_false late, Bool.and_false]

theorem object_disconnectClient (other : ClientRef) :
    (pool.disconnectClient client).server.object other =
      if other = client then (pool.server.object client).disconnect
      else pool.server.object other := by
  have modified := State.object_modify pool.server client other Client.disconnect
  dsimp only [disconnectClient]
  unfold State.disconnectClient State.unregister
  split
  · exact modified
  · split
    · exact modified
    · exact modified

/-- A registered client is found under its id only: removing the id removes the client. -/
theorem lookup_disconnectClient {id : NetString}
    (registered : pool.server.clients.lookup id = some client) (id' : NetString)
    (other : ClientRef) :
    (pool.disconnectClient client).server.clients.lookup id' = some other ↔
      pool.server.clients.lookup id' = some other ∧ other ≠ client := by
  obtain ⟨nonempty, named⟩ := pool.identified id client registered
  have erased : (pool.disconnectClient client).server.clients = pool.server.clients.erase id := by
    dsimp only [disconnectClient]
    unfold State.disconnectClient State.unregister State.call
    rw [named]
    dsimp only
    rw [if_neg nonempty]
    rfl
  rw [erased]
  by_cases same : id' = id
  · subst same
    rw [AList.lookup_erase, registered]
    constructor
    · intro found
      cases found
    · intro both
      exact (both.2 (Option.some.inj both.1).symm).elim
  · rw [AList.lookup_erase_ne same]
    constructor
    · intro found
      refine ⟨found, fun equal => same ?_⟩
      subst equal
      exact Option.some.inj ((pool.identified id' other found).2.symm.trans named)
    · exact fun both => both.1

end Turn

/-! ## The whole broadcast -/

/-- The clients among some that are served. -/
def served (now : ClientRef → Int) (pool : BroadcastingPool) (clients : List ClientRef) :
    List ClientRef :=
  clients.filter fun client => serves (now client) (pool.clientContext client)

/-- What there is of a broadcast of `job` when the turns of `turns` are over. -/
structure Reached (now : ClientRef → Int) (start : BroadcastingPool) (job : MoneroJob)
    (turns : List ClientRef) (pool : BroadcastingPool) : Prop where
  registry : ∀ id client, pool.server.clients.lookup id = some client ↔
    start.server.clients.lookup id = some client ∧
      ¬ (client ∈ turns ∧ evicts (now client) (start.clientContext client) = true)
  objects : ∀ client, pool.server.object client =
    if client ∈ turns ∧ evicts (now client) (start.clientContext client) = true then
      (start.server.object client).disconnect
    else start.server.object client
  current : pool.manager.currentJob =
    some (MoneroJob.drawn^[(served now start turns).length] job)
  calls : pool.calls = start.calls ++ (served now start turns).mapIdx fun k client =>
    ⟨client, MoneroJob.drawn^[k] job, (MoneroJob.drawn^[k + 1] job).extraNonce⟩

section Whole

variable {host : Host} {rent : Rent} {now : ClientRef → Int} {start pool : BroadcastingPool}
  {job : MoneroJob} {turns : List ClientRef} {client : ClientRef} {id : NetString}

theorem served_concat : served now start (turns ++ [client]) = served now start turns ++
    if serves (now client) (start.clientContext client) = true then [client] else [] := by
  unfold served
  rw [List.filter_append, List.filter_singleton]
  cases serves (now client) (start.clientContext client) with
  | false => rfl
  | true => rfl

/-- Before its turn a client is as it was. -/
theorem Reached.untouched (reached : Reached now start job turns pool) (new : client ∉ turns) :
    pool.server.object client = start.server.object client := by
  rw [reached.objects, if_neg fun both => new both.1]

theorem Reached.evict (reached : Reached now start job turns pool) (new : client ∉ turns)
    (registered : start.server.clients.lookup id = some client)
    (evicted : evicts (now client) (start.clientContext client) = true) :
    Reached now start job (turns ++ [client]) (pool.disconnectClient client) := by
  have here : pool.server.clients.lookup id = some client :=
    (reached.registry id client).mpr ⟨registered, fun both => new both.1⟩
  have members : ∀ other, other ∈ turns ++ [client] ↔ other ∈ turns ∨ other = client := by
    intro other
    rw [List.mem_append, List.mem_singleton]
  have same : served now start (turns ++ [client]) = served now start turns := by
    rw [served_concat, if_neg (by rw [not_serves_of_evicts evicted]; decide), List.append_nil]
  refine ⟨fun id' other => ?_, fun other => ?_, same ▸ reached.current, same ▸ reached.calls⟩
  · rw [lookup_disconnectClient here, reached.registry, members]
    constructor
    · intro both
      obtain ⟨⟨found, kept⟩, differs⟩ := both
      refine ⟨found, fun out => ?_⟩
      rcases out.1 with earlier | equal
      · exact kept ⟨earlier, out.2⟩
      · exact differs equal
    · intro both
      obtain ⟨found, kept⟩ := both
      refine ⟨⟨found, fun out => kept ⟨Or.inl out.1, out.2⟩⟩, fun equal => ?_⟩
      subst equal
      exact kept ⟨Or.inr rfl, evicted⟩
  · rw [object_disconnectClient]
    by_cases equal : other = client
    · subst equal
      rw [if_pos rfl, if_pos ⟨(members other).mpr (Or.inr rfl), evicted⟩, reached.untouched new]
    · rw [if_neg equal, reached.objects]
      simp only [members, equal, or_false]

/-- A client that is not evicted adds nothing to those that are. -/
theorem evicted_concat (kept : ¬ evicts (now client) (start.clientContext client) = true)
    (other : ClientRef) :
    (other ∈ turns ++ [client] ∧ evicts (now other) (start.clientContext other) = true) ↔
      other ∈ turns ∧ evicts (now other) (start.clientContext other) = true := by
  rw [List.mem_append, List.mem_singleton]
  constructor
  · intro out
    rcases out.1 with earlier | equal
    · exact ⟨earlier, out.2⟩
    · exact (kept (equal ▸ out.2)).elim
  · intro out
    exact ⟨Or.inl out.1, out.2⟩

theorem Reached.skip (reached : Reached now start job turns pool)
    (kept : ¬ evicts (now client) (start.clientContext client) = true)
    (skipped : ¬ serves (now client) (start.clientContext client) = true) :
    Reached now start job (turns ++ [client]) pool := by
  have same : served now start (turns ++ [client]) = served now start turns := by
    rw [served_concat, if_neg skipped, List.append_nil]
  refine ⟨fun id other => ?_, fun other => ?_, same ▸ reached.current, same ▸ reached.calls⟩
  · rw [evicted_concat kept]
    exact reached.registry id other
  · simp only [evicted_concat kept]
    exact reached.objects other

theorem Reached.serve (reached : Reached now start job turns pool)
    (kept : ¬ evicts (now client) (start.clientContext client) = true)
    (isServed : serves (now client) (start.clientContext client) = true) :
    Reached now start job (turns ++ [client])
      (pool.called client (MoneroJob.drawn^[(served now start turns).length] job)
        (MoneroJob.drawn^[(served now start turns).length] job).drawn) := by
  have more : served now start (turns ++ [client]) = served now start turns ++ [client] := by
    rw [served_concat, if_pos isServed]
  refine ⟨fun id other => ?_, fun other => ?_, ?_, ?_⟩
  · rw [evicted_concat kept]
    exact reached.registry id other
  · simp only [evicted_concat kept]
    exact reached.objects other
  · rw [more, List.length_append, List.length_singleton, Function.iterate_succ_apply']
    rfl
  · rw [more, List.mapIdx_concat, ← List.append_assoc, ← reached.calls,
      Function.iterate_succ_apply']
    rfl

/-- What one turn does is decided by the client's context, and by its clock. -/
theorem Reached.turn (reached : Reached now start job turns pool) (new : client ∉ turns)
    (registered : start.server.clients.lookup id = some client) :
    Reached now start job (turns ++ [client])
      (Base.stateAfter (broadcastTo host rent (now client) client) pool) := by
  have context : pool.clientContext client = start.clientContext client :=
    congrArg Client.context (reached.untouched new)
  rw [stateAfter_broadcastTo reached.current, context]
  split
  case isTrue evicted => exact reached.evict new registered evicted
  case isFalse kept =>
    split
    case isTrue isServed => exact reached.serve kept isServed
    case isFalse skipped => exact reached.skip kept skipped

/-- The induction is on the clients whose turn is still to come. -/
theorem Reached.forEachClient {rent : ClientRef → Rent} {snapshot : List ClientRef}
    (reached : Reached now start job turns pool) (distinct : (turns ++ snapshot).Nodup)
    (registered : ∀ client ∈ snapshot, client ∈ start.server.clients.values) :
    Reached now start job (turns ++ snapshot) (forEachClient snapshot
      (fun client => broadcastTo host (rent client) (now client) client) pool) := by
  induction snapshot generalizing turns pool with
  | nil => exact (List.append_nil turns).symm ▸ reached
  | cons client snapshot ih =>
      have shape : turns ++ client :: snapshot = (turns ++ [client]) ++ snapshot := by
        rw [List.append_assoc, List.singleton_append]
      have new : client ∉ turns := fun member =>
        (List.nodup_append.mp distinct).2.2 client member client List.mem_cons_self rfl
      obtain ⟨⟨id, _⟩, entry, same⟩ := List.mem_map.mp (registered client List.mem_cons_self)
      have found : start.server.clients.lookup id = some client :=
        AList.mem_lookup_iff.mpr (same ▸ entry)
      have turn : Reached now start job (turns ++ [client]) (Base.stateAfter
          (broadcastTo host (rent client) (now client) client) pool) := reached.turn new found
      rw [shape] at distinct ⊢
      exact ih turn distinct fun other member => registered other (List.mem_cons_of_mem _ member)

theorem extraNonce_iterate_drawn (job : MoneroJob) (k : Nat) :
    (MoneroJob.drawn^[k] job).extraNonce = job.extraNonce + UInt32.ofNat k := by
  induction k with
  | zero => exact (UInt32.add_zero _).symm
  | succ k ih =>
      rw [Function.iterate_succ_apply', UInt32.ofNat_add, ← UInt32.add_assoc, ← ih]
      rfl

theorem nodup_nonces (nonce : UInt32) {count : Nat} (few : count ≤ 0x7fffffff) :
    ((List.range count).map fun k => nonce + UInt32.ofNat (k + 1)).Nodup := by
  refine List.Nodup.map_on ?_ List.nodup_range
  intro j member k member' same
  have below := List.mem_range.mp member
  have below' := List.mem_range.mp member'
  have offsets := congrArg UInt32.toNat ((UInt32.add_right_inj nonce).mp same)
  rw [UInt32.toNat_ofNat', UInt32.toNat_ofNat'] at offsets
  omega

end Whole

/-- **The reach of a broadcast.**  A poll has published `job`, and `BroadcastJob` runs with nothing
in between.  Afterwards the registry has lost exactly the authorized and subscribed clients that
were not active for more than ten minutes, and nothing else of any client has changed than that
these are disconnected.  `CreateWorkerJob` was called once for each other authorized and subscribed
client of the registry, always on this job, and the calls drew the extra nonces that follow the
job's in turn, all different.  What happens to a client depends on its own context and clock alone,
whatever is thrown for the others. -/
theorem broadcastJob_reaches [CurrentCulture] (host : Host) (rent : ClientRef → Rent)
    (now : ClientRef → Int) (pool : BroadcastingPool) (answer : TemplateAnswer) (job : MoneroJob)
    (snapshot : List ClientRef)
    (published : (MoneroJobManager.updateJob pool.manager answer).1 = some job)
    (listed : snapshot.Perm pool.server.clients.values) :
    let after := broadcastJob host rent now snapshot job (pool.poll answer)
    (∀ id client, after.server.clients.lookup id = some client ↔
      pool.server.clients.lookup id = some client ∧
        evicts (now client) (pool.clientContext client) = false) ∧
    (∀ client, after.server.object client =
      if client ∈ pool.server.clients.values ∧
          evicts (now client) (pool.clientContext client) = true then
        (pool.server.object client).disconnect
      else pool.server.object client) ∧
    ∃ clients : List ClientRef, clients.Nodup ∧
      (∀ client, client ∈ clients ↔ client ∈ pool.server.clients.values ∧
        serves (now client) (pool.clientContext client) = true) ∧
      (after.calls = pool.calls ++ clients.mapIdx fun k client =>
        ⟨client, MoneroJob.drawn^[k] job, job.extraNonce + UInt32.ofNat (k + 1)⟩) ∧
      ((List.range clients.length).map fun k => job.extraNonce + UInt32.ofNat (k + 1)).Nodup := by
  intro after
  have current : (pool.poll answer).manager.currentJob = some job := by
    by_cases adoptable : MoneroJobManager.Adoptable pool.manager answer
    · obtain ⟨_, made, _, _, _, result⟩ := MoneroJobManager.updateJob_of_adoptable adoptable
      rw [result] at published
      cases Option.some.inj published
      dsimp only [poll]
      rw [result]
    · obtain ⟨_, _, result⟩ := MoneroJobManager.updateJob_of_not_adoptable adoptable
      rw [result] at published
      cases published
  have begun : Reached now (pool.poll answer) job [] (pool.poll answer) :=
    ⟨fun id client => ⟨fun found => ⟨found, fun out => nomatch out.1⟩, fun both => both.1⟩,
      fun client => (if_neg fun out => nomatch out.1).symm, current, (List.append_nil _).symm⟩
  have distinct : snapshot.Nodup := listed.nodup_iff.mpr
    (Registry.nodup_values fun id client found => (pool.identified id client found).2)
  have ended : Reached now (pool.poll answer) job snapshot after :=
    begun.forEachClient distinct fun client member => listed.mem_iff.mp member
  refine ⟨fun id client => ?_, fun client => ?_, served now pool snapshot,
    distinct.filter _, fun client => ?_, ?_, ?_⟩
  · rw [ended.registry id client, ← Bool.not_eq_true]
    constructor
    · intro both
      obtain ⟨found, kept⟩ := both
      have member : client ∈ snapshot :=
        listed.mem_iff.mpr (List.mem_map.mpr ⟨_, AList.mem_lookup_iff.mp found, rfl⟩)
      exact ⟨found, fun evicted => kept ⟨member, evicted⟩⟩
    · exact fun both => ⟨both.1, fun out => both.2 out.2⟩
  · rw [ended.objects client]
    simp only [listed.mem_iff]
    rfl
  · rw [served, List.mem_filter, listed.mem_iff]
  · rw [ended.calls]
    simp only [extraNonce_iterate_drawn]
    rfl
  · refine nodup_nonces job.extraNonce ?_
    have entries : pool.server.clients.values.length = pool.server.clients.entries.length :=
      List.length_map _
    have least : (served now pool snapshot).length ≤ snapshot.length := List.length_filter_le ..
    rw [listed.length_eq, entries] at least
    exact Nat.le_trans least pool.count

section Samples

open OrdinalCulture

/-- Three clients: one idle for twelve minutes, one active, one without a context. -/
def samplePool : BroadcastingPool where
  server := {
    lastId := 3
    created := 3
    object := fun client => {
      connectionId := some [client.toUInt16 + 1]
      context := [0, 7000000000][client]?.map fun lastActivity =>
        { isAuthorized := true, isSubscribed := true, difficulty := 7500 * 255, lastActivity } }
    clients := ⟨[⟨[1], 0⟩, ⟨[2], 1⟩, ⟨[3], 2⟩], by unfold List.NodupKeys; decide⟩ }
  manager := MoneroJobManager.start ⟨[1, 2, 3], rfl⟩
  identified id client found := by
    have entry := AList.mem_lookup_iff.mp found
    simp only [List.mem_cons, List.not_mem_nil, or_false, Sigma.mk.injEq, heq_eq_eq] at entry
    rcases entry with ⟨rfl, rfl⟩ | ⟨rfl, rfl⟩ | ⟨rfl, rfl⟩
    · exact ⟨by decide, rfl⟩
    · exact ⟨by decide, rfl⟩
    · exact ⟨by decide, rfl⟩
  count := by decide

theorem broadcastJob_reaches_sample : ∃ job,
    (MoneroJobManager.updateJob samplePool.manager
      (MoneroJobManager.answer1088295 "3b4aff4f")).1 = some job ∧
    let after := broadcastJob ⟨true, fun _ _ => none, fun _ => 0⟩ (fun _ => MoneroJob.exactRent)
      (fun _ => 7200000000) [0, 1, 2] job
      (samplePool.poll (MoneroJobManager.answer1088295 "3b4aff4f"))
    after.server.clients.lookup [1] = none ∧ after.server.clients.lookup [2] = some 1 ∧
      after.server.clients.lookup [3] = some 2 := by
  have adoptable : MoneroJobManager.Adoptable samplePool.manager
      (MoneroJobManager.answer1088295 "3b4aff4f") :=
    ⟨_, rfl, by decide +kernel, fun current none => nomatch none⟩
  obtain ⟨_, job, _, _, _, result⟩ := MoneroJobManager.updateJob_of_adoptable adoptable
  have published := congrArg Prod.fst result
  have reach := (broadcastJob_reaches ⟨true, fun _ _ => none, fun _ => 0⟩
    (fun _ => MoneroJob.exactRent) (fun _ => 7200000000) samplePool
    (MoneroJobManager.answer1088295 "3b4aff4f") job [0, 1, 2] published
    (List.Perm.refl _)).1
  refine ⟨job, published, ?_, (reach [2] 1).mpr ⟨rfl, by decide⟩, (reach [3] 2).mpr ⟨rfl, rfl⟩⟩
  cases found : (broadcastJob ⟨true, fun _ _ => none, fun _ => 0⟩ (fun _ => MoneroJob.exactRent)
      (fun _ => 7200000000) [0, 1, 2] job
      (samplePool.poll (MoneroJobManager.answer1088295 "3b4aff4f"))).server.clients.lookup [1] with
  | none => rfl
  | some client =>
      obtain ⟨before, kept⟩ := (reach [1] client).mp found
      cases Option.some.inj (before : some 0 = some client)
      exact absurd kept (by decide)

end Samples

end BroadcastingPool

end Hypepool
