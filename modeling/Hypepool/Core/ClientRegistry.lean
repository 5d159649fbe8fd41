import Hypepool.Core.StratumServer

/-!
# The client registry

Any order of the steps of the loop thread, the timers, the iterations and the tasks:

* `Sound`, `Sound.step`: what every step preserves, while the connections are fewer than 2^63.
* `clientRegistry_run`: `_clients` holds the clients registered and not removed, each under its id.
* `Sound.disconnect_again`: a further `DisconnectClient` changes nothing but its client.
-/

namespace Hypepool.StratumServer

open Base CorrelationIdGenerator

variable {Context : Type}

/-- The id of a client's connection, when the ids had been drawn up to `start`. -/
def idOf (start : Int) (client : ClientRef) : NetString := nthId start (client + 1)

/-- A call for a registered client, under the id of its connection. -/
def CallSound (start : Int) (s : State Context) (call : DisconnectCall) : Prop :=
  call.client ∈ s.registered ∧ call.subscriptionId = some (idOf start call.client)

/-- A registered client with a context. -/
def Settled (s : State Context) (client : ClientRef) : Prop :=
  client ∈ s.registered ∧ (s.object client).context.isSome

/-- The client `OnClientConnected` reads from but has not given a context yet. -/
def LoopPhase.inHand : LoopPhase → Option ClientRef
  | .registering client _ | .connecting client => some client
  | _ => none

def LoopSound (start : Int) (s : State Context) : LoopPhase → Prop
  | .idle => True
  | .initializing client connectionId =>
      client < s.created ∧ connectionId = idOf start client ∧ client ∉ s.registered
  | .registering client connectionId =>
      client < s.created ∧ connectionId = idOf start client ∧ client ∉ s.registered ∧
        (s.object client).connectionId = some connectionId
  | .connecting client => client ∈ s.registered
  | .scheduling client => Settled s client
  | .disconnecting call => CallSound start s call

def IterationSound (start : Int) (s : State Context) (iteration : Iteration) : Prop :=
  iteration.snapshot.Nodup ∧ iteration.visited ++ iteration.remaining = iteration.snapshot ∧
    ∀ call, iteration.phase = .disconnecting call → CallSound start s call

def ThreadSound (start : Int) (s : State Context) : Thread → Prop
  | .zombieCheck call => ∀ running, call = some running → CallSound start s running
  | .forEachClient iteration => IterationSound start s iteration

/-- The registry holds the clients that were registered and not removed, each under its id; every
thread deals with registered clients, and what is read comes from clients with a context. -/
structure Sound (start : Int) (s : State Context) : Prop where
  lastId : s.lastId = int64 (start + s.created)
  registry : ∀ id client, s.clients.lookup id = some client ↔
    id = idOf start client ∧ client ∈ s.registered ∧ client ∉ s.unregistered
  known : ∀ client ∈ s.registered,
    client < s.created ∧ (s.object client).connectionId = some (idOf start client)
  removed : ∀ client ∈ s.unregistered, client ∈ s.registered
  loop : LoopSound start s s.loop
  reading : ∀ client ∈ s.reading, Settled s client ∨ s.loop.inHand = some client
  timers : ∀ client ∈ s.timers, client ∈ s.registered
  threads : ∀ thread ∈ s.threads, ThreadSound start s thread
  tasks : ∀ client ∈ s.tasks, Settled s client

section Preserved

variable {start : Int} {s t : State Context} {client : ClientRef} {running : DisconnectCall}

/-- What an ongoing call or thread relies on, and no step undoes. -/
structure Kept (s t : State Context) : Prop where
  registered : ∀ client ∈ s.registered, client ∈ t.registered
  context : ∀ client ∈ s.registered,
    (s.object client).context.isSome → (t.object client).context.isSome

theorem Kept.of_eq (registered : t.registered = s.registered) (object : t.object = s.object) :
    Kept s t where
  registered _ member := registered ▸ member
  context _ _ present := object ▸ present

theorem Settled.kept (settled : Settled s client) (kept : Kept s t) : Settled t client :=
  ⟨kept.registered client settled.1, kept.context client settled.1 settled.2⟩

theorem CallSound.kept (sound : CallSound start s running) (kept : Kept s t) :
    CallSound start t running :=
  ⟨kept.registered running.client sound.1, sound.2⟩

theorem ThreadSound.kept {thread : Thread} (sound : ThreadSound start s thread)
    (kept : Kept s t) : ThreadSound start t thread := by
  cases thread with
  | zombieCheck call => exact fun running same => (sound running same).kept kept
  | forEachClient iteration =>
      obtain ⟨distinct, parts, calls⟩ := sound
      exact ⟨distinct, parts, fun call same => (calls call same).kept kept⟩

theorem LoopSound.of_eq {phase : LoopPhase} (sound : LoopSound start s phase)
    (created : t.created = s.created) (registered : t.registered = s.registered)
    (identity : ∀ client, (t.object client).connectionId = (s.object client).connectionId)
    (kept : Kept s t) : LoopSound start t phase := by
  cases phase with
  | idle => trivial
  | initializing client connectionId =>
      obtain ⟨old, named, new⟩ := sound
      exact ⟨created ▸ old, named, registered ▸ new⟩
  | registering client connectionId =>
      obtain ⟨old, named, new, identified⟩ := sound
      exact ⟨created ▸ old, named, registered ▸ new, (identity client).trans identified⟩
  | connecting client => exact kept.registered client sound
  | scheduling client => exact Settled.kept sound kept
  | disconnecting call => exact CallSound.kept sound kept

theorem Sound.begun (sound : Sound start s) (member : client ∈ s.registered) :
    CallSound start s (s.call client) :=
  ⟨member, (sound.known client member).2⟩

/-! ### Steps that leave the registry alone -/

theorem kept_modify {change : Client Context → Client Context}
    (context : (s.object client).context.isSome → (change (s.object client)).context.isSome) :
    Kept s (s.modify client change) where
  registered _ member := member
  context other _ present := by
    rw [State.object_modify]
    split
    case isTrue same => exact context (same ▸ present)
    case isFalse => exact present

theorem Sound.modify (sound : Sound start s) (client : ClientRef)
    (change : Client Context → Client Context)
    (identity : (change (s.object client)).connectionId = (s.object client).connectionId)
    (context : (s.object client).context.isSome → (change (s.object client)).context.isSome) :
    Sound start (s.modify client change) := by
  have kept : Kept s (s.modify client change) := kept_modify context
  have identities : ∀ other, ((s.modify client change).object other).connectionId =
      (s.object other).connectionId := by
    intro other
    rw [State.object_modify]
    split
    case isTrue same => exact identity.trans (same ▸ rfl)
    case isFalse => rfl
  exact { sound with
    known := fun other member =>
      ⟨(sound.known other member).1, (identities other).trans (sound.known other member).2⟩
    loop := sound.loop.of_eq rfl rfl identities kept
    reading := fun other member => (sound.reading other member).imp_left fun h => h.kept kept
    threads := fun thread member => (sound.threads thread member).kept kept
    tasks := fun other member => (sound.tasks other member).kept kept }

/-- A step that only moves the threads on. -/
theorem Sound.reschedule (sound : Sound start s) {phase : LoopPhase}
    {timers tasks : List ClientRef} {threads : List Thread} (here : LoopSound start s phase)
    (reading : ∀ client ∈ s.reading, Settled s client ∨ phase.inHand = some client)
    (known : ∀ client ∈ timers, client ∈ s.registered)
    (each : ∀ thread ∈ threads, ThreadSound start s thread)
    (settled : ∀ client ∈ tasks, Settled s client) :
    Sound start { s with loop := phase, timers := timers, threads := threads, tasks := tasks } :=
  { sound with
    loop := here.of_eq rfl rfl (fun _ => rfl) (.of_eq rfl rfl)
    reading := reading
    timers := known
    threads := fun thread member => (each thread member).kept (.of_eq rfl rfl)
    tasks := settled }

theorem Sound.setThread (sound : Sound start s) (i : Nat) {thread : Thread}
    (here : ThreadSound start s thread) : Sound start (s.setThread i thread) :=
  sound.reschedule sound.loop sound.reading sound.timers
    (fun other member =>
      (List.mem_or_eq_of_mem_set member).elim (sound.threads other) fun same => same ▸ here)
    sound.tasks

/-- A new thread is under way. -/
theorem Sound.spawn (sound : Sound start s) {timers : List ClientRef} {thread : Thread}
    (known : ∀ client ∈ timers, client ∈ s.registered) (here : ThreadSound start s thread) :
    Sound start { s with timers := timers, threads := s.threads ++ [thread] } := by
  apply sound.reschedule sound.loop sound.reading known _ sound.tasks
  intro other member
  rcases List.mem_append.mp member with earlier | last
  · exact sound.threads other earlier
  · exact List.mem_singleton.mp last ▸ here

theorem Sound.thread (sound : Sound start s) {i : Nat} {thread : Thread}
    (here : s.threads[i]? = some thread) : ThreadSound start s thread :=
  sound.threads thread (List.mem_of_getElem? here)

/-! ### Steps of the registry -/

theorem Sound.accept (sound : Sound start s) (fails : Bool) (idle : s.loop = .idle) :
    Sound start { s with
      lastId := (getNextId s.lastId).2
      created := s.created + 1
      loop := if fails then .idle else .initializing s.created (getNextId s.lastId).1 } := by
  have drawn : getNextId s.lastId =
      (idOf start s.created, int64 (start + (s.created + 1 : Nat))) := by
    rw [sound.lastId, getNextId_of_draws, idOf]
  have kept : Kept s { s with
      lastId := (getNextId s.lastId).2
      created := s.created + 1
      loop := if fails then .idle else .initializing s.created (getNextId s.lastId).1 } :=
    .of_eq rfl rfl
  have fresh : s.created ∉ s.registered := fun member =>
    Nat.lt_irrefl _ (sound.known s.created member).1
  refine { sound with
    lastId := congrArg Prod.snd drawn
    known := fun client member =>
      ⟨Nat.lt_succ_of_lt (sound.known client member).1, (sound.known client member).2⟩
    loop := ?_
    reading := fun client member => Or.inl ?_
    threads := fun thread member => (sound.threads thread member).kept kept }
  · cases fails with
    | true => trivial
    | false => exact ⟨Nat.lt_succ_self _, congrArg Prod.fst drawn, fresh⟩
  · rcases sound.reading client member with settled | inHand
    · exact settled.kept kept
    · rw [idle] at inHand
      cases inHand

theorem Sound.initializeClient (sound : Sound start s) {connectionId : NetString}
    (here : s.loop = .initializing client connectionId) :
    Sound start { s.modify client (fun _ =>
        { connectionId := some connectionId, isAlive := true, subscription := true }) with
      reading := s.reading ++ [client]
      loop := .registering client connectionId } := by
  have phase := sound.loop
  rw [here] at phase
  obtain ⟨old, named, new⟩ := phase
  have others : ∀ other ∈ s.registered, (s.modify client (fun _ =>
      { connectionId := some connectionId, isAlive := true, subscription := true })).object other =
        s.object other := by
    intro other member
    have differs : other ≠ client := fun same => new (same ▸ member)
    exact Function.update_of_ne differs _ _
  have kept : Kept s { s.modify client (fun _ =>
        { connectionId := some connectionId, isAlive := true, subscription := true }) with
      reading := s.reading ++ [client]
      loop := .registering client connectionId } :=
    ⟨fun _ member => member, fun other member present => (others other member).symm ▸ present⟩
  refine { sound with
    known := fun other member => ⟨(sound.known other member).1,
      (congrArg Client.connectionId (others other member)).trans (sound.known other member).2⟩
    loop := ⟨old, named, new, ?_⟩
    reading := fun other member => ?_
    threads := fun thread member => (sound.threads thread member).kept kept
    tasks := fun other member => (sound.tasks other member).kept kept }
  · dsimp only [State.modify]
    rw [Function.update_self]
  · rcases List.mem_append.mp member with earlier | last
    · rcases sound.reading other earlier with settled | inHand
      · exact Or.inl (settled.kept kept)
      · rw [here] at inHand
        cases inHand
    · exact Or.inr (congrArg some (List.mem_singleton.mp last).symm)

theorem idOf_injective {m n : Nat} (bound : m < 0x8000000000000000)
    (bound' : n < 0x8000000000000000) (same : idOf start m = idOf start n) : m = n := by
  have equal : m + 1 = n + 1 := nthId_injective (by omega) (by omega) same
  omega

/-- A registered client is the only one with its id. -/
theorem Sound.identified (sound : Sound start s) (few : s.created ≤ 0x8000000000000000)
    {other : ClientRef} (member : other ∈ s.registered) (old : client < s.created)
    (same : idOf start client = idOf start other) : client = other := by
  have earlier := (sound.known other member).1
  exact idOf_injective (Nat.lt_of_lt_of_le old few) (Nat.lt_of_lt_of_le earlier few) same

theorem Sound.register (sound : Sound start s) (few : s.created ≤ 0x8000000000000000)
    {connectionId : NetString} (here : s.loop = .registering client connectionId) :
    Sound start { s with
      clients := s.clients.insert connectionId client
      registered := s.registered ++ [client]
      loop := .connecting client } := by
  have phase := sound.loop
  rw [here] at phase
  obtain ⟨old, named, new, identified⟩ := phase
  have kept : Kept s { s with
      clients := s.clients.insert connectionId client
      registered := s.registered ++ [client]
      loop := .connecting client } :=
    ⟨fun _ member => List.mem_append_left _ member, fun _ _ present => present⟩
  have added : client ∈ s.registered ++ [client] :=
    List.mem_append_right _ (List.mem_singleton_self client)
  refine { sound with
    registry := fun id other => ?_
    known := fun other member => ?_
    removed := fun other member => kept.registered other (sound.removed other member)
    loop := added
    reading := fun other member => ?_
    timers := fun other member => kept.registered other (sound.timers other member)
    threads := fun thread member => (sound.threads thread member).kept kept
    tasks := fun other member => (sound.tasks other member).kept kept }
  · dsimp only
    by_cases same : id = connectionId
    · subst same
      rw [AList.lookup_insert]
      constructor
      · intro found
        cases Option.some.inj found
        exact ⟨named, added, fun gone => new (sound.removed client gone)⟩
      · intro entry
        obtain ⟨its, member, _⟩ := entry
        rcases List.mem_append.mp member with earlier | last
        · have equal := sound.identified few earlier old (named.symm.trans its)
          exact (new (equal ▸ earlier)).elim
        · exact congrArg some (List.mem_singleton.mp last).symm
    · rw [AList.lookup_insert_ne same, sound.registry]
      constructor
      · intro entry
        exact ⟨entry.1, kept.registered other entry.2.1, entry.2.2⟩
      · intro entry
        obtain ⟨its, member, present⟩ := entry
        rcases List.mem_append.mp member with earlier | last
        · exact ⟨its, earlier, present⟩
        · exact (same (its.trans (List.mem_singleton.mp last ▸ named.symm))).elim
  · rcases List.mem_append.mp member with earlier | last
    · exact sound.known other earlier
    · cases List.mem_singleton.mp last
      exact ⟨old, named ▸ identified⟩
  · rcases sound.reading other member with settled | inHand
    · exact Or.inl (settled.kept kept)
    · rw [here] at inHand
      exact Or.inr inHand

theorem idOf_ne_nil : idOf start client ≠ [] := generateId_ne_nil _

theorem unregister_eq (sound : CallSound start s running) :
    s.unregister running = { s with
      clients := s.clients.erase (idOf start running.client)
      unregistered := s.unregistered ++ [running.client] } := by
  unfold State.unregister
  rw [sound.2]
  exact if_neg idOf_ne_nil

theorem Sound.unregister (sound : Sound start s) (few : s.created ≤ 0x8000000000000000)
    (here : CallSound start s running) : Sound start (s.unregister running) := by
  rw [unregister_eq here]
  have old := (sound.known running.client here.1).1
  refine { sound with
    registry := fun id other => ?_
    removed := fun other member => ?_
    loop := sound.loop.of_eq rfl rfl (fun _ => rfl) (.of_eq rfl rfl)
    threads := fun thread member => (sound.threads thread member).kept (.of_eq rfl rfl) }
  · dsimp only
    rw [List.mem_append, List.mem_singleton, not_or]
    by_cases same : id = idOf start running.client
    · subst same
      rw [AList.lookup_erase]
      constructor
      · intro found
        cases found
      · intro entry
        obtain ⟨its, member, _, differs⟩ := entry
        exact (differs (sound.identified few member old its).symm).elim
    · rw [AList.lookup_erase_ne same, sound.registry]
      constructor
      · intro entry
        exact ⟨entry.1, entry.2.1, entry.2.2, fun equal => same (equal ▸ entry.1)⟩
      · intro entry
        exact ⟨entry.1, entry.2.1, entry.2.2.1⟩
  · rcases List.mem_append.mp member with earlier | last
    · exact sound.removed other earlier
    · exact List.mem_singleton.mp last ▸ here.1

/-! ### Every step -/

theorem frame_advance (s : State Context) (running : DisconnectCall) (throws : Bool) :
    (s.advance running throws).1.loop = s.loop ∧
      (s.advance running throws).1.created = s.created ∧
      (s.advance running throws).1.threads = s.threads := by
  unfold State.advance State.unregister
  split
  · split
    · exact ⟨rfl, rfl, rfl⟩
    · split
      · exact ⟨rfl, rfl, rfl⟩
      · exact ⟨rfl, rfl, rfl⟩
  · split
    · exact ⟨rfl, rfl, rfl⟩
    · exact ⟨rfl, rfl, rfl⟩

theorem Sound.advance (sound : Sound start s) (few : s.created ≤ 0x8000000000000000)
    (here : CallSound start s running) (throws : Bool) :
    Sound start (s.advance running throws).1 ∧
      ∀ call, (s.advance running throws).2.call = some call →
        CallSound start (s.advance running throws).1 call := by
  unfold State.advance
  split
  · exact ⟨sound.unregister few here, fun call same => nomatch same⟩
  · split
    · exact ⟨sound, fun call same => nomatch same⟩
    · refine ⟨sound.modify running.client Client.disconnect rfl id, fun call same => ?_⟩
      cases Option.some.inj same
      exact here

theorem loopSound_ofProgress {progress : Progress}
    (calls : ∀ call, progress.call = some call → CallSound start s call) :
    LoopSound start s (.ofProgress progress) := by
  cases progress with
  | running call => exact calls call rfl
  | returned => trivial
  | thrown => trivial

theorem callSound_ofProgress {progress : Progress}
    (calls : ∀ call, progress.call = some call → CallSound start s call) :
    ∀ call, ActionPhase.ofProgress progress = .disconnecting call → CallSound start s call := by
  intro call same
  cases progress with
  | running running =>
      cases same
      exact calls _ rfl
  | returned => cases same
  | thrown => cases same

/-- On an idle loop thread nothing is being connected: all that is read from has a context. -/
theorem Sound.settled_of_idle (sound : Sound start s) (idle : s.loop.inHand = none) :
    ∀ client ∈ s.reading, Settled s client := by
  intro client member
  rcases sound.reading client member with settled | inHand
  · exact settled
  · rw [idle] at inHand
    cases inHand

/-- An iteration moves on: what it has visited and what remains are still its snapshot. -/
theorem Sound.iterate (sound : Sound start s) {i : Nat} {iteration : Iteration}
    {visited remaining : List ClientRef} {phase : ActionPhase}
    (here : s.threads[i]? = some (.forEachClient iteration))
    (parts : visited ++ remaining = iteration.visited ++ iteration.remaining)
    (calls : ∀ call, phase = .disconnecting call → CallSound start s call) :
    Sound start
      (s.setThread i (.forEachClient ⟨iteration.snapshot, visited, remaining, phase⟩)) := by
  have old : IterationSound start s iteration := sound.thread here
  exact sound.setThread i ⟨old.1, parts.trans old.2.1, calls⟩

/-- The client `OnClientConnected` has in hand gets its context. -/
theorem Sound.setContext (sound : Sound start s) {context : Context}
    (here : s.loop = .connecting client) :
    Sound start { s.modify client (fun object => { object with context := some context }) with
      loop := .scheduling client } := by
  have member : client ∈ s.registered := by
    have phase := sound.loop
    rw [here] at phase
    exact phase
  have given := sound.modify client
    (fun object => { object with context := some context }) rfl fun _ => rfl
  have settled : Settled (s.modify client fun object =>
      { object with context := some context }) client := by
    refine ⟨member, ?_⟩
    rw [State.object_modify, if_pos rfl]
    rfl
  refine given.reschedule settled (fun other reads => Or.inl ?_) given.timers given.threads
    given.tasks
  rcases given.reading other reads with already | inHand
  · exact already
  · have same : s.loop.inHand = some other := inHand
    rw [here] at same
    cases Option.some.inj same
    exact settled

/-- The lines of a client with a context are handed to tasks; too much at once disconnects it. -/
theorem Sound.read (sound : Sound start s) {now : Int} {lines : Nat} {flooded : Bool}
    (here : s.loop = .idle) (member : client ∈ s.reading) :
    Sound start { s.modify client (fun object => { object with lastReceive := some now }) with
      tasks := s.tasks ++ List.replicate lines client
      loop := if flooded then .disconnecting (s.call client) else .idle } := by
  have all := sound.settled_of_idle (by rw [here]; rfl)
  have noted := sound.modify client (fun object => { object with lastReceive := some now }) rfl id
  have settled := noted.settled_of_idle (show s.loop.inHand = none by rw [here]; rfl)
  refine noted.reschedule ?_ (fun other reads => Or.inl (settled other reads)) noted.timers
    noted.threads ?_
  · cases flooded with
    | true => exact sound.begun (all client member).1
    | false => trivial
  · intro other started
    rcases List.mem_append.mp started with earlier | last
    · exact noted.tasks other earlier
    · cases List.eq_of_mem_replicate last
      exact settled client member

/-- What every step preserves. -/
theorem Sound.step {label : Label Context} (sound : Sound start s)
    (few : t.created ≤ 0x8000000000000000) (taken : Taken s label t) : Sound start t := by
  cases taken with
  | accept idle => exact sound.accept _ idle
  | abandon here =>
      have settled := sound.settled_of_idle (by rw [here]; rfl)
      exact sound.reschedule trivial (fun client member => Or.inl (settled client member))
        sound.timers sound.threads sound.tasks
  | initializeClient here => exact sound.initializeClient here
  | register here => exact sound.register few here
  | setContext here => exact sound.setContext here
  | @schedule client fails here =>
      have phase := sound.loop
      rw [here] at phase
      have settled := sound.settled_of_idle (by rw [here]; rfl)
      refine sound.reschedule trivial (fun client member => Or.inl (settled client member)) ?_
        sound.threads sound.tasks
      intro other member
      split at member
      · exact sound.timers other member
      · rcases List.mem_append.mp member with earlier | last
        · exact sound.timers other earlier
        · exact List.mem_singleton.mp last ▸ phase.1
  | ignore => exact sound
  | read here member => exact sound.read here member
  | readError here member =>
      have all := sound.settled_of_idle (by rw [here]; rfl)
      exact sound.reschedule (sound.begun (all _ member).1)
        (fun other reads => Or.inl (all other reads)) sound.timers sound.threads sound.tasks
  | @endOfStream client here member =>
      have all := sound.settled_of_idle (by rw [here]; rfl)
      have ended := sound.modify client
        (fun object => { object with isAlive := false }) rfl id
      have settled := ended.settled_of_idle (show s.loop.inHand = none by rw [here]; rfl)
      exact ended.reschedule (sound.begun (all client member).1)
        (fun other reads => Or.inl (settled other reads)) ended.timers ended.threads ended.tasks
  | @advanceLoop running throws here =>
      have phase := sound.loop
      rw [here] at phase
      obtain ⟨sameLoop, sameCreated, _⟩ := frame_advance s running throws
      obtain ⟨advanced, calls⟩ := sound.advance (sameCreated ▸ few) phase throws
      have settled := advanced.settled_of_idle (by rw [sameLoop, here]; rfl)
      exact advanced.reschedule (loopSound_ofProgress calls)
        (fun other reads => Or.inl (settled other reads)) advanced.timers advanced.threads
        advanced.tasks
  | excused due =>
      exact sound.reschedule sound.loop sound.reading
        (fun other member => sound.timers other (List.mem_of_mem_erase member)) sound.threads
        sound.tasks
  | @zombie client due =>
      apply sound.spawn fun other member => sound.timers other (List.mem_of_mem_erase member)
      intro call same
      cases Option.some.inj same
      exact sound.begun (sound.timers client due)
  | @forEachClient order listed =>
      have distinct : s.clients.values.Nodup := Registry.nodup_values fun id client found =>
        congrArg some ((sound.registry id client).mp found).1.symm
      exact sound.spawn sound.timers
        ⟨listed.nodup_iff.mpr distinct, rfl, fun call same => nomatch same⟩
  | @dispatch client effect started =>
      have handled := sound.modify client
        (fun object => { object with context := object.context.map (effect.getD id) }) rfl
        fun present => by rw [Option.isSome_map]; exact present
      exact handled.reschedule handled.loop handled.reading handled.timers handled.threads
        fun other member => handled.tasks other (List.mem_of_mem_erase member)
  | @advanceCheck i running throws here =>
      have calls : ThreadSound start s (.zombieCheck (some running)) := sound.thread here
      obtain ⟨_, sameCreated, _⟩ := frame_advance s running throws
      obtain ⟨advanced, calls⟩ := sound.advance (sameCreated ▸ few) (calls running rfl) throws
      exact advanced.setThread i calls
  | visit here =>
      refine sound.iterate here ?_ fun call same => nomatch same
      rw [List.append_assoc, List.singleton_append]
  | callDisconnect here known =>
      refine sound.iterate here rfl ?_
      intro call same
      cases same
      exact sound.begun known
  | finishAction here => exact sound.iterate here rfl fun call same => nomatch same
  | @advanceAction i snapshot visited remaining running throws here =>
      have old : IterationSound start s _ := sound.thread here
      obtain ⟨_, sameCreated, sameThreads⟩ := frame_advance s running throws
      obtain ⟨advanced, calls⟩ := sound.advance (sameCreated ▸ few) (old.2.2 running rfl) throws
      exact advanced.iterate (sameThreads ▸ here) rfl (callSound_ofProgress calls)

end Preserved

/-! ## Runs -/

/-- The connections accepted in a schedule. -/
def connections (schedule : List (Label Context)) : Nat := schedule.countP Label.isAccept

section Runs

variable {start : Int} {s t : State Context} {schedule : List (Label Context)}
  {label : Label Context}

theorem created_step (taken : Taken s label t) :
    t.created = s.created + connections [label] := by
  cases taken with
  | accept => rfl
  | advanceLoop => exact (frame_advance s _ _).2.1
  | advanceCheck => exact (frame_advance s _ _).2.1
  | advanceAction => exact (frame_advance s _ _).2.1
  | _ => rfl

theorem created_run (run : exec step s schedule = some t) :
    t.created = s.created + connections schedule := by
  induction schedule generalizing s with
  | nil =>
      cases Option.some.inj run
      rfl
  | cons label schedule ih =>
      obtain ⟨u, taken, rest⟩ := exec_cons_eq_some.mp run
      have split : connections ([label] ++ schedule) =
          connections [label] + connections schedule := List.countP_append
      rw [← List.singleton_append, split, ih rest, created_step (step_cases taken), Nat.add_assoc]

theorem sound_initial : Sound start (initial start : State Context) where
  lastId := congrArg int64 (Int.add_zero start).symm
  registry id client := by
    constructor
    · intro found
      cases found
    · intro entry
      exact (List.not_mem_nil entry.2.1).elim
  known _ member := (List.not_mem_nil member).elim
  removed _ member := (List.not_mem_nil member).elim
  loop := trivial
  reading _ member := (List.not_mem_nil member).elim
  timers _ member := (List.not_mem_nil member).elim
  threads _ member := (List.not_mem_nil member).elim
  tasks _ member := (List.not_mem_nil member).elim

theorem sound_run (run : exec step (initial start) schedule = some s)
    (few : connections schedule < 0x8000000000000000) : Sound start s := by
  have whole : s.created ≤ 0x8000000000000000 → Sound start s := by
    refine exec_invariant (fun s => s.created ≤ 0x8000000000000000 → Sound start s) ?_
      (fun _ => sound_initial) run
    intro s label t sound taken few
    have counted := created_step (step_cases taken)
    exact (sound (by omega)).step few (step_cases taken)
  have counted : s.created = 0 + connections schedule := created_run run
  exact whole (by omega)

theorem unregistered_step (taken : Taken s label t) {client : ClientRef}
    (gone : client ∈ s.unregistered) : client ∈ t.unregistered := by
  have advanced : ∀ running throws, client ∈ (s.advance running throws).1.unregistered := by
    intro running throws
    unfold State.advance State.unregister
    split
    · split
      · exact gone
      · split
        · exact gone
        · exact List.mem_append_left _ gone
    · split
      · exact gone
      · exact gone
  cases taken with
  | advanceLoop => exact advanced _ _
  | advanceCheck => exact advanced _ _
  | advanceAction => exact advanced _ _
  | _ => exact gone

/-- A client that is no longer registered is not found under its id, nor any other client. -/
theorem Sound.lookup_of_unregistered (sound : Sound start s)
    (few : s.created ≤ 0x8000000000000000) {client : ClientRef} (gone : client ∈ s.unregistered) :
    s.clients.lookup (idOf start client) = none := by
  cases found : s.clients.lookup (idOf start client) with
  | none => rfl
  | some other =>
      obtain ⟨same, member, present⟩ := (sound.registry _ other).mp found
      have old := (sound.known client (sound.removed client gone)).1
      exact (present (sound.identified few member old same ▸ gone)).elim

theorem erase_of_lookup_eq_none {registry : Registry} {id : NetString}
    (absent : registry.lookup id = none) : registry.erase id = registry :=
  AList.ext (List.kerase_of_notMem_keys (AList.lookup_eq_none.mp absent))

theorem Sound.advance_again (sound : Sound start s) (few : s.created ≤ 0x8000000000000000)
    {running : DisconnectCall} (here : CallSound start s running)
    (gone : running.client ∈ s.unregistered) (throws : Bool) :
    (s.advance running throws).1.clients = s.clients ∧
      ∀ other, other ≠ running.client →
        (s.advance running throws).1.object other = s.object other := by
  unfold State.advance
  split
  · rw [unregister_eq here]
    exact ⟨erase_of_lookup_eq_none (sound.lookup_of_unregistered few gone), fun _ _ => rfl⟩
  · split
    · exact ⟨rfl, fun _ _ => rfl⟩
    · exact ⟨rfl, fun other differs => Function.update_of_ne differs _ _⟩

/-- A further `DisconnectClient` of a client that is gone changes nothing but that client. -/
theorem Sound.disconnect_again (sound : Sound start s) (few : s.created ≤ 0x8000000000000000)
    (taken : Taken s label t) {running : DisconnectCall}
    (advancing : s.advancing label = some running) (gone : running.client ∈ s.unregistered) :
    t.clients = s.clients ∧ ∀ other, other ≠ running.client → t.object other = s.object other := by
  cases taken with
  | @advanceLoop call throws here =>
      have phase := sound.loop
      rw [here] at phase
      dsimp only [State.advancing] at advancing
      rw [here] at advancing
      cases Option.some.inj advancing
      exact sound.advance_again few phase gone throws
  | @advanceCheck i call throws here =>
      have calls : ThreadSound start s (.zombieCheck (some call)) := sound.thread here
      dsimp only [State.advancing] at advancing
      rw [here] at advancing
      cases Option.some.inj advancing
      exact sound.advance_again few (calls running rfl) gone throws
  | @advanceAction i snapshot visited remaining call throws here =>
      have old : IterationSound start s _ := sound.thread here
      dsimp only [State.advancing] at advancing
      rw [here] at advancing
      cases Option.some.inj advancing
      exact sound.advance_again few (old.2.2 running rfl) gone throws
  | _ => cases advancing

theorem Sound.dispatched (sound : Sound start s) (taken : Taken s label t) {client : ClientRef}
    {effect : Option (Context → Context)} (dispatches : label = .dispatch client effect) :
    (s.object client).context.isSome := by
  cases taken with
  | dispatch started =>
      cases dispatches
      exact (sound.tasks client started).2
  | _ => cases dispatches

end Runs

/-- **The client registry.**  In every run with fewer than 2^63 connections: each id in `_clients`
leads to the client that has it; the clients in it are those that were registered and not yet
removed by a `DisconnectClient`, and one that was removed is not found again at any later time; any
further `DisconnectClient` of it leaves the registry and the other clients alone; a request is
dispatched only for a client with a context; and `ForEachClient`, whatever its actions do, goes
through the clients of its snapshot in turn and calls the action once for each. -/
theorem clientRegistry_run (start : Int) (schedule : List (Label Context)) (s : State Context)
    (run : exec step (initial start) schedule = some s)
    (few : connections schedule < 0x8000000000000000) :
    (∀ id client, s.clients.lookup id = some client →
      (s.object client).connectionId = some id) ∧
    (∀ client, (∃ id, s.clients.lookup id = some client) ↔
      client ∈ s.registered ∧ client ∉ s.unregistered) ∧
    (∀ before after t, schedule = before ++ after →
      exec step (initial start) before = some t →
      ∀ client ∈ t.unregistered, ∀ id, s.clients.lookup id ≠ some client) ∧
    (∀ before label after t u, schedule = before ++ label :: after →
      exec step (initial start) before = some t → step t label = some u →
      (∀ call, t.advancing label = some call → call.client ∈ t.unregistered →
        u.clients = t.clients ∧ ∀ other, other ≠ call.client → u.object other = t.object other) ∧
      ∀ client effect, label = .dispatch client effect → (t.object client).context.isSome) ∧
    ∀ i iteration, s.threads[i]? = some (.forEachClient iteration) →
      iteration.snapshot.Nodup ∧ iteration.visited ++ iteration.remaining = iteration.snapshot ∧
        (iteration.Over → iteration.visited = iteration.snapshot) ∧
        (¬ iteration.Over → ∃ label, label.thread = some i ∧ (step s label).isSome) := by
  have sound := sound_run run few
  refine ⟨?_, ?_, ?_, ?_, ?_⟩
  · intro id client found
    obtain ⟨same, member, _⟩ := (sound.registry id client).mp found
    exact same ▸ (sound.known client member).2
  · intro client
    constructor
    · intro ⟨id, found⟩
      exact ((sound.registry id client).mp found).2
    · intro both
      exact ⟨idOf start client, (sound.registry _ client).mpr ⟨rfl, both⟩⟩
  · intro before after t split reached client gone id found
    subst split
    obtain ⟨t', reached', rest⟩ := exec_append_eq_some.mp run
    cases Option.some.inj (reached.symm.trans reached')
    have still : client ∈ s.unregistered :=
      exec_invariant (fun s => client ∈ s.unregistered)
        (fun s label t gone taken => unregistered_step (step_cases taken) gone) gone rest
    exact ((sound.registry id client).mp found).2.2 still
  · intro before label after t u split reached taken
    subst split
    have fewBefore : connections before < 0x8000000000000000 := by
      have parts : connections (before ++ label :: after) =
          connections before + connections (label :: after) := List.countP_append
      omega
    have soundBefore := sound_run reached fewBefore
    have counted : t.created = 0 + connections before := created_run reached
    exact ⟨fun call advancing gone =>
        soundBefore.disconnect_again (by omega) (step_cases taken) advancing gone,
      fun client effect dispatches => soundBefore.dispatched (step_cases taken) dispatches⟩
  · intro i iteration here
    obtain ⟨distinct, parts, _⟩ : IterationSound start s iteration := sound.thread here
    refine ⟨distinct, parts, fun finished => ?_, exists_step_of_not_over here⟩
    rw [← parts, finished.1, List.append_nil]

/-- A client connects and sends a line, an iteration disconnects it while the line is handled, and
then its connection breaks. -/
def sampleSchedule : List (Label Unit) :=
  [.accept false, .initializeClient false, .register, .setContext (), .schedule false,
    .read 0 1 20 1 false, .forEachClient [0], .visit 0, .callDisconnect 0 0, .advance 0 false,
    .readError 0, .advance 0 false, .dispatch 0 none, .advanceLoop false, .advanceLoop false,
    .finishAction 0]

theorem clientRegistry_run_sample : ∃ s, exec step (initial 0) sampleSchedule = some s ∧
    s.unregistered = [0, 0] ∧ ∀ client, (∃ id, s.clients.lookup id = some client) ↔
      client ∈ s.registered ∧ client ∉ s.unregistered := by
  have completes : (exec step (initial 0) sampleSchedule).isSome := by decide +kernel
  have removed : ((exec step (initial 0) sampleSchedule).map State.unregistered) =
      some [0, 0] := by decide +kernel
  obtain ⟨s, run⟩ := Option.isSome_iff_exists.mp completes
  rw [run] at removed
  exact ⟨s, run, Option.some.inj removed,
    (clientRegistry_run 0 sampleSchedule s run (by decide)).2.1⟩

end Hypepool.StratumServer
