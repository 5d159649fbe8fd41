import Hypepool.Base.Run
import Hypepool.Net.DateTime

/-!
# The check for zombies

`PoolBase.OnConnect` schedules a check of the client for `MasterClock.Now` and ten seconds.
`MasterClock` shows local time under the kind UTC, and a timer takes that for an instant.

* `booted_at`: a silent client is booted ten seconds after it connected, shifted by the offset of
  the clock, or at once if that has passed.
* `givesTenSeconds_iff`: every client gets its ten seconds exactly where the offset is zero.
-/

namespace Hypepool.ZombieCheck

open Base

/-- A timer of `EnsureNoZombie`. -/
structure Check where
  client : Nat
  /-- the instant of `OnConnect`. -/
  connectedAt : Int
  due : Int
  deriving DecidableEq

/-- A call of `DisconnectClient` by a check. -/
structure Boot where
  client : Nat
  connectedAt : Int
  instant : Int
  deriving DecidableEq

structure State where
  /-- real time. -/
  instant : Int
  connections : Nat := 0
  isAlive : Nat → Bool := fun _ => false
  lastReceive : Nat → Option DateTime := fun _ => none
  pending : List Check := []
  /-- from whom data was received, and when. -/
  received : List (Nat × Int) := []
  booted : List Boot := []

inductive Label
  | elapse (ticks : Nat)
  | connect
  /-- `OnRead` with so many bytes. -/
  | receive (client count : Nat)
  /-- the timer of a check fires. -/
  | fire (check : Check)
  /-- the connection of a client ends. -/
  | close (client : Nat)

/-- Ten seconds. -/
def tenSeconds : Int := timeSpanOfSeconds 10

section Step

variable (getUtcOffset : DateTime → Int) (clock : MasterClock)

/-- The instant at which `Observable.Timer(MasterClock.Now.AddSeconds(10))` fires. -/
def dueTime (instant : Int) : Int :=
  (DateTimeOffset.ofDateTime getUtcOffset ((clock.now instant).addSeconds 10)).utcTicks

/-- `OnConnect`, as far as `EnsureNoZombie` is concerned. -/
def onConnect (s : State) : State :=
  { s with
    connections := s.connections + 1
    isAlive := fun other => if other = s.connections then true else s.isAlive other
    pending := s.pending ++ [⟨s.connections, s.instant, dueTime getUtcOffset clock s.instant⟩] }

/-- The handler of `OnRead`. -/
def onRead (s : State) (client count : Nat) : State :=
  if count = 0 ∨ s.isAlive client = false then s
  else
    { s with
      lastReceive := fun other =>
        if other = client then some (clock.now s.instant) else s.lastReceive other
      received := s.received ++ [(client, s.instant)] }

/-- The callback of `EnsureNoZombie`. -/
def ensureNoZombie (s : State) (check : Check) : State :=
  let s := { s with pending := s.pending.erase check }
  if (s.lastReceive check.client).isSome then s
  else { s with booted := s.booted ++ [⟨check.client, check.connectedAt, s.instant⟩] }

/-- A timer fires at its instant, and at once if that has passed: real time does not go on
without it. -/
def step (s : State) : Label → Option State
  | .elapse ticks =>
      if ∀ check ∈ s.pending, s.instant + ticks ≤ check.due then
        some { s with instant := s.instant + ticks }
      else none
  | .connect => some (onConnect getUtcOffset clock s)
  | .receive client count => some (onRead clock s client count)
  | .fire check =>
      if check ∈ s.pending ∧ check.due ≤ s.instant then some (ensureNoZombie s check) else none
  | .close client =>
      some { s with isAlive := fun other => if other = client then false else s.isAlive other }

end Step

/-- Every check is due ten seconds after its client connected; no client is booted earlier, nor is
one from which data was received before. -/
structure GivesTenSeconds (s : State) : Prop where
  due : ∀ check ∈ s.pending, check.due = check.connectedAt + tenSeconds
  silence : ∀ boot ∈ s.booted, boot.connectedAt + tenSeconds ≤ boot.instant
  heard : ∀ boot ∈ s.booted, ∀ instant, (boot.client, instant) ∈ s.received →
    boot.connectedAt + tenSeconds ≤ instant

/-- What holds in every state, whatever the offset of the clock. -/
structure Sound (clock : MasterClock) (s : State) : Prop where
  due : ∀ check ∈ s.pending, check.due = check.connectedAt + clock.localUtcOffset + tenSeconds
  /-- the check is not late. -/
  prompt : ∀ check ∈ s.pending,
    check.connectedAt ≤ s.instant ∧ s.instant ≤ max check.due check.connectedAt
  booted : ∀ boot ∈ s.booted, boot.instant =
      max (boot.connectedAt + clock.localUtcOffset + tenSeconds) boot.connectedAt ∧
    boot.instant ≤ s.instant
  heard : ∀ boot ∈ s.booted, ∀ instant, (boot.client, instant) ∈ s.received →
    boot.instant ≤ instant
  noted : ∀ client instant, (client, instant) ∈ s.received → (s.lastReceive client).isSome = true

section Run

variable {getUtcOffset : DateTime → Int} {clock : MasterClock} {s t : State} {label : Label}
  {schedule : List Label} {check : Check}

/-- The clock has the kind UTC: nothing takes its offset off again. -/
theorem dueTime_eq (instant : Int) :
    dueTime getUtcOffset clock instant = instant + clock.localUtcOffset + tenSeconds := by
  have zero : dueTime getUtcOffset clock instant =
      instant + clock.localUtcOffset + tenSeconds - 0 := rfl
  rw [zero, Int.sub_zero]

theorem Sound.elapse {ticks : Nat} (sound : Sound clock s)
    (waits : ∀ check ∈ s.pending, s.instant + ticks ≤ check.due) :
    Sound clock { s with instant := s.instant + ticks } where
  due := sound.due
  prompt check member := by
    have before := (sound.prompt check member).1
    have bound := waits check member
    dsimp only
    omega
  booted boot member := by
    obtain ⟨time, before⟩ := sound.booted boot member
    refine ⟨time, ?_⟩
    dsimp only
    omega
  heard := sound.heard
  noted := sound.noted

theorem Sound.onConnect (sound : Sound clock s) :
    Sound clock (ZombieCheck.onConnect getUtcOffset clock s) where
  due check member := by
    rcases List.mem_append.mp member with earlier | new
    · exact sound.due check earlier
    · cases List.mem_singleton.mp new
      exact dueTime_eq s.instant
  prompt check member := by
    rcases List.mem_append.mp member with earlier | new
    · exact sound.prompt check earlier
    · cases List.mem_singleton.mp new
      exact ⟨Int.le_refl _, Int.le_max_right _ _⟩
  booted := sound.booted
  heard := sound.heard
  noted := sound.noted

theorem Sound.onRead {client count : Nat} (sound : Sound clock s) :
    Sound clock (ZombieCheck.onRead clock s client count) := by
  unfold ZombieCheck.onRead
  split
  case isTrue => exact sound
  case isFalse =>
    refine ⟨sound.due, sound.prompt, sound.booted, ?_, ?_⟩
    · intro boot booted instant member
      rcases List.mem_append.mp member with earlier | new
      · exact sound.heard boot booted instant earlier
      · cases List.mem_singleton.mp new
        exact (sound.booted boot booted).2
    · intro other instant member
      dsimp only
      split
      case isTrue => rfl
      case isFalse differs =>
        rcases List.mem_append.mp member with earlier | new
        · exact sound.noted other instant earlier
        · cases List.mem_singleton.mp new
          exact (differs rfl).elim

theorem Sound.ensureNoZombie (sound : Sound clock s) (member : check ∈ s.pending)
    (passed : check.due ≤ s.instant) : Sound clock (ZombieCheck.ensureNoZombie s check) := by
  have due : ∀ other ∈ s.pending.erase check, _ := fun other rest =>
    sound.due other (List.mem_of_mem_erase rest)
  have prompt : ∀ other ∈ s.pending.erase check, _ := fun other rest =>
    sound.prompt other (List.mem_of_mem_erase rest)
  unfold ZombieCheck.ensureNoZombie
  dsimp only
  split
  case isTrue => exact ⟨due, prompt, sound.booted, sound.heard, sound.noted⟩
  case isFalse silent =>
    refine ⟨due, prompt, ?_, ?_, sound.noted⟩
    · intro boot booted
      rcases List.mem_append.mp booted with earlier | new
      · exact sound.booted boot earlier
      · cases List.mem_singleton.mp new
        have shifted := sound.due check member
        have inTime := sound.prompt check member
        dsimp only
        omega
    · intro boot booted instant received
      rcases List.mem_append.mp booted with earlier | new
      · exact sound.heard boot earlier instant received
      · -- nothing was received from a client that is booted
        cases List.mem_singleton.mp new
        exact (silent (sound.noted check.client instant received)).elim

/-- What one step preserves. -/
theorem Sound.step (sound : Sound clock s)
    (taken : ZombieCheck.step getUtcOffset clock s label = some t) : Sound clock t := by
  cases label with
  | elapse ticks =>
      rw [ZombieCheck.step] at taken
      split at taken
      case isFalse => cases taken
      case isTrue waits =>
        cases Option.some.inj taken
        exact sound.elapse waits
  | connect =>
      cases Option.some.inj taken
      exact sound.onConnect
  | receive client count =>
      cases Option.some.inj taken
      exact sound.onRead
  | fire check =>
      rw [ZombieCheck.step] at taken
      split at taken
      case isFalse => cases taken
      case isTrue due =>
        cases Option.some.inj taken
        exact sound.ensureNoZombie due.1 due.2
  | close client =>
      cases Option.some.inj taken
      exact ⟨sound.due, sound.prompt, sound.booted, sound.heard, sound.noted⟩

theorem sound_run {start : Int}
    (run : exec (step getUtcOffset clock) { instant := start } schedule = some t) :
    Sound clock t := by
  apply exec_invariant (Sound clock) _ _ run
  · intro s label t sound taken
    exact sound.step taken
  · exact ⟨nofun, nofun, nofun, nofun, nofun⟩

/-- A client that is booted is so at the instant that was shifted by the offset, or at the one at
which it connected, whichever is later. -/
theorem booted_at {start : Int}
    (run : exec (step getUtcOffset clock) { instant := start } schedule = some t)
    {boot : Boot} (booted : boot ∈ t.booted) :
    boot.instant = max (boot.connectedAt + clock.localUtcOffset + tenSeconds) boot.connectedAt :=
  ((sound_run run).booted boot booted).1

end Run

/-- **The zombie check.**  For every offset the clock has captured and every instant of real time:
in every run from then on every check is due ten seconds after its client connected, no client is
booted before that, and none from which data was received before, if and only if the offset is
zero. -/
theorem givesTenSeconds_iff (getUtcOffset : DateTime → Int) (clock : MasterClock) (start : Int) :
    (∀ schedule s, exec (step getUtcOffset clock) { instant := start } schedule = some s →
        GivesTenSeconds s) ↔
      clock.localUtcOffset = 0 := by
  constructor
  · intro always
    have connected := (always [.connect] _ rfl).due _ List.mem_cons_self
    rw [dueTime_eq] at connected
    dsimp only at connected
    omega
  · intro zero schedule s run
    have sound := sound_run run
    refine ⟨?_, ?_, ?_⟩
    · intro check member
      have due := sound.due check member
      omega
    · intro boot booted
      have time := (sound.booted boot booted).1
      omega
    · intro boot booted instant received
      have time := (sound.booted boot booted).1
      have later := sound.heard boot booted instant received
      omega

/-- In New York a client is booted in the instant in which it connects. -/
theorem booted_at_once :
    ∃ s, exec (step (fun _ => timeSpanOfSeconds (-18000)) ⟨timeSpanOfSeconds (-18000)⟩)
        { instant := 0 } [.connect, .fire ⟨0, 0, timeSpanOfSeconds (-17990)⟩] = some s ∧
      s.booted = [⟨0, 0, 0⟩] ∧ ¬ GivesTenSeconds s := by
  refine ⟨_, rfl, rfl, fun gives => ?_⟩
  have early := gives.silence ⟨0, 0, 0⟩ List.mem_cons_self
  revert early
  decide

end Hypepool.ZombieCheck
