import Hypepool.Base.Run
import Hypepool.Monero.MoneroJob

/-!
# The arrays behind `EncodeBlob`

`MoneroJob.encodeBlob` computes with contents.  Here the arrays have references: the template of a
job is one of them, and a call of `EncodeBlob` writes into another, which `ArrayPool<byte>.Shared`
hands out and its former owners have written to.  Calls on one job run on the threads of different
clients, so that each of their steps may fall between those of others.  What the pool promises is
taken from its documentation: an array is not handed out again while a call holds it, and then
nobody else writes to it.

* `Call.next_of_holds`: in its steps a call passes to `ConvertBlob` what `MoneroJob.encodeBlob`
  would, with what its array held when it was rented.
* `blob_injection`: through any calls on a job its template stays as it was prepared, each call can
  be begun and comes to its end, and passes on the decoded blob with the extra nonce and the
  instance id in it.
-/

namespace Hypepool.BlobInjection

open Base MoneroConstants

/-! ## Arrays by reference -/

/-- The byte arrays of the process, and which of them `ArrayPool<byte>.Shared` made: it hands out
no others. -/
structure Memory where
  arrays : List Bytes
  pool : List Nat
  pooled : ∀ ref ∈ pool, ref < arrays.length

namespace Memory

variable (memory : Memory)

def load (ref : Nat) : Bytes := (memory.arrays[ref]?).getD []

def store (ref : Nat) (data : Bytes) : Memory where
  arrays := memory.arrays.set ref data
  pool := memory.pool
  pooled other member := by
    rw [List.length_set]
    exact memory.pooled other member

/-- `new byte[]` outside the pool. -/
def allocate (data : Bytes) : Memory where
  arrays := memory.arrays ++ [data]
  pool := memory.pool
  pooled other member := by
    have bound := memory.pooled other member
    rw [List.length_append]
    omega

/-- An array the pool makes when it has none that is large enough. -/
def enlarge (data : Bytes) : Memory where
  arrays := memory.arrays ++ [data]
  pool := memory.arrays.length :: memory.pool
  pooled other member := by
    rw [List.length_append, List.length_singleton]
    rcases List.mem_cons.mp member with same | member
    · omega
    · have bound := memory.pooled other member
      omega

variable {memory} {ref other : Nat} {data : Bytes}

theorem load_store_self (bound : ref < memory.arrays.length) :
    (memory.store ref data).load ref = data := by
  rw [load, store, List.getElem?_set_self bound, Option.getD_some]

theorem load_store_of_ne (differs : ref ≠ other) :
    (memory.store ref data).load other = memory.load other := by
  rw [load, store, List.getElem?_set_ne differs, load]

theorem load_allocate : (memory.allocate data).load memory.arrays.length = data := by
  rw [load, allocate, List.getElem?_concat_length, Option.getD_some]

theorem load_enlarge_self : (memory.enlarge data).load memory.arrays.length = data := by
  rw [load, enlarge, List.getElem?_concat_length, Option.getD_some]

theorem load_enlarge_of_lt (bound : ref < memory.arrays.length) :
    (memory.enlarge data).load ref = memory.load ref := by
  rw [load, enlarge, List.getElem?_append_left bound, load]

end Memory

/-- What the pool does when an array is rented: it takes one of its own, or makes one. -/
inductive Choice
  | reuse (ref : Nat)
  | make (data : Bytes)

/-- The pool may do so while the arrays at `held` are handed out. -/
def Admits (memory : Memory) (held : List Nat) (size : Nat) : Choice → Prop
  | .reuse ref => ref ∈ memory.pool ∧ ref ∉ held ∧ size ≤ (memory.load ref).length
  | .make data => size ≤ data.length

instance (memory : Memory) (held : List Nat) (size : Nat) :
    (choice : Choice) → Decidable (Admits memory held size choice)
  | .reuse _ => inferInstanceAs (Decidable (_ ∧ _ ∧ _))
  | .make _ => inferInstanceAs (Decidable (_ ≤ _))

/-- The array that is handed out. -/
def Choice.taken (memory : Memory) : Choice → Nat × Memory
  | .reuse ref => (ref, memory)
  | .make data => (memory.arrays.length, memory.enlarge data)

/-- `ArrayPool<byte>.Shared.Rent(size)`. -/
def rent (memory : Memory) (held : List Nat) (size : Nat) (choice : Choice) :
    Option (Nat × Memory) :=
  if Admits memory held size choice then some (choice.taken memory) else none

/-- The array at a reference is none of the pool's, and holds the given bytes. -/
structure Keeps (memory : Memory) (ref : Nat) (data : Bytes) : Prop where
  bound : ref < memory.arrays.length
  apart : ref ∉ memory.pool
  holds : memory.load ref = data

/-- The pool may have made more arrays, and no others have changed. -/
structure Extends (memory memory' : Memory) : Prop where
  pool : memory.pool ⊆ memory'.pool
  loads : ∀ ref ∈ memory.pool, memory'.load ref = memory.load ref

section Keeps

variable {memory memory' : Memory} {template ref size : Nat} {data other : Bytes} {choice : Choice}
  {held : List Nat}

theorem Keeps.store (keeps : Keeps memory template data) (pooled : ref ∈ memory.pool) :
    Keeps (memory.store ref other) template data where
  bound := by
    rw [Memory.store, List.length_set]
    exact keeps.bound
  apart := keeps.apart
  holds := by
    have differs : ref ≠ template := fun same => keeps.apart (same ▸ pooled)
    exact (Memory.load_store_of_ne differs).trans keeps.holds

theorem Keeps.rent (keeps : Keeps memory template data)
    (rented : rent memory held size choice = some (ref, memory')) :
    Keeps memory' template data := by
  rw [BlobInjection.rent] at rented
  split at rented
  case isFalse => cases rented
  case isTrue admitted =>
    cases choice with
    | reuse ref =>
        cases rented
        exact keeps
    | make data =>
        cases rented
        have bound := keeps.bound
        have enlarged : (memory.enlarge data).arrays.length = memory.arrays.length + 1 :=
          List.length_append
        refine ⟨by omega, ?_, (Memory.load_enlarge_of_lt bound).trans keeps.holds⟩
        intro member
        rcases List.mem_cons.mp member with same | member
        · omega
        · exact keeps.apart member

/-- An array that is handed out is one of the pool that nobody holds, and it is large enough. -/
theorem rent_spec (pooled : held ⊆ memory.pool)
    (rented : rent memory held size choice = some (ref, memory')) :
    Extends memory memory' ∧ ref ∈ memory'.pool ∧ ref ∉ held ∧
      size ≤ (memory'.load ref).length := by
  rw [rent] at rented
  split at rented
  case isFalse => cases rented
  case isTrue admitted =>
    cases choice with
    | reuse ref =>
        cases rented
        obtain ⟨inPool, free, large⟩ := admitted
        exact ⟨⟨fun _ => id, fun _ _ => rfl⟩, inPool, free, large⟩
    | make data =>
        cases rented
        refine ⟨⟨fun _ => List.mem_cons_of_mem _, fun other member => ?_⟩, List.mem_cons_self,
          ?_, ?_⟩
        · exact Memory.load_enlarge_of_lt (memory.pooled other member)
        · exact fun member => Nat.lt_irrefl _ (memory.pooled _ (pooled member))
        · rw [Memory.load_enlarge_self]
          exact admitted

end Keeps

/-- A pool that hands out an array with the given contents, where it is large enough. -/
def rentOf (data : Bytes) : Rent where
  array size := if size ≤ data.length then data else List.replicate size 0
  capacity size := by
    split
    · assumption
    · exact Nat.le_of_eq List.length_replicate.symm

/-! ## The calls on a job -/

/-- What a call of `EncodeBlob` does next, once it has rented its array. -/
inductive Turn
  | clone
  | inject
  | convert
  | dispose
  | ended
  deriving DecidableEq

structure Call where
  workerExtraNonce : UInt32
  /-- the array in its variable `blob`. -/
  blob : Nat
  turn : Turn := .clone
  /-- what it has called `ConvertBlob` with. -/
  passed : Option (Bytes × Nat) := none

/-- A copy into the array of a call; one that throws leaves the `using` block. -/
def Call.copyTo (call : Call) (memory : Memory) (turn : Turn) :
    Except NetException Bytes → Call × Memory
  | .ok data => ({ call with turn := turn }, memory.store call.blob data)
  | .error _ => ({ call with turn := .dispose }, memory)

/-- The next step of a call, where the template of the job is at the reference `blobTemplate`. -/
def Call.next (host : Host) (blockTemplate : GetBlockTemplateResponse) (blobTemplate : Nat)
    (memory : Memory) (call : Call) : Option (Call × Memory) :=
  let size := (memory.load blobTemplate).length
  match call.turn with
  | .clone =>
      some (call.copyTo memory .inject
        (blockCopy (memory.load blobTemplate) 0 (memory.load call.blob) 0 size))
  | .inject =>
      let extraNonceBytes := getBytes host.isLittleEndian
        (toBigEndian host.isLittleEndian call.workerExtraNonce)
      some (call.copyTo memory .convert
        (blockCopy extraNonceBytes 0 (memory.load call.blob) blockTemplate.nonceOffset
          extraNonceBytes.length))
  | .convert =>
      some ({ call with turn := .dispose, passed := some (memory.load call.blob, size) }, memory)
  | .dispose => some ({ call with turn := .ended }, memory)
  | .ended => none

/-- A process with a job. -/
structure State where
  memory : Memory
  /-- the calls of `EncodeBlob`, in the order in which they rented their arrays. -/
  calls : List Call := []

/-- The arrays that calls have rented and not yet returned. -/
def State.held (s : State) : List Nat :=
  (s.calls.filter fun call => call.turn ≠ .ended).map Call.blob

inductive Label
  /-- a call of `EncodeBlob` begins, and rents its array. -/
  | encode (choice : Choice) (workerExtraNonce : UInt32)
  /-- a call makes its next step. -/
  | next (call : Nat)
  /-- somebody else rents an array, and writes to it. -/
  | elsewhere (choice : Choice) (size : Nat) (data : Bytes)

def step (host : Host) (blockTemplate : GetBlockTemplateResponse) (blobTemplate : Nat)
    (s : State) : Label → Option State
  | .encode choice workerExtraNonce => do
      let (blob, memory) ← rent s.memory s.held (s.memory.load blobTemplate).length choice
      return ⟨memory, s.calls ++ [{ workerExtraNonce, blob }]⟩
  | .next i => do
      let call ← s.calls[i]?
      let (call, memory) ← call.next host blockTemplate blobTemplate s.memory
      return ⟨memory, s.calls.set i call⟩
  | .elsewhere choice size data => do
      let (ref, memory) ← rent s.memory s.held size choice
      if data.length = (memory.load ref).length then
        return { s with memory := memory.store ref data }
      else none

/-- The process with a new job: `HexToByteArray` has made the array. -/
def created (before : Memory) (job : MoneroJob) : State where
  memory := before.allocate job.blobTemplate

/-- The extra nonces of the calls in a schedule. -/
def nonces (schedule : List Label) : List UInt32 :=
  schedule.filterMap fun
    | .encode _ workerExtraNonce => some workerExtraNonce
    | _ => none

/-- What `ConvertBlob` is to read, for an extra nonce. -/
def withExtraNonce (job : MoneroJob) (nonce : UInt32) : Bytes :=
  job.blobTemplate.take job.blockTemplate.nonceOffset.toNat ++ (leBytes nonce).reverse ++
    job.blobTemplate.drop (job.blockTemplate.nonceOffset.toNat + extraNonceSize)

/-- What `ConvertBlob` reads of what it gets. -/
def Call.read (call : Call) : Option (Bytes × Nat) :=
  call.passed.map fun passed => (passed.1.take passed.2, passed.2)

/-- The call has been in `ConvertBlob`. -/
def Turn.isPast : Turn → Bool
  | .dispose | .ended => true
  | _ => false

/-- How many steps a call has left. -/
def Turn.left : Turn → Nat
  | .clone => 4
  | .inject => 3
  | .convert => 2
  | .dispose => 1
  | .ended => 0

/-- What the array of a call holds before its next step, and what it has passed on. -/
def Call.Holds (host : Host) (job : MoneroJob) (call : Call) (data : Bytes) : Prop :=
  match call.turn with
  | .clone => job.blobTemplate.length ≤ data.length ∧ call.passed = none
  | .inject => (∃ rest, data = job.blobTemplate ++ rest) ∧ call.passed = none
  | .convert =>
      (∃ rent, MoneroJob.blobWithExtraNonce host rent job call.workerExtraNonce = .ok data) ∧
        call.passed = none
  | .dispose | .ended => ∃ rent blob,
      MoneroJob.blobWithExtraNonce host rent job call.workerExtraNonce = .ok blob ∧
        call.passed = some (blob, job.blobTemplate.length)

section Lists

variable {α : Type} {xs : List α} {i j : Nat} {x y : α}

theorem getElem?_concat_eq_some (here : (xs ++ [x])[i]? = some y) :
    xs[i]? = some y ∨ i = xs.length ∧ y = x := by
  rw [List.getElem?_append] at here
  split at here
  · exact Or.inl here
  · obtain ⟨bound, same⟩ := List.getElem?_eq_some_iff.mp here
    rw [List.length_singleton] at bound
    rw [List.getElem_singleton] at same
    exact Or.inr ⟨by omega, same.symm⟩

theorem getElem?_set_eq_some (here : (xs.set i x)[j]? = some y) :
    j = i ∧ y = x ∨ j ≠ i ∧ xs[j]? = some y := by
  by_cases same : j = i
  · subst same
    rw [List.getElem?_set] at here
    simp only [if_true] at here
    split at here
    · exact Or.inl ⟨rfl, (Option.some.inj here).symm⟩
    · cases here
  · rw [List.getElem?_set_ne (Ne.symm same)] at here
    exact Or.inr ⟨same, here⟩

end Lists

section Calls

variable {host : Host} {job : MoneroJob} {template i : Nat} {memory memory' : Memory}
  {call call' : Call}
  {s s' : State} {label : Label} {schedule : List Label}

/-- Where the extra nonce has a place, it is written. -/
theorem exists_blobWithExtraNonce (host : Host) (rent : Rent)
    (nonneg : 0 ≤ job.blockTemplate.nonceOffset) (nonce : UInt32) :
    ∃ blob, MoneroJob.blobWithExtraNonce host rent job nonce = .ok blob := by
  have reserved := MoneroJob.reserved_of_nonneg job nonneg
  have four : (leBytes nonce).reverse.length = extraNonceSize := rfl
  rw [MoneroJob.blobWithExtraNonce_eq]
  refine ⟨_, blockCopy_eq_ok_iff.mpr ⟨nonneg, Nat.le_of_eq (Nat.zero_add _), ?_, rfl⟩⟩
  rw [four, List.length_append]
  omega

/-- The copy of the template into an array that is large enough. -/
theorem exists_clone {blobTemplate data : Bytes} (large : blobTemplate.length ≤ data.length) :
    ∃ rest, blockCopy blobTemplate 0 data 0 blobTemplate.length = .ok (blobTemplate ++ rest) := by
  refine ⟨data.drop blobTemplate.length,
    blockCopy_eq_ok_iff.mpr ⟨Int.le_refl 0, by omega, ?_, ?_⟩⟩
  · rw [Int.toNat_zero]
    omega
  · rw [Int.toNat_zero, List.take_zero, List.drop_zero, List.take_length, List.nil_append,
      Nat.zero_add]

/-- The extra nonce written into a copy of the template is that of `MoneroJob.encodeBlob`, with what
is behind the copy. -/
theorem inject_eq {rest : Bytes} (nonce : UInt32) :
    MoneroJob.blobWithExtraNonce host (rentOf (job.blobTemplate ++ rest)) job nonce =
      blockCopy (getBytes host.isLittleEndian (toBigEndian host.isLittleEndian nonce)) 0
        (job.blobTemplate ++ rest) job.blockTemplate.nonceOffset
        (getBytes host.isLittleEndian (toBigEndian host.isLittleEndian nonce)).length := by
  have large : job.blobTemplate.length ≤ (job.blobTemplate ++ rest).length := by
    rw [List.length_append]
    omega
  have array : (rentOf (job.blobTemplate ++ rest)).array job.blobTemplate.length =
      job.blobTemplate ++ rest := if_pos large
  rw [MoneroJob.blobWithExtraNonce_eq, array, List.drop_left, getBytes_toBigEndian]

/-- A call that is not over makes its next step: it writes to its own array at most, and leaves in
it what its turn then says. -/
theorem Call.next_of_holds (nonneg : 0 ≤ job.blockTemplate.nonceOffset)
    (keeps : Keeps memory template job.blobTemplate) (bound : call.blob < memory.arrays.length)
    (holds : call.Holds host job (memory.load call.blob)) (going : call.turn ≠ .ended) :
    ∃ call' memory', call.next host job.blockTemplate template memory = some (call', memory') ∧
      call'.workerExtraNonce = call.workerExtraNonce ∧ call'.blob = call.blob ∧
      call'.turn.left + 1 = call.turn.left ∧
      (memory' = memory ∨ ∃ data, memory' = memory.store call.blob data) ∧
      call'.Holds host job (memory'.load call.blob) := by
  obtain ⟨nonce, blob, turn, passed⟩ := call
  cases turn with
  | clone =>
      obtain ⟨large, none⟩ := holds
      obtain ⟨rest, copied⟩ := exists_clone large
      refine ⟨⟨nonce, blob, .inject, passed⟩, memory.store blob (job.blobTemplate ++ rest), ?_, rfl,
        rfl, rfl, Or.inr ⟨_, rfl⟩, ⟨rest, Memory.load_store_self bound⟩, none⟩
      simp only [Call.next, keeps.holds, copied]
      rfl
  | inject =>
      obtain ⟨⟨rest, isCopy⟩, none⟩ := holds
      obtain ⟨data, injected⟩ :=
        exists_blobWithExtraNonce host (rentOf (job.blobTemplate ++ rest)) nonneg nonce
      have copied := @inject_eq host job rest nonce
      refine ⟨⟨nonce, blob, .convert, passed⟩, memory.store blob data, ?_, rfl, rfl, rfl,
        Or.inr ⟨data, rfl⟩, ⟨rentOf (job.blobTemplate ++ rest), ?_⟩, none⟩
      · simp only [Call.next, isCopy, ← copied, injected]
        rfl
      · rw [injected]
        exact congrArg Except.ok (Memory.load_store_self bound).symm
  | convert =>
      obtain ⟨⟨rent, injected⟩, none⟩ := holds
      refine ⟨⟨nonce, blob, .dispose, _⟩, memory, rfl, rfl, rfl, rfl, Or.inl rfl, rent, _, injected,
        ?_⟩
      rw [keeps.holds]
  | dispose => exact ⟨⟨nonce, blob, .ended, passed⟩, memory, rfl, rfl, rfl, rfl, Or.inl rfl, holds⟩
  | ended => exact (going rfl).elim

/-- What the enabled steps do. -/
theorem step_cases {blockTemplate : GetBlockTemplateResponse}
    (taken : step host blockTemplate template s label = some s') :
    (∃ choice nonce blob memory, label = .encode choice nonce ∧
      rent s.memory s.held (s.memory.load template).length choice = some (blob, memory) ∧
      s' = ⟨memory, s.calls ++ [⟨nonce, blob, .clone, none⟩]⟩) ∨
    (∃ i call call' memory, label = .next i ∧ s.calls[i]? = some call ∧
      call.next host blockTemplate template s.memory = some (call', memory) ∧
      s' = ⟨memory, s.calls.set i call'⟩) ∨
    (∃ choice size data ref memory, label = .elsewhere choice size data ∧
      rent s.memory s.held size choice = some (ref, memory) ∧
      s' = { s with memory := memory.store ref data }) := by
  cases label with
  | encode choice nonce =>
      obtain ⟨⟨blob, memory⟩, rented, rest⟩ := Option.bind_eq_some_iff.mp taken
      exact Or.inl ⟨choice, nonce, blob, memory, rfl, rented, (Option.some.inj rest).symm⟩
  | next i =>
      obtain ⟨call, here, rest⟩ := Option.bind_eq_some_iff.mp taken
      obtain ⟨⟨call', memory⟩, next, rest⟩ := Option.bind_eq_some_iff.mp rest
      exact Or.inr (Or.inl ⟨i, call, call', memory, rfl, here, next, (Option.some.inj rest).symm⟩)
  | elsewhere choice size data =>
      obtain ⟨⟨ref, memory⟩, rented, rest⟩ := Option.bind_eq_some_iff.mp taken
      dsimp only at rest
      split at rest
      case isFalse => cases rest
      case isTrue =>
        exact Or.inr (Or.inr ⟨choice, size, data, ref, memory, rfl, rented,
          (Option.some.inj rest).symm⟩)

theorem mem_held {ref : Nat} :
    ref ∈ s.held ↔ ∃ call ∈ s.calls, call.turn ≠ .ended ∧ call.blob = ref := by
  simp only [State.held, List.mem_map, List.mem_filter, decide_eq_true_eq, and_assoc]

/-- The template is kept, and each call has an array of the pool to itself, which holds what its
turn says. -/
structure Sound (host : Host) (job : MoneroJob) (template : Nat) (s : State) : Prop where
  keeps : Keeps s.memory template job.blobTemplate
  pooled : s.held ⊆ s.memory.pool
  apart : ∀ (i j : Nat) (call call' : Call), s.calls[i]? = some call → s.calls[j]? = some call' →
    i ≠ j → call.turn ≠ .ended → call'.turn ≠ .ended → call.blob ≠ call'.blob
  holds : ∀ call ∈ s.calls, call.Holds host job (s.memory.load call.blob)

/-- A call that is over does not care for its array any more. -/
theorem Call.Holds.of_same {data data' : Bytes} (holds : call.Holds host job data)
    (same : call.turn ≠ .ended → data' = data) : call.Holds host job data' := by
  by_cases ended : call.turn = .ended
  · rw [Call.Holds, ended] at holds ⊢
    exact holds
  · exact same ended ▸ holds

/-- Others may change the memory, if not the template and what calls hold. -/
theorem Sound.of_loads (sound : Sound host job template s)
    (keeps : Keeps memory template job.blobTemplate) (pool : s.memory.pool ⊆ memory.pool)
    (loads : ∀ ref ∈ s.held, memory.load ref = s.memory.load ref) :
    Sound host job template ⟨memory, s.calls⟩ where
  keeps := keeps
  pooled _ member := pool (sound.pooled member)
  apart := sound.apart
  holds call member := (sound.holds call member).of_same fun going =>
    loads _ (mem_held.mpr ⟨call, member, going, rfl⟩)

/-- A call begins on an array that no other holds. -/
theorem Sound.concat {nonce : UInt32} {blob : Nat} (sound : Sound host job template s)
    (pooled : blob ∈ s.memory.pool) (free : blob ∉ s.held)
    (large : job.blobTemplate.length ≤ (s.memory.load blob).length) :
    Sound host job template ⟨s.memory, s.calls ++ [⟨nonce, blob, .clone, none⟩]⟩ where
  keeps := sound.keeps
  pooled ref member := by
    obtain ⟨call, among, going, rfl⟩ := mem_held.mp member
    rcases List.mem_append.mp among with earlier | last
    · exact sound.pooled (mem_held.mpr ⟨call, earlier, going, rfl⟩)
    · obtain rfl := List.mem_singleton.mp last
      exact pooled
  apart i j call call' here there differs going going' := by
    have other (k : Nat) (call : Call) (here : s.calls[k]? = some call)
        (going : call.turn ≠ .ended) : call.blob ≠ blob := fun same =>
      free (mem_held.mpr ⟨call, List.mem_of_getElem? here, going, same⟩)
    rcases getElem?_concat_eq_some here with here | ⟨last, rfl⟩
    · rcases getElem?_concat_eq_some there with there | ⟨last', rfl⟩
      · exact sound.apart i j call call' here there differs going going'
      · exact other i call here going
    · rcases getElem?_concat_eq_some there with there | ⟨last', rfl⟩
      · exact (other j call' there going').symm
      · exact (differs (last.trans last'.symm)).elim
  holds call member := by
    rcases List.mem_append.mp member with member | member
    · exact sound.holds call member
    · obtain rfl := List.mem_singleton.mp member
      exact ⟨large, rfl⟩

/-- A call makes a step on its own array. -/
theorem Sound.set (sound : Sound host job template s) (here : s.calls[i]? = some call)
    (going : call.turn ≠ .ended) (same : call'.blob = call.blob)
    (stored : memory = s.memory ∨ ∃ data, memory = s.memory.store call.blob data)
    (holds : call'.Holds host job (memory.load call.blob)) :
    Sound host job template ⟨memory, s.calls.set i call'⟩ := by
  have own : call.blob ∈ s.memory.pool :=
    sound.pooled (mem_held.mpr ⟨call, List.mem_of_getElem? here, going, rfl⟩)
  have isPool : memory.pool = s.memory.pool := by
    rcases stored with rfl | ⟨data, rfl⟩
    · rfl
    · rfl
  have inside (other : Call) (member : other ∈ s.calls.set i call') (goes : other.turn ≠ .ended) :
      other.blob ∈ s.memory.pool := by
    rcases List.mem_or_eq_of_mem_set member with member | rfl
    · exact sound.pooled (mem_held.mpr ⟨other, member, goes, rfl⟩)
    · exact same ▸ own
  refine ⟨?_, fun ref member => ?_, fun j k a b first second differs goes goes' => ?_,
    fun other member => ?_⟩
  · rcases stored with rfl | ⟨data, rfl⟩
    · exact sound.keeps
    · exact sound.keeps.store own
  · obtain ⟨other, among, goes, rfl⟩ := mem_held.mp member
    exact isPool ▸ inside other among goes
  · rcases getElem?_set_eq_some first with ⟨rfl, rfl⟩ | ⟨_, before⟩
    · rcases getElem?_set_eq_some second with ⟨rfl, rfl⟩ | ⟨_, before'⟩
      · exact (differs rfl).elim
      · exact same ▸ sound.apart j k call b here before' differs going goes'
    · rcases getElem?_set_eq_some second with ⟨rfl, rfl⟩ | ⟨_, before'⟩
      · exact same ▸ sound.apart j k a call before here differs goes going
      · exact sound.apart j k a b before before' differs goes goes'
  · obtain ⟨j, there⟩ := List.mem_iff_getElem?.mp member
    rcases getElem?_set_eq_some there with ⟨_, rfl⟩ | ⟨differs, before⟩
    · exact same ▸ holds
    · refine (sound.holds other (List.mem_of_getElem? before)).of_same fun goes => ?_
      rcases stored with rfl | ⟨data, rfl⟩
      · rfl
      · exact Memory.load_store_of_ne
          (sound.apart i j call other here before (Ne.symm differs) going goes)

theorem Sound.encode {blob : Nat} {choice : Choice} {nonce : UInt32}
    (sound : Sound host job template s)
    (rented : rent s.memory s.held (s.memory.load template).length choice = some (blob, memory)) :
    Sound host job template ⟨memory, s.calls ++ [⟨nonce, blob, .clone, none⟩]⟩ := by
  obtain ⟨extended, pooled, free, large⟩ := rent_spec sound.pooled rented
  rw [sound.keeps.holds] at large
  have grown := sound.of_loads (sound.keeps.rent rented) extended.pool
    fun ref member => extended.loads ref (sound.pooled member)
  exact grown.concat pooled free large

theorem Sound.elsewhere {ref size : Nat} {choice : Choice} {data : Bytes}
    (sound : Sound host job template s)
    (rented : rent s.memory s.held size choice = some (ref, memory)) :
    Sound host job template { s with memory := memory.store ref data } := by
  obtain ⟨extended, pooled, free, _⟩ := rent_spec sound.pooled rented
  refine sound.of_loads ((sound.keeps.rent rented).store pooled) extended.pool
    fun other member => ?_
  have differs : ref ≠ other := fun same => free (same ▸ member)
  exact (Memory.load_store_of_ne differs).trans (extended.loads other (sound.pooled member))

/-- In a sound state, a call that is not over has a next step. -/
theorem Sound.next (nonneg : 0 ≤ job.blockTemplate.nonceOffset)
    (sound : Sound host job template s) (here : s.calls[i]? = some call)
    (going : call.turn ≠ .ended) :
    ∃ call' memory, call.next host job.blockTemplate template s.memory = some (call', memory) ∧
      call'.workerExtraNonce = call.workerExtraNonce ∧ call'.turn.left + 1 = call.turn.left ∧
      Sound host job template ⟨memory, s.calls.set i call'⟩ := by
  have member := List.mem_of_getElem? here
  have own := sound.pooled (mem_held.mpr ⟨call, member, going, rfl⟩)
  obtain ⟨call', memory, next, nonce, blob, left, stored, holds⟩ :=
    Call.next_of_holds nonneg sound.keeps (s.memory.pooled _ own) (sound.holds call member) going
  exact ⟨call', memory, next, nonce, left, sound.set here going blob stored holds⟩

/-- Every step keeps the template and the calls apart, and no call forgets its extra nonce. -/
theorem Sound.step (nonneg : 0 ≤ job.blockTemplate.nonceOffset)
    (sound : Sound host job template s)
    (taken : BlobInjection.step host job.blockTemplate template s label = some s') :
    Sound host job template s' ∧ s'.calls.map Call.workerExtraNonce =
      s.calls.map Call.workerExtraNonce ++ nonces [label] := by
  rcases step_cases taken with ⟨choice, nonce, blob, memory, rfl, rented, rfl⟩ |
    ⟨i, call, call', memory, rfl, here, next, rfl⟩ |
    ⟨choice, size, data, ref, memory, rfl, rented, rfl⟩
  · exact ⟨sound.encode rented, List.map_append⟩
  · have going : call.turn ≠ .ended := by
      intro ended
      rw [Call.next, ended] at next
      cases next
    obtain ⟨_, _, next', nonce, _, kept⟩ := sound.next nonneg here going
    cases Option.some.inj (next.symm.trans next')
    refine ⟨kept, ?_⟩
    obtain ⟨bound, isCall⟩ := List.getElem?_eq_some_iff.mp here
    have inside : i < (s.calls.map Call.workerExtraNonce).length := by rwa [List.length_map]
    have own : call.workerExtraNonce = (s.calls.map Call.workerExtraNonce)[i] := by
      rw [List.getElem_map, isCall]
    rw [List.map_set, nonce, own, List.set_getElem_self]
    exact (List.append_nil _).symm
  · exact ⟨sound.elsewhere rented, (List.append_nil _).symm⟩

theorem Sound.run (nonneg : 0 ≤ job.blockTemplate.nonceOffset)
    (sound : Sound host job template s)
    (run : exec (BlobInjection.step host job.blockTemplate template) s schedule = some s') :
    Sound host job template s' ∧ s'.calls.map Call.workerExtraNonce =
      s.calls.map Call.workerExtraNonce ++ nonces schedule := by
  induction schedule generalizing s with
  | nil =>
      cases Option.some.inj run
      exact ⟨sound, (List.append_nil _).symm⟩
  | cons label schedule ih =>
      obtain ⟨u, taken, rest⟩ := exec_cons_eq_some.mp run
      obtain ⟨kept, here⟩ := sound.step nonneg taken
      obtain ⟨final, behind⟩ := ih kept rest
      have split : nonces (label :: schedule) = nonces [label] ++ nonces schedule :=
        List.filterMap_append (l := [label])
      refine ⟨final, ?_⟩
      rw [behind, here, split, List.append_assoc]

/-- Whatever array the pool chooses for it, a call can begin. -/
theorem Sound.exists_encode {choice : Choice} (sound : Sound host job template s)
    (admitted : Admits s.memory s.held job.blobTemplate.length choice) (nonce : UInt32) :
    ∃ s', BlobInjection.step host job.blockTemplate template s (.encode choice nonce) =
      some s' := by
  have rented : rent s.memory s.held (s.memory.load template).length choice =
      some (choice.taken s.memory) := by
    rw [sound.keeps.holds]
    exact if_pos admitted
  exact ⟨_, by rw [BlobInjection.step, rented]; rfl⟩

/-- A call comes to its end by its own steps. -/
theorem Sound.exists_end (nonneg : 0 ≤ job.blockTemplate.nonceOffset)
    (sound : Sound host job template s) (here : s.calls[i]? = some call) :
    ∃ s', exec (BlobInjection.step host job.blockTemplate template) s
        (List.replicate call.turn.left (.next i)) = some s' ∧
      s'.calls[i]?.map Call.turn = some .ended := by
  generalize isLeft : call.turn.left = left
  induction left generalizing s call with
  | zero =>
      refine ⟨s, rfl, ?_⟩
      rw [here, Option.map_some]
      obtain ⟨nonce, blob, turn, passed⟩ := call
      cases turn with
      | ended => rfl
      | _ => cases isLeft
  | succ left ih =>
      have going : call.turn ≠ .ended := by
        intro ended
        rw [ended] at isLeft
        cases isLeft
      obtain ⟨call', memory, next, _, less, kept⟩ := sound.next nonneg here going
      have bound := (List.getElem?_eq_some_iff.mp here).1
      obtain ⟨s', rest, ended⟩ := ih kept (List.getElem?_set_self bound) (by omega)
      refine ⟨s', exec_cons_eq_some.mpr ⟨_, ?_, rest⟩, ended⟩
      simp only [BlobInjection.step, here, Option.bind_eq_bind, Option.bind_some, next]
      rfl

/-- What a call has passed to `ConvertBlob`. -/
theorem Sound.read_eq (sound : Sound host job template s) (member : call ∈ s.calls) :
    call.read = if call.turn.isPast then
      some (withExtraNonce job call.workerExtraNonce, job.blobTemplate.length) else none := by
  have holds := sound.holds call member
  obtain ⟨nonce, blob, turn, passed⟩ := call
  have past (injected : ∃ rent blob, MoneroJob.blobWithExtraNonce host rent job nonce = .ok blob ∧
      passed = some (blob, job.blobTemplate.length)) :
      passed.map (fun passed => (passed.1.take passed.2, passed.2)) =
        some (withExtraNonce job nonce, job.blobTemplate.length) := by
    obtain ⟨rent, blob, encoded, rfl⟩ := injected
    rw [Option.map_some, (MoneroJob.take_blobWithExtraNonce encoded).2]
    rfl
  cases turn with
  | clone => exact congrArg (Option.map _) holds.2
  | inject => exact congrArg (Option.map _) holds.2
  | convert => exact congrArg (Option.map _) holds.2
  | dispose => exact past holds
  | ended => exact past holds

theorem sound_created (before : Memory) :
    Sound host job before.arrays.length (created before job) where
  keeps := by
    refine ⟨?_, fun member => Nat.lt_irrefl _ (before.pooled _ member), Memory.load_allocate⟩
    rw [created, Memory.allocate, List.length_append, List.length_singleton]
    exact Nat.lt_succ_self _
  pooled := List.nil_subset _
  apart _ _ _ _ here := nomatch here
  holds _ := nofun

end Calls

/-! ## The blob of a template -/

/-- A blob with the extra nonce, most significant byte first, and the instance id at the
offset. -/
def injected (decoded : Bytes) (offset : Nat) (nonce : UInt32) (instanceId : InstanceId) : Bytes :=
  decoded.take offset ++ (leBytes nonce).reverse ++ instanceId.bytes ++
    decoded.drop (offset + extraNonceSize + instanceIdSize)

section Template

variable {template : GetBlockTemplateResponse} {decoded : Bytes} {instanceId : InstanceId}

/-- The two offsets of a reserve that ends below 2^31. -/
theorem offsets_of_range (range : template.reservedOffset.toNat + 8 < 0x80000000) :
    template.nonceOffset = template.reservedOffset.toNat ∧
      template.destOffset = (template.reservedOffset.toNat + 4 : Nat) := by
  have nonceOffset : template.nonceOffset = template.reservedOffset.toNat :=
    int32_of_range (by omega) (by omega)
  refine ⟨nonceOffset, ?_⟩
  rw [GetBlockTemplateResponse.destOffset, nonceOffset]
  exact int32_of_range (by unfold extraNonceSize; omega) (by unfold extraNonceSize; omega)

theorem take_drop_prepared {front : Bytes} {offset : Nat} {behind : Bytes}
    (length : front.length = offset + extraNonceSize) (nonce : UInt32) :
    (front ++ behind).take offset ++ (leBytes nonce).reverse ++
        (front ++ behind).drop (offset + extraNonceSize) =
      front.take offset ++ (leBytes nonce).reverse ++ behind := by
  rw [List.take_append_of_le_length (by omega), ← length, List.drop_left]

/-- Different nonces or instance ids give different blobs. -/
theorem injected_injective {offset : Nat} {nonce nonce' : UInt32} {instanceId' : InstanceId}
    (same : injected decoded offset nonce instanceId =
      injected decoded offset nonce' instanceId') :
    nonce = nonce' ∧ instanceId = instanceId' := by
  simp only [injected, List.append_assoc] at same
  have behind := List.append_cancel_left same
  obtain ⟨nonces, behind⟩ := List.append_inj behind rfl
  obtain ⟨ids, _⟩ := List.append_inj behind (instanceId.size.trans instanceId'.size.symm)
  refine ⟨leBytes_injective (List.reverse_injective nonces), ?_⟩
  cases instanceId
  cases instanceId'
  cases ids
  rfl

/-- The byte behind the instance id, and every byte outside the reserve, is that of the decoded
blob. -/
theorem injected_outside {offset : Nat} (room : offset + 8 ≤ decoded.length) (nonce : UInt32)
    (place : Nat) (outside : place < offset ∨ offset + 7 ≤ place) :
    (injected decoded offset nonce instanceId)[place]? = decoded[place]? := by
  have four : (leBytes nonce).reverse.length = 4 := rfl
  have three : instanceId.bytes.length = 3 := instanceId.size
  have untouched : (decoded.take offset).length = offset := List.length_take_of_le (by omega)
  rcases outside with before | behind
  · rw [injected, List.append_assoc, List.append_assoc,
      List.getElem?_append_left (by omega), List.getElem?_take_of_lt before]
  · have front : (decoded.take offset ++ (leBytes nonce).reverse ++ instanceId.bytes).length =
        offset + 7 := by
      rw [List.length_append, List.length_append, untouched, four, three]
    rw [injected, List.getElem?_append_right (by omega), front, List.getElem?_drop]
    apply congrArg (decoded[·]?)
    unfold extraNonceSize instanceIdSize
    omega

/-- The blobs of a job that was made from the template. -/
theorem withExtraNonce_of_new [CurrentCulture] {id : Int} {job : MoneroJob}
    (made : MoneroJob.new id (some template) instanceId = .ok job)
    (hex : hexToByteArray template.blob = .ok decoded)
    (room : template.reservedOffset.toNat + 8 ≤ decoded.length)
    (range : template.reservedOffset.toNat + 8 < 0x80000000) :
    job.blockTemplate = template ∧ job.blobTemplate.length = decoded.length ∧
      ∀ nonce, withExtraNonce job nonce =
        injected decoded template.reservedOffset.toNat nonce instanceId := by
  obtain ⟨same, _, prepared⟩ := MoneroJob.new_eq_ok made
  obtain ⟨nonceOffset, destOffset⟩ := offsets_of_range range
  cases Option.some.inj same
  obtain ⟨decoded', hex', _, _, blob⟩ := prepareBlobTemplate_eq_ok_iff.mp prepared
  cases Except.ok.inj (hex.symm.trans hex')
  rw [destOffset, Int.toNat_natCast, List.append_assoc] at blob
  generalize job.blockTemplate.reservedOffset.toNat = offset at *
  have front : (decoded.take (offset + 4)).length = offset + extraNonceSize := by
    rw [List.length_take]
    unfold extraNonceSize
    omega
  refine ⟨rfl, ?_, fun nonce => ?_⟩
  · rw [blob, List.length_append, front, List.length_append, instanceId.size, List.length_drop]
    unfold extraNonceSize instanceIdSize
    omega
  · rw [withExtraNonce, nonceOffset, Int.toNat_natCast, blob, take_drop_prepared front,
      List.take_take, injected, ← List.append_assoc, Nat.min_eq_left (Nat.le_add_right offset 4)]
    rfl

end Template

/-- **Blob injection.**  For every template whose blob decodes to at least the reserved offset and
eight bytes more, every instance id, every host and every pool: the job is made; and in every run of
calls of `EncodeBlob` for any extra nonces, whose steps may alternate with each other and with any
other use of the pool, the template stays as it was prepared, and each call that has been in
`ConvertBlob` has passed it the decoded blob, changed in the four bytes of the extra nonce and the
three of the instance id only; different ones give different blobs.  In every state that is reached
a call can begin, for every extra nonce and every array the pool chooses, and every call can come to
its end. -/
theorem blob_injection [CurrentCulture] (host : Host) (template : GetBlockTemplateResponse)
    (decoded : Bytes) (instanceId : InstanceId) (id : Int) (before : Memory)
    (hex : hexToByteArray template.blob = .ok decoded)
    (room : template.reservedOffset.toNat + 8 ≤ decoded.length)
    (range : template.reservedOffset.toNat + 8 < 0x80000000) :
    let offset := template.reservedOffset.toNat
    let step := step host template before.arrays.length
    (∃ job, MoneroJob.new id (some template) instanceId = .ok job ∧
      job.blobTemplate.length = decoded.length ∧
      ∀ schedule s, exec step (created before job) schedule = some s →
        s.memory.load before.arrays.length = job.blobTemplate ∧
        s.calls.map Call.workerExtraNonce = nonces schedule ∧
        (∀ call ∈ s.calls, call.read = if call.turn.isPast then
          some (injected decoded offset call.workerExtraNonce instanceId, decoded.length)
          else none) ∧
        (∀ choice nonce, Admits s.memory s.held decoded.length choice →
          ∃ s', step s (.encode choice nonce) = some s') ∧
        ∀ i call, s.calls[i]? = some call →
          ∃ s', exec step s (List.replicate call.turn.left (.next i)) = some s' ∧
            s'.calls[i]?.map Call.turn = some .ended) ∧
    (∀ nonce place, place < offset ∨ offset + 7 ≤ place →
      (injected decoded offset nonce instanceId)[place]? = decoded[place]?) ∧
    ∀ nonce nonce' instanceId', injected decoded offset nonce instanceId =
      injected decoded offset nonce' instanceId' → nonce = nonce' ∧ instanceId = instanceId' := by
  intro offset step
  obtain ⟨nonceOffset, destOffset⟩ := offsets_of_range range
  have constructible : MoneroJob.Constructible template := by
    refine ⟨decoded, hex, by omega, ?_⟩
    unfold instanceIdSize
    omega
  refine ⟨?_, fun nonce place => injected_outside room nonce place,
    fun nonce nonce' instanceId' => injected_injective⟩
  have constructed : ∃ job, MoneroJob.new id (some template) instanceId = .ok job :=
    MoneroJob.exists_new_iff.mpr constructible
  obtain ⟨job, made⟩ := constructed
  obtain ⟨same, length, blobs⟩ := withExtraNonce_of_new made hex room range
  refine ⟨job, made, length, fun schedule s run => ?_⟩
  have nonneg : 0 ≤ job.blockTemplate.nonceOffset := by
    rw [same]
    omega
  have isStep : step = BlobInjection.step host job.blockTemplate before.arrays.length := by
    rw [same]
  rw [isStep] at run ⊢
  obtain ⟨sound, calls⟩ := (sound_created before).run nonneg run
  refine ⟨sound.keeps.holds, calls, fun call member => ?_, fun choice nonce admitted => ?_,
    fun i call here => sound.exists_end nonneg here⟩
  · rw [sound.read_eq member, blobs, length]
  · exact sound.exists_encode (length ▸ admitted) nonce

section Samples

open OrdinalCulture

/-- A template with one byte behind the reserve. -/
def sampleTemplate : GetBlockTemplateResponse where
  blob := some (text "07079ccdc1d3053b0000000000000000ff")
  height := 1088295
  previousBlockhash := none
  reservedOffset := 8

/-- Two calls whose steps alternate, each on an array that the pool makes for it; somebody else
writes to the first when it is returned, and a third call gets it. -/
def sampleSchedule : List Label :=
  [.encode (.make (List.replicate 20 0xee)) 1, .next 0, .encode (.make (List.replicate 24 0xdd)) 2,
    .next 1, .next 0, .next 0, .next 1, .next 0, .elsewhere (.reuse 1) 4 (List.replicate 20 0xcc),
    .next 1, .encode (.reuse 1) 0x1020304, .next 2, .next 2, .next 2]

theorem blob_injection_sample :
    let host : Host := ⟨true, fun _ _ => none, fun _ => 0⟩
    ∃ job s, MoneroJob.new 1 (some sampleTemplate) ⟨[0xa, 0xb, 0xc], rfl⟩ = .ok job ∧
      exec (step host sampleTemplate 0) (created ⟨[], [], nofun⟩ job) sampleSchedule = some s ∧
      s.calls.map Call.workerExtraNonce = [1, 2, 0x1020304] ∧
      s.calls.map Call.turn = [.ended, .dispose, .dispose] ∧
      ∀ call ∈ s.calls, call.read = some
        ([7, 7, 0x9c, 0xcd, 0xc1, 0xd3, 5, 0x3b] ++ (leBytes call.workerExtraNonce).reverse ++
          [0xa, 0xb, 0xc, 0, 0xff], 17) := by
  intro host
  have hex : hexToByteArray sampleTemplate.blob =
      .ok [7, 7, 0x9c, 0xcd, 0xc1, 0xd3, 5, 0x3b, 0, 0, 0, 0, 0, 0, 0, 0, 0xff] := by
    decide +kernel
  obtain ⟨⟨job, made, _, runs⟩, _⟩ := blob_injection host sampleTemplate _
    ⟨[0xa, 0xb, 0xc], rfl⟩ 1 ⟨[], [], nofun⟩ hex (by decide) (by decide)
  have ran : ((MoneroJob.new 1 (some sampleTemplate) ⟨[0xa, 0xb, 0xc], rfl⟩).toOption.bind
      fun job => (exec (step host sampleTemplate 0) (created ⟨[], [], nofun⟩ job)
        sampleSchedule).map fun s => s.calls.map Call.turn) =
      some [.ended, .dispose, .dispose] := by
    decide +kernel
  rw [made] at ran
  obtain ⟨s, run, turns⟩ := Option.map_eq_some_iff.mp ran
  obtain ⟨_, calls, reads, _⟩ := runs _ s run
  refine ⟨job, s, made, run, calls, turns, fun call member => ?_⟩
  have past : call.turn.isPast = true := by
    have among : call.turn ∈ s.calls.map Call.turn := List.mem_map_of_mem member
    rw [turns] at among
    revert among
    cases call.turn <;> decide
  rw [reads call member, if_pos past]
  rfl

end Samples

end Hypepool.BlobInjection
