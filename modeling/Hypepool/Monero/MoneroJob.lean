import Hypepool.Base.Effect
import Hypepool.Common.Hex
import Hypepool.Common.JobCounter
import Hypepool.Common.LibCryptonote
import Hypepool.Monero.MoneroWorker
import Hypepool.Net.BitConverter

/-!
# `MoneroJob`

A job is a block template of the daemon with the pool's instance id written into its blob.  A
`MoneroJob` carries the fact its constructor established, that the instance id lies within the
blob.  `CreateWorkerJob` draws a worker job id and an extra nonce from the job and writes the nonce
into a copy of the blob.
-/

namespace Hypepool

namespace MoneroConstants

def addressLength : Nat := 95

def instanceIdSize : Nat := 3

def extraNonceSize : Nat := 4

/-- `BigInteger("FF…FF", 16)`, 32 bytes of ones. -/
def diff1 : Int :=
  0xFFFFFFFFFFFFFFFFFFFFFFFFFFFFFFFFFFFFFFFFFFFFFFFFFFFFFFFFFFFFFFFF

end MoneroConstants

open MoneroConstants

/-- The fields of `GetBlockTemplateResponse` the pool reads. -/
structure GetBlockTemplateResponse where
  blob : Option NetString
  height : UInt32
  previousBlockhash : Option NetString
  reservedOffset : UInt32
  deriving DecidableEq

/-- The random instance id of a job manager. -/
structure InstanceId where
  bytes : Bytes
  size : bytes.length = instanceIdSize
  deriving DecidableEq

/-- `(int)ReservedOffset`, where the extra nonce goes. -/
def GetBlockTemplateResponse.nonceOffset (template : GetBlockTemplateResponse) : Int :=
  int32 template.reservedOffset.toNat

/-- `destOffset` of `PrepareBlobTemplate`, in `int` arithmetic. -/
def GetBlockTemplateResponse.destOffset (template : GetBlockTemplateResponse) : Int :=
  int32 (template.nonceOffset + extraNonceSize)

/-- `PrepareBlobTemplate`: the blob with the instance id behind the room for the extra nonce. -/
def prepareBlobTemplate [CurrentCulture] (template : GetBlockTemplateResponse)
    (instanceId : InstanceId) : Except NetException Bytes := do
  let blobTemplate ← hexToByteArray template.blob
  blockCopy instanceId.bytes 0 blobTemplate template.destOffset instanceIdSize

theorem prepareBlobTemplate_eq_ok_iff [CurrentCulture] {template : GetBlockTemplateResponse}
    {instanceId : InstanceId} {blob : Bytes} :
    prepareBlobTemplate template instanceId = .ok blob ↔
      ∃ decoded, hexToByteArray template.blob = .ok decoded ∧
        0 ≤ template.destOffset ∧
        template.destOffset.toNat + instanceIdSize ≤ decoded.length ∧
        blob = decoded.take template.destOffset.toNat ++ instanceId.bytes ++
          decoded.drop (template.destOffset.toNat + instanceIdSize) := by
  rw [prepareBlobTemplate]
  cases hexToByteArray template.blob with
  | error exception => simp only [Base.error_bind, reduceCtorEq, false_and, exists_false]
  | ok decoded =>
      have whole : (instanceId.bytes.drop 0).take instanceIdSize = instanceId.bytes := by
        rw [List.drop_zero, ← instanceId.size, List.take_length]
      rw [Base.ok_bind, blockCopy_eq_ok_iff, whole]
      simp only [Nat.zero_add, instanceId.size, Nat.le_refl, true_and, Except.ok.injEq,
        exists_eq_left']

/-- What a prepared blob says about the bounds of the instance id. -/
theorem prepareBlobTemplate_bounds [CurrentCulture] {template : GetBlockTemplateResponse}
    {instanceId : InstanceId} {blob : Bytes}
    (prepared : prepareBlobTemplate template instanceId = .ok blob) :
    0 ≤ template.destOffset ∧
      template.destOffset.toNat + instanceIdSize ≤ blob.length := by
  obtain ⟨decoded, _, lower, room, rfl⟩ := prepareBlobTemplate_eq_ok_iff.mp prepared
  generalize template.destOffset.toNat = offset at room ⊢
  refine ⟨lower, ?_⟩
  simp only [List.length_append, List.length_take, List.length_drop, instanceId.size]
  omega

/-- A job, with the bounds of the instance id in its blob. -/
structure MoneroJob where
  id : Int
  blockTemplate : GetBlockTemplateResponse
  blobTemplate : Bytes
  extraNonce : UInt32 := 0
  workerJobCounter : JobCounter := {}
  destOffset : 0 ≤ blockTemplate.destOffset
  room : blockTemplate.destOffset.toNat + instanceIdSize ≤ blobTemplate.length
  deriving DecidableEq

namespace MoneroJob

/-- The constructor of `MoneroJob`. -/
def new [CurrentCulture] (id : Int) (blockTemplate : Option GetBlockTemplateResponse)
    (instanceId : InstanceId) : Except NetException MoneroJob :=
  match blockTemplate with
  | none => .error .nullReference
  | some blockTemplate =>
      match prepared : prepareBlobTemplate blockTemplate instanceId with
      | .error exception => .error exception
      | .ok blobTemplate =>
          .ok {
            id, blockTemplate, blobTemplate
            destOffset := (prepareBlobTemplate_bounds prepared).1
            room := (prepareBlobTemplate_bounds prepared).2 }

/-- The blob of a template decodes to enough bytes for the constructor to succeed. -/
def Constructible [CurrentCulture] (template : GetBlockTemplateResponse) : Prop :=
  ∃ decoded, hexToByteArray template.blob = .ok decoded ∧ 0 ≤ template.destOffset ∧
    template.destOffset.toNat + instanceIdSize ≤ decoded.length

instance [CurrentCulture] (template : GetBlockTemplateResponse) :
    Decidable (Constructible template) :=
  match hex : hexToByteArray template.blob with
  | .error _ => isFalse fun ⟨_, decoded, _⟩ => nomatch hex.symm.trans decoded
  | .ok blob =>
      decidable_of_iff
        (0 ≤ template.destOffset ∧ template.destOffset.toNat + instanceIdSize ≤ blob.length)
        ⟨fun bounds => ⟨blob, hex, bounds⟩, fun ⟨_, decoded, bounds⟩ =>
          Except.ok.inj (decoded.symm.trans hex) ▸ bounds⟩

theorem new_eq_ok [CurrentCulture] {id : Int} {blockTemplate : Option GetBlockTemplateResponse}
    {instanceId : InstanceId} {job : MoneroJob} (made : new id blockTemplate instanceId = .ok job) :
    blockTemplate = some job.blockTemplate ∧ job.id = id ∧
      prepareBlobTemplate job.blockTemplate instanceId = .ok job.blobTemplate := by
  cases blockTemplate with
  | none => cases made
  | some blockTemplate =>
      unfold new at made
      simp only at made
      split at made
      · cases made
      · rename_i prepared
        cases made
        exact ⟨rfl, rfl, prepared⟩

/-- Whether the constructor succeeds depends on the template alone. -/
theorem exists_new_iff [CurrentCulture] {id : Int} {template : GetBlockTemplateResponse}
    {instanceId : InstanceId} :
    (∃ job, new id (some template) instanceId = .ok job) ↔ Constructible template := by
  constructor
  · intro both
    rcases both with ⟨job, made⟩
    obtain ⟨same, _, prepared⟩ := new_eq_ok made
    obtain ⟨decoded, hex, lower, room, _⟩ := prepareBlobTemplate_eq_ok_iff.mp prepared
    cases same
    exact ⟨decoded, hex, lower, room⟩
  · intro both
    rcases both with ⟨decoded, hex, lower, room⟩
    have prepared : prepareBlobTemplate template instanceId = .ok _ :=
      prepareBlobTemplate_eq_ok_iff.mpr ⟨decoded, hex, lower, room, rfl⟩
    unfold new
    simp only
    split
    · rename_i failed
      rw [prepared] at failed
      cases failed
    · exact ⟨_, rfl⟩

/-! ## Worker jobs -/

section WorkerJobs

variable (host : Host) (rent : Rent) (job : MoneroJob)

/-- The array `EncodeBlob` passes to `ConvertBlob`: a copy of the template with the extra nonce at
the beginning of the reserved area. -/
def blobWithExtraNonce (workerExtraNonce : UInt32) : Except NetException Bytes := do
  let size := job.blobTemplate.length
  let blob ← blockCopy job.blobTemplate 0 (rent.array size) 0 size
  let extraNonceBytes := getBytes host.isLittleEndian
    (toBigEndian host.isLittleEndian workerExtraNonce)
  blockCopy extraNonceBytes 0 blob job.blockTemplate.nonceOffset extraNonceBytes.length

/-- `EncodeBlob`. -/
def encodeBlob (workerExtraNonce : UInt32) : Except NetException NetString := do
  let blob ← blobWithExtraNonce host rent job workerExtraNonce
  return toHexString (← LibCryptonote.convertBlob host blob job.blobTemplate.length)

/-- `BigInteger.ToByteArray`: the shortest two's complement, most significant byte first. -/
def toByteArray (value : Int) : Bytes :=
  let magnitude := if 0 ≤ value then value.toNat else (-value - 1).toNat
  let size := (if magnitude = 0 then 0 else magnitude.log2 + 1) / 8 + 1
  (List.range size).reverse.map fun place => toByte (Int.shiftRight value (8 * place))

/-- `EncodeTarget`, from `(long)(difficulty * 255)`. -/
def encodeTarget (diff : Int) : Except NetException NetString := do
  let quotient ← if diff = 0 then .error .arithmetic else .ok (diff1.tdiv diff * 255)
  let bytes := toByteArray quotient
  let padded := List.replicate 32 (0 : UInt8)
  let padded ←
    if 0 < (padded.length : Int) - bytes.length then
      blockCopy bytes 0 padded (padded.length - bytes.length) bytes.length
    else .ok padded
  return toHexString (some (padded.take 4).reverse)

/-- `CreateWorkerJob` for a client with the given context.  What it encodes is dropped: the source
returns `null`, so that only the counters it moves and its failures are seen. -/
def createWorkerJob (context : Option MoneroWorkerContext) :
    EStateM NetException MoneroJob MoneroWorkerJob := do
  let job ← get
  let (workerJobId, workerJobCounter) := job.workerJobCounter.getNext
  set { job with workerJobCounter := workerJobCounter }
  let context ← Base.liftExcept (deref context)
  modify fun job => { job with extraNonce := job.extraNonce + 1 }
  let workerJob : MoneroWorkerJob :=
    ⟨workerJobId, job.blockTemplate.height, context.difficulty, (← get).extraNonce⟩
  let _blob ← Base.liftExcept (encodeBlob host rent job workerJob.extraNonce)
  let _target ← Base.liftExcept (encodeTarget workerJob.difficulty)
  return workerJob

/-- The job after a call has drawn its worker job id and its extra nonce. -/
def drawn : MoneroJob :=
  { job with
    workerJobCounter := job.workerJobCounter.getNext.2
    extraNonce := job.extraNonce + 1 }

/-- The worker job a call builds from what it drew. -/
def workerJobFor (context : MoneroWorkerContext) : MoneroWorkerJob :=
  ⟨job.workerJobCounter.getNext.1, job.blockTemplate.height, context.difficulty,
    job.extraNonce + 1⟩

/-- A client with a context draws an id and a nonce, whether or not the encoding succeeds. -/
theorem run_createWorkerJob (context : MoneroWorkerContext) :
    (createWorkerJob host rent (some context)).run job =
      match encodeBlob host rent job (job.extraNonce + 1), encodeTarget context.difficulty with
      | .ok _, .ok _ => .ok (job.workerJobFor context) job.drawn
      | .ok _, .error exception => .error exception job.drawn
      | .error exception, _ => .error exception job.drawn := by
  unfold createWorkerJob
  rw [Base.run_bind_of_ok (EStateM.run_get job), Base.run_bind_of_ok (EStateM.run_set _ _), deref,
    Base.run_bind_of_ok Base.run_liftExcept_ok, Base.run_bind_of_ok (EStateM.run_modify _ _),
    Base.run_bind_of_ok (EStateM.run_get _)]
  cases blob : encodeBlob host rent job (job.extraNonce + 1) with
  | error exception =>
      simp only [blob]
      exact Base.run_bind_of_error Base.run_liftExcept_error
  | ok hex =>
      simp only [blob]
      rw [Base.run_bind_of_ok Base.run_liftExcept_ok]
      cases encodeTarget context.difficulty with
      | error exception => exact Base.run_bind_of_error Base.run_liftExcept_error
      | ok target => rfl

/-- A client without a context costs the job a worker job id only. -/
theorem run_createWorkerJob_none :
    (createWorkerJob host rent none).run job = .error .nullReference
      { job with workerJobCounter := job.workerJobCounter.getNext.2 } := rfl

end WorkerJobs

/-! ## The blob of an extra nonce -/

section Blob

variable {host : Host} {rent : Rent} {job : MoneroJob} {nonce : UInt32} {blob : Bytes}

/-- Where the extra nonce goes, the instance id behind it fits as well. -/
theorem reserved_of_nonneg (job : MoneroJob) (nonneg : 0 ≤ job.blockTemplate.nonceOffset) :
    job.blockTemplate.nonceOffset.toNat + extraNonceSize + instanceIdSize ≤
      job.blobTemplate.length := by
  have lower := job.destOffset
  have room := job.room
  have bound : job.blockTemplate.nonceOffset < 0x80000000 := int32_lt _
  unfold GetBlockTemplateResponse.destOffset extraNonceSize at lower room
  unfold extraNonceSize
  generalize job.blockTemplate.nonceOffset = offset at *
  by_cases near : offset + (4 : Nat) < 0x80000000
  · rw [int32_of_range (by omega) near] at room
    omega
  · have wrapped := int32_of_wrap (by omega : 0x80000000 ≤ offset + (4 : Nat)) (by omega)
    omega

/-- `EncodeBlob` writes the nonce, most significant byte first, over a copy of the template. -/
theorem blobWithExtraNonce_eq :
    blobWithExtraNonce host rent job nonce =
      blockCopy (leBytes nonce).reverse 0
        (job.blobTemplate ++
          (rent.array job.blobTemplate.length).drop job.blobTemplate.length)
        job.blockTemplate.nonceOffset (leBytes nonce).reverse.length := by
  have capacity := rent.capacity job.blobTemplate.length
  have copied : blockCopy job.blobTemplate 0 (rent.array job.blobTemplate.length) 0
      job.blobTemplate.length = .ok (job.blobTemplate ++
        (rent.array job.blobTemplate.length).drop job.blobTemplate.length) := by
    refine blockCopy_eq_ok_iff.mpr ⟨Int.le_refl 0, by omega, ?_, ?_⟩
    · rw [Int.toNat_zero]
      omega
    · rw [Int.toNat_zero, List.take_zero, List.drop_zero, List.take_length, List.nil_append,
        Nat.zero_add]
  rw [blobWithExtraNonce, getBytes_toBigEndian]
  simp only [copied]
  exact Base.ok_bind _ _

/-- What `ConvertBlob` gets to read. -/
theorem take_blobWithExtraNonce
    (injected : blobWithExtraNonce host rent job nonce = .ok blob) :
    job.blockTemplate.nonceOffset.toNat + extraNonceSize ≤ job.blobTemplate.length ∧
      blob.take job.blobTemplate.length =
        job.blobTemplate.take job.blockTemplate.nonceOffset.toNat ++ (leBytes nonce).reverse ++
          job.blobTemplate.drop (job.blockTemplate.nonceOffset.toNat + extraNonceSize) := by
  rw [blobWithExtraNonce_eq] at injected
  refine take_blockCopy injected fun nonneg => ?_
  have reserved := reserved_of_nonneg job nonneg
  exact Nat.le_trans (Nat.le_add_right _ _) reserved

/-- Equal blobs hold equal nonces. -/
theorem nonce_eq_of_take_eq {rent' : Rent} {nonce' : UInt32} {blob' : Bytes}
    (injected : blobWithExtraNonce host rent job nonce = .ok blob)
    (injected' : blobWithExtraNonce host rent' job nonce' = .ok blob')
    (same : blob.take job.blobTemplate.length = blob'.take job.blobTemplate.length) :
    nonce = nonce' := by
  obtain ⟨room, shape⟩ := take_blobWithExtraNonce injected
  obtain ⟨_, shape'⟩ := take_blobWithExtraNonce injected'
  rw [shape, shape', List.append_assoc, List.append_assoc] at same
  have tails := List.append_cancel_left same
  have nonces := (List.append_inj tails rfl).1
  exact leBytes_injective (List.reverse_injective nonces)

end Blob

end MoneroJob

end Hypepool
