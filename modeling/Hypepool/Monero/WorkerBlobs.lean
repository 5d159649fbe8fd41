import Hypepool.Common.NativeLibrary
import Hypepool.Monero.BlobInjection

/-!
# What a worker is given to hash

A daemon's template is the blob of a block, with a reserve in the extra field of the miner's
transaction, where it may be changed.  The extra nonce and the instance id that `EncodeBlob` and
`PrepareBlobTemplate` write there leave it the blob of a block, and the native library makes its
hashing blob.

* `encodeBlob_native`: a worker gets the hashing blob of the template's block with the extra nonce
  and the instance id in its extra field.
* `workers_differ`: workers with different ones get different blobs, or a collision was found.
* `converted_run`: so it is in every run of calls that share a job and an array pool, also of calls
  that overlap.
-/

namespace Hypepool.BlobInjection

open Base Cryptonote NativeLibrary MoneroConstants

/-- The template is the blob of the block, and its reserve of eight bytes lies in the extra
field. -/
structure Reserves [CurrentCulture] (template : GetBlockTemplateResponse) (b : Block) : Prop where
  hex : hexToByteArray template.blob = .ok (blockToBlob b)
  parsed : parseAndValidateBlockFromBlob (blockToBlob b) = some b
  isArray : (blockToBlob b).length < 0x80000000
  lower : b.extraOffset ≤ template.reservedOffset.toNat
  upper : template.reservedOffset.toNat + 8 ≤ b.extraOffset + b.minerTx.extra.length

/-- The extra field with the extra nonce and the instance id. -/
def workerExtra (template : GetBlockTemplateResponse) (b : Block) (nonce : UInt32)
    (instanceId : InstanceId) : Bytes :=
  injected b.minerTx.extra (template.reservedOffset.toNat - b.extraOffset) nonce instanceId

/-- The block a worker hashes for. -/
def workerBlock (template : GetBlockTemplateResponse) (b : Block) (nonce : UInt32)
    (instanceId : InstanceId) : Block :=
  b.withExtra (workerExtra template b nonce instanceId)

section Extra

variable {before extra after : Bytes} {offset : Nat} {nonce nonce' : UInt32}
  {instanceId instanceId' : InstanceId} {template : GetBlockTemplateResponse} {b : Block}

theorem length_injected (room : offset + 7 ≤ extra.length) :
    (injected extra offset nonce instanceId).length = extra.length := by
  have four : (leBytes nonce).reverse.length = 4 := rfl
  have three : instanceId.bytes.length = 3 := instanceId.size
  simp only [injected, List.length_append, List.length_take, List.length_drop, four, three,
    extraNonceSize, instanceIdSize]
  omega

/-- What is written within the middle of a blob leaves its ends. -/
theorem injected_append (room : offset + 7 ≤ extra.length) :
    injected (before ++ extra ++ after) (before.length + offset) nonce instanceId =
      before ++ injected extra offset nonce instanceId ++ after := by
  have front : (before ++ extra ++ after).take (before.length + offset) =
      before ++ extra.take offset := by
    rw [List.append_assoc, List.take_length_add_append,
      List.take_append_of_le_length (by omega)]
  have back : (before ++ extra ++ after).drop (before.length + offset + 4 + 3) =
      extra.drop (offset + 4 + 3) ++ after := by
    rw [List.append_assoc, Nat.add_assoc, Nat.add_assoc, List.drop_length_add_append,
      List.drop_append_of_le_length (by omega), Nat.add_assoc]
  simp only [injected, extraNonceSize, instanceIdSize]
  rw [front, back]
  simp only [List.append_assoc]

theorem withExtra_injective {extra' : Bytes} (same : b.withExtra extra = b.withExtra extra') :
    extra = extra' := congrArg (fun b : Block => b.minerTx.extra) same

theorem length_hashes_workerBlock :
    (workerBlock template b nonce instanceId).hashes.length = b.hashes.length := by
  rw [Block.length_hashes, Block.length_hashes]
  rfl

variable [CurrentCulture]

/-- The bytes that go to the native library are the blob of a worker's block. -/
theorem parse_injected (reserves : Reserves template b) (nonce : UInt32)
    (instanceId : InstanceId) :
    parseAndValidateBlockFromBlob
        (injected (blockToBlob b) template.reservedOffset.toNat nonce instanceId) =
      some (workerBlock template b nonce instanceId) := by
  obtain ⟨before, after, start, each⟩ := blockToBlob_withExtra reserves.parsed
  have lower := reserves.lower
  have upper := reserves.upper
  have own : blockToBlob b = before ++ b.minerTx.extra ++ after := (each b.minerTx.extra rfl).1
  obtain ⟨offset, place⟩ := Nat.exists_eq_add_of_le lower
  have room : offset + 7 ≤ b.minerTx.extra.length := by omega
  have isOffset : template.reservedOffset.toNat - b.extraOffset = offset := by omega
  have loaded := (each (injected b.minerTx.extra offset nonce instanceId)
    (length_injected room)).2 []
  rw [List.append_nil, if_pos rfl] at loaded
  rw [place, ← start, own, injected_append room, loaded, workerBlock, workerExtra, isOffset]

theorem extraOffset_le (reserves : Reserves template b) :
    template.reservedOffset.toNat + 8 ≤ (blockToBlob b).length := by
  obtain ⟨before, after, start, each⟩ := blockToBlob_withExtra reserves.parsed
  have own : blockToBlob b = before ++ b.minerTx.extra ++ after := (each b.minerTx.extra rfl).1
  have upper := reserves.upper
  rw [own, List.length_append, List.length_append]
  omega

/-- The worker's block has a hashing blob, where the call stack has room for its tree. -/
theorem hashing_of_workerBlock {stack : Nat} (reserves : Reserves template b)
    (room : HasRoom stack b.hashes.length) (nonce : UInt32) (instanceId : InstanceId) :
    ∃ hashing, getBlockHashingBlob stack (workerBlock template b nonce instanceId) =
      some hashing := by
  have isArray := reserves.isArray
  have inside := extraOffset_le reserves
  have length := @length_injected (blockToBlob b) template.reservedOffset.toNat nonce instanceId
    (by omega)
  have number := length_hashes_le (parse_injected reserves nonce instanceId) (by omega)
  refine ⟨_, getBlockHashingBlob_eq (Nat.le_trans number (by decide)) ?_⟩
  rw [length_hashes_workerBlock]
  exact room

end Extra

section Workers

variable [CurrentCulture] {isLittleEndian : Bool} {stack : Nat} {checkKey : PublicKey → Bool}
  {rent rent' : Rent} {template : GetBlockTemplateResponse} {b : Block} {job job' : MoneroJob}
  {id id' : Int} {instanceId instanceId' : InstanceId} {nonce nonce' : UInt32} {data : Bytes}

/-- `ConvertBlob` on an array that begins with a worker's blob. -/
theorem convertBlob_native (reserves : Reserves template b) (room : HasRoom stack b.hashes.length)
    (front : data.take (blockToBlob b).length =
      injected (blockToBlob b) template.reservedOffset.toNat nonce instanceId) :
    LibCryptonote.convertBlob (nativeHost isLittleEndian stack checkKey) data
        (blockToBlob b).length =
      .ok (getBlockHashingBlob stack (workerBlock template b nonce instanceId)) := by
  have isArray := reserves.isArray
  have inside := extraOffset_le reserves
  have length := @length_injected (blockToBlob b) template.reservedOffset.toNat nonce instanceId
    (by omega)
  have more : data.length > 0 := by
    have taken := List.length_take_le (blockToBlob b).length data
    rw [← front, List.length_take] at length
    omega
  have parsed := parse_injected reserves nonce instanceId
  have fits : Fits stack (data.take (blockToBlob b).length) := by
    rw [front]
    intro b' parsed'
    rw [← Option.some.inj (parsed.symm.trans parsed'), length_hashes_workerBlock]
    exact room
  have native : (nativeHost isLittleEndian stack checkKey).convertBlob data
      (blockToBlob b).length = hashingBlob stack (data.take (blockToBlob b).length) :=
    plainConversion_eq (by omega) fits
  rw [LibCryptonote.convertBlob, if_pos more, native, front, hashingBlob,
    parsed, Option.bind_some]

/-- What is known of a job that was made of such a template. -/
theorem job_of_reserves (reserves : Reserves template b)
    (made : MoneroJob.new id (some template) instanceId = .ok job) :
    0 ≤ job.blockTemplate.nonceOffset ∧ job.blockTemplate = template ∧
      job.blobTemplate.length = (blockToBlob b).length ∧
      ∀ nonce, withExtraNonce job nonce =
        injected (blockToBlob b) template.reservedOffset.toNat nonce instanceId := by
  have inside := extraOffset_le reserves
  have range : template.reservedOffset.toNat + 8 < 0x80000000 :=
    Nat.lt_of_le_of_lt inside reserves.isArray
  obtain ⟨same, length, blobs⟩ := withExtraNonce_of_new made reserves.hex inside range
  refine ⟨?_, same, length, blobs⟩
  rw [same, (offsets_of_range range).1]
  exact Int.natCast_nonneg _

/-- `EncodeBlob` for a job of such a template. -/
theorem encodeBlob_of_reserves (reserves : Reserves template b)
    (room : HasRoom stack b.hashes.length)
    (made : MoneroJob.new id (some template) instanceId = .ok job) (rent : Rent)
    (nonce : UInt32) :
    MoneroJob.encodeBlob (nativeHost isLittleEndian stack checkKey) rent job nonce =
      .ok (toHexString (getBlockHashingBlob stack (workerBlock template b nonce instanceId))) := by
  obtain ⟨nonneg, _, length, blobs⟩ := job_of_reserves reserves made
  obtain ⟨data, encoded⟩ := exists_blobWithExtraNonce
    (nativeHost isLittleEndian stack checkKey) rent nonneg nonce
  have front : data.take (blockToBlob b).length =
      injected (blockToBlob b) template.reservedOffset.toNat nonce instanceId := by
    rw [← blobs, ← length]
    exact (MoneroJob.take_blobWithExtraNonce encoded).2
  rw [MoneroJob.encodeBlob, encoded, Base.ok_bind, length,
    convertBlob_native reserves room front]
  rfl

theorem exists_job (reserves : Reserves template b) (id : Int) (instanceId : InstanceId) :
    ∃ job, MoneroJob.new id (some template) instanceId = .ok job := by
  have inside := extraOffset_le reserves
  have range : template.reservedOffset.toNat + 8 < 0x80000000 :=
    Nat.lt_of_le_of_lt inside reserves.isArray
  refine MoneroJob.exists_new_iff.mpr ⟨_, reserves.hex, ?_, ?_⟩
  · rw [(offsets_of_range range).2]
    exact Int.natCast_nonneg _
  · rw [(offsets_of_range range).2, Int.toNat_natCast]
    unfold instanceIdSize
    omega

/-- **What a worker gets.**  For every template with its reserve in the extra field, every instance
id, every array the pool rents out and every extra nonce, the job is made; and where the call stack
has room for the tree over the block's transactions, `EncodeBlob` gives the hashing blob of the
template's block in whose extra field stand the extra nonce, most significant byte first, and the
instance id. -/
theorem encodeBlob_native (reserves : Reserves template b) (room : HasRoom stack b.hashes.length)
    (id : Int) (instanceId : InstanceId) :
    ∃ job, MoneroJob.new id (some template) instanceId = .ok job ∧
      ∀ rent nonce, ∃ hashing,
        getBlockHashingBlob stack (workerBlock template b nonce instanceId) = some hashing ∧
        MoneroJob.encodeBlob (nativeHost isLittleEndian stack checkKey) rent job nonce =
          .ok (toHexString (some hashing)) := by
  obtain ⟨job, made⟩ := exists_job reserves id instanceId
  refine ⟨job, made, fun rent nonce => ?_⟩
  obtain ⟨hashing, hashed⟩ := hashing_of_workerBlock reserves room nonce instanceId
  exact ⟨hashing, hashed, hashed ▸ encodeBlob_of_reserves reserves room made rent nonce⟩

/-- **Workers do not share work.**  Two jobs of one template, for whatever instance ids: where the
extra nonce or the instance id differs, the blobs the workers get, where the call stack has room for
the tree, are different, or two different messages that were hashed for them have one hash. -/
theorem workers_differ (reserves : Reserves template b) (room : HasRoom stack b.hashes.length)
    (made : MoneroJob.new id (some template) instanceId = .ok job)
    (made' : MoneroJob.new id' (some template) instanceId' = .ok job')
    (differs : (nonce, instanceId) ≠ (nonce', instanceId')) :
    MoneroJob.encodeBlob (nativeHost isLittleEndian stack checkKey) rent job nonce ≠
        MoneroJob.encodeBlob (nativeHost isLittleEndian stack checkKey) rent' job' nonce' ∨
      Collides cnFastHash (workerBlock template b nonce instanceId).messages
        (workerBlock template b nonce' instanceId').messages := by
  rw [encodeBlob_of_reserves reserves room made, encodeBlob_of_reserves reserves room made']
  obtain ⟨hashing, hashed⟩ := hashing_of_workerBlock reserves room nonce instanceId
  obtain ⟨hashing', hashed'⟩ := hashing_of_workerBlock reserves room nonce' instanceId'
  rw [hashed, hashed']
  by_cases same : hashing = hashing'
  · have loaded := loaded_of_parsed (parse_injected reserves nonce instanceId)
    have loaded' := loaded_of_parsed (parse_injected reserves nonce' instanceId')
    rcases block_eq_or_collides loaded loaded' rfl hashed (same ▸ hashed') with equal | collides
    · obtain ⟨sameNonce, sameId⟩ := injected_injective (withExtra_injective equal)
      exact (differs (by rw [sameNonce, sameId])).elim
    · exact Or.inr collides
  · refine Or.inl fun equal => same (toHexString_injective ?_)
    injection equal

/-! ## Runs of calls on a job -/

/-- **Shared arrays.**  In every run of calls of `EncodeBlob` on a job of such a template, whose
steps may alternate with each other and with any other use of the pool, each call that has been in
`ConvertBlob` got there, where the call stack has room for the tree, the hashing blob for its own
extra nonce; and in every state that is reached a call can begin, and every call can come to its
end. -/
theorem converted_run (reserves : Reserves template b) (room : HasRoom stack b.hashes.length)
    (id : Int) (instanceId : InstanceId) (before : Memory) :
    let host := nativeHost isLittleEndian stack checkKey
    let step := step host template before.arrays.length
    ∃ job, MoneroJob.new id (some template) instanceId = .ok job ∧
      ∀ schedule s, exec step (created before job) schedule = some s →
        s.calls.map Call.workerExtraNonce = nonces schedule ∧
        (∀ call ∈ s.calls, call.turn.isPast → ∃ data size hashing,
          call.passed = some (data, size) ∧
          getBlockHashingBlob stack (workerBlock template b call.workerExtraNonce instanceId) =
            some hashing ∧
          LibCryptonote.convertBlob host data size = .ok (some hashing)) ∧
        (∀ choice nonce, Admits s.memory s.held job.blobTemplate.length choice →
          ∃ s', step s (.encode choice nonce) = some s') ∧
        ∀ i call, s.calls[i]? = some call →
          ∃ s', exec step s (List.replicate call.turn.left (.next i)) = some s' ∧
            s'.calls[i]?.map Call.turn = some .ended := by
  intro host step
  obtain ⟨job, made⟩ := exists_job reserves id instanceId
  obtain ⟨nonneg, same, length, blobs⟩ := job_of_reserves reserves made
  refine ⟨job, made, fun schedule s run => ?_⟩
  have isStep : step = BlobInjection.step host job.blockTemplate before.arrays.length := by
    rw [same]
  rw [isStep] at run ⊢
  obtain ⟨sound, calls⟩ := (sound_created before).run nonneg run
  refine ⟨calls, fun call member past => ?_, fun choice nonce admitted =>
    sound.exists_encode admitted nonce, fun i call here => sound.exists_end nonneg here⟩
  have read := sound.read_eq member
  rw [if_pos past] at read
  obtain ⟨⟨data, size⟩, passed, isRead⟩ := Option.map_eq_some_iff.mp read
  injection isRead with front isSize
  obtain rfl : (blockToBlob b).length = size := length.symm.trans isSize.symm
  rw [blobs] at front
  obtain ⟨hashing, hashed⟩ :=
    hashing_of_workerBlock reserves room call.workerExtraNonce instanceId
  refine ⟨data, _, hashing, passed, hashed, ?_⟩
  rw [← hashed]
  exact convertBlob_native reserves room front

end Workers

section Samples

open OrdinalCulture

def reserveTemplate : GetBlockTemplateResponse where
  blob := some (toHexString (some minedBlob))
  height := 100
  previousBlockhash := none
  reservedOffset := 82

theorem reserves_sample : ∃ b, Reserves reserveTemplate b ∧ b.hashes.length = 3 := by
  obtain ⟨b, parsed, back, start, own, _, _, others⟩ := parsed_minedBlob
  refine ⟨b, ⟨?_, back.symm ▸ parsed, ?_, ?_, ?_⟩, congrArg Nat.succ others⟩
  · rw [back]
    decide +kernel
  · rw [back]
    decide +kernel
  · rw [start]
    decide
  · rw [start, own]
    decide

theorem encodeBlob_native_sample : ∃ b, Reserves reserveTemplate b ∧ ∃ job hashing,
    MoneroJob.new 1 (some reserveTemplate) ⟨[0xa, 0xb, 0xc], rfl⟩ = .ok job ∧
    getBlockHashingBlob 64 (workerBlock reserveTemplate b 1 ⟨[0xa, 0xb, 0xc], rfl⟩) =
      some hashing ∧
    MoneroJob.encodeBlob (nativeHost true 64 fun _ => true) (rentOf []) job 1 =
      .ok (toHexString (some hashing)) := by
  obtain ⟨b, reserves, number⟩ := reserves_sample
  have room : HasRoom 64 b.hashes.length := number ▸ by decide
  obtain ⟨job, made, encodes⟩ := encodeBlob_native reserves room 1 ⟨[0xa, 0xb, 0xc], rfl⟩
  obtain ⟨hashing, hashed, encoded⟩ := encodes (rentOf []) 1
  exact ⟨b, reserves, job, hashing, made, hashed, encoded⟩

/-- Two extra nonces of one job. -/
theorem workers_differ_sample : ∃ b, Reserves reserveTemplate b ∧ ∃ job,
    MoneroJob.new 1 (some reserveTemplate) ⟨[0xa, 0xb, 0xc], rfl⟩ = .ok job ∧
    (MoneroJob.encodeBlob (nativeHost true 64 fun _ => true) (rentOf []) job 1 ≠
        MoneroJob.encodeBlob (nativeHost true 64 fun _ => true) (rentOf []) job 2 ∨
      Collides cnFastHash (workerBlock reserveTemplate b 1 ⟨[0xa, 0xb, 0xc], rfl⟩).messages
        (workerBlock reserveTemplate b 2 ⟨[0xa, 0xb, 0xc], rfl⟩).messages) := by
  obtain ⟨b, reserves, number⟩ := reserves_sample
  have room : HasRoom 64 b.hashes.length := number ▸ by decide
  obtain ⟨job, made⟩ := exists_job reserves 1 ⟨[0xa, 0xb, 0xc], rfl⟩
  exact ⟨b, reserves, job, made, workers_differ reserves room made made (by decide)⟩

/-- Two calls whose steps alternate, with somebody else's bytes in the array of the first before a
third gets it. -/
def overlapping : List Label :=
  [.encode (.make (List.replicate 200 0xee)) 1, .encode (.make (List.replicate 160 0xee)) 2,
    .next 0, .next 1, .next 1, .next 0, .next 0, .next 0, .next 1,
    .elsewhere (.reuse 1) 200 (List.replicate 200 0xdd), .encode (.reuse 1) 3, .next 2, .next 2,
    .next 2]

theorem converted_run_sample : ∃ b, Reserves reserveTemplate b ∧ ∃ job s,
    MoneroJob.new 1 (some reserveTemplate) ⟨[0xa, 0xb, 0xc], rfl⟩ = .ok job ∧
    exec (step (nativeHost true 64 fun _ => true) reserveTemplate 0)
      (created ⟨[], [], nofun⟩ job) overlapping = some s ∧
    s.calls.map Call.workerExtraNonce = [1, 2, 3] ∧
    ∀ call ∈ s.calls, ∃ data size hashing, call.passed = some (data, size) ∧
      getBlockHashingBlob 64
        (workerBlock reserveTemplate b call.workerExtraNonce ⟨[0xa, 0xb, 0xc], rfl⟩) =
          some hashing ∧
      LibCryptonote.convertBlob (nativeHost true 64 fun _ => true) data size =
        .ok (some hashing) := by
  obtain ⟨b, reserves, number⟩ := reserves_sample
  have room : HasRoom 64 b.hashes.length := number ▸ by decide
  obtain ⟨job, made, runs⟩ := @converted_run _ true 64 (fun _ => true) _ _ reserves room 1
    ⟨[0xa, 0xb, 0xc], rfl⟩ ⟨[], [], nofun⟩
  have ran : ((MoneroJob.new 1 (some reserveTemplate) ⟨[0xa, 0xb, 0xc], rfl⟩).toOption.bind
      fun job => (exec (step (nativeHost true 64 fun _ => true) reserveTemplate 0)
        (created ⟨[], [], nofun⟩ job) overlapping).map fun s => s.calls.map Call.turn) =
      some [.ended, .dispose, .dispose] := by
    decide +kernel
  rw [made] at ran
  obtain ⟨s, run, turns⟩ := Option.map_eq_some_iff.mp ran
  obtain ⟨calls, converted, _⟩ := runs _ s run
  refine ⟨b, reserves, job, s, made, run, calls, fun call member => converted call member ?_⟩
  have among : call.turn ∈ s.calls.map Call.turn := List.mem_map_of_mem member
  rw [turns] at among
  revert among
  cases call.turn <;> decide

end Samples

end Hypepool.BlobInjection
