import Hypepool.Base.SharedCell
import Hypepool.Monero.MoneroJob

/-!
# The extra nonces of concurrent `CreateWorkerJob` calls

The calls on one job share its field `extraNonce`, and `++extraNonce` reads and writes it in two
steps.  Everything else a call does with its nonce depends on the template alone.

* `createWorkerJob_refines`: a call that runs alone takes the two steps one after the other.
* `nonces_distinct_iff`: the calls draw different nonces, and so different blobs, exactly in the
  runs in which no call reads the field while another is between its two steps.
-/

namespace Hypepool.MoneroJob

open Base

/-- `++extraNonce`. -/
def increase (extraNonce : UInt32) : UInt32 := extraNonce + 1

/-- `calls` calls of `CreateWorkerJob` about to start on a job. -/
def callsOn (calls : Nat) (job : MoneroJob) : SharedCell (Fin calls) UInt32 :=
  { value := job.extraNonce }

/-- No two of the calls have built their worker job with the same extra nonce. -/
def DistinctNonces {calls : Nat} (s : SharedCell (Fin calls) UInt32) : Prop :=
  (s.obtained.map Prod.snd).Nodup

/-- No two of the calls pass equal blobs to `ConvertBlob`. -/
def DistinctBlobs {calls : Nat} (host : Host) (job : MoneroJob)
    (s : SharedCell (Fin calls) UInt32) : Prop :=
  ∀ call nonce call' nonce', (call, nonce) ∈ s.obtained → (call', nonce') ∈ s.obtained →
    call ≠ call' → ∀ rent rent' blob blob',
      blobWithExtraNonce host rent job nonce = .ok blob →
      blobWithExtraNonce host rent' job nonce' = .ok blob' →
      blob.take job.blobTemplate.length ≠ blob'.take job.blobTemplate.length

/-- A call without another one in between is a read followed by a write. -/
theorem createWorkerJob_refines {host : Host} {rent : Rent} {job job' : MoneroJob}
    {context : Option MoneroWorkerContext} {workerJob : MoneroWorkerJob}
    (created : (createWorkerJob host rent context).run job = .ok workerJob job') :
    ∃ s, exec (cellStep increase) (callsOn 1 job) [.read 0, .write 0] = some s ∧
      s.value = job'.extraNonce ∧ s.obtained = [(0, workerJob.extraNonce)] := by
  cases context with
  | none =>
      rw [run_createWorkerJob_none] at created
      cases created
  | some context =>
      rw [run_createWorkerJob] at created
      split at created
      · cases created
        exact ⟨_, rfl, rfl, rfl⟩
      · cases created
      · cases created

theorem iterate_increase (start : UInt32) (k : Nat) :
    (increase^[k] start).toNat = (start.toNat + k) % 0x100000000 := by
  induction k with
  | zero =>
      rw [Function.iterate_zero_apply, Nat.add_zero]
      exact (Nat.mod_eq_of_lt start.toNat_lt).symm
  | succ k ih =>
      have one : (1 : UInt32).toNat = 1 := rfl
      rw [Function.iterate_succ_apply', increase, UInt32.toNat_add, ih, one]
      omega

/-- Fewer than 2^32 increments of a field give different values. -/
theorem iterate_increase_ne {start : UInt32} {j k : Nat} (less : j < k) (few : k < 0x100000000) :
    increase^[j] start ≠ increase^[k] start := by
  intro same
  have values := congrArg UInt32.toNat same
  rw [iterate_increase, iterate_increase] at values
  omega

section Calls

variable {calls : Nat} {host : Host} {job : MoneroJob} {s : SharedCell (Fin calls) UInt32}

theorem distinctBlobs_of_distinctNonces (distinct : DistinctNonces s) :
    DistinctBlobs host job s := by
  intro call nonce call' nonce' member member' differs rent rent' blob blob' injected injected' same
  have equal : nonce = nonce' := nonce_eq_of_take_eq injected injected' same
  have pairs := List.inj_on_of_nodup_map distinct member member' equal
  exact differs (congrArg Prod.fst pairs)

end Calls

/-- **The search spaces of concurrent calls.**  In every run of fewer than 2^32 calls on a job in
which no call reads the field between the read and the write of another, the calls draw different
extra nonces and pass different blobs to `ConvertBlob`; and a run of calls that all ended drew
different nonces only if it was one of these. -/
theorem nonces_distinct_iff (host : Host) (job : MoneroJob) {calls : Nat}
    (few : calls < 0x100000000) {schedule : List (CellStep (Fin calls))}
    {s : SharedCell (Fin calls) UInt32}
    (run : exec (cellStep increase) (callsOn calls job) schedule = some s) :
    (Guarded (cellStep increase) Exclusive (callsOn calls job) schedule →
      DistinctNonces s ∧ DistinctBlobs host job s) ∧
    (Complete s → DistinctNonces s →
      Guarded (cellStep increase) Exclusive (callsOn calls job) schedule) := by
  refine ⟨fun exclusive => ?_, exclusive_of_nodup Sequential.initial run⟩
  have sequential := exclusive_run Sequential.initial exclusive run
  have distinct : DistinctNonces s := by
    refine sequential.nodup fun j k less bound => ?_
    rw [Fintype.card_fin] at bound
    exact iterate_increase_ne less (by omega)
  exact ⟨distinct, distinctBlobs_of_distinctNonces distinct⟩

/-- A job with sixteen bytes of blob. -/
def sampleJob : MoneroJob where
  id := 1
  blockTemplate := ⟨none, 1088295, none, 8⟩
  blobTemplate := List.replicate 16 0
  destOffset := by decide +kernel
  room := by decide +kernel

/-- Two calls, one after the other. -/
theorem nonces_distinct_in_turn :
    ∃ s, exec (cellStep increase) (callsOn 2 sampleJob) [.read 0, .write 0, .read 1, .write 1] =
        some s ∧ DistinctNonces s := by
  have exclusive : Guarded (cellStep increase) Exclusive (callsOn 2 sampleJob)
      [.read 0, .write 0, .read 1, .write 1] := by decide
  have run : exec (cellStep increase) (callsOn 2 sampleJob) [.read 0, .write 0, .read 1, .write 1] =
      some _ := rfl
  exact ⟨_, rfl, ((nonces_distinct_iff ⟨true, fun _ _ => none, fun _ => 0⟩ sampleJob (by decide)
    run).1 exclusive).1⟩

/-- What `Rent` hands out when it hands out exactly what was asked for. -/
def exactRent : Rent := ⟨fun size => List.replicate size 0, by simp⟩

/-- Two calls that both read before either writes build the same worker job, and pass the same blob
to `ConvertBlob`. -/
theorem nonces_equal_when_overlapping :
    ∃ s, exec (cellStep increase) (callsOn 2 sampleJob) [.read 0, .read 1, .write 0, .write 1] =
        some s ∧ ¬ DistinctNonces s ∧
      ∀ host, ¬ DistinctBlobs host sampleJob s := by
  refine ⟨_, rfl, by unfold DistinctNonces; decide, fun host distinct => ?_⟩
  have injected : ∃ blob, blobWithExtraNonce host exactRent sampleJob 1 = .ok blob := by
    rw [blobWithExtraNonce_eq]
    exact ⟨_, blockCopy_eq_ok_iff.mpr
      ⟨by decide +kernel, by decide +kernel, by decide +kernel, rfl⟩⟩
  rcases injected with ⟨blob, injected⟩
  exact distinct 0 1 1 1 (by decide) (by decide) (by decide) exactRent exactRent blob blob injected
    injected rfl

end Hypepool.MoneroJob
