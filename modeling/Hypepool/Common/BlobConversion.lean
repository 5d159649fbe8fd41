import Hypepool.Base.Ledger
import Hypepool.Common.LibCryptonote

/-!
# `LibCryptonote.ConvertBlob` and `convert_blob_export`

The two sides share one length: the capacity of the output buffer on entry, the length of the
hashing blob when the native side has one, and zero when it could not parse the block.  The C# side
tries a rented buffer first and rents a larger one when the blob does not fit; what it does to the
array pool is recorded in `log`.

* `convertBlob_returns_hashing_blob`: on every path the result is that of the plain conversion, and
  every rented buffer is returned once.
-/

namespace Hypepool.BlobConversion

open Base

/-- The native parser.  A hashing blob is a block header, a root hash and a number of transactions,
so it is not empty, and far from exceeding an `int`. -/
structure NativeParser where
  Block : Type
  parseAndValidateBlockFromBlob : Bytes → Option Block
  getBlockHashingBlob : Block → Bytes
  nonempty : ∀ block, getBlockHashingBlob block ≠ []
  fits : ∀ block, (getBlockHashingBlob block).length < 0x80000000

/-- What a call of `convert_blob_export` returns, and leaves in its output buffer and length. -/
structure Export where
  success : Bool
  output : Bytes
  outputSize : Nat

/-- `convert_blob_export` for the `inputSize` bytes at `input`.  The length is an `unsigned int`. -/
def convertBlobExport (parser : NativeParser) (input : Bytes) (output : Bytes)
    (outputSize : Nat) : Export :=
  let originalOutputSize := outputSize
  match parser.parseAndValidateBlockFromBlob input with
  | none => ⟨false, output, 0⟩
  | some block =>
      let result := parser.getBlockHashingBlob block
      let outputSize := result.length % 0x100000000
      if result.length > originalOutputSize then ⟨false, output, outputSize⟩
      else ⟨true, result ++ output.drop result.length, outputSize⟩

/-- How many arrays a call rented, the one in its variable `outputBuffer`, and what it did to the
pool. -/
structure Conversion where
  rentals : Nat := 0
  outputBuffer : RentedArray := ⟨0, []⟩
  log : List (Move Nat) := []

abbrev ConversionM := EStateM NetException Conversion

/-- `outputBuffer = ArrayPool<byte>.Shared.Rent(size)`. -/
def rentOutputBuffer (pool : ArrayPool) (size : Int) : ConversionM Unit :=
  if size < 0 then throw .argumentOutOfRange
  else modify fun c => { c with
    rentals := c.rentals + 1
    outputBuffer := ⟨c.rentals, pool.stale c.rentals size.toNat⟩
    log := c.log ++ [⟨.take, c.rentals⟩] }

/-- `ArrayPool<byte>.Shared.Return(outputBuffer)`. -/
def returnOutputBuffer : ConversionM Unit :=
  modify fun c => { c with log := c.log ++ [⟨.release, c.outputBuffer.rental⟩] }

/-- `convert_blob(input, size, output, ref outputBufferLength)`, with the output pinned.  Behind the
end of `data` the native side would read what is not its own. -/
def callConvertBlob (parser : NativeParser) (data : Bytes) (size : Nat) (outputBufferLength : Int) :
    ConversionM (Bool × Int) := do
  if data.length < size then throw .other
  let c ← get
  let returned := convertBlobExport parser (data.take size) c.outputBuffer.data
    outputBufferLength.toNat
  set { c with outputBuffer := { c.outputBuffer with data := returned.output } }
  return (returned.success, int32 returned.outputSize)

/-- `new byte[outputBufferLength]` and the copy into it. -/
def buildResult (outputBufferLength : Int) : ConversionM Bytes := do
  let c ← get
  Base.liftExcept (blockCopy c.outputBuffer.data 0 (List.replicate outputBufferLength.toNat 0) 0
    outputBufferLength.toNat)

/-- The `try` block. -/
def tryConvert (pool : ArrayPool) (parser : NativeParser) (data : Bytes) (size : Nat) :
    ConversionM (Option Bytes) := do
  let c ← get
  let (success, outputBufferLength) ←
    callConvertBlob parser data size c.outputBuffer.data.length
  if success then return some (← buildResult outputBufferLength)
  -- if we get false, the buffer might have been too small
  else if outputBufferLength = 0 then return none
  else do
    returnOutputBuffer
    rentOutputBuffer pool outputBufferLength
    let (success, outputBufferLength) ← callConvertBlob parser data size outputBufferLength
    if success then return some (← buildResult outputBufferLength)
    else return none

/-- `ConvertBlob(data, size)`. -/
def convertBlob (pool : ArrayPool) (parser : NativeParser) (data : Option Bytes) (size : Nat) :
    ConversionM (Option Bytes) :=
  match data with
  | none => throw .argument
  | some data =>
      if data.length > 0 then do
        rentOutputBuffer pool 0x100
        Base.andFinally (tryConvert pool parser data size) returnOutputBuffer
      else throw .argument

/-- The plain conversion: the hashing blob of the block parsed from the first `size` bytes. -/
def plainConversion (parser : NativeParser) (data : Bytes) (size : Nat) : Option Bytes :=
  (parser.parseAndValidateBlockFromBlob (data.take size)).map parser.getBlockHashingBlob

section Calls

variable {pool : ArrayPool} {parser : NativeParser} {data : Bytes} {size : Nat} {c : Conversion}

/-- The conversion after the array it rents next was put into `outputBuffer`. -/
def afterRent (pool : ArrayPool) (c : Conversion) (size : Nat) : Conversion :=
  { c with
    rentals := c.rentals + 1
    outputBuffer := ⟨c.rentals, pool.stale c.rentals size⟩
    log := c.log ++ [⟨.take, c.rentals⟩] }

theorem run_rentOutputBuffer (size : Nat) :
    (rentOutputBuffer pool size).run c = .ok () (afterRent pool c size) := by
  have nonneg : ¬ (size : Int) < 0 := by omega
  rw [rentOutputBuffer, if_neg nonneg, Int.toNat_natCast]
  rfl

theorem run_returnOutputBuffer :
    returnOutputBuffer.run c =
      .ok () { c with log := c.log ++ [⟨.release, c.outputBuffer.rental⟩] } := rfl

/-- A call within `data` runs the export on the first `size` bytes. -/
theorem run_callConvertBlob (inside : size ≤ data.length) (capacity : Nat) :
    (callConvertBlob parser data size capacity).run c =
      let returned := convertBlobExport parser (data.take size) c.outputBuffer.data capacity
      .ok (returned.success, int32 returned.outputSize)
        { c with outputBuffer := ⟨c.outputBuffer.rental, returned.output⟩ } := by
  have within : ¬ data.length < size := Nat.not_lt.mpr inside
  rw [callConvertBlob, if_neg within]
  rfl

theorem int32_zero : int32 (0 : Nat) = 0 := int32_of_range (by decide) (by decide)

/-- The length of a hashing blob survives the `unsigned int` and the `int`. -/
theorem int32_blobLength (block : parser.Block) :
    int32 ((parser.getBlockHashingBlob block).length % 0x100000000 : Nat) =
      (parser.getBlockHashingBlob block).length := by
  have fits := parser.fits block
  rw [Nat.mod_eq_of_lt (by omega)]
  exact int32_of_range (by omega) (by omega)

/-- A call that cannot parse the block. -/
theorem run_callConvertBlob_of_unparsed (inside : size ≤ data.length)
    (unparsed : parser.parseAndValidateBlockFromBlob (data.take size) = none) (capacity : Nat) :
    (callConvertBlob parser data size capacity).run c = .ok (false, 0) c := by
  rw [run_callConvertBlob inside]
  simp only [convertBlobExport, unparsed, int32_zero]

/-- A call whose output buffer is too small tells the length it takes. -/
theorem run_callConvertBlob_of_less {block : parser.Block} {capacity : Nat}
    (inside : size ≤ data.length)
    (parsed : parser.parseAndValidateBlockFromBlob (data.take size) = some block)
    (less : capacity < (parser.getBlockHashingBlob block).length) :
    (callConvertBlob parser data size capacity).run c =
      .ok (false, (parser.getBlockHashingBlob block).length) c := by
  rw [run_callConvertBlob inside]
  simp only [convertBlobExport, parsed, gt_iff_lt, less, if_true, int32_blobLength]

/-- A call whose output buffer is large enough writes the blob to its front. -/
theorem run_callConvertBlob_of_le {block : parser.Block} {capacity : Nat}
    (inside : size ≤ data.length)
    (parsed : parser.parseAndValidateBlockFromBlob (data.take size) = some block)
    (enough : (parser.getBlockHashingBlob block).length ≤ capacity) :
    (callConvertBlob parser data size capacity).run c =
      .ok (true, (parser.getBlockHashingBlob block).length)
        { c with outputBuffer := ⟨c.outputBuffer.rental, parser.getBlockHashingBlob block ++
          c.outputBuffer.data.drop (parser.getBlockHashingBlob block).length⟩ } := by
  have notLess : ¬ capacity < (parser.getBlockHashingBlob block).length :=
    Nat.not_lt.mpr enough
  rw [run_callConvertBlob inside]
  simp only [convertBlobExport, parsed, gt_iff_lt, notLess, if_false, int32_blobLength]

/-- The result is the front of the output buffer. -/
theorem run_buildResult {blob rest : Bytes} (written : c.outputBuffer.data = blob ++ rest) :
    (buildResult blob.length).run c = .ok blob c := by
  have copied : blockCopy c.outputBuffer.data 0 (List.replicate blob.length 0) 0 blob.length =
      .ok blob := by
    have room : (0 : Int).toNat + blob.length ≤ (List.replicate blob.length (0 : UInt8)).length :=
      Nat.le_of_eq ((Nat.zero_add _).trans List.length_replicate.symm)
    refine blockCopy_eq_ok_iff.mpr ⟨Int.le_refl 0, ?_, room, ?_⟩
    · rw [written, List.length_append]
      omega
    · have replaced : (List.replicate blob.length (0 : UInt8)).drop blob.length = [] :=
        List.drop_eq_nil_of_le (Nat.le_of_eq List.length_replicate)
      rw [written, List.drop_zero, List.take_left' rfl, Int.toNat_zero, List.take_zero,
        List.nil_append, Nat.zero_add, replaced, List.append_nil]
  rw [buildResult, run_bind_of_ok (EStateM.run_get c), Int.toNat_natCast, copied]
  rfl

/-- The `try` block, begun with a rented buffer: the result of the plain conversion; and of the
buffers rented since, all but the one it ends with were returned. -/
theorem run_tryConvert (pool : ArrayPool) (parser : NativeParser) (inside : size ≤ data.length) :
    ∃ after, (tryConvert pool parser data size).run c =
        .ok (plainConversion parser data size) after ∧
      ((after.rentals = c.rentals ∧ after.outputBuffer.rental = c.outputBuffer.rental ∧
          after.log = c.log) ∨
        (after.rentals = c.rentals + 1 ∧ after.outputBuffer.rental = c.rentals ∧
          after.log = c.log ++ [⟨.release, c.outputBuffer.rental⟩, ⟨.take, c.rentals⟩])) := by
  rw [tryConvert, run_bind_of_ok (EStateM.run_get c), plainConversion]
  cases parsed : parser.parseAndValidateBlockFromBlob (data.take size) with
  | none =>
      rw [run_bind_of_ok (run_callConvertBlob_of_unparsed inside parsed _)]
      exact ⟨c, rfl, Or.inl ⟨rfl, rfl, rfl⟩⟩
  | some block =>
      by_cases enough : (parser.getBlockHashingBlob block).length ≤ c.outputBuffer.data.length
      · rw [run_bind_of_ok (run_callConvertBlob_of_le inside parsed enough)]
        simp only [if_true]
        rw [run_bind_of_ok (run_buildResult rfl)]
        exact ⟨_, rfl, Or.inl ⟨rfl, rfl, rfl⟩⟩
      · have less := Nat.lt_of_not_le enough
        have nonzero : ¬ ((parser.getBlockHashingBlob block).length : Int) = 0 := by omega
        rw [run_bind_of_ok (run_callConvertBlob_of_less inside parsed less)]
        simp only [Bool.false_eq_true, if_false, nonzero]
        rw [run_bind_of_ok run_returnOutputBuffer, run_bind_of_ok (run_rentOutputBuffer _),
          run_bind_of_ok (run_callConvertBlob_of_le inside parsed (Nat.le_refl _))]
        simp only [if_true]
        rw [run_bind_of_ok (run_buildResult rfl)]
        refine ⟨_, rfl, Or.inr ⟨rfl, rfl, ?_⟩⟩
        simp only [afterRent, List.append_assoc, List.cons_append, List.nil_append]

/-- The whole call: its result, and what it did to the pool. -/
theorem run_convertBlob (pool : ArrayPool) (parser : NativeParser) (nonempty : data ≠ [])
    (inside : size ≤ data.length) :
    ∃ after, (convertBlob pool parser (some data) size).run {} =
        .ok (plainConversion parser data size) after ∧
      (after.rentals = 1 ∧ after.log = [⟨.take, 0⟩, ⟨.release, 0⟩] ∨
        after.rentals = 2 ∧
          after.log = [⟨.take, 0⟩, ⟨.release, 0⟩, ⟨.take, 1⟩, ⟨.release, 1⟩]) := by
  have more : data.length > 0 := List.length_pos_iff.mpr nonempty
  have rented : (rentOutputBuffer pool 0x100).run {} = .ok () (afterRent pool {} 0x100) :=
    run_rentOutputBuffer 0x100
  obtain ⟨between, body, disposed⟩ :=
    run_tryConvert (c := afterRent pool {} 0x100) pool parser inside
  rw [convertBlob, if_pos more, run_bind_of_ok rented,
    run_andFinally_of_ok body run_returnOutputBuffer]
  refine ⟨_, rfl, ?_⟩
  rcases disposed with ⟨rentals, current, log⟩ | ⟨rentals, current, log⟩
  · exact Or.inl ⟨rentals, by simp only [log, current]; rfl⟩
  · exact Or.inr ⟨rentals, by simp only [log, current]; rfl⟩

/-- What `LibCryptonote.convertBlob` takes the native library for. -/
theorem convertBlob_refines (pool : ArrayPool) (host : Host) (nonempty : data ≠ [])
    (inside : size ≤ data.length) (native : host.convertBlob = plainConversion parser) :
    ∃ result after, (convertBlob pool parser (some data) size).run {} = .ok result after ∧
      LibCryptonote.convertBlob host data size = .ok result := by
  obtain ⟨after, run, -⟩ := run_convertBlob pool parser nonempty inside
  refine ⟨_, after, run, ?_⟩
  rw [LibCryptonote.convertBlob, if_pos (List.length_pos_iff.mpr nonempty), native]

end Calls

/-- **The retrying conversion is the plain one.**  Whatever arrays the pool rents out, and however
long the hashing blob is, the call returns the hashing blob of the block parsed from the first
`size` bytes, or `null` when there is none; and each buffer it rented was returned once. -/
theorem convertBlob_returns_hashing_blob (pool : ArrayPool) (parser : NativeParser) {data : Bytes}
    {size : Nat} (nonempty : data ≠ []) (inside : size ≤ data.length) :
    ∃ after, (convertBlob pool parser (some data) size).run {} =
        .ok (plainConversion parser data size) after ∧
      ∃ ledger, exec Ledger.move Ledger.empty after.log = some ledger ∧
        ∀ rental < after.rentals, ledger rental = some .released ∧
          after.log.count ⟨.release, rental⟩ = 1 := by
  obtain ⟨after, run, ⟨rentals, log⟩ | ⟨rentals, log⟩⟩ :=
    run_convertBlob pool parser nonempty inside
  · refine ⟨after, run, ?_⟩
    rw [rentals, log]
    refine ⟨_, rfl, fun rental less => ?_⟩
    obtain rfl : rental = 0 := by omega
    exact ⟨rfl, rfl⟩
  · refine ⟨after, run, ?_⟩
    rw [rentals, log]
    refine ⟨_, rfl, fun rental less => ?_⟩
    obtain rfl | rfl : rental = 0 ∨ rental = 1 := by omega
    · exact ⟨rfl, rfl⟩
    · exact ⟨rfl, rfl⟩

/-- A blob too long for an array of the capacity first asked for. -/
def longBlob : Bytes := List.replicate 300 7

theorem length_longBlob : longBlob.length = 300 := List.length_replicate

/-- A parser that takes everything for a block. -/
def sampleParser : NativeParser where
  Block := Bytes
  parseAndValidateBlockFromBlob := some
  getBlockHashingBlob _ := longBlob
  nonempty _ := List.ne_nil_of_length_pos (by rw [length_longBlob]; decide)
  fits _ := by rw [length_longBlob]; decide

def samplePool : ArrayPool where
  stale _ size := List.replicate (size + 8) 0
  capacity _ size := by
    rw [List.length_replicate]
    exact Nat.le_add_right size 8

theorem convertBlob_retries :
    ∃ after, (convertBlob samplePool sampleParser (some [1, 2]) 1).run {} =
        .ok (some longBlob) after ∧
      ∃ ledger, exec Ledger.move Ledger.empty after.log = some ledger ∧
        ∀ rental < after.rentals, ledger rental = some .released ∧
          after.log.count ⟨.release, rental⟩ = 1 :=
  convertBlob_returns_hashing_blob samplePool sampleParser (by decide) (by decide)

end Hypepool.BlobConversion
