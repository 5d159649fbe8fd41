import Hypepool.Base.Effect

/-!
# The pieces of the .NET runtime the pool is written against

Exceptions by their kind, UTF-16 strings with the members of `System.String` the pool calls, the
bounds-checked array copies, and the rented arrays of `ArrayPool<byte>.Shared`.
-/

namespace Hypepool

/-- The kinds of exception the modelled code throws, lets through or catches. -/
inductive NetException
  | nullReference
  | argument
  | argumentOutOfRange
  | indexOutOfRange
  | arithmetic
  | invalidCast
  | notSupported
  | objectDisposed
  | httpRequest
  | daemon (statusCode : Nat)
  | jsonReader
  | jsonSerialization
  | poolStartupAborted (message : String)
  | other
  deriving DecidableEq

/-- Reading a member through a reference. -/
def deref {α : Type} : Option α → Except NetException α
  | some a => .ok a
  | none => .error .nullReference

/-- `(int)` of an integer outside a `checked` context: the value modulo 2^32, read as signed. -/
@[irreducible] def int32 (value : Int) : Int := (value + 0x80000000) % 0x100000000 - 0x80000000

theorem int32_of_range {value : Int} (lower : -0x80000000 ≤ value) (upper : value < 0x80000000) :
    int32 value = value := by
  unfold int32
  rw [Int.emod_eq_of_lt (by omega) (by omega)]
  omega

theorem int32_lt (value : Int) : int32 value < 0x80000000 := by
  unfold int32
  omega

theorem int32_of_wrap {value : Int} (lower : 0x80000000 ≤ value) (upper : value < 0x100000000) :
    int32 value = value - 0x100000000 := by
  unfold int32
  omega

/-- `(byte)` of an `int`. -/
def toByte (value : Int) : UInt8 := (value % 256).toNat.toUInt8

/-! ## Strings -/

/-- A .NET `char` is one UTF-16 code unit. -/
abbrev NetChar := UInt16

abbrev NetString := List NetChar

/-- A string literal of the source; all of them lie in the basic multilingual plane. -/
def text (literal : String) : NetString := literal.toList.map fun c => c.toNat.toUInt16

/-- `string.Substring(startIndex)`. -/
def substringFrom (s : NetString) (startIndex : Nat) : Except NetException NetString :=
  if startIndex ≤ s.length then .ok (s.drop startIndex) else .error .argumentOutOfRange

/-- `string.Substring(startIndex, length)`. -/
def substring (s : NetString) (startIndex length : Nat) : Except NetException NetString :=
  if startIndex + length ≤ s.length then .ok ((s.drop startIndex).take length)
  else .error .argumentOutOfRange

/-! ## Arrays -/

abbrev Bytes := List UInt8

/-- The bytes of an ASCII literal. -/
def ascii (literal : String) : Bytes := literal.toList.map fun c => c.toNat.toUInt8

/-- `Array.Copy(src, srcIndex, dst, dstIndex, length)`: the contents of `dst` afterwards. -/
def arrayCopy (src : Bytes) (srcIndex : Nat) (dst : Bytes) (dstIndex length : Nat) :
    Except NetException Bytes :=
  if srcIndex + length ≤ src.length ∧ dstIndex + length ≤ dst.length then
    .ok (dst.take dstIndex ++ (src.drop srcIndex).take length ++ dst.drop (dstIndex + length))
  else .error .argument

theorem arrayCopy_eq {src dst : Bytes} {srcIndex dstIndex length : Nat}
    (inSrc : srcIndex + length ≤ src.length) (inDst : dstIndex + length ≤ dst.length) :
    arrayCopy src srcIndex dst dstIndex length =
      .ok (dst.take dstIndex ++ (src.drop srcIndex).take length ++
        dst.drop (dstIndex + length)) := by
  rw [arrayCopy, if_pos ⟨inSrc, inDst⟩]

/-- `Buffer.BlockCopy` between byte arrays, where `dstOffset` is computed by the caller. -/
def blockCopy (src : Bytes) (srcOffset : Nat) (dst : Bytes) (dstOffset : Int) (count : Nat) :
    Except NetException Bytes :=
  if dstOffset < 0 then .error .argumentOutOfRange
  else arrayCopy src srcOffset dst dstOffset.toNat count

theorem blockCopy_eq_ok_iff {src dst result : Bytes} {srcOffset count : Nat} {dstOffset : Int} :
    blockCopy src srcOffset dst dstOffset count = .ok result ↔
      0 ≤ dstOffset ∧ srcOffset + count ≤ src.length ∧ dstOffset.toNat + count ≤ dst.length ∧
        result = dst.take dstOffset.toNat ++ (src.drop srcOffset).take count ++
          dst.drop (dstOffset.toNat + count) := by
  rw [blockCopy]
  split
  · rename_i negative
    have impossible : ¬ 0 ≤ dstOffset := by omega
    simp only [reduceCtorEq, impossible, false_and]
  · rename_i nonnegative
    have lower : 0 ≤ dstOffset := by omega
    rw [arrayCopy]
    split
    · rename_i room
      simp only [Except.ok.injEq, lower, room, true_and]
      exact eq_comm
    · rename_i none
      simp only [reduceCtorEq, lower, true_and, false_iff, not_and]
      intro inSrc inDst
      exact (none ⟨inSrc, inDst⟩).elim

/-- Bytes copied into an array that begins with `front`, within `front`. -/
theorem take_blockCopy {front stale bytes result : Bytes} {offset : Int}
    (copied : blockCopy bytes 0 (front ++ stale) offset bytes.length = .ok result)
    (room : 0 ≤ offset → offset.toNat + bytes.length ≤ front.length) :
    offset.toNat + bytes.length ≤ front.length ∧
      result.take front.length =
        front.take offset.toNat ++ bytes ++ front.drop (offset.toNat + bytes.length) := by
  obtain ⟨lower, _, _, rfl⟩ := blockCopy_eq_ok_iff.mp copied
  have inside := room lower
  have before : (front ++ stale).take offset.toNat = front.take offset.toNat :=
    List.take_append_of_le_length (by omega)
  have behind : (front ++ stale).drop (offset.toNat + bytes.length) =
      front.drop (offset.toNat + bytes.length) ++ stale :=
    List.drop_append_of_le_length inside
  refine ⟨inside, ?_⟩
  rw [before, behind, List.drop_zero, List.take_length, ← List.append_assoc]
  refine List.take_left' ?_
  simp only [List.length_append, List.length_take, List.length_drop]
  omega

/-- `Array.Clear(arr, index, length)`. -/
def arrayClear (arr : Bytes) (index length : Nat) : Bytes :=
  arr.take index ++ List.replicate length 0 ++ arr.drop (index + length)

/-- An array rented from `ArrayPool<byte>.Shared`: which rental it is, and its contents. -/
structure RentedArray where
  rental : Nat
  data : Bytes
  deriving DecidableEq

/-- What `ArrayPool<byte>.Shared` hands out: for each rental and requested size the stale contents
of an array that is large enough. -/
structure ArrayPool where
  stale : Nat → Nat → Bytes
  capacity : ∀ rental size, size ≤ (stale rental size).length

/-- What one call of `ArrayPool<byte>.Shared.Rent` hands out. -/
structure Rent where
  array : Nat → Bytes
  capacity : ∀ size, size ≤ (array size).length

end Hypepool
