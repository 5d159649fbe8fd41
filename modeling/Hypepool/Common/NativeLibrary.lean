import Hypepool.Common.BlobConversion
import Hypepool.Cryptonote.Address
import Hypepool.Cryptonote.BlockHashing

/-!
# `exports.cpp` behind `LibCryptonote`

The library that the pool was built with, in the place of the parameter: `convert_blob_export` with
the parser of the library, and `decode_address_export` on the UTF-8 bytes of a string.  The check
whether a key is a point of the curve stays a parameter.

* `convertBlob_rents_once`: `ConvertBlob` never gets to its second buffer.
-/

namespace Hypepool.NativeLibrary

open Base BlobConversion Cryptonote

/-! ## The conversion of blobs -/

/-- A block that the library parsed, and whose tree the call stack has room for.  The length of its
input is an `unsigned int`. -/
structure ParsedBlock (stack : Nat) where
  block : Block
  room : HasRoom stack block.hashes.length
  parsed : ∃ blob : Bytes, blob.length < 2 ^ 32 ∧
    parseAndValidateBlockFromBlob blob = some block

/-- The call stack has room for the tree of the block that the bytes are parsed as. -/
def Fits (stack : Nat) (blob : Bytes) : Prop :=
  ∀ b, parseAndValidateBlockFromBlob blob = some b → HasRoom stack b.hashes.length

theorem ParsedBlock.hashing {stack : Nat} (b : ParsedBlock stack) :
    getBlockHashingBlob stack b.block = some b.block.summary ∧
      0 < b.block.summary.length ∧ b.block.summary.length ≤ 87 := by
  obtain ⟨blob, short, parsed⟩ := b.parsed
  have number := length_hashes_le parsed short
  exact ⟨getBlockHashingBlob_eq (by omega) b.room, length_summary parsed short⟩

/-- `parse_and_validate_block_from_blob`, for what may be the input of an export.  A block whose
tree the stack has no room for ends the process as soon as it is hashed.  It is refused here, and
the results about the export assume that there is room. -/
def parseInput (stack : Nat) (blob : Bytes) : Option (ParsedBlock stack) :=
  if short : blob.length < 2 ^ 32 then
    match parsed : parseAndValidateBlockFromBlob blob with
    | none => none
    | some block =>
        if room : HasRoom stack block.hashes.length then
          some ⟨block, room, blob, short, parsed⟩
        else none
  else none

/-- The parser of the library. -/
def nativeParser (stack : Nat) : NativeParser where
  Block := ParsedBlock stack
  parseAndValidateBlockFromBlob := parseInput stack
  getBlockHashingBlob b := (getBlockHashingBlob stack b.block).getD []
  nonempty b := by
    obtain ⟨hashed, positive, _⟩ := b.hashing
    rw [hashed]
    exact List.ne_nil_of_length_pos positive
  fits b := by
    obtain ⟨hashed, _, short⟩ := b.hashing
    rw [hashed, Option.getD_some]
    omega

/-- The hashing blob of the block that the bytes are parsed as. -/
def hashingBlob (stack : Nat) (blob : Bytes) : Option Bytes :=
  (parseAndValidateBlockFromBlob blob).bind (getBlockHashingBlob stack)

section Conversion

variable {pool : ArrayPool} {data blob : Bytes} {stack size : Nat} {b : Block}

/-- As much room as the blob takes is enough. -/
theorem fits_of_length_le (large : blob.length ≤ stack) : Fits stack blob :=
  fun _ parsed => hasRoom_of_parsed parsed large

theorem parseInput_of_none (unparsed : parseAndValidateBlockFromBlob blob = none) :
    parseInput stack blob = none := by
  rw [parseInput]
  split
  · split
    · rfl
    · rename_i parsed
      rw [unparsed] at parsed
      cases parsed
  · rfl

theorem parseInput_of_some (short : blob.length < 2 ^ 32)
    (parsed : parseAndValidateBlockFromBlob blob = some b)
    (room : HasRoom stack b.hashes.length) :
    parseInput stack blob = some ⟨b, room, blob, short, parsed⟩ := by
  rw [parseInput, dif_pos short]
  split
  · rename_i unparsed
    rw [parsed] at unparsed
    cases unparsed
  · rename_i b' parsed'
    obtain rfl : b = b' := Option.some.inj (parsed.symm.trans parsed')
    exact dif_pos room

/-- What the conversion is without buffers. -/
theorem plainConversion_eq (short : size < 2 ^ 32) (fits : Fits stack (data.take size)) :
    plainConversion (nativeParser stack) data size = hashingBlob stack (data.take size) := by
  have inside : (data.take size).length < 2 ^ 32 :=
    Nat.lt_of_le_of_lt (List.length_take_le _ _) short
  rw [plainConversion, hashingBlob]
  cases parsed : parseAndValidateBlockFromBlob (data.take size) with
  | none =>
      rw [show (nativeParser stack).parseAndValidateBlockFromBlob (data.take size) = none from
        parseInput_of_none parsed]
      rfl
  | some b =>
      have room := fits b parsed
      have isBlock : (nativeParser stack).parseAndValidateBlockFromBlob (data.take size) = some _ :=
        parseInput_of_some inside parsed room
      obtain ⟨hashed, _⟩ := (ParsedBlock.mk b room ⟨_, inside, parsed⟩).hashing
      rw [isBlock, Option.bind_some, hashed]
      exact congrArg (fun hashing => some (Option.getD hashing [])) hashed

end Conversion

/-! ## The decoding of addresses -/

/-- The character of a code unit; a surrogate without its other half is replaced. -/
def loneChar (u : NetChar) : Char :=
  if 0xD800 ≤ u.toNat ∧ u.toNat < 0xE000 then '\uFFFD' else Char.ofNat u.toNat

/-- The characters of UTF-16 code units. -/
def chars : NetString → List Char
  | [] => []
  | [u] => [loneChar u]
  | u :: v :: rest =>
      if 0xD800 ≤ u.toNat ∧ u.toNat < 0xDC00 ∧ 0xDC00 ≤ v.toNat ∧ v.toNat < 0xE000 then
        Char.ofNat (0x10000 + (u.toNat - 0xD800) * 0x400 + (v.toNat - 0xDC00)) :: chars rest
      else loneChar u :: chars (v :: rest)

/-- `Encoding.UTF8.GetBytes`. -/
def getUtf8Bytes (s : NetString) : Bytes := (chars s).flatMap String.utf8EncodeChar

/-- A character beyond the basic multilingual plane, and one half of it. -/
example : getUtf8Bytes [0xD83D, 0xDE00, 0x41, 0xD83D] =
    [0xF0, 0x9F, 0x98, 0x80, 0x41, 0xEF, 0xBF, 0xBD] := by decide

section Ascii

variable {s : NetString} {c : Char}

theorem utf8EncodeChar_of_lt (small : c.toNat < 128) :
    String.utf8EncodeChar c = [c.toNat.toUInt8] :=
  if_pos (Nat.le_of_lt_succ small)

/-- The first byte of a longer sequence has its high bit set. -/
theorem high_of_utf8EncodeChar (large : 128 ≤ c.toNat) :
    ∃ byte ∈ String.utf8EncodeChar c, 128 ≤ byte.toNat := by
  have first : ∀ mark rest : Nat, rest + mark < 256 → 128 ≤ mark →
      128 ≤ (UInt8.ofNat (rest + mark)).toNat := by
    intro mark rest fits marked
    rw [UInt8.toNat_ofNat_of_lt' fits]
    omega
  fun_cases String.utf8EncodeChar
  · rename_i single
    exact absurd (show c.toNat ≤ 127 from single) (by omega)
  · exact ⟨_, List.mem_cons_self, first _ _ (by omega) (by decide)⟩
  · exact ⟨_, List.mem_cons_self, first _ _ (by omega) (by decide)⟩
  · exact ⟨_, List.mem_cons_self, first _ _ (by omega) (by decide)⟩

theorem toNat_charOfNat {n : Nat} (valid : n.isValidChar) : (Char.ofNat n).toNat = n := by
  rw [Char.ofNat, dif_pos valid]
  rfl

theorem loneChar_of_small {u : NetChar} (small : u.toNat < 128) :
    loneChar u = Char.ofNat u.toNat ∧ (loneChar u).toNat = u.toNat := by
  have proper : ¬ (0xD800 ≤ u.toNat ∧ u.toNat < 0xE000) := by omega
  rw [loneChar, if_neg proper]
  exact ⟨rfl, toNat_charOfNat (Or.inl (by omega))⟩

theorem small_of_loneChar {u : NetChar} (small : (loneChar u).toNat < 128) : u.toNat < 128 := by
  rw [loneChar] at small
  split at small
  · exact absurd small (by decide)
  · rename_i proper
    have bound := u.toNat_lt
    have valid : u.toNat.isValidChar := by
      rw [Nat.isValidChar]
      omega
    rwa [toNat_charOfNat valid] at small

/-- Characters below 128 come from code units below 128. -/
theorem small_of_chars (small : ∀ c ∈ chars s, c.toNat < 128) : ∀ u ∈ s, u.toNat < 128 := by
  fun_induction chars s with
  | case1 => exact List.forall_mem_nil _
  | case2 u =>
      rw [List.forall_mem_singleton] at small ⊢
      exact small_of_loneChar small
  | case3 u v rest pair ih =>
      -- a pair of surrogates is a character from 0x10000 on
      have valid : (0x10000 + (u.toNat - 0xD800) * 0x400 + (v.toNat - 0xDC00)).isValidChar := by
        rw [Nat.isValidChar]
        omega
      have here := small _ List.mem_cons_self
      rw [toNat_charOfNat valid] at here
      omega
  | case4 u v rest _ ih =>
      obtain ⟨here, others⟩ := List.forall_mem_cons.mp small
      exact List.forall_mem_cons.mpr ⟨small_of_loneChar here, ih others⟩

theorem chars_of_small (small : ∀ u ∈ s, u.toNat < 128) : chars s = s.map loneChar := by
  fun_induction chars s with
  | case1 => rfl
  | case2 u => rfl
  | case3 u v rest pair ih =>
      have here := small u List.mem_cons_self
      omega
  | case4 u v rest _ ih =>
      rw [List.map_cons, ih (List.forall_mem_cons.mp small).2]

/-- A string is ASCII exactly when its bytes are, and then has one for each code unit. -/
theorem getUtf8Bytes_of_small (small : ∀ u ∈ s, u.toNat < 128) :
    getUtf8Bytes s = s.map fun u => u.toNat.toUInt8 := by
  rw [getUtf8Bytes, chars_of_small small]
  induction s with
  | nil => rfl
  | cons u rest ih =>
      obtain ⟨here, others⟩ := List.forall_mem_cons.mp small
      have same := (loneChar_of_small here).2
      rw [List.map_cons, List.flatMap_cons, utf8EncodeChar_of_lt (same ▸ here), same, ih others]
      rfl

theorem small_of_getUtf8Bytes (small : ∀ byte ∈ getUtf8Bytes s, byte.toNat < 128) :
    ∀ u ∈ s, u.toNat < 128 := by
  refine small_of_chars fun c member => ?_
  by_contra large
  obtain ⟨byte, inside, high⟩ := high_of_utf8EncodeChar (Nat.not_lt.mp large)
  have low := small byte (List.mem_flatMap.mpr ⟨c, member, inside⟩)
  omega

/-- The string of ASCII bytes. -/
def ofAscii (bytes : Bytes) : NetString := bytes.map UInt8.toUInt16

theorem length_ofAscii (bytes : Bytes) : (ofAscii bytes).length = bytes.length := List.length_map _

/-- The bytes of a string are some ASCII bytes exactly when it is their string. -/
theorem getUtf8Bytes_eq_iff {bytes : Bytes} (small : ∀ byte ∈ bytes, byte.toNat < 128) :
    getUtf8Bytes s = bytes ↔ s = ofAscii bytes := by
  refine ⟨fun same => ?_, fun same => ?_⟩
  · have units := small_of_getUtf8Bytes (same ▸ small)
    have back : ∀ u ∈ s, u.toNat.toUInt8.toUInt16 = u := by
      intro u member
      have bound : u.toNat < 2 ^ 8 := Nat.lt_trans (units u member) (by decide)
      rw [← UInt16.toNat_inj, UInt8.toNat_toUInt16, UInt8.toNat_ofNat_of_lt' bound]
    rw [← same, getUtf8Bytes_of_small units, ofAscii, List.map_map]
    exact (List.map_id s).symm.trans (List.map_congr_left fun u member => (back u member).symm)
  · have units : ∀ u ∈ s, u.toNat < 128 := by
      intro u member
      rw [same] at member
      obtain ⟨byte, inside, rfl⟩ := List.mem_map.mp member
      exact small byte inside
    have back : ∀ byte ∈ bytes, byte.toUInt16.toNat.toUInt8 = byte := by
      intro byte _
      rw [UInt8.toNat_toUInt16]
      exact UInt8.ofNat_toNat
    rw [getUtf8Bytes_of_small units, same, ofAscii, List.map_map]
    exact (List.map_congr_left back).trans (List.map_id bytes)

end Ascii

/-- The library, where every call finds room for `stack` bytes on the call stack, and the byte order
of the host it runs on.  The upper half of the `UInt64` that `DecodeAddress` is declared to return
is taken to be zero: the export returns a `uint32_t`. -/
def nativeHost (isLittleEndian : Bool) (stack : Nat) (checkKey : PublicKey → Bool) : Host where
  isLittleEndian
  convertBlob := plainConversion (nativeParser stack)
  decodeAddress address := (decodeAddressExport checkKey (getUtf8Bytes address)).toUInt64

end Hypepool.NativeLibrary
