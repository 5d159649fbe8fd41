import Hypepool.Cryptonote.Base58
import Hypepool.Cryptonote.Keccak

/-!
# Addresses

An address is a tag, the two public keys of an account, and the first bytes of their hash, in
Base58.  `decode_address_export` gives the tag of an address, and zero for what is not one.

* `decodeAddressExport_eq_iff`: the strings it answers with a tag are the addresses under this tag.
-/

namespace Hypepool.Cryptonote

open Base

structure AccountPublicAddress where
  mSpendPublicKey : PublicKey
  mViewPublicKey : PublicKey
  deriving DecidableEq, Inhabited

/-- `account_public_address::do_serialize`. -/
def AccountPublicAddress.serialize (W : Bool) (v : AccountPublicAddress) :
    BinaryArchive AccountPublicAddress := do
  let mSpendPublicKey ← serializeBlob W v.mSpendPublicKey
  let mViewPublicKey ← serializeBlob W v.mViewPublicKey
  return ⟨mSpendPublicKey, mViewPublicKey⟩

namespace Base58

def addrChecksumSize : Nat := 4

/-- `encode_addr`. -/
def encodeAddr (tag : UInt64) (data : Bytes) : Option Bytes :=
  let buf := writeVarint tag.toNat ++ data
  encode (buf ++ (cnFastHash buf).val.take addrChecksumSize)

/-- `decode_addr`: the tag and the data, where it returns true. -/
def decodeAddr (addr : Bytes) : Option (UInt64 × Bytes) := do
  let addrData ← decode addr
  if addrData.length ≤ addrChecksumSize then none
  else
    let checksum := addrData.drop (addrData.length - addrChecksumSize)
    let addrData := addrData.take (addrData.length - addrChecksumSize)
    let expectedChecksum := (cnFastHash addrData).val.take addrChecksumSize
    if expectedChecksum ≠ checksum then none
    else
      let tag := readVarint 64 addrData
      if tag.read ≤ 0 then none
      else some (UInt64.ofNat tag.write, addrData.drop tag.read.toNat)

end Base58

/-- `get_account_address_as_str`. -/
def getAccountAddressAsStr (addressPrefix : UInt64)
    (adr : AccountPublicAddress) : Option Bytes :=
  Base58.encodeAddr addressPrefix (dumpBinary (adr.serialize true))

/-- `decode_address_export` for the bytes at `input`. -/
def decodeAddressExport (checkKey : PublicKey → Bool) (input : Bytes) : UInt32 :=
  match Base58.decodeAddr input with
  | none => 0
  | some (addressPrefix, data) =>
      if data.length = 0 then 0
      else
        match parseBinary (AccountPublicAddress.serialize false default) data with
        | none => 0
        | some adr =>
            if !checkKey adr.mSpendPublicKey || !checkKey adr.mViewPublicKey then 0
            else addressPrefix.toUInt32

section Codec

variable {checkKey : PublicKey → Bool} {addr data : Bytes} {tag : UInt64}

namespace Base58

theorem decodeAddr_of_encodeAddr (encoded : encodeAddr tag data = some addr) :
    decodeAddr addr = some (tag, data) := by
  obtain ⟨buf, isBuf⟩ : ∃ buf, buf = writeVarint tag.toNat ++ data := ⟨_, rfl⟩
  obtain ⟨checksum, isChecksum⟩ : ∃ checksum,
    checksum = (cnFastHash buf).val.take addrChecksumSize := ⟨_, rfl⟩
  have length : checksum.length = addrChecksumSize := by
    rw [isChecksum, List.length_take_of_le]
    rw [(cnFastHash buf).property]
    decide
  have nonempty := writeVarint_length_pos tag.toNat
  have bufLength : 0 < buf.length := by
    rw [isBuf, List.length_append]
    omega
  rw [encodeAddr, ← isBuf, ← isChecksum] at encoded
  have front : (buf ++ checksum).length - addrChecksumSize = buf.length := by
    rw [List.length_append, length, Nat.add_sub_cancel]
  have long : ¬ (buf ++ checksum).length ≤ addrChecksumSize := by
    rw [List.length_append, length]
    omega
  have read := readVarint_writeVarint tag.toNat_lt data
  have positive : ¬ ((writeVarint tag.toNat).length : Int) ≤ 0 := by omega
  rw [decodeAddr, decode_of_encode encoded, Option.bind_eq_bind, Option.bind_some, if_neg long,
    front, List.drop_left, List.take_left]
  dsimp only
  rw [if_neg (not_not_intro isChecksum.symm), isBuf, read, if_neg positive, UInt64.ofNat_toNat,
    Int.toNat_natCast, List.drop_left]

/-- What is decoded to data was encoded from it; only a tag that ends with the address may be
written otherwise. -/
theorem encodeAddr_of_decodeAddr (nonempty : data ≠ [])
    (decoded : decodeAddr addr = some (tag, data)) :
    encodeAddr tag data = some addr := by
  rw [decodeAddr] at decoded
  obtain ⟨addrData, decodedLetters, decoded⟩ := Option.bind_eq_some_iff.mp decoded
  split at decoded
  · cases decoded
  dsimp only at decoded
  obtain ⟨buf, isBuf⟩ : ∃ buf, buf = addrData.take (addrData.length - addrChecksumSize) := ⟨_, rfl⟩
  rw [← isBuf] at decoded
  split at decoded
  · cases decoded
  rename_i sum
  have checksum := Decidable.not_not.mp sum
  split at decoded
  · cases decoded
  rename_i positive
  injection decoded with decoded
  injection decoded with isTag isData
  rcases @readVarint_cases 64 buf (by omega) with
    ⟨value, rest, fits, isWritten, read⟩ | ⟨read, _⟩
  · rw [read] at isTag isData
    have toNat : tag.toNat = value := by
      rw [← isTag]
      exact UInt64.toNat_ofNat_of_lt' fits
    rw [Int.toNat_natCast, isWritten, List.drop_left] at isData
    rw [encodeAddr, toNat, ← isData, ← isWritten, checksum, isBuf, List.take_append_drop]
    exact encode_of_decode decodedLetters
  · rw [read, Int.toNat_natCast, List.drop_length] at isData
    exact (nonempty isData.symm).elim

end Base58

/-! ## The keys -/

/-- The bytes of an account are its two keys. -/
def AccountPublicAddress.keys (adr : AccountPublicAddress) : Bytes :=
  adr.mSpendPublicKey.val ++ adr.mViewPublicKey.val

theorem agree_accountPublicAddress (adr init : AccountPublicAddress) :
    Agree (adr.serialize true) (init.serialize false) adr adr.keys := by
  rw [AccountPublicAddress.serialize, AccountPublicAddress.serialize, AccountPublicAddress.keys,
    ← List.append_nil adr.mViewPublicKey.val]
  refine agree_bind (agree_serializeBlob _ _) ?_
  exact agree_bind (agree_serializeBlob _ _) agree_pure

theorem dumpBinary_accountPublicAddress (adr : AccountPublicAddress) :
    dumpBinary (adr.serialize true) = adr.keys :=
  dumpBinary_of_agree (agree_accountPublicAddress adr default)

theorem length_keys (adr : AccountPublicAddress) : adr.keys.length = 64 := by
  rw [AccountPublicAddress.keys, List.length_append, adr.mSpendPublicKey.property,
    adr.mViewPublicKey.property]

/-- Nothing but the keys of an account is parsed as one. -/
theorem parseBinary_accountPublicAddress_iff {adr : AccountPublicAddress} :
    parseBinary (AccountPublicAddress.serialize false default) data = some adr ↔
      data = adr.keys := by
  refine ⟨fun parsed => ?_, fun same => ?_⟩
  · rw [parseBinary_eq_some_iff, AccountPublicAddress.serialize] at parsed
    obtain ⟨spend, between, first, parsed⟩ := of_run_bind_ok parsed
    obtain ⟨view, left, second, parsed⟩ := of_run_bind_ok parsed
    injection parsed with isAdr isLeft
    rw [input_of_serializeBlob first, input_of_serializeBlob second, isLeft, ← isAdr,
      List.append_nil]
    rfl
  · rw [same]
    exact parseBinary_of_agree (agree_accountPublicAddress adr default)

/-! ## The export -/

/-- An account both of whose keys are points of the curve. -/
def AccountPublicAddress.Checked (checkKey : PublicKey → Bool) (adr : AccountPublicAddress) :
    Prop :=
  checkKey adr.mSpendPublicKey = true ∧ checkKey adr.mViewPublicKey = true

theorem getAccountAddressAsStr_eq (adr : AccountPublicAddress) :
    getAccountAddressAsStr tag adr = Base58.encodeAddr tag adr.keys := by
  rw [getAccountAddressAsStr, dumpBinary_accountPublicAddress]

/-- The export of a string that is the address of a checked account, and of one that is not. -/
theorem decodeAddressExport_of_address {adr : AccountPublicAddress}
    (checked : adr.Checked checkKey) (address : getAccountAddressAsStr tag adr = some addr) :
    decodeAddressExport checkKey addr = tag.toUInt32 := by
  rw [getAccountAddressAsStr_eq] at address
  have length : ¬ adr.keys.length = 0 := by
    rw [length_keys]
    decide
  have parsed : parseBinary (AccountPublicAddress.serialize false default) adr.keys = some adr :=
    parseBinary_accountPublicAddress_iff.mpr rfl
  rw [decodeAddressExport, Base58.decodeAddr_of_encodeAddr address]
  dsimp only
  rw [if_neg length, parsed]
  dsimp only
  rw [checked.1, checked.2]
  rfl

theorem address_of_decodeAddressExport (nonzero : decodeAddressExport checkKey addr ≠ 0) :
    ∃ tag adr, adr.Checked checkKey ∧ getAccountAddressAsStr tag adr = some addr := by
  rw [decodeAddressExport] at nonzero
  split at nonzero
  · exact (nonzero rfl).elim
  rename_i tag data decoded
  split at nonzero
  · exact (nonzero rfl).elim
  rename_i nonempty
  split at nonzero
  · exact (nonzero rfl).elim
  rename_i adr parsed
  split at nonzero
  · exact (nonzero rfl).elim
  rename_i checked
  rw [parseBinary_accountPublicAddress_iff] at parsed
  refine ⟨tag, adr, by simpa [AccountPublicAddress.Checked] using checked, ?_⟩
  rw [getAccountAddressAsStr_eq, ← parsed]
  refine Base58.encodeAddr_of_decodeAddr (fun empty => nonempty ?_) decoded
  rw [empty, List.length_nil]

theorem keys_inj {adr adr' : AccountPublicAddress} (same : adr.keys = adr'.keys) : adr = adr' := by
  have spend : adr.mSpendPublicKey.val.length = adr'.mSpendPublicKey.val.length := by
    rw [adr.mSpendPublicKey.property, adr'.mSpendPublicKey.property]
  obtain ⟨sameSpend, sameView⟩ := List.append_inj same spend
  cases adr
  cases adr'
  congr
  · exact Subtype.ext sameSpend
  · exact Subtype.ext sameView

/-- One string is not the address of two accounts, nor under two tags. -/
theorem address_inj {tag' : UInt64} {adr adr' : AccountPublicAddress}
    (first : getAccountAddressAsStr tag adr = some addr)
    (second : getAccountAddressAsStr tag' adr' = some addr) : tag = tag' ∧ adr = adr' := by
  rw [getAccountAddressAsStr_eq] at first second
  have decoded := Base58.decodeAddr_of_encodeAddr first
  rw [Base58.decodeAddr_of_encodeAddr second, Option.some.injEq, Prod.mk.injEq] at decoded
  exact ⟨decoded.1.symm, keys_inj decoded.2.symm⟩

theorem decoded_of_address {adr : AccountPublicAddress}
    (address : getAccountAddressAsStr tag adr = some addr) :
    ∃ addrData, Base58.encode addrData = some addr ∧
      addrData.length = (writeVarint tag.toNat).length + 68 := by
  rw [getAccountAddressAsStr_eq] at address
  refine ⟨_, address, ?_⟩
  rw [List.length_append, List.length_append, length_keys, List.length_take_of_le]
  · rfl
  · rw [(cnFastHash _).property]
    decide

theorem ascii_of_address {adr : AccountPublicAddress}
    (address : getAccountAddressAsStr tag adr = some addr) : ∀ byte ∈ addr, byte.toNat < 128 := by
  obtain ⟨_, encoded, _⟩ := decoded_of_address address
  exact Base58.ascii_of_encode encoded

theorem length_writeVarint_eq_one_iff (value : Nat) :
    (writeVarint value).length = 1 ↔ value < 128 := by
  rcases Nat.lt_or_ge value 128 with small | large
  · rw [writeVarint_of_lt small]
    exact iff_of_true rfl small
  · have more := writeVarint_length_pos (value / 128)
    rw [writeVarint_of_le large, List.length_cons]
    omega

/-- An address has the length that is asked for when its tag is a byte. -/
theorem length_address_iff {adr : AccountPublicAddress}
    (address : getAccountAddressAsStr tag adr = some addr) :
    addr.length = 95 ↔ tag.toNat < 128 := by
  obtain ⟨addrData, encoded, length⟩ := decoded_of_address address
  have count := Base58.length_of_decode (Base58.decode_of_encode encoded)
  have table : ∀ rest, rest < 11 → (Base58.decodedBlockSizes rest).toNat ≤ 7 ∧
      ((Base58.decodedBlockSizes rest).toNat = 5 ↔ rest = 7) := by
    decide +kernel
  obtain ⟨small, five⟩ := table (addr.length % 11) (Nat.mod_lt _ (by decide))
  rw [← length_writeVarint_eq_one_iff]
  generalize (Base58.decodedBlockSizes (addr.length % 11)).toNat = size at *
  omega

/-- The export answers with a tag for the addresses of accounts whose keys are points of the curve,
and for no other string. -/
theorem decodeAddressExport_eq_iff (input : Bytes) (p : UInt32) (nonzero : p ≠ 0) :
    decodeAddressExport checkKey input = p ↔
      ∃! account : UInt64 × AccountPublicAddress, account.2.Checked checkKey ∧
        getAccountAddressAsStr account.1 account.2 = some input ∧ account.1.toUInt32 = p := by
  refine ⟨fun exported => ?_, fun account => ?_⟩
  · obtain ⟨tag, adr, checked, address⟩ := address_of_decodeAddressExport (exported ▸ nonzero)
    rw [decodeAddressExport_of_address checked address] at exported
    refine ⟨(tag, adr), ⟨checked, address, exported⟩, fun (tag', adr') ⟨_, address', _⟩ => ?_⟩
    obtain ⟨sameTag, sameAdr⟩ := address_inj address' address
    exact Prod.ext sameTag sameAdr
  · obtain ⟨⟨tag, adr⟩, ⟨checked, address, truncated⟩, _⟩ := account
    rw [decodeAddressExport_of_address checked address]
    exact truncated

theorem address_total (tag : UInt64) (adr : AccountPublicAddress) :
    ∃ addr, getAccountAddressAsStr tag adr = some addr :=
  Base58.encode_total _

theorem decodeAddressExport_eq_iff_zero : ∃ input, ∃! account : UInt64 × AccountPublicAddress,
    account.2.Checked (fun _ => true) ∧
      getAccountAddressAsStr account.1 account.2 = some input ∧ account.1.toUInt32 = 53 := by
  obtain ⟨input, address⟩ := address_total 53 default
  have exported := @decodeAddressExport_of_address (fun _ => true) _ _ default ⟨rfl, rfl⟩ address
  exact ⟨input, (decodeAddressExport_eq_iff input 53 (by decide)).mp exported⟩

end Codec

end Hypepool.Cryptonote
