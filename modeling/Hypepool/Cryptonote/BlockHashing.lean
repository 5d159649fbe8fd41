import Hypepool.Cryptonote.Block
import Hypepool.Cryptonote.TreeHash

/-!
# `cryptonote_format_utils.cpp`: hashing blobs

The hashing blob of a block is what miners work on: the header, the root of the tree over the hash
of the miner's transaction and the hashes of the others, and the number of all of them.

* `hashingBlob_of_parsed`: no assertion fails for a block that was parsed, and where the call stack
  has room for `tree_hash` its hashing blob is computed, and short.
* `hashingBlobs_differ`: different blocks have different hashing blobs, or two of the messages that
  were hashed for them are different and have the same hash.
-/

namespace Hypepool.Cryptonote

open Base

def nullHash : Hash := default

/-- `get_transaction_prefix_hash`. -/
def getTransactionPrefixHash (v : TransactionPrefix) : Hash :=
  cnFastHash (dumpBinary (v.serialize true))

/-- The hash of what `save` writes, where it does not fail. -/
def hashOfSaved {T : Type} (save : BinaryArchive T) : Option Hash :=
  match save.run [] with
  | .ok _ written => some (cnFastHash written)
  | .error _ _ => none

/-- `calculate_transaction_hash`. -/
def calculateTransactionHash (t : Transaction) : Option Hash :=
  if t.version = 1 then some (cnFastHash (dumpBinary (t.serialize true)))
  else do
    let inputs := t.vin.length
    let outputs := t.vout.length
    -- the prefix, the base, and what may be pruned
    let first := getTransactionPrefixHash t.toTransactionPrefix
    let second ← hashOfSaved
      (RctSigBase.serializeRctsigBase inputs outputs true t.rctSignatures.toRctSigBase)
    let third ←
      (if t.rctSignatures.type = rctTypeNull then some nullHash
      else hashOfSaved (RctSigPrunable.serializeRctsigPrunable t.rctSignatures.type inputs outputs
        t.mixin true t.rctSignatures.p))
    return cnFastHash (first.val ++ second.val ++ third.val)

/-- `get_tx_tree_hash`: a transaction that cannot be hashed counts with the null hash. -/
def getTxTreeHash (stack : Nat) (b : Block) : Option Hash :=
  let h := (calculateTransactionHash b.minerTx).getD nullHash
  treeHash stack (h :: b.txHashes)

/-- `get_block_hashing_blob`; `none` where an assertion fails, or the call stack has no room. -/
def getBlockHashingBlob (stack : Nat) (b : Block) : Option Bytes := do
  let blob := dumpBinary (b.toBlockHeader.serialize true)
  let treeRootHash ← getTxTreeHash stack b
  return blob ++ treeRootHash.val ++ writeVarint (b.txHashes.length + 1)

/-! ## What is hashed for a transaction -/

section Transactions

variable {t t' : Transaction}

def Transaction.blob (t : Transaction) : Bytes := dumpBinary (t.serialize true)

def Transaction.membersBlob (t : Transaction) : Bytes :=
  dumpBinary (t.toTransactionPrefix.serialize true)

def Transaction.baseBlob (t : Transaction) : Bytes :=
  dumpBinary (RctSigBase.serializeRctsigBase t.vin.length t.vout.length true
    t.rctSignatures.toRctSigBase)

def Transaction.prunableBlob (t : Transaction) : Bytes :=
  dumpBinary (RctSigPrunable.serializeRctsigPrunable t.rctSignatures.type t.vin.length
    t.vout.length t.mixin true t.rctSignatures.p)

/-- The hashes of the parts. -/
def Transaction.hashes (t : Transaction) : Bytes :=
  (cnFastHash t.membersBlob).val ++ (cnFastHash t.baseBlob).val ++
    (if t.rctSignatures.type = rctTypeNull then nullHash else cnFastHash t.prunableBlob).val

/-- The messages that are hashed to compute the hash of a transaction, that one first. -/
def Transaction.messages (t : Transaction) : List Bytes :=
  if t.version = 1 then [t.blob]
  else t.hashes :: t.membersBlob :: t.baseBlob ::
    if t.rctSignatures.type = rctTypeNull then [] else [t.prunableBlob]

theorem hashOfSaved_of_stores {T : Type} {save load : BinaryArchive T} {v : T} {least : Nat}
    (stores : Stores least save load v) :
    hashOfSaved save = some (cnFastHash (dumpBinary save)) := by
  obtain ⟨written, _, agree⟩ := stores
  rw [hashOfSaved, dumpBinary_of_agree agree, agree.saves []]
  rfl

/-- A transaction that was loaded has a hash, that of its first message. -/
theorem calculateTransactionHash_of_loaded (loaded : t.Loaded) :
    calculateTransactionHash t =
      some (cnFastHash (if t.version = 1 then t.blob else t.hashes)) := by
  rw [calculateTransactionHash]
  split
  · rfl
  · rename_i later
    have base := hashOfSaved_of_stores (loaded.base later)
    have prunable := loaded.prunable later
    dsimp only
    rw [base, Transaction.hashes]
    split
    · rfl
    · rename_i some_
      rw [if_neg some_] at prunable
      rw [hashOfSaved_of_stores prunable]
      rfl

/-- Two messages with one hash are a collision, unless they are equal. -/
theorem or_collides_of_hash {m m' : Bytes} {messages messages' : List Bytes} {p : Prop}
    (member : m ∈ messages) (member' : m' ∈ messages') (same : cnFastHash m = cnFastHash m')
    (next : m = m' → p ∨ Collides cnFastHash messages messages') :
    p ∨ Collides cnFastHash messages messages' := by
  by_cases equal : m = m'
  · exact next equal
  · exact Or.inr ⟨m, member, m', member', equal, same⟩

theorem hashes_inj {h₁ h₂ h₃ h₁' h₂' h₃' : Hash}
    (same : h₁.val ++ h₂.val ++ h₃.val = h₁'.val ++ h₂'.val ++ h₃'.val) :
    h₁ = h₁' ∧ h₂ = h₂' ∧ h₃ = h₃' := by
  have length (h h' : Hash) : h.val.length = h'.val.length := h.property.trans h'.property.symm
  obtain ⟨front, third⟩ := List.append_inj' same (length h₃ h₃')
  obtain ⟨first, second⟩ := List.append_inj front (length h₁ h₁')
  exact ⟨Subtype.ext first, Subtype.ext second, Subtype.ext third⟩

theorem transaction_eq_of_parts (loaded : t.Loaded) (loaded' : t'.Loaded) (later : t.version ≠ 1)
    (sameMembers : t.membersBlob = t'.membersBlob) (sameBase : t.baseBlob = t'.baseBlob)
    (samePrunable : t.rctSignatures.type ≠ rctTypeNull → t'.rctSignatures.type ≠ rctTypeNull →
      t.prunableBlob = t'.prunableBlob) : t = t' := by
  have members := unique_of_stores loaded.members loaded'.members sameMembers
  obtain ⟨v, signatures, ⟨base, p⟩⟩ := t
  obtain ⟨v', signatures', ⟨base', p'⟩⟩ := t'
  obtain rfl : v = v' := members
  obtain rfl : signatures = [] := loaded.signatures later
  obtain rfl : signatures' = [] := loaded'.signatures later
  obtain rfl : base = base' := unique_of_stores (loaded.base later) (loaded'.base later) sameBase
  have prunable := loaded.prunable later
  have prunable' := loaded'.prunable later
  by_cases null : base.type = rctTypeNull
  · rw [if_pos null] at prunable prunable'
    rw [show p = p' from prunable.trans prunable'.symm]
  · rw [if_neg null] at prunable prunable'
    rw [show p = p' from unique_of_stores prunable prunable' (samePrunable null null)]

/-- Transactions of one version with one hash are equal, or what was hashed for them collides. -/
theorem transaction_eq_or_collides (loaded : t.Loaded) (loaded' : t'.Loaded)
    (version : t.version = t'.version)
    (same : calculateTransactionHash t = calculateTransactionHash t') :
    t = t' ∨ Collides cnFastHash t.messages t'.messages := by
  rw [calculateTransactionHash_of_loaded loaded, calculateTransactionHash_of_loaded loaded',
    Option.some.injEq] at same
  by_cases first : t.version = 1
  · have first' := version ▸ first
    rw [if_pos first, if_pos first'] at same
    rw [Transaction.messages, Transaction.messages, if_pos first, if_pos first']
    refine or_collides_of_hash List.mem_cons_self List.mem_cons_self same fun blob => Or.inl ?_
    exact unique_of_stores loaded.whole loaded'.whole blob
  · have later := version ▸ first
    rw [if_neg first, if_neg later] at same
    rw [Transaction.messages, Transaction.messages, if_neg first, if_neg later]
    refine or_collides_of_hash List.mem_cons_self List.mem_cons_self same fun hashes => ?_
    obtain ⟨members, base, prunable⟩ := hashes_inj hashes
    refine or_collides_of_hash (by simp) (by simp) members fun sameMembers => ?_
    refine or_collides_of_hash (by simp) (by simp) base fun sameBase => ?_
    by_cases some_ : t.rctSignatures.type ≠ rctTypeNull ∧ t'.rctSignatures.type ≠ rctTypeNull
    · rw [if_neg some_.1, if_neg some_.2] at prunable
      rw [if_neg some_.1, if_neg some_.2]
      refine or_collides_of_hash (by simp) (by simp) prunable fun samePrunable => Or.inl ?_
      exact transaction_eq_of_parts loaded loaded' first sameMembers sameBase
        fun _ _ => samePrunable
    · exact Or.inl (transaction_eq_of_parts loaded loaded' first sameMembers sameBase
        fun proper proper' => (some_ ⟨proper, proper'⟩).elim)

end Transactions

/-! ## What is hashed for a block -/

section Blocks

variable {stack stack' : Nat} {b b' : Block} {blob hashing : Bytes}

/-- The hashes of all transactions. -/
def Block.hashes (b : Block) : List Hash :=
  (calculateTransactionHash b.minerTx).getD nullHash :: b.txHashes

theorem Block.length_hashes (b : Block) : b.hashes.length = b.txHashes.length + 1 :=
  List.length_cons

/-- The messages that are hashed for the hashing blob of a block. -/
def Block.messages (b : Block) : List Bytes := b.minerTx.messages ++ treeMessages b.hashes

/-- The header, the root of the tree over all transactions, and their number. -/
def Block.summary (b : Block) : Bytes :=
  dumpBinary (b.toBlockHeader.serialize true) ++ ((merkleTree b.hashes).root hashPair).val ++
    writeVarint b.hashes.length

theorem of_getBlockHashingBlob (hashed : getBlockHashingBlob stack b = some hashing) :
    b.hashes.length ≤ 0x10000000 ∧ HasRoom stack b.hashes.length ∧ hashing = b.summary := by
  obtain ⟨root, computed, written⟩ := Option.bind_eq_some_iff.mp hashed
  obtain ⟨_, sane, room, isRoot⟩ :=
    of_treeHash (show treeHash stack b.hashes = some root from computed)
  rw [isRoot] at written
  exact ⟨sane, room, (Option.some.inj written).symm⟩

/-- A number is read back from the end of a hashing blob. -/
theorem writeVarint_inj {m n : Nat} (fits : m < 2 ^ 64) (fits' : n < 2 ^ 64)
    (same : writeVarint m = writeVarint n) : m = n := by
  have read := readVarint_writeVarint fits []
  rw [same, readVarint_writeVarint fits' []] at read
  injection read with _ value _
  exact value.symm

theorem block_eq_of_parts (loaded : b.Loaded) (loaded' : b'.Loaded)
    (version : b.minerTx.version = b'.minerTx.version) (hashes : b.hashes = b'.hashes)
    (header : b.toBlockHeader = b'.toBlockHeader) :
    b = b' ∨ Collides cnFastHash b.messages b'.messages := by
  injection hashes with first others
  have same : calculateTransactionHash b.minerTx = calculateTransactionHash b'.minerTx := by
    rw [calculateTransactionHash_of_loaded loaded.minerTx,
      calculateTransactionHash_of_loaded loaded'.minerTx] at first ⊢
    exact congrArg some first
  rcases transaction_eq_or_collides loaded.minerTx loaded'.minerTx version same with
    minerTx | collides
  · obtain ⟨v, minerTx, txHashes⟩ := b
    obtain ⟨v', minerTx', txHashes'⟩ := b'
    exact Or.inl ((Block.mk.injEq ..).mpr ⟨header, minerTx, others⟩)
  · exact Or.inr (collides.mono (List.subset_append_left _ _) (List.subset_append_left _ _))

/-- Blocks with one hashing blob are equal, or what was hashed for them collides. -/
theorem block_eq_or_collides (loaded : b.Loaded) (loaded' : b'.Loaded)
    (version : b.minerTx.version = b'.minerTx.version)
    (hashed : getBlockHashingBlob stack b = some hashing)
    (hashed' : getBlockHashingBlob stack' b' = some hashing) :
    b = b' ∨ Collides cnFastHash b.messages b'.messages := by
  obtain ⟨sane, _, isBlob⟩ := of_getBlockHashingBlob hashed
  obtain ⟨sane', _, isBlob'⟩ := of_getBlockHashingBlob hashed'
  obtain ⟨written, _, header⟩ := loaded.header
  obtain ⟨written', _, header'⟩ := loaded'.header
  rw [Block.summary, dumpBinary_of_agree header, List.append_assoc] at isBlob
  rw [Block.summary, dumpBinary_of_agree header', List.append_assoc] at isBlob'
  obtain ⟨sameHeader, behind⟩ := agree_unique header header' (isBlob.symm.trans isBlob')
  have width (h h' : Hash) : h.val.length = h'.val.length := h.property.trans h'.property.symm
  obtain ⟨root, count⟩ := List.append_inj behind (width _ _)
  have positive : 0 < b.hashes.length := Nat.succ_pos _
  have length : b.hashes.length = b'.hashes.length :=
    writeVarint_inj (by omega) (by omega) count
  rcases hashes_eq_or_collides positive length (Subtype.ext root) with hashes | collides
  · exact block_eq_of_parts loaded loaded' version hashes sameHeader
  · exact Or.inr (collides.mono (List.subset_append_right _ _) (List.subset_append_right _ _))

/-! ## Blocks that were parsed -/

theorem loaded_of_parsed (parsed : parseAndValidateBlockFromBlob blob = some b) : b.Loaded :=
  (yields_loadedBlock blob b [] (of_parseAndValidateBlockFromBlob parsed)).2

/-- Each of the hashes was read from bytes of its own. -/
theorem length_txHashes (parsed : parseAndValidateBlockFromBlob blob = some b) :
    b.txHashes.length * 32 ≤ blob.length := by
  obtain ⟨v, afterHeader, header, loaded⟩ :=
    of_run_bind_ok (of_parseAndValidateBlockFromBlob parsed)
  obtain ⟨minerTx, afterTx, transaction, loaded⟩ := of_run_bind_ok loaded
  obtain ⟨txHashes, left, vector, loaded⟩ := of_run_bind_ok loaded
  obtain ⟨cnt, afterCount, count, vector⟩ := of_run_bind_ok vector
  injection loaded with isBlock _
  obtain ⟨shorter, _⟩ := reloads_blockHeader _ blob v afterHeader header
  obtain ⟨shorter', _⟩ := yields_transaction afterHeader minerTx afterTx transaction
  obtain ⟨shorter'', _⟩ := yields_serializeVarint _ afterTx cnt afterCount count
  have inside := ((shorter''.trans shorter').trans shorter).length_le
  have number := (yields_loadElements reloads_blob32 afterCount txHashes left vector).2.length_eq
  rw [List.length_replicate] at number
  rw [loadElements_run] at vector
  split at vector
  · cases vector
  have each (place : Hash) (input : Bytes) (h : Hash) (rest : Bytes)
      (loaded : (serializeBlob false place).run input = .ok h rest) :
      rest.length + 32 ≤ input.length := by
    rw [input_of_serializeBlob loaded, List.length_append, h.property]
    omega
  have taken := length_of_mapM each vector
  rw [List.length_replicate, number] at taken
  have same : b.txHashes = txHashes := by rw [← isBlock]
  rw [same]
  omega

theorem getBlockHashingBlob_eq (sane : b.hashes.length ≤ 0x10000000)
    (room : HasRoom stack b.hashes.length) : getBlockHashingBlob stack b = some b.summary := by
  have positive : 0 < b.hashes.length := Nat.succ_pos _
  have computed : getTxTreeHash stack b = some ((merkleTree b.hashes).root hashPair) :=
    treeHash_eq positive sane room
  rw [getBlockHashingBlob, computed]
  rfl

/-- The sanity limit of `tree_hash` is met by every block that was parsed from fewer than 2^32
bytes. -/
theorem length_hashes_le (parsed : parseAndValidateBlockFromBlob blob = some b)
    (short : blob.length < 2 ^ 32) : b.hashes.length ≤ 0x8000000 := by
  have bytes := length_txHashes parsed
  have length := b.length_hashes
  omega

/-- As much room as the blob takes is enough. -/
theorem hasRoom_of_parsed (parsed : parseAndValidateBlockFromBlob blob = some b)
    (large : blob.length ≤ stack) : HasRoom stack b.hashes.length := by
  intro many
  have bytes := length_txHashes parsed
  have length := b.length_hashes
  have less := levels_lt (show 1 < b.hashes.length by omega)
  unfold hashSize
  omega

theorem length_summary (parsed : parseAndValidateBlockFromBlob blob = some b)
    (short : blob.length < 2 ^ 32) : 0 < b.summary.length ∧ b.summary.length ≤ 87 := by
  have number := length_hashes_le parsed short
  have header := dumpBinary_of_agree (agree_blockHeader b.toBlockHeader default)
  have first := @length_writeVarint_le b.majorVersion.toNat 1
    (Nat.lt_of_lt_of_le b.majorVersion.toNat_lt (by decide))
  have second := @length_writeVarint_le b.minorVersion.toNat 1
    (Nat.lt_of_lt_of_le b.minorVersion.toNat_lt (by decide))
  have third := @length_writeVarint_le b.timestamp.toNat 9
    (Nat.lt_of_lt_of_le b.timestamp.toNat_lt (by decide))
  have count := @length_writeVarint_le b.hashes.length 4 (by omega)
  have more := writeVarint_length_pos b.hashes.length
  rw [Block.summary, header, List.length_append, List.length_append, List.length_append,
    List.length_append, List.length_append, List.length_append, List.length_append,
    uintBytes_length, b.prevId.property, ((merkleTree b.hashes).root hashPair).property,
    List.length_nil]
  omega

/-- **The hashing blob of a parsed block.**  Whatever blob of fewer than 2^32 bytes the block was
parsed from, the sanity check and the assertions of `tree_hash` pass, and the hashing blob is
computed exactly where the call stack has room for its array; it has where it has room for the blob.
The hashing blob holds the header, the root of the tree over all transactions and their number, in
at most 87 bytes. -/
theorem hashingBlob_of_parsed (stack : Nat)
    (parsed : parseAndValidateBlockFromBlob blob = some b) (short : blob.length < 2 ^ 32) :
    let hashing := dumpBinary (b.toBlockHeader.serialize true) ++
      ((merkleTree b.hashes).root hashPair).val ++ writeVarint (b.txHashes.length + 1)
    (getBlockHashingBlob stack b =
        if HasRoom stack (b.txHashes.length + 1) then some hashing else none) ∧
      hashing.length ≤ 87 ∧
      (merkleTree b.hashes).leaves = b.hashes ∧
      (blob.length ≤ stack → HasRoom stack (b.txHashes.length + 1)) := by
  have number := length_hashes_le parsed short
  have positive : 0 < b.hashes.length := Nat.succ_pos _
  refine ⟨?_, (length_summary parsed short).2, leaves_merkleTree positive,
    hasRoom_of_parsed parsed⟩
  split
  case isTrue room => exact getBlockHashingBlob_eq (by omega) room
  case isFalse noRoom =>
    rw [Option.eq_none_iff_forall_ne_some]
    intro hashing hashed
    exact noRoom (of_getBlockHashingBlob hashed).2.1

/-- Three transactions take an array of two hashes. -/
theorem hashingBlob_of_parsed_mined : ∃ b, parseAndValidateBlockFromBlob minedBlob = some b ∧
    getBlockHashingBlob 63 b = none ∧
    ∃ hashing, getBlockHashingBlob 64 b = some hashing ∧ hashing.length ≤ 87 ∧
      (merkleTree b.hashes).leaves = b.hashes ∧ b.hashes.length = 3 := by
  obtain ⟨b, parsed, _, _, _, _, _, others⟩ := parsed_minedBlob
  have short : minedBlob.length < 2 ^ 32 := by
    rw [length_minedBlob]
    decide
  obtain ⟨refused, _⟩ := hashingBlob_of_parsed 63 parsed short
  obtain ⟨hashed, length, leaves, _⟩ := hashingBlob_of_parsed 64 parsed short
  have hasNot : ¬ HasRoom 63 (2 + 1) := by decide
  have has : HasRoom 64 (2 + 1) := by decide
  rw [if_neg (others ▸ hasNot)] at refused
  rw [if_pos (others ▸ has)] at hashed
  exact ⟨b, parsed, refused, _, hashed, length, leaves, congrArg Nat.succ others⟩

/-- **Work is bound to its block.**  Where the hashing blob of a block that was parsed is computed,
a different one that was parsed, with a miner's transaction of the same version, does not have it,
or among the messages that are hashed for the two there are two different ones with one hash. -/
theorem hashingBlobs_differ {blob' : Bytes} (parsed : parseAndValidateBlockFromBlob blob = some b)
    (parsed' : parseAndValidateBlockFromBlob blob' = some b')
    (hashed : getBlockHashingBlob stack b = some hashing)
    (version : b.minerTx.version = b'.minerTx.version) (differs : b ≠ b') :
    getBlockHashingBlob stack' b' ≠ some hashing ∨
      Collides cnFastHash b.messages b'.messages := by
  by_cases hashed' : getBlockHashingBlob stack' b' = some hashing
  · rcases block_eq_or_collides (loaded_of_parsed parsed) (loaded_of_parsed parsed') version hashed
      hashed' with equal | collides
    · exact (differs equal).elim
    · exact Or.inr collides
  · exact Or.inl hashed'

/-- The blocks with two extra fields of one template. -/
theorem hashingBlobs_differ_mined : ∃ b hashing,
    parseAndValidateBlockFromBlob minedBlob = some b ∧
    getBlockHashingBlob 64 b = some hashing ∧
    let extra : Bytes := [2, 8, 1, 2, 3, 4, 5, 6, 7, 8]
    (getBlockHashingBlob 64 (b.withExtra extra) ≠ some hashing ∨
      Collides cnFastHash b.messages (b.withExtra extra).messages) := by
  obtain ⟨b, parsed, _, _, own, _, _, others⟩ := parsed_minedBlob
  have number : b.hashes.length = 3 := congrArg Nat.succ others
  have hashed := @getBlockHashingBlob_eq 64 b (number ▸ by decide) (number ▸ by decide)
  obtain ⟨_, replaced⟩ := block_roundTrip parsed
  have parsed' := (replaced [2, 8, 1, 2, 3, 4, 5, 6, 7, 8] (congrArg List.length own).symm).2
  refine ⟨b, _, parsed, hashed, hashingBlobs_differ parsed parsed' hashed rfl fun same => ?_⟩
  have extras := congrArg (fun b : Block => b.minerTx.extra) same
  rw [own] at extras
  cases extras

end Blocks

end Hypepool.Cryptonote
