import Hypepool.Cryptonote.Transaction

/-!
# `cryptonote_basic.h`: blocks

A block is a header, the transaction of the miner, and the hashes of the others.

* `block_roundTrip`: what is parsed is written back, with any extra field of the length in the place
  of its own.
* `parse_dropLast`: the number of the other transactions may be missing.
-/

namespace Hypepool.Cryptonote

open Base

structure BlockHeader where
  majorVersion : UInt8
  minorVersion : UInt8
  timestamp : UInt64
  prevId : Hash
  nonce : UInt32
  deriving DecidableEq, Inhabited

def BlockHeader.serialize (W : Bool) (v : BlockHeader) : BinaryArchive BlockHeader := do
  let majorVersion ← serializeVarint W v.majorVersion
  let minorVersion ← serializeVarint W v.minorVersion
  let timestamp ← serializeVarint W v.timestamp
  let prevId ← serializeBlob W v.prevId
  let nonce ← serializeInt W v.nonce
  return ⟨majorVersion, minorVersion, timestamp, prevId, nonce⟩

/-- `block`, without the cache of its hash. -/
structure Block extends BlockHeader where
  minerTx : Transaction
  txHashes : List Hash
  deriving DecidableEq, Inhabited

def Block.serialize (W : Bool) (b : Block) : BinaryArchive Block := do
  let v ← b.toBlockHeader.serialize W
  let minerTx ← b.minerTx.serialize W
  let txHashes ← serializeVector serializeBlob W b.txHashes
  return ⟨v, minerTx, txHashes⟩

/-- `parse_and_validate_block_from_blob`. -/
def parseAndValidateBlockFromBlob (blob : Bytes) : Option Block :=
  parseBinary (Block.serialize false default) blob

/-- `block_to_blob`. -/
def blockToBlob (b : Block) : Bytes := dumpBinary (b.serialize true)

/-! ## Parsing -/

def Block.withExtra (b : Block) (extra : Bytes) : Block :=
  { b with minerTx := b.minerTx.withExtra extra }

/-- Where the extra field of the miner's transaction stands in the blob of a block. -/
def Block.extraOffset (b : Block) : Nat :=
  (dumpBinary (b.toBlockHeader.serialize true)).length + b.minerTx.toTransactionPrefix.extraOffset

theorem agree_blockHeader (v init : BlockHeader) :
    Agree (v.serialize true) (init.serialize false) v
      (writeVarint v.majorVersion.toNat ++ (writeVarint v.minorVersion.toNat ++
        (writeVarint v.timestamp.toNat ++
          (v.prevId.val ++ (uintBytes 4 v.nonce.toNat ++ []))))) := by
  refine agree_bind (agree_serializeVarint v.majorVersion init.majorVersion) ?_
  refine agree_bind (agree_serializeVarint v.minorVersion init.minorVersion) ?_
  refine agree_bind (agree_serializeVarint v.timestamp init.timestamp) ?_
  refine agree_bind (agree_serializeBlob v.prevId init.prevId) ?_
  refine agree_bind (agree_serializeInt v.nonce init.nonce) ?_
  exact agree_pure

theorem reloads_blockHeader (init : BlockHeader) : Reloads 0 BlockHeader.serialize init := by
  refine Yields.mono (P := fun _ => True) ?_ fun v _ =>
    stores_of_agree (agree_blockHeader v init) (Nat.zero_le _)
  refine yields_bind (yields_serializeVarint init.majorVersion) fun _ _ => ?_
  refine yields_bind (yields_serializeVarint init.minorVersion) fun _ _ => ?_
  refine yields_bind (yields_serializeVarint init.timestamp) fun _ _ => ?_
  refine yields_bind (reloads_serializeBlob init.prevId) fun _ _ => ?_
  exact yields_bind (reloads_serializeInt init.nonce) fun _ _ => yields_pure trivial

/-- The parts of a block that is loaded. -/
theorem yields_block (init : Block) : Yields (Block.serialize false init) fun b =>
    Stores 0 (b.toBlockHeader.serialize true) (init.toBlockHeader.serialize false)
        b.toBlockHeader ∧
      Slot b.minerTx.toTransactionPrefix.extraOffset b.minerTx.extra.length
        (fun extra => (b.minerTx.withExtra extra).serialize true)
        (init.minerTx.serialize false) b.minerTx.withExtra ∧
      Stores 1 (serializeVector serializeBlob true b.txHashes)
        (serializeVector serializeBlob false init.txHashes) b.txHashes := by
  refine yields_bind (reloads_blockHeader init.toBlockHeader) fun v first => ?_
  refine yields_bind (slot_transaction init.minerTx) fun minerTx second => ?_
  refine yields_bind (reloads_serializeVector (by decide) reloads_blob32) fun txHashes third => ?_
  exact yields_pure ⟨first, second, third⟩

/-- A block that is loaded is saved and loaded back, and so is one with another extra field of the
length; only the field is written differently. -/
theorem slot_block (init : Block) : Yields (Block.serialize false init) fun b =>
    Slot b.extraOffset b.minerTx.extra.length (fun extra => (b.withExtra extra).serialize true)
      (Block.serialize false init) b.withExtra := by
  refine (yields_block init).mono fun b ⟨first, second, third⟩ => ?_
  obtain ⟨_, _, first⟩ := first
  obtain ⟨written, _, third⟩ := third
  rw [Block.extraOffset, dumpBinary_of_agree first]
  refine Slot.after first ?_
  refine Slot.andThen second ⟨written ++ [], fun extra _ => ?_⟩
  refine agree_bind third ?_
  exact agree_pure

/-- What holds of the parts of a block that was loaded. -/
structure Block.Loaded (b : Block) : Prop where
  header : Stores 0 (b.toBlockHeader.serialize true)
    (BlockHeader.serialize false (default : Block).toBlockHeader) b.toBlockHeader
  minerTx : b.minerTx.Loaded
  txHashes : Stores 1 (serializeVector serializeBlob true b.txHashes)
    (serializeVector serializeBlob false []) b.txHashes

theorem yields_loadedBlock : Yields (Block.serialize false default) Block.Loaded := by
  refine yields_bind (reloads_blockHeader _) fun v first => ?_
  refine yields_bind yields_transaction fun minerTx second => ?_
  refine yields_bind (reloads_serializeVector (by decide) reloads_blob32) fun txHashes third => ?_
  exact yields_pure ⟨first, second, third⟩

section Parsing

variable {blob : Bytes} {b : Block}

/-- What is behind the parsed block in the blob is nothing. -/
theorem of_parseAndValidateBlockFromBlob (parsed : parseAndValidateBlockFromBlob blob = some b) :
    (Block.serialize false default).run blob = .ok b [] :=
  parseBinary_eq_some_iff.mp parsed

/-- A parsed block is written with its extra field in one place, in which it can be replaced. -/
theorem blockToBlob_withExtra (parsed : parseAndValidateBlockFromBlob blob = some b) :
    ∃ before after, before.length = b.extraOffset ∧
      ∀ extra : Bytes, extra.length = b.minerTx.extra.length →
        blockToBlob (b.withExtra extra) = before ++ extra ++ after ∧
        ∀ rest, parseAndValidateBlockFromBlob (before ++ extra ++ after ++ rest) =
          if rest = [] then some (b.withExtra extra) else none := by
  obtain ⟨_, before, after, offset, slot⟩ :=
    slot_block default blob b [] (of_parseAndValidateBlockFromBlob parsed)
  refine ⟨before, after, offset, fun extra length =>
    ⟨dumpBinary_of_agree (slot extra length), fun rest => ?_⟩⟩
  have loaded := (slot extra length).loads rest
  cases rest with
  | nil => exact parseBinary_eq_some_iff.mpr loaded
  | cons byte rest =>
      rw [parseAndValidateBlockFromBlob, parseBinary, loaded]
      rfl

/-- **Blocks are written back.**  The blob that is written for a parsed block is parsed as this
block, and refused with anything behind it.  The extra field of its transaction stands in one place
of the blob, and a blob with other bytes there is that of the block with these bytes. -/
theorem block_roundTrip (parsed : parseAndValidateBlockFromBlob blob = some b) :
    (∀ rest, parseAndValidateBlockFromBlob (blockToBlob b ++ rest) =
      if rest = [] then some b else none) ∧
    ∀ extra : Bytes, extra.length = b.minerTx.extra.length →
      blockToBlob (b.withExtra extra) = (blockToBlob b).take b.extraOffset ++ extra ++
        (blockToBlob b).drop (b.extraOffset + extra.length) ∧
      parseAndValidateBlockFromBlob (blockToBlob (b.withExtra extra)) =
        some (b.withExtra extra) := by
  obtain ⟨before, after, offset, each⟩ := blockToBlob_withExtra parsed
  have own : blockToBlob b = before ++ b.minerTx.extra ++ after := (each b.minerTx.extra rfl).1
  refine ⟨fun rest => ?_, fun extra length => ?_⟩
  · rw [own]
    exact (each b.minerTx.extra rfl).2 rest
  · obtain ⟨written, loads⟩ := each extra length
    have whole := loads []
    have behind : before.length + extra.length = (before ++ b.minerTx.extra).length := by
      rw [List.length_append, length]
    rw [List.append_nil] at whole
    rw [written, own, ← offset, behind, List.drop_left, List.append_assoc before b.minerTx.extra,
      List.take_left]
    exact ⟨rfl, whole⟩

/-- A block of version 7 with two other transactions, and ten bytes of extra field. -/
def minedBlob : Bytes :=
  [7, 7, 0] ++ List.replicate 36 0 ++ [2, 60, 1, 0xff, 100, 1, 5, 2] ++ List.replicate 32 0x11 ++
    [10, 2, 8] ++ List.replicate 8 0 ++ [0, 2] ++ List.replicate 32 0x22 ++ List.replicate 32 0x33

theorem parsed_minedBlob : ∃ b, parseAndValidateBlockFromBlob minedBlob = some b ∧
    blockToBlob b = minedBlob ∧ b.extraOffset = 80 ∧
    b.minerTx.extra = [2, 8, 0, 0, 0, 0, 0, 0, 0, 0] ∧ b.minerTx.vin.length = 1 ∧
    b.minerTx.vout.length = 1 ∧ b.txHashes.length = 2 := by
  decide +kernel

theorem length_minedBlob : minedBlob.length = 156 := by decide +kernel

/-- Other bytes in the reserve, and one behind the block. -/
theorem block_roundTrip_mined : ∃ b, parseAndValidateBlockFromBlob minedBlob = some b ∧
    parseAndValidateBlockFromBlob (minedBlob ++ [7]) = none ∧
    let extra : Bytes := [2, 8, 1, 2, 3, 4, 5, 6, 7, 8]
    blockToBlob (b.withExtra extra) = minedBlob.take 80 ++ extra ++ minedBlob.drop 90 ∧
      parseAndValidateBlockFromBlob (blockToBlob (b.withExtra extra)) =
        some (b.withExtra extra) := by
  obtain ⟨b, parsed, back, start, own, -⟩ := parsed_minedBlob
  obtain ⟨behind, replaced⟩ := block_roundTrip parsed
  have refused := behind [7]
  have written := replaced [2, 8, 1, 2, 3, 4, 5, 6, 7, 8] (congrArg List.length own).symm
  rw [back] at refused
  rw [back, start] at written
  exact ⟨b, parsed, refused, written⟩

/-- The block of a chain without transactions but the miner's. -/
def aloneBlob : Bytes := List.replicate 39 0 ++ [1, 0, 0, 0, 3, 0xa, 0xb, 0xc, 0]

theorem parsed_aloneBlob : ∃ b, parseAndValidateBlockFromBlob aloneBlob = some b ∧
    b.txHashes = [] := by
  decide +kernel

/-- Where the input ends, a number is read as zero. -/
theorem serializeVector_eof : (serializeVector serializeBlob false ([] : List Hash)).run [] =
    .ok [] [] := rfl

theorem agree_noHashes : Agree (serializeVector serializeBlob true ([] : List Hash))
    (serializeVector serializeBlob false []) [] [0] := by
  have written : writeVarint 0 = [0] := writeVarint_of_lt (by decide)
  have agree := @agree_serializeVector Hash _ serializeBlob [] [] [] (by decide) agree_pure
    (Nat.le_refl 0)
  rw [List.append_nil] at agree
  exact written ▸ agree

/-- **The last byte may be missing.**  The blob of a block without other transactions is parsed as
this block also without its last byte, which says that there are none: `read_varint` accepts the
end of the input for a number. -/
theorem parse_dropLast (parsed : parseAndValidateBlockFromBlob blob = some b)
    (alone : b.txHashes = []) :
    parseAndValidateBlockFromBlob (blockToBlob b).dropLast = some b := by
  obtain ⟨_, loaded⟩ := yields_loadedBlock blob b [] (of_parseAndValidateBlockFromBlob parsed)
  obtain ⟨header, _, first⟩ := loaded.header
  obtain ⟨minerTx, _, second⟩ := loaded.minerTx.whole
  have saved : Agree (b.serialize true) (Block.serialize false default) b
      (header ++ (minerTx ++ ([0] ++ []))) := by
    refine agree_bind first ?_
    refine agree_bind second ?_
    rw [alone]
    refine agree_bind agree_noHashes ?_
    obtain ⟨v, tx, txHashes⟩ := b
    obtain rfl : txHashes = [] := alone
    exact agree_pure
  have loads := second.loads []
  rw [List.append_nil] at loads
  rw [blockToBlob, dumpBinary_of_agree saved, List.append_nil, ← List.append_assoc,
    List.dropLast_concat]
  refine parseBinary_eq_some_iff.mpr ?_
  refine (run_bind_of_ok (first.loads minerTx)).trans ?_
  refine (run_bind_of_ok loads).trans ?_
  refine (run_bind_of_ok serializeVector_eof).trans ?_
  rw [← alone]
  rfl

theorem parse_dropLast_alone : ∃ b, parseAndValidateBlockFromBlob aloneBlob = some b ∧
    parseAndValidateBlockFromBlob (blockToBlob b).dropLast = some b := by
  obtain ⟨b, parsed, alone⟩ := parsed_aloneBlob
  exact ⟨b, parsed, parse_dropLast parsed alone⟩

end Parsing

end Hypepool.Cryptonote
