import Hypepool.Cryptonote.Keccak

/-!
# `cryptonote_basic.h`, `rctTypes.h`, `crypto.h`: transactions

A transaction is a version, inputs, outputs, an extra field of the miner's own, and the signatures.
The arrays of the signatures carry no lengths: how long they are follows from the inputs and the
outputs.

* `reloads_transaction`: every transaction that is loaded is saved and loaded back, and so is one
  whose extra field was replaced by another of its length; nothing but these bytes is written
  otherwise.
-/

namespace Hypepool.Cryptonote

open Base

abbrev Signature := Blob 64

abbrev KeyImage := Blob 32

/-- `rct::key`. -/
abbrev Key := Blob 32

/-! ## Outputs -/

structure TxoutToScript where
  keys : List PublicKey
  script : Bytes
  deriving DecidableEq, Inhabited

def TxoutToScript.serialize (W : Bool) (v : TxoutToScript) : BinaryArchive TxoutToScript := do
  let keys ← serializeVector serializeBlob W v.keys
  let script ← serializeVector serializeInt W v.script
  return ⟨keys, script⟩

/-- `txout_target_v`. -/
inductive TxoutTarget
  | toScript (out : TxoutToScript)
  | toScripthash (hash : Hash)
  | toKey (key : PublicKey)
  deriving DecidableEq, Inhabited

/-- `visitor::operator ()`: the tag of an alternative, then what it holds. -/
def saveAlternative {T V : Type} (tag : UInt8) (serialize : Bool → T → BinaryArchive T)
    (make : T → V) (x : T) : BinaryArchive V := do
  let _ ← serializeInt true tag
  return make (← serialize true x)

/-- `variant_reader::read` at the alternative that has the tag. -/
def loadAlternative {T V : Type} [Inhabited T] (serialize : Bool → T → BinaryArchive T)
    (make : T → V) : BinaryArchive V := do
  return make (← serialize false default)

def TxoutTarget.save : TxoutTarget → BinaryArchive TxoutTarget
  | .toScript out => saveAlternative 0x0 TxoutToScript.serialize .toScript out
  | .toScripthash hash => saveAlternative 0x1 serializeBlob .toScripthash hash
  | .toKey key => saveAlternative 0x2 serializeBlob .toKey key

def TxoutTarget.read (t : UInt8) : BinaryArchive TxoutTarget :=
  if t = 0x0 then loadAlternative TxoutToScript.serialize .toScript
  else if t = 0x1 then loadAlternative serializeBlob .toScripthash
  else if t = 0x2 then loadAlternative serializeBlob .toKey
  else throw ()

def TxoutTarget.serialize (W : Bool) (v : TxoutTarget) : BinaryArchive TxoutTarget :=
  if W then v.save else serializeInt W 0 >>= read

structure TxOut where
  amount : UInt64
  target : TxoutTarget
  deriving DecidableEq, Inhabited

def TxOut.serialize (W : Bool) (v : TxOut) : BinaryArchive TxOut := do
  let amount ← serializeVarint W v.amount
  let target ← v.target.serialize W
  return ⟨amount, target⟩

/-! ## Inputs -/

structure TxinGen where
  height : UInt64
  deriving DecidableEq, Inhabited

def TxinGen.serialize (W : Bool) (v : TxinGen) : BinaryArchive TxinGen := do
  let height ← serializeVarint W v.height
  return ⟨height⟩

structure TxinToScript where
  prev : Hash
  prevout : UInt64
  sigset : Bytes
  deriving DecidableEq, Inhabited

def TxinToScript.serialize (W : Bool) (v : TxinToScript) : BinaryArchive TxinToScript := do
  let prev ← serializeBlob W v.prev
  let prevout ← serializeVarint W v.prevout
  let sigset ← serializeVector serializeInt W v.sigset
  return ⟨prev, prevout, sigset⟩

structure TxinToScripthash where
  prev : Hash
  prevout : UInt64
  script : TxoutToScript
  sigset : Bytes
  deriving DecidableEq, Inhabited

def TxinToScripthash.serialize (W : Bool) (v : TxinToScripthash) :
    BinaryArchive TxinToScripthash := do
  let prev ← serializeBlob W v.prev
  let prevout ← serializeVarint W v.prevout
  let script ← v.script.serialize W
  let sigset ← serializeVector serializeInt W v.sigset
  return ⟨prev, prevout, script, sigset⟩

structure TxinToKey where
  amount : UInt64
  keyOffsets : List UInt64
  kImage : KeyImage
  deriving DecidableEq, Inhabited

def TxinToKey.serialize (W : Bool) (v : TxinToKey) : BinaryArchive TxinToKey := do
  let amount ← serializeVarint W v.amount
  let keyOffsets ← serializeVector serializeVarint W v.keyOffsets
  let kImage ← serializeBlob W v.kImage
  return ⟨amount, keyOffsets, kImage⟩

/-- `txin_v`. -/
inductive Txin
  | gen (txin : TxinGen)
  | toScript (txin : TxinToScript)
  | toScripthash (txin : TxinToScripthash)
  | toKey (txin : TxinToKey)
  deriving DecidableEq, Inhabited

def Txin.save : Txin → BinaryArchive Txin
  | .gen txin => saveAlternative 0xff TxinGen.serialize .gen txin
  | .toScript txin => saveAlternative 0x0 TxinToScript.serialize .toScript txin
  | .toScripthash txin => saveAlternative 0x1 TxinToScripthash.serialize .toScripthash txin
  | .toKey txin => saveAlternative 0x2 TxinToKey.serialize .toKey txin

def Txin.read (t : UInt8) : BinaryArchive Txin :=
  if t = 0xff then loadAlternative TxinGen.serialize .gen
  else if t = 0x0 then loadAlternative TxinToScript.serialize .toScript
  else if t = 0x1 then loadAlternative TxinToScripthash.serialize .toScripthash
  else if t = 0x2 then loadAlternative TxinToKey.serialize .toKey
  else throw ()

def Txin.serialize (W : Bool) (v : Txin) : BinaryArchive Txin :=
  if W then v.save else serializeInt W 0 >>= read

/-- `get_signature_size`. -/
def Txin.getSignatureSize : Txin → Nat
  | .toKey txin => txin.keyOffsets.length
  | _ => 0

/-! ## Signatures -/

/-- `do_serialize` of a `std::vector<crypto::signature>`, which has its length already. -/
def serializeSignatureVector (W : Bool) (v : List Signature) : BinaryArchive (List Signature) :=
  if W then v.mapM (serializeBlob W)
  else do
    -- very basic sanity check
    if (← remainingBytes) < v.length * 64 then throw ()
    else (List.replicate v.length default).mapM (serializeBlob W)

/-- One turn of the loop over the inputs of a `transaction`. -/
def serializeInputSignatures (W : Bool) (signatureSize : Nat) (v : List Signature) :
    BinaryArchive (List Signature) :=
  let v := prepareCustomVector W signatureSize v
  if signatureSize ≠ v.length then throw () else serializeSignatureVector W v

/-- The signatures of a `transaction` of version 1. -/
def serializeSignatures (W : Bool) (vin : List Txin) (signatures : List (List Signature)) :
    BinaryArchive (List (List Signature)) :=
  let signatures := prepareCustomVector W vin.length signatures
  if signatures = [] then
    -- `signatures_not_expected`
    if vin.all fun txin => txin.getSignatureSize = 0 then return signatures else throw ()
  else if vin.length ≠ signatures.length then throw ()
  else (vin.zip signatures).mapM fun (txin, v) =>
    serializeInputSignatures W txin.getSignatureSize v

/-- `ecdhTuple`, without the `senderPk` that is not serialized. -/
structure EcdhTuple where
  mask : Key
  amount : Key
  deriving DecidableEq, Inhabited

def EcdhTuple.serialize (W : Bool) (v : EcdhTuple) : BinaryArchive EcdhTuple := do
  let mask ← serializeBlob W v.mask
  let amount ← serializeBlob W v.amount
  return ⟨mask, amount⟩

def rctTypeNull : UInt8 := 0

def rctTypeFull : UInt8 := 1

def rctTypeSimple : UInt8 := 2

/-- `rctSigBase`, without what is not serialized; of `outPk` these are the masks. -/
structure RctSigBase where
  type : UInt8 := rctTypeNull
  txnFee : UInt64 := 0
  pseudoOuts : List Key := []
  ecdhInfo : List EcdhTuple := []
  outPk : List Key := []
  deriving DecidableEq, Inhabited

/-- `serialize_rctsig_base`. -/
def RctSigBase.serializeRctsigBase (inputs outputs : Nat) (W : Bool) (v : RctSigBase) :
    BinaryArchive RctSigBase := do
  let type ← serializeInt W v.type
  if type = rctTypeNull then return { v with type }
  else if type ≠ rctTypeFull ∧ type ≠ rctTypeSimple then throw ()
  else do
    let txnFee ← serializeVarint W v.txnFee
    let pseudoOuts ←
      (if type = rctTypeSimple then serializeCustomVector serializeBlob W inputs v.pseudoOuts
      else pure v.pseudoOuts)
    let ecdhInfo ← serializeCustomVector EcdhTuple.serialize W outputs v.ecdhInfo
    let outPk ← serializeCustomVector serializeBlob W outputs v.outPk
    return ⟨type, txnFee, pseudoOuts, ecdhInfo, outPk⟩

/-- `rangeSig`: a `boroSig` and a `key64`. -/
structure RangeSig where
  asig : Blob 4128
  Ci : Blob 2048
  deriving DecidableEq, Inhabited

def RangeSig.serialize (W : Bool) (v : RangeSig) : BinaryArchive RangeSig := do
  let asig ← serializeBlob W v.asig
  let Ci ← serializeBlob W v.Ci
  return ⟨asig, Ci⟩

/-- `mgSig`, without the `II` that is not serialized. -/
structure MgSig where
  ss : List (List Key)
  cc : Key
  deriving DecidableEq, Inhabited

/-- One turn of the loop over `MGs`; `mixin + 1` is a `size_t`. -/
def MgSig.serialize (rows elements : Nat) (W : Bool) (v : MgSig) : BinaryArchive MgSig := do
  let ss ← serializeCustomVector (fun W row => serializeCustomVector serializeBlob W elements row) W
    rows v.ss
  let cc ← serializeBlob W v.cc
  return ⟨ss, cc⟩

structure RctSigPrunable where
  rangeSigs : List RangeSig := []
  MGs : List MgSig := []
  deriving DecidableEq, Inhabited

/-- `serialize_rctsig_prunable`. -/
def RctSigPrunable.serializeRctsigPrunable (type : UInt8) (inputs outputs mixin : Nat) (W : Bool)
    (v : RctSigPrunable) : BinaryArchive RctSigPrunable :=
  if type = rctTypeNull then return v
  else if type ≠ rctTypeFull ∧ type ≠ rctTypeSimple then throw ()
  else do
    let rangeSigs ← serializeCustomVector RangeSig.serialize W outputs v.rangeSigs
    let mgElements := if type = rctTypeSimple then inputs else 1
    let mgSs2Elements := (if type = rctTypeSimple then 1 else inputs) + 1
    let MGs ← serializeCustomVector (MgSig.serialize ((mixin + 1) % 2 ^ 64) mgSs2Elements) W
      mgElements v.MGs
    return ⟨rangeSigs, MGs⟩

structure RctSig extends RctSigBase where
  p : RctSigPrunable := {}
  deriving DecidableEq, Inhabited

/-! ## Transactions -/

structure TransactionPrefix where
  version : UInt64
  unlockTime : UInt64
  vin : List Txin
  vout : List TxOut
  extra : Bytes
  deriving DecidableEq, Inhabited

def currentTransactionVersion : UInt64 := 2

def TransactionPrefix.serialize (W : Bool) (v : TransactionPrefix) :
    BinaryArchive TransactionPrefix := do
  let version ← serializeVarint W v.version
  if version = 0 ∨ currentTransactionVersion < version then throw ()
  else do
    let unlockTime ← serializeVarint W v.unlockTime
    let vin ← serializeVector Txin.serialize W v.vin
    let vout ← serializeVector TxOut.serialize W v.vout
    let extra ← serializeVector serializeInt W v.extra
    return ⟨version, unlockTime, vin, vout, extra⟩

/-- `transaction`, without the cache of its hash. -/
structure Transaction extends TransactionPrefix where
  signatures : List (List Signature)
  rctSignatures : RctSig
  deriving DecidableEq

/-- `set_null`. -/
def Transaction.setNull : Transaction where
  version := 1
  unlockTime := 0
  vin := []
  vout := []
  extra := []
  signatures := []
  rctSignatures := {}

instance : Inhabited Transaction := ⟨Transaction.setNull⟩

/-- The `mixin` of the first input, a `size_t`. -/
def TransactionPrefix.mixin (v : TransactionPrefix) : Nat :=
  match v.vin with
  | .toKey txin :: _ => (txin.keyOffsets.length + (2 ^ 64 - 1)) % 2 ^ 64
  | _ => 0

/-- What follows the members of `transaction_prefix`: the signatures of version 1, or those after
it. -/
def TransactionPrefix.serializeProofs (v : TransactionPrefix) (W : Bool)
    (proofs : List (List Signature) × RctSig) : BinaryArchive (List (List Signature) × RctSig) :=
  let (signatures, rctSignatures) := proofs
  if v.version = 1 then do
    let signatures ← serializeSignatures W v.vin signatures
    return (signatures, rctSignatures)
  else if v.vin = [] then return proofs
  else do
    let base ← RctSigBase.serializeRctsigBase v.vin.length v.vout.length W
      rctSignatures.toRctSigBase
    if base.type ≠ rctTypeNull then do
      let p ← RctSigPrunable.serializeRctsigPrunable base.type v.vin.length v.vout.length v.mixin W
        rctSignatures.p
      return (signatures, ⟨base, p⟩)
    else return (signatures, ⟨base, rctSignatures.p⟩)

def Transaction.serialize (W : Bool) (t : Transaction) : BinaryArchive Transaction := do
  let v ← t.toTransactionPrefix.serialize W
  let proofs ← v.serializeProofs W (t.signatures, t.rctSignatures)
  return ⟨v, proofs.1, proofs.2⟩

/-! ## What is loaded is saved and loaded back -/

section Alternatives

variable {T V : Type} [Inhabited T] {tag : UInt8} {serialize : Bool → T → BinaryArchive T}
  {make : T → V} {read : UInt8 → BinaryArchive V} {least : Nat} {P : V → Prop}

/-- An alternative is loaded back by a reader that chooses it for its tag. -/
theorem yields_loadAlternative (chosen : read tag = loadAlternative serialize make)
    (reloads : Reloads least serialize default)
    (meets : ∀ x, Stores 1 (saveAlternative tag serialize make x) (serializeInt false 0 >>= read)
      (make x) → P (make x)) :
    Yields (loadAlternative serialize make) P := by
  refine yields_bind reloads fun x stores => yields_pure (meets x ?_)
  have first := stores_of_agree (agree_serializeInt tag 0) (Nat.le_refl _)
  have length : 1 ≤ (uintBytes (Unsigned.size UInt8) (Unsigned.toNat tag)).length := by
    rw [uintBytes_length]
    decide
  refine (first.mono length).andThen ?_
  rw [chosen]
  refine stores.zero.andThen ?_
  exact stores_pure

end Alternatives

theorem reloads_uint8 (place : UInt8) : Reloads 1 serializeInt place := reloads_serializeInt place

/-- The objects of 32 bytes: hashes and keys. -/
theorem reloads_blob32 (place : Blob 32) : Reloads 1 serializeBlob place :=
  (reloads_serializeBlob place).mono fun _ stores => stores.mono (by decide)

theorem reloads_txoutToScript (init : TxoutToScript) : Reloads 1 TxoutToScript.serialize init := by
  refine yields_bind (reloads_serializeVector (by decide) reloads_blob32) fun keys first => ?_
  refine yields_bind (reloads_serializeVector (by decide) reloads_uint8) fun script second => ?_
  refine yields_pure (first.andThen ?_)
  refine second.zero.andThen ?_
  exact stores_pure

theorem reloads_txoutTarget (init : TxoutTarget) : Reloads 1 TxoutTarget.serialize init := by
  refine yields_bind (reloads_uint8 0) fun t _ => ?_
  rw [TxoutTarget.read]
  split
  · exact yields_loadAlternative (show TxoutTarget.read 0x0 = _ from rfl)
      (reloads_txoutToScript default) fun _ stores => stores
  split
  · exact yields_loadAlternative (show TxoutTarget.read 0x1 = _ from rfl) (reloads_blob32 default)
      fun _ stores => stores
  split
  · exact yields_loadAlternative (show TxoutTarget.read 0x2 = _ from rfl) (reloads_blob32 default)
      fun _ stores => stores
  exact yields_throw

theorem reloads_txOut (init : TxOut) : Reloads 1 TxOut.serialize init := by
  refine yields_bind (reloads_serializeVarint init.amount) fun amount first => ?_
  refine yields_bind (reloads_txoutTarget init.target) fun target second => ?_
  refine yields_pure (first.andThen ?_)
  refine second.zero.andThen ?_
  exact stores_pure

theorem reloads_txinGen (init : TxinGen) : Reloads 1 TxinGen.serialize init := by
  refine yields_bind (reloads_serializeVarint init.height) fun height first => ?_
  refine yields_pure (first.andThen ?_)
  exact stores_pure

theorem reloads_txinToScript (init : TxinToScript) : Reloads 1 TxinToScript.serialize init := by
  refine yields_bind (reloads_blob32 init.prev) fun prev first => ?_
  refine yields_bind (reloads_serializeVarint init.prevout) fun prevout second => ?_
  refine yields_bind (reloads_serializeVector (by decide) reloads_uint8) fun sigset third => ?_
  refine yields_pure (first.andThen ?_)
  refine second.zero.andThen ?_
  refine third.zero.andThen ?_
  exact stores_pure

theorem reloads_txinToScripthash (init : TxinToScripthash) :
    Reloads 1 TxinToScripthash.serialize init := by
  refine yields_bind (reloads_blob32 init.prev) fun prev first => ?_
  refine yields_bind (reloads_serializeVarint init.prevout) fun prevout second => ?_
  refine yields_bind (reloads_txoutToScript init.script) fun script third => ?_
  refine yields_bind (reloads_serializeVector (by decide) reloads_uint8) fun sigset fourth => ?_
  refine yields_pure (first.andThen ?_)
  refine second.zero.andThen ?_
  refine third.zero.andThen ?_
  refine fourth.zero.andThen ?_
  exact stores_pure

theorem reloads_txinToKey (init : TxinToKey) : Reloads 1 TxinToKey.serialize init := by
  refine yields_bind (reloads_serializeVarint init.amount) fun amount first => ?_
  refine yields_bind (reloads_serializeVector (by decide) reloads_serializeVarint)
    fun keyOffsets second => ?_
  refine yields_bind (reloads_blob32 init.kImage) fun kImage third => ?_
  refine yields_pure (first.andThen ?_)
  refine second.zero.andThen ?_
  refine third.zero.andThen ?_
  exact stores_pure

theorem reloads_txin (init : Txin) : Reloads 1 Txin.serialize init := by
  refine yields_bind (reloads_uint8 0) fun t _ => ?_
  rw [Txin.read]
  split
  · exact yields_loadAlternative (show Txin.read 0xff = _ from rfl) (reloads_txinGen default)
      fun _ stores => stores
  split
  · exact yields_loadAlternative (show Txin.read 0x0 = _ from rfl) (reloads_txinToScript default)
      fun _ stores => stores
  split
  · exact yields_loadAlternative (show Txin.read 0x1 = _ from rfl)
      (reloads_txinToScripthash default) fun _ stores => stores
  split
  · exact yields_loadAlternative (show Txin.read 0x2 = _ from rfl) (reloads_txinToKey default)
      fun _ stores => stores
  exact yields_throw

/-! ### The signatures -/

/-- Signatures are loaded back to places of their number. -/
theorem stores_serializeSignatureVector {v places : List Signature}
    (length : places.length = v.length) :
    Stores 0 (serializeSignatureVector true v) (serializeSignatureVector false places) v := by
  have each : List.Forall₂ (fun e place => Stores 64 (serializeBlob true e)
      (serializeBlob false place) e) v (List.replicate v.length default) := by
    clear length
    induction v with
    | nil => exact .nil
    | cons e v ih =>
        exact .cons
          (stores_of_agree (agree_serializeBlob e default) (Nat.le_of_eq e.property.symm)) ih
  have elements := stores_mapM each
  rw [List.map_id'] at elements
  obtain ⟨written, enough, agree⟩ := elements
  refine ⟨written, Nat.zero_le _, agree.saves, fun rest => ?_⟩
  have run : (serializeSignatureVector false places).run (written ++ rest) =
      (if (written ++ rest).length < places.length * 64 then throw ()
        else (List.replicate places.length default).mapM (serializeBlob false) :
        BinaryArchive (List Signature)).run (written ++ rest) := rfl
  have room : ¬ (written ++ rest).length < places.length * 64 := by
    rw [List.length_append, length]
    omega
  rw [run, if_neg room, length]
  exact agree.loads rest

theorem yields_serializeSignatureVector (places : List Signature) :
    Yields (serializeSignatureVector false places) fun v => v.length = places.length := by
  intro input v rest ended
  have run : (serializeSignatureVector false places).run input =
      (if input.length < places.length * 64 then throw ()
        else (List.replicate places.length default).mapM (serializeBlob false) :
        BinaryArchive (List Signature)).run input := rfl
  rw [run] at ended
  split at ended
  · cases ended
  · have all := yields_mapM
      fun place (_ : place ∈ List.replicate places.length (default : Signature)) =>
        reloads_serializeBlob place
    obtain ⟨left, loaded⟩ := all input v rest ended
    exact ⟨left, loaded.length_eq.symm.trans List.length_replicate⟩

theorem reloads_inputSignatures (size : Nat) (places : List Signature) :
    Reloads 0 (fun W => serializeInputSignatures W size) places := by
  have length := length_prepareCustomVector size places
  have load : serializeInputSignatures false size places =
      serializeSignatureVector false (prepareCustomVector false size places) := by
    rw [serializeInputSignatures, if_neg (not_not_intro length.symm)]
  rw [Reloads, load]
  refine (yields_serializeSignatureVector _).mono fun v full => ?_
  have save : serializeInputSignatures true size v = serializeSignatureVector true v := by
    rw [serializeInputSignatures, prepareCustomVector, if_pos rfl,
      if_neg (not_not_intro (full.trans length).symm)]
  rw [save]
  exact stores_serializeSignatureVector full.symm

/-- What was loaded for the inputs, as it is saved for them. -/
theorem forall₂_zip_of_loaded {κ α β : Type} {P : κ → α → β → Prop} {xs : List κ} {places : List α}
    {loaded : List β} (length : places.length = xs.length)
    (each : List.Forall₂ (fun place b => P place.1 place.2 b) (xs.zip places) loaded) :
    List.Forall₂ (fun item place => item.1 = place.1 ∧ P place.1 place.2 item.2) (xs.zip loaded)
      (xs.zip places) ∧ (xs.zip loaded).map Prod.snd = loaded := by
  induction xs generalizing places loaded with
  | nil =>
      cases each
      exact ⟨.nil, rfl⟩
  | cons x xs ih =>
      cases places with
      | nil => cases length
      | cons place places =>
          cases each with
          | cons here others =>
              obtain ⟨later, same⟩ := ih (Nat.succ.inj length) others
              exact ⟨.cons ⟨rfl, here⟩ later, congrArg (List.cons _) same⟩

theorem reloads_serializeSignatures (vin : List Txin) (init : List (List Signature)) :
    Reloads 0 (fun W => serializeSignatures W vin) init := by
  have length := length_prepareCustomVector vin.length init
  have load : serializeSignatures false vin init =
      if prepareCustomVector false vin.length init = [] then
        if vin.all fun txin => txin.getSignatureSize = 0 then
          return prepareCustomVector false vin.length init else throw ()
      else if vin.length ≠ (prepareCustomVector false vin.length init).length then throw ()
      else (vin.zip (prepareCustomVector false vin.length init)).mapM fun place =>
        serializeInputSignatures false place.1.getSignatureSize place.2 := rfl
  have save (v : List (List Signature)) : serializeSignatures true vin v =
      if v = [] then if vin.all fun txin => txin.getSignatureSize = 0 then return v else throw ()
      else if vin.length ≠ v.length then throw ()
      else (vin.zip v).mapM fun item =>
        serializeInputSignatures true item.1.getSignatureSize item.2 := rfl
  rw [Reloads, load]
  split
  · rename_i empty
    rw [empty]
    split
    · rename_i unsigned
      refine yields_pure ?_
      rw [save, if_pos rfl, if_pos unsigned]
      exact stores_pure
    · exact yields_throw
  · rename_i nonempty
    have checked := not_not_intro length.symm
    rw [if_neg checked]
    have turns (place : Txin × List Signature) :=
      reloads_inputSignatures place.1.getSignatureSize place.2
    refine (yields_mapM fun place _ => turns place).mono fun v loaded => ?_
    obtain ⟨each, same⟩ := forall₂_zip_of_loaded (P := fun txin place v =>
      Stores 0 (serializeInputSignatures true txin.getSignatureSize v)
        (serializeInputSignatures false txin.getSignatureSize place) v) length loaded
    have count : v.length = vin.length := by
      rw [← loaded.length_eq, List.length_zip, length, Nat.min_self]
    have some_ : v ≠ [] := by
      rintro rfl
      exact nonempty (List.eq_nil_of_length_eq_zero (length.trans count.symm))
    have turns : List.Forall₂ (fun (item place : Txin × List Signature) =>
        Stores 0 (serializeInputSignatures true item.1.getSignatureSize item.2)
          (serializeInputSignatures false place.1.getSignatureSize place.2) item.2) (vin.zip v)
        (vin.zip (prepareCustomVector false vin.length init)) := by
      refine each.imp fun item place both => ?_
      rw [both.1]
      exact both.2
    have elements := stores_mapM turns
    rw [same] at elements
    rw [save, if_neg some_, if_neg (not_not_intro count.symm)]
    exact elements.zero

theorem reloads_ecdhTuple (init : EcdhTuple) : Reloads 1 EcdhTuple.serialize init := by
  refine yields_bind (reloads_blob32 init.mask) fun mask first => ?_
  refine yields_bind (reloads_blob32 init.amount) fun amount second => ?_
  refine yields_pure (first.andThen ?_)
  refine second.zero.andThen ?_
  exact stores_pure

/-- A part that is only there under a condition. -/
theorem reloads_if {T : Type} {serialize : Bool → T → BinaryArchive T} {init : T} {c : Prop}
    [Decidable c] (reloads : Reloads 0 serialize init) :
    Reloads 0 (fun W v => if c then serialize W v else pure v) init := by
  by_cases there : c
  · simp only [Reloads, if_pos there]
    exact reloads
  · simp only [Reloads, if_neg there]
    exact yields_pure stores_pure

theorem reloads_rctsigBase (inputs outputs : Nat) (init : RctSigBase) :
    Reloads 1 (RctSigBase.serializeRctsigBase inputs outputs) init := by
  refine yields_bind (reloads_uint8 init.type) fun type first => ?_
  split
  · rename_i null
    refine yields_pure (first.andThen ?_)
    rw [if_pos null, if_pos null]
    exact stores_pure
  rename_i proper
  split
  · exact yields_throw
  rename_i known
  refine yields_bind (reloads_serializeVarint init.txnFee) fun txnFee second => ?_
  refine yields_bind (reloads_if (reloads_serializeCustomVector reloads_blob32))
    fun pseudoOuts third => ?_
  refine yields_bind (reloads_serializeCustomVector reloads_ecdhTuple) fun ecdhInfo fourth => ?_
  refine yields_bind (reloads_serializeCustomVector reloads_blob32) fun outPk fifth => ?_
  refine yields_pure (first.andThen ?_)
  rw [if_neg proper, if_neg known, if_neg proper, if_neg known]
  refine second.zero.andThen ?_
  refine third.andThen ?_
  refine fourth.andThen ?_
  refine fifth.andThen ?_
  exact stores_pure

theorem reloads_rangeSig (init : RangeSig) : Reloads 0 RangeSig.serialize init := by
  refine yields_bind (reloads_serializeBlob init.asig) fun asig first => ?_
  refine yields_bind (reloads_serializeBlob init.Ci) fun Ci second => ?_
  refine yields_pure (first.zero.andThen ?_)
  refine second.zero.andThen ?_
  exact stores_pure

theorem reloads_mgSig (rows elements : Nat) (init : MgSig) :
    Reloads 0 (MgSig.serialize rows elements) init := by
  have row (place : List Key) :=
    @reloads_serializeCustomVector _ _ _ _ place elements reloads_blob32
  refine yields_bind (reloads_serializeCustomVector row) fun ss first => ?_
  refine yields_bind (reloads_blob32 init.cc) fun cc second => ?_
  refine yields_pure (first.andThen ?_)
  refine second.zero.andThen ?_
  exact stores_pure

theorem reloads_rctsigPrunable (type : UInt8) (inputs outputs mixin : Nat)
    (init : RctSigPrunable) :
    Reloads 0 (RctSigPrunable.serializeRctsigPrunable type inputs outputs mixin) init := by
  simp only [Reloads, RctSigPrunable.serializeRctsigPrunable]
  split
  · exact yields_pure stores_pure
  split
  · exact yields_throw
  refine yields_bind (reloads_serializeCustomVector reloads_rangeSig) fun rangeSigs first => ?_
  refine yields_bind (reloads_serializeCustomVector (reloads_mgSig _ _)) fun MGs second => ?_
  refine yields_pure (first.andThen ?_)
  refine second.andThen ?_
  exact stores_pure

theorem reloads_proofs (v : TransactionPrefix) (init : List (List Signature) × RctSig) :
    Reloads 0 v.serializeProofs init := by
  simp only [Reloads, TransactionPrefix.serializeProofs]
  split
  · refine yields_bind (reloads_serializeSignatures v.vin init.1) fun signatures first => ?_
    refine yields_pure (first.andThen ?_)
    exact stores_pure
  split
  · exact yields_pure stores_pure
  refine yields_bind (reloads_rctsigBase v.vin.length v.vout.length init.2.toRctSigBase)
    fun base first => ?_
  split
  · rename_i some_
    refine yields_bind (reloads_rctsigPrunable base.type v.vin.length v.vout.length v.mixin
      init.2.p) fun p second => ?_
    refine yields_pure (first.zero.andThen ?_)
    rw [if_pos some_, if_pos some_]
    refine second.andThen ?_
    exact stores_pure
  · rename_i none
    refine yields_pure (first.zero.andThen ?_)
    rw [if_neg none, if_neg none]
    exact stores_pure

/-! ### The extra field -/

def TransactionPrefix.withExtra (v : TransactionPrefix) (extra : Bytes) : TransactionPrefix :=
  { v with extra }

def Transaction.withExtra (t : Transaction) (extra : Bytes) : Transaction :=
  { t with extra }

/-- How much is written of a transaction before its extra field: the members before it, and its
length. -/
def TransactionPrefix.extraOffset (v : TransactionPrefix) : Nat :=
  List.length <| dumpBinary do
    let _ ← serializeVarint true v.version
    let _ ← serializeVarint true v.unlockTime
    let _ ← serializeVector Txin.serialize true v.vin
    let _ ← serializeVector TxOut.serialize true v.vout
    serializeVarint true (UInt64.ofNat v.extra.length)

/-- A vector of bytes is written as it is, behind its length. -/
theorem agree_bytes {bytes : Bytes} (init : Bytes) (small : bytes.length < 2 ^ 64) :
    Agree (serializeVector serializeInt true bytes) (serializeVector serializeInt false init) bytes
      (writeVarint bytes.length ++ bytes) := by
  have each : List.Forall₂ (fun b place => Agree (serializeInt true b) (serializeInt false place)
      b [b]) bytes (List.replicate bytes.length (default : UInt8)) := by
    clear small
    induction bytes with
    | nil => exact .nil
    | cons b bytes ih =>
        refine .cons ?_ ih
        have byte : uintBytes (Unsigned.size UInt8) (Unsigned.toNat b) = [b] :=
          congrArg (fun b => [b]) UInt8.ofNat_toNat
        have agree := agree_serializeInt b default
        rwa [byte] at agree
  have elements := agree_mapM each
  rw [List.map_id', List.flatMap_singleton'] at elements
  exact agree_serializeVector small elements (Nat.le_refl _)

theorem yields_bytes (init : Bytes) :
    Yields (serializeVector serializeInt false init) fun bytes => bytes.length < 2 ^ 64 := by
  refine yields_bind (yields_serializeVarint (0 : UInt64)) fun cnt _ => ?_
  refine (yields_loadElements reloads_uint8).mono fun bytes loaded => ?_
  rw [← loaded.length_eq, List.length_replicate]
  exact cnt.toNat_lt

theorem extraOffset_eq {v init : TransactionPrefix} {first second third fourth : Bytes}
    (version : Agree (serializeVarint true v.version) (serializeVarint false init.version) v.version
      first)
    (unlockTime : Agree (serializeVarint true v.unlockTime) (serializeVarint false init.unlockTime)
      v.unlockTime second)
    (vin : Agree (serializeVector Txin.serialize true v.vin)
      (serializeVector Txin.serialize false init.vin) v.vin third)
    (vout : Agree (serializeVector TxOut.serialize true v.vout)
      (serializeVector TxOut.serialize false init.vout) v.vout fourth)
    (small : v.extra.length < 2 ^ 64) :
    v.extraOffset = first.length + (second.length + (third.length + (fourth.length +
      (writeVarint v.extra.length).length))) := by
  have count := agree_serializeVarint (UInt64.ofNat v.extra.length) 0
  have toNat : Unsigned.toNat (UInt64.ofNat v.extra.length) = v.extra.length :=
    UInt64.toNat_ofNat_of_lt' small
  rw [toNat] at count
  have whole : Agree (do
      let _ ← serializeVarint true v.version
      let _ ← serializeVarint true v.unlockTime
      let _ ← serializeVector Txin.serialize true v.vin
      let _ ← serializeVector TxOut.serialize true v.vout
      serializeVarint true (UInt64.ofNat v.extra.length)) (do
      let _ ← serializeVarint false init.version
      let _ ← serializeVarint false init.unlockTime
      let _ ← serializeVector Txin.serialize false init.vin
      let _ ← serializeVector TxOut.serialize false init.vout
      serializeVarint false 0) (UInt64.ofNat v.extra.length)
      (first ++ (second ++ (third ++ (fourth ++ writeVarint v.extra.length)))) := by
    refine agree_bind version ?_
    refine agree_bind unlockTime ?_
    refine agree_bind vin ?_
    refine agree_bind vout ?_
    exact count
  rw [TransactionPrefix.extraOffset, dumpBinary_of_agree whole]
  simp only [List.length_append]

/-- The members of a transaction are written alike for all extra fields of one length. -/
theorem slot_transactionPrefix (init : TransactionPrefix) :
    Yields (TransactionPrefix.serialize false init) fun v =>
      Slot v.extraOffset v.extra.length (fun extra => (v.withExtra extra).serialize true)
        (TransactionPrefix.serialize false init) v.withExtra := by
  refine yields_bind (reloads_serializeVarint init.version) fun version first => ?_
  split
  · exact yields_throw
  rename_i supported
  refine yields_bind (reloads_serializeVarint init.unlockTime) fun unlockTime second => ?_
  refine yields_bind (reloads_serializeVector (by decide) reloads_txin) fun vin third => ?_
  refine yields_bind (reloads_serializeVector (by decide) reloads_txOut) fun vout fourth => ?_
  refine yields_bind (yields_bytes init.extra) fun extra small => yields_pure ?_
  obtain ⟨_, _, first⟩ := first
  obtain ⟨_, _, second⟩ := second
  obtain ⟨_, _, third⟩ := third
  obtain ⟨_, _, fourth⟩ := fourth
  rw [extraOffset_eq first second third fourth small]
  refine Slot.after first ?_
  simp only [if_neg supported]
  refine Slot.after second ?_
  refine Slot.after third ?_
  refine Slot.after fourth ?_
  refine slot_of_agree _ fun items length => ?_
  have bytes := agree_bytes init.extra (length ▸ small)
  rw [length] at bytes
  rw [← List.append_nil (writeVarint extra.length ++ items)]
  refine agree_bind bytes ?_
  exact agree_pure

/-- A transaction that is loaded is saved and loaded back, and so is one with another extra field of
the length; only the field is written differently. -/
theorem slot_transaction (init : Transaction) :
    Yields (Transaction.serialize false init) fun t =>
      Slot t.toTransactionPrefix.extraOffset t.extra.length
        (fun extra => (t.withExtra extra).serialize true)
        (Transaction.serialize false init) t.withExtra := by
  refine yields_bind (slot_transactionPrefix init.toTransactionPrefix) fun v first => ?_
  refine yields_bind (reloads_proofs v (init.signatures, init.rctSignatures))
    fun proofs second => ?_
  refine yields_pure ?_
  obtain ⟨written, _, second⟩ := second
  refine Slot.andThen first ⟨written ++ [], fun extra _ => ?_⟩
  refine agree_bind second ?_
  exact agree_pure

/-! ### What is loaded into an empty transaction -/

/-- What holds of the parts of a transaction that was loaded.  Only version 1 has signatures of its
own; after it, each part is loaded back by itself. -/
structure Transaction.Loaded (t : Transaction) : Prop where
  whole : Stores 0 (t.serialize true) (Transaction.serialize false default) t
  members : Stores 0 (t.toTransactionPrefix.serialize true)
    (TransactionPrefix.serialize false Transaction.setNull.toTransactionPrefix)
    t.toTransactionPrefix
  signatures : t.version ≠ 1 → t.signatures = []
  unsigned : t.version = 1 → t.rctSignatures = {}
  base : t.version ≠ 1 →
    Stores 0 (RctSigBase.serializeRctsigBase t.vin.length t.vout.length true
        t.rctSignatures.toRctSigBase)
      (RctSigBase.serializeRctsigBase t.vin.length t.vout.length false {})
      t.rctSignatures.toRctSigBase
  prunable : t.version ≠ 1 →
    if t.rctSignatures.type = rctTypeNull then t.rctSignatures.p = {}
    else Stores 0 (RctSigPrunable.serializeRctsigPrunable t.rctSignatures.type t.vin.length
        t.vout.length t.mixin true t.rctSignatures.p)
      (RctSigPrunable.serializeRctsigPrunable t.rctSignatures.type t.vin.length t.vout.length
        t.mixin false {})
      t.rctSignatures.p

/-- The signatures after version 1, where there were none before. -/
theorem yields_proofs_later {v : TransactionPrefix} (later : v.version ≠ 1) :
    Yields (v.serializeProofs false ([], {})) fun proofs => proofs.1 = [] ∧
      Stores 0 (RctSigBase.serializeRctsigBase v.vin.length v.vout.length true
          proofs.2.toRctSigBase)
        (RctSigBase.serializeRctsigBase v.vin.length v.vout.length false {})
        proofs.2.toRctSigBase ∧
      if proofs.2.type = rctTypeNull then proofs.2.p = {}
      else Stores 0 (RctSigPrunable.serializeRctsigPrunable proofs.2.type v.vin.length
          v.vout.length v.mixin true proofs.2.p)
        (RctSigPrunable.serializeRctsigPrunable proofs.2.type v.vin.length v.vout.length
          v.mixin false {})
        proofs.2.p := by
  simp only [TransactionPrefix.serializeProofs, if_neg later]
  split
  · have null := stores_of_agree (agree_serializeInt rctTypeNull rctTypeNull) (Nat.zero_le _)
    refine yields_pure ⟨rfl, null.andThen ?_, rfl⟩
    exact stores_pure
  refine yields_bind (reloads_rctsigBase v.vin.length v.vout.length {}) fun base first => ?_
  split
  · rename_i some_
    refine yields_bind (reloads_rctsigPrunable base.type v.vin.length v.vout.length v.mixin {})
      fun p second => yields_pure ⟨rfl, first.zero, ?_⟩
    rw [if_neg some_]
    exact second
  · rename_i none
    refine yields_pure ⟨rfl, first.zero, ?_⟩
    rw [if_pos (not_not.mp none)]

theorem yields_proofs_first {v : TransactionPrefix} (first : v.version = 1) :
    Yields (v.serializeProofs false ([], {})) fun proofs => proofs.2 = {} := by
  simp only [TransactionPrefix.serializeProofs, if_pos first]
  exact yields_bind (reloads_serializeSignatures v.vin []) fun _ _ => yields_pure rfl

theorem yields_transaction : Yields (Transaction.serialize false default) Transaction.Loaded := by
  have whole : Yields (Transaction.serialize false default) fun t =>
      Stores 0 (t.serialize true) (Transaction.serialize false default) t :=
    (slot_transaction default).mono fun t slot => slot.stores rfl
  have parts : Yields (Transaction.serialize false default) fun t =>
      Stores 0 (t.serialize true) (Transaction.serialize false default) t → t.Loaded := by
    refine yields_bind (slot_transactionPrefix Transaction.setNull.toTransactionPrefix)
      fun v members => ?_
    have members := members.stores (show v.extra.length = v.extra.length from rfl)
    by_cases first : v.version = 1
    · refine yields_bind (yields_proofs_first first) fun proofs unsigned => yields_pure ?_
      exact fun whole => ⟨whole, members, fun later => (later first).elim, fun _ => unsigned,
        fun later => (later first).elim, fun later => (later first).elim⟩
    · refine yields_bind (yields_proofs_later first) fun proofs ⟨signatures, base, prunable⟩ =>
        yields_pure ?_
      exact fun whole => ⟨whole, members, fun _ => signatures, fun same => (first same).elim,
        fun _ => base, fun _ => prunable⟩
  exact (yields_and whole parts).mono fun t ⟨stores, loaded⟩ => loaded stores

end Hypepool.Cryptonote
