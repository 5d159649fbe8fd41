import Hypepool.Base.Archive
import Hypepool.Cryptonote.Varint
import Mathlib.Tactic.Ring

/-!
# `serialization.h`, `binary_archive.h`, `vector.h`, `variant.h`

One function describes how objects of a type are saved and how they are loaded: it is a template
over `W`, which is true for saving.  A program for an archive runs on the bytes written so far when
it saves, and on the bytes still to be read when it loads.  It ends in the error when a serializer
returns false or leaves a stream that is not good, as the `FIELD` macros do.

For each of them a lemma `agree_…` or `stores_…` says that what it saves is loaded back, and a lemma
`reloads_…` that every object it loads is one that it saves and loads back.
-/

namespace Hypepool.Cryptonote

open Base

abbrev BinaryArchive := EStateM Unit Bytes

/-- An object of `size` bytes, the `BLOB_SERIALIZER` types. -/
abbrev Blob (size : Nat) := { bytes : Bytes // bytes.length = size }

instance (size : Nat) : Inhabited (Blob size) :=
  ⟨⟨List.replicate size 0, List.length_replicate⟩⟩

variable {T : Type}

/-- `serialize_varint`.  What `read_varint` returns is not looked at. -/
def serializeVarint [Unsigned T] (W : Bool) (v : T) : BinaryArchive T :=
  if W then do
    modify (· ++ writeVarint (Unsigned.toNat v))
    return v
  else do
    let loaded := readVarint (Unsigned.digits T) (← get)
    set loaded.rest
    return Unsigned.ofNat loaded.write

/-- The loop of `serialize_uint` when saving. -/
def uintBytes : (width : Nat) → (v : Nat) → Bytes
  | 0, _ => []
  | width + 1, v => v.toUInt8 :: uintBytes width (v >>> 8)

/-- The loop of `serialize_uint` when loading. -/
def uintValue (shift : Nat) : Bytes → Nat
  | [] => 0
  | b :: bytes => (b.toNat <<< shift) + uintValue (shift + 8) bytes

/-- `stream_.read`. -/
def readBytes (len : Nat) : BinaryArchive Bytes := do
  let input ← get
  if input.length < len then throw ()
  else do
    set (input.drop len)
    return input.take len

/-- `serialize_int`, for an unsigned type of whole bytes. -/
def serializeInt [Unsigned T] (W : Bool) (v : T) : BinaryArchive T :=
  if W then do
    modify (· ++ uintBytes (Unsigned.size T) (Unsigned.toNat v))
    return v
  else do
    let bytes ← readBytes (Unsigned.size T)
    return Unsigned.ofNat (uintValue 0 bytes)

/-- `serialize_blob`. -/
def serializeBlob {size : Nat} (W : Bool) (v : Blob size) : BinaryArchive (Blob size) :=
  if W then do
    modify (· ++ v.val)
    return v
  else do
    let input ← get
    if room : size ≤ input.length then do
      set (input.drop size)
      return ⟨input.take size, List.length_take_of_le room⟩
    else throw ()

/-- `remaining_bytes`. -/
def remainingBytes : BinaryArchive Nat := return (← get).length

/-- The elements of a `std::vector` that is loaded, of which there are said to be `cnt`. -/
def loadElements [Inhabited T] (element : Bool → T → BinaryArchive T) (cnt : Nat) :
    BinaryArchive (List T) := do
  -- very basic sanity check
  if (← remainingBytes) < cnt then throw ()
  else (List.replicate cnt default).mapM (element false)

/-- `do_serialize` of a `std::vector`, whose elements `element` serializes. -/
def serializeVector [Inhabited T] (element : Bool → T → BinaryArchive T) (W : Bool) (v : List T) :
    BinaryArchive (List T) :=
  if W then do
    let _ ← serializeVarint W (UInt64.ofNat v.length)
    v.mapM (element W)
  else do
    let cnt ← serializeVarint W (0 : UInt64)
    loadElements element cnt.toNat

/-- `PREPARE_CUSTOM_VECTOR_SERIALIZATION`. -/
def prepareCustomVector [Inhabited T] (W : Bool) (size : Nat) (vec : List T) : List T :=
  if W then vec else vec.take size ++ List.replicate (size - vec.length) default

/-- An array whose length `size` is not written: the vector is prepared, checked, and serialized
element by element. -/
def serializeCustomVector [Inhabited T] (element : Bool → T → BinaryArchive T) (W : Bool)
    (size : Nat) (vec : List T) : BinaryArchive (List T) :=
  let vec := prepareCustomVector W size vec
  if vec.length ≠ size then throw () else vec.mapM (element W)

/-- `::serialization::serialize` when loading: the whole blob has to be read. -/
def parseBinary (load : BinaryArchive T) (blob : Bytes) : Option T :=
  match load.run blob with
  | .ok v [] => some v
  | _ => none

/-- `dump_binary`, `t_serializable_object_to_blob`: what was written, also when it failed. -/
def dumpBinary (save : BinaryArchive T) : Bytes := stateAfter save []

/-! ## Integers and blobs -/

theorem agree_serializeVarint [Unsigned T] (v init : T) :
    Agree (serializeVarint true v) (serializeVarint false init) v
      (writeVarint (Unsigned.toNat v)) := by
  refine ⟨fun out => rfl, fun rest => ?_⟩
  have loaded : (serializeVarint false init).run (writeVarint (Unsigned.toNat v) ++ rest) =
      let loaded := readVarint (Unsigned.digits T) (writeVarint (Unsigned.toNat v) ++ rest)
      .ok (Unsigned.ofNat loaded.write) loaded.rest := rfl
  have fits : Unsigned.toNat v < 2 ^ Unsigned.digits T := Unsigned.toNat_lt v
  rw [loaded, readVarint_writeVarint fits]
  exact congrArg (fun v => EStateM.Result.ok v rest) (Unsigned.ofNat_toNat v)

theorem uintBytes_length (width v : Nat) : (uintBytes width v).length = width := by
  induction width generalizing v with
  | zero => rfl
  | succ width ih => rw [uintBytes, List.length_cons, ih]

theorem uintValue_uintBytes (width v shift : Nat) :
    uintValue shift (uintBytes width v) = v % 2 ^ (8 * width) * 2 ^ shift := by
  induction width generalizing v shift with
  | zero => rw [Nat.mul_zero, Nat.pow_zero, Nat.mod_one, Nat.zero_mul]; rfl
  | succ width ih =>
      have power : 2 ^ (8 * (width + 1)) = 2 ^ 8 * 2 ^ (8 * width) := by
        rw [← Nat.pow_add, Nat.mul_succ, Nat.add_comm]
      have digit : v.toUInt8.toNat = v % 2 ^ 8 := UInt8.toNat_ofNat'
      rw [uintBytes, uintValue, ih, digit, Nat.shiftLeft_eq, Nat.shiftRight_eq_div_pow, power,
        Nat.mod_mul, Nat.add_mul, Nat.pow_add 2 shift 8]
      ring

theorem readBytes_run {bytes rest : Bytes} {len : Nat} (length : bytes.length = len) :
    (readBytes len).run (bytes ++ rest) = .ok bytes rest := by
  have room : ¬ (bytes ++ rest).length < len := by
    rw [List.length_append]
    omega
  have run : (readBytes len).run (bytes ++ rest) =
      (if (bytes ++ rest).length < len then throw () else do
        set ((bytes ++ rest).drop len)
        return (bytes ++ rest).take len : BinaryArchive Bytes).run (bytes ++ rest) := rfl
  rw [run, if_neg room, List.drop_left' length, List.take_left' length]
  rfl

theorem agree_serializeInt [Unsigned T] (v init : T) :
    Agree (serializeInt true v) (serializeInt false init) v
      (uintBytes (Unsigned.size T) (Unsigned.toNat v)) := by
  refine ⟨fun out => rfl, fun rest => ?_⟩
  have loaded := run_bind_of_ok (f := fun bytes =>
      (return Unsigned.ofNat (uintValue 0 bytes) : BinaryArchive T))
    (@readBytes_run _ rest _ (uintBytes_length (Unsigned.size T) (Unsigned.toNat v)))
  refine loaded.trans ?_
  rw [uintValue_uintBytes, Nat.mod_eq_of_lt (Unsigned.toNat_lt v), Nat.pow_zero, Nat.mul_one,
    Unsigned.ofNat_toNat]
  rfl

theorem agree_serializeBlob {size : Nat} (v init : Blob size) :
    Agree (serializeBlob true v) (serializeBlob false init) v v.val := by
  refine ⟨fun out => rfl, fun rest => ?_⟩
  have room : size ≤ (v.val ++ rest).length := by
    rw [List.length_append, v.property]
    omega
  have run : (serializeBlob false init).run (v.val ++ rest) =
      (if room : size ≤ (v.val ++ rest).length then do
        set ((v.val ++ rest).drop size)
        return ⟨(v.val ++ rest).take size, List.length_take_of_le room⟩
      else throw () : BinaryArchive (Blob size)).run (v.val ++ rest) := rfl
  have whole : (⟨(v.val ++ rest).take size, List.length_take_of_le room⟩ : Blob size) = v :=
    Subtype.ext (List.take_left' v.property)
  rw [run, dif_pos room, whole, List.drop_left' v.property]
  rfl

/-- Whatever `serialize` loads into `init` is an object that it saves, over no fewer than `least`
bytes, and loads back. -/
def Reloads (least : Nat) (serialize : Bool → T → BinaryArchive T) (init : T) : Prop :=
  Yields (serialize false init) fun v => Stores least (serialize true v) (serialize false init) v

theorem stores_serializeVarint [Unsigned T] (v init : T) :
    Stores 1 (serializeVarint true v) (serializeVarint false init) v :=
  stores_of_agree (agree_serializeVarint v init) (writeVarint_length_pos _)

theorem yields_serializeVarint [Unsigned T] (init : T) :
    Yields (serializeVarint false init) fun _ => True := by
  intro input v rest ended
  injection ended with _ left
  exact ⟨left ▸ readVarintFrom_suffix, trivial⟩

theorem reloads_serializeVarint [Unsigned T] (init : T) :
    Reloads 1 serializeVarint init :=
  (yields_serializeVarint init).mono fun v _ => stores_serializeVarint v init

theorem yields_readBytes (len : Nat) : Yields (readBytes len) fun bytes => bytes.length = len := by
  intro input bytes rest ended
  have run : (readBytes len).run input = (if input.length < len then throw () else do
        set (input.drop len)
        return input.take len : BinaryArchive Bytes).run input := rfl
  rw [run] at ended
  split at ended
  · cases ended
  · rename_i room
    injection ended with taken left
    exact ⟨left ▸ List.drop_suffix _ _, taken ▸ List.length_take_of_le (Nat.not_lt.mp room)⟩

theorem reloads_serializeInt [Unsigned T] (init : T) :
    Reloads (Unsigned.size T) serializeInt init := by
  refine Yields.mono (P := fun _ => True) ?_ fun v _ =>
    stores_of_agree (agree_serializeInt v init) (Nat.le_of_eq (uintBytes_length _ _).symm)
  exact yields_bind (yields_readBytes _) fun _ _ => yields_pure trivial

theorem reloads_serializeBlob {size : Nat} (init : Blob size) :
    Reloads size serializeBlob init := by
  intro input v rest ended
  have run : (serializeBlob false init).run input = (if room : size ≤ input.length then do
        set (input.drop size)
        return ⟨input.take size, List.length_take_of_le room⟩
      else throw () : BinaryArchive (Blob size)).run input := rfl
  refine ⟨?_, stores_of_agree (agree_serializeBlob v init) (Nat.le_of_eq v.property.symm)⟩
  rw [run] at ended
  split at ended
  · injection ended with _ left
    exact left ▸ List.drop_suffix _ _
  · cases ended

theorem input_of_serializeBlob {size : Nat} {init v : Blob size} {input rest : Bytes}
    (loaded : (serializeBlob false init).run input = .ok v rest) : input = v.val ++ rest := by
  have run : (serializeBlob false init).run input = (if room : size ≤ input.length then do
        set (input.drop size)
        return ⟨input.take size, List.length_take_of_le room⟩
      else throw () : BinaryArchive (Blob size)).run input := rfl
  rw [run] at loaded
  split at loaded
  · injection loaded with taken left
    rw [← taken, ← left, List.take_append_drop]
  · cases loaded

/-! ## Whole blobs -/

theorem parseBinary_eq_some_iff {load : BinaryArchive T} {blob : Bytes} {v : T} :
    parseBinary load blob = some v ↔ load.run blob = .ok v [] := by
  rw [parseBinary]
  split <;> simp_all

theorem dumpBinary_of_agree {save load : BinaryArchive T} {v : T} {written : Bytes}
    (agree : Agree save load v written) : dumpBinary save = written :=
  stateAfter_of_ok (agree.saves [])

theorem parseBinary_of_agree {save load : BinaryArchive T} {v : T} {written : Bytes}
    (agree : Agree save load v written) : parseBinary load written = some v := by
  have loaded := agree.loads []
  rw [List.append_nil] at loaded
  exact parseBinary_eq_some_iff.mpr loaded

/-- Objects that are loaded back are written differently. -/
theorem unique_of_stores {save save' load : BinaryArchive T} {v v' : T} {least least' : Nat}
    (first : Stores least save load v) (second : Stores least' save' load v')
    (same : dumpBinary save = dumpBinary save') : v = v' := by
  obtain ⟨written, _, agree⟩ := first
  obtain ⟨written', _, agree'⟩ := second
  rw [dumpBinary_of_agree agree, dumpBinary_of_agree agree'] at same
  exact (agree_unique agree agree' (congrArg (· ++ []) same)).1

/-! ## Vectors -/

section Vector

variable [Inhabited T] {element : Bool → T → BinaryArchive T} {least : Nat} {init v : List T}

theorem loadElements_run (input : Bytes) (cnt : Nat) : (loadElements element cnt).run input =
    (if input.length < cnt then throw ()
      else (List.replicate cnt default).mapM (element false) : BinaryArchive (List T)).run input :=
  rfl

/-- A vector is loaded back when its elements are and when none of them takes no bytes: then the
sanity check passes. -/
theorem agree_serializeVector {written : Bytes} (small : v.length < 2 ^ 64)
    (elements : Agree (v.mapM (element true))
      ((List.replicate v.length default).mapM (element false)) v written)
    (enough : v.length ≤ written.length) :
    Agree (serializeVector element true v) (serializeVector element false init) v
      (writeVarint v.length ++ written) := by
  have toNat : (UInt64.ofNat v.length).toNat = v.length := UInt64.toNat_ofNat_of_lt' small
  have count := agree_serializeVarint (UInt64.ofNat v.length) 0
  have same : Unsigned.toNat (UInt64.ofNat v.length) = v.length := toNat
  rw [same] at count
  refine agree_bind count ⟨elements.saves, fun rest => ?_⟩
  have room : ¬ (written ++ rest).length < v.length := by
    rw [List.length_append]
    omega
  rw [toNat, loadElements_run, if_neg room]
  exact elements.loads rest

theorem stores_serializeVector (small : v.length < 2 ^ 64) (positive : 0 < least)
    (each : List.Forall₂ (fun e place => Stores least (element true e) (element false place) e) v
      (List.replicate v.length default)) :
    Stores 1 (serializeVector element true v) (serializeVector element false init) v := by
  have elements := stores_mapM each
  rw [List.map_id'] at elements
  obtain ⟨written, enough, agree⟩ := elements
  have many := Nat.le_trans (Nat.le_mul_of_pos_right v.length positive) enough
  refine stores_of_agree (agree_serializeVector small agree many) ?_
  have first := writeVarint_length_pos v.length
  rw [List.length_append]
  omega

theorem yields_loadElements {P : T → T → Prop} {cnt : Nat}
    (each : ∀ place, Yields (element false place) (P place)) :
    Yields (loadElements element cnt) fun v => List.Forall₂ P (List.replicate cnt default) v := by
  intro input v rest ended
  rw [loadElements_run] at ended
  split at ended
  · cases ended
  · exact yields_mapM (fun place _ => each place) input v rest ended

theorem reloads_serializeVector (positive : 0 < least)
    (each : ∀ place, Reloads least element place) :
    Reloads 1 (serializeVector element) init := by
  refine yields_bind (yields_serializeVarint (0 : UInt64)) fun cnt _ => ?_
  refine (yields_loadElements each).mono fun v loaded => ?_
  have length : v.length = cnt.toNat := loaded.length_eq.symm.trans List.length_replicate
  refine stores_serializeVector (length ▸ cnt.toNat_lt) positive ?_
  rw [length]
  exact loaded.flip

theorem length_prepareCustomVector (size : Nat) (vec : List T) :
    (prepareCustomVector false size vec).length = size := by
  simp only [prepareCustomVector, Bool.false_eq_true, if_false, List.length_append,
    List.length_take, List.length_replicate]
  omega

/-- An array whose length is not written is loaded back when its elements are. -/
theorem reloads_serializeCustomVector {size : Nat} (each : ∀ place, Reloads least element place) :
    Reloads 0 (fun W => serializeCustomVector element W size) init := by
  have length := length_prepareCustomVector size init
  have load : serializeCustomVector element false size init =
      (prepareCustomVector false size init).mapM (element false) := by
    rw [serializeCustomVector, if_neg (not_not_intro length)]
  rw [Reloads, load]
  refine (yields_mapM fun place _ => each place).mono fun v loaded => ?_
  have full : v.length = size := loaded.length_eq.symm.trans length
  have save : serializeCustomVector element true size v = v.mapM (element true) := by
    rw [serializeCustomVector, prepareCustomVector, if_pos rfl, if_neg (not_not_intro full)]
  have elements := stores_mapM loaded.flip
  rw [List.map_id'] at elements
  rw [save]
  exact elements.mono (Nat.zero_le _)

end Vector

end Hypepool.Cryptonote
