import Hypepool.Common.NativeLibrary
import Hypepool.Monero.StartupSafety

/-!
# The addresses of miners

`ValidateAddress` looks at the length of an address and at the tag the native library decodes it to.
With the library in its place, this is all it needs: only an address with a tag of one byte has the
length, and only the address of an account is decoded to a tag.

* `validateAddress_native_iff`: the strings it accepts are the addresses under the tag of the pool.
* `accepted_are_addresses`: so are the addresses of the authorized clients in every run.
-/

namespace Hypepool.MoneroPool

open Base Cryptonote NativeLibrary MoneroConstants

/-- The string is the address of the account under the tag. -/
def IsAddress (tag : UInt64) (adr : AccountPublicAddress) (address : NetString) : Prop :=
  (getAccountAddressAsStr tag adr).map ofAscii = some address

section Validation

variable {isLittleEndian : Bool} {stack : Nat} {checkKey : PublicKey → Bool} {tag tag' : UInt64}
  {adr adr' : AccountPublicAddress} {address : NetString}

theorem getUtf8Bytes_of_isAddress (isAddress : IsAddress tag adr address) :
    getAccountAddressAsStr tag adr = some (getUtf8Bytes address) := by
  obtain ⟨addr, encoded, written⟩ := Option.map_eq_some_iff.mp isAddress
  rw [(getUtf8Bytes_eq_iff (ascii_of_address encoded)).mpr written.symm]
  exact encoded

theorem isAddress_of_getUtf8Bytes
    (encoded : getAccountAddressAsStr tag adr = some (getUtf8Bytes address)) :
    IsAddress tag adr address := by
  rw [IsAddress, encoded, Option.map_some,
    ← (getUtf8Bytes_eq_iff (ascii_of_address encoded)).mp rfl]

/-- An address has the length of Monero's exactly when its tag is one byte. -/
theorem length_iff_of_isAddress (isAddress : IsAddress tag adr address) :
    address.length = addressLength ↔ tag.toNat < 128 := by
  obtain ⟨addr, encoded, written⟩ := Option.map_eq_some_iff.mp isAddress
  rw [← length_address_iff encoded, ← written, length_ofAscii]
  exact Iff.rfl

theorem isAddress_inj (first : IsAddress tag adr address) (second : IsAddress tag' adr' address) :
    tag = tag' ∧ adr = adr' :=
  address_inj (getUtf8Bytes_of_isAddress first) (getUtf8Bytes_of_isAddress second)

/-- A tag of one byte goes through the `uint32_t` of the export. -/
theorem toUInt64_toUInt32 (small : tag.toNat < 128) : tag.toUInt32.toUInt64 = tag := by
  rw [← UInt64.toNat_inj, UInt32.toNat_toUInt64, UInt64.toNat_toUInt32]
  omega

theorem decodeAddress_of_isAddress (checked : adr.Checked checkKey) (small : tag.toNat < 128)
    (isAddress : IsAddress tag adr address) :
    (nativeHost isLittleEndian stack checkKey).decodeAddress address = tag := by
  have exported := decodeAddressExport_of_address checked (getUtf8Bytes_of_isAddress isAddress)
  exact (congrArg UInt32.toUInt64 exported).trans (toUInt64_toUInt32 small)

/-- What has the length of an address and is decoded, is one. -/
theorem isAddress_of_decodeAddress (length : address.length = addressLength)
    (nonzero : (nativeHost isLittleEndian stack checkKey).decodeAddress address ≠ 0) :
    ∃ adr tag, adr.Checked checkKey ∧ tag.toNat < 128 ∧ IsAddress tag adr address ∧
      (nativeHost isLittleEndian stack checkKey).decodeAddress address = tag := by
  have exported : decodeAddressExport checkKey (getUtf8Bytes address) ≠ 0 := fun zero =>
    nonzero (congrArg UInt32.toUInt64 zero)
  obtain ⟨tag, adr, checked, encoded⟩ := address_of_decodeAddressExport exported
  have isAddress := isAddress_of_getUtf8Bytes encoded
  have small := (length_iff_of_isAddress isAddress).mp length
  exact ⟨adr, tag, checked, small, isAddress, decodeAddress_of_isAddress checked small isAddress⟩

/-- A string that passes is the address of one account under the prefix. -/
theorem isAddress_of_isValid (nonzero : tag ≠ 0)
    (valid : isValid (nativeHost isLittleEndian stack checkKey) tag address = true) :
    tag.toNat < 128 ∧ ∃! adr, adr.Checked checkKey ∧ IsAddress tag adr address := by
  rw [isValid, Bool.and_eq_true, beq_iff_eq, beq_iff_eq] at valid
  obtain ⟨adr, tag', checked, small, isAddress, decoded⟩ :=
    isAddress_of_decodeAddress valid.1 (valid.2 ▸ nonzero)
  obtain rfl : tag = tag' := valid.2.symm.trans decoded
  exact ⟨small, adr, ⟨checked, isAddress⟩, fun _ other => (isAddress_inj other.2 isAddress).2⟩

/-- **What `ValidateAddress` accepts.**  Where the pool has decoded its own address to a prefix, the
strings it accepts are the addresses under this prefix of accounts with two keys on the curve, and
it accepts none when the prefix takes more than one byte. -/
theorem validateAddress_native_iff (nonzero : tag ≠ 0) :
    validateAddress (nativeHost isLittleEndian stack checkKey) tag (some address) = .ok true ↔
      tag.toNat < 128 ∧ ∃! adr, adr.Checked checkKey ∧ IsAddress tag adr address := by
  rw [validateAddress_some, Except.ok.injEq]
  refine ⟨isAddress_of_isValid nonzero, fun both => ?_⟩
  obtain ⟨small, adr, ⟨checked, isAddress⟩, _⟩ := both
  rw [isValid, Bool.and_eq_true, beq_iff_eq, beq_iff_eq]
  exact ⟨(length_iff_of_isAddress isAddress).mpr small,
    decodeAddress_of_isAddress checked small isAddress⟩

/-- The address of some account passes. -/
theorem validateAddress_native_iff_zero : ∃ address,
    validateAddress (nativeHost true 0 fun _ => true) 53 (some address) = .ok true := by
  obtain ⟨addr, encoded⟩ := address_total 53 default
  have isAddress : IsAddress 53 default (ofAscii addr) := by
    rw [IsAddress, encoded]
    rfl
  refine ⟨ofAscii addr, (validateAddress_native_iff (by decide)).mpr ⟨by decide, default, ?_, ?_⟩⟩
  · exact ⟨⟨rfl, rfl⟩, isAddress⟩
  · exact fun _ other => (isAddress_inj other.2 isAddress).2

end Validation

/-! ## Runs of the pool -/

section Runs

variable {Id Token : Type}

theorem length_poolAddress : MoneroPoolContext.poolAddress.length = addressLength := by
  decide +kernel

/-- **Miners are accounts.**  In every run from `Engine.Start` on with the native library, whatever
the daemons answer and the clients send: either nobody is connected, or the pool's own address is
that of an account under a tag of one byte, and every address a client was authorized for is the
address of one account under the same tag, with both keys on the curve. -/
theorem accepted_are_addresses [CurrentCulture] (surroundings : Surroundings Token)
    (instanceId : InstanceId) {isLittleEndian : Bool} {stack : Nat} {checkKey : PublicKey → Bool}
    (native : surroundings.host = nativeHost isLittleEndian stack checkKey)
    {schedule : List (Label Id Token)} {pool : State Id}
    (run : exec (step surroundings) (configured Id instanceId) schedule = some pool) :
    (∀ client, pool.clients client = none) ∨
      ∃ tag : UInt64, tag.toNat < 128 ∧
        (∃! adr, adr.Checked checkKey ∧ IsAddress tag adr MoneroPoolContext.poolAddress) ∧
        ∀ client session, pool.clients client = some session → ∀ address ∈ session.accepted,
          ∃! adr, adr.Checked checkKey ∧ IsAddress tag adr address := by
  have sound := sound_run run
  cases serving : pool.serving with
  | false =>
      refine Or.inl fun client => Option.eq_none_iff_forall_ne_some.mpr fun session present => ?_
      exact sound.no_clients serving client session present
  | true =>
      have initialized := (sound.served serving).2
      have begun : pool.startup ≠ .preInitChecks := fun here =>
        nomatch (sound.unchecked here).symm.trans initialized
      have decodable := (sound.checked begun).mp initialized
      have isPoolPrefix := sound.decoded initialized
      rw [native] at decodable isPoolPrefix
      have nonzero : pool.poolAddressBase58Prefix ≠ 0 := isPoolPrefix ▸ decodable
      have own : isValid (nativeHost isLittleEndian stack checkKey) pool.poolAddressBase58Prefix
          MoneroPoolContext.poolAddress = true := by
        rw [isValid, Bool.and_eq_true, beq_iff_eq, beq_iff_eq]
        exact ⟨length_poolAddress, isPoolPrefix.symm⟩
      obtain ⟨small, account⟩ := isAddress_of_isValid nonzero own
      refine Or.inr ⟨pool.poolAddressBase58Prefix, small, account, ?_⟩
      intro client session present address member
      have valid := (sound.accredited client session present).valid address member
      rw [native] at valid
      exact (isAddress_of_isValid nonzero valid).2

end Runs

section Samples

open OrdinalCulture

/-- Libraries that decode the pool's own address alike are told apart by requests only. -/
theorem step_of_decodes {host : Host} {pool : State Unit} {label : Label Unit SampleToken}
    (same : host.decodeAddress MoneroPoolContext.poolAddress =
      sampleHost.decodeAddress MoneroPoolContext.poolAddress)
    (other : ∀ client circumstances deserialized,
      label ≠ .request client circumstances deserialized) :
    step { sampleSurroundings with host := host } pool label =
      step sampleSurroundings pool label := by
  cases label with
  | runPreInitChecks =>
      have begun : beginInitialize host pool = beginInitialize sampleHost pool := by
        rw [beginInitialize, beginInitialize, run_runPreInitChecks, run_runPreInitChecks, same]
      exact if_congr Iff.rfl (congrArg some begun) rfl
  | request client circumstances deserialized =>
      exact (other client circumstances deserialized rfl).elim
  | _ => rfl

/-- The daemons answer as they should, and a miner connects. -/
def connectRun : List (Label Unit SampleToken) :=
  startupWith MoneroPoolContext.poolAddress ++ [.connect 0 (text "1") 0]

/-- A login with the pool's own address. -/
def ownLogin : JsonRpcRequest Unit SampleToken where
  method := some MoneroStratumMethods.login
  params := some (.token (.login ⟨some MoneroPoolContext.poolAddress, none⟩))
  id := some ()

def ownLoginRun : List (Label Unit SampleToken) :=
  connectRun ++ [.request 0 sampleCircumstances (.ok (some ownLogin))]

theorem exec_connectRun {host : Host}
    (decodes : host.decodeAddress MoneroPoolContext.poolAddress = 53) :
    ∃ pool session context,
      exec (step { sampleSurroundings with host := host }) (configured Unit ⟨[1, 2, 3], rfl⟩)
        connectRun = some pool ∧
      pool.clients 0 = some session ∧ session.context = some context ∧ session.accepted = [] ∧
      pool.poolAddressBase58Prefix = 53 := by
  have outcome : (exec (step sampleSurroundings) (configured Unit ⟨[1, 2, 3], rfl⟩)
      connectRun).bind (fun pool => (pool.clients 0).bind fun session => session.context.map
        fun _ => (session.accepted, pool.poolAddressBase58Prefix)) = some ([], 53) := by
    decide +kernel
  obtain ⟨pool, run, entry⟩ := Option.bind_eq_some_iff.mp outcome
  obtain ⟨session, present, entry⟩ := Option.bind_eq_some_iff.mp entry
  obtain ⟨context, recorded, both⟩ := Option.map_eq_some_iff.mp entry
  injection both with accepted isPrefix
  have sampleDecodes : sampleHost.decodeAddress MoneroPoolContext.poolAddress = 53 := by
    dsimp only [sampleHost]
    exact if_pos rfl
  refine ⟨pool, session, context, ?_, present, recorded, accepted, isPrefix⟩
  rw [← run]
  refine exec_congr fun pool label member => step_of_decodes (decodes.trans sampleDecodes.symm) ?_
  rintro client circumstances deserialized rfl
  revert member
  simp [connectRun, startupWith]

/-- The miner is authorized, with every library that decodes this address. -/
theorem exec_ownLoginRun {host : Host}
    (decodes : host.decodeAddress MoneroPoolContext.poolAddress = 53) :
    ∃ pool session,
      exec (step { sampleSurroundings with host := host }) (configured Unit ⟨[1, 2, 3], rfl⟩)
        ownLoginRun = some pool ∧
      pool.clients 0 = some session ∧ session.accepted = [MoneroPoolContext.poolAddress] := by
  obtain ⟨pool, session, context, run, present, recorded, accepted, isPrefix⟩ :=
    exec_connectRun decodes
  have valid : isValid host 53 MoneroPoolContext.poolAddress = true := by
    rw [isValid, poolAddress_plain.2.2, decodes, beq_self_eq_true, beq_self_eq_true, Bool.and_self]
  have carried : givenLogin (some ⟨some MoneroPoolContext.poolAddress, none⟩) =
      some (⟨some MoneroPoolContext.poolAddress, none⟩, MoneroPoolContext.poolAddress) := by
    simp [givenLogin, poolAddress_ne_nil]
  have name := firstPart_of_not_mem poolAddress_plain.1
  have recorded' : ({ session with currentJob := pool.jobManager.currentJob } :
      Session Unit).context = some context := recorded
  have login := (@onLogin_of_not_mem _ _ host 53 SampleToken.toLogin
    sampleCircumstances ownLogin _ _ _ _ recorded' rfl _ rfl carried
    (name.symm ▸ poolAddress_plain.2.1)).2
  have login : (Base.stateAfter (onLogin host 53 SampleToken.toLogin
      sampleCircumstances ownLogin)
        { session with currentJob := pool.jobManager.currentJob }).accepted =
      [MoneroPoolContext.poolAddress] := by
    rw [login, name, valid, if_pos rfl]
    exact congrArg (· ++ [_]) accepted
  refine ⟨handleRequest { sampleSurroundings with host := host } pool 0 session
    sampleCircumstances (.ok (some ownLogin)),
    onReceive host pool.poolAddressBase58Prefix SampleToken.toLogin
      sampleCircumstances (.ok (some ownLogin))
      { session with currentJob := pool.jobManager.currentJob },
    exec_append_eq_some.mpr ⟨pool, run, ?_⟩, rfl, ?_⟩
  · rw [exec_cons, step, present]
    rfl
  · rw [isPrefix]
    exact login

unseal keccakState in
set_option maxRecDepth 100000 in
/-- The pool's own address is one. -/
theorem decodeAddressExport_poolAddress :
    decodeAddressExport (fun _ => true) (getUtf8Bytes MoneroPoolContext.poolAddress) = 53 := by
  decide +kernel

/-- The pool serves, and a miner is authorized for its own address. -/
theorem accepted_are_addresses_login :
    let surroundings :=
      { sampleSurroundings with host := nativeHost true 0 fun _ => true }
    ∃ pool session, exec (step surroundings) (configured Unit ⟨[1, 2, 3], rfl⟩) ownLoginRun =
        some pool ∧
      pool.clients 0 = some session ∧ session.accepted = [MoneroPoolContext.poolAddress] ∧
      ∃ tag : UInt64, tag.toNat < 128 ∧ ∃! adr, adr.Checked (fun _ => true) ∧
        IsAddress tag adr MoneroPoolContext.poolAddress := by
  intro surroundings
  have decodes : surroundings.host.decodeAddress MoneroPoolContext.poolAddress = 53 :=
    congrArg UInt32.toUInt64 decodeAddressExport_poolAddress
  obtain ⟨pool, session, run, present, accepted⟩ := exec_ownLoginRun decodes
  have own : MoneroPoolContext.poolAddress ∈ session.accepted :=
    accepted ▸ List.mem_singleton_self _
  rcases accepted_are_addresses surroundings _ rfl run with idle | ⟨tag, small, _, addresses⟩
  · cases present.symm.trans (idle 0)
  · exact ⟨pool, session, run, present, accepted, tag, small, addresses 0 session present _ own⟩

end Samples

end Hypepool.MoneroPool
