import Hypepool.Net.Runtime

/-!
# `LibCryptonote`

The native library is a parameter: what its two functions return for given arguments.  The members
here are the checks `LibCryptonote` makes before it calls them.
-/

namespace Hypepool

/-- The exports of `libcryptonote` and the byte order of the host they run on. -/
structure Host where
  isLittleEndian : Bool
  convertBlob : Bytes → Nat → Option Bytes
  decodeAddress : NetString → UInt64

namespace LibCryptonote

/-- `ConvertBlob(data, size)`; `none` is `null`. -/
def convertBlob (host : Host) (data : Bytes) (size : Nat) : Except NetException (Option Bytes) :=
  if data.length > 0 then .ok (host.convertBlob data size) else .error .argument

/-- `DecodeAddress(address)`. -/
def decodeAddress (host : Host) (address : Option NetString) : Except NetException UInt64 :=
  match address with
  | none => .error .argument
  | some address =>
      if address = [] then .error .argument else .ok (host.decodeAddress address)

end LibCryptonote

end Hypepool
