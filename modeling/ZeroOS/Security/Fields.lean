import ZeroOS.Security.Authority

/-!
# The text of capability requests

The fields of a request are numbers in decimal or hexadecimal, each closed by a zero byte, and they are written over
whatever the payload holds.
-/

namespace ZeroOS.Security.Fields

open List Wire

/-! ## Writing -/

/-- The loop `while v > 0` of the digit writers, the lowest digit first. `none` is an index behind the buffer, which
has `room` bytes left. -/
def digitLoop (base : Nat) (char : Nat → UInt8) : Nat → Nat → Option Bytes
  | _, 0 => some []
  | 0, _ + 1 => none
  | room + 1, v + 1 => (digitLoop base char room ((v + 1) / base)).map (char ((v + 1) % base) :: ·)

def decChar (d : Nat) : UInt8 := 0x30 + UInt8.ofNat d

/-- `u64_dec`: its loop writes one digit before it looks whether there are more. -/
def u64Dec (value : Nat) : Option Bytes :=
  (digitLoop 10 decChar 19 (value / 10)).map fun digits => (decChar (value % 10) :: digits).reverse

/-- `payload[off..off + bytes.len()].copy_from_slice(bytes)`. -/
def copyAt (payload : Bytes) (off : Nat) (bytes : Bytes) : Bytes :=
  payload.take off ++ bytes ++ payload.drop (off + bytes.length)

def writeLoop : Bytes → Nat → List Bytes → Bytes
  | payload, _, [] => payload
  | payload, off, f :: fs => writeLoop (copyAt (copyAt payload off f) (off + f.length) [0]) (off + f.length + 1) fs

def total (fields : List Bytes) : Nat := (fields.map fun f => f.length + 1).sum

/-- `write_fields`: whether the fields fit, and the payload after it. -/
def writeFields (payload : Bytes) (fields : List Bytes) : Bool × Bytes :=
  if payload.length < total fields then (false, payload) else (true, writeLoop payload 0 fields)

def encodeToken (payload : Bytes) (token : Nat) : Option (Bool × Bytes) := do
  let field ← u64Dec token
  return writeFields payload [field]

end ZeroOS.Security.Fields
