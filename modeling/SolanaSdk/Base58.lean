import Mathlib.Data.List.DropRight
import SolanaSdk.ByteData

/-! Base58. Decoding keeps a little-endian base-256 accumulator that is multiplied
by 58 for every character, then stripped of its high zeros and reversed behind
one zero byte for each leading '1'. Encoding is the same walk with the bases
exchanged. -/

namespace SolanaSdk.Base58

open ByteData

def alphabetMap : List Int := [
  -1,-1,-1,-1,-1,-1,-1,-1,-1,-1,-1,-1,-1,-1,-1,-1,
  -1,-1,-1,-1,-1,-1,-1,-1,-1,-1,-1,-1,-1,-1,-1,-1,
  -1,-1,-1,-1,-1,-1,-1,-1,-1,-1,-1,-1,-1,-1,-1,-1,
  -1, 0, 1, 2, 3, 4, 5, 6, 7, 8,-1,-1,-1,-1,-1,-1,
  -1, 9,10,11,12,13,14,15,16,-1,17,18,19,20,21,-1,
  22,23,24,25,26,27,28,29,30,31,32,-1,-1,-1,-1,-1,
  -1,33,34,35,36,37,38,39,40,41,42,43,-1,44,45,46,
  47,48,49,50,51,52,53,54,55,56,57,-1,-1,-1,-1,-1]

def alphabet : Text := ofLiteral "123456789ABCDEFGHJKLMNPQRSTUVWXYZabcdefghijkmnopqrstuvwxyz"

/-- A char with the top bit set is refused before the table is indexed. -/
def digitValue (c : UInt8) : Except Failure Nat :=
  if c &&& 0x80 ≠ 0 ∨ alphabetMap.getD c.toNat (-1) = -1 then
    throw (.invalidArgument "Invalid Base58 character")
  else pure (alphabetMap.getD c.toNat (-1)).toNat

/-- The inner loop `carry += result[j] * 58`, which returns the carry left over
behind the last byte. A carry stays below 58 between bytes, so `unsigned int`
never wraps and a natural number stands for it. -/
def mulAdd : Nat → Bytes → Bytes × Nat
  | carry, [] => ([], carry)
  | carry, byte :: rest =>
      let total := carry + byte.toNat * 58
      let tail := mulAdd (total / 256) rest
      (UInt8.ofNat (total % 256) :: tail.1, tail.2)

def pushCarry (carry : Nat) : Bytes :=
  if carry = 0 then [] else UInt8.ofNat (carry % 256) :: pushCarry (carry / 256)
termination_by carry
decreasing_by omega

def decodeStep (result : Bytes) (c : UInt8) : Except Failure Bytes := do
  let digit ← digitValue c
  let next := mulAdd digit result
  pure (next.1 ++ pushCarry next.2)

def decode (input : Text) : Except Failure Bytes :=
  if input.isEmpty then pure [] else do
    let result ← input.foldlM decodeStep [0]
    -- The accumulator has lost the leading zero bytes; each leading '1' stands for one.
    let lz := (input.takeWhile fun c => c == 49).length
    let stripped := result.rdropWhile fun byte => byte == 0
    pure (List.replicate lz 0 ++ stripped.reverse)

example : decode (ofLiteral "11StV1DL6CwTryKyV") =
    .ok ([0, 0] ++ ofLiteral "hello world") := by decide +kernel

/-- The inner loop `carry += digits[j] << 8`, whose carry stays below 257. -/
def shiftAdd : Nat → Bytes → Bytes × Nat
  | carry, [] => ([], carry)
  | carry, digit :: rest =>
      let total := carry + digit.toNat <<< 8
      let tail := shiftAdd (total / 58) rest
      (UInt8.ofNat (total % 58) :: tail.1, tail.2)

def pushDigits (carry : Nat) : Bytes :=
  if carry = 0 then [] else UInt8.ofNat (carry % 58) :: pushDigits (carry / 58)
termination_by carry
decreasing_by omega

/-- The list holds the digits in use, `digits[0]` to `digits[digitslen - 1]`. -/
def encodeStep (digits : Bytes) (byte : UInt8) : Bytes :=
  let next := shiftAdd byte.toNat digits
  next.1 ++ pushDigits next.2

def encode (input : Bytes) : Text :=
  if input.isEmpty then [] else
    let digits := input.foldl encodeStep [0]
    let zeros := (input.takeWhile fun byte => byte == 0).length
    let stripped := digits.rdropWhile fun digit => digit == 0
    List.replicate zeros 49 ++ stripped.reverse.map fun digit => alphabet.getD digit.toNat 0

example : encode (List.replicate 32 0) = ofLiteral "11111111111111111111111111111111" := by
  decide +kernel

end SolanaSdk.Base58
