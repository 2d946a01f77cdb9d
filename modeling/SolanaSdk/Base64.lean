import Mathlib.Algebra.Order.Ring.Nat
import SolanaSdk.ByteData

/-!
The two base64 halves. The encoder of the transaction classes packs three bytes
into a 24-bit group and pads the last one; the decoder of the RPC client shifts
six bits at a time into an `int` that it never clears, and stops at the first
char outside the table. The `int` wraps; only its low bits are ever read.
-/

namespace SolanaSdk.Base64

open ByteData

def base64Chars : Text :=
  ofLiteral "ABCDEFGHIJKLMNOPQRSTUVWXYZabcdefghijklmnopqrstuvwxyz0123456789+/"

def letter (digit : Nat) : UInt8 := base64Chars.getD digit 0

/-- One turn of the encoding loop; the last turn may lack its second and third byte. -/
def encodeGroup (first : UInt8) (second third : Option UInt8) : Text :=
  let val : UInt32 := first.toUInt32 <<< 16
  let val : UInt32 := match second with
    | some byte => val ||| byte.toUInt32 <<< 8
    | none => val
  let val : UInt32 := match third with
    | some byte => val ||| byte.toUInt32
    | none => val
  [letter (val >>> 18 &&& 63).toNat, letter (val >>> 12 &&& 63).toNat,
    if second.isSome then letter (val >>> 6 &&& 63).toNat else 61,
    if third.isSome then letter (val &&& 63).toNat else 61]

def base64Encode : Bytes → Text
  | [] => []
  | [first] => encodeGroup first none none
  | [first, second] => encodeGroup first (some second) none
  | first :: second :: third :: rest =>
      encodeGroup first (some second) (some third) ++ base64Encode rest

def decodeTable : List Int := [
  -1,-1,-1,-1,-1,-1,-1,-1,-1,-1,-1,-1,-1,-1,-1,-1,
  -1,-1,-1,-1,-1,-1,-1,-1,-1,-1,-1,-1,-1,-1,-1,-1,
  -1,-1,-1,-1,-1,-1,-1,-1,-1,-1,-1,62,-1,-1,-1,63,
  52,53,54,55,56,57,58,59,60,61,-1,-1,-1,-1,-1,-1,
  -1, 0, 1, 2, 3, 4, 5, 6, 7, 8, 9,10,11,12,13,14,
  15,16,17,18,19,20,21,22,23,24,25,-1,-1,-1,-1,-1,
  -1,26,27,28,29,30,31,32,33,34,35,36,37,38,39,40,
  41,42,43,44,45,46,47,48,49,50,51,-1,-1,-1,-1,-1,
  -1,-1,-1,-1,-1,-1,-1,-1,-1,-1,-1,-1,-1,-1,-1,-1,
  -1,-1,-1,-1,-1,-1,-1,-1,-1,-1,-1,-1,-1,-1,-1,-1,
  -1,-1,-1,-1,-1,-1,-1,-1,-1,-1,-1,-1,-1,-1,-1,-1,
  -1,-1,-1,-1,-1,-1,-1,-1,-1,-1,-1,-1,-1,-1,-1,-1,
  -1,-1,-1,-1,-1,-1,-1,-1,-1,-1,-1,-1,-1,-1,-1,-1,
  -1,-1,-1,-1,-1,-1,-1,-1,-1,-1,-1,-1,-1,-1,-1,-1,
  -1,-1,-1,-1,-1,-1,-1,-1,-1,-1,-1,-1,-1,-1,-1,-1,
  -1,-1,-1,-1,-1,-1,-1,-1,-1,-1,-1,-1,-1,-1,-1,-1]

/-- `static_cast<uint8_t>((val >> valb) & 0xFF)`, an arithmetic shift. -/
def shiftedByte (val : BitVec 32) (valb : Nat) : UInt8 :=
  ⟨((val.sshiftRight valb) &&& 0xFF).setWidth 8⟩

def decodeLoop (val : BitVec 32) (valb : Int) : Text → Bytes
  | [] => []
  | c :: rest =>
      let t := decodeTable.getD c.toNat (-1)
      if t = -1 then [] else
        let shifted := val <<< 6 + BitVec.ofInt 32 t
        if 0 ≤ valb + 6 then
          shiftedByte shifted (valb + 6).toNat :: decodeLoop shifted (valb + 6 - 8) rest
        else decodeLoop shifted (valb + 6) rest

def base64DecodeRpc (input : Text) : Bytes := decodeLoop 0 (-8) input

section Letters

theorem table_letter (digit : Nat) (small : digit < 64) :
    decodeTable.getD (letter digit).toNat (-1) = digit := by
  have every : ∀ digit : Fin 64, decodeTable.getD (letter digit.val).toNat (-1) = digit.val := by
    decide +kernel
  exact every ⟨digit, small⟩

theorem table_padding : decodeTable.getD (61 : UInt8).toNat (-1) = -1 := by decide

/-- What the four sextets of a group are, as numbers. -/
theorem sextet (val : UInt32) (shift : UInt32) (small : shift.toNat < 32) :
    (val >>> shift &&& 63).toNat = val.toNat / 2 ^ shift.toNat % 64 := by
  rw [UInt32.toNat_and, UInt32.toNat_shiftRight, Nat.mod_eq_of_lt small,
    Nat.shiftRight_eq_div_pow]
  exact Nat.and_two_pow_sub_one_eq_mod _ 6

theorem first_value (first : UInt8) : (first.toUInt32 <<< 16).toNat = first.toNat * 65536 := by
  have small := first.toNat_lt
  rw [UInt32.toNat_shiftLeft, UInt8.toNat_toUInt32, Nat.shiftLeft_eq]
  exact Nat.mod_eq_of_lt (by change first.toNat * 65536 < 4294967296; omega)

theorem second_value (first second : UInt8) :
    (first.toUInt32 <<< 16 ||| second.toUInt32 <<< 8).toNat =
      first.toNat * 65536 + second.toNat * 256 := by
  have small := second.toNat_lt
  have shifted : (second.toUInt32 <<< 8).toNat = second.toNat * 256 := by
    rw [UInt32.toNat_shiftLeft, UInt8.toNat_toUInt32, Nat.shiftLeft_eq]
    exact Nat.mod_eq_of_lt (by change second.toNat * 256 < 4294967296; omega)
  have apart := Nat.two_pow_add_eq_or_of_lt (i := 16) (b := second.toNat * 256)
    (by change second.toNat * 256 < 65536; omega) first.toNat
  rw [UInt32.toNat_or, first_value, shifted, Nat.mul_comm first.toNat]
  exact apart.symm

theorem third_value (first second third : UInt8) :
    (first.toUInt32 <<< 16 ||| second.toUInt32 <<< 8 ||| third.toUInt32).toNat =
      first.toNat * 65536 + second.toNat * 256 + third.toNat := by
  have apart := Nat.two_pow_add_eq_or_of_lt (i := 8) (b := third.toNat) third.toNat_lt
    (first.toNat * 256 + second.toNat)
  have high : first.toNat * 65536 + second.toNat * 256 =
      2 ^ 8 * (first.toNat * 256 + second.toNat) := by omega
  rw [UInt32.toNat_or, second_value, UInt8.toNat_toUInt32, high]
  exact apart.symm

/-- The sextets of a 24-bit number, most significant first. -/
def digit (val place : Nat) : Nat := val / 64 ^ place % 64

theorem digit_lt (val place : Nat) : digit val place < 64 := Nat.mod_lt _ (by decide)

theorem group_digits (val : UInt32) :
    (val >>> 18 &&& 63).toNat = digit val.toNat 3 ∧ (val >>> 12 &&& 63).toNat = digit val.toNat 2 ∧
      (val >>> 6 &&& 63).toNat = digit val.toNat 1 ∧ (val &&& 63).toNat = digit val.toNat 0 := by
  refine ⟨sextet val 18 (by decide), sextet val 12 (by decide), sextet val 6 (by decide), ?_⟩
  rw [UInt32.toNat_and, digit, Nat.pow_zero, Nat.div_one]
  exact Nat.and_two_pow_sub_one_eq_mod _ 6

theorem encode_one (first : UInt8) :
    encodeGroup first none none = [letter (digit (first.toNat * 65536) 3),
      letter (digit (first.toNat * 65536) 2), 61, 61] := by
  have digits := group_digits (first.toUInt32 <<< 16)
  rw [first_value] at digits
  simp only [encodeGroup, digits, Option.isSome_none, Bool.false_eq_true, if_false]

theorem encode_two (first second : UInt8) :
    encodeGroup first (some second) none =
      [letter (digit (first.toNat * 65536 + second.toNat * 256) 3),
        letter (digit (first.toNat * 65536 + second.toNat * 256) 2),
        letter (digit (first.toNat * 65536 + second.toNat * 256) 1), 61] := by
  have digits := group_digits (first.toUInt32 <<< 16 ||| second.toUInt32 <<< 8)
  rw [second_value] at digits
  simp only [encodeGroup, digits, Option.isSome_none, Option.isSome_some, Bool.false_eq_true,
    if_false, if_true]

theorem encode_three (first second third : UInt8) :
    encodeGroup first (some second) (some third) =
      [letter (digit (first.toNat * 65536 + second.toNat * 256 + third.toNat) 3),
        letter (digit (first.toNat * 65536 + second.toNat * 256 + third.toNat) 2),
        letter (digit (first.toNat * 65536 + second.toNat * 256 + third.toNat) 1),
        letter (digit (first.toNat * 65536 + second.toNat * 256 + third.toNat) 0)] := by
  have digits := group_digits (first.toUInt32 <<< 16 ||| second.toUInt32 <<< 8 ||| third.toUInt32)
  rw [third_value] at digits
  simp only [encodeGroup, digits, Option.isSome_some, if_true]

end Letters

section Accumulator

/-- The accumulator after one more sextet, whatever has overflowed before. -/
def shifted (val : BitVec 32) (digit : Nat) : BitVec 32 := val <<< 6 + BitVec.ofInt 32 digit

theorem shifted_value (val : BitVec 32) (digit : Nat) :
    (shifted val digit).toNat = (val.toNat * 64 + digit) % 2 ^ 32 := by
  have moved : val <<< 6 = val * 64#32 := by
    apply BitVec.eq_of_toNat_eq
    rw [BitVec.toNat_shiftLeft, BitVec.toNat_mul, Nat.shiftLeft_eq]
    rfl
  rw [shifted, moved, BitVec.ofInt_natCast, BitVec.toNat_add, BitVec.toNat_mul, BitVec.toNat_ofNat]
  simp only [Nat.reducePow, BitVec.toNat_ofNat, Nat.reduceMod]
  omega

/-- A shift that leaves eight bits below the sign reads plain bits. -/
theorem shifted_byte_value (val : BitVec 32) (valb : Nat) (low : valb ≤ 24) :
    (shiftedByte val valb).toNat = val.toNat / 2 ^ valb % 256 := by
  have bits : ((val.sshiftRight valb) &&& 0xFF).setWidth 8 = (val >>> valb).setWidth 8 := by
    apply BitVec.eq_of_getLsbD_eq
    intro i inside
    have mask : (0xFF : BitVec 32).getLsbD i = true := by
      have every : ∀ i : Fin 8, (0xFF : BitVec 32).getLsbD i.val = true := by decide
      exact every ⟨i, inside⟩
    simp only [BitVec.getLsbD_setWidth, inside, decide_true, Bool.true_and, BitVec.getLsbD_and,
      mask, Bool.and_true, BitVec.getLsbD_sshiftRight, BitVec.getLsbD_ushiftRight]
    have inWord : i < 32 := by omega
    have inShift : valb + i < 32 := by omega
    simp [inShift, Nat.not_le.mpr inWord]
  change (((val.sshiftRight valb) &&& 0xFF).setWidth 8).toNat = _
  rw [bits, BitVec.toNat_setWidth, BitVec.toNat_ushiftRight, Nat.shiftRight_eq_div_pow]

theorem decode_letter (val : BitVec 32) (valb : Int) (digit : Nat) (small : digit < 64)
    (rest : Text) :
    decodeLoop val valb (letter digit :: rest) =
      if 0 ≤ valb + 6 then
        shiftedByte (shifted val digit) (valb + 6).toNat ::
          decodeLoop (shifted val digit) (valb - 2) rest
      else decodeLoop (shifted val digit) (valb + 6) rest := by
  have positive : ¬ (digit : Int) = -1 := by omega
  have step : valb + 6 - 8 = valb - 2 := by omega
  rw [decodeLoop, table_letter digit small]
  simp only [if_neg positive, step]
  rfl

theorem decode_padding (val : BitVec 32) (valb : Int) (rest : Text) :
    decodeLoop val valb (61 :: rest) = [] := by
  rw [decodeLoop]
  exact if_pos table_padding

/-- The byte that lies `shift` bits above the end of two sextets. -/
def pairByte (high low shift : Nat) : UInt8 := UInt8.ofNat ((high * 64 + low) / 2 ^ shift % 256)

theorem pair_byte_value (high low shift : Nat) :
    (pairByte high low shift).toNat = (high * 64 + low) / 2 ^ shift % 256 :=
  UInt8.toNat_ofNat_of_lt (Nat.mod_lt _ (by decide))

/-- A pushed byte depends on the last two sextets only. -/
theorem shifted_pair (val : BitVec 32) (high low shift : Nat)
    (aligned : shift = 4 ∨ shift = 2 ∨ shift = 0) :
    shiftedByte (shifted (shifted val high) low) shift = pairByte high low shift := by
  apply UInt8.toNat_inj.mp
  rw [shifted_byte_value _ _ (by omega), shifted_value, shifted_value, pair_byte_value]
  rcases aligned with rfl | rfl | rfl <;> simp only [Nat.reducePow] <;> omega

theorem decode_two (val : BitVec 32) (w x : Nat) (first : w < 64) (second : x < 64)
    (rest : Text) :
    decodeLoop val (-8) (letter w :: letter x :: rest) =
      pairByte w x 4 :: decodeLoop (shifted (shifted val w) x) (-4) rest := by
  rw [decode_letter val (-8) w first, if_neg (by decide), decode_letter _ _ x second,
    if_pos (by decide), ← shifted_pair val w x 4 (Or.inl rfl)]
  rfl

theorem decode_three (val : BitVec 32) (w x y : Nat) (first : w < 64) (second : x < 64)
    (third : y < 64) (rest : Text) :
    decodeLoop val (-8) (letter w :: letter x :: letter y :: rest) =
      pairByte w x 4 :: pairByte x y 2 ::
        decodeLoop (shifted (shifted (shifted val w) x) y) (-6) rest := by
  rw [decode_two val w x first second, decode_letter _ _ y third, if_pos (by decide),
    ← shifted_pair (shifted val w) x y 2 (Or.inr (Or.inl rfl))]
  rfl

/-- Four letters are three bytes, and leave the accumulator in step again. -/
theorem decode_four (val : BitVec 32) (w x y z : Nat) (first : w < 64) (second : x < 64)
    (third : y < 64) (fourth : z < 64) (rest : Text) :
    decodeLoop val (-8) (letter w :: letter x :: letter y :: letter z :: rest) =
      pairByte w x 4 :: pairByte x y 2 :: pairByte y z 0 ::
        decodeLoop (shifted (shifted (shifted (shifted val w) x) y) z) (-8) rest := by
  rw [decode_three val w x y first second third, decode_letter _ _ z fourth, if_pos (by decide),
    ← shifted_pair (shifted (shifted val w) x) y z 0 (Or.inr (Or.inr rfl))]
  rfl

end Accumulator

section Groups

theorem byte_of_value (byte : UInt8) (value : Nat) (same : value = byte.toNat) :
    UInt8.ofNat value = byte := by
  rw [same, UInt8.ofNat_toNat]

theorem group_bytes (first second third : UInt8) (val : Nat)
    (whole : val = first.toNat * 65536 + second.toNat * 256 + third.toNat) :
    pairByte (digit val 3) (digit val 2) 4 = first ∧
      pairByte (digit val 2) (digit val 1) 2 = second ∧
      pairByte (digit val 1) (digit val 0) 0 = third := by
  have one := first.toNat_lt
  have two := second.toNat_lt
  have three := third.toNat_lt
  simp only [pairByte, digit, Nat.reducePow]
  exact ⟨byte_of_value _ _ (by omega), byte_of_value _ _ (by omega), byte_of_value _ _ (by omega)⟩

/-- The bytes of four sextets are packed into the same four sextets. -/
theorem bytes_group (w x y z : Nat) (first : w < 64) (second : x < 64) (third : y < 64)
    (fourth : z < 64) (val : Nat)
    (whole : val = (pairByte w x 4).toNat * 65536 + (pairByte x y 2).toNat * 256 +
      (pairByte y z 0).toNat) :
    digit val 3 = w ∧ digit val 2 = x ∧ digit val 1 = y ∧ digit val 0 = z := by
  simp only [pair_byte_value, Nat.reducePow] at whole
  simp only [digit, Nat.reducePow]
  omega

end Groups

theorem decode_loop_encode (bytes : Bytes) (val : BitVec 32) :
    decodeLoop val (-8) (base64Encode bytes) = bytes := by
  induction bytes using base64Encode.induct generalizing val with
  | case1 => rfl
  | case2 first =>
      have bytes := group_bytes first 0 0 (first.toNat * 65536) (by simp)
      rw [base64Encode, encode_one, decode_two _ _ _ (digit_lt _ _) (digit_lt _ _), decode_padding,
        bytes.1]
  | case3 first second =>
      have bytes := group_bytes first second 0 (first.toNat * 65536 + second.toNat * 256) (by simp)
      rw [base64Encode, encode_two, decode_three _ _ _ _ (digit_lt _ _) (digit_lt _ _)
        (digit_lt _ _), decode_padding, bytes.1, bytes.2.1]
  | case4 first second third rest ih =>
      have bytes := group_bytes first second third _ rfl
      rw [base64Encode, encode_three, List.cons_append, List.cons_append, List.cons_append,
        List.cons_append, List.nil_append, decode_four _ _ _ _ _ (digit_lt _ _) (digit_lt _ _)
        (digit_lt _ _) (digit_lt _ _), bytes.1, bytes.2.1, bytes.2.2, ih]

/-- Padded base64: groups of four letters, a last group padded with one or two
`=`, and no bit set behind the last byte. -/
inductive Canonical : Text → Prop where
  | nothing : Canonical []
  | twoPads (w x : Nat) (first : w < 64) (second : x < 64) (clear : x % 16 = 0) :
      Canonical [letter w, letter x, 61, 61]
  | onePad (w x y : Nat) (first : w < 64) (second : x < 64) (third : y < 64)
      (clear : y % 4 = 0) : Canonical [letter w, letter x, letter y, 61]
  | group (w x y z : Nat) (first : w < 64) (second : x < 64) (third : y < 64) (fourth : z < 64)
      (rest : Text) (tail : Canonical rest) :
      Canonical (letter w :: letter x :: letter y :: letter z :: rest)

theorem encode_canonical (bytes : Bytes) : Canonical (base64Encode bytes) := by
  induction bytes using base64Encode.induct with
  | case1 => exact .nothing
  | case2 first =>
      rw [base64Encode, encode_one]
      refine .twoPads _ _ (digit_lt _ _) (digit_lt _ _) ?_
      simp only [digit, Nat.reducePow]
      omega
  | case3 first second =>
      rw [base64Encode, encode_two]
      refine .onePad _ _ _ (digit_lt _ _) (digit_lt _ _) (digit_lt _ _) ?_
      simp only [digit, Nat.reducePow]
      omega
  | case4 first second third rest ih =>
      rw [base64Encode, encode_three]
      exact .group _ _ _ _ (digit_lt _ _) (digit_lt _ _) (digit_lt _ _) (digit_lt _ _) _ ih

theorem encode_decode_loop (text : Text) (canonical : Canonical text) (val : BitVec 32) :
    base64Encode (decodeLoop val (-8) text) = text := by
  induction canonical generalizing val with
  | nothing => rfl
  | twoPads w x first second clear =>
      -- The second letter has no low bits, so the group is that of one byte.
      have digits := bytes_group w x 0 0 first second (by decide) (by decide) _ rfl
      have empty : (pairByte x 0 2).toNat = 0 := by
        simp only [pair_byte_value, Nat.reducePow]
        omega
      have zero : (pairByte 0 0 0).toNat = 0 := rfl
      rw [empty, zero] at digits
      simp only [Nat.zero_mul, Nat.add_zero] at digits
      rw [decode_two _ _ _ first second, decode_padding, base64Encode, encode_one, digits.1,
        digits.2.1]
  | onePad w x y first second third clear =>
      -- The third letter has no low bits, so the group is that of two bytes.
      have digits := bytes_group w x y 0 first second third (by decide) _ rfl
      have empty : (pairByte y 0 0).toNat = 0 := by
        simp only [pair_byte_value, Nat.reducePow]
        omega
      rw [empty, Nat.add_zero] at digits
      rw [decode_three _ _ _ _ first second third, decode_padding, base64Encode, encode_two,
        digits.1, digits.2.1, digits.2.2.1]
  | group w x y z first second third fourth rest tail ih =>
      -- The loop goes on with whatever the accumulator holds, hence for every one.
      have digits := bytes_group w x y z first second third fourth _ rfl
      rw [decode_four _ _ _ _ _ first second third fourth, base64Encode, encode_three, digits.1,
        digits.2.1, digits.2.2.1, digits.2.2.2, ih]
      rfl

/-- The decoder inverts the encoder on all bytes, and the encoder inverts the
decoder on exactly the texts that it writes, which are the canonical ones. -/
theorem base64_inverse :
    (∀ bytes, base64DecodeRpc (base64Encode bytes) = bytes) ∧
    (∀ text, Canonical text ↔ ∃ bytes, base64Encode bytes = text) ∧
    (∀ text, Canonical text ↔ base64Encode (base64DecodeRpc text) = text) := by
  have written : ∀ text, Canonical text → base64Encode (base64DecodeRpc text) = text :=
    fun text canonical => encode_decode_loop text canonical 0
  refine ⟨fun bytes => decode_loop_encode bytes 0, fun text => ⟨?_, ?_⟩, fun text => ⟨written text, ?_⟩⟩
  · exact fun canonical => ⟨_, written text canonical⟩
  · rintro ⟨bytes, rfl⟩
    exact encode_canonical bytes
  · exact fun same => same ▸ encode_canonical (base64DecodeRpc text)

end SolanaSdk.Base64
