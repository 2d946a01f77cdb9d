import SolanaSdk.ByteData
import SolanaSdk.LittleEndian
import SolanaSdk.Loops

/-!
`pbkdf2_hmac_sha512`, with HMAC-SHA512 as a parameter. The output buffer is the
`outlen` bytes at `out`, and a copy that leaves it is a fault. Blocks are counted
in 32 bits: the loop has no end when the last block has the greatest number.
-/

namespace SolanaSdk.KeyStretching

open ByteData LittleEndian Loops

/-- `crypto_auth_hmacsha512_BYTES`. -/
def hlen : Nat := 64

abbrev Digest := FixedBytes hlen

def exclusiveOr (left right : Digest) : Digest :=
  ⟨List.zipWith (· ^^^ ·) left.bytes right.bytes, by
    rw [List.length_zipWith, left.size, right.size, Nat.min_self]⟩

inductive Problem where
  | thrown (failure : Failure)
  | overrun
  deriving DecidableEq

section Code
variable (hmac : Bytes → Bytes → Digest)

def saltBlock (salt : Bytes) (block : UInt32) : Bytes :=
  salt ++ [((block >>> 24) &&& 0xFF).toUInt8, ((block >>> 16) &&& 0xFF).toUInt8,
    ((block >>> 8) &&& 0xFF).toUInt8, (block &&& 0xFF).toUInt8]

/-- The inner loop; its counter stays below a 32-bit number. -/
def rounds (password : Bytes) (iterations : UInt32) (i : Nat) (U T : Digest) : Digest :=
  if i < iterations.toNat then
    rounds password iterations (i + 1) (hmac password U.bytes)
      (exclusiveOr T (hmac password U.bytes))
  else T
termination_by iterations.toNat - i

def blockDigest (password salt : Bytes) (iterations block : UInt32) : Digest :=
  let U := hmac password (saltBlock salt block)
  rounds hmac password iterations 1 U U

/-- `memcpy(out + start, bytes, …)`. -/
def copyInto (out : Bytes) (start : Nat) (bytes : Bytes) : Except Problem Bytes :=
  if start + bytes.length ≤ out.length then
    return out.take start ++ (bytes ++ out.drop (start + bytes.length))
  else throw .overrun

/-- Subtraction of `size_t`. -/
def sizeSub (left right : Nat) : Nat := (2 ^ 64 + left - right) % 2 ^ 64

def blockBody (password salt : Bytes) (iterations blockCount : UInt32) (state : UInt32 × Bytes) :
    Except Problem (Step (UInt32 × Bytes) Bytes) := do
  let (block, out) := state
  if block ≤ blockCount then
    let T := blockDigest hmac password salt iterations block
    let blockStart := (block - 1).toNat * hlen
    let toCopy := min hlen (sizeSub out.length blockStart)
    let out ← copyInto out blockStart (T.bytes.take toCopy)
    -- The increment wraps at `2^32`.
    return .next (block + 1, out)
  else return .stop out

def blockCount (outlen : Nat) : UInt32 := UInt32.ofNat ((outlen + hlen - 1) % 2 ^ 64 / hlen)

/-- The buffer after at most `fuel` turns of the outer loop. -/
def pbkdf2HmacSha512 (sodiumInit : Int) (password salt : Bytes) (iterations : UInt32) (out : Bytes)
    (fuel : Nat) : Option (Except Problem Bytes) :=
  if sodiumInit < 0 then some (throw (.thrown (.runtimeError "libsodium init failed")))
  else run (attempt (blockBody hmac password salt iterations (blockCount out.length))) fuel (1, out)

/-- `Bip39::mnemonicToSeed`. -/
def mnemonicToSeed (sodiumInit : Int) (mnemonic passphrase : Text) (fuel : Nat) :
    Option (Except Problem Bytes) :=
  pbkdf2HmacSha512 hmac sodiumInit mnemonic (ofLiteral "mnemonic" ++ passphrase) 2048
    (FixedBytes.fill 64 0).bytes fuel

end Code

section Reference
variable (hmac : Bytes → Bytes → Digest) (password salt : Bytes)

def bigEndian (i : Nat) : Bytes := (bytesOf 4 i).reverse

/-- `U_1`, `U_2`, … of block `i`, counted from zero. -/
def chain (i : Nat) : Nat → Digest
  | 0 => hmac password (salt ++ bigEndian i)
  | j + 1 => hmac password (chain i j).bytes

/-- `T_i`: the exclusive or of `U_1` to `U_c`. -/
def derivedBlock (c i : Nat) : Digest :=
  (List.range c).foldl (fun T j => exclusiveOr T (chain hmac password salt i j)) (.fill hlen 0)

/-- `T_1 || T_2 || …`, so many blocks of it. -/
def keyStream (c count : Nat) : Bytes :=
  (List.range count).flatMap fun i => (derivedBlock hmac password salt c (i + 1)).bytes

def derivedKey (c outlen : Nat) : Bytes :=
  (keyStream hmac password salt c (outlen / hlen + 1)).take outlen

end Reference

section Rounds
variable (hmac : Bytes → Bytes → Digest) (password salt : Bytes)

theorem zero_exclusive_or (digest : Digest) : exclusiveOr (.fill hlen 0) digest = digest := by
  have zip : ∀ bytes : Bytes,
      List.zipWith (· ^^^ ·) (List.replicate bytes.length 0) bytes = bytes := by
    intro bytes
    induction bytes with
    | nil => rfl
    | cons byte rest ih =>
        rw [List.length_cons, List.replicate_succ, List.zipWith_cons_cons, ih, UInt8.zero_xor]
  obtain ⟨bytes, size⟩ := digest
  have same := zip bytes
  rw [size] at same
  simp only [exclusiveOr, FixedBytes.fill, same]

theorem derived_block_succ (c i : Nat) :
    derivedBlock hmac password salt (c + 1) i =
      exclusiveOr (derivedBlock hmac password salt c i) (chain hmac password salt i c) := by
  rw [derivedBlock, List.range_succ, List.foldl_append]
  rfl

/-- The loop is entered with `U_1` to `U_j` taken up, `U_j` being the last. -/
theorem rounds_derived (iterations : UInt32) (i j : Nat) (within : j + 1 ≤ iterations.toNat) :
    rounds hmac password iterations (j + 1) (chain hmac password salt i j)
        (derivedBlock hmac password salt (j + 1) i) =
      derivedBlock hmac password salt iterations.toNat i := by
  have more : ∀ left j, j + 1 + left = iterations.toNat →
      rounds hmac password iterations (j + 1) (chain hmac password salt i j)
          (derivedBlock hmac password salt (j + 1) i) =
        derivedBlock hmac password salt iterations.toNat i := by
    intro left
    induction left with
    | zero =>
        intro j last
        rw [rounds, if_neg (by omega), ← last]
    | succ left ih =>
        intro j last
        rw [rounds, if_pos (by omega), ← ih (j + 1) (by omega), derived_block_succ _ _ _ (j + 1)]
        rfl
  exact more (iterations.toNat - (j + 1)) j (by omega)

theorem block_byte (block : UInt32) (shift : UInt32) (small : shift.toNat < 32) :
    ((block >>> shift) &&& 0xFF).toUInt8 =
      UInt8.ofNat (block.toNat / 2 ^ shift.toNat % 256) := by
  apply UInt8.toNat_inj.mp
  rw [UInt32.toNat_toUInt8, UInt32.toNat_and, UInt32.toNat_shiftRight, Nat.mod_eq_of_lt small]
  change (block.toNat >>> shift.toNat &&& (2 ^ 8 - 1)) % 2 ^ 8 = _
  rw [Nat.and_two_pow_sub_one_eq_mod, Nat.shiftRight_eq_div_pow, Nat.mod_mod,
    UInt8.toNat_ofNat_of_lt' (Nat.mod_lt _ (by decide))]

theorem salt_block_big_endian (block : UInt32) :
    saltBlock salt block = salt ++ bigEndian block.toNat := by
  have shifted : block &&& 0xFF = block >>> (0 : UInt32) &&& 0xFF := by simp
  rw [saltBlock, bigEndian, shifted, block_byte _ 24 (by decide), block_byte _ 16 (by decide),
    block_byte _ 8 (by decide), block_byte _ 0 (by decide)]
  change _ = salt ++ [_, _, _, _]
  have third : block.toNat / 256 / 256 = block.toNat / 2 ^ 16 := Nat.div_div_eq_div_mul ..
  have fourth : block.toNat / 256 / 256 / 256 = block.toNat / 2 ^ 24 := by
    rw [Nat.div_div_eq_div_mul, Nat.div_div_eq_div_mul]
    rfl
  rw [fourth, third]
  simp

theorem block_digest_derived (iterations block : UInt32) (positive : 0 < iterations) :
    blockDigest hmac password salt iterations block =
      derivedBlock hmac password salt iterations.toNat block.toNat := by
  have first : derivedBlock hmac password salt 1 block.toNat =
      chain hmac password salt block.toNat 0 := zero_exclusive_or _
  have all := rounds_derived hmac password salt iterations block.toNat 0
    (UInt32.lt_iff_toNat_lt.mp positive)
  rw [first] at all
  rw [← all, blockDigest, salt_block_big_endian]
  rfl

end Rounds

section Copies
variable (hmac : Bytes → Bytes → Digest) (password salt : Bytes)

theorem key_stream_succ (c count : Nat) :
    keyStream hmac password salt c (count + 1) =
      keyStream hmac password salt c count ++
        (derivedBlock hmac password salt c (count + 1)).bytes := by
  rw [keyStream, List.range_succ, List.flatMap_append, List.flatMap_singleton]
  rfl

theorem key_stream_length (c count : Nat) :
    (keyStream hmac password salt c count).length = count * hlen := by
  induction count with
  | zero => exact (Nat.zero_mul _).symm
  | succ count ih =>
      rw [key_stream_succ, List.length_append, ih, (derivedBlock _ _ _ _ _).size, Nat.succ_mul]

/-- Blocks behind the end of the output change nothing in front of it. -/
theorem key_stream_take (c count outlen more : Nat) (enough : outlen ≤ count * hlen) :
    (keyStream hmac password salt c (count + more)).take outlen =
      (keyStream hmac password salt c count).take outlen := by
  induction more with
  | zero => rfl
  | succ more ih =>
      have long : outlen ≤ (keyStream hmac password salt c (count + more)).length := by
        rw [key_stream_length]
        exact Nat.le_trans enough (Nat.mul_le_mul_right _ (Nat.le_add_right _ _))
      rw [← Nat.add_assoc, key_stream_succ, List.take_append_of_le_length long, ih]

/-- The buffer when the first `count` blocks have been copied. -/
def filled (c : Nat) (out : Bytes) (count : Nat) : Bytes :=
  (keyStream hmac password salt c count).take out.length ++ out.drop (count * hlen)

theorem filled_length (c : Nat) (out : Bytes) (count : Nat) :
    (filled hmac password salt c out count).length = out.length := by
  rw [filled, List.length_append, List.length_take, List.length_drop, key_stream_length]
  omega

/-- Copying the next block, as much of it as there is room for. -/
theorem copy_next (c : Nat) (out : Bytes) (count : Nat) (room : count * hlen ≤ out.length) :
    copyInto (filled hmac password salt c out count) (count * hlen)
        ((derivedBlock hmac password salt c (count + 1)).bytes.take
          (min hlen (out.length - count * hlen))) =
      .ok (filled hmac password salt c out (count + 1)) := by
  have front := key_stream_length hmac password salt c count
  have size := (derivedBlock hmac password salt c (count + 1)).size
  have whole : (keyStream hmac password salt c count).take out.length =
      keyStream hmac password salt c count := List.take_of_length_le (by omega)
  -- The last block is cut at the end of the output, or it is not the last one.
  have cut : (derivedBlock hmac password salt c (count + 1)).bytes.take
      (min hlen (out.length - count * hlen)) =
        (derivedBlock hmac password salt c (count + 1)).bytes.take
          (out.length - count * hlen) := by
    rw [List.take_eq_take_iff, size]
    omega
  have behind : out.drop (count * hlen + min hlen (out.length - count * hlen)) =
      out.drop ((count + 1) * hlen) := by
    by_cases last : out.length ≤ (count + 1) * hlen
    · rw [List.drop_eq_nil_of_le last, List.drop_eq_nil_of_le]
      rw [Nat.succ_mul] at last
      omega
    · rw [Nat.succ_mul] at last ⊢
      congr 1
      omega
  have copied : ((derivedBlock hmac password salt c (count + 1)).bytes.take
      (min hlen (out.length - count * hlen))).length = min hlen (out.length - count * hlen) := by
    rw [List.length_take, size]
    omega
  unfold copyInto
  rw [copied, if_pos (by rw [filled_length]; omega), filled, whole]
  congr 1
  rw [← front, List.take_left, List.drop_length_add_append, List.drop_drop, front, behind, cut,
    filled, key_stream_succ, List.take_append, whole, front,
    List.append_assoc]

end Copies

section Blocks
variable (hmac : Bytes → Bytes → Digest) (password salt : Bytes) (iterations : UInt32)

theorem block_count_value (outlen : Nat) (short : outlen < 2 ^ 32 * hlen) :
    (blockCount outlen).toNat = (outlen + hlen - 1) / hlen % 2 ^ 32 := by
  have wide : (outlen + hlen - 1) % 2 ^ 64 = outlen + hlen - 1 := by
    unfold hlen at short ⊢
    exact Nat.mod_eq_of_lt (by omega)
  rw [blockCount, UInt32.toNat_ofNat', wide]

theorem size_sub_exact (left right : Nat) (less : right ≤ left) (fits : left < 2 ^ 64) :
    sizeSub left right = left - right := by
  unfold sizeSub
  omega

/-- A turn within the count copies the block of its number. -/
theorem turn_copies (positive : 0 < iterations) (out : Bytes) (last : UInt32) (count : Nat)
    (within : count + 1 ≤ last.toNat) (room : count * hlen ≤ out.length)
    (fits : out.length < 2 ^ 64) :
    Turn (attempt (blockBody hmac password salt iterations last))
      (UInt32.ofNat (count + 1), filled hmac password salt iterations.toNat out count)
      (UInt32.ofNat (count + 1) + 1,
        filled hmac password salt iterations.toNat out (count + 1)) := by
  have number : (UInt32.ofNat (count + 1)).toNat = count + 1 :=
    UInt32.toNat_ofNat_of_lt' (Nat.lt_of_le_of_lt within last.toNat_lt)
  have reached : UInt32.ofNat (count + 1) ≤ last := by
    rw [UInt32.le_iff_toNat_le, number]
    exact within
  have counted : (1 : UInt32) ≤ UInt32.ofNat (count + 1) := by
    rw [UInt32.le_iff_toNat_le, number]
    exact Nat.le_add_left 1 count
  have before : (UInt32.ofNat (count + 1) - 1).toNat = count := by
    rw [UInt32.toNat_sub_of_le _ _ counted, number]
    rfl
  apply (attempt_next _ _ _).mpr
  unfold blockBody
  dsimp only
  rw [if_pos reached, before, filled_length,
    size_sub_exact _ _ room fits, block_digest_derived _ _ _ _ _ positive, number,
    copy_next hmac password salt _ out count room]
  rfl

theorem run_fills (positive : 0 < iterations) (out : Bytes) (last : UInt32)
    (below : last.toNat < 2 ^ 32 - 1) (fits : out.length < 2 ^ 64)
    (needed : ∀ count < last.toNat, count * hlen ≤ out.length) (count : Nat)
    (within : count ≤ last.toNat) :
    Returns (attempt (blockBody hmac password salt iterations last))
      (UInt32.ofNat (count + 1), filled hmac password salt iterations.toNat out count)
      (.ok (filled hmac password salt iterations.toNat out last.toNat)) := by
  obtain ⟨left, rest⟩ := Nat.exists_eq_add_of_le within
  induction left generalizing count with
  | zero =>
      -- The number behind the last one does not wrap, so it ends the loop.
      have number : (UInt32.ofNat (count + 1)).toNat = count + 1 :=
        UInt32.toNat_ofNat_of_lt' (by unfold UInt32.size; omega)
      have past : ¬ UInt32.ofNat (count + 1) ≤ last := by
        rw [UInt32.le_iff_toNat_le, number]
        omega
      rw [rest]
      apply returns_stop
      apply (attempt_stop _ _ _).mpr
      unfold blockBody
      dsimp only
      rw [if_neg past]
      rfl
  | succ left ih =>
      have turn := turn_copies hmac password salt iterations positive out last count (by omega)
        (needed count (by omega)) fits
      have next : UInt32.ofNat (count + 1) + 1 = UInt32.ofNat (count + 1 + 1) := by
        apply UInt32.toNat_inj.mp
        rw [UInt32.toNat_add, UInt32.toNat_ofNat', UInt32.toNat_ofNat']
        exact (Nat.mod_add_mod _ _ _)
      rw [next] at turn
      exact returns_next _ _ _ _ turn (ih (count + 1) (by omega) (by omega))

end Blocks

section Results
variable (hmac : Bytes → Bytes → Digest) (password salt : Bytes) (iterations : UInt32)

/-- The buffer of `outlen` bytes is filled with the derived key, whatever it held. -/
def Fills (sodiumInit : Int) (outlen : Nat) : Prop :=
  ∀ out : FixedBytes outlen, ∃ fuel,
    pbkdf2HmacSha512 hmac sodiumInit password salt iterations out.bytes fuel =
      some (.ok (derivedKey hmac password salt iterations.toNat outlen))

theorem fills_returns (sodiumInit : Int) (ready : 0 ≤ sodiumInit) (outlen : Nat) :
    Fills hmac password salt iterations sodiumInit outlen ↔
      ∀ out : FixedBytes outlen,
        Returns (attempt (blockBody hmac password salt iterations (blockCount outlen)))
          (1, out.bytes) (.ok (derivedKey hmac password salt iterations.toNat outlen)) := by
  refine forall_congr' fun out => exists_congr fun fuel => ?_
  rw [pbkdf2HmacSha512, if_neg (by omega), out.size]

/-- With the greatest number for the last block the loop never stops. -/
theorem greatest_never_stops (start : UInt32 × Bytes) (result : Bytes) :
    ¬ Returns (attempt (blockBody hmac password salt iterations (UInt32.ofNat (2 ^ 32 - 1)))) start
      (.ok result) := by
  intro returns
  obtain ⟨⟨block, out⟩, -, stops⟩ := returns_reached _ _ _ returns
  have body := (attempt_stop _ _ _).mp stops
  unfold blockBody at body
  dsimp only at body
  have below : block ≤ UInt32.ofNat (2 ^ 32 - 1) :=
    UInt32.le_iff_toNat_le.mpr (Nat.le_pred_of_lt block.toNat_lt)
  rw [if_pos below] at body
  obtain ⟨later, -, rest⟩ := bind_returned _ _ _ body
  cases rest

/-- A count that has wrapped to zero leaves the buffer as it was. -/
theorem zero_writes_nothing (out : Bytes) :
    Returns (attempt (blockBody hmac password salt iterations 0)) (1, out) (.ok out) :=
  returns_stop _ _ _ rfl

theorem filled_none (c : Nat) (out : Bytes) : filled hmac password salt c out 0 = out := by
  rw [filled, Nat.zero_mul]
  exact congrArg (· ++ out) List.take_nil

theorem filled_derived (c : Nat) (out : Bytes) (count : Nat) (enough : out.length ≤ count * hlen)
    (few : count ≤ out.length / hlen + 1) :
    filled hmac password salt c out count = derivedKey hmac password salt c out.length := by
  obtain ⟨more, same⟩ := Nat.exists_eq_add_of_le few
  rw [filled, List.drop_eq_nil_of_le enough, List.append_nil, derivedKey, same,
    key_stream_take hmac password salt c count out.length more enough]

theorem fills_within (sodiumInit : Int) (ready : 0 ≤ sodiumInit) (positive : 0 < iterations)
    (outlen : Nat) (within : outlen ≤ (2 ^ 32 - 2) * hlen) :
    Fills hmac password salt iterations sodiumInit outlen := by
  rw [fills_returns hmac password salt iterations sodiumInit ready]
  unfold hlen at within
  have count := block_count_value outlen (by unfold hlen; omega)
  unfold hlen at count
  intro out
  have size := out.size
  have value : (blockCount outlen).toNat = (outlen + 64 - 1) / 64 := by
    rw [count]
    omega
  have run := run_fills hmac password salt iterations positive out.bytes (blockCount outlen)
    (by omega) (by omega)
    (by
      intro count below
      unfold hlen
      omega)
    0 (Nat.zero_le _)
  have filledAll := filled_derived hmac password salt iterations.toNat out.bytes
    (blockCount outlen).toNat (by unfold hlen; omega) (by unfold hlen; omega)
  rw [filled_none, filledAll, size] at run
  exact run

/-- The function computes PBKDF2 exactly when the last block is not the greatest
that a 32-bit number can count. -/
theorem fills_iff (sodiumInit : Int) (ready : 0 ≤ sodiumInit) (positive : 0 < iterations)
    (outlen : Nat) (short : outlen < 2 ^ 32 * hlen) :
    Fills hmac password salt iterations sodiumInit outlen ↔ outlen ≤ (2 ^ 32 - 2) * hlen := by
  constructor
  · rw [fills_returns hmac password salt iterations sodiumInit ready]
    intro fills
    by_contra long
    have count := block_count_value outlen short
    unfold hlen at short count long
    by_cases last : outlen ≤ (2 ^ 32 - 1) * 64
    · have greatest : blockCount outlen = UInt32.ofNat (2 ^ 32 - 1) := by
        apply UInt32.toNat_inj.mp
        rw [count]
        change _ = 2 ^ 32 - 1
        omega
      rw [greatest] at fills
      exact greatest_never_stops hmac password salt iterations _ _ (fills (.fill outlen 0))
    · have none : blockCount outlen = 0 := by
        apply UInt32.toNat_inj.mp
        rw [count]
        change _ = 0
        omega
      rw [none] at fills
      -- Two different buffers would both hold the derived key.
      have kept : ∀ out : FixedBytes outlen,
          out.bytes = derivedKey hmac password salt iterations.toNat outlen := fun out =>
        Except.ok.inj (returns_unique _ _ _ _
          (zero_writes_nothing hmac password salt iterations out.bytes) (fills out))
      have same := (kept (.fill outlen 0)).trans (kept (.fill outlen 1)).symm
      have some : outlen ≠ 0 := by omega
      exact absurd ((List.replicate_right_inj some).mp same) (by decide)
  · exact fills_within hmac password salt iterations sodiumInit ready positive outlen

/-- The wallet seed is one block of 2048 rounds. -/
theorem mnemonic_seed_derived (sodiumInit : Int) (ready : 0 ≤ sodiumInit)
    (mnemonic passphrase : Text) :
    ∃ fuel, mnemonicToSeed hmac sodiumInit mnemonic passphrase fuel =
      some (.ok (derivedBlock hmac mnemonic (ofLiteral "mnemonic" ++ passphrase) 2048 1).bytes) := by
  obtain ⟨fuel, ran⟩ := fills_within hmac mnemonic (ofLiteral "mnemonic" ++ passphrase) 2048
    sodiumInit ready (by decide) hlen (by decide) (.fill hlen 0)
  have one : derivedKey hmac mnemonic (ofLiteral "mnemonic" ++ passphrase) 2048 hlen =
      (derivedBlock hmac mnemonic (ofLiteral "mnemonic" ++ passphrase) 2048 1).bytes := by
    rw [derivedKey]
    exact (key_stream_take hmac mnemonic _ 2048 1 hlen 1 (Nat.le_refl _)).trans
      (List.take_left' (derivedBlock hmac mnemonic _ 2048 1).size)
  exact ⟨fuel, one ▸ ran⟩

def constantHmac (_ _ : Bytes) : Digest := .fill hlen 7

/-- A keyed function that depends on each byte of the key and of the message. -/
def mixingHmac (key message : Bytes) : Digest :=
  .fill hlen ((key ++ message).foldl (fun sum byte => 3 * sum + byte) 1)

/-- Two blocks of three rounds, of which the second is cut after 36 bytes. -/
theorem fills_part_block : Fills mixingHmac [1, 2] [5] 3 0 100 :=
  (fills_iff mixingHmac [1, 2] [5] 3 0 (by decide) (by decide) 100 (by decide)).mpr (by decide)

/-- The greatest number of whole blocks: no number of turns is enough. -/
theorem greatest_count_not_filled :
    ¬ Fills constantHmac [] [] 1 0 ((2 ^ 32 - 1) * hlen) := by
  rw [fills_returns constantHmac [] [] 1 0 (by decide)]
  have greatest : blockCount ((2 ^ 32 - 1) * hlen) = UInt32.ofNat (2 ^ 32 - 1) := by decide +kernel
  rw [greatest]
  exact fun fills => greatest_never_stops constantHmac [] [] 1 _ _ (fills (.fill _ 0))

end Results

end SolanaSdk.KeyStretching
