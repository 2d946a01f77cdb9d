import SolanaSdk.Base58Inverse
import SolanaSdk.KeyStretching
import SolanaSdk.Transactions

/-!
Keypairs and the ways to hand them on: the secret key, its Base58, or the seed.
libsodium is a parameter. A secret key that is read in brings its own public half,
which nothing checks, so such a keypair may be another one when it comes back from
its seed.
-/

namespace SolanaSdk.Wallets

open ByteData PublicKeys Transactions KeyStretching

def seedLength : Nat := 32

/-- What is used of libsodium. -/
structure Sodium where
  init : Int
  /-- `crypto_sign_seed_keypair`, the public key first. -/
  seedKeypair : FixedBytes seedLength → FixedBytes publicKeyLength × FixedBytes secretKeyLength
  signDetached : Bytes → FixedBytes secretKeyLength → Signature
  verifyDetached : Signature → Bytes → FixedBytes publicKeyLength → Int

section Code
variable (sodium : Sodium)

def initialised : Except Failure Unit :=
  if sodium.init < 0 then throw (.runtimeError "libsodium init failed") else pure ()

/-- `crypto_sign_keypair` draws the pair of some seed. -/
def generate (drawn : FixedBytes seedLength) : Except Failure Keypair := do
  initialised sodium
  return ⟨(sodium.seedKeypair drawn).1, (sodium.seedKeypair drawn).2⟩

/-- The last 32 bytes of the secret key are taken for the public key. -/
def fromSecretKey (secretKey : FixedBytes secretKeyLength) : Except Failure Keypair := do
  initialised sodium
  return ⟨⟨secretKey.bytes.drop 32, by rw [List.length_drop, secretKey.size]; rfl⟩, secretKey⟩

def fromSeed (seed : FixedBytes seedLength) : Except Failure Keypair := do
  initialised sodium
  return ⟨(sodium.seedKeypair seed).1, (sodium.seedKeypair seed).2⟩

def seed (kp : Keypair) : FixedBytes seedLength :=
  ⟨kp.secretKeyBytes.bytes.take 32, List.length_take_of_le (by
    rw [kp.secretKeyBytes.size]
    decide)⟩

def verify (kp : Keypair) (message : Bytes) (signature : Signature) : Bool :=
  sodium.verifyDetached signature message kp.publicKeyBytes == 0

def toBase58SecretKey (kp : Keypair) : Text := Base58.encode kp.secretKeyBytes.bytes

/-- The first half of the seed of a mnemonic. -/
def mnemonicToKeypairSeed (hmac : Bytes → Bytes → Digest) (mnemonic passphrase : Text) (fuel : Nat) :
    Option (Except Problem Bytes) :=
  (mnemonicToSeed hmac sodium.init mnemonic passphrase fuel).map (Except.map (List.take 32))

end Code

section Ways
variable (sodium : Sodium)

inductive Way where
  | secretKey
  | base58
  | seed
  deriving DecidableEq

/-- One keypair is written out and another read in. There is no reader for the
Base58 of a secret key: the caller decodes it and checks its size. -/
def handOn (kp : Keypair) : Way → Except Failure Keypair
  | .secretKey => fromSecretKey sodium kp.secretKeyBytes
  | .base58 => do
      let bytes ← Base58.decode (toBase58SecretKey kp)
      if size : bytes.length = secretKeyLength then fromSecretKey sodium ⟨bytes, size⟩
      else throw (.runtimeError "Invalid secret key length")
  | .seed => fromSeed sodium (seed kp)

def handedOn (kp : Keypair) (ways : List Way) : Except Failure Keypair :=
  ways.foldlM (handOn sodium) kp

/-- The documented behaviour of libsodium: a secret key is its seed and then its
public key, and a signature verifies under the public key of its pair. -/
structure Documented : Prop where
  ready : 0 ≤ sodium.init
  halves : ∀ seed,
    (sodium.seedKeypair seed).2.bytes = seed.bytes ++ (sodium.seedKeypair seed).1.bytes
  verifies : ∀ seed message, sodium.verifyDetached
    (sodium.signDetached message (sodium.seedKeypair seed).2) message (sodium.seedKeypair seed).1 = 0

/-- The public key is the one that the secret key ends in. -/
def Whole (kp : Keypair) : Prop := kp.publicKeyBytes.bytes = kp.secretKeyBytes.bytes.drop 32

def pairOf (seed : FixedBytes seedLength) : Keypair :=
  ⟨(sodium.seedKeypair seed).1, (sodium.seedKeypair seed).2⟩

def SignsForItself (kp : Keypair) : Prop :=
  ∀ message, verify sodium kp message (kp.sign sodium.signDetached message) = true

variable (documented : Documented sodium)
include documented

theorem is_initialised : initialised sodium = .ok () :=
  if_neg (Int.not_lt.mpr documented.ready)

theorem from_seed_pair (seed : FixedBytes seedLength) :
    fromSeed sodium seed = .ok (pairOf sodium seed) := by
  rw [fromSeed, is_initialised sodium documented]
  rfl

theorem from_secret_whole (kp : Keypair) (whole : Whole kp) :
    fromSecretKey sodium kp.secretKeyBytes = .ok kp := by
  have same : (⟨kp.secretKeyBytes.bytes.drop 32, by
      rw [List.length_drop, kp.secretKeyBytes.size]; rfl⟩ : FixedBytes publicKeyLength) =
      kp.publicKeyBytes := FixedBytes.same_bytes _ _ whole.symm
  rw [fromSecretKey, is_initialised sodium documented]
  change Except.ok (Keypair.mk _ _) = _
  rw [same]

theorem pair_whole (seed : FixedBytes seedLength) : Whole (pairOf sodium seed) := by
  rw [Whole, pairOf]
  dsimp only
  rw [documented.halves seed]
  exact (List.drop_left' seed.size).symm

theorem pair_seed (seed : FixedBytes seedLength) :
    Wallets.seed (pairOf sodium seed) = seed := by
  apply FixedBytes.same_bytes
  change (sodium.seedKeypair seed).2.bytes.take 32 = _
  rw [documented.halves seed]
  exact List.take_left' seed.size

theorem pair_signs (seed : FixedBytes seedLength) : SignsForItself sodium (pairOf sodium seed) := by
  intro message
  exact beq_iff_eq.mpr (documented.verifies seed message)

/-- One step keeps a whole keypair, or makes it the pair of its seed. -/
theorem hand_on_whole (kp : Keypair) (whole : Whole kp) (way : Way) :
    handOn sodium kp way = .ok (if way = .seed then pairOf sodium (seed kp) else kp) := by
  cases way with
  | secretKey => exact from_secret_whole sodium documented kp whole
  | base58 =>
      rw [handOn, toBase58SecretKey, Base58Inverse.decode_encode]
      change (if size : _ then _ else _) = _
      rw [dif_pos kp.secretKeyBytes.size]
      exact from_secret_whole sodium documented kp whole
  | seed => exact from_seed_pair sodium documented (seed kp)

theorem handed_on_whole (kp : Keypair) (whole : Whole kp) (ways : List Way) :
    handedOn sodium kp ways =
      .ok (if .seed ∈ ways then pairOf sodium (seed kp) else kp) := by
  induction ways generalizing kp with
  | nil => rfl
  | cons way rest ih =>
      rw [handedOn, List.foldlM_cons, hand_on_whole sodium documented kp whole way]
      change handedOn sodium _ rest = _
      by_cases bySeed : way = .seed
      · subst bySeed
        rw [if_pos rfl, ih _ (pair_whole sodium documented _), pair_seed sodium documented, ite_self,
          if_pos List.mem_cons_self]
      · have behind : Way.seed ∈ way :: rest ↔ Way.seed ∈ rest := by
          rw [List.mem_cons, or_iff_right (Ne.symm bySeed)]
        rw [if_neg bySeed, ih kp whole, if_congr behind rfl rfl]

theorem pair_of_seed_iff (kp : Keypair) (whole : Whole kp) :
    pairOf sodium (seed kp) = kp ↔ (pairOf sodium (seed kp)).publicKey = kp.publicKey := by
  constructor
  · intro same
    rw [same]
  · intro same
    have halves := congrArg PublicKey.buffer same
    change (sodium.seedKeypair (seed kp)).1 = kp.publicKeyBytes at halves
    have secret : (sodium.seedKeypair (seed kp)).2 = kp.secretKeyBytes := by
      apply FixedBytes.same_bytes
      rw [documented.halves, halves, whole]
      exact List.take_append_drop 32 _
    rw [pairOf, halves, secret]

/-- Whatever 64 bytes are read in, handing the keypair on ends with it again
exactly if it never goes by its seed or has the public key of its seed; by the
seed it ends with a pair that signs for itself. -/
theorem imported_handed_on (secretKey : FixedBytes secretKeyLength) (ways : List Way) :
    ∃ kp after, fromSecretKey sodium secretKey = .ok kp ∧ kp.secretKeyBytes = secretKey ∧
      handedOn sodium kp ways = .ok after ∧
      (after = kp ↔
        (.seed ∈ ways → (pairOf sodium (seed kp)).publicKey = kp.publicKey)) ∧
      (.seed ∈ ways → SignsForItself sodium after) := by
  let kp : Keypair :=
    ⟨⟨secretKey.bytes.drop 32, by rw [List.length_drop, secretKey.size]; rfl⟩, secretKey⟩
  have whole : Whole kp := rfl
  refine ⟨kp, _, from_secret_whole sodium documented kp whole, rfl,
    handed_on_whole sodium documented kp whole ways, ?_, ?_⟩
  · by_cases bySeed : .seed ∈ ways
    · rw [if_pos bySeed, pair_of_seed_iff sodium documented kp whole]
      exact ⟨fun same _ => same, fun same => same bySeed⟩
    · rw [if_neg bySeed]
      exact iff_of_true rfl fun never => absurd never bySeed
  · intro bySeed
    rw [if_pos bySeed]
    exact pair_signs sodium documented (seed kp)

/-- A wallet from a mnemonic stays the same on all ways, and gives back the seed
that it was made of. -/
theorem mnemonic_handed_on (hmac : Bytes → Bytes → Digest) (mnemonic passphrase : Text)
    (ways : List Way) :
    ∃ fuel half kp, mnemonicToKeypairSeed sodium hmac mnemonic passphrase fuel =
        some (.ok half.bytes) ∧
      half.bytes =
        (derivedBlock hmac mnemonic (ofLiteral "mnemonic" ++ passphrase) 2048 1).bytes.take 32 ∧
      fromSeed sodium half = .ok kp ∧ seed kp = half ∧ SignsForItself sodium kp ∧
      handedOn sodium kp ways = .ok kp := by
  obtain ⟨fuel, derived⟩ :=
    mnemonic_seed_derived hmac sodium.init documented.ready mnemonic passphrase
  generalize derivedBlock hmac mnemonic (ofLiteral "mnemonic" ++ passphrase) 2048 1 = full at derived ⊢
  have size : (full.bytes.take 32).length = seedLength := by
    rw [List.length_take, full.size]
    decide
  have whole := pair_whole sodium documented ⟨full.bytes.take 32, size⟩
  have given := pair_seed sodium documented ⟨full.bytes.take 32, size⟩
  refine ⟨fuel, ⟨full.bytes.take 32, size⟩, pairOf sodium ⟨full.bytes.take 32, size⟩, ?_, rfl,
    from_seed_pair sodium documented _, given, pair_signs sodium documented _, ?_⟩
  · rw [mnemonicToKeypairSeed, derived]
    rfl
  · rw [handed_on_whole sodium documented _ whole ways, given, ite_self]

end Ways

section Mnemonics

/-- A keyed function that tells the first block of one password and salt from
whatever else it is asked. -/
def telling (password salt key text : Bytes) : Digest :=
  if key = password ∧ text = salt ++ bigEndian 1 then .fill hlen 1 else .fill hlen 0

theorem exclusive_or_zero (digest : Digest) : exclusiveOr digest (.fill hlen 0) = digest := by
  have zip : ∀ bytes : Bytes,
      List.zipWith (· ^^^ ·) bytes (List.replicate bytes.length 0) = bytes := by
    intro bytes
    induction bytes with
    | nil => rfl
    | cons byte rest ih =>
        rw [List.length_cons, List.replicate_succ, List.zipWith_cons_cons, ih, UInt8.xor_zero]
  have same := zip digest.bytes
  rw [digest.size] at same
  exact FixedBytes.same_bytes _ _ same

/-- A digest of equal bytes is no salt with a block number behind it. -/
theorem filled_no_block (byte : UInt8) (salt : Bytes) :
    (FixedBytes.fill hlen byte).bytes ≠ salt ++ bigEndian 1 := by
  intro same
  have ends := congrArg (fun bytes => bytes.reverse.take 2) same
  change [byte, byte] = (salt ++ [0, 0, 0, 1]).reverse.take 2 at ends
  rw [List.reverse_append] at ends
  cases ends

theorem telling_filled (password salt key text : Bytes) :
    ∃ byte, telling password salt key text = .fill hlen byte := by
  rw [telling]
  split
  · exact ⟨1, rfl⟩
  · exact ⟨0, rfl⟩

/-- Behind the first round nothing comes but zeros. -/
theorem telling_later (password salt key other : Bytes) (round : Nat) :
    chain (telling password salt) key other 1 (round + 1) = .fill hlen 0 := by
  have filled : ∃ byte, chain (telling password salt) key other 1 round = .fill hlen byte := by
    cases round with
    | zero => exact telling_filled ..
    | succ round => exact telling_filled ..
  obtain ⟨byte, same⟩ := filled
  rw [chain, same, telling, if_neg fun both => filled_no_block byte salt both.2]

theorem telling_block (password salt key other : Bytes) (rounds : Nat) :
    derivedBlock (telling password salt) key other (rounds + 1) 1 =
      if key = password ∧ other = salt then .fill hlen 1 else .fill hlen 0 := by
  induction rounds with
  | zero =>
      rw [derived_block_succ, derivedBlock]
      change exclusiveOr (.fill hlen 0) (telling password salt key (other ++ bigEndian 1)) = _
      rw [zero_exclusive_or, telling]
      exact if_congr (and_congr_right fun _ => List.append_left_inj _) rfl rfl
  | succ rounds ih => rw [derived_block_succ, ih, telling_later, exclusive_or_zero]

theorem mnemonic_seed_unique (hmac : Bytes → Bytes → Digest) (sodiumInit : Int)
    (ready : 0 ≤ sodiumInit) (mnemonic passphrase : Text) (fuel fuel' : Nat)
    (left right : Except Problem Bytes)
    (first : mnemonicToSeed hmac sodiumInit mnemonic passphrase fuel = some left)
    (second : mnemonicToSeed hmac sodiumInit mnemonic passphrase fuel' = some right) :
    left = right := by
  rw [mnemonicToSeed, pbkdf2HmacSha512, if_neg (Int.not_lt.mpr ready)] at first second
  exact Loops.returns_unique _ _ _ _ ⟨fuel, first⟩ ⟨fuel', second⟩

variable (sodium : Sodium)

/-- Whatever the keyed function is, two wallets have the same seed for sure only
if mnemonic and passphrase are the same. -/
theorem mnemonic_seeds_same_iff (mnemonic mnemonic' passphrase passphrase' : Text) :
    (∀ hmac fuel, mnemonicToKeypairSeed sodium hmac mnemonic passphrase fuel =
        mnemonicToKeypairSeed sodium hmac mnemonic' passphrase' fuel) ↔
      sodium.init < 0 ∨ mnemonic = mnemonic' ∧ passphrase = passphrase' := by
  by_cases ready : 0 ≤ sodium.init
  · constructor
    · intro agree
      obtain ⟨fuel, first⟩ := mnemonic_seed_derived
        (telling mnemonic (ofLiteral "mnemonic" ++ passphrase)) sodium.init ready mnemonic passphrase
      obtain ⟨fuel', second⟩ := mnemonic_seed_derived
        (telling mnemonic (ofLiteral "mnemonic" ++ passphrase)) sodium.init ready mnemonic' passphrase'
      have same := agree (telling mnemonic (ofLiteral "mnemonic" ++ passphrase)) fuel
      rw [mnemonicToKeypairSeed, mnemonicToKeypairSeed, first] at same
      obtain ⟨outcome, returned, halves⟩ := Option.map_eq_some_iff.mp same.symm
      cases mnemonic_seed_unique _ _ ready _ _ fuel fuel' _ _ returned second
      have blocks := Except.ok.inj halves
      have here := telling_block mnemonic (ofLiteral "mnemonic" ++ passphrase) mnemonic
        (ofLiteral "mnemonic" ++ passphrase) 2047
      have there := telling_block mnemonic (ofLiteral "mnemonic" ++ passphrase) mnemonic'
        (ofLiteral "mnemonic" ++ passphrase') 2047
      rw [if_pos ⟨rfl, rfl⟩] at here
      rw [here, there] at blocks
      by_cases equal : mnemonic' = mnemonic ∧
          ofLiteral "mnemonic" ++ passphrase' = ofLiteral "mnemonic" ++ passphrase
      · exact .inr ⟨equal.1.symm, (List.append_cancel_left equal.2).symm⟩
      · rw [if_neg equal] at blocks
        exact absurd blocks (by decide)
    · rintro (never | ⟨rfl, rfl⟩) hmac fuel
      · exact absurd ready (Int.not_le.mpr never)
      · rfl
  · have never : sodium.init < 0 := Int.not_le.mp ready
    refine iff_of_true (fun hmac fuel => ?_) (.inl never)
    rw [mnemonicToKeypairSeed, mnemonicToKeypairSeed, mnemonicToSeed, mnemonicToSeed,
      pbkdf2HmacSha512, pbkdf2HmacSha512, if_pos never, if_pos never]

end Mnemonics

section Sample

/-- The public key is the seed, and a signature shows the secret key. -/
def openSodium : Sodium where
  init := 0
  seedKeypair seed := (⟨seed.bytes, seed.size⟩, ⟨seed.bytes ++ seed.bytes, by
    rw [List.length_append, seed.size]
    rfl⟩)
  signDetached _ secretKey := secretKey
  verifyDetached signature _ publicKey := if signature.bytes.drop 32 = publicKey.bytes then 0 else -1

theorem open_documented : Documented openSodium where
  ready := Int.le_refl 0
  halves _ := rfl
  verifies seed _ := if_pos (List.drop_left' seed.size)

/-- The public half is not the one of the seed. -/
def mixedKey : FixedBytes secretKeyLength := ⟨List.replicate 32 1 ++ List.replicate 32 2, by decide⟩

theorem mixed_handed_on :
    ∃ kp after, fromSecretKey openSodium mixedKey = .ok kp ∧ kp.secretKeyBytes = mixedKey ∧
      handedOn openSodium kp [.base58, .seed] = .ok after ∧
      (after = kp ↔ (Way.seed ∈ [Way.base58, .seed] →
        (pairOf openSodium (seed kp)).publicKey = kp.publicKey)) ∧
      (Way.seed ∈ [Way.base58, .seed] → SignsForItself openSodium after) :=
  imported_handed_on openSodium open_documented mixedKey [.base58, .seed]

theorem abandon_handed_on :
    ∃ fuel half kp, mnemonicToKeypairSeed openSodium constantHmac (ofLiteral "abandon") [] fuel =
        some (.ok half.bytes) ∧
      half.bytes = (derivedBlock constantHmac (ofLiteral "abandon")
        (ofLiteral "mnemonic" ++ []) 2048 1).bytes.take 32 ∧
      fromSeed openSodium half = .ok kp ∧ seed kp = half ∧ SignsForItself openSodium kp ∧
      handedOn openSodium kp [.secretKey, .base58, .seed] = .ok kp :=
  mnemonic_handed_on openSodium open_documented constantHmac (ofLiteral "abandon") []
    [.secretKey, .base58, .seed]

end Sample

end SolanaSdk.Wallets
