import SolanaSdk.Edwards25519
import SolanaSdk.PublicKeys

/-!
Program derived addresses. SHA-256 and libsodium's point check are parameters.
The derivation refuses exactly the digests that the check accepts; by its
documented contract the check accepts only points of the prime-order subgroup,
so a curve point outside it passes for an address off the curve.
-/

namespace SolanaSdk.ProgramAddresses

open ByteData PublicKeys Edwards25519 TwistedEdwards

section Derivation
variable (sha256 : Bytes → FixedBytes publicKeyLength)
  (isValidPoint : FixedBytes publicKeyLength → Int)

def marker : Bytes := ofLiteral "ProgramDerivedAddress"

/-- The hash state takes the seeds, the program id and the marker in turn. -/
def addressHash (seeds : List Bytes) (programId : PublicKey) : FixedBytes publicKeyLength :=
  sha256 (seeds.flatten ++ programId.toBytes ++ marker)

def createProgramAddressSync (seeds : List Bytes) (programId : PublicKey) :
    Except Failure PublicKey :=
  if seeds.any fun seed => 32 < seed.length then throw (.runtimeError "Seed exceeds 32 bytes")
  else if isValidPoint (addressHash sha256 seeds programId) ≠ 0 then
    throw (.runtimeError "Derived address is on the ed25519 curve")
  else pure ⟨addressHash sha256 seeds programId⟩

def withBump (seeds : List Bytes) (bump : Nat) : List Bytes := seeds ++ [[UInt8.ofNat bump]]

/-- The loop from `bump - 1` down to 0. Only `runtime_error` is caught. -/
def searchBump (seeds : List Bytes) (programId : PublicKey) :
    Nat → Except Failure (PublicKey × UInt8)
  | 0 => throw (.runtimeError "Could not find a valid PDA")
  | bump + 1 =>
      match createProgramAddressSync sha256 isValidPoint (withBump seeds bump) programId with
      | .ok address => pure (address, UInt8.ofNat bump)
      | .error (.runtimeError _) => searchBump seeds programId bump
      | .error (.invalidArgument what) => throw (.invalidArgument what)

def findProgramAddressSync (seeds : List Bytes) (programId : PublicKey) :
    Except Failure (PublicKey × UInt8) := searchBump sha256 isValidPoint seeds programId 256

def isOnCurve (key : PublicKey) : Bool := isValidPoint key.toBuffer ≠ 0

def tokenProgramId : Except Failure PublicKey :=
  PublicKey.ofBase58 (ofLiteral "TokenkegQfeZyiNwAJbNbGKPFXCWuBvf9Ss623VQ5DA")

def associatedTokenProgramId : Except Failure PublicKey :=
  PublicKey.ofBase58 (ofLiteral "ATokenGPvbdGVxr1b2hvZbsiqW5xWH25efTNsLJe1bUs")

def findAssociatedTokenAddress (walletAddress mintAddress : PublicKey) :
    Except Failure (PublicKey × UInt8) := do
  let tokenProgram ← tokenProgramId
  let associatedProgram ← associatedTokenProgramId
  findProgramAddressSync sha256 isValidPoint
    [walletAddress.toBytes, tokenProgram.toBytes, mintAddress.toBytes] associatedProgram

end Derivation

section Search
variable (sha256 : Bytes → FixedBytes publicKeyLength)
  (isValidPoint : FixedBytes publicKeyLength → Int)

def SeedsFit (seeds : List Bytes) : Prop := ∀ seed ∈ seeds, seed.length ≤ 32

theorem seeds_fit_bump (seeds : List Bytes) (bump : Nat) :
    SeedsFit (withBump seeds bump) ↔ SeedsFit seeds := by
  simp [SeedsFit, withBump, or_imp, forall_and]

theorem create_ok_iff (seeds : List Bytes) (programId key : PublicKey) :
    createProgramAddressSync sha256 isValidPoint seeds programId = .ok key ↔
      SeedsFit seeds ∧ isValidPoint (addressHash sha256 seeds programId) = 0 ∧
        key = ⟨addressHash sha256 seeds programId⟩ := by
  unfold createProgramAddressSync
  by_cases long : (seeds.any fun seed => 32 < seed.length) = true
  · have unfit : ¬ SeedsFit seeds := by
      intro fit
      obtain ⟨seed, member, tooLong⟩ := List.any_eq_true.mp long
      exact absurd (of_decide_eq_true tooLong) (Nat.not_lt.mpr (fit seed member))
    simp only [if_pos long, unfit, false_and, iff_false]
    intro thrown
    cases thrown
  · have fit : SeedsFit seeds := by
      intro seed member
      by_contra tooLong
      exact long (List.any_eq_true.mpr ⟨seed, member, by simpa using tooLong⟩)
    rw [if_neg long]
    by_cases zero : isValidPoint (addressHash sha256 seeds programId) = 0
    · simp [zero, fit, pure, Except.pure, eq_comm]
    · simp only [ne_eq, zero, not_false_eq_true, if_true, false_and, and_false, iff_false]
      intro thrown
      cases thrown

/-- The library's own test agrees: no derived address passes it. -/
theorem created_not_on_curve (seeds : List Bytes) (programId key : PublicKey)
    (created : createProgramAddressSync sha256 isValidPoint seeds programId = .ok key) :
    isOnCurve isValidPoint key = false := by
  obtain ⟨_, zero, rfl⟩ := (create_ok_iff sha256 isValidPoint seeds programId key).mp created
  simp [isOnCurve, PublicKey.toBuffer, zero]

/-- Whatever goes wrong is a `runtime_error`, so the search always goes on. -/
theorem create_error (seeds : List Bytes) (programId : PublicKey) (failure : Failure)
    (failed : createProgramAddressSync sha256 isValidPoint seeds programId = .error failure) :
    ∃ what, failure = .runtimeError what := by
  unfold createProgramAddressSync at failed
  split at failed
  · cases failed
    exact ⟨_, rfl⟩
  · split at failed
    · cases failed
      exact ⟨_, rfl⟩
    · cases failed

/-- The search stops at the greatest bump whose derivation returns. -/
theorem search_bump_ok (seeds : List Bytes) (programId : PublicKey) (count : Nat)
    (found : PublicKey × UInt8) (returned : searchBump sha256 isValidPoint seeds programId count =
      .ok found) :
    ∃ bump < count, found.2 = UInt8.ofNat bump ∧
      createProgramAddressSync sha256 isValidPoint (withBump seeds bump) programId =
        .ok found.1 ∧
      ∀ higher, bump < higher → higher < count → ∀ key,
        createProgramAddressSync sha256 isValidPoint (withBump seeds higher) programId ≠
          .ok key := by
  induction count with
  | zero => cases returned
  | succ last ih =>
      rw [searchBump] at returned
      cases first : createProgramAddressSync sha256 isValidPoint (withBump seeds last) programId with
      | ok address =>
          rw [first] at returned
          cases returned
          exact ⟨last, Nat.lt_succ_self last, rfl, first, fun higher above below => by omega⟩
      | error failure =>
          -- The loop catches every failure of the derivation and goes one down.
          obtain ⟨what, rfl⟩ := create_error sha256 isValidPoint _ _ _ first
          rw [first] at returned
          obtain ⟨bump, smaller, byte, derived, greatest⟩ := ih returned
          refine ⟨bump, Nat.lt_succ_of_lt smaller, byte, derived, fun higher above below key => ?_⟩
          by_cases top : higher = last
          · rw [top, first]
            exact fun equal => by cases equal
          · exact greatest higher above (by omega) key

/-- One derivation that returns is enough for the search to return. -/
theorem search_bump_total (seeds : List Bytes) (programId : PublicKey) (count bump : Nat)
    (inRange : bump < count) (key : PublicKey)
    (derived : createProgramAddressSync sha256 isValidPoint (withBump seeds bump) programId =
      .ok key) :
    ∃ found, searchBump sha256 isValidPoint seeds programId count = .ok found := by
  induction count with
  | zero => exact absurd inRange (Nat.not_lt_zero bump)
  | succ last ih =>
      rw [searchBump]
      cases first : createProgramAddressSync sha256 isValidPoint (withBump seeds last) programId with
      | ok address => exact ⟨_, rfl⟩
      | error failure =>
          obtain ⟨what, rfl⟩ := create_error sha256 isValidPoint _ _ _ first
          have earlier : bump ≠ last := by
            rintro rfl
            rw [derived] at first
            cases first
          exact ih (by omega)

end Search

section Contract
variable (sha256 : Bytes → FixedBytes publicKeyLength)
  (isValidPoint : FixedBytes publicKeyLength → Int)
  (contract : ∀ bytes, isValidPoint bytes ≠ 0 ↔ ValidPoint bytes.bytes)

/-- Whatever key comes back does not encode a curve point. -/
def StaysOffCurve (result : Except Failure PublicKey) : Prop :=
  ∀ key, result = .ok key → ¬ OnCurve key.toBytes

/-- A bump that hashes to a torsion point has a greater one off the curve. -/
def BumpsAvoidTorsion (seeds : List Bytes) (programId : PublicKey) : Prop :=
  ∀ bump < 256, TorsionPoint (addressHash sha256 (withBump seeds bump) programId).bytes →
    ∃ higher, bump < higher ∧ higher < 256 ∧
      ¬ OnCurve (addressHash sha256 (withBump seeds higher) programId).bytes

include contract

/-- The derivation returns the hash whenever the check does not accept it. -/
theorem create_ok_valid (seeds : List Bytes) (programId key : PublicKey) :
    createProgramAddressSync sha256 isValidPoint seeds programId = .ok key ↔
      SeedsFit seeds ∧ ¬ ValidPoint (addressHash sha256 seeds programId).bytes ∧
        key = ⟨addressHash sha256 seeds programId⟩ := by
  rw [create_ok_iff, ← contract, not_not]

theorem create_off_curve_iff (seeds : List Bytes) (programId : PublicKey) :
    StaysOffCurve (createProgramAddressSync sha256 isValidPoint seeds programId) ↔
      (SeedsFit seeds → ¬ TorsionPoint (addressHash sha256 seeds programId).bytes) := by
  constructor
  · intro off fit torsion
    apply off _ ((create_ok_valid sha256 isValidPoint contract seeds programId _).mpr
      ⟨fit, torsion_not_valid _ torsion, rfl⟩)
    exact (on_curve_split _).mpr (Or.inr torsion)
  · intro avoids key returned on
    obtain ⟨fit, invalid, rfl⟩ :=
      (create_ok_valid sha256 isValidPoint contract seeds programId key).mp returned
    rcases (on_curve_split _).mp on with valid | torsion
    · exact invalid valid
    · exact avoids fit torsion

theorem find_off_curve_iff (seeds : List Bytes) (programId : PublicKey) :
    StaysOffCurve ((findProgramAddressSync sha256 isValidPoint seeds programId).map Prod.fst) ↔
      (SeedsFit seeds → BumpsAvoidTorsion sha256 seeds programId) := by
  have created := create_ok_valid sha256 isValidPoint contract
  constructor
  · intro off fit bump inRange torsion
    by_contra covered
    have derived := (created (withBump seeds bump) programId _).mpr
      ⟨(seeds_fit_bump seeds bump).mpr fit, torsion_not_valid _ torsion, rfl⟩
    obtain ⟨found, returned⟩ :=
      search_bump_total sha256 isValidPoint seeds programId 256 bump inRange _ derived
    obtain ⟨stop, below, _, stopped, greatest⟩ :=
      search_bump_ok sha256 isValidPoint seeds programId 256 found returned
    have key := ((created _ programId found.1).mp stopped).2.2
    -- The search stops at `bump` or above it, on a point of the curve either way.
    have on : OnCurve (addressHash sha256 (withBump seeds stop) programId).bytes := by
      rcases Nat.lt_trichotomy stop bump with under | rfl | above
      · exact absurd derived (greatest bump under inRange _)
      · exact (on_curve_split _).mpr (Or.inr torsion)
      · by_contra off
        exact covered ⟨stop, above, below, off⟩
    refine off found.1 ?_ (by rw [key]; exact on)
    rw [findProgramAddressSync, returned]
    rfl
  · intro avoids key returned on
    cases search : findProgramAddressSync sha256 isValidPoint seeds programId with
    | error failure =>
        rw [search] at returned
        cases returned
    | ok found =>
        rw [search] at returned
        cases returned
        obtain ⟨stop, below, _, stopped, greatest⟩ :=
          search_bump_ok sha256 isValidPoint seeds programId 256 found search
        obtain ⟨fit, invalid, same⟩ := (created _ programId found.1).mp stopped
        have seedsFit := (seeds_fit_bump seeds stop).mp fit
        rw [same] at on
        rcases (on_curve_split _).mp on with valid | torsion
        · exact invalid valid
        · obtain ⟨higher, above, inRange, off⟩ := avoids seedsFit stop below torsion
          refine greatest higher above inRange _ ((created _ programId _).mpr
            ⟨(seeds_fit_bump seeds higher).mpr seedsFit, fun valid => ?_, rfl⟩)
          exact off ((on_curve_split _).mpr (Or.inl valid))

end Contract

section Associated

/-- The key that the token program's address text decodes to. -/
def tokenProgramKey : PublicKey :=
  ⟨⟨[6, 221, 246, 225, 215, 101, 161, 147, 217, 203, 225, 70, 206, 235, 121, 172,
    28, 180, 133, 237, 95, 91, 55, 145, 58, 140, 245, 133, 126, 255, 0, 169], rfl⟩⟩

def associatedProgramKey : PublicKey :=
  ⟨⟨[140, 151, 37, 143, 78, 36, 137, 241, 187, 61, 16, 41, 20, 142, 13, 131,
    11, 90, 19, 153, 218, 255, 16, 132, 4, 142, 123, 216, 238, 183, 148, 200], rfl⟩⟩

theorem token_program_decodes : tokenProgramId = .ok tokenProgramKey := by decide +kernel

theorem associated_program_decodes : associatedTokenProgramId = .ok associatedProgramKey := by
  decide +kernel

def associatedSeeds (walletAddress mintAddress : PublicKey) : List Bytes :=
  [walletAddress.toBytes, tokenProgramKey.toBytes, mintAddress.toBytes]

theorem associated_seeds_fit (walletAddress mintAddress : PublicKey) :
    SeedsFit (associatedSeeds walletAddress mintAddress) := by
  intro seed member
  have whole : ∀ key : PublicKey, key.toBytes.length ≤ 32 := fun key =>
    Nat.le_of_eq key.toBytes_length
  simp only [associatedSeeds, List.mem_cons, List.not_mem_nil, or_false] at member
  rcases member with rfl | rfl | rfl
  · exact whole walletAddress
  · exact whole tokenProgramKey
  · exact whole mintAddress

variable (sha256 : Bytes → FixedBytes publicKeyLength)
  (isValidPoint : FixedBytes publicKeyLength → Int)

theorem find_associated (walletAddress mintAddress : PublicKey) :
    findAssociatedTokenAddress sha256 isValidPoint walletAddress mintAddress =
      findProgramAddressSync sha256 isValidPoint (associatedSeeds walletAddress mintAddress)
        associatedProgramKey := by
  rw [findAssociatedTokenAddress, token_program_decodes, associated_program_decodes]
  rfl

/-- The three derivations keep off the curve exactly where no digest that they
reach encodes a torsion point: the check lets those through. -/
theorem derived_off_curve_iff
    (contract : ∀ bytes, isValidPoint bytes ≠ 0 ↔ ValidPoint bytes.bytes) :
    (∀ seeds programId,
      StaysOffCurve (createProgramAddressSync sha256 isValidPoint seeds programId) ↔
        (SeedsFit seeds → ¬ TorsionPoint (addressHash sha256 seeds programId).bytes)) ∧
    (∀ seeds programId,
      StaysOffCurve ((findProgramAddressSync sha256 isValidPoint seeds programId).map Prod.fst) ↔
        (SeedsFit seeds → BumpsAvoidTorsion sha256 seeds programId)) ∧
    (∀ walletAddress mintAddress,
      StaysOffCurve ((findAssociatedTokenAddress sha256 isValidPoint walletAddress
        mintAddress).map Prod.fst) ↔
        BumpsAvoidTorsion sha256 (associatedSeeds walletAddress mintAddress)
          associatedProgramKey) := by
  refine ⟨create_off_curve_iff sha256 isValidPoint contract,
    find_off_curve_iff sha256 isValidPoint contract, fun walletAddress mintAddress => ?_⟩
  rw [find_associated, find_off_curve_iff sha256 isValidPoint contract]
  exact ⟨fun avoids => avoids (associated_seeds_fit walletAddress mintAddress),
    fun avoids _ => avoids⟩

end Associated

section Sample

/-- The point check exactly as it is documented. -/
noncomputable def documentedCheck (bytes : FixedBytes publicKeyLength) : Int :=
  open Classical in if ValidPoint bytes.bytes then 1 else 0

theorem documented_check_contract (bytes : FixedBytes publicKeyLength) :
    documentedCheck bytes ≠ 0 ↔ ValidPoint bytes.bytes := by
  unfold documentedCheck
  split
  · next valid => simp [valid]
  · next invalid => simp [invalid]

/-- The encoding of the point of order two. -/
def halfTurnDigest : FixedBytes publicKeyLength :=
  ⟨0xec :: (List.replicate 30 0xff ++ [0x7f]), rfl⟩

theorem half_turn_encoded : Encodes halfTurnDigest.bytes halfTurn := by
  have ordinate : (-1 : Coordinate).val = fieldPrime - 1 := by
    rw [ZMod.neg_val, if_neg one_ne_zero, ZMod.val_one]
  refine ⟨rfl, ?_⟩
  rw [halfTurn, ordinate, ZMod.val_zero]
  decide +kernel

theorem half_turn_torsion : TorsionPoint halfTurnDigest.bytes :=
  ⟨halfTurn, curve.contains_half_turn, half_turn_encoded,
    fun valid => valid.2 (curve.torsion_half_turn 4)⟩

/-- The seed bytes of "vault", under the program id of 32 zero bytes. -/
def vaultSeeds : List Bytes := [ofLiteral "vault"]

theorem derived_off_curve_half_turn :
    (∀ seeds programId,
      StaysOffCurve (createProgramAddressSync (fun _ => halfTurnDigest) documentedCheck seeds
        programId) ↔
        (SeedsFit seeds →
          ¬ TorsionPoint (addressHash (fun _ => halfTurnDigest) seeds programId).bytes)) ∧
    (∀ seeds programId,
      StaysOffCurve ((findProgramAddressSync (fun _ => halfTurnDigest) documentedCheck seeds
        programId).map Prod.fst) ↔
        (SeedsFit seeds → BumpsAvoidTorsion (fun _ => halfTurnDigest) seeds programId)) ∧
    (∀ walletAddress mintAddress,
      StaysOffCurve ((findAssociatedTokenAddress (fun _ => halfTurnDigest) documentedCheck
        walletAddress mintAddress).map Prod.fst) ↔
        BumpsAvoidTorsion (fun _ => halfTurnDigest) (associatedSeeds walletAddress mintAddress)
          associatedProgramKey) :=
  derived_off_curve_iff (fun _ => halfTurnDigest) documentedCheck documented_check_contract

/-- A digest of order two becomes an address, although it is on the curve. -/
theorem half_turn_derived :
    (∀ bytes, documentedCheck bytes ≠ 0 ↔ ValidPoint bytes.bytes) ∧
    ¬ StaysOffCurve (createProgramAddressSync (fun _ => halfTurnDigest) documentedCheck vaultSeeds
      .default) := by
  refine ⟨documented_check_contract, fun off => ?_⟩
  have fit : SeedsFit vaultSeeds := by
    intro seed member
    rw [List.mem_singleton.mp member]
    decide
  refine off _ ((create_ok_valid _ documentedCheck documented_check_contract vaultSeeds .default
    _).mpr ⟨fit, torsion_not_valid _ half_turn_torsion, rfl⟩) ?_
  exact (on_curve_split _).mpr (Or.inr half_turn_torsion)

end Sample

end SolanaSdk.ProgramAddresses
