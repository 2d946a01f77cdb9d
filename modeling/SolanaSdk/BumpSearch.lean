import SolanaSdk.ProgramAddresses

/-!
The bump that the search settles on, for any hash and any point check. The loop
catches what the derivation throws, whether a seed is too long or the candidate
is on the curve, so it gives up only after the last bump.
-/

namespace SolanaSdk.BumpSearch

open ByteData PublicKeys ProgramAddresses

variable (sha256 : Bytes → FixedBytes publicKeyLength)
  (isValidPoint : FixedBytes publicKeyLength → Int)

/-- The candidate under a bump is not accepted by the point check. -/
def OffCurve (seeds : List Bytes) (programId : PublicKey) (bump : UInt8) : Prop :=
  isValidPoint (addressHash sha256 (seeds ++ [[bump]]) programId) = 0

/-- The bumps that the loop from `bump - 1` down to 0 makes a derivation for. -/
def triedBumps (seeds : List Bytes) (programId : PublicKey) : Nat → List UInt8
  | 0 => []
  | bump + 1 =>
      UInt8.ofNat bump ::
        match createProgramAddressSync sha256 isValidPoint (withBump seeds bump) programId with
        | .error (.runtimeError _) => triedBumps seeds programId bump
        | _ => []

structure CanonicalBump (seeds : List Bytes) (programId address : PublicKey) (bump : UInt8) :
    Prop where
  offCurve : OffCurve sha256 isValidPoint seeds programId bump
  greatest : ∀ higher, bump < higher → ¬ OffCurve sha256 isValidPoint seeds programId higher
  derived : createProgramAddressSync sha256 isValidPoint (seeds ++ [[bump]]) programId = .ok address
  refused : ∀ higher, bump < higher → ∃ failure,
    createProgramAddressSync sha256 isValidPoint (seeds ++ [[higher]]) programId = .error failure

theorem with_bump_byte (seeds : List Bytes) (bump : UInt8) :
    withBump seeds bump.toNat = seeds ++ [[bump]] := by
  rw [withBump, UInt8.ofNat_toNat]

theorem create_bump_iff (seeds : List Bytes) (programId key : PublicKey) (bump : UInt8) :
    createProgramAddressSync sha256 isValidPoint (seeds ++ [[bump]]) programId = .ok key ↔
      SeedsFit seeds ∧ OffCurve sha256 isValidPoint seeds programId bump ∧
        key = ⟨addressHash sha256 (seeds ++ [[bump]]) programId⟩ := by
  rw [create_ok_iff, ← with_bump_byte, seeds_fit_bump, with_bump_byte]
  rfl

theorem create_not_ok (seeds : List Bytes) (programId : PublicKey)
    (never : ∀ key, createProgramAddressSync sha256 isValidPoint seeds programId ≠ .ok key) :
    ∃ what, createProgramAddressSync sha256 isValidPoint seeds programId =
      .error (.runtimeError what) := by
  cases created : createProgramAddressSync sha256 isValidPoint seeds programId with
  | ok key => exact absurd created (never key)
  | error failure =>
      obtain ⟨what, rfl⟩ := create_error sha256 isValidPoint seeds programId failure created
      exact ⟨what, rfl⟩

/-- A search without a hit goes through all of its bumps. -/
theorem search_exhausted (seeds : List Bytes) (programId : PublicKey) (count : Nat)
    (fails : ∀ bump < count, ∀ key,
      createProgramAddressSync sha256 isValidPoint (withBump seeds bump) programId ≠ .ok key) :
    searchBump sha256 isValidPoint seeds programId count =
        .error (.runtimeError "Could not find a valid PDA") ∧
      triedBumps sha256 isValidPoint seeds programId count =
        (List.range count).reverse.map UInt8.ofNat := by
  induction count with
  | zero => exact ⟨rfl, rfl⟩
  | succ last ih =>
      obtain ⟨searched, tried⟩ := ih fun bump below => fails bump (Nat.lt_succ_of_lt below)
      obtain ⟨what, refused⟩ :=
        create_not_ok sha256 isValidPoint _ programId (fails last (Nat.lt_succ_self last))
      constructor
      · rw [searchBump, refused]
        exact searched
      · rw [triedBumps, refused, List.range_succ, List.reverse_append, List.reverse_singleton,
          List.singleton_append, List.map_cons, ← tried]

theorem found_canonical (seeds : List Bytes) (programId address : PublicKey) (bump : UInt8)
    (found : findProgramAddressSync sha256 isValidPoint seeds programId = .ok (address, bump)) :
    SeedsFit seeds ∧ CanonicalBump sha256 isValidPoint seeds programId address bump := by
  obtain ⟨stop, below, same, derived, greatest⟩ :=
    search_bump_ok sha256 isValidPoint seeds programId 256 (address, bump) found
  dsimp only at same derived
  have stopped : bump.toNat = stop := by
    rw [same]
    exact UInt8.toNat_ofNat_of_lt below
  rw [← stopped, with_bump_byte] at derived
  obtain ⟨fit, off, -⟩ :=
    (create_bump_iff sha256 isValidPoint seeds programId address bump).mp derived
  -- Above the stop no derivation returns, so each candidate there was on the curve.
  have above : ∀ higher, bump < higher → ∀ key,
      createProgramAddressSync sha256 isValidPoint (seeds ++ [[higher]]) programId ≠ .ok key := by
    intro higher larger key
    rw [← with_bump_byte]
    exact greatest higher.toNat (stopped ▸ UInt8.lt_iff_toNat_lt.mp larger) higher.toNat_lt key
  refine ⟨fit, off, ?_, derived, ?_⟩
  · intro higher larger offHigher
    exact above higher larger _
      ((create_bump_iff sha256 isValidPoint seeds programId _ higher).mpr ⟨fit, offHigher, rfl⟩)
  · intro higher larger
    obtain ⟨what, refused⟩ := create_not_ok sha256 isValidPoint _ programId (above higher larger)
    exact ⟨_, refused⟩

/-- The search returns exactly when the seeds fit and some candidate is off the
curve, with the greatest bump of such a candidate; else all 256 bumps fail. -/
theorem canonical_bump (seeds : List Bytes) (programId : PublicKey) :
    ((∃ address bump,
        findProgramAddressSync sha256 isValidPoint seeds programId = .ok (address, bump)) ↔
      SeedsFit seeds ∧ ∃ bump, OffCurve sha256 isValidPoint seeds programId bump) ∧
    (∀ address bump,
      findProgramAddressSync sha256 isValidPoint seeds programId = .ok (address, bump) →
        CanonicalBump sha256 isValidPoint seeds programId address bump) ∧
    (¬ (SeedsFit seeds ∧ ∃ bump, OffCurve sha256 isValidPoint seeds programId bump) →
      findProgramAddressSync sha256 isValidPoint seeds programId =
          .error (.runtimeError "Could not find a valid PDA") ∧
        triedBumps sha256 isValidPoint seeds programId 256 =
          (List.range 256).reverse.map UInt8.ofNat) := by
  refine ⟨⟨?_, ?_⟩, ?_, ?_⟩
  · rintro ⟨address, bump, found⟩
    obtain ⟨fit, canonical⟩ :=
      found_canonical sha256 isValidPoint seeds programId address bump found
    exact ⟨fit, bump, canonical.offCurve⟩
  · rintro ⟨fit, bump, off⟩
    have derived := (create_bump_iff sha256 isValidPoint seeds programId _ bump).mpr ⟨fit, off, rfl⟩
    rw [← with_bump_byte] at derived
    obtain ⟨⟨address, stop⟩, found⟩ :=
      search_bump_total sha256 isValidPoint seeds programId 256 bump.toNat bump.toNat_lt _ derived
    exact ⟨address, stop, found⟩
  · intro address bump found
    exact (found_canonical sha256 isValidPoint seeds programId address bump found).2
  · intro never
    apply search_exhausted
    intro bump below key derived
    have byte : (UInt8.ofNat bump).toNat = bump := UInt8.toNat_ofNat_of_lt below
    rw [← byte, with_bump_byte, create_bump_iff] at derived
    exact never ⟨derived.1, _, derived.2.1⟩

end SolanaSdk.BumpSearch
