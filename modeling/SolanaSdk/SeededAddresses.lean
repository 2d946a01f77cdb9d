import SolanaSdk.BumpSearch

/-!
Which derivations meet. Addresses are digests, and two derivations that hash the
same bytes return the same address under every hash function. Seeds of program
derived addresses run together, and one kind of address can be derived as the other.
-/

namespace SolanaSdk.SeededAddresses

open ByteData PublicKeys ProgramAddresses BumpSearch

section Seeded
variable (sha256 : Bytes → FixedBytes publicKeyLength)

/-- What the hash state of `createWithSeed` takes. -/
def seededInput (fromPublicKey : PublicKey) (seed : Bytes) (programId : PublicKey) : Bytes :=
  fromPublicKey.toBytes ++ seed ++ programId.toBytes

def createWithSeed (fromPublicKey : PublicKey) (seed : Bytes) (programId : PublicKey) :
    Except Failure PublicKey :=
  if 32 < seed.length then throw (.runtimeError "Seed must be 32 bytes or less")
  else pure ⟨sha256 (seededInput fromPublicKey seed programId)⟩

end Seeded

section Inputs

def derivedInput (seeds : List Bytes) (programId : PublicKey) : Bytes :=
  seeds.flatten ++ programId.toBytes ++ marker

/-- A hash function that tells one input from all others. -/
def singling (input other : Bytes) : FixedBytes publicKeyLength :=
  if other = input then .fill publicKeyLength 1 else .fill publicKeyLength 0

theorem singling_same (input other : Bytes)
    (same : singling input other = singling input input) : other = input := by
  by_contra apart
  rw [singling, singling, if_neg apart, if_pos rfl] at same
  exact absurd same (by decide)

/-- Digests agree under every hash function only if the inputs do. -/
theorem digests_agree_iff (left right : Bytes) :
    (∀ sha256 : Bytes → FixedBytes publicKeyLength, sha256 left = sha256 right) ↔ left = right := by
  constructor
  · intro agree
    exact singling_same right left (agree (singling right))
  · rintro rfl _
    rfl

theorem key_bytes_injective (left right : PublicKey) (same : left.toBytes = right.toBytes) :
    left = right := by
  cases left
  cases right
  exact congrArg PublicKey.mk (FixedBytes.same_bytes _ _ same)

theorem seeded_input_injective (base base' : PublicKey) (seed seed' : Bytes)
    (programId programId' : PublicKey)
    (same : seededInput base seed programId = seededInput base' seed' programId') :
    base = base' ∧ seed = seed' ∧ programId = programId' := by
  rw [seededInput, seededInput, List.append_assoc, List.append_assoc] at same
  obtain ⟨first, rest⟩ := List.append_inj same (by rw [base.toBytes_length, base'.toBytes_length])
  obtain ⟨middle, last⟩ := List.append_inj' rest
    (by rw [programId.toBytes_length, programId'.toBytes_length])
  exact ⟨key_bytes_injective _ _ first, middle, key_bytes_injective _ _ last⟩

/-- The borders between the seeds are not hashed. -/
theorem derived_input_iff (seeds seeds' : List Bytes) (programId programId' : PublicKey) :
    derivedInput seeds programId = derivedInput seeds' programId' ↔
      seeds.flatten = seeds'.flatten ∧ programId = programId' := by
  constructor
  · intro same
    obtain ⟨front, -⟩ := List.append_inj' same rfl
    obtain ⟨first, last⟩ := List.append_inj' front
      (by rw [programId.toBytes_length, programId'.toBytes_length])
    exact ⟨first, key_bytes_injective _ _ last⟩
  · rintro ⟨same, rfl⟩
    rw [derivedInput, derivedInput, same]

end Inputs

section Same
variable (sha256 : Bytes → FixedBytes publicKeyLength)
  (isValidPoint : FixedBytes publicKeyLength → Int)

theorem create_fits (seeds : List Bytes) (programId : PublicKey) (fit : SeedsFit seeds) :
    createProgramAddressSync sha256 isValidPoint seeds programId =
      if isValidPoint (sha256 (derivedInput seeds programId)) ≠ 0 then
        .error (.runtimeError "Derived address is on the ed25519 curve")
      else .ok ⟨sha256 (derivedInput seeds programId)⟩ := by
  have short : (seeds.any fun seed => decide (32 < seed.length)) ≠ true := by
    intro long
    obtain ⟨seed, member, tooLong⟩ := List.any_eq_true.mp long
    exact absurd (of_decide_eq_true tooLong) (Nat.not_lt.mpr (fit seed member))
  rw [createProgramAddressSync, if_neg short]
  rfl

theorem create_same (seeds seeds' : List Bytes) (programId : PublicKey) (fit : SeedsFit seeds)
    (fit' : SeedsFit seeds') (same : seeds.flatten = seeds'.flatten) :
    createProgramAddressSync sha256 isValidPoint seeds programId =
      createProgramAddressSync sha256 isValidPoint seeds' programId := by
  have input := (derived_input_iff seeds seeds' programId programId).mpr ⟨same, rfl⟩
  rw [create_fits sha256 isValidPoint seeds programId fit,
    create_fits sha256 isValidPoint seeds' programId fit', input]

theorem search_same (seeds seeds' : List Bytes) (programId : PublicKey) (fit : SeedsFit seeds)
    (fit' : SeedsFit seeds') (same : seeds.flatten = seeds'.flatten) (count : Nat) :
    searchBump sha256 isValidPoint seeds programId count =
      searchBump sha256 isValidPoint seeds' programId count := by
  induction count with
  | zero => rfl
  | succ bump ih =>
      have candidate := create_same sha256 isValidPoint (withBump seeds bump) (withBump seeds' bump)
        programId ((seeds_fit_bump seeds bump).mpr fit) ((seeds_fit_bump seeds' bump).mpr fit')
        (by rw [withBump, withBump, List.flatten_append, List.flatten_append, same])
      rw [searchBump, searchBump, candidate, ih]

theorem search_unfit (seeds : List Bytes) (programId : PublicKey) (unfit : ¬ SeedsFit seeds) :
    findProgramAddressSync sha256 isValidPoint seeds programId =
      .error (.runtimeError "Could not find a valid PDA") := by
  refine (search_exhausted sha256 isValidPoint seeds programId 256 fun bump _ key created => ?_).1
  obtain ⟨fit, -⟩ := (create_ok_iff sha256 isValidPoint _ programId key).mp created
  exact unfit ((seeds_fit_bump seeds bump).mp fit)

/-- Where every point is off the curve, the first bump is taken. -/
theorem search_first (seeds : List Bytes) (programId : PublicKey) (fit : SeedsFit seeds) :
    findProgramAddressSync sha256 (fun _ => 0) seeds programId =
      .ok (⟨sha256 (derivedInput (withBump seeds 255) programId)⟩, 255) := by
  have candidate := create_fits sha256 (fun _ => 0) (withBump seeds 255) programId
    ((seeds_fit_bump seeds 255).mpr fit)
  rw [if_neg (by decide)] at candidate
  rw [findProgramAddressSync, searchBump, candidate]
  rfl

end Same

section Meeting
variable (seeds seeds' : List Bytes) (programId programId' : PublicKey)

/-- Nothing but the three parts decides a seeded address, and each of them does. -/
theorem seeded_same_iff (base base' : PublicKey) (seed seed' : Bytes) :
    (∀ sha256, createWithSeed sha256 base seed programId =
        createWithSeed sha256 base' seed' programId') ↔
      32 < seed.length ∧ 32 < seed'.length ∨
        seed.length ≤ 32 ∧ base = base' ∧ seed = seed' ∧ programId = programId' := by
  by_cases long : 32 < seed.length
  · by_cases long' : 32 < seed'.length
    · refine iff_of_true (fun sha256 => ?_) (.inl ⟨long, long'⟩)
      rw [createWithSeed, createWithSeed, if_pos long, if_pos long']
    · refine iff_of_false (fun agree => ?_) (by omega)
      have same := agree (singling [])
      rw [createWithSeed, createWithSeed, if_pos long, if_neg long'] at same
      cases same
  · by_cases long' : 32 < seed'.length
    · refine iff_of_false (fun agree => ?_) ?_
      · have same := agree (singling [])
        rw [createWithSeed, createWithSeed, if_neg long, if_pos long'] at same
        cases same
      · rintro (⟨tooLong, -⟩ | ⟨-, -, rfl, -⟩)
        · exact long tooLong
        · exact long long'
    · constructor
      · intro agree
        refine .inr ⟨Nat.not_lt.mp long, seeded_input_injective _ _ _ _ _ _ ?_⟩
        refine (digests_agree_iff _ _).mp fun sha256 => ?_
        have same := agree sha256
        rw [createWithSeed, createWithSeed, if_neg long, if_neg long'] at same
        exact congrArg PublicKey.buffer (Except.ok.inj same)
      · rintro (⟨tooLong, -⟩ | ⟨-, rfl, rfl, rfl⟩) sha256
        · exact absurd tooLong long
        · rfl

/-- Two searches come to the same, whatever the hash and the curve are, exactly
if both have a seed that is too long, or the seeds run together to the same bytes
under the same program. -/
theorem found_same_iff :
    (∀ sha256 isValidPoint, findProgramAddressSync sha256 isValidPoint seeds programId =
        findProgramAddressSync sha256 isValidPoint seeds' programId') ↔
      ¬ SeedsFit seeds ∧ ¬ SeedsFit seeds' ∨
        SeedsFit seeds ∧ SeedsFit seeds' ∧ seeds.flatten = seeds'.flatten ∧ programId = programId' := by
  constructor
  · intro agree
    have first := fun sha256 => agree sha256 fun _ => 0
    by_cases fit : SeedsFit seeds
    · by_cases fit' : SeedsFit seeds'
      · refine .inr ⟨fit, fit', ?_⟩
        have digests : ∀ sha256 : Bytes → FixedBytes publicKeyLength,
            sha256 (derivedInput (withBump seeds 255) programId) =
              sha256 (derivedInput (withBump seeds' 255) programId') := by
          intro sha256
          have same := first sha256
          rw [search_first sha256 seeds programId fit,
            search_first sha256 seeds' programId' fit'] at same
          exact congrArg (fun found => PublicKey.buffer (Prod.fst found)) (Except.ok.inj same)
        obtain ⟨joined, program⟩ := (derived_input_iff _ _ _ _).mp ((digests_agree_iff _ _).mp digests)
        rw [withBump, withBump, List.flatten_append, List.flatten_append] at joined
        exact ⟨List.append_cancel_right joined, program⟩
      · have same := first (singling [])
        rw [search_first _ seeds programId fit, search_unfit _ _ seeds' programId' fit'] at same
        cases same
    · by_cases fit' : SeedsFit seeds'
      · have same := first (singling [])
        rw [search_unfit _ _ seeds programId fit, search_first _ seeds' programId' fit'] at same
        cases same
      · exact .inl ⟨fit, fit'⟩
  · rintro (⟨unfit, unfit'⟩ | ⟨fit, fit', same, rfl⟩) sha256 isValidPoint
    · rw [search_unfit _ _ seeds programId unfit, search_unfit _ _ seeds' programId' unfit']
    · exact search_same sha256 isValidPoint seeds seeds' programId fit fit' same 256

theorem input_as_seeded (input : Bytes) (long : 64 ≤ input.length) (short : input.length ≤ 96) :
    ∃ base seed owner, seed.length ≤ 32 ∧ seededInput base seed owner = input := by
  have first : (input.take 32).length = publicKeyLength :=
    List.length_take_of_le (Nat.le_trans (by decide) long)
  have last : (input.drop (input.length - 32)).length = publicKeyLength := by
    rw [List.length_drop]
    change _ = 32
    omega
  refine ⟨⟨⟨input.take 32, first⟩⟩, (input.drop 32).take (input.length - 64),
    ⟨⟨input.drop (input.length - 32), last⟩⟩, ?_, ?_⟩
  · rw [List.length_take]
    omega
  · have behind : input.drop (input.length - 32) = (input.drop 32).drop (input.length - 64) := by
      rw [List.drop_drop]
      congr 1
      omega
    change input.take 32 ++ (input.drop 32).take (input.length - 64) ++
      input.drop (input.length - 32) = input
    rw [behind, List.append_assoc, List.take_append_drop, List.take_append_drop]

theorem input_lengths (base owner : PublicKey) (seed : Bytes)
    (same : seededInput base seed owner = derivedInput seeds programId) :
    seeds.flatten.length = 11 + seed.length := by
  have lengths := congrArg List.length same
  have marked : marker.length = 21 := rfl
  rw [seededInput, derivedInput, List.length_append, List.length_append, List.length_append,
    List.length_append, base.toBytes_length, owner.toBytes_length, programId.toBytes_length,
    marked] at lengths
  change 32 + seed.length + 32 = seeds.flatten.length + 32 + 21 at lengths
  omega

/-- `createWithSeed` has no guard against owners that end like a derivation: a
program derived address can also be had from it exactly if its seeds have
between 11 and 43 bytes in all. -/
theorem derived_as_seeded_iff (fit : SeedsFit seeds) :
    (∃ base seed owner, ∀ sha256 isValidPoint key,
      createProgramAddressSync sha256 isValidPoint seeds programId = .ok key →
        createWithSeed sha256 base seed owner = .ok key) ↔
      11 ≤ seeds.flatten.length ∧ seeds.flatten.length ≤ 43 := by
  constructor
  · rintro ⟨base, seed, owner, both⟩
    have seeded : ∀ sha256 : Bytes → FixedBytes publicKeyLength,
        createWithSeed sha256 base seed owner = .ok ⟨sha256 (derivedInput seeds programId)⟩ := by
      intro sha256
      refine both sha256 (fun _ => 0) _ ?_
      rw [create_fits _ _ seeds programId fit, if_neg (by decide)]
    have short : ¬ 32 < seed.length := by
      intro long
      have thrown := seeded (singling [])
      rw [createWithSeed, if_pos long] at thrown
      cases thrown
    have input : seededInput base seed owner = derivedInput seeds programId := by
      refine (digests_agree_iff _ _).mp fun sha256 => ?_
      have made := seeded sha256
      rw [createWithSeed, if_neg short] at made
      exact congrArg PublicKey.buffer (Except.ok.inj made)
    have length := input_lengths seeds programId base owner seed input
    omega
  · rintro ⟨least, most⟩
    have length : (derivedInput seeds programId).length = seeds.flatten.length + 53 := by
      have marked : marker.length = 21 := rfl
      rw [derivedInput, List.length_append, List.length_append, programId.toBytes_length, marked]
      rfl
    obtain ⟨base, seed, owner, short, input⟩ :=
      input_as_seeded (derivedInput seeds programId) (by omega) (by omega)
    refine ⟨base, seed, owner, fun sha256 isValidPoint key created => ?_⟩
    obtain ⟨-, -, rfl⟩ := (create_ok_iff sha256 isValidPoint seeds programId key).mp created
    rw [createWithSeed, if_neg (Nat.not_lt.mpr short), input]
    rfl

def escrowSeeds : List Bytes := [ofLiteral "escrow", PublicKey.default.toBytes]

theorem escrow_as_seeded :
    (∃ base seed owner, ∀ sha256 isValidPoint key,
      createProgramAddressSync sha256 isValidPoint escrowSeeds .default = .ok key →
        createWithSeed sha256 base seed owner = .ok key) ↔
      11 ≤ escrowSeeds.flatten.length ∧ escrowSeeds.flatten.length ≤ 43 := by
  have fit : SeedsFit escrowSeeds := by
    intro seed listed
    rcases List.mem_cons.mp listed with rfl | last
    · decide
    · rw [List.mem_singleton.mp last]
      decide
  exact derived_as_seeded_iff escrowSeeds .default fit

end Meeting

end SolanaSdk.SeededAddresses
