import SolanaSdk.RankedBlocks

/-!
Privileges of an account in a message and the four-block layout that encodes
them by position: writable signers, readonly signers, other writable accounts,
other readonly accounts. The header holds three counts and nothing else, so it
states the privileges of a key list exactly when the list is in block order.
-/

namespace SolanaSdk.Privileges

open RankedBlocks

structure Privilege where
  signer : Bool
  writable : Bool
  deriving DecidableEq

namespace Privilege

/-- The flag upgrade of both compilers: `stored = stored || used`. -/
def merge (stored used : Privilege) : Privilege :=
  ⟨stored.signer || used.signer, stored.writable || used.writable⟩

def block (privilege : Privilege) : Nat :=
  (if privilege.signer then 0 else 2) + (if privilege.writable then 0 else 1)

theorem merge_signer (left right : Privilege) :
    (merge left right).signer = true ↔ left.signer = true ∨ right.signer = true := by
  simp [merge]

theorem merge_writable (left right : Privilege) :
    (merge left right).writable = true ↔ left.writable = true ∨ right.writable = true := by
  simp [merge]

theorem block_lt_four (privilege : Privilege) : privilege.block < 4 := by
  cases privilege with
  | mk signer writable => cases signer <;> cases writable <;> decide

theorem block_lt_two (privilege : Privilege) : privilege.block < 2 ↔ privilege.signer = true := by
  cases privilege with
  | mk signer writable => cases signer <;> cases writable <;> decide

theorem block_lt_one (privilege : Privilege) :
    privilege.block < 1 ↔ privilege.signer = true ∧ privilege.writable = true := by
  cases privilege with
  | mk signer writable => cases signer <;> cases writable <;> decide

theorem block_lt_three (privilege : Privilege) :
    privilege.block < 3 ↔ privilege.signer = true ∨ privilege.writable = true := by
  cases privilege with
  | mk signer writable => cases signer <;> cases writable <;> decide

theorem block_le (left right : Privilege)
    (signers : right.signer = true → left.signer = true)
    (writers : left.signer = right.signer → right.writable = true → left.writable = true) :
    left.block ≤ right.block := by
  cases left with
  | mk leftSigner leftWritable =>
    cases right with
    | mk rightSigner rightWritable =>
      cases leftSigner <;> cases rightSigner <;> cases leftWritable <;> cases rightWritable <;>
        simp_all [block]

end Privilege

structure MessageHeader where
  numRequiredSignatures : UInt8 := 0
  numReadonlySignedAccounts : UInt8 := 0
  numReadonlyUnsignedAccounts : UInt8 := 0
  deriving DecidableEq

namespace MessageHeader

/-- The positions that the counts make signers. -/
def SignerAt (header : MessageHeader) (index : Nat) : Prop :=
  index < header.numRequiredSignatures.toNat

/-- The positions, among `count` account keys, that the counts make writable. -/
def WritableAt (header : MessageHeader) (count index : Nat) : Prop :=
  index < header.numRequiredSignatures.toNat - header.numReadonlySignedAccounts.toNat ∨
    (header.numRequiredSignatures.toNat ≤ index ∧
      index < count - header.numReadonlyUnsignedAccounts.toNat)

instance (header : MessageHeader) (index : Nat) : Decidable (header.SignerAt index) :=
  inferInstanceAs (Decidable (_ < _))

instance (header : MessageHeader) (count index : Nat) :
    Decidable (header.WritableAt count index) :=
  inferInstanceAs (Decidable (_ ∨ _))

end MessageHeader

section Layout
universe u
variable {Row : Type u} (grant : Row → Privilege)

def isSigner (row : Row) : Bool := (grant row).signer
def isReadonlySigner (row : Row) : Bool := (grant row).signer && !(grant row).writable
def isReadonlyOther (row : Row) : Bool := !(grant row).signer && !(grant row).writable

/-- The three counting loops over the rows of a key list. -/
def headerOf (rows : List Row) : MessageHeader where
  numRequiredSignatures := byteCount (isSigner grant) rows
  numReadonlySignedAccounts := byteCount (isReadonlySigner grant) rows
  numReadonlyUnsignedAccounts := byteCount (isReadonlyOther grant) rows

/-- The counts see nothing of a row but its privilege. -/
theorem header_of_grants (rows : List Row) : headerOf grant rows = headerOf id (rows.map grant) := by
  simp only [headerOf, byte_count_map]
  rfl

theorem header_of_perm (rows reordered : List Row) (same : rows.Perm reordered) :
    headerOf grant rows = headerOf grant reordered := by
  simp only [headerOf, byte_count_perm _ rows reordered same]

def InBlocks (rows : List Row) : Prop := Ranked (fun row => (grant row).block) rows

theorem count_signers (rows : List Row) :
    rows.countP (isSigner grant) = below (fun row => (grant row).block) 2 rows := by
  apply List.countP_congr
  intro row _
  simp only [isSigner, decide_eq_true_eq, Privilege.block_lt_two]

theorem count_writable_signers (rows : List Row) :
    rows.countP (isSigner grant) =
      below (fun row => (grant row).block) 1 rows + rows.countP (isReadonlySigner grant) := by
  induction rows with
  | nil => rfl
  | cons row rest ih =>
      simp only [below, List.countP_cons, isSigner, isReadonlySigner, Privilege.block_lt_one] at ih ⊢
      rw [ih]
      by_cases signed : (grant row).signer = true <;>
        by_cases written : (grant row).writable = true <;> simp [signed, written] <;> omega

theorem count_readonly_others (rows : List Row) :
    rows.length =
      below (fun row => (grant row).block) 3 rows + rows.countP (isReadonlyOther grant) := by
  induction rows with
  | nil => rfl
  | cons row rest ih =>
      simp only [below, List.countP_cons, List.length_cons, isReadonlyOther,
        Privilege.block_lt_three] at ih ⊢
      rw [ih]
      by_cases signed : (grant row).signer = true <;>
        by_cases written : (grant row).writable = true <;> simp [signed, written] <;> omega

variable (rows : List Row)

theorem header_signatures (fits : rows.length ≤ 255) :
    (headerOf grant rows).numRequiredSignatures.toNat = rows.countP (isSigner grant) :=
  byte_count_exact _ _ (Nat.le_trans List.countP_le_length fits)

theorem header_readonly_signed (fits : rows.length ≤ 255) :
    (headerOf grant rows).numReadonlySignedAccounts.toNat =
      rows.countP (isReadonlySigner grant) :=
  byte_count_exact _ _ (Nat.le_trans List.countP_le_length fits)

theorem header_readonly_unsigned (fits : rows.length ≤ 255) :
    (headerOf grant rows).numReadonlyUnsignedAccounts.toNat =
      rows.countP (isReadonlyOther grant) :=
  byte_count_exact _ _ (Nat.le_trans List.countP_le_length fits)

/-- What the header says of a position is what the row there was granted. -/
def StatesPrivileges : Prop :=
  ∀ index (inside : index < rows.length),
    ((headerOf grant rows).SignerAt index ↔ (grant rows[index]).signer = true) ∧
    ((headerOf grant rows).WritableAt rows.length index ↔ (grant rows[index]).writable = true)

theorem signer_at_of_blocks (fits : rows.length ≤ 255) (layout : InBlocks grant rows)
    (index : Nat) (inside : index < rows.length) :
    (headerOf grant rows).SignerAt index ↔ (grant rows[index]).signer = true := by
  rw [MessageHeader.SignerAt, header_signatures grant rows fits, count_signers,
    ranked_boundary _ 2 rows layout index inside, Privilege.block_lt_two]

theorem writable_at_of_blocks (fits : rows.length ≤ 255) (layout : InBlocks grant rows)
    (index : Nat) (inside : index < rows.length) :
    (headerOf grant rows).WritableAt rows.length index ↔ (grant rows[index]).writable = true := by
  have signers := count_signers grant rows
  have writers := count_writable_signers grant rows
  have others := count_readonly_others grant rows
  have first := ranked_boundary _ 1 rows layout index inside
  have second := ranked_boundary _ 2 rows layout index inside
  have third := ranked_boundary _ 3 rows layout index inside
  rw [Privilege.block_lt_one] at first
  rw [Privilege.block_lt_two] at second
  rw [Privilege.block_lt_three] at third
  rw [MessageHeader.WritableAt, header_signatures grant rows fits,
    header_readonly_signed grant rows fits, header_readonly_unsigned grant rows fits]
  -- The first alternative is block 0, the second runs from block 2 up to block 3.
  have low : rows.countP (isSigner grant) - rows.countP (isReadonlySigner grant) =
      below (fun row => (grant row).block) 1 rows := by omega
  have high : rows.length - rows.countP (isReadonlyOther grant) =
      below (fun row => (grant row).block) 3 rows := by omega
  rw [low, high, signers, first, ← Nat.not_lt, second, third]
  cases (grant rows[index]).signer <;> simp

/-- The header states the privileges of a key list exactly when the list is in
block order. -/
theorem states_privileges_iff (fits : rows.length ≤ 255) :
    StatesPrivileges grant rows ↔ InBlocks grant rows := by
  constructor
  · intro stated
    apply List.pairwise_iff_getElem.mpr
    intro before after left right order
    obtain ⟨signerLeft, writableLeft⟩ := stated before left
    obtain ⟨signerRight, writableRight⟩ := stated after right
    apply Privilege.block_le
    · intro signed
      exact signerLeft.mp (Nat.lt_trans order (signerRight.mpr signed))
    · intro same written
      have apart : (headerOf grant rows).SignerAt before ↔ (headerOf grant rows).SignerAt after := by
        rw [signerLeft, signerRight, same]
      apply writableLeft.mp
      unfold MessageHeader.SignerAt at apart
      rcases writableRight.mpr written with low | ⟨past, high⟩
      · exact Or.inl (Nat.lt_trans order low)
      · exact Or.inr ⟨by omega, Nat.lt_trans order high⟩
  · intro layout index inside
    exact ⟨signer_at_of_blocks grant rows fits layout index inside,
      writable_at_of_blocks grant rows fits layout index inside⟩

end Layout
end SolanaSdk.Privileges
