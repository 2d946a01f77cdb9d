import SolanaSdk.SigningCompleteness
import SolanaSdk.WireDecoding

/-!
The numbers behind the bytes of a message. Neither compiler and neither
serializer compares a count with a limit: every number is cast to the width of
its place. The bytes are those of the unbounded numbers, each reduced modulo
256 or 65536.
-/

namespace SolanaSdk.NarrowedNumbers

open ByteData PublicKeys Privileges Instructions RankedBlocks Registers LookupTables
open VersionedMessage VersionedRouting VersionedLayout VersionedResolution
open Varints Wire Decoders WireDecoding

/-- A part of the bytes, with the number it is written for. -/
inductive Field where
  | byte (value : Nat)
  | count (value : Nat)
  | raw (bytes : Bytes)

namespace Field

def write : Field → Bytes
  | byte value => [UInt8.ofNat value]
  | count value => writeCompactU16 (UInt16.ofNat value)
  | raw bytes => bytes

/-- The number that a reader takes off the front of the wire. -/
def read : Field → Bytes → Option Nat
  | byte _, wire => wire.head?.map UInt8.toNat
  | count _, wire => (readCompactU16 wire).map Prod.fst
  | raw _, _ => none

def number : Field → Option Nat
  | byte value => some value
  | count value => some value
  | raw _ => none

def modulus : Field → Nat
  | byte _ => 256
  | count _ => 65536
  | raw _ => 1

/-- What is read is the number reduced to the width of its place. -/
theorem read_write (field : Field) (rest : Bytes) :
    field.read (field.write ++ rest) = field.number.map (· % field.modulus) := by
  cases field with
  | byte value => exact congrArg some (UInt8.toNat_ofNat' ..)
  | count value =>
      simp only [read, write, read_write_compact, Option.map_some, number, modulus]
      exact congrArg some (UInt16.toNat_ofNat' ..)
  | raw bytes => rfl

theorem read_exact_iff (field : Field) (rest : Bytes) :
    field.read (field.write ++ rest) = field.number ↔
      ∀ value, field.number = some value → value < field.modulus := by
  have positive : 0 < field.modulus := by cases field <;> exact Nat.succ_pos _
  rw [read_write]
  cases field.number with
  | none => simp
  | some value =>
      simp only [Option.map_some, Option.some.injEq, forall_eq']
      exact Nat.mod_eq_iff_lt (Nat.ne_of_gt positive)

end Field

section Bodies

/-- The three header counts before they are bytes. -/
structure HeaderNumbers where
  signatures : Nat
  readonlySigned : Nat
  readonlyUnsigned : Nat

def HeaderNumbers.narrow (numbers : HeaderNumbers) : MessageHeader :=
  ⟨UInt8.ofNat numbers.signatures, UInt8.ofNat numbers.readonlySigned,
    UInt8.ofNat numbers.readonlyUnsigned⟩

/-- How many keys of a pool each header count is about. -/
def headerNumbers (pool : Finset PublicKey) (grant : PublicKey → Privilege) : HeaderNumbers where
  signatures := (pool.filter fun key => isSigner grant key = true).card
  readonlySigned := (pool.filter fun key => isReadonlySigner grant key = true).card
  readonlyUnsigned := (pool.filter fun key => isReadonlyOther grant key = true).card

theorem count_pool (pool : Finset PublicKey) (keys : List PublicKey) (unique : keys.Nodup)
    (same : ∀ key, key ∈ keys ↔ key ∈ pool) (test : PublicKey → Bool) :
    keys.countP test = (pool.filter fun key => test key = true).card := by
  rw [List.countP_eq_length_filter, ← List.toFinset_card_of_nodup (unique.filter _)]
  congr 1
  ext key
  rw [List.mem_toFinset, List.mem_filter, Finset.mem_filter, same]

theorem header_narrows (pool : Finset PublicKey) (keys : List PublicKey) (unique : keys.Nodup)
    (same : ∀ key, key ∈ keys ↔ key ∈ pool) (grant : PublicKey → Privilege) :
    headerOf grant keys = (headerNumbers pool grant).narrow := by
  have counted : ∀ test : PublicKey → Bool, byteCount test keys =
      UInt8.ofNat (pool.filter fun key => test key = true).card := by
    intro test
    rw [byteCount, byte_count_from, UInt8.zero_add, count_pool pool keys unique same]
  simp only [headerOf, counted, headerNumbers, HeaderNumbers.narrow]

def headerFields (numbers : HeaderNumbers) : List Field :=
  [.byte numbers.signatures, .byte numbers.readonlySigned, .byte numbers.readonlyUnsigned]

def keyFields (keys : List PublicKey) : List Field :=
  .count keys.length :: keys.map fun key => .raw key.toBytes

def indexFields (indexes : List Nat) : List Field := .count indexes.length :: indexes.map .byte

def instructionFields (place : PublicKey → Nat) (instr : Instruction) : List Field :=
  .byte (place instr.programId) :: indexFields (instr.accounts.map fun am => place am.pubkey) ++
    [.count instr.data.length, .raw instr.data]

def bodyFields (numbers : HeaderNumbers) (keys : List PublicKey) (blockhash : FixedBytes 32)
    (place : PublicKey → Nat) (instructions : List Instruction) : List Field :=
  headerFields numbers ++ keyFields keys ++ [.raw blockhash.bytes] ++
    .count instructions.length :: instructions.flatMap (instructionFields place)

theorem index_fields_write (indexes : List Nat) :
    (indexFields indexes).flatMap Field.write = writeCounted (indexes.map UInt8.ofNat) := by
  have bytes : (indexes.map Field.byte).flatMap Field.write = indexes.map UInt8.ofNat := by
    induction indexes with
    | nil => rfl
    | cons index rest ih =>
        rw [List.map_cons, List.flatMap_cons, ih]
        rfl
  rw [indexFields, List.flatMap_cons, bytes, writeCounted, List.length_map]
  rfl

theorem key_fields_write (keys : List PublicKey) :
    (keyFields keys).flatMap Field.write = writeKeys keys := by
  rw [keyFields, List.flatMap_cons, List.flatMap_map]
  rfl

theorem instruction_fields_write (place : PublicKey → Nat) (instr : Instruction) :
    (instructionFields place instr).flatMap Field.write =
      writeInstruction (instr.number fun key => UInt8.ofNat (place key)) := by
  simp only [instructionFields, List.cons_append, List.flatMap_cons, List.flatMap_append,
    index_fields_write, List.map_map, List.flatMap_nil, List.append_nil]
  rfl

theorem body_fields_write (numbers : HeaderNumbers) (keys : List PublicKey)
    (blockhash : FixedBytes 32) (place : PublicKey → Nat) (instructions : List Instruction) :
    (bodyFields numbers keys blockhash place instructions).flatMap Field.write =
      MessageBody.write ⟨numbers.narrow, keys, blockhash,
        instructions.map (Instruction.number fun key => UInt8.ofNat (place key))⟩ := by
  have listed : (instructions.flatMap (instructionFields place)).flatMap Field.write =
      (instructions.map (Instruction.number fun key => UInt8.ofNat (place key))).flatMap
        writeInstruction := by
    rw [List.flatMap_assoc, List.flatMap_map]
    exact List.flatMap_congr fun instr _ => instruction_fields_write place instr
  simp only [bodyFields, List.flatMap_append, key_fields_write, List.flatMap_cons, List.flatMap_nil,
    List.append_nil, listed, MessageBody.write, writeInstructions, List.length_map]
  rfl

end Bodies
section Lookups
variable (lookupTables : List AddressLookupTableAccount) (instructions : List Instruction)

/-- The first table and position that hold a key, from table number `ti` on. -/
def tablePlaceFrom (pk : PublicKey) : Nat → List AddressLookupTableAccount → Option (Nat × Nat)
  | _, [] => none
  | ti, tbl :: rest =>
      match position tbl.addresses pk with
      | some ai => some (ti, ai)
      | none => tablePlaceFrom pk (ti + 1) rest

def tablePlace (pk : PublicKey) : Option (Nat × Nat) := tablePlaceFrom pk 0 lookupTables

theorem find_from_place (pk : PublicKey) (writable : Bool) (start : Nat) :
    findFrom pk writable start lookupTables = (tablePlaceFrom pk start lookupTables).map
      fun place => ⟨place.1, UInt8.ofNat place.2, writable⟩ := by
  induction lookupTables generalizing start with
  | nil => rfl
  | cons tbl rest ih =>
      cases hit : position tbl.addresses pk with
      | some ai => simp [findFrom, tablePlaceFrom, hit]
      | none => simp only [findFrom, tablePlaceFrom, hit, ih (start + 1)]

theorem locate_place (pk : PublicKey) :
    locate lookupTables pk =
      (tablePlace lookupTables pk).map fun place => (place.1, UInt8.ofNat place.2) := by
  rw [locate, findInLookup, find_from_place, Option.map_map]
  rfl

/-- A table use with the position that its index byte is made from. -/
def positionUse (am : AccountMeta) : Option (Place × (Nat × Bool)) :=
  if am.isSigner then none
  else (tablePlace lookupTables am.pubkey).map fun place =>
    ((place.1, UInt8.ofNat place.2), (place.2, am.isWritable))

def positionUses : List (Place × (Nat × Bool)) :=
  (metas instructions).filterMap (positionUse lookupTables)

theorem lookup_uses_positions :
    lookupUses lookupTables instructions =
      (positionUses lookupTables instructions).map fun use => (use.1, use.2.2) := by
  rw [lookupUses, positionUses, List.map_filterMap]
  apply List.filterMap_congr
  intro am _
  rw [lookupUse, positionUse, locate_place]
  split
  · rfl
  · rw [Option.map_map, Option.map_map]
    rfl

/-- The positions behind the index bytes of table `ti` on one side. -/
def positionsOf (ti : Nat) (flag : Bool) : List Nat :=
  ((firstUses (positionUses lookupTables instructions)).filter fun use =>
    use.1.1 == ti && use.2.2 == flag).map fun use => use.2.1

theorem position_use_narrows (use : Place × (Nat × Bool))
    (member : use ∈ firstUses (positionUses lookupTables instructions)) :
    use.1.2 = UInt8.ofNat use.2.1 := by
  have used := List.mem_of_find?_eq_some ((mem_first_uses _ use).mp member)
  obtain ⟨am, _, moved⟩ := List.mem_filterMap.mp used
  unfold positionUse at moved
  split at moved
  · cases moved
  · obtain ⟨place, _, rfl⟩ := Option.map_eq_some_iff.mp moved
    rfl

theorem positions_narrow (ti : Nat) (flag : Bool) :
    (positionsOf lookupTables instructions ti flag).map UInt8.ofNat =
      side (bucketOf (firstUses (lookupUses lookupTables instructions)) ti) flag := by
  have indexes : (positionsOf lookupTables instructions ti flag).map UInt8.ofNat =
      ((firstUses (positionUses lookupTables instructions)).filter fun use =>
        use.1.1 == ti && use.2.2 == flag).map fun use => use.1.2 := by
    rw [positionsOf, List.map_map]
    apply List.map_congr_left
    intro use member
    exact (position_use_narrows lookupTables instructions use (List.mem_of_mem_filter member)).symm
  rw [indexes, lookup_uses_positions, first_uses_map]
  cases flag <;> simp only [side, bucketOf, List.filter_map, List.map_map, Function.comp_def,
    beq_true, beq_false]

/-- The two index lists of an entry before they are bytes. -/
structure TablePositions where
  writable : List Nat
  readonly : List Nat

def TablePositions.narrow (positions : TablePositions) : TableBucket :=
  ⟨positions.writable.map UInt8.ofNat, positions.readonly.map UInt8.ofNat⟩

def tablePositions : List (AddressLookupTableAccount × TablePositions) :=
  lookupTables.zip ((List.range lookupTables.length).map fun ti =>
    ⟨positionsOf lookupTables instructions ti true, positionsOf lookupTables instructions ti false⟩)

def usedPositions : List (AddressLookupTableAccount × TablePositions) :=
  (tablePositions lookupTables instructions).filter fun pair =>
    !(pair.2.writable.isEmpty && pair.2.readonly.isEmpty)

def lookupFields : List Field :=
  .count (usedPositions lookupTables instructions).length ::
    (usedPositions lookupTables instructions).flatMap fun pair =>
      .raw pair.1.key.toBytes :: indexFields pair.2.writable ++ indexFields pair.2.readonly

def entryOf (pair : AddressLookupTableAccount × TablePositions) : MessageAddressTableLookup :=
  ⟨pair.1.key, pair.2.writable.map UInt8.ofNat, pair.2.readonly.map UInt8.ofNat⟩

theorem table_positions_narrow (feePayer : PublicKey) :
    lookupTables.zip (buckets instructions feePayer lookupTables) =
      (tablePositions lookupTables instructions).map fun pair => (pair.1, pair.2.narrow) := by
  have recorded := (route_recorded lookupTables instructions feePayer).buckets
  have narrowed : buckets instructions feePayer lookupTables =
      ((List.range lookupTables.length).map fun ti => (⟨positionsOf lookupTables instructions ti true,
        positionsOf lookupTables instructions ti false⟩ : TablePositions)).map
          TablePositions.narrow := by
    rw [buckets, recorded, List.map_map]
    apply List.map_congr_left
    intro ti _
    simp only [Function.comp_apply, TablePositions.narrow, positions_narrow, side]
  rw [narrowed, List.zip_map_right, tablePositions]
  rfl

theorem section_entries (feePayer : PublicKey) :
    (lookupSection lookupTables (buckets instructions feePayer lookupTables)).map Prod.snd =
      (usedPositions lookupTables instructions).map entryOf := by
  rw [lookupSection, table_positions_narrow, usedPositions]
  induction tablePositions lookupTables instructions with
  | nil => rfl
  | cons pair rest ih =>
      by_cases empty : (pair.2.writable.isEmpty && pair.2.readonly.isEmpty) = true
      · have skipped : emitEntry (pair.1, pair.2.narrow) = none := by
          simpa [emitEntry, TablePositions.narrow] using empty
        rw [List.map_cons, List.filterMap_cons_none skipped, ih,
          List.filter_cons_of_neg (by simp [empty])]
      · have kept : emitEntry (pair.1, pair.2.narrow) = some (pair.1, entryOf pair) := by
          rw [emitEntry, if_neg (by simpa [TablePositions.narrow] using empty)]
          rfl
        rw [List.map_cons, List.filterMap_cons_some kept, List.map_cons, ih,
          List.filter_cons_of_pos (by rw [Bool.not_eq_true] at empty; rw [empty]; rfl), List.map_cons]

theorem lookup_fields_write (feePayer : PublicKey) :
    (lookupFields lookupTables instructions).flatMap Field.write =
      writeLookups ((lookupSection lookupTables
        (buckets instructions feePayer lookupTables)).map Prod.snd) := by
  rw [section_entries, writeLookups, List.length_map, lookupFields, List.flatMap_cons,
    List.flatMap_assoc, List.flatMap_map]
  refine congrArg₂ HAppend.hAppend rfl (List.flatMap_congr fun pair _ => ?_)
  simp only [List.cons_append, List.flatMap_cons, List.flatMap_append, index_fields_write,
    writeLookup, entryOf, List.append_assoc]
  rfl

end Lookups

section Messages
variable (instructions : List Instruction) (feePayer : PublicKey)
  (lookupTables : List AddressLookupTableAccount)

/-- Where a key stands in an account list of any length. -/
def place (keys : List PublicKey) (pk : PublicKey) : Nat := (position keys pk).getD 0

def messageNumbers (blockhash : FixedBytes 32) : List Field :=
  bodyFields (headerNumbers (distinctAccounts instructions feePayer) (demand instructions feePayer))
    (mentions instructions feePayer).eraseDups blockhash
    (place (mentions instructions feePayer).eraseDups) instructions

theorem compile_numbers (recentBlockhash : Text) (blockhash : FixedBytes 32) :
    (messageNumbers instructions feePayer blockhash).flatMap Field.write =
      (bodyOf (LegacyMessage.compile instructions feePayer recentBlockhash) blockhash).write := by
  have keys := LegacyLayout.compile_keys instructions feePayer recentBlockhash
  have header := LegacyLayout.compile_header instructions feePayer recentBlockhash
  have listed := LegacyLayout.compile_instructions instructions feePayer recentBlockhash
  have narrowed := header_narrows (distinctAccounts instructions feePayer)
    (mentions instructions feePayer).eraseDups (erase_dups_nodup _)
    (fun key => by rw [List.mem_eraseDups, distinctAccounts, List.mem_toFinset])
    (demand instructions feePayer)
  rw [keys, narrowed] at header
  rw [keys] at listed
  rw [messageNumbers, body_fields_write, bodyOf, keys, header, listed]
  rfl

theorem data_counted (blockhash : FixedBytes 32) (instr : Instruction)
    (listed : instr ∈ instructions) :
    .count instr.data.length ∈ messageNumbers instructions feePayer blockhash := by
  have field : Field.count instr.data.length ∈ instructions.flatMap (instructionFields
      (place (mentions instructions feePayer).eraseDups)) := by
    refine List.mem_flatMap.mpr ⟨instr, listed, ?_⟩
    exact List.mem_append_right _ List.mem_cons_self
  exact List.mem_append_right _ (List.mem_cons_of_mem _ field)

/-- The mentioned keys that some use sends to the static accounts. -/
def staticPool : Finset PublicKey :=
  (distinctAccounts instructions feePayer).filter fun key =>
    StaticKey instructions feePayer lookupTables key

theorem mem_static_pool (key : PublicKey) :
    key ∈ (ordered instructions feePayer lookupTables).map AccountInfo.key ↔
      key ∈ staticPool instructions feePayer lookupTables := by
  rw [mem_ordered_keys, staticPool, Finset.mem_filter, distinctAccounts, List.mem_toFinset,
    mem_mentions]
  refine ⟨fun kept => ⟨?_, kept⟩, fun both => both.2⟩
  rcases kept with payer | program | ⟨am, listed, same, _⟩
  · exact Or.inl payer
  · exact Or.inr (Or.inl program)
  · exact Or.inr (Or.inr ⟨am, listed, same⟩)

def messageNumbersV0 (blockhash : FixedBytes 32) : List Field :=
  bodyFields (headerNumbers (staticPool instructions feePayer lookupTables)
      (staticDemand instructions feePayer lookupTables))
    ((ordered instructions feePayer lookupTables).map AccountInfo.key) blockhash
    (place (combined instructions feePayer lookupTables)) instructions ++
  lookupFields lookupTables instructions

theorem compiled_numbers (recentBlockhash : Text) (blockhash : FixedBytes 32) :
    (messageNumbersV0 instructions feePayer lookupTables blockhash).flatMap Field.write =
      (bodyOfV0 (compiled instructions feePayer recentBlockhash lookupTables) blockhash).write := by
  have header := ordered_header instructions feePayer lookupTables
  rw [header_narrows (staticPool instructions feePayer lookupTables) _
    (ordered_keys_nodup instructions feePayer lookupTables)
    (mem_static_pool instructions feePayer lookupTables)] at header
  rw [messageNumbersV0, List.flatMap_append, body_fields_write,
    lookup_fields_write lookupTables instructions feePayer, bodyOfV0, compiled, header]
  rfl

end Messages

/-- Whenever the code returns, its bytes are the written numbers, each of which
reads as the number itself exactly when it is below the modulus of its place. -/
theorem numbers_written :
    (∀ (instructions : List Instruction) (feePayer : PublicKey) (recentBlockhash : Text)
      (wire : Bytes),
      Message.serialize (LegacyMessage.compile instructions feePayer recentBlockhash) = .ok wire ↔
        ∃ blockhash : FixedBytes 32, Base58.decode recentBlockhash = .ok blockhash.bytes ∧
          wire = (messageNumbers instructions feePayer blockhash).flatMap Field.write) ∧
    (∀ (instructions : List Instruction) (feePayer : PublicKey) (recentBlockhash : Text)
      (lookupTables : List AddressLookupTableAccount) (msg : MessageV0) (wire : Bytes),
      compile instructions feePayer recentBlockhash lookupTables = .ok msg →
      (MessageV0.serialize msg = .ok wire ↔
        ∃ blockhash : FixedBytes 32, Base58.decode recentBlockhash = .ok blockhash.bytes ∧
          wire = (messageNumbersV0 instructions feePayer lookupTables blockhash).flatMap
            Field.write)) ∧
    (∀ (field : Field) (rest : Bytes),
      field.read (field.write ++ rest) = field.number.map (· % field.modulus) ∧
      (field.read (field.write ++ rest) = field.number ↔
        ∀ value, field.number = some value → value < field.modulus)) := by
  refine ⟨?_, ?_, fun field rest => ⟨field.read_write rest, field.read_exact_iff rest⟩⟩
  · intro instructions feePayer recentBlockhash wire
    constructor
    · intro serialized
      -- Whatever is returned has passed the blockhash check, and no other one is made.
      obtain ⟨blockhash, decoded⟩ := serialize_blockhash _ wire serialized
      rw [serialize_writes _ blockhash decoded] at serialized
      exact ⟨blockhash, decoded, by
        rw [compile_numbers instructions feePayer recentBlockhash, ← Except.ok.inj serialized]⟩
    · rintro ⟨blockhash, decoded, rfl⟩
      rw [compile_numbers instructions feePayer recentBlockhash]
      exact serialize_writes _ blockhash decoded
  · intro instructions feePayer recentBlockhash lookupTables msg wire returned
    rw [compile_returned instructions feePayer recentBlockhash lookupTables msg returned]
    constructor
    · intro serialized
      obtain ⟨blockhash, decoded⟩ := serialize_v0_blockhash _ wire serialized
      rw [serialize_v0_writes _ blockhash decoded] at serialized
      exact ⟨blockhash, decoded, by
        rw [compiled_numbers instructions feePayer lookupTables recentBlockhash,
          ← Except.ok.inj serialized]⟩
    · rintro ⟨blockhash, decoded, rfl⟩
      rw [compiled_numbers instructions feePayer lookupTables recentBlockhash]
      exact serialize_v0_writes _ blockhash decoded

theorem numbers_written_mixed :
    ∃ msg wire, compile mixedUses (.filled 6) SignedMessage.zeroBlockhash [sampleTable] = .ok msg ∧
      (MessageV0.serialize msg = .ok wire ↔
        ∃ blockhash : FixedBytes 32,
          Base58.decode SignedMessage.zeroBlockhash = .ok blockhash.bytes ∧
          wire = (messageNumbersV0 mixedUses (.filled 6) [sampleTable] blockhash).flatMap
            Field.write) := by
  have returned := compile_returns mixedUses (.filled 6) SignedMessage.zeroBlockhash [sampleTable]
    (by decide)
  obtain ⟨wire, _⟩ := serialize_v0_valid
    (compiled mixedUses (.filled 6) SignedMessage.zeroBlockhash [sampleTable])
    SignedMessage.zero_blockhash_valid
  exact ⟨_, wire, returned, numbers_written.2.1 _ _ _ _ _ wire returned⟩

/-- One instruction without accounts and with 65536 bytes of data. -/
def longData : List Instruction := [⟨.filled 9, [], List.replicate 65536 0⟩]

/-- The length of the data is written as zero and nothing is thrown. -/
theorem long_data_accepted :
    ∃ (wire : Bytes) (blockhash : FixedBytes 32) (field : Field),
      Message.serialize (LegacyMessage.compile longData (.filled 5) SignedMessage.zeroBlockhash) =
        .ok wire ∧
      wire = (messageNumbers longData (.filled 5) blockhash).flatMap Field.write ∧
      field ∈ messageNumbers longData (.filled 5) blockhash ∧ field.number = some 65536 ∧
      ∀ rest, field.read (field.write ++ rest) = some 0 := by
  obtain ⟨bhBytes, decoded, size⟩ := SignedMessage.zero_blockhash_valid
  have written := serialize_writes
    (LegacyMessage.compile longData (.filled 5) SignedMessage.zeroBlockhash) ⟨bhBytes, size⟩ decoded
  have length : (List.replicate 65536 (0 : UInt8)).length = 65536 := List.length_replicate
  have counted := data_counted longData (.filled 5) ⟨bhBytes, size⟩ _ List.mem_cons_self
  rw [length] at counted
  exact ⟨_, ⟨bhBytes, size⟩, .count 65536, written, (compile_numbers ..).symm, counted, rfl,
    fun rest => Field.read_write _ rest⟩

end SolanaSdk.NarrowedNumbers
