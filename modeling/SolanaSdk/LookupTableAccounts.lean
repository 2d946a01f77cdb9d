import Mathlib.Data.List.GetD
import SolanaSdk.LittleEndian
import SolanaSdk.LookupTables

/-!
The account data of address lookup tables. The parser takes the layout that its
header file documents: the addresses start right behind the authority field. The
account that the on-chain program stores pads its metadata to a fixed size.
-/

namespace SolanaSdk.LookupTableAccounts

open ByteData PublicKeys LookupTables LittleEndian

def headerBase : Nat := 22
def authoritySize : Nat := 32

/-- `data[index]`, read only where the length has been checked. -/
def byteAt (data : Bytes) (index : Nat) : UInt8 := data.getD index 0

def typeTag (data : Bytes) : UInt32 :=
  (byteAt data 0).toUInt32 ||| (byteAt data 1).toUInt32 <<< 8 |||
    (byteAt data 2).toUInt32 <<< 16 ||| (byteAt data 3).toUInt32 <<< 24

def authorityFlag (data : Bytes) : UInt8 := byteAt data 21

def addressBytes (data : Bytes) (start i : Nat) : Bytes :=
  (data.drop (start + i * publicKeyLength)).take publicKeyLength

def readAddresses (data : Bytes) (start numAddresses : Nat) : Except Failure (List PublicKey) :=
  (List.range numAddresses).mapM fun i => PublicKey.ofBytes (addressBytes data start i)

/-- Any flag but one means that there is no authority. -/
def addressStart (flag : UInt8) : Nat := if flag = 1 then headerBase + authoritySize else headerBase

/-- What is returned, with the contents of `out` after the call. -/
def parse (accountKey : PublicKey) (data : Bytes) (out : AddressLookupTableAccount) :
    Except Failure (Bool × AddressLookupTableAccount) := do
  if data.length < headerBase then return (false, out)
  else if typeTag data ≠ 1 then return (false, out)
  else
    let start := addressStart (authorityFlag data)
    if data.length < start then return (false, out)
    else
      let remaining := data.length - start
      if remaining % publicKeyLength ≠ 0 then return (false, out)
      else
        let addresses ← readAddresses data start (remaining / publicKeyLength)
        return (true, { key := accountKey, addresses := addresses })

/-- The fields of the documented layout. -/
structure TableState where
  deactivationSlot : UInt64
  lastExtendedSlot : UInt64
  startIndex : UInt8
  authority : Option PublicKey
  addresses : List PublicKey

namespace TableState

def authorityBytes (state : TableState) : Bytes :=
  match state.authority with
  | none => [0]
  | some key => 1 :: key.toBytes

def header (state : TableState) : Bytes :=
  bytesOf 4 1 ++ (bytesOf 8 state.deactivationSlot.toNat ++
    (bytesOf 8 state.lastExtendedSlot.toNat ++ (state.startIndex :: state.authorityBytes)))

def addressList (state : TableState) : Bytes := state.addresses.flatMap PublicKey.toBytes

/-- The layout of the header file: the addresses follow the header as it ends. -/
def documented (state : TableState) : Bytes := state.header ++ state.addressList

def metadataSize : Nat := 56

/-- The layout of the on-chain program: the header is padded with zero bytes. -/
def onChain (state : TableState) : Bytes :=
  state.header ++ List.replicate (metadataSize - state.header.length) 0 ++ state.addressList

end TableState

section Addresses

theorem address_list_length (keys : List PublicKey) :
    (keys.flatMap PublicKey.toBytes).length = keys.length * publicKeyLength := by
  induction keys with
  | nil => exact (Nat.zero_mul _).symm
  | cons key rest ih =>
      rw [List.flatMap_cons, List.length_append, ih, key.toBytes_length, List.length_cons,
        Nat.succ_mul, Nat.add_comm]

theorem address_list_slice (keys : List PublicKey) (i : Nat) (inside : i < keys.length) :
    ((keys.flatMap PublicKey.toBytes).drop (i * publicKeyLength)).take publicKeyLength =
      keys[i].toBytes := by
  induction keys generalizing i with
  | nil => exact absurd inside (Nat.not_lt_zero i)
  | cons key rest ih =>
      rw [List.flatMap_cons]
      cases i with
      | zero =>
          rw [Nat.zero_mul, List.drop_zero, List.take_left' key.toBytes_length]
          rfl
      | succ i =>
          have behind : (i + 1) * publicKeyLength = key.toBytes.length + i * publicKeyLength := by
            rw [key.toBytes_length, Nat.succ_mul, Nat.add_comm]
          rw [behind, List.drop_length_add_append]
          exact ih i (Nat.lt_of_succ_lt_succ inside)

/-- The loop reads back the keys that stand behind the header. -/
theorem read_addresses (front : Bytes) (keys : List PublicKey) :
    readAddresses (front ++ keys.flatMap PublicKey.toBytes) front.length keys.length =
      .ok keys := by
  have each : ∀ i ∈ List.range keys.length,
      PublicKey.ofBytes (addressBytes (front ++ keys.flatMap PublicKey.toBytes) front.length i) =
        pure (keys.getD i default) := by
    intro i listed
    have inside := List.mem_range.mp listed
    rw [addressBytes, List.drop_length_add_append, address_list_slice keys i inside,
      List.getD_eq_getElem _ default inside]
    exact dif_pos keys[i].toBytes_length
  rw [readAddresses, map_m_total _ _ _ each, range_map_get]
  rfl

/-- A whole number of 32-byte records is the list of some keys. -/
theorem address_list_exists (bytes : Bytes) (whole : bytes.length % publicKeyLength = 0) :
    ∃ keys : List PublicKey, keys.flatMap PublicKey.toBytes = bytes := by
  have count : ∀ count (bytes : Bytes), bytes.length = count * publicKeyLength →
      ∃ keys : List PublicKey, keys.flatMap PublicKey.toBytes = bytes := by
    intro count
    induction count with
    | zero =>
        intro bytes empty
        rw [Nat.zero_mul, List.length_eq_zero_iff] at empty
        exact ⟨[], empty.symm⟩
    | succ count ih =>
        intro bytes long
        rw [Nat.succ_mul] at long
        obtain ⟨keys, rest⟩ := ih (bytes.drop publicKeyLength) (by
          rw [List.length_drop]
          omega)
        have first : (bytes.take publicKeyLength).length = publicKeyLength :=
          List.length_take_of_le (by omega)
        refine ⟨⟨⟨bytes.take publicKeyLength, first⟩⟩ :: keys, ?_⟩
        rw [List.flatMap_cons, rest]
        exact List.take_append_drop _ _
  exact count (bytes.length / publicKeyLength) bytes
    (Nat.div_mul_cancel (Nat.dvd_of_mod_eq_zero whole)).symm

end Addresses

section Parsing
variable (accountKey : PublicKey) (out : AddressLookupTableAccount)

/-- The checks that do not look at the flag itself. -/
structure Shaped (data : Bytes) : Prop where
  tag : typeTag data = 1
  start : addressStart (authorityFlag data) ≤ data.length
  whole : (data.length - addressStart (authorityFlag data)) % publicKeyLength = 0

theorem header_base_le (flag : UInt8) : headerBase ≤ addressStart flag := by
  unfold addressStart
  split <;> decide

theorem parse_shaped (data : Bytes) (shaped : Shaped data) (keys : List PublicKey)
    (stored : keys.flatMap PublicKey.toBytes = data.drop (addressStart (authorityFlag data))) :
    parse accountKey data out = .ok (true, ⟨accountKey, keys⟩) := by
  obtain ⟨tag, start, whole⟩ := shaped
  have base := header_base_le (authorityFlag data)
  have remaining : data.length - addressStart (authorityFlag data) =
      keys.length * publicKeyLength := by
    rw [← List.length_drop, ← stored, address_list_length]
  have split : data = data.take (addressStart (authorityFlag data)) ++
      keys.flatMap PublicKey.toBytes := by
    rw [stored, List.take_append_drop]
  have addresses := read_addresses (data.take (addressStart (authorityFlag data))) keys
  rw [← split, List.length_take_of_le start] at addresses
  have count : keys.length * publicKeyLength / publicKeyLength = keys.length :=
    Nat.mul_div_cancel _ (by decide)
  unfold parse
  change (if data.length < headerBase then _ else if typeTag data ≠ 1 then _
    else if data.length < addressStart (authorityFlag data) then _
    else if (data.length - addressStart (authorityFlag data)) % publicKeyLength ≠ 0 then _
    else readAddresses data (addressStart (authorityFlag data))
      ((data.length - addressStart (authorityFlag data)) / publicKeyLength) >>= _) = _
  rw [if_neg (by omega), if_neg (not_not_intro tag), if_neg (by omega),
    if_neg (not_not_intro whole), remaining, count, addresses]
  rfl

/-- The four rejections come before anything is written. -/
theorem parse_unshaped (data : Bytes) (unshaped : ¬ Shaped data) :
    parse accountKey data out = .ok (false, out) := by
  unfold parse
  change (if data.length < headerBase then _ else if typeTag data ≠ 1 then _
    else if data.length < addressStart (authorityFlag data) then _
    else if (data.length - addressStart (authorityFlag data)) % publicKeyLength ≠ 0 then _
    else _) = _
  by_cases short : data.length < headerBase
  · exact if_pos short
  by_cases other : typeTag data ≠ 1
  · rw [if_neg short, if_pos other]
    rfl
  by_cases cut : data.length < addressStart (authorityFlag data)
  · rw [if_neg short, if_neg other, if_pos cut]
    rfl
  by_cases torn : (data.length - addressStart (authorityFlag data)) % publicKeyLength ≠ 0
  · rw [if_neg short, if_neg other, if_neg cut, if_pos torn]
    rfl
  · exact absurd ⟨not_not.mp other, Nat.not_lt.mp cut, not_not.mp torn⟩ unshaped

end Parsing

section Layout

theorem header_tag (state : TableState) (rest : Bytes) : typeTag (state.header ++ rest) = 1 := by
  change (1 : UInt8).toUInt32 ||| (0 : UInt8).toUInt32 <<< 8 ||| (0 : UInt8).toUInt32 <<< 16 |||
    (0 : UInt8).toUInt32 <<< 24 = 1
  decide

theorem header_flag (state : TableState) (rest : Bytes) :
    authorityFlag (state.header ++ rest) = if state.authority.isSome then 1 else 0 := by
  obtain ⟨slot, extended, index, authority, keys⟩ := state
  cases authority <;> rfl

theorem header_length (state : TableState) (rest : Bytes) :
    state.header.length = addressStart (authorityFlag (state.header ++ rest)) := by
  rw [header_flag]
  simp only [TableState.header, List.length_append, bytes_of_length, List.length_cons,
    TableState.authorityBytes]
  cases state.authority with
  | none => rfl
  | some key =>
      rw [List.length_cons, key.toBytes_length]
      rfl

/-- Behind the header, the parser takes whatever is a whole number of records. -/
theorem header_shaped (state : TableState) (rest : Bytes) :
    Shaped (state.header ++ rest) ↔ rest.length % publicKeyLength = 0 := by
  have start := header_length state rest
  have length : (state.header ++ rest).length -
      addressStart (authorityFlag (state.header ++ rest)) = rest.length := by
    rw [← start, List.length_append, Nat.add_sub_cancel_left]
  constructor
  · intro shaped
    rw [← length]
    exact shaped.whole
  · intro whole
    refine ⟨header_tag state rest, ?_, ?_⟩
    · rw [← start, List.length_append]
      exact Nat.le_add_right _ _
    · rw [length]
      exact whole

/-- A byte put above the bits of a smaller number. -/
theorem or_shifted (low : Nat) (high : UInt8) (shift : Nat) (small : low < 2 ^ shift)
    (fits : shift ≤ 24) :
    low ||| (high.toUInt32 <<< UInt32.ofNat shift).toNat = low + high.toNat * 2 ^ shift := by
  have byte := high.toNat_lt
  have power : 2 ^ shift ≤ 2 ^ 24 := Nat.pow_le_pow_right (by decide) fits
  have exact : (UInt32.ofNat shift).toNat % 32 = shift := by
    rw [UInt32.toNat_ofNat_of_lt' (Nat.lt_of_le_of_lt fits (by decide))]
    omega
  have bound : high.toNat * 2 ^ shift < 2 ^ 32 :=
    Nat.lt_of_lt_of_le (Nat.mul_lt_mul_of_lt_of_le byte power (by decide)) (by decide)
  rw [UInt32.toNat_shiftLeft, exact, UInt8.toNat_toUInt32, Nat.shiftLeft_eq,
    Nat.mod_eq_of_lt bound, Nat.or_comm, Nat.mul_comm, ← Nat.two_pow_add_eq_or_of_lt small,
    Nat.add_comm]

theorem type_tag_value (a b c d : UInt8) :
    (a.toUInt32 ||| b.toUInt32 <<< 8 ||| c.toUInt32 <<< 16 ||| d.toUInt32 <<< 24).toNat =
      valueOf [a, b, c, d] := by
  have one := a.toNat_lt
  have two := b.toNat_lt
  have three := c.toNat_lt
  rw [UInt32.toNat_or, UInt32.toNat_or, UInt32.toNat_or, UInt8.toNat_toUInt32]
  change a.toNat ||| (b.toUInt32 <<< UInt32.ofNat 8).toNat |||
    (c.toUInt32 <<< UInt32.ofNat 16).toNat ||| (d.toUInt32 <<< UInt32.ofNat 24).toNat = _
  rw [or_shifted _ b 8 one (by decide), or_shifted _ c 16 (by omega) (by decide),
    or_shifted _ d 24 (by omega) (by decide)]
  simp only [valueOf]
  omega

/-- The parser's tag is the little-endian value of the first four bytes. -/
theorem tag_bytes (data : Bytes) (long : 4 ≤ data.length) (tag : typeTag data = 1) :
    data.take 4 = bytesOf 4 1 := by
  obtain ⟨a, b, c, d, rest, rfl⟩ : ∃ a b c d rest, data = a :: b :: c :: d :: rest := by
    match data, long with
    | a :: b :: c :: d :: rest, _ => exact ⟨a, b, c, d, rest, rfl⟩
  have value := congrArg UInt32.toNat tag
  change (a.toUInt32 ||| b.toUInt32 <<< 8 ||| c.toUInt32 <<< 16 ||| d.toUInt32 <<< 24).toNat = 1
    at value
  rw [type_tag_value] at value
  have bytes := bytes_of_value [a, b, c, d]
  rw [value] at bytes
  exact bytes.symm

/-- The state that well-formed data have, field by field. -/
def stateOf (data : Bytes) (keys : List PublicKey) : TableState where
  deactivationSlot := UInt64.ofNat (valueOf ((data.drop 4).take 8))
  lastExtendedSlot := UInt64.ofNat (valueOf ((data.drop 12).take 8))
  startIndex := byteAt data 20
  authority :=
    if authorityFlag data = 1 then (PublicKey.ofBytes ((data.drop 22).take 32)).toOption else none
  addresses := keys

theorem slot_bytes (bytes : Bytes) (size : bytes.length = 8) :
    bytesOf 8 (UInt64.ofNat (valueOf bytes)).toNat = bytes := by
  have bound := value_of_lt bytes
  rw [size] at bound
  rw [UInt64.toNat_ofNat_of_lt' bound, ← size, bytes_of_value]

theorem authority_bytes (data : Bytes) (keys : List PublicKey)
    (known : authorityFlag data = 0 ∨ authorityFlag data = 1)
    (start : addressStart (authorityFlag data) ≤ data.length) :
    (stateOf data keys).authorityBytes =
      authorityFlag data :: (data.drop 22).take (addressStart (authorityFlag data) - 22) := by
  unfold TableState.authorityBytes stateOf
  rcases known with none | some
  · rw [none]
    rfl
  · rw [some] at start ⊢
    have size : ((data.drop 22).take 32).length = publicKeyLength := by
      rw [List.length_take_of_le]
      · rfl
      · rw [List.length_drop]
        exact Nat.le_sub_of_add_le start
    simp only [↓reduceIte, PublicKey.ofBytes, size]
    rfl

theorem drop_byte (data : Bytes) (index : Nat) (inside : index < data.length) :
    data.drop index = byteAt data index :: data.drop (index + 1) := by
  rw [byteAt, List.getD_eq_getElem _ 0 inside, List.drop_eq_getElem_cons inside]

/-- Accepted data with a known flag are what their fields encode. -/
theorem shaped_documented (data : Bytes) (shaped : Shaped data) (keys : List PublicKey)
    (known : authorityFlag data = 0 ∨ authorityFlag data = 1)
    (stored : keys.flatMap PublicKey.toBytes = data.drop (addressStart (authorityFlag data))) :
    (stateOf data keys).documented = data := by
  have base : 22 ≤ addressStart (authorityFlag data) := header_base_le _
  have long : 22 ≤ data.length := Nat.le_trans base shaped.start
  have authority := authority_bytes data keys known shaped.start
  have slot := slot_bytes ((data.drop 4).take 8) (by simp; omega)
  have extended := slot_bytes ((data.drop 12).take 8) (by simp; omega)
  have tag := tag_bytes data (by omega) shaped.tag
  have split : addressStart (authorityFlag data) =
      4 + (8 + (8 + (addressStart (authorityFlag data) - 22 + 2))) := by omega
  have header : (stateOf data keys).header = data.take (addressStart (authorityFlag data)) := by
    rw [split, List.take_add, List.take_add, List.take_add, List.drop_drop, List.drop_drop,
      drop_byte data 20 (by omega), drop_byte data 21 (by omega), List.take_succ_cons,
      List.take_succ_cons]
    rw [TableState.header, authority, tag]
    change _ ++ (bytesOf 8 (UInt64.ofNat (valueOf ((data.drop 4).take 8))).toNat ++
      (bytesOf 8 (UInt64.ofNat (valueOf ((data.drop 12).take 8))).toNat ++ _)) = _
    rw [slot, extended]
    rfl
  rw [TableState.documented, header]
  change _ ++ keys.flatMap PublicKey.toBytes = data
  rw [stored, List.take_append_drop]

/-- The documented layout is what the parser asks for and a flag that is zero or one. -/
theorem documented_iff (data : Bytes) (keys : List PublicKey) :
    (∃ state : TableState, state.documented = data ∧ state.addresses = keys) ↔
      Shaped data ∧ (authorityFlag data = 0 ∨ authorityFlag data = 1) ∧
        keys.flatMap PublicKey.toBytes = data.drop (addressStart (authorityFlag data)) := by
  constructor
  · rintro ⟨state, rfl, rfl⟩
    have start := header_length state state.addressList
    refine ⟨(header_shaped state _).mpr ?_, ?_, ?_⟩
    · rw [TableState.addressList, address_list_length, Nat.mul_mod_left]
    · rw [TableState.documented, header_flag]
      cases state.authority with
      | none => exact .inl rfl
      | some key => exact .inr rfl
    · rw [TableState.documented, ← start, List.drop_left]
      rfl
  · rintro ⟨shaped, known, stored⟩
    exact ⟨stateOf data keys, shaped_documented data shaped keys known stored, rfl⟩

end Layout

section Results

theorem shaped_parses (accountKey : PublicKey) (data : Bytes) (out : AddressLookupTableAccount)
    (shaped : Shaped data) :
    ∃ keys, keys.flatMap PublicKey.toBytes = data.drop (addressStart (authorityFlag data)) ∧
      parse accountKey data out = .ok (true, ⟨accountKey, keys⟩) := by
  obtain ⟨keys, stored⟩ := address_list_exists (data.drop (addressStart (authorityFlag data))) (by
    rw [List.length_drop]
    exact shaped.whole)
  exact ⟨keys, stored, parse_shaped accountKey out data shaped keys stored⟩

theorem documented_parses (accountKey : PublicKey) (state : TableState)
    (out : AddressLookupTableAccount) :
    parse accountKey state.documented out = .ok (true, ⟨accountKey, state.addresses⟩) := by
  obtain ⟨shaped, -, stored⟩ := (documented_iff state.documented state.addresses).mp
    ⟨state, rfl, rfl⟩
  exact parse_shaped accountKey out _ shaped _ stored

/-- Any table at all comes out of some bytes. -/
theorem table_parsed (tbl : AddressLookupTableAccount) (out : AddressLookupTableAccount) :
    ∃ data, parse tbl.key data out = .ok (true, tbl) :=
  ⟨_, documented_parses tbl.key ⟨0, 0, 0, none, tbl.addresses⟩ out⟩

/-- Parsing gives back what the documented layout encodes, and a call that
returns false has not touched `out`. -/
theorem parse_documented (accountKey : PublicKey) :
    (∀ (state : TableState) (out : AddressLookupTableAccount),
      parse accountKey state.documented out = .ok (true, ⟨accountKey, state.addresses⟩)) ∧
    ∀ (data : Bytes) (out : AddressLookupTableAccount), ∃ returned found,
      parse accountKey data out = .ok (returned, found) ∧ (returned = false → found = out) := by
  constructor
  · exact documented_parses accountKey
  · intro data out
    by_cases shaped : Shaped data
    · obtain ⟨keys, -, parsed⟩ := shaped_parses accountKey data out shaped
      exact ⟨true, _, parsed, by rintro ⟨⟩⟩
    · exact ⟨false, out, parse_unshaped accountKey out data shaped, fun _ => rfl⟩

/-- What is accepted is in the documented layout, with the addresses it stores. -/
def AcceptsGrammar (accountKey : PublicKey) (data : Bytes) (out : AddressLookupTableAccount) :
    Prop :=
  ∀ found, parse accountKey data out = .ok (true, found) →
    ∃ state : TableState, state.documented = data ∧ state.addresses = found.addresses

theorem accepts_grammar_shaped (accountKey : PublicKey) (data : Bytes)
    (out : AddressLookupTableAccount) :
    AcceptsGrammar accountKey data out ↔
      (Shaped data → authorityFlag data = 0 ∨ authorityFlag data = 1) := by
  constructor
  · intro accepts shaped
    obtain ⟨keys, -, parsed⟩ := shaped_parses accountKey data out shaped
    obtain ⟨state, encoded, stored⟩ := accepts _ parsed
    exact ((documented_iff data keys).mp ⟨state, encoded, stored⟩).2.1
  · intro known found accepted
    by_cases shaped : Shaped data
    · obtain ⟨keys, stored, parsed⟩ := shaped_parses accountKey data out shaped
      rw [parsed] at accepted
      cases accepted
      exact (documented_iff data keys).mpr ⟨shaped, known shaped, stored⟩
    · rw [parse_unshaped accountKey out data shaped] at accepted
      cases accepted

theorem shaped_without_authority (data : Bytes) (none : authorityFlag data ≠ 1) :
    Shaped data ↔ headerBase ≤ data.length ∧ typeTag data = 1 ∧
      data.length % publicKeyLength = headerBase := by
  have start : addressStart (authorityFlag data) = 22 := if_neg none
  constructor
  · rintro ⟨tag, fits, whole⟩
    rw [start] at fits whole
    simp only [publicKeyLength, headerBase] at whole ⊢
    exact ⟨fits, tag, by omega⟩
  · rintro ⟨fits, tag, whole⟩
    refine ⟨tag, by rwa [start], ?_⟩
    rw [start]
    simp only [publicKeyLength, headerBase] at fits whole ⊢
    omega

/-- Only the flag is not checked: data that pass every other check have to carry
a flag of zero or one. -/
theorem accepts_grammar_iff (accountKey : PublicKey) (data : Bytes)
    (out : AddressLookupTableAccount) :
    AcceptsGrammar accountKey data out ↔
      authorityFlag data = 0 ∨ authorityFlag data = 1 ∨ data.length < headerBase ∨
        typeTag data ≠ 1 ∨ data.length % publicKeyLength ≠ headerBase := by
  rw [accepts_grammar_shaped]
  by_cases some : authorityFlag data = 1
  · exact ⟨fun _ => .inr (.inl some), fun _ _ => .inr some⟩
  · rw [shaped_without_authority data some, ← Nat.not_le]
    tauto

/-- No addresses and a flag that the layout does not have. -/
def unknownFlag : Bytes := bytesOf 4 1 ++ (List.replicate 17 0 ++ [2])

theorem unknown_flag_accepted :
    parse .default unknownFlag ⟨.default, []⟩ = .ok (true, ⟨.default, []⟩) ∧
      ¬ AcceptsGrammar .default unknownFlag ⟨.default, []⟩ := by
  refine ⟨by decide +kernel, ?_⟩
  rw [accepts_grammar_shaped, shaped_without_authority unknownFlag (by decide)]
  decide +kernel

def ParsesTo (accountKey : PublicKey) (data : Bytes) (out : AddressLookupTableAccount)
    (keys : List PublicKey) : Prop :=
  ∃ found, parse accountKey data out = .ok (true, found) ∧ found.addresses = keys

theorem rejected_parses_nothing (accountKey : PublicKey) (data : Bytes)
    (out : AddressLookupTableAccount) (keys : List PublicKey)
    (rejected : parse accountKey data out = .ok (false, out)) :
    ¬ ParsesTo accountKey data out keys := by
  rintro ⟨found, accepted, -⟩
  rw [rejected] at accepted
  cases accepted

/-- No account of the on-chain program parses: with and without an authority
the padding leaves two bytes over. -/
theorem on_chain_rejected (accountKey : PublicKey) (state : TableState)
    (out : AddressLookupTableAccount) :
    parse accountKey state.onChain out = .ok (false, out) ∧
      ¬ ParsesTo accountKey state.onChain out state.addresses := by
  have torn : ¬ Shaped state.onChain := by
    rw [TableState.onChain, List.append_assoc, header_shaped, List.length_append,
      List.length_replicate, TableState.addressList, address_list_length,
      Nat.add_mul_mod_self_right, header_length state [], header_flag]
    cases state.authority with
    | none => decide
    | some key =>
        rw [Option.isSome_some]
        decide
  have rejected := parse_unshaped accountKey out _ torn
  exact ⟨rejected, rejected_parses_nothing accountKey _ out _ rejected⟩

/-- A new table: active, without authority and addresses. -/
def newTable : TableState := ⟨UInt64.ofNat (2 ^ 64 - 1), 0, 0, none, []⟩

theorem new_table_rejected :
    parse .default newTable.onChain ⟨.default, []⟩ = .ok (false, ⟨.default, []⟩) ∧
      ¬ ParsesTo .default newTable.onChain ⟨.default, []⟩ newTable.addresses := by
  have rejected : parse .default newTable.onChain ⟨.default, []⟩ =
      .ok (false, ⟨.default, []⟩) := by decide +kernel
  exact ⟨rejected, rejected_parses_nothing .default _ ⟨.default, []⟩ _ rejected⟩

end Results

end SolanaSdk.LookupTableAccounts
