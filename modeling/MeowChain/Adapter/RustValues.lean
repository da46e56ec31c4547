import MeowChain.Adapter.Objects
import MeowChain.Lib.Outcome

/-!
# Rust values

`struct_from_rust` turns what serde derives for a Rust value into a value of the machine, and
`value_to_rust` writes a value of the machine as bytes that BCS reads back as a Rust value. All
integers become `u64`, and every array of 32 small numbers becomes an address.
-/

set_option autoImplicit false

namespace MeowChain

/-! ## Rust types and values -/

/-- The Rust types that are converted; arrays have 32 elements. -/
inductive RustType where
  | bool
  | u8
  | u16
  | u32
  | u64
  | str
  | array (elem : RustType)
  | newtype (name : String) (inner : RustType)
  | struct (name : String) (fields : List (String × RustType))

inductive RustValue where
  | bool (b : Bool)
  | u8 (n : UInt8)
  | u16 (n : UInt16)
  | u32 (n : UInt32)
  | u64 (n : UInt64)
  | str (s : String)
  | array (items : List RustValue)
  | newtype (name : String) (inner : RustValue)
  | struct (name : String) (fields : List (String × RustValue))

namespace RustValue

mutual
def HasType : RustValue → RustType → Prop
  | .bool _, T => T = .bool
  | .u8 _, T => T = .u8
  | .u16 _, T => T = .u16
  | .u32 _, T => T = .u32
  | .u64 _, T => T = .u64
  | .str _, T => T = .str
  | .array items, T => ∃ elem, T = .array elem ∧ items.length = 32 ∧ ItemsHaveType items elem
  | .newtype name inner, T => ∃ innerType, T = .newtype name innerType ∧ inner.HasType innerType
  | .struct name fields, T => ∃ decls, T = .struct name decls ∧ FieldsHaveType fields decls

def ItemsHaveType : List RustValue → RustType → Prop
  | [], _ => True
  | x :: xs, T => x.HasType T ∧ ItemsHaveType xs T

def FieldsHaveType : List (String × RustValue) → List (String × RustType) → Prop
  | [], decls => decls = []
  | (name, x) :: fields, decls =>
    ∃ T rest, decls = (name, T) :: rest ∧ x.HasType T ∧ FieldsHaveType fields rest
end

/-! ## From Rust -/

/-- The errors of the serializers that these values can meet. -/
inductive ConversionError where
  /-- "tuple of length {}; only [u8; 32] tuples are supported" -/
  | tupleLength (length : ℕ)
  /-- "expected u8 in address tuple, got {:?}" -/
  | notByte (value : Value Unit)

def addressBytes : List (Value Unit) → Except ConversionError (List UInt8)
  | [] => .ok []
  | .u64 b :: elements =>
    if b ≤ 0xFF then do
      let bytes ← addressBytes elements
      .ok (b.toUInt8 :: bytes)
    else .error (.notByte (.u64 b))
  | other :: _ => .error (.notByte other)

def endTuple (elements : List (Value Unit)) : Except ConversionError (Value Unit) :=
  if elements.length = 32 then do
    let bytes ← addressBytes elements
    .ok (.address (BitVec.ofNat 256 (Bytes.decode bytes)))
  else .error (.tupleLength elements.length)

-- `Serialize::serialize` into a `ValueSerializer`. Elements of arrays are not translated.
mutual
def serialize (typeNames : List (String × String)) :
    RustValue → Except ConversionError (Value Unit)
  | .bool b => .ok (.bool b)
  | .u8 n => .ok (.u64 n.toUInt64)
  | .u16 n => .ok (.u64 n.toUInt64)
  | .u32 n => .ok (.u64 n.toUInt64)
  | .u64 n => .ok (.u64 n)
  | .str s => .ok (.str s)
  | .array items => do
    let elements ← serializeElements items
    endTuple elements
  | .newtype _ inner => inner.serialize typeNames
  | .struct name fields => do
    let fields ← serializeFields typeNames fields
    .ok (.struct () ((typeNames.lookup name).getD name) fields)

def serializeElements : List RustValue → Except ConversionError (List (Value Unit))
  | [] => .ok []
  | x :: xs => do
    let v ← x.serialize []
    let vs ← serializeElements xs
    .ok (v :: vs)

def serializeFields (typeNames : List (String × String)) :
    List (String × RustValue) → Except ConversionError (List (String × Value Unit))
  | [] => .ok []
  | (name, x) :: fields => do
    let v ← x.serialize typeNames
    let vs ← serializeFields typeNames fields
    .ok ((name, v) :: vs)
end

/-- `struct_from_rust`; the type names are those its type implements `VmTypeNames` with. -/
def structFromRust (typeNames : List (String × String)) (x : RustValue) :
    Except ConversionError (Value Unit) :=
  x.serialize typeNames

/-! ## To Rust -/

section Bcs

variable (bcs : Bcs)

-- `bcs::to_bytes` of what serde derives.
mutual
def bcsBytes : RustValue → List UInt8
  | .bool b => bcs.bool b
  | .u8 n => bcs.u8 n
  | .u16 n => bcs.u16 n
  | .u32 n => bcs.u32 n
  | .u64 n => bcs.u64 n
  | .str s => bcs.str s
  | .array items => bcsBytesItems items
  | .newtype _ inner => inner.bcsBytes
  | .struct _ fields => bcsBytesFields fields

def bcsBytesItems : List RustValue → List UInt8
  | [] => []
  | x :: xs => x.bcsBytes ++ bcsBytesItems xs

def bcsBytesFields : List (String × RustValue) → List UInt8
  | [] => []
  | (_, x) :: fields => x.bcsBytes ++ bcsBytesFields fields
end

end Bcs

end RustValue

/-- `bcs::from_bytes::<T>`, the inverse of `bcs::to_bytes` on the values within its limits on the
nesting of containers and the length of strings. -/
structure BcsDecoder (bcs : Bcs) (T : RustType) where
  decode : List UInt8 → Option RustValue
  fits : RustValue → Prop
  decode_eq_some : ∀ bytes x,
    decode bytes = some x ↔ x.HasType T ∧ fits x ∧ x.bcsBytes bcs = bytes

def Value.toRust {bcs : Bcs} {T : RustType} (decoder : BcsDecoder bcs T) (v : Value Unit) :
    Option RustValue :=
  (v.rustBytes bcs).bind decoder.decode

/-! ## Types that come back -/

namespace RustType

def isByte : RustType → Bool
  | .u8 => true
  | .newtype _ inner => inner.isByte
  | _ => false

def isInteger : RustType → Bool
  | .u8 | .u16 | .u32 | .u64 => true
  | .newtype _ inner => inner.isInteger
  | _ => false

-- Some value of the type is converted: its arrays are made of integers.
mutual
def convertible : RustType → Bool
  | .array elem => elem.isInteger
  | .newtype _ inner => inner.convertible
  | .struct _ fields => convertibleFields fields
  | _ => true

def convertibleFields : List (String × RustType) → Bool
  | [] => true
  | (_, T) :: fields => T.convertible && convertibleFields fields
end

-- The only integers are `u64` and the bytes of arrays.
mutual
def faithful : RustType → Bool
  | .bool | .u64 | .str => true
  | .u8 | .u16 | .u32 => false
  | .array elem => elem.isByte
  | .newtype _ inner => inner.faithful
  | .struct _ fields => faithfulFields fields

def faithfulFields : List (String × RustType) → Bool
  | [] => true
  | (_, T) :: fields => T.faithful && faithfulFields fields
end

end RustType

/-! ## Faithful types -/

section Faithful

open RustValue

variable {bcs : Bcs} {typeNames : List (String × String)}

theorem addressBytes_bytes (bytes : List UInt8) :
    addressBytes (bytes.map fun b => .u64 b.toUInt64) = .ok bytes := by
  induction bytes with
  | nil => rfl
  | cons b bytes ih =>
    have hle : b.toUInt64 ≤ 0xFF := by
      rw [UInt64.le_iff_toNat_le, UInt8.toNat_toUInt64]
      exact Nat.le_of_lt_succ b.toNat_lt
    have hbyte : b.toUInt64.toUInt8 = b := by simp
    rw [List.map_cons, addressBytes, if_pos hle, ih, hbyte]
    rfl

theorem rustBytes_address {bytes : List UInt8} (hlength : bytes.length = 32) :
    (Value.address (BitVec.ofNat 256 (Bytes.decode bytes)) : Value Unit).rustBytes bcs =
      some bytes := by
  have hbytes : bcs.u8 = fun n => [n] := funext bcs.u8_eq
  rw [Value.rustBytes, encode_toNat_decode hlength, hbytes, List.flatMap_singleton']

theorem serialize_byte : ∀ {x : RustValue} {T : RustType}, x.HasType T → T.isByte = true →
    ∃ b : UInt8, x.serialize typeNames = .ok (.u64 b.toUInt64) ∧ x.bcsBytes bcs = [b]
  | .u8 n, T, _, _ => ⟨n, by simp [serialize], by rw [bcsBytes, bcs.u8_eq]⟩
  | .newtype name inner, T, hx, hT => by
    simp only [HasType] at hx
    obtain ⟨innerType, rfl, hinner⟩ := hx
    obtain ⟨b, hserialize, hbytes⟩ := serialize_byte hinner hT
    exact ⟨b, by rw [serialize, hserialize], by rw [bcsBytes, hbytes]⟩
  | .bool _, T, hx, hT | .u16 _, T, hx, hT | .u32 _, T, hx, hT | .u64 _, T, hx, hT
  | .str _, T, hx, hT => by
    simp only [HasType] at hx
    subst hx
    cases hT
  | .array _, T, hx, hT | .struct _ _, T, hx, hT => by
    simp only [HasType] at hx
    obtain ⟨_, rfl, _⟩ := hx
    cases hT

theorem serialize_bytes {T : RustType} (hT : T.isByte = true) :
    ∀ {items : List RustValue}, ItemsHaveType items T →
      serializeElements items =
        .ok ((bcsBytesItems bcs items).map fun b => .u64 b.toUInt64) ∧
      (bcsBytesItems bcs items).length = items.length
  | [], _ => ⟨by simp [serializeElements, bcsBytesItems], by simp [bcsBytesItems]⟩
  | x :: items, h => by
    obtain ⟨hx, hitems⟩ : x.HasType T ∧ ItemsHaveType items T := by
      simpa only [ItemsHaveType] using h
    obtain ⟨b, hserialize, hb⟩ := serialize_byte hx hT
    obtain ⟨hrest, hlength⟩ := serialize_bytes hT hitems
    constructor
    · rw [serializeElements, hserialize, hrest, bcsBytesItems, hb]
      rfl
    · rw [bcsBytesItems, hb, List.length_append, hlength, List.length_cons, Nat.add_comm]
      rfl

-- A value of a faithful type is converted, and written as the bytes of the Rust value.
mutual
theorem serialize_faithful : ∀ {x : RustValue} {T : RustType}, x.HasType T → T.faithful = true →
    ∃ v, x.serialize typeNames = .ok v ∧ v.rustBytes bcs = some (x.bcsBytes bcs)
  | .bool b, T, _, _ => ⟨.bool b, by simp [serialize], by simp [Value.rustBytes, bcsBytes]⟩
  | .u64 n, T, _, _ => ⟨.u64 n, by simp [serialize], by simp [Value.rustBytes, bcsBytes]⟩
  | .str s, T, _, _ => ⟨.str s, by simp [serialize], by simp [Value.rustBytes, bcsBytes]⟩
  | .u8 _, T, hx, hT | .u16 _, T, hx, hT | .u32 _, T, hx, hT => by
    simp only [HasType] at hx
    subst hx
    cases hT
  | .array items, T, hx, hT => by
    simp only [HasType] at hx
    obtain ⟨elem, rfl, hlength, hitems⟩ := hx
    obtain ⟨hserialize, hbytes⟩ := serialize_bytes hT hitems
    have hend : endTuple ((bcsBytesItems bcs items).map fun b => .u64 b.toUInt64) =
        .ok (.address (BitVec.ofNat 256 (Bytes.decode (bcsBytesItems bcs items)))) := by
      rw [endTuple, if_pos (by rw [List.length_map, hbytes, hlength]), addressBytes_bytes]
      rfl
    refine ⟨_, ?_, (rustBytes_address (hbytes.trans hlength)).trans (by rw [bcsBytes])⟩
    rw [serialize, hserialize]
    exact hend
  | .newtype name inner, T, hx, hT => by
    simp only [HasType] at hx
    obtain ⟨innerType, rfl, hinner⟩ := hx
    obtain ⟨v, hserialize, hbytes⟩ := serialize_faithful hinner (by simpa [RustType.faithful] using hT)
    exact ⟨v, by rw [serialize, hserialize], by rw [bcsBytes, hbytes]⟩
  | .struct name fields, T, hx, hT => by
    simp only [HasType] at hx
    obtain ⟨decls, rfl, hfields⟩ := hx
    obtain ⟨vs, hserialize, hbytes⟩ :=
      serializeFields_faithful hfields (by simpa [RustType.faithful] using hT)
    refine ⟨.struct () ((typeNames.lookup name).getD name) vs, ?_, ?_⟩
    · rw [serialize, hserialize]
      rfl
    · rw [Value.rustBytes, bcsBytes, hbytes]

theorem serializeFields_faithful : ∀ {fields : List (String × RustValue)}
    {decls : List (String × RustType)}, FieldsHaveType fields decls →
    RustType.faithfulFields decls = true →
    ∃ vs, serializeFields typeNames fields = .ok vs ∧
      Value.rustBytesFields bcs vs = some (bcsBytesFields bcs fields)
  | [], _, _, _ => ⟨[], by simp [serializeFields], by simp [Value.rustBytesFields, bcsBytesFields]⟩
  | (name, x) :: fields, decls, h, hdecls => by
    simp only [FieldsHaveType] at h
    obtain ⟨T, rest, rfl, hx, hfields⟩ := h
    simp only [RustType.faithfulFields, Bool.and_eq_true] at hdecls
    obtain ⟨v, hv, hbytes⟩ := serialize_faithful hx hdecls.1
    obtain ⟨vs, hvs, hrest⟩ := serializeFields_faithful hfields hdecls.2
    refine ⟨(name, v) :: vs, ?_, ?_⟩
    · rw [serializeFields, hv, hvs]
      rfl
    · rw [Value.rustBytesFields, hbytes, hrest, bcsBytesFields]
      rfl
end

end Faithful

/-! ## Other types -/

namespace RustType

-- A value of the type whose every part starts with a byte other than zero.
mutual
def ones : RustType → RustValue
  | .bool => .bool true
  | .u8 => .u8 1
  | .u16 => .u16 1
  | .u32 => .u32 1
  | .u64 => .u64 1
  | .str => .str "1"
  | .array elem => .array (List.replicate 32 elem.ones)
  | .newtype name inner => .newtype name inner.ones
  | .struct name fields => .struct name (onesFields fields)

def onesFields : List (String × RustType) → List (String × RustValue)
  | [] => []
  | (name, T) :: fields => (name, T.ones) :: onesFields fields
end

end RustType

section Ones

open RustValue RustType

variable {bcs : Bcs} {typeNames : List (String × String)}

theorem itemsHaveType_replicate {x : RustValue} {T : RustType} (h : x.HasType T) (n : ℕ) :
    ItemsHaveType (List.replicate n x) T := by
  induction n with
  | zero => simp [ItemsHaveType]
  | succ n ih => simpa only [List.replicate_succ, ItemsHaveType] using ⟨h, ih⟩

mutual
theorem hasType_ones : ∀ T : RustType, T.ones.HasType T
  | .bool | .u8 | .u16 | .u32 | .u64 | .str => by simp [ones, HasType]
  | .array elem => by
    simp only [ones, HasType]
    exact ⟨elem, rfl, List.length_replicate, itemsHaveType_replicate (hasType_ones elem) 32⟩
  | .newtype name inner => by
    simp only [ones, HasType]
    exact ⟨inner, rfl, hasType_ones inner⟩
  | .struct name fields => by
    simp only [ones, HasType]
    exact ⟨fields, rfl, fieldsHaveType_ones fields⟩

theorem fieldsHaveType_ones : ∀ fields : List (String × RustType),
    FieldsHaveType (onesFields fields) fields
  | [] => by simp [onesFields, FieldsHaveType]
  | (name, T) :: fields => by
    simp only [onesFields, FieldsHaveType]
    exact ⟨T, fields, rfl, hasType_ones T, fieldsHaveType_ones fields⟩
end

def Marked (bytes : List UInt8) : Prop :=
  bytes.head? ≠ some 0

instance (bytes : List UInt8) : Decidable (Marked bytes) :=
  inferInstanceAs (Decidable (_ ≠ _))

theorem Marked.append {xs ys : List UInt8} (hx : Marked xs) (hy : Marked ys) :
    Marked (xs ++ ys) := by
  cases xs with
  | nil => exact hy
  | cons x xs => exact hx

theorem marked_replicate {x : RustValue} (h : Marked (x.bcsBytes bcs)) (n : ℕ) :
    Marked (bcsBytesItems bcs (List.replicate n x)) := by
  induction n with
  | zero => simp [bcsBytesItems, Marked]
  | succ n ih =>
    rw [List.replicate_succ, bcsBytesItems]
    exact h.append ih

mutual
theorem marked_ones : ∀ T : RustType, Marked (T.ones.bcsBytes bcs)
  | .bool | .u8 | .u16 | .u32 | .u64 => by
    simp only [ones, bcsBytes, bcs.bool_eq, bcs.u8_eq, bcs.u16_eq, bcs.u32_eq, bcs.u64_eq]
    decide
  | .str => by
    rw [ones, bcsBytes]
    exact bcs.head?_str "1" (by decide)
  | .array elem => by
    simp only [ones, bcsBytes]
    exact marked_replicate (marked_ones elem) 32
  | .newtype name inner => by
    simp only [ones, bcsBytes]
    exact marked_ones inner
  | .struct name fields => by
    simp only [ones, bcsBytes]
    exact marked_onesFields fields

theorem marked_onesFields : ∀ fields : List (String × RustType),
    Marked (bcsBytesFields bcs (onesFields fields))
  | [] => by simp [onesFields, bcsBytesFields, Marked]
  | (name, T) :: fields => by
    simp only [onesFields, bcsBytesFields]
    exact (marked_ones T).append (marked_onesFields fields)
end

/-- The first byte that differs is a zero on one side only, or on the left side where the right one
ends. -/
def Apart (xs ys : List UInt8) : Prop :=
  ∃ common, (∃ rest, xs = common ++ 0 :: rest) ∧ (∃ rest, ys = common ++ rest ∧ Marked rest) ∨
    ∃ rest rest', xs = common ++ 1 :: rest ∧ ys = common ++ 0 :: rest'

theorem Apart.ne {xs ys : List UInt8} (h : Apart xs ys) : xs ≠ ys := by
  obtain ⟨common, ⟨⟨rest, rfl⟩, rest', rfl, hmarked⟩ | ⟨rest, rest', rfl, rfl⟩⟩ := h
  · intro heq
    rw [← List.append_cancel_left heq] at hmarked
    exact hmarked rfl
  · intro heq
    have := List.append_cancel_left heq
    simp at this

theorem Apart.append {xs ys zs : List UInt8} (h : Apart xs ys) (ws : List UInt8)
    (hzs : Marked zs) : Apart (xs ++ ws) (ys ++ zs) := by
  obtain ⟨common, ⟨⟨rest, rfl⟩, rest', rfl, hmarked⟩ | ⟨rest, rest', rfl, rfl⟩⟩ := h
  · refine ⟨common, .inl ⟨⟨rest ++ ws, by simp⟩, rest' ++ zs, by simp, hmarked.append hzs⟩⟩
  · exact ⟨common, .inr ⟨rest ++ ws, rest' ++ zs, by simp, by simp⟩⟩

theorem Apart.append_left {xs ys : List UInt8} (h : Apart xs ys) (zs : List UInt8) :
    Apart (zs ++ xs) (zs ++ ys) := by
  obtain ⟨common, ⟨⟨rest, rfl⟩, rest', rfl, hmarked⟩ | ⟨rest, rest', rfl, rfl⟩⟩ := h
  · exact ⟨zs ++ common, .inl ⟨⟨rest, by simp⟩, rest', by simp, hmarked⟩⟩
  · exact ⟨zs ++ common, .inr ⟨rest, rest', by simp, by simp⟩⟩

theorem serialize_ones_integer : ∀ {T : RustType}, T.isInteger = true →
    ∃ zeros, T.ones.serialize typeNames = .ok (.u64 1) ∧
      T.ones.bcsBytes bcs = 1 :: List.replicate zeros 0 ∧ (T.isByte = false → zeros ≠ 0)
  | .u8, _ => ⟨0, by simp [ones, serialize], by rw [ones, bcsBytes, bcs.u8_eq]; rfl, nofun⟩
  | .u16, _ => ⟨1, by simp [ones, serialize], by rw [ones, bcsBytes, bcs.u16_eq]; decide, nofun⟩
  | .u32, _ => ⟨3, by simp [ones, serialize], by rw [ones, bcsBytes, bcs.u32_eq]; decide, nofun⟩
  | .u64, _ => ⟨7, by simp [ones, serialize], by rw [ones, bcsBytes, bcs.u64_eq]; decide, nofun⟩
  | .newtype name inner, h => by
    obtain ⟨zeros, hserialize, hbytes, hzeros⟩ := serialize_ones_integer (T := inner) h
    refine ⟨zeros, ?_, ?_, hzeros⟩
    · rw [ones, serialize, hserialize]
    · rw [ones, bcsBytes, hbytes]

theorem serializeElements_replicate {x : RustValue} {v : Value Unit} (h : x.serialize [] = .ok v)
    (n : ℕ) : serializeElements (List.replicate n x) = .ok (List.replicate n v) := by
  induction n with
  | zero => simp [serializeElements]
  | succ n ih =>
    rw [List.replicate_succ, serializeElements, h, ih]
    rfl

theorem ones_apart_array {elem : RustType} (hinteger : elem.isInteger = true)
    (hbyte : elem.isByte = false) :
    ∃ v bytes, (RustType.array elem).ones.serialize typeNames = .ok v ∧
      v.rustBytes bcs = some bytes ∧ Apart bytes ((RustType.array elem).ones.bcsBytes bcs) := by
  obtain ⟨zeros, hserialize, hbytes, hzeros⟩ := @serialize_ones_integer bcs [] elem hinteger
  have hend : endTuple (List.replicate 32 (.u64 1)) =
      .ok (.address (BitVec.ofNat 256 (Bytes.decode (List.replicate 32 1)))) := by
    rw [endTuple, if_pos List.length_replicate]
    exact congrArg (· >>= _) (addressBytes_bytes (List.replicate 32 1))
  refine ⟨_, List.replicate 32 1, ?_, rustBytes_address List.length_replicate, ?_⟩
  · rw [ones, serialize, serializeElements_replicate hserialize]
    exact hend
  · obtain ⟨more, rfl⟩ := Nat.exists_eq_succ_of_ne_zero (hzeros hbyte)
    have hitems : List.replicate 32 elem.ones = elem.ones :: List.replicate 31 elem.ones := rfl
    rw [ones, bcsBytes, hitems, bcsBytesItems, hbytes]
    exact ⟨[1], .inr ⟨List.replicate 30 1, _, rfl, rfl⟩⟩

theorem ones_apart_narrow {T : RustType} {zeros : ℕ}
    (hserialize : T.ones.serialize typeNames = .ok (.u64 1))
    (hbytes : T.ones.bcsBytes bcs = 1 :: List.replicate zeros 0) (hzeros : zeros < 7) :
    ∃ v bytes, T.ones.serialize typeNames = .ok v ∧ v.rustBytes bcs = some bytes ∧
      Apart bytes (T.ones.bcsBytes bcs) := by
  refine ⟨.u64 1, (Bytes.encode 8 1).reverse, hserialize, ?_, ?_⟩
  · rw [Value.rustBytes, bcs.u64_eq]
    rfl
  rw [hbytes]
  refine ⟨1 :: List.replicate zeros 0, .inl ⟨⟨List.replicate (6 - zeros) 0, ?_⟩, [], by simp, ?_⟩⟩
  · interval_cases zeros <;> decide
  · simp [Marked]

theorem exists_bytes_onesFields {fields : List (String × RustType)}
    (h : faithfulFields fields = false → ∃ vs bytes,
      serializeFields typeNames (onesFields fields) = .ok vs ∧
      Value.rustBytesFields bcs vs = some bytes ∧
      Apart bytes (bcsBytesFields bcs (onesFields fields))) :
    ∃ vs bytes, serializeFields typeNames (onesFields fields) = .ok vs ∧
      Value.rustBytesFields bcs vs = some bytes := by
  cases hfaithful : faithfulFields fields with
  | true =>
    obtain ⟨vs, hvs, hbytes⟩ := serializeFields_faithful (fieldsHaveType_ones fields) hfaithful
    exact ⟨vs, _, hvs, hbytes⟩
  | false =>
    obtain ⟨vs, bytes, hvs, hbytes, -⟩ := h hfaithful
    exact ⟨vs, bytes, hvs, hbytes⟩

-- On a type that is not faithful, the ones are converted but written differently.
mutual
theorem ones_apart : ∀ {T : RustType}, T.convertible = true → T.faithful = false →
    ∃ v bytes, T.ones.serialize typeNames = .ok v ∧ v.rustBytes bcs = some bytes ∧
      Apart bytes (T.ones.bcsBytes bcs)
  | .u8, _, _ =>
    ones_apart_narrow (by simp [ones, serialize]) (by rw [ones, bcsBytes, bcs.u8_eq]; rfl)
      (show 0 < 7 by decide)
  | .u16, _, _ =>
    ones_apart_narrow (by simp [ones, serialize]) (by rw [ones, bcsBytes, bcs.u16_eq]; decide)
      (show 1 < 7 by decide)
  | .u32, _, _ =>
    ones_apart_narrow (by simp [ones, serialize]) (by rw [ones, bcsBytes, bcs.u32_eq]; decide)
      (show 3 < 7 by decide)
  | .array elem, hconvertible, hfaithful => by
    simp only [convertible] at hconvertible
    simp only [faithful] at hfaithful
    exact ones_apart_array hconvertible hfaithful
  | .newtype name inner, hconvertible, hfaithful => by
    simp only [convertible] at hconvertible
    simp only [faithful] at hfaithful
    obtain ⟨v, bytes, hserialize, hbytes, hapart⟩ := ones_apart hconvertible hfaithful
    refine ⟨v, bytes, ?_, hbytes, ?_⟩
    · rw [ones, serialize, hserialize]
    · rw [ones, bcsBytes]
      exact hapart
  | .struct name fields, hconvertible, hfaithful => by
    simp only [convertible] at hconvertible
    simp only [faithful] at hfaithful
    obtain ⟨vs, bytes, hserialize, hbytes, hapart⟩ := onesFields_apart hconvertible hfaithful
    refine ⟨.struct () ((typeNames.lookup name).getD name) vs, bytes, ?_, ?_, ?_⟩
    · rw [ones, serialize, hserialize]
      rfl
    · rw [Value.rustBytes, hbytes]
    · rw [ones, bcsBytes]
      exact hapart

theorem onesFields_apart : ∀ {fields : List (String × RustType)},
    convertibleFields fields = true → faithfulFields fields = false →
    ∃ vs bytes, serializeFields typeNames (onesFields fields) = .ok vs ∧
      Value.rustBytesFields bcs vs = some bytes ∧
      Apart bytes (bcsBytesFields bcs (onesFields fields))
  | (name, T) :: fields, hconvertible, hfaithful => by
    simp only [convertibleFields, Bool.and_eq_true] at hconvertible
    simp only [faithfulFields, Bool.and_eq_false_iff] at hfaithful
    cases hfirst : T.faithful with
    | true =>
      -- The first field is written as it should be, so a later one is not.
      obtain ⟨v, hv, hbytes⟩ := serialize_faithful (hasType_ones T) hfirst
      obtain ⟨vs, bytes, hvs, hrest, hapart⟩ :=
        onesFields_apart hconvertible.2 (hfaithful.resolve_left (by simp [hfirst]))
      refine ⟨(name, v) :: vs, T.ones.bcsBytes bcs ++ bytes, ?_, ?_, ?_⟩
      · rw [onesFields, serializeFields, hv, hvs]
        rfl
      · rw [Value.rustBytesFields, hbytes, hrest]
        rfl
      · rw [onesFields, bcsBytesFields]
        exact hapart.append_left _
    | false =>
      obtain ⟨v, bytes, hv, hbytes, hapart⟩ := ones_apart hconvertible.1 hfirst
      obtain ⟨vs, more, hvs, hrest⟩ :=
        exists_bytes_onesFields fun hfields => onesFields_apart hconvertible.2 hfields
      refine ⟨(name, v) :: vs, bytes ++ more, ?_, ?_, ?_⟩
      · rw [onesFields, serializeFields, hv, hvs]
        rfl
      · rw [Value.rustBytesFields, hbytes, hrest]
        rfl
      · rw [onesFields, bcsBytesFields]
        exact hapart.append _ (marked_onesFields fields)
end

end Ones

/-! ## The round trip -/

section RoundTrip

open RustValue RustType

variable {typeNames : List (String × String)}

theorem isInteger_of_serialize : ∀ {x : RustValue} {T : RustType} {n : UInt64}, x.HasType T →
    x.serialize typeNames = .ok (.u64 n) → T.isInteger = true
  | .u8 _, T, _, hx, _ | .u16 _, T, _, hx, _ | .u32 _, T, _, hx, _ | .u64 _, T, _, hx, _ => by
    simp only [HasType] at hx
    subst hx
    rfl
  | .newtype name inner, T, n, hx, h => by
    simp only [HasType] at hx
    obtain ⟨innerType, rfl, hinner⟩ := hx
    rw [serialize] at h
    rw [isInteger]
    exact isInteger_of_serialize hinner h
  | .bool _, _, _, _, h | .str _, _, _, _, h => by
    rw [serialize] at h
    cases h
  | .array items, _, _, _, h => by
    rw [serialize] at h
    obtain ⟨elements, -, h⟩ := ok_of_bind h
    unfold endTuple at h
    split_ifs at h
    obtain ⟨bytes, -, h⟩ := ok_of_bind h
    cases h
  | .struct _ _, _, _, _, h => by
    rw [serialize] at h
    obtain ⟨fields, -, h⟩ := ok_of_bind h
    cases h

theorem addressBytes_cons {v : Value Unit} {elements : List (Value Unit)} {bytes : List UInt8}
    (h : addressBytes (v :: elements) = .ok bytes) : ∃ n, v = .u64 n := by
  cases v with
  | u64 n => exact ⟨n, rfl⟩
  | _ => cases h

theorem isInteger_of_array {items : List RustValue} {elem : RustType} {v : Value Unit}
    (hlength : items.length = 32) (hitems : ItemsHaveType items elem)
    (h : (RustValue.array items).serialize typeNames = .ok v) : elem.isInteger = true := by
  obtain ⟨x, rest, rfl⟩ := List.exists_cons_of_length_eq_add_one hlength
  simp only [ItemsHaveType] at hitems
  rw [serialize] at h
  obtain ⟨elements, helements, h⟩ := ok_of_bind h
  rw [serializeElements] at helements
  obtain ⟨w, hw, helements⟩ := ok_of_bind helements
  obtain ⟨ws, -, helements⟩ := ok_of_bind helements
  cases helements
  unfold endTuple at h
  split_ifs at h
  obtain ⟨bytes, hbytes, -⟩ := ok_of_bind h
  obtain ⟨n, rfl⟩ := addressBytes_cons hbytes
  exact isInteger_of_serialize hitems.1 hw

mutual
theorem convertible_of_serialize : ∀ {x : RustValue} {T : RustType} {v : Value Unit},
    x.HasType T → x.serialize typeNames = .ok v → T.convertible = true
  | .bool _, T, _, hx, _ | .u8 _, T, _, hx, _ | .u16 _, T, _, hx, _ | .u32 _, T, _, hx, _
  | .u64 _, T, _, hx, _ | .str _, T, _, hx, _ => by
    simp only [HasType] at hx
    subst hx
    simp [convertible]
  | .array items, T, v, hx, h => by
    simp only [HasType] at hx
    obtain ⟨elem, rfl, hlength, hitems⟩ := hx
    rw [convertible]
    exact isInteger_of_array hlength hitems h
  | .newtype name inner, T, v, hx, h => by
    simp only [HasType] at hx
    obtain ⟨innerType, rfl, hinner⟩ := hx
    rw [serialize] at h
    rw [convertible]
    exact convertible_of_serialize hinner h
  | .struct name fields, T, v, hx, h => by
    simp only [HasType] at hx
    obtain ⟨decls, rfl, hfields⟩ := hx
    rw [serialize] at h
    obtain ⟨vs, hvs, -⟩ := ok_of_bind h
    rw [convertible]
    exact convertibleFields_of_serialize hfields hvs

theorem convertibleFields_of_serialize : ∀ {fields : List (String × RustValue)}
    {decls : List (String × RustType)} {vs : List (String × Value Unit)},
    FieldsHaveType fields decls → serializeFields typeNames fields = .ok vs →
    convertibleFields decls = true
  | [], decls, _, hfields, _ => by
    simp only [FieldsHaveType] at hfields
    subst hfields
    simp [convertibleFields]
  | (name, x) :: fields, decls, vs, hfields, h => by
    simp only [FieldsHaveType] at hfields
    obtain ⟨T, rest, rfl, hx, hrest⟩ := hfields
    rw [serializeFields] at h
    obtain ⟨v, hv, h⟩ := ok_of_bind h
    obtain ⟨ws, hws, -⟩ := ok_of_bind h
    simp only [convertibleFields, Bool.and_eq_true]
    exact ⟨convertible_of_serialize hx hv, convertibleFields_of_serialize hrest hws⟩
end

variable {bcs : Bcs} {T : RustType} (decoder : BcsDecoder bcs T)

theorem toRust_eq_some {x : RustValue} {v : Value Unit} (h : v.toRust decoder = some x) :
    decoder.fits x ∧ v.rustBytes bcs = some (x.bcsBytes bcs) := by
  obtain ⟨bytes, hbytes, hx⟩ := Option.bind_eq_some_iff.mp h
  obtain ⟨-, hfits, rfl⟩ := (decoder.decode_eq_some _ _).mp hx
  exact ⟨hfits, hbytes⟩

theorem toRust_of_rustBytes {x : RustValue} {v : Value Unit} (hx : x.HasType T)
    (hbytes : v.rustBytes bcs = some (x.bcsBytes bcs)) (hfits : decoder.fits x) :
    v.toRust decoder = some x := by
  unfold Value.toRust
  rw [hbytes]
  exact (decoder.decode_eq_some _ _).mpr ⟨hx, hfits, rfl⟩

/-- All values of a type that are converted come back exactly when the only integers of the type
are `u64` and the bytes of arrays, and the values are within the limits of BCS. A value of such a
type is always converted, and comes back exactly when it is within the limits. -/
theorem rust_round_trip (typeNames : List (String × String)) :
    ((∀ (x : RustValue) (v : Value Unit), x.HasType T → x.structFromRust typeNames = .ok v →
        v.toRust decoder = some x) ↔
      ∀ (x : RustValue) (v : Value Unit), x.HasType T → x.structFromRust typeNames = .ok v →
        T.faithful = true ∧ decoder.fits x) ∧
    (T.faithful = true → ∀ x : RustValue, x.HasType T →
      ∃ v, x.structFromRust typeNames = .ok v ∧ (v.toRust decoder = some x ↔ decoder.fits x)) := by
  refine ⟨⟨fun h x v hx hserialize => ?_, fun h x v hx hserialize => ?_⟩,
    fun hfaithful x hx => ?_⟩
  · refine ⟨?_, (toRust_eq_some decoder (h x v hx hserialize)).1⟩
    by_contra hfaithful
    -- The ones are converted as well, but their bytes are not those of the Rust value.
    obtain ⟨w, bytes, hw, hbytes, hapart⟩ := ones_apart (convertible_of_serialize hx hserialize)
      (Bool.not_eq_true _ ▸ hfaithful)
    have hsame := (toRust_eq_some decoder (h T.ones w (hasType_ones T) hw)).2
    exact hapart.ne (Option.some.inj (hbytes.symm.trans hsame))
  · obtain ⟨hfaithful, hfits⟩ := h x v hx hserialize
    obtain ⟨w, hw, hbytes⟩ := serialize_faithful hx hfaithful
    obtain rfl := Except.ok.inj (hserialize.symm.trans hw)
    exact toRust_of_rustBytes decoder hx hbytes hfits
  · obtain ⟨v, hv, hbytes⟩ := serialize_faithful hx hfaithful
    exact ⟨v, hv, fun h => (toRust_eq_some decoder h).1, toRust_of_rustBytes decoder hx hbytes⟩

end RoundTrip

namespace Sample

def smallType : RustType := .struct "Small" [("n", .u8)]

def small (n : UInt8) : RustValue := .struct "Small" [("n", .u8 n)]

theorem hasType_u8 {x : RustValue} : x.HasType .u8 ↔ ∃ n, x = .u8 n := by
  cases x <;> simp [RustValue.HasType]

theorem fieldsHaveType_small {fields : List (String × RustValue)} :
    RustValue.FieldsHaveType fields [("n", .u8)] ↔ ∃ n, fields = [("n", .u8 n)] := by
  constructor
  · intro h
    match fields, h with
    | [(name, x)], h =>
      simp only [RustValue.FieldsHaveType] at h
      obtain ⟨T, rest, hdecls, hx, -⟩ := h
      cases hdecls
      obtain ⟨n, rfl⟩ := hasType_u8.mp hx
      exact ⟨n, rfl⟩
    | [], h => simp [RustValue.FieldsHaveType] at h
    | (_, _) :: (_, _) :: _, h => simp [RustValue.FieldsHaveType] at h
  · rintro ⟨n, rfl⟩
    simp [RustValue.FieldsHaveType, hasType_u8]

theorem hasType_smallType {x : RustValue} : x.HasType smallType ↔ ∃ n, x = small n := by
  cases x with
  | struct name fields =>
    simp only [RustValue.HasType, smallType, small]
    constructor
    · rintro ⟨decls, hdecls, hfields⟩
      cases hdecls
      obtain ⟨n, rfl⟩ := fieldsHaveType_small.mp hfields
      exact ⟨n, rfl⟩
    · rintro ⟨n, hx⟩
      cases hx
      exact ⟨_, rfl, fieldsHaveType_small.mpr ⟨n, rfl⟩⟩
  | _ => simp [RustValue.HasType, smallType, small]

theorem bcsBytes_small (n : UInt8) : (small n).bcsBytes bcsLayout = [n] := by
  simp [small, RustValue.bcsBytes, RustValue.bcsBytesFields, bcsLayout]

def readSmall : List UInt8 → Option RustValue
  | [n] => some (small n)
  | _ => none

theorem readSmall_eq_some {bytes : List UInt8} {x : RustValue} :
    readSmall bytes = some x ↔ ∃ n, x = small n ∧ bytes = [n] := by
  match bytes with
  | [n] =>
    simp only [readSmall, Option.some.injEq, List.cons.injEq, and_true]
    exact ⟨fun h => ⟨n, h.symm, rfl⟩, fun ⟨_, hx, hn⟩ => by rw [hx, hn]⟩
  | [] | _ :: _ :: _ => simp [readSmall]

def smallBcs : BcsDecoder bcsLayout smallType where
  decode := readSmall
  fits _ := True
  decode_eq_some bytes x := by
    rw [readSmall_eq_some, hasType_smallType]
    constructor
    · rintro ⟨n, rfl, rfl⟩
      exact ⟨⟨n, rfl⟩, trivial, bcsBytes_small n⟩
    · rintro ⟨⟨n, rfl⟩, -, rfl⟩
      exact ⟨n, rfl, bcsBytes_small n⟩

end Sample

open Sample in
theorem rust_round_trip_fails :
    (small 7).HasType smallType ∧ smallBcs.fits (small 7) ∧
      ∃ v, (small 7).structFromRust [] = .ok v ∧ v.toRust smallBcs = none := by
  refine ⟨hasType_smallType.mpr ⟨7, rfl⟩, trivial, .struct () "Small" [("n", .u64 7)], ?_, ?_⟩
  · simp only [small, RustValue.structFromRust, RustValue.serialize, RustValue.serializeFields]
    rfl
  · simp only [Value.toRust, Value.rustBytes, Value.rustBytesFields]
    rfl

end MeowChain
