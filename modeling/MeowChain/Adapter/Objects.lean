import MeowChain.Lib.Bytes
import MeowChain.Vm.Types
import MeowChain.Vm.Names

/-!
# Objects as the adapter sees them

An object is a struct whose first field is `id: meow_object::Id`. Its address is read off the `id`
field by writing that value out as bytes and reading the bytes back as a `MeowObjectId`; whatever
has the bytes of an address is accepted. How BCS writes primitive values is a parameter.
-/

set_option autoImplicit false

namespace MeowChain

/-- A 32-byte digest. -/
abbrev Digest := BitVec 256

def meowObjectModuleAddress : Address := Address.suffixed 0x10

def meowObjectIdFieldName : String := "id"

def meowObjectIdTypeName : String := qualify meowObjectModuleAddress "Id"

def meowObjectIdType : Ty := .struct meowObjectIdTypeName

def meowObjectId (a : Address) : Value Unit :=
  .struct () meowObjectIdTypeName [("inner", .address a)]

def isObjectStruct (s : StructDef) : Bool :=
  match s.fields.head? with
  | some f => f.name == meowObjectIdFieldName && f.ty == meowObjectIdType
  | none => false

/-! ## BCS -/

/-- `bcs::to_bytes` on primitive values and `bcs::from_bytes` on a `MeowObjectId`, with the layout
that BCS documents: one byte for a `bool`, integers in their width with the lowest byte first, and
a string behind its length. -/
structure Bcs where
  bool : Bool → List UInt8
  u8 : UInt8 → List UInt8
  u16 : UInt16 → List UInt8
  u32 : UInt32 → List UInt8
  u64 : UInt64 → List UInt8
  str : String → List UInt8
  readId : List UInt8 → Option Address
  bool_eq : ∀ b, bool b = [if b then 1 else 0]
  u8_eq : ∀ n, u8 n = [n]
  u16_eq : ∀ n, u16 n = (Bytes.encode 2 n.toNat).reverse
  u32_eq : ∀ n, u32 n = (Bytes.encode 4 n.toNat).reverse
  u64_eq : ∀ n, u64 n = (Bytes.encode 8 n.toNat).reverse
  head?_str : ∀ s, s ≠ "" → (str s).head? ≠ some 0
  readId_eq_some : ∀ bytes a, readId bytes = some a ↔ (Bytes.encode 32 a.toNat).flatMap u8 = bytes

theorem encode_toNat_decode {bytes : List UInt8} (hlength : bytes.length = 32) :
    Bytes.encode 32 (BitVec.ofNat 256 (Bytes.decode bytes)).toNat = bytes := by
  have hlt : Bytes.decode bytes < 2 ^ 256 := by
    have h := Bytes.decode_lt bytes
    rw [hlength] at h
    norm_num at h ⊢
    exact h
  rw [BitVec.toNat_ofNat, Nat.mod_eq_of_lt hlt, ← hlength, Bytes.encode_decode]

section Bcs

variable (bcs : Bcs) {τ : Type}

-- `ValueToRust`: the bytes of the equivalent Rust value.
mutual
def Value.rustBytes : Value τ → Option (List UInt8)
  | .bool b => some (bcs.bool b)
  | .u64 n => some (bcs.u64 n)
  | .address a => some ((Bytes.encode 32 a.toNat).flatMap bcs.u8)
  | .str s => some (bcs.str s)
  | .void => none
  | .struct _ _ fields => Value.rustBytesFields fields
  | .tuple _ => none

def Value.rustBytesFields : List (String × Value τ) → Option (List UInt8)
  | [] => some []
  | (_, v) :: fields => do
    let front ← Value.rustBytes v
    let back ← Value.rustBytesFields fields
    some (front ++ back)
end

def Value.toMeowObjectId (v : Value τ) : Option Address :=
  (v.rustBytes bcs).bind bcs.readId

def objectAddress (v : Value τ) : Option Address :=
  (v.field meowObjectIdFieldName).bind (Value.toMeowObjectId bcs)

theorem toMeowObjectId_meowObjectId (a : Address) :
    (meowObjectId a).toMeowObjectId bcs = some a := by
  have hbytes : (meowObjectId a).rustBytes bcs
      = some ((Bytes.encode 32 a.toNat).flatMap bcs.u8) := by
    simp [meowObjectId, Value.rustBytes, Value.rustBytesFields]
  rw [Value.toMeowObjectId, hbytes, Option.bind_some]
  exact (bcs.readId_eq_some _ _).mpr rfl

end Bcs

namespace Sample

def uleb128 : ℕ → ℕ → List UInt8
  | 0, _ => []
  | fuel + 1, n =>
    if n < 128 then [UInt8.ofNat n] else UInt8.ofNat (n % 128 + 128) :: uleb128 fuel (n / 128)

theorem head?_uleb128 {n : ℕ} (fuel : ℕ) (h : n ≠ 0) : (uleb128 (fuel + 1) n).head? ≠ some 0 := by
  rw [uleb128]
  split_ifs with hsmall
  · simp only [List.head?_cons, ne_eq, Option.some.injEq, ← UInt8.toNat_inj, UInt8.toNat_ofNat',
      UInt8.toNat_zero]
    omega
  · simp only [List.head?_cons, ne_eq, Option.some.injEq, ← UInt8.toNat_inj, UInt8.toNat_ofNat',
      UInt8.toNat_zero]
    omega

def bcsLayout : Bcs where
  bool b := [if b then 1 else 0]
  u8 n := [n]
  u16 n := (Bytes.encode 2 n.toNat).reverse
  u32 n := (Bytes.encode 4 n.toNat).reverse
  u64 n := (Bytes.encode 8 n.toNat).reverse
  str s := uleb128 5 s.utf8ByteSize ++ s.toUTF8.data.toList
  readId bytes :=
    if bytes.length = 32 then some (BitVec.ofNat 256 (Bytes.decode bytes)) else none
  bool_eq _ := rfl
  u8_eq _ := rfl
  u16_eq _ := rfl
  u32_eq _ := rfl
  u64_eq _ := rfl
  head?_str s h := by
    have hsize : s.utf8ByteSize ≠ 0 := by simpa using h
    rw [List.head?_append_of_ne_nil _ (by rw [uleb128]; split_ifs <;> simp)]
    exact head?_uleb128 4 hsize
  readId_eq_some bytes a := by
    rw [List.flatMap_singleton']
    constructor
    · intro h
      split_ifs at h with hlength
      rw [← Option.some.inj h, encode_toNat_decode hlength]
    · rintro rfl
      have hlt : a.toNat < 256 ^ 32 := by
        have h := a.isLt
        norm_num at h ⊢
        exact h
      rw [if_pos (Bytes.length_encode _ _), Bytes.decode_encode, Nat.mod_eq_of_lt hlt,
        BitVec.ofNat_toNat, BitVec.setWidth_eq]

end Sample

end MeowChain
