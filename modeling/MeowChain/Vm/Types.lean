import Mathlib.Data.List.Basic
import Mathlib.Data.Nat.Notation
import MeowChain.Lib.Hex

/-!
# Types, values and modules of the Meow VM

Structs carry a ghost label `τ` in front of their type name. The machine itself runs with
`τ = Unit`; a run labelled with numbers tells two equal struct values apart.
-/

set_option autoImplicit false

namespace MeowChain

/-- A 32-byte address, read as a big-endian number. -/
abbrev Address := BitVec 256

namespace Address

instance transOrd : Std.TransOrd Address := BitVec.instTransOrd

instance lawfulEqOrd : Std.LawfulEqOrd Address := BitVec.instLawfulEqOrd

def suffixed (suffix : Nat) : Address :=
  BitVec.ofNat 256 (suffix % 2 ^ 16)

/-- `Display`: `0x` and 64 lower-case digits. -/
def toChars (a : Address) : List Char :=
  '0' :: 'x' :: Hex.encode 64 a.toNat

/-- `FromStr`: an even number of at most 64 digits after `0x`, padded with zeros on the left. -/
def fromChars : List Char → Option Address
  | '0' :: 'x' :: digits =>
    if digits.length % 2 = 0 ∧ digits.length ≤ 64 then
      (Hex.decode digits).map (BitVec.ofNat 256)
    else none
  | _ => none

theorem fromChars_toChars (a : Address) : fromChars (toChars a) = some a := by
  have hlt : a.toNat < 16 ^ 64 := by
    have h := a.isLt
    norm_num at h ⊢
    exact h
  simp only [fromChars, toChars, Hex.length_encode, Hex.decode_encode, Nat.mod_eq_of_lt hlt]
  simp

theorem colon_not_mem_toChars (a : Address) : ':' ∉ toChars a := by
  simp [toChars, Hex.colon_not_mem_encode]

end Address

inductive Ty where
  | bool
  | u64
  | address
  | str
  | struct (name : String)
  | tuple (types : List Ty)

namespace Ty

mutual
def beq : Ty → Ty → Bool
  | .bool, .bool => true
  | .u64, .u64 => true
  | .address, .address => true
  | .str, .str => true
  | .struct n, .struct m => n == m
  | .tuple ts, .tuple us => beqList ts us
  | _, _ => false

def beqList : List Ty → List Ty → Bool
  | [], [] => true
  | t :: ts, u :: us => beq t u && beqList ts us
  | _, _ => false
end

mutual
theorem beq_iff : ∀ t u : Ty, beq t u = true ↔ t = u
  | .tuple ts, .tuple us => by simpa [beq] using beqList_iff ts us
  | .bool, u | .u64, u | .address, u | .str, u => by cases u <;> simp [beq]
  | .struct n, u => by cases u <;> simp [beq]
  | .tuple _, .bool | .tuple _, .u64 | .tuple _, .address | .tuple _, .str
  | .tuple _, .struct _ => by simp [beq]

theorem beqList_iff : ∀ ts us : List Ty, beqList ts us = true ↔ ts = us
  | [], us => by cases us <;> simp [beqList]
  | _ :: _, [] => by simp [beqList]
  | t :: ts, u :: us => by simp [beqList, beq_iff t u, beqList_iff ts us]
end

instance : DecidableEq Ty := fun t u => decidable_of_iff _ (beq_iff t u)

mutual
def name : Ty → String
  | .bool => "bool"
  | .u64 => "u64"
  | .address => "address"
  | .str => "string"
  | .struct n => n
  | .tuple types => "(" ++ String.intercalate ", " (names types) ++ ")"

def names : List Ty → List String
  | [] => []
  | t :: ts => name t :: names ts
end

def isPrimitive : Ty → Bool
  | .bool | .u64 | .address | .str => true
  | _ => false

def isValidFieldType : Ty → Bool
  | .struct _ => true
  | t => isPrimitive t

mutual
def isLinear : Ty → Bool
  | .struct _ => true
  | .tuple types => anyLinear types
  | _ => false

def anyLinear : List Ty → Bool
  | [] => false
  | t :: ts => isLinear t || anyLinear ts
end

end Ty

inductive Value (τ : Type) where
  | bool (b : Bool)
  | u64 (n : UInt64)
  | address (a : Address)
  | str (s : String)
  | void
  | struct (label : τ) (typeName : String) (fields : List (String × Value τ))
  | tuple (elements : List (Value τ))

namespace Value

variable {τ σ : Type}

def typeName : Value τ → String
  | .bool _ => "bool"
  | .u64 _ => "u64"
  | .address _ => "address"
  | .str _ => "str"
  | .void => "void"
  | .struct _ name _ => name
  | .tuple _ => "tuple"

/-- The value of the first field called `name`. -/
def lookup (name : String) (fields : List (String × Value τ)) : Option (Value τ) :=
  (fields.find? (·.1 == name)).map (·.2)

def field (name : String) : Value τ → Option (Value τ)
  | .struct _ _ fields => lookup name fields
  | _ => none

mutual
def isLinear : Value τ → Bool
  | .struct _ _ _ => true
  | .tuple elements => anyLinear elements
  | _ => false

def anyLinear : List (Value τ) → Bool
  | [] => false
  | v :: vs => isLinear v || anyLinear vs
end

theorem anyLinear_eq_any (vs : List (Value τ)) : anyLinear vs = vs.any isLinear := by
  induction vs with
  | nil => rfl
  | cons v vs ih => simp [anyLinear, ih]

-- Equality as the machine sees it: labels are not compared.
mutual
def beq : Value τ → Value τ → Bool
  | .bool a, .bool b => a == b
  | .u64 a, .u64 b => a == b
  | .address a, .address b => a == b
  | .str a, .str b => a == b
  | .void, .void => true
  | .struct _ n fs, .struct _ m gs => n == m && beqFields fs gs
  | .tuple vs, .tuple ws => beqList vs ws
  | _, _ => false

def beqList : List (Value τ) → List (Value τ) → Bool
  | [], [] => true
  | v :: vs, w :: ws => beq v w && beqList vs ws
  | _, _ => false

def beqFields : List (String × Value τ) → List (String × Value τ) → Bool
  | [], [] => true
  | (n, v) :: fs, (m, w) :: gs => n == m && beq v w && beqFields fs gs
  | _, _ => false
end

mutual
def map (f : τ → σ) : Value τ → Value σ
  | .bool b => .bool b
  | .u64 n => .u64 n
  | .address a => .address a
  | .str s => .str s
  | .void => .void
  | .struct l n fs => .struct (f l) n (mapFields f fs)
  | .tuple vs => .tuple (mapList f vs)

def mapList (f : τ → σ) : List (Value τ) → List (Value σ)
  | [] => []
  | v :: vs => map f v :: mapList f vs

def mapFields (f : τ → σ) : List (String × Value τ) → List (String × Value σ)
  | [] => []
  | (n, v) :: fs => (n, map f v) :: mapFields f fs
end

abbrev erase (v : Value τ) : Value Unit := map (fun _ => ()) v

-- Every label of a value, nested ones included.
mutual
def labels : Value τ → List τ
  | .struct l _ fs => l :: labelsFields fs
  | .tuple vs => labelsList vs
  | _ => []

def labelsList : List (Value τ) → List τ
  | [] => []
  | v :: vs => labels v ++ labelsList vs

def labelsFields : List (String × Value τ) → List τ
  | [] => []
  | (_, v) :: fs => labels v ++ labelsFields fs
end

-- Give every struct of an unlabelled value its own label, drawn from `tok` in order from `n`;
-- the second component is the next number not yet used.
mutual
def label (tok : ℕ → τ) (n : ℕ) : Value Unit → Value τ × ℕ
  | .bool b => (.bool b, n)
  | .u64 i => (.u64 i, n)
  | .address a => (.address a, n)
  | .str s => (.str s, n)
  | .void => (.void, n)
  | .struct _ name fs =>
    let r := labelFields tok (n + 1) fs
    (.struct (tok n) name r.1, r.2)
  | .tuple vs =>
    let r := labelList tok n vs
    (.tuple r.1, r.2)

def labelList (tok : ℕ → τ) (n : ℕ) : List (Value Unit) → List (Value τ) × ℕ
  | [] => ([], n)
  | v :: vs =>
    let r := label tok n v
    let rs := labelList tok r.2 vs
    (r.1 :: rs.1, rs.2)

def labelFields (tok : ℕ → τ) (n : ℕ) : List (String × Value Unit) → List (String × Value τ) × ℕ
  | [] => ([], n)
  | (name, v) :: fs =>
    let r := label tok n v
    let rs := labelFields tok r.2 fs
    ((name, r.1) :: rs.1, rs.2)
end

end Value

/-! ## Labels of unlabelled values -/

section Labels

variable {τ : Type}

mutual
theorem erase_label (tok : ℕ → τ) : ∀ (n : ℕ) (v : Value Unit), (v.label tok n).1.erase = v
  | _, .bool _ | _, .u64 _ | _, .address _ | _, .str _ | _, .void => rfl
  | n, .struct _ name fields => by
    simp [Value.label, Value.map, erase_labelFields tok (n + 1) fields]
  | n, .tuple vs => by simp [Value.label, Value.map, erase_labelList tok n vs]

theorem erase_labelList (tok : ℕ → τ) : ∀ (n : ℕ) (vs : List (Value Unit)),
    Value.mapList (fun _ => ()) (Value.labelList tok n vs).1 = vs
  | _, [] => rfl
  | n, v :: vs => by
    simp only [Value.labelList, Value.mapList, erase_labelList tok _ vs]
    rw [show Value.map (fun _ => ()) (v.label tok n).1 = v from erase_label tok n v]

theorem erase_labelFields (tok : ℕ → τ) : ∀ (n : ℕ) (fs : List (String × Value Unit)),
    Value.mapFields (fun _ => ()) (Value.labelFields tok n fs).1 = fs
  | _, [] => rfl
  | n, (name, v) :: fs => by
    simp only [Value.labelFields, Value.mapFields, erase_labelFields tok _ fs]
    rw [show Value.map (fun _ => ()) (v.label tok n).1 = v from erase_label tok n v]
end

mutual
theorem erase_unit : ∀ v : Value Unit, v.erase = v
  | .bool _ | .u64 _ | .address _ | .str _ | .void => rfl
  | .struct _ _ fields => by rw [Value.erase, Value.map, eraseFields_unit fields]
  | .tuple vs => by rw [Value.erase, Value.map, eraseList_unit vs]

theorem eraseList_unit : ∀ vs : List (Value Unit), Value.mapList (fun _ => ()) vs = vs
  | [] => rfl
  | v :: vs => by
    have hv : Value.map (fun _ => ()) v = v := erase_unit v
    rw [Value.mapList, hv, eraseList_unit vs]

theorem eraseFields_unit : ∀ fields : List (String × Value Unit),
    Value.mapFields (fun _ => ()) fields = fields
  | [] => rfl
  | (_, v) :: fields => by
    have hv : Value.map (fun _ => ()) v = v := erase_unit v
    rw [Value.mapFields, hv, eraseFields_unit fields]
end

theorem label_unit {tok : ℕ → Unit} (v : Value Unit) (n : ℕ) : (v.label tok n).1 = v :=
  (erase_unit _).symm.trans (erase_label tok n v)

theorem labelList_unit {tok : ℕ → Unit} (vs : List (Value Unit)) (n : ℕ) :
    (Value.labelList tok n vs).1 = vs :=
  (eraseList_unit _).symm.trans (erase_labelList tok n vs)

end Labels

structure FieldDef where
  name : String
  ty : Ty
  deriving DecidableEq

structure StructDef where
  name : String
  fields : List FieldDef
  isPublic : Bool
  deriving DecidableEq

inductive Instruction where
  | pushBool (b : Bool)
  | pushU64 (n : UInt64)
  | pushAddress (a : Address)
  | pushStr (s : String)
  | load (slot : ℕ)
  | store (slot : ℕ)
  | loadField (slot : ℕ) (path : List String)
  | storeField (slot : ℕ) (path : List String)
  | add
  | sub
  | mul
  | div
  | mod
  | eq
  | ne
  | lt
  | le
  | gt
  | ge
  | not
  | and
  | or
  | newStruct (typeName : String) (fieldNames : List String)
  | getField (name : String)
  | unpackStruct (typeName : String) (fieldNames : List String)
  | pop
  | dup
  | jump (offset : ℤ)
  | jumpIf (offset : ℤ)
  | jumpIfNot (offset : ℤ)
  | call (name : String)
  | ret
  | makeTuple (n : ℕ)
  | unpackTuple (n : ℕ)
  deriving DecidableEq

def Instruction.jumpOffset : Instruction → Option ℤ
  | .jump offset | .jumpIf offset | .jumpIfNot offset => some offset
  | _ => none

structure Function where
  name : String
  isPublic : Bool
  params : List (String × Ty)
  returnType : Option Ty
  localCount : ℕ
  code : List Instruction
  deriving DecidableEq

structure Module where
  name : String
  imports : List Address
  structs : List StructDef
  functions : List Function
  deriving DecidableEq

namespace Module

def getStruct (m : Module) (name : String) : Option StructDef :=
  m.structs.find? (·.name == name)

def getFunction (m : Module) (name : String) : Option Function :=
  m.functions.find? (·.name == name)

end Module
end MeowChain
