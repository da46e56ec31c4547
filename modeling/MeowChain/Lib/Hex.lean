import Mathlib.Data.List.Induction
import Mathlib.Tactic.IntervalCases
import Mathlib.Tactic.Ring

/-!
# Fixed-width hexadecimal

`encode width n` writes the low `width` nibbles of `n`, most significant first, in lower case;
`decode` reads digits of either case.
-/

set_option autoImplicit false

namespace MeowChain.Hex

def digit (n : Nat) : Char :=
  if n < 10 then Char.ofNat (48 + n) else Char.ofNat (87 + n)

def value? (c : Char) : Option Nat :=
  if '0' ≤ c ∧ c ≤ '9' then some (c.toNat - 48)
  else if 'a' ≤ c ∧ c ≤ 'f' then some (c.toNat - 87)
  else if 'A' ≤ c ∧ c ≤ 'F' then some (c.toNat - 55)
  else none

def encode : Nat → Nat → List Char
  | 0, _ => []
  | width + 1, n => encode width (n / 16) ++ [digit (n % 16)]

def decodeFrom (acc : Nat) : List Char → Option Nat
  | [] => some acc
  | c :: cs =>
    match value? c with
    | none => none
    | some d => decodeFrom (acc * 16 + d) cs

def decode (cs : List Char) : Option Nat :=
  decodeFrom 0 cs

theorem value?_digit {n : Nat} (h : n < 16) : value? (digit n) = some n := by
  interval_cases n <;> decide

theorem digit_ne_colon {n : Nat} (h : n < 16) : digit n ≠ ':' := by
  interval_cases n <;> decide

@[simp] theorem length_encode (width n : Nat) : (encode width n).length = width := by
  induction width generalizing n with
  | zero => rfl
  | succ width ih => simp [encode, ih]

theorem colon_not_mem_encode (width n : Nat) : ':' ∉ encode width n := by
  induction width generalizing n with
  | zero => simp [encode]
  | succ width ih =>
    have hdigit := digit_ne_colon (Nat.mod_lt n (by decide : 16 > 0))
    simp [encode, ih, hdigit.symm]

theorem decodeFrom_append (acc : Nat) (xs ys : List Char) :
    decodeFrom acc (xs ++ ys) = (decodeFrom acc xs).bind (decodeFrom · ys) := by
  induction xs generalizing acc with
  | nil => rfl
  | cons c cs ih =>
    simp only [List.cons_append, decodeFrom]
    cases value? c with
    | none => rfl
    | some d => exact ih _

theorem decodeFrom_encode (width n acc : Nat) :
    decodeFrom acc (encode width n) = some (acc * 16 ^ width + n % 16 ^ width) := by
  induction width generalizing n acc with
  | zero => simp [encode, decodeFrom, Nat.mod_one]
  | succ width ih =>
    have hvalue := value?_digit (Nat.mod_lt n (by decide : 16 > 0))
    have hsplit : n % 16 ^ (width + 1) = (n / 16 % 16 ^ width) * 16 + n % 16 := by
      rw [pow_succ, Nat.mul_comm, Nat.mod_mul]
      ring
    simp only [encode, decodeFrom_append, ih, Option.bind_some, decodeFrom, hvalue, hsplit]
    congr 1
    ring

theorem decode_encode (width n : Nat) : decode (encode width n) = some (n % 16 ^ width) := by
  simp [decode, decodeFrom_encode]

def isLower (c : Char) : Bool :=
  ('0' ≤ c && c ≤ '9') || ('a' ≤ c && c ≤ 'f')

theorem isLower_digit {n : Nat} (h : n < 16) : isLower (digit n) = true := by
  interval_cases n <;> decide

theorem all_isLower_encode (width n : Nat) : (encode width n).all isLower = true := by
  induction width generalizing n with
  | zero => rfl
  | succ width ih =>
    simp [encode, ih, isLower_digit (Nat.mod_lt n (by decide : 16 > 0))]

theorem digit_of_value? {c : Char} {d : Nat} (hc : isLower c = true) (h : value? c = some d) :
    d < 16 ∧ digit d = c := by
  have hnat : Char.ofNat c.toNat = c := Char.ofNat_toNat c
  simp only [isLower, Bool.or_eq_true, Bool.and_eq_true, decide_eq_true_eq] at hc
  rcases hc with ⟨hlow, hhigh⟩ | ⟨hlow, hhigh⟩
  · have h48 : 48 ≤ c.toNat := hlow
    have h57 : c.toNat ≤ 57 := hhigh
    rw [value?, if_pos ⟨hlow, hhigh⟩] at h
    obtain rfl := Option.some.inj h
    refine ⟨by omega, ?_⟩
    rw [digit, if_pos (by omega), show 48 + (c.toNat - 48) = c.toNat by omega, hnat]
  · have h97 : 97 ≤ c.toNat := hlow
    have h102 : c.toNat ≤ 102 := hhigh
    have hnot : ¬ ('0' ≤ c ∧ c ≤ '9') := by
      rintro ⟨-, hle⟩
      have h57 : c.toNat ≤ 57 := hle
      omega
    rw [value?, if_neg hnot, if_pos ⟨hlow, hhigh⟩] at h
    obtain rfl := Option.some.inj h
    refine ⟨by omega, ?_⟩
    rw [digit, if_neg (by omega), show 87 + (c.toNat - 87) = c.toNat by omega, hnat]

theorem encode_of_decode {cs : List Char} {n : Nat} (hlower : cs.all isLower = true)
    (h : decode cs = some n) : encode cs.length n = cs ∧ n < 16 ^ cs.length := by
  induction cs using List.reverseRecOn generalizing n with
  | nil =>
    obtain rfl := Option.some.inj h
    exact ⟨rfl, by decide⟩
  | append_singleton cs c ih =>
    rw [List.all_append, Bool.and_eq_true] at hlower
    rw [decode, decodeFrom_append] at h
    obtain ⟨m, hm, hc⟩ := Option.bind_eq_some_iff.mp h
    cases hvalue : value? c with
    | none => simp [decodeFrom, hvalue] at hc
    | some d =>
      obtain rfl : m * 16 + d = n := by simpa [decodeFrom, hvalue] using hc
      obtain ⟨hback, hlt⟩ := ih hlower.1 hm
      obtain ⟨hd, hdigit⟩ := digit_of_value? (by simpa using hlower.2) hvalue
      rw [List.length_append, List.length_singleton, encode, pow_succ]
      refine ⟨?_, by omega⟩
      rw [show (m * 16 + d) / 16 = m by omega, show (m * 16 + d) % 16 = d by omega, hback, hdigit]

end MeowChain.Hex
