import Mathlib.Data.List.Induction
import Mathlib.Tactic.Ring

/-!
# Fixed-width big-endian bytes

`encode width n` writes the low `width` bytes of `n`, most significant first; `decode` reads a
byte string of any length.
-/

set_option autoImplicit false

namespace MeowChain.Bytes

def encode : Nat → Nat → List UInt8
  | 0, _ => []
  | width + 1, n => encode width (n / 256) ++ [UInt8.ofNat (n % 256)]

def decodeFrom (acc : Nat) : List UInt8 → Nat
  | [] => acc
  | b :: bs => decodeFrom (acc * 256 + b.toNat) bs

def decode (bs : List UInt8) : Nat :=
  decodeFrom 0 bs

@[simp] theorem length_encode (width n : Nat) : (encode width n).length = width := by
  induction width generalizing n with
  | zero => rfl
  | succ width ih => simp [encode, ih]

theorem decodeFrom_append (acc : Nat) (xs ys : List UInt8) :
    decodeFrom acc (xs ++ ys) = decodeFrom (decodeFrom acc xs) ys := by
  induction xs generalizing acc with
  | nil => rfl
  | cons b bs ih => exact ih _

theorem decodeFrom_encode (width n acc : Nat) :
    decodeFrom acc (encode width n) = acc * 256 ^ width + n % 256 ^ width := by
  induction width generalizing n acc with
  | zero => simp [encode, decodeFrom, Nat.mod_one]
  | succ width ih =>
    have hbyte : (UInt8.ofNat (n % 256)).toNat = n % 256 := by
      simp
    have hsplit : n % 256 ^ (width + 1) = (n / 256 % 256 ^ width) * 256 + n % 256 := by
      rw [pow_succ, Nat.mul_comm, Nat.mod_mul]
      ring
    simp only [encode, decodeFrom_append, ih, decodeFrom, hbyte, hsplit]
    ring

theorem decode_encode (width n : Nat) : decode (encode width n) = n % 256 ^ width := by
  simp [decode, decodeFrom_encode]

theorem decode_append_singleton (bs : List UInt8) (b : UInt8) :
    decode (bs ++ [b]) = decode bs * 256 + b.toNat := by
  rw [decode, decodeFrom_append]
  rfl

theorem decode_lt (bs : List UInt8) : decode bs < 256 ^ bs.length := by
  induction bs using List.reverseRecOn with
  | nil => exact Nat.one_pos
  | append_singleton bs b ih =>
    have hb := b.toNat_lt
    rw [decode_append_singleton, List.length_append, List.length_singleton, pow_succ]
    omega

theorem encode_decode (bs : List UInt8) : encode bs.length (decode bs) = bs := by
  induction bs using List.reverseRecOn with
  | nil => rfl
  | append_singleton bs b ih =>
    have hb := b.toNat_lt
    have hdiv : (decode bs * 256 + b.toNat) / 256 = decode bs := by omega
    have hmod : (decode bs * 256 + b.toNat) % 256 = b.toNat := by omega
    rw [decode_append_singleton, List.length_append, List.length_singleton, encode, hdiv, hmod, ih,
      UInt8.ofNat_toNat]

end MeowChain.Bytes
