import Mathlib.Tactic.Common
import Mathlib.Tactic.Linarith
import Mathlib.Tactic.Positivity
import Mathlib.Tactic.Ring
import Mathlib.Data.Nat.ModEq

namespace SubstratePoc.Lib

/-- The low `k` bytes of `n`, most significant first. -/
def beBytes : ℕ → ℕ → List UInt8
  | 0, _ => []
  | k + 1, n => UInt8.ofNat (n / 256 ^ k) :: beBytes k n

/-- The number whose big-endian digits these are, after the digits already read. -/
def beNatFrom (acc : ℕ) : List UInt8 → ℕ
  | [] => acc
  | b :: bs => beNatFrom (acc * 256 + b.toNat) bs

def beNat (bs : List UInt8) : ℕ := beNatFrom 0 bs

@[simp] theorem length_beBytes (k n : ℕ) : (beBytes k n).length = k := by
  induction k with
  | zero => rfl
  | succ k ih => simp [beBytes, ih]

theorem beNatFrom_beBytes (k n acc : ℕ) :
    beNatFrom acc (beBytes k n) = acc * 256 ^ k + n % 256 ^ k := by
  induction k generalizing acc with
  | zero => simp [beBytes, beNatFrom, Nat.mod_one]
  | succ k ih =>
    -- the first digit is what `n % 256 ^ (k + 1)` has above the last `k` digits
    simp only [beBytes, beNatFrom, ih, UInt8.toNat_ofNat']
    have hmod : n % 256 ^ (k + 1) = 256 ^ k * (n / 256 ^ k % 256) + n % 256 ^ k := by
      rw [pow_succ, Nat.mod_mul, Nat.add_comm]
    rw [hmod]
    ring

theorem beNatFrom_eq (acc : ℕ) (bs : List UInt8) :
    beNatFrom acc bs = acc * 256 ^ bs.length + beNat bs := by
  unfold beNat
  induction bs generalizing acc with
  | nil => simp [beNatFrom]
  | cons b bs ih =>
    rw [beNatFrom, beNatFrom, ih, ih (0 * 256 + b.toNat), List.length_cons, pow_succ]
    ring

theorem beNat_lt (bs : List UInt8) : beNat bs < 256 ^ bs.length := by
  induction bs with
  | nil => exact Nat.one_pos
  | cons b bs ih =>
    have hb : b.toNat < 256 := b.toNat_lt
    rw [beNat, beNatFrom, beNatFrom_eq, List.length_cons, pow_succ]
    nlinarith

theorem beBytes_add (k m n : ℕ) : beBytes k (m * 256 ^ k + n) = beBytes k n := by
  induction k generalizing m n with
  | zero => rfl
  | succ k ih =>
    have hsplit : m * 256 ^ (k + 1) + n = m * 256 * 256 ^ k + n := by ring
    rw [beBytes, beBytes, hsplit, ih, Nat.mul_comm (m * 256), Nat.mul_add_div (by positivity)]
    congr 1
    rw [UInt8.ofNat_add]
    simp [UInt8.ofNat_mul]

theorem beBytes_beNat (bs : List UInt8) : beBytes bs.length (beNat bs) = bs := by
  induction bs with
  | nil => rfl
  | cons b bs ih =>
    have hlt := beNat_lt bs
    rw [beNat, beNatFrom, beNatFrom_eq, Nat.zero_mul, Nat.zero_add, List.length_cons, beBytes,
      beBytes_add, ih, Nat.mul_comm, Nat.mul_add_div (by positivity), Nat.div_eq_of_lt hlt]
    simp

theorem beNat_beBytes {k n : ℕ} (h : n < 256 ^ k) : beNat (beBytes k n) = n := by
  rw [beNat, beNatFrom_beBytes, Nat.zero_mul, Nat.zero_add, Nat.mod_eq_of_lt h]

theorem uint64_beNat_beBytes (v : UInt64) : UInt64.ofNat (beNat (beBytes 8 v.toNat)) = v := by
  rw [beNat_beBytes v.toNat_lt, UInt64.ofNat_toNat]

theorem uint32_beNat_beBytes (v : UInt32) : UInt32.ofNat (beNat (beBytes 4 v.toNat)) = v := by
  rw [beNat_beBytes v.toNat_lt, UInt32.ofNat_toNat]

theorem beBytes_uint64_beNat {bs : List UInt8} (h : bs.length = 8) :
    beBytes 8 (UInt64.ofNat (beNat bs)).toNat = bs := by
  have hlt := beNat_lt bs
  rw [h] at hlt
  rw [UInt64.toNat_ofNat_of_lt' hlt, ← h, beBytes_beNat]

theorem beBytes_uint32_beNat {bs : List UInt8} (h : bs.length = 4) :
    beBytes 4 (UInt32.ofNat (beNat bs)).toNat = bs := by
  have hlt := beNat_lt bs
  rw [h] at hlt
  rw [UInt32.toNat_ofNat_of_lt' hlt, ← h, beBytes_beNat]

end SubstratePoc.Lib
