import Mathlib

/-!
# Machinery/LittleEndian — numbers as bytes, the low one first

`littleEndian width n` has `width` bytes and `ofLittleEndian` reads them back; on `width` bytes and on
numbers below `256 ^ width` the two are inverse to each other.  `ofBigEndian` reads bytes the high
one first.
-/

namespace Machinery

/-- The `width` bytes of a number. -/
def littleEndian : ℕ → ℕ → List UInt8
  | 0, _ => []
  | width + 1, n => UInt8.ofNat n :: littleEndian width (n / 256)

/-- The number some bytes stand for. -/
def ofLittleEndian : List UInt8 → ℕ
  | [] => 0
  | b :: bytes => b.toNat + 256 * ofLittleEndian bytes

@[simp] theorem length_littleEndian (width n : ℕ) : (littleEndian width n).length = width := by
  induction width generalizing n with
  | zero => rfl
  | succ width ih => rw [littleEndian, List.length_cons, ih]

theorem ofLittleEndian_lt (bytes : List UInt8) : ofLittleEndian bytes < 256 ^ bytes.length := by
  induction bytes with
  | nil => exact Nat.one_pos
  | cons b bytes ih =>
    have hb := b.toNat_lt
    rw [ofLittleEndian, List.length_cons, pow_succ]
    omega

theorem ofLittleEndian_append (low high : List UInt8) :
    ofLittleEndian (low ++ high) = ofLittleEndian low + 256 ^ low.length * ofLittleEndian high := by
  induction low with
  | nil => rw [List.nil_append, ofLittleEndian, List.length_nil, pow_zero, one_mul, zero_add]
  | cons b low ih =>
    rw [List.cons_append, ofLittleEndian, ofLittleEndian, ih, List.length_cons]
    ring

/-- **A number that fits is read back.** -/
theorem ofLittleEndian_littleEndian {width n : ℕ} (h : n < 256 ^ width) :
    ofLittleEndian (littleEndian width n) = n := by
  induction width generalizing n with
  | zero =>
    rw [pow_zero] at h
    rw [littleEndian, ofLittleEndian]
    omega
  | succ width ih =>
    rw [pow_succ] at h
    rw [littleEndian, ofLittleEndian, ih (by omega), UInt8.toNat_ofNat']
    omega

/-- **Bytes are the bytes of the number they stand for.** -/
theorem littleEndian_ofLittleEndian (bytes : List UInt8) :
    littleEndian bytes.length (ofLittleEndian bytes) = bytes := by
  induction bytes with
  | nil => rfl
  | cons b bytes ih =>
    have hb := b.toNat_lt
    have hhigh : (b.toNat + 256 * ofLittleEndian bytes) / 256 = ofLittleEndian bytes := by omega
    have hlow : UInt8.ofNat (b.toNat + 256 * ofLittleEndian bytes) = b := by
      refine UInt8.toNat_inj.mp ?_
      rw [UInt8.toNat_ofNat']
      omega
    rw [List.length_cons, littleEndian, ofLittleEndian, hhigh, hlow, ih]

/-- **Bytes of one length are the bytes of a number that fits.** -/
theorem eq_littleEndian_iff {width n : ℕ} {bytes : List UInt8} :
    bytes.length = width ∧ ofLittleEndian bytes = n ↔
      n < 256 ^ width ∧ bytes = littleEndian width n := by
  constructor
  · rintro ⟨rfl, rfl⟩
    exact ⟨ofLittleEndian_lt bytes, (littleEndian_ofLittleEndian bytes).symm⟩
  · rintro ⟨h, rfl⟩
    exact ⟨length_littleEndian width n, ofLittleEndian_littleEndian h⟩

/-- Bits put above a number. -/
theorem or_shiftLeft {low k : ℕ} (h : low < 2 ^ k) (high : ℕ) :
    low ||| high <<< k = low + 2 ^ k * high := by
  rw [Nat.or_comm, ← Nat.shiftLeft_add_eq_or_of_lt h, Nat.shiftLeft_eq]
  ring

/-! ## The high byte first -/

/-- The number some bytes stand for, the high one first. -/
def ofBigEndian (bytes : List UInt8) : ℕ :=
  bytes.foldl (fun value byte => value <<< 8 ||| byte.toNat) 0

theorem ofBigEndian_concat (bytes : List UInt8) (b : UInt8) :
    ofBigEndian (bytes ++ [b]) = 256 * ofBigEndian bytes + b.toNat := by
  have hb : b.toNat < 2 ^ 8 := b.toNat_lt
  rw [ofBigEndian, List.foldl_append, List.foldl_cons, List.foldl_nil,
    ← Nat.shiftLeft_add_eq_or_of_lt hb, Nat.shiftLeft_eq, Nat.mul_comm, ofBigEndian]

/-- The `width` bytes of a number, the high one first. -/
def bigEndian (width n : ℕ) : List UInt8 := (littleEndian width n).reverse

@[simp] theorem length_bigEndian (width n : ℕ) : (bigEndian width n).length = width := by
  rw [bigEndian, List.length_reverse, length_littleEndian]

/-- **A number that fits is read back**, the high byte first. -/
theorem ofBigEndian_bigEndian {width n : ℕ} (h : n < 256 ^ width) :
    ofBigEndian (bigEndian width n) = n := by
  induction width generalizing n with
  | zero =>
    rw [pow_zero] at h
    obtain rfl : n = 0 := by omega
    rfl
  | succ width ih =>
    rw [pow_succ] at h
    rw [bigEndian, littleEndian, List.reverse_cons, ofBigEndian_concat, ← bigEndian,
      ih (by omega), UInt8.toNat_ofNat']
    omega

theorem ofBigEndian_three {n : ℕ} (h : n < 2 ^ 24) :
    ofBigEndian [UInt8.ofNat (n >>> 16), UInt8.ofNat (n >>> 8), UInt8.ofNat n] = n := by
  have hlow := ofBigEndian_concat [UInt8.ofNat (n >>> 16), UInt8.ofNat (n >>> 8)] (UInt8.ofNat n)
  have hmiddle := ofBigEndian_concat [UInt8.ofNat (n >>> 16)] (UInt8.ofNat (n >>> 8))
  have hhigh := ofBigEndian_concat [] (UInt8.ofNat (n >>> 16))
  have hnil : ofBigEndian [] = 0 := rfl
  simp only [List.cons_append, List.nil_append, UInt8.toNat_ofNat'] at hlow hmiddle hhigh
  omega

theorem ofBigEndian_four {n : ℕ} (h : n < 2 ^ 32) :
    ofBigEndian [UInt8.ofNat (n >>> 24), UInt8.ofNat (n >>> 16), UInt8.ofNat (n >>> 8),
      UInt8.ofNat n] = n := by
  have hlow := ofBigEndian_concat
    [UInt8.ofNat (n >>> 24), UInt8.ofNat (n >>> 16), UInt8.ofNat (n >>> 8)] (UInt8.ofNat n)
  have hthree := ofBigEndian_three (n := n >>> 8) (by omega)
  rw [← Nat.shiftRight_add, ← Nat.shiftRight_add] at hthree
  rw [List.cons_append, List.cons_append, List.cons_append, List.nil_append, hthree,
    UInt8.toNat_ofNat'] at hlow
  omega

end Machinery
