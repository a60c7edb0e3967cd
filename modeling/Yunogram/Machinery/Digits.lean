import Mathlib
import Yunogram.Machinery.LittleEndian

/-!
# Machinery/Digits — digits of some bits read as bytes

A text of digits of `w` bits, the high one first, stands for the bits of its digits one after
another, and those are cut into bytes; bits that do not fill a byte are dropped (`bytesOfDigits`).
Hexadecimal digits are the case of `w = 4`, those of base 64 of `w = 6`.

A decoder keeps the bits that are not written yet (`Group`), puts the bits of each digit behind them
and writes a byte as soon as there are eight: `bytesOfDigits_eq` says that this is the reading
above. -/

namespace Machinery

/-- The number some digits of `w` bits stand for, the high one first. -/
def ofDigits (w : ℕ) (digits : List ℕ) : ℕ := Nat.ofDigits (2 ^ w) digits.reverse

/-- The bytes some digits of `w` bits stand for. -/
def bytesOfDigits (w : ℕ) (digits : List ℕ) : List UInt8 :=
  bigEndian (w * digits.length / 8) (ofDigits w digits >>> (w * digits.length % 8))

/-- What a decoder has written, and the bits it still keeps. -/
structure Group where
  out : List UInt8 := []
  buf : ℕ := 0
  nbits : ℕ := 0

/-- Put the bits of a digit behind the kept ones. -/
def Group.push (w : ℕ) (s : Group) (digit : ℕ) : Group :=
  let buf := s.buf <<< w ||| digit
  let nbits := s.nbits + w
  if 8 ≤ nbits then
    let nbits := nbits - 8
    ⟨s.out ++ [UInt8.ofNat (buf >>> nbits)], buf &&& (1 <<< nbits - 1), nbits⟩
  else
    ⟨s.out, buf, nbits⟩

variable {w digit : ℕ} {digits : List ℕ} {s : Group}

theorem ofDigits_concat (w : ℕ) (digits : List ℕ) (digit : ℕ) :
    ofDigits w (digits ++ [digit]) = digit + 2 ^ w * ofDigits w digits := by
  rw [ofDigits, List.reverse_concat, Nat.ofDigits_cons, ofDigits]

/-- **What was written and what is kept are the digits read so far.** -/
structure Group.Reads (w : ℕ) (digits : List ℕ) (s : Group) : Prop where
  nbits_lt : s.nbits < 8
  buf_lt : s.buf < 2 ^ s.nbits
  length : 8 * s.out.length + s.nbits = w * digits.length
  value : 2 ^ s.nbits * ofBigEndian s.out + s.buf = ofDigits w digits

theorem Group.Reads.nil (w : ℕ) : Group.Reads w [] {} where
  nbits_lt := by decide
  buf_lt := by decide
  length := by simp
  value := rfl

/-- A number cut in two: its high byte and the rest. -/
theorem shiftRight_mul_add_and (buf nbits : ℕ) :
    2 ^ nbits * (buf >>> nbits) + (buf &&& (1 <<< nbits - 1)) = buf := by
  rw [Nat.shiftLeft_eq, Nat.one_mul, Nat.and_two_pow_sub_one_eq_mod, Nat.shiftRight_eq_div_pow,
    Nat.div_add_mod]

theorem and_mask_lt (buf nbits : ℕ) : buf &&& (1 <<< nbits - 1) < 2 ^ nbits := by
  rw [Nat.shiftLeft_eq, Nat.one_mul, Nat.and_two_pow_sub_one_eq_mod]
  exact Nat.mod_lt _ (Nat.two_pow_pos nbits)

/-- **A digit more.** -/
theorem Group.Reads.push (h : s.Reads w digits) (hw : w ≤ 8) (hdigit : digit < 2 ^ w) :
    (s.push w digit).Reads w (digits ++ [digit]) := by
  obtain ⟨hnbits, hbuf, hlength, hvalue⟩ := h
  set buf := s.buf <<< w ||| digit with hbuf'
  have hadd : buf = 2 ^ w * s.buf + digit := by
    rw [hbuf', ← Nat.shiftLeft_add_eq_or_of_lt hdigit, Nat.shiftLeft_eq, Nat.mul_comm]
  have hlt : buf < 2 ^ (s.nbits + w) := by
    rw [hadd, pow_add]
    calc 2 ^ w * s.buf + digit < 2 ^ w * s.buf + 2 ^ w := by omega
      _ = 2 ^ w * (s.buf + 1) := by ring
      _ ≤ 2 ^ w * 2 ^ s.nbits := Nat.mul_le_mul_left _ hbuf
      _ = 2 ^ s.nbits * 2 ^ w := Nat.mul_comm _ _
  have htotal : 2 ^ (s.nbits + w) * ofBigEndian s.out + buf =
      ofDigits w (digits ++ [digit]) := by
    rw [ofDigits_concat, ← hvalue, hadd, pow_add]
    ring
  rw [Group.push]
  dsimp only
  split_ifs with height
  · obtain ⟨rest, hrest⟩ := Nat.exists_eq_add_of_le height
    have hhigh : buf >>> rest < 256 := by
      rw [Nat.shiftRight_eq_div_pow]
      refine Nat.div_lt_of_lt_mul ?_
      rwa [hrest, Nat.add_comm, pow_add] at hlt
    have hcut := shiftRight_mul_add_and buf rest
    rw [hrest, Nat.add_sub_cancel_left]
    refine ⟨by dsimp only; omega, ?_, ?_, ?_⟩
    · exact and_mask_lt buf rest
    · simp only [List.length_append, List.length_singleton, Nat.mul_add, Nat.mul_one]
      omega
    · dsimp only
      rw [ofBigEndian_concat, UInt8.toNat_ofNat', Nat.mod_eq_of_lt hhigh, ← htotal, hrest]
      calc 2 ^ rest * (256 * ofBigEndian s.out + buf >>> rest) + (buf &&& (1 <<< rest - 1))
          = 2 ^ (8 + rest) * ofBigEndian s.out +
              (2 ^ rest * (buf >>> rest) + (buf &&& (1 <<< rest - 1))) := by rw [pow_add]; ring
        _ = 2 ^ (8 + rest) * ofBigEndian s.out + buf := by rw [hcut]
  · refine ⟨by dsimp only; omega, hlt, ?_, htotal⟩
    simp only [List.length_append, List.length_singleton, Nat.mul_add, Nat.mul_one]
    omega

/-- …and all of them. -/
theorem Group.Reads.foldl (hw : w ≤ 8) (hdigits : ∀ digit ∈ digits, digit < 2 ^ w) :
    (digits.foldl (Group.push w) {}).Reads w digits := by
  induction digits using List.reverseRecOn with
  | nil => exact Group.Reads.nil w
  | append_singleton digits digit ih =>
    rw [List.foldl_append]
    exact (ih fun d hd => hdigits d (List.mem_append_left _ hd)).push hw
      (hdigits digit (List.mem_append_right _ (List.mem_singleton_self digit)))

/-- Bytes are the bytes of the number they stand for, the high one first. -/
theorem bigEndian_ofBigEndian (bytes : List UInt8) :
    bigEndian bytes.length (ofBigEndian bytes) = bytes := by
  induction bytes using List.reverseRecOn with
  | nil => rfl
  | append_singleton bytes b ih =>
    have hb := b.toNat_lt
    have hhigh : (256 * ofBigEndian bytes + b.toNat) / 256 = ofBigEndian bytes := by omega
    have hlow : UInt8.ofNat (256 * ofBigEndian bytes + b.toNat) = b := by
      refine UInt8.toNat_inj.mp ?_
      rw [UInt8.toNat_ofNat']
      omega
    rw [List.length_append, List.length_singleton, ofBigEndian_concat, bigEndian, littleEndian,
      List.reverse_cons, hhigh, hlow, ← bigEndian, ih]

/-- The high byte and the others. -/
theorem ofBigEndian_cons (b : UInt8) (bytes : List UInt8) :
    ofBigEndian (b :: bytes) = b.toNat * 256 ^ bytes.length + ofBigEndian bytes := by
  induction bytes using List.reverseRecOn with
  | nil =>
    have hone := ofBigEndian_concat [] b
    rw [List.nil_append] at hone
    rw [hone, List.length_nil, pow_zero, Nat.mul_one]
    exact Nat.add_comm _ _
  | append_singleton bytes last ih =>
    rw [← List.cons_append, ofBigEndian_concat, ofBigEndian_concat, ih, List.length_append,
      List.length_singleton, pow_succ]
    ring

theorem ofBigEndian_lt (bytes : List UInt8) : ofBigEndian bytes < 256 ^ bytes.length := by
  induction bytes using List.reverseRecOn with
  | nil => exact Nat.one_pos
  | append_singleton bytes b ih =>
    have hb := b.toNat_lt
    rw [ofBigEndian_concat, List.length_append, List.length_singleton, pow_succ]
    omega

theorem Group.Reads.bytesOfDigits_eq (h : s.Reads w digits) : bytesOfDigits w digits = s.out := by
  obtain ⟨hnbits, hbuf, hlength, hvalue⟩ := h
  have hhigh : ofDigits w digits >>> s.nbits = ofBigEndian s.out := by
    rw [← hvalue, Nat.shiftRight_eq_div_pow, Nat.mul_add_div (Nat.two_pow_pos _),
      Nat.div_eq_of_lt hbuf, Nat.add_zero]
  rw [bytesOfDigits, ← hlength, show (8 * s.out.length + s.nbits) / 8 = s.out.length by omega,
    show (8 * s.out.length + s.nbits) % 8 = s.nbits by omega, hhigh, bigEndian_ofBigEndian]

/-- **The decoder writes the bytes the digits stand for.** -/
theorem bytesOfDigits_eq (hw : w ≤ 8) (hdigits : ∀ digit ∈ digits, digit < 2 ^ w) :
    bytesOfDigits w digits = (digits.foldl (Group.push w) {}).out :=
  (Group.Reads.foldl hw hdigits).bytesOfDigits_eq

@[simp] theorem length_bytesOfDigits (w : ℕ) (digits : List ℕ) :
    (bytesOfDigits w digits).length = w * digits.length / 8 := length_bigEndian _ _

/-- What was written before stays in front. -/
theorem Group.foldl_out (w : ℕ) (digits : List ℕ) (out : List UInt8) (buf nbits : ℕ) :
    (digits.foldl (Group.push w) ⟨out, buf, nbits⟩).out =
      out ++ (digits.foldl (Group.push w) ⟨[], buf, nbits⟩).out := by
  induction digits generalizing out buf nbits with
  | nil => exact (List.append_nil out).symm
  | cons digit digits ih =>
    rw [List.foldl_cons, List.foldl_cons, Group.push, Group.push]
    dsimp only
    split_ifs
    · rw [ih, ih ([] ++ _), List.append_assoc, List.nil_append]
    · rw [ih]

/-- Two digits of up to eight bits that fill a byte between them. -/
theorem Group.push_push {d0 d1 : ℕ} (hw : w < 8) (hbyte : 8 ≤ w + w) :
    (Group.push w (Group.push w {} d0) d1) =
      ⟨[UInt8.ofNat ((d0 <<< w ||| d1) >>> (w + w - 8))],
        (d0 <<< w ||| d1) &&& (1 <<< (w + w - 8) - 1), w + w - 8⟩ := by
  have hnot : ¬8 ≤ w := by omega
  simp only [Group.push, Nat.zero_add, Nat.zero_shiftLeft, Nat.zero_or, if_neg hnot, if_pos hbyte,
    List.nil_append]

/-- **The first byte is in the first two digits.** -/
theorem head?_bytesOfDigits {d0 d1 : ℕ} (hw : w < 8) (hbyte : 8 ≤ w + w)
    (hdigits : ∀ digit ∈ d0 :: d1 :: digits, digit < 2 ^ w) :
    (bytesOfDigits w (d0 :: d1 :: digits)).head? =
      some (UInt8.ofNat ((d0 <<< w ||| d1) >>> (w + w - 8))) := by
  rw [bytesOfDigits_eq (by omega) hdigits, List.foldl_cons, List.foldl_cons,
    Group.push_push hw hbyte, Group.foldl_out]
  rfl

/-- Two digits of four bits are a byte. -/
theorem bytesOfDigits_four {d0 d1 : ℕ} (hdigits : ∀ digit ∈ d0 :: d1 :: digits, digit < 2 ^ 4) :
    bytesOfDigits 4 (d0 :: d1 :: digits) =
      UInt8.ofNat (d0 * 16 + d1) :: bytesOfDigits 4 digits := by
  have hlow := hdigits d1 (List.mem_cons_of_mem _ List.mem_cons_self)
  have hrest : ∀ digit ∈ digits, digit < 2 ^ 4 := fun digit hdigit =>
    hdigits digit (List.mem_cons_of_mem _ (List.mem_cons_of_mem _ hdigit))
  have hvalue : d0 <<< 4 ||| d1 = d0 * 16 + d1 := by
    rw [← Nat.shiftLeft_add_eq_or_of_lt hlow, Nat.shiftLeft_eq]
  rw [bytesOfDigits_eq (by decide) hdigits, bytesOfDigits_eq (by decide) hrest, List.foldl_cons,
    List.foldl_cons, Group.push_push (by decide) (by decide), Group.foldl_out, hvalue]
  simp only [Nat.reduceAdd, Nat.sub_self, Nat.shiftRight_zero, Nat.shiftLeft_zero, Nat.and_zero,
    List.singleton_append]

end Machinery
