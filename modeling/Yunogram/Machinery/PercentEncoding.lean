import Mathlib

/-!
# Machinery/PercentEncoding — bytes written with percent signs

A byte that is a letter, a digit or one of `-`, `.`, `_` and `~` is written as it is and any other
as a percent sign with two digits.  What is written can be read again (`decode_encode`) and has no
separator in it (`isWritten_of_mem_encode`).
-/

namespace Machinery.Percent

/-- The bytes that stand for themselves. -/
def isUnreserved (b : UInt8) : Bool :=
  (97 ≤ b && b ≤ 122) || (65 ≤ b && b ≤ 90) || (48 ≤ b && b ≤ 57) || b == 45 || b == 46 ||
    b == 95 || b == 126

/-- The hexadecimal digit of a number below sixteen. -/
def digit (n : ℕ) : UInt8 := UInt8.ofNat (if n < 10 then 48 + n else 55 + n)

/-- The bits of a hexadecimal digit; a byte that is none keeps its own. -/
def value (b : UInt8) : ℕ :=
  if 48 ≤ b ∧ b ≤ 57 then b.toNat - 48
  else if 97 ≤ b ∧ b ≤ 102 then b.toNat - 87
  else if 65 ≤ b ∧ b ≤ 70 then b.toNat - 55
  else b.toNat

/-- One byte, written. -/
def encodeByte (b : UInt8) : List UInt8 :=
  if isUnreserved b then [b] else [37, digit (b.toNat / 16), digit (b.toNat % 16)]

/-- `QByteArray::toPercentEncoding`. -/
def encode (bytes : List UInt8) : List UInt8 := bytes.flatMap encodeByte

/-- `QByteArray::fromPercentEncoding`. -/
def decode : List UInt8 → List UInt8
  | [] => []
  | b :: high :: low :: rest =>
    if b = 37 then UInt8.ofNat (value high * 16 ||| value low) :: decode rest
    else b :: decode (high :: low :: rest)
  | b :: rest => b :: decode rest

/-- The bytes that occur in what is written. -/
def IsWritten (b : UInt8) : Prop := isUnreserved b = true ∨ b = 37

instance (b : UInt8) : Decidable (IsWritten b) := inferInstanceAs (Decidable (_ ∨ _))

theorem digit_spec {n : ℕ} (hn : n < 16) : value (digit n) = n ∧ IsWritten (digit n) := by
  have hall : ∀ n : Fin 16, value (digit n.val) = n.val ∧ IsWritten (digit n.val) := by decide
  exact hall ⟨n, hn⟩

theorem decode_cons_of_ne {b : UInt8} (hb : b ≠ 37) (rest : List UInt8) :
    decode (b :: rest) = b :: decode rest := by
  match rest with
  | [] => rfl
  | [_] => rfl
  | _ :: _ :: _ => rw [decode, if_neg hb]

theorem decode_encodeByte (b : UInt8) (rest : List UInt8) :
    decode (encodeByte b ++ rest) = b :: decode rest := by
  have hb := b.toNat_lt
  rw [encodeByte]
  split_ifs with hplain
  · refine decode_cons_of_ne (fun heq => ?_) rest
    rw [heq] at hplain
    exact absurd hplain (by decide)
  · have hhigh := (digit_spec (n := b.toNat / 16) (by omega)).1
    have hlow := (digit_spec (n := b.toNat % 16) (by omega)).1
    have hbyte : b.toNat / 16 * 16 ||| b.toNat % 16 = b.toNat := by
      rw [show b.toNat / 16 * 16 = 2 ^ 4 * (b.toNat / 16) from Nat.mul_comm ..,
        ← Nat.two_pow_add_eq_or_of_lt (Nat.mod_lt _ (by decide))]
      omega
    simp only [List.cons_append, List.nil_append]
    rw [decode, if_pos rfl, hhigh, hlow, hbyte, UInt8.ofNat_toNat]

/-- **What is written is read again.** -/
theorem decode_encode (bytes : List UInt8) : decode (encode bytes) = bytes := by
  induction bytes with
  | nil => rfl
  | cons b bytes ih => rw [encode, List.flatMap_cons, decode_encodeByte, ← encode, ih]

/-- **Only unreserved bytes and percent signs are written.** -/
theorem isWritten_of_mem_encode {bytes : List UInt8} {b : UInt8} (hb : b ∈ encode bytes) :
    IsWritten b := by
  obtain ⟨c, -, hc⟩ := List.mem_flatMap.1 hb
  have hlt := c.toNat_lt
  rw [encodeByte] at hc
  split_ifs at hc with hplain
  · exact List.mem_singleton.1 hc ▸ Or.inl hplain
  · simp only [List.mem_cons, List.not_mem_nil, or_false] at hc
    rcases hc with rfl | rfl | rfl
    · exact Or.inr rfl
    · exact (digit_spec (by omega)).2
    · exact (digit_spec (Nat.mod_lt _ (by decide))).2

theorem IsWritten.lt {b : UInt8} (hb : IsWritten b) : b < 128 := by
  rcases hb with hplain | rfl
  · simp only [isUnreserved, Bool.or_eq_true, Bool.and_eq_true, decide_eq_true_eq, beq_iff_eq,
      UInt8.le_iff_toNat_le, ← UInt8.toNat_inj] at hplain
    rw [UInt8.lt_iff_toNat_lt]
    simp only [UInt8.reduceToNat] at hplain ⊢
    omega
  · decide

end Machinery.Percent
