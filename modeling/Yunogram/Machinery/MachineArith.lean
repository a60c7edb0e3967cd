import Mathlib

/-!
# Machinery/MachineArith — expressions of machine numbers, and when they wrap around

An expression of unsigned numbers has two values: the one of the numbers themselves, and the one
that a machine computes, which takes each step modulo a power of two.  `Fits` says of an expression
that no step of it wraps around, and then the two are the same (`wrapped_eq`). -/

namespace Machinery

/-- An expression of unsigned numbers. -/
inductive MachineArith
  | val (n : ℕ)
  | add (a b : MachineArith)
  | sub (a b : MachineArith)
  | mul (a b : MachineArith)
  | div (a b : MachineArith)
  deriving DecidableEq

namespace MachineArith

instance : Coe ℕ MachineArith := ⟨val⟩
instance (n : ℕ) : OfNat MachineArith n := ⟨val n⟩
instance : Add MachineArith := ⟨add⟩
instance : Sub MachineArith := ⟨sub⟩
instance : Mul MachineArith := ⟨mul⟩
instance : Div MachineArith := ⟨div⟩

/-- The value of the numbers themselves. -/
def value : MachineArith → ℕ
  | val n => n
  | add a b => a.value + b.value
  | sub a b => a.value - b.value
  | mul a b => a.value * b.value
  | div a b => a.value / b.value

/-- The value that is computed with numbers of so many bits. -/
def wrapped (width : ℕ) : MachineArith → ℕ
  | val n => n % 2 ^ width
  | add a b => (a.wrapped width + b.wrapped width) % 2 ^ width
  | sub a b => (a.wrapped width + (2 ^ width - b.wrapped width)) % 2 ^ width
  | mul a b => a.wrapped width * b.wrapped width % 2 ^ width
  | div a b => a.wrapped width / b.wrapped width

/-- **No step wraps around.** -/
def Fits (width : ℕ) : MachineArith → Prop
  | val n => n < 2 ^ width
  | add a b => a.Fits width ∧ b.Fits width ∧ a.value + b.value < 2 ^ width
  | sub a b => a.Fits width ∧ b.Fits width ∧ b.value ≤ a.value
  | mul a b => a.Fits width ∧ b.Fits width ∧ a.value * b.value < 2 ^ width
  | div a b => a.Fits width ∧ b.Fits width

variable {width : ℕ} {a b : MachineArith}

@[simp] theorem value_coe (n : ℕ) : (n : MachineArith).value = n := rfl

@[simp] theorem value_ofNat (n : ℕ) : (OfNat.ofNat n : MachineArith).value = n := rfl

@[simp] theorem value_add : (a + b).value = a.value + b.value := rfl

@[simp] theorem value_sub : (a - b).value = a.value - b.value := rfl

@[simp] theorem value_mul : (a * b).value = a.value * b.value := rfl

@[simp] theorem value_div : (a / b).value = a.value / b.value := rfl

@[simp] theorem fits_coe {n : ℕ} : (n : MachineArith).Fits width ↔ n < 2 ^ width := Iff.rfl

@[simp] theorem fits_ofNat {n : ℕ} : (OfNat.ofNat n : MachineArith).Fits width ↔ n < 2 ^ width :=
  Iff.rfl

@[simp] theorem fits_add :
    (a + b).Fits width ↔ a.Fits width ∧ b.Fits width ∧ a.value + b.value < 2 ^ width := Iff.rfl

@[simp] theorem fits_sub :
    (a - b).Fits width ↔ a.Fits width ∧ b.Fits width ∧ b.value ≤ a.value := Iff.rfl

@[simp] theorem fits_mul :
    (a * b).Fits width ↔ a.Fits width ∧ b.Fits width ∧ a.value * b.value < 2 ^ width := Iff.rfl

@[simp] theorem fits_div : (a / b).Fits width ↔ a.Fits width ∧ b.Fits width := Iff.rfl

/-- What does not wrap around is a machine number. -/
theorem Fits.value_lt {e : MachineArith} (h : e.Fits width) : e.value < 2 ^ width := by
  induction e with
  | val n => exact h
  | add a b => exact h.2.2
  | sub a b iha => exact (Nat.sub_le _ _).trans_lt (iha h.1)
  | mul a b => exact h.2.2
  | div a b iha => exact (Nat.div_le_self _ _).trans_lt (iha h.1)

/-- **What does not wrap around is computed right.** -/
theorem wrapped_eq {e : MachineArith} (h : e.Fits width) : e.wrapped width = e.value := by
  induction e with
  | val n => exact Nat.mod_eq_of_lt h
  | add a b iha ihb =>
    rw [wrapped, iha h.1, ihb h.2.1]
    exact Nat.mod_eq_of_lt h.2.2
  | sub a b iha ihb =>
    have ha := h.1.value_lt
    have hle : b.value ≤ a.value := h.2.2
    rw [wrapped, iha h.1, ihb h.2.1, value]
    have hsum : a.value + (2 ^ width - b.value) = a.value - b.value + 2 ^ width := by omega
    rw [hsum, Nat.add_mod_right]
    exact Nat.mod_eq_of_lt (by omega)
  | mul a b iha ihb =>
    rw [wrapped, iha h.1, ihb h.2.1]
    exact Nat.mod_eq_of_lt h.2.2
  | div a b iha ihb =>
    rw [wrapped, iha h.1, ihb h.2]
    rfl

end MachineArith

end Machinery
