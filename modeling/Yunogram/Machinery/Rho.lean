import Mathlib

/-!
# Machinery/Rho — Pollard's search for a divisor

A walk `x, x² + c, …` modulo `n` is followed, and each place on it is compared with the one at the
last power of two before (`anchor`).  What the difference shares with `n` (`share`) is one, or a
divisor of `n` — at best a proper one.

An attempt goes on until something is shared, for so many steps at most (`Ends`); there is one way
for it to end (`Ends.unique`). -/

namespace Machinery.Rho

/-- One step of the walk. -/
def step (n c v : ℕ) : ℕ := (v * v + c) % n

/-- The place after `j` steps from `x`. -/
def walk (n c x j : ℕ) : ℕ := (step n c)^[j] x

/-- The last power of two before `j`, or the start of the walk. -/
def anchor : ℕ → ℕ
  | 0 => 0
  | j + 1 => if j.isPowerOfTwo then j else anchor j

/-- What the place after `j` steps and its anchor have in common with `n`. -/
def share (n c x j : ℕ) : ℕ := Int.gcd ((walk n c x j : ℤ) - walk n c x (anchor j)) n

/-- An attempt of `most` steps at most ends with its step `j`, where `d` is shared. -/
structure Ends (n c x most j d : ℕ) : Prop where
  pos : 0 < j
  le : j ≤ most
  share : share n c x j = d
  before : ∀ k, 0 < k → k < j → Rho.share n c x k = 1
  last : d ≠ 1 ∨ j = most

variable {n c x : ℕ}

@[simp] theorem walk_zero : walk n c x 0 = x := rfl

theorem walk_succ (j : ℕ) : walk n c x (j + 1) = (walk n c x j * walk n c x j + c) % n :=
  Function.iterate_succ_apply' (step n c) j x

/-- The walk stays below `n`. -/
theorem walk_lt (hx : x < n) (j : ℕ) : walk n c x j < n := by
  cases j with
  | zero => exact hx
  | succ j =>
    rw [walk_succ]
    exact Nat.mod_lt _ (by omega)

theorem share_dvd (j : ℕ) : share n c x j ∣ n := Int.natCast_dvd_natCast.1 (Int.gcd_dvd_right ..)

variable {most j d : ℕ}

theorem Ends.dvd (h : Ends n c x most j d) : d ∣ n := h.share ▸ share_dvd j

/-- Of two ends none is the earlier one. -/
theorem Ends.not_before {j' d' : ℕ} (h : Ends n c x most j d) (h' : Ends n c x most j' d') :
    ¬j < j' := by
  intro hlt
  have hone := h'.before j h.pos hlt
  rw [h.share] at hone
  rcases h.last with hd | hlast
  · exact hd hone
  · have hle := h'.le
    omega

/-- **An attempt ends in one way.** -/
theorem Ends.unique {j' d' : ℕ} (h : Ends n c x most j d) (h' : Ends n c x most j' d') :
    j = j' ∧ d = d' := by
  obtain rfl : j = j' := Nat.le_antisymm (not_lt.1 (h'.not_before h)) (not_lt.1 (h.not_before h'))
  exact ⟨rfl, h.share.symm.trans h'.share⟩

end Machinery.Rho
