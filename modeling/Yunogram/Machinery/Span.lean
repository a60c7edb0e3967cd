import Mathlib

/-!
# Machinery/Span — parts of a buffer, read and overwritten

A buffer is a list of fixed length.  `slice l pos n` is the view of `n` cells from `pos`;
`overwrite l pos c` is the buffer after `c` was written from `pos` on.  A view outside the written
part still reads what it read, and a view that ends where the writing began now reads on into it.

Code that checks its contracts runs in `Except Fault`: `expects`, `subspan` and `copy` stop it where a
contract is broken.
-/

namespace Machinery

variable {α : Type*}

/-- The `n` cells from `pos`. -/
def slice (l : List α) (pos n : ℕ) : List α := (l.drop pos).take n

/-- The buffer with `c` written from `pos` on. -/
def overwrite (l : List α) (pos : ℕ) (c : List α) : List α :=
  l.take pos ++ c ++ l.drop (pos + c.length)

variable {l c : List α} {pos pos' n n' : ℕ}

theorem length_slice (h : pos + n ≤ l.length) : (slice l pos n).length = n := by
  rw [slice, List.length_take, List.length_drop]
  omega

@[simp] theorem slice_zero : slice l pos 0 = [] := List.take_zero

theorem length_overwrite (h : pos + c.length ≤ l.length) :
    (overwrite l pos c).length = l.length := by
  simp only [overwrite, List.length_append, List.length_take, List.length_drop]
  omega

/-- A view that reaches the end. -/
theorem slice_to_end : slice l pos (l.length - pos) = l.drop pos := by
  rw [slice, List.take_of_length_le (by rw [List.length_drop])]

/-- A view of what lies behind a position. -/
theorem slice_drop : slice (l.drop pos) pos' n = slice l (pos + pos') n := by
  rw [slice, slice, List.drop_drop]

/-- The part of a view after its first `n'` cells. -/
theorem drop_slice : (slice l pos n).drop n' = slice l (pos + n') (n - n') := by
  rw [slice, slice, List.drop_take, List.drop_drop]

theorem take_slice (h : n' ≤ n) : (slice l pos n).take n' = slice l pos n' := by
  rw [slice, slice, List.take_take, min_eq_left h]

/-- **A view that ends where the writing begins reads on into what was written.** -/
theorem slice_overwrite_append (h : pos + n + c.length ≤ l.length) :
    slice (overwrite l (pos + n) c) pos (n + c.length) = slice l pos n ++ c := by
  have hlen : (l.take (pos + n)).length = pos + n := by
    rw [List.length_take]
    omega
  rw [overwrite, slice, slice, List.append_assoc,
    List.drop_append_of_le_length (by omega), List.take_append, List.drop_take,
    List.length_take, List.length_drop, min_eq_left (by omega), List.take_of_length_le
      (by rw [List.length_take, List.length_drop]; omega)]
  rw [show pos + n - pos = n by omega, show n + c.length - n = c.length by omega,
    List.take_append_of_le_length (le_refl _), List.take_length]

/-- **What was written at the start is read there.** -/
theorem slice_overwrite_start : slice (overwrite l 0 c) 0 c.length = c := by
  simp [slice, overwrite]

/-- What lies behind the written part stays. -/
theorem drop_overwrite_start : (overwrite l 0 c).drop c.length = l.drop c.length := by
  rw [overwrite, List.take_zero, List.nil_append, Nat.zero_add, List.drop_left]

/-- **A view behind the written part reads what it read.** -/
theorem slice_overwrite_behind (h : c.length ≤ pos) :
    slice (overwrite l 0 c) pos n = slice l pos n := by
  rw [slice, slice, overwrite, List.take_zero, List.nil_append, List.drop_append,
    List.drop_eq_nil_of_le h, List.nil_append, List.drop_drop]
  congr 2
  omega

/-- A view apart from what is written reads what it read. -/
theorem slice_overwrite_apart (hfit : pos' + c.length ≤ l.length)
    (h : pos' + c.length ≤ pos ∨ pos + n ≤ pos') :
    slice (overwrite l pos' c) pos n = slice l pos n := by
  have htake : (l.take pos').length = pos' := by
    rw [List.length_take]
    omega
  have hfront : (l.take pos' ++ c).length = pos' + c.length := by
    rw [List.length_append, htake]
  rw [slice, slice, overwrite]
  rcases h with h | h
  · obtain ⟨k, rfl⟩ := Nat.exists_eq_add_of_le h
    rw [List.drop_append, List.drop_eq_nil_of_le (by omega), List.nil_append, hfront,
      Nat.add_sub_cancel_left, List.drop_drop]
  · rw [List.append_assoc, List.drop_append_of_le_length (by omega),
      List.take_append_of_le_length (by rw [List.length_drop]; omega), List.drop_take,
      List.take_take, min_eq_left (by omega)]

/-- **What was written is read.** -/
theorem slice_overwrite (hfit : pos + c.length ≤ l.length) :
    slice (overwrite l pos c) pos c.length = c := by
  have htake : (l.take pos).length = pos := by
    rw [List.length_take]
    omega
  rw [slice, overwrite, List.append_assoc, List.drop_left' htake, List.take_left]

/-- A view behind a part of the buffer. -/
theorem slice_append (a b : List α) : slice (a ++ b) (a.length + pos) n = slice b pos n := by
  rw [slice, slice, List.drop_append, List.drop_eq_nil_of_le (by omega), List.nil_append,
    Nat.add_sub_cancel_left]

/-- …and what is written there. -/
theorem overwrite_append (a b c : List α) :
    overwrite (a ++ b) (a.length + pos) c = a ++ overwrite b pos c := by
  rw [overwrite, overwrite, List.take_append, List.take_of_length_le (by omega),
    Nat.add_sub_cancel_left, Nat.add_assoc, List.drop_append, List.drop_eq_nil_of_le (by omega),
    List.nil_append, Nat.add_sub_cancel_left, List.append_assoc, List.append_assoc,
    List.append_assoc]

/-- Writing into what was written. -/
theorem overwrite_overwrite {k : ℕ} {x : List α} (hfit : pos + c.length ≤ l.length)
    (h : k + x.length ≤ c.length) :
    overwrite (overwrite l pos c) (pos + k) x = overwrite l pos (overwrite c k x) := by
  have htake : (l.take pos).length = pos := by
    rw [List.length_take]
    omega
  have happ : overwrite (l.take pos ++ (c ++ l.drop (pos + c.length)))
      ((l.take pos).length + k) x = l.take pos ++ overwrite (c ++ l.drop (pos + c.length)) k x :=
    overwrite_append (l.take pos) (c ++ l.drop (pos + c.length)) x
  rw [htake, ← List.append_assoc] at happ
  have hlength : (overwrite c k x).length = c.length := length_overwrite h
  have hinner : overwrite (c ++ l.drop (pos + c.length)) k x =
      overwrite c k x ++ l.drop (pos + c.length) := by
    rw [overwrite, overwrite, List.take_append_of_le_length (by omega),
      List.drop_append_of_le_length h, List.append_assoc _ (c.drop _)]
  have hl : overwrite l pos c = l.take pos ++ c ++ l.drop (pos + c.length) := rfl
  rw [hl, happ, hinner, ← List.append_assoc, ← hlength]
  rfl

/-! ## Checked operations -/

/-- A broken contract. -/
inductive Fault
  | assertion
  | outOfBounds
  deriving DecidableEq

/-- Go on only when the contract is met. -/
def expects (p : Prop) [Decidable p] : Except Fault Unit :=
  if p then .ok () else .error .assertion

/-- The view of `n` cells from `pos`, which must lie in the buffer. -/
def subspan (l : List α) (pos n : ℕ) : Except Fault (List α) :=
  if pos + n ≤ l.length then .ok (slice l pos n) else .error .outOfBounds

/-- Write `c` at the start of a buffer, where it must fit. -/
def copy (l c : List α) : Except Fault (List α) :=
  if c.length ≤ l.length then .ok (overwrite l 0 c) else .error .outOfBounds

theorem expects_ok {p : Prop} [Decidable p] (h : p) : expects p = .ok () := if_pos h

theorem subspan_ok (h : pos + n ≤ l.length) : subspan l pos n = .ok (slice l pos n) := if_pos h

/-- A view that was taken lies in the buffer. -/
theorem subspan_spec {inner : List α} (h : subspan l pos n = .ok inner) :
    inner = slice l pos n ∧ pos + n ≤ l.length := by
  rw [subspan] at h
  split_ifs at h with hfit
  exact ⟨(Except.ok.inj h).symm, hfit⟩

theorem copy_ok (h : c.length ≤ l.length) : copy l c = .ok (overwrite l 0 c) := if_pos h

@[simp] theorem ok_bind.{u} {ε : Type*} {β γ : Type u} (b : β) (f : β → Except ε γ) :
    (Except.ok b >>= f) = f b := rfl

/-- **A computation that succeeds succeeds in both halves.** -/
theorem bind_ok.{u} {ε : Type*} {β γ : Type u} {x : Except ε β} {f : β → Except ε γ} {c : γ}
    (h : (x >>= f) = .ok c) : ∃ b, x = .ok b ∧ f b = .ok c := by
  cases x with
  | error e => exact nomatch h
  | ok b => exact ⟨b, rfl, h⟩

end Machinery
