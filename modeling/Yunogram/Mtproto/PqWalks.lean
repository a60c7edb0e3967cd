import Mathlib
import Yunogram.Machinery.Rho
import Yunogram.Mtproto.PqFactorization

/-!
# Mtproto/PqWalks — what the loops of the factorization compute

Each loop ends within its rounds, with no sum and no difference wrapped around: the greatest common
divisor (`gcd_eq`), the multiplication (`mulAdd_eq`), and a walk, which ends as an attempt of
Pollard's search does (`follow_ends`). -/

open Machinery

namespace Yunogram.Mtproto.PqFactorization

theorem add_eq {a b : ℕ} (h : a + b < 2 ^ 64) : add a b = some (a + b) := if_pos h

theorem sub_eq {a b : ℕ} (h : b ≤ a) : sub a b = some (a - b) := if_pos h

/-! ## The greatest common divisor -/

theorem gcd_half {a m : ℕ} (ha : a % 2 = 0) (hm : m % 2 = 1) :
    Nat.gcd (a / 2) m = Nat.gcd a m := by
  have htwo : Nat.Coprime 2 m := Nat.coprime_two_left.2 (Nat.odd_iff.2 hm)
  have hdouble : 2 * (a / 2) = a := by omega
  rw [← htwo.gcd_mul_left_cancel (a / 2), hdouble]

/-- A number without its twos: it is odd, and shares with odd numbers what was shared before. -/
structure IsOddPart (a part : ℕ) : Prop where
  odd : part % 2 = 1
  le : part ≤ a
  half : a % 2 = 0 → 2 * part ≤ a
  self : a % 2 = 1 → part = a
  gcd : ∀ m, m % 2 = 1 → Nat.gcd part m = Nat.gcd a m

theorem IsOddPart.pos {a part : ℕ} (h : IsOddPart a part) : 0 < part := by
  have := h.odd
  omega

theorem stripped_eq {rounds a : ℕ} (hpos : 0 < a) (hlt : a < 2 ^ rounds) :
    ∃ part, stripped rounds a = some part ∧ IsOddPart a part := by
  induction rounds generalizing a with
  | zero =>
    rw [pow_zero] at hlt
    omega
  | succ rounds ih =>
    rw [stripped, Nat.and_one_is_mod, Nat.shiftRight_one]
    rw [pow_succ] at hlt
    split_ifs with heven
    · obtain ⟨part, heq, hpart⟩ := @ih (a / 2) (by omega) (by omega)
      have hle := hpart.le
      exact ⟨part, heq, hpart.odd, by omega, fun _ => by omega, fun hodd => by omega,
        fun m hm => (hpart.gcd m hm).trans (gcd_half heven hm)⟩
    · exact ⟨a, rfl, by omega, le_rfl, fun h => absurd h heven, fun _ => rfl, fun _ _ => rfl⟩

/-- The shared twos, taken away and counted. -/
theorem shared_eq {rounds a b : ℕ} (shift : ℕ) (ha : 0 < a) (hb : 0 < b) (hlt : a < 2 ^ rounds) :
    ∃ a' b' shift', shared rounds a b shift = some (a', b', shift') ∧
      (0 < a' ∧ a' ≤ a) ∧ (0 < b' ∧ b' ≤ b) ∧ (a' % 2 = 1 ∨ b' % 2 = 1) ∧
      Nat.gcd a' b' * 2 ^ shift' = Nat.gcd a b * 2 ^ shift := by
  induction rounds generalizing a b shift with
  | zero =>
    rw [pow_zero] at hlt
    omega
  | succ rounds ih =>
    rw [shared, Nat.and_one_is_mod, Nat.and_one_is_mod, Nat.shiftRight_one, Nat.shiftRight_one]
    rw [pow_succ] at hlt
    split_ifs with heven
    · obtain ⟨a', b', shift', heq, ha', hb', hodd, hgcd⟩ :=
        @ih (a / 2) (b / 2) (shift + 1) (by omega) (by omega) (by omega)
      refine ⟨a', b', shift', heq, by omega, by omega, hodd, ?_⟩
      have hdouble : Nat.gcd a b = 2 * Nat.gcd (a / 2) (b / 2) := by
        rw [← Nat.gcd_mul_left]
        congr 1 <;> omega
      rw [hgcd, hdouble, pow_succ]
      ring
    · exact ⟨a, b, shift, rfl, ⟨ha, le_rfl⟩, ⟨hb, le_rfl⟩, by omega, rfl⟩

/-- What is shared with the twos of one number taken away, the other being odd. -/
theorem IsOddPart.gcd_eq {a b a' b' : ℕ} (ha : IsOddPart a a') (hb : IsOddPart b b')
    (hodd : a % 2 = 1 ∨ b % 2 = 1) : Nat.gcd a' b' = Nat.gcd a b := by
  rcases hodd with hodd | hodd
  · rw [ha.self hodd, Nat.gcd_comm, hb.gcd a hodd, Nat.gcd_comm]
  · rw [hb.self hodd, ha.gcd b hodd]

/-- **The reduction ends with the divisor**: the product of the odd parts is halved each time. -/
theorem reduced_eq {rounds a b shift : ℕ} (ha : 0 < a ∧ a < 2 ^ 64) (hb : 0 < b ∧ b < 2 ^ 64)
    (hodd : a % 2 = 1 ∨ b % 2 = 1)
    (hproduct : ∀ a' b', IsOddPart a a' → IsOddPart b b' → a' * b' < 2 ^ rounds)
    (hfits : Nat.gcd a b * 2 ^ shift < 2 ^ 64) :
    reduced rounds a b shift = some (Nat.gcd a b * 2 ^ shift) := by
  induction rounds generalizing a b with
  | zero =>
    obtain ⟨a', -, hpa⟩ := stripped_eq ha.1 ha.2
    obtain ⟨b', -, hpb⟩ := stripped_eq hb.1 hb.2
    have hlt := hproduct a' b' hpa hpb
    have hpos := Nat.mul_pos hpa.pos hpb.pos
    rw [pow_zero] at hlt
    omega
  | succ rounds ih =>
    obtain ⟨a', ha', hpa⟩ := stripped_eq ha.1 ha.2
    obtain ⟨b', hb', hpb⟩ := stripped_eq hb.1 hb.2
    have hlt := hproduct a' b' hpa hpb
    have hle := hpa.le
    have hle' := hpb.le
    have hoa := hpa.odd
    have hob := hpb.odd
    rw [pow_succ] at hlt
    rw [← hpa.gcd_eq hpb hodd] at hfits ⊢
    rw [reduced, ha', hb']
    simp only [Option.bind_eq_bind, Option.bind_some]
    split_ifs with hab hba
    · have hgcd : Nat.gcd (a' - b') b' = Nat.gcd a' b' := Nat.gcd_sub_self_left hab.le
      rw [sub_eq hab.le, Option.bind_some, ih (by omega) (by omega) (by omega) ?_ (by rwa [hgcd]),
        hgcd]
      intro a'' b'' hpa' hpb'
      have hhalf := hpa'.half (by omega)
      have hself := hpb'.self hob
      subst hself
      have hmul : 2 * (a'' * b'') ≤ a' * b'' := by
        rw [← Nat.mul_assoc]
        exact Nat.mul_le_mul_right _ (by omega)
      omega
    · have hgcd : Nat.gcd a' (b' - a') = Nat.gcd a' b' := Nat.gcd_sub_self_right hba.le
      rw [sub_eq hba.le, Option.bind_some, ih (by omega) (by omega) (by omega) ?_ (by rwa [hgcd]),
        hgcd]
      intro a'' b'' hpa' hpb'
      have hhalf := hpb'.half (by omega)
      have hself := hpa'.self hoa
      subst hself
      have hmul : a'' * (2 * b'') ≤ a'' * b' := Nat.mul_le_mul_left _ (by omega)
      rw [Nat.mul_left_comm] at hmul
      omega
    · obtain rfl : a' = b' := by omega
      rw [Nat.gcd_self] at hfits ⊢
      rw [Nat.shiftLeft_eq, Nat.mod_eq_of_lt hfits]

/-- **The greatest common divisor.** -/
theorem gcd_eq {a b : ℕ} (ha : a < 2 ^ 64) (hb : b < 2 ^ 64) : gcd a b = some (Nat.gcd a b) := by
  rw [gcd]
  split_ifs with hza hzb
  · rw [hza, Nat.gcd_zero_left]
  · rw [hzb, Nat.gcd_zero_right]
  · obtain ⟨a', b', shift, heq, ha', hb', hodd, hgcd⟩ :=
      shared_eq 0 (Nat.pos_of_ne_zero hza) (Nat.pos_of_ne_zero hzb) ha
    rw [pow_zero, Nat.mul_one] at hgcd
    have hle := Nat.gcd_le_left b (Nat.pos_of_ne_zero hza)
    rw [heq, Option.bind_eq_bind, Option.bind_some, ← hgcd]
    refine reduced_eq (by omega) (by omega) hodd ?_ (by omega)
    intro a'' b'' hpa hpb
    calc a'' * b'' < 2 ^ 64 * 2 ^ 64 :=
          Nat.mul_lt_mul_of_lt_of_lt (hpa.le.trans_lt (by omega)) (hpb.le.trans_lt (by omega))
      _ = 2 ^ 128 := by norm_num

/-! ## The multiplication -/

/-- A sum modulo `pq`, with one subtraction at most. -/
theorem reduceOnce_eq {pq a b : ℕ} (ha : a < pq) (hb : b < pq) :
    reduceOnce pq (a + b) = some ((a + b) % pq) := by
  rw [reduceOnce]
  split_ifs with h
  · rw [sub_eq h, Nat.mod_eq_sub_mod h, Nat.mod_eq_of_lt (by omega)]
  · rw [Nat.mod_eq_of_lt (by omega)]

theorem addOdd_eq {pq a b c : ℕ} (hpq : pq ≤ 2 ^ 63) (ha : a < pq) (hc : c < pq) :
    addOdd pq a b c = some ((c + a * (b % 2)) % pq) := by
  rw [addOdd, Nat.and_one_is_mod]
  split_ifs with hodd
  · have hone : b % 2 = 1 := by omega
    rw [add_eq (show c + a < 2 ^ 64 by omega), hone, Nat.mul_one]
    exact reduceOnce_eq hc ha
  · have hzero : b % 2 = 0 := by omega
    rw [hzero, Nat.mul_zero, Nat.add_zero, Nat.mod_eq_of_lt hc]

/-- **The multiplication is one modulo `pq`.** -/
theorem mulAdd_eq {rounds pq a b c : ℕ} (hpq : pq ≤ 2 ^ 63) (ha : a < pq) (hc : c < pq)
    (hb : b < 2 ^ rounds) : mulAdd (rounds + 1) pq a b c = some ((c + a * b) % pq) := by
  induction rounds generalizing a b c with
  | zero =>
    obtain rfl : b = 0 := by
      rw [pow_zero] at hb
      omega
    rw [mulAdd, if_pos rfl, Nat.mul_zero, Nat.add_zero, Nat.mod_eq_of_lt hc]
  | succ rounds ih =>
    rw [mulAdd]
    split_ifs with hzero
    · rw [hzero, Nat.mul_zero, Nat.add_zero, Nat.mod_eq_of_lt hc]
    rw [pow_succ] at hb
    have hpos : 0 < pq := by omega
    rw [addOdd_eq hpq ha hc, Option.bind_eq_bind, Option.bind_some,
      add_eq (show a + a < 2 ^ 64 by omega), Option.bind_some, reduceOnce_eq ha ha,
      Option.bind_some, Nat.shiftRight_one,
      ih (Nat.mod_lt _ hpos) (Nat.mod_lt _ hpos) (by omega)]
    have hsum : c + a * b = c + a * (b % 2) + (a + a) * (b / 2) := by
      calc c + a * b = c + a * (b % 2 + 2 * (b / 2)) := by rw [Nat.mod_add_div]
        _ = c + a * (b % 2) + (a + a) * (b / 2) := by ring
    rw [hsum]
    simp [Nat.add_mod, Nat.mul_mod]

/-! ## A walk -/

/-- The difference shares with `pq` what the places on the walk do. -/
theorem difference_eq {pq x y : ℕ} (hpq : pq ≤ 2 ^ 63) (hx : x < pq) (hy : y < pq) :
    ∃ z, difference pq x y = some z ∧ z < 2 ^ 64 ∧
      Nat.gcd z pq = Int.gcd ((x : ℤ) - y) pq := by
  rw [difference]
  split_ifs with h
  · refine ⟨pq + x - y, ?_, by omega, ?_⟩
    · rw [add_eq (by omega), Option.bind_eq_bind, Option.bind_some, sub_eq (by omega)]
    · rw [← Int.gcd_natCast_natCast, Nat.cast_sub (by omega), Nat.cast_add,
        ← Int.gcd_add_self_left pq ((x : ℤ) - y)]
      congr 1
      ring
  · refine ⟨x - y, sub_eq (by omega), by omega, ?_⟩
    rw [← Int.gcd_natCast_natCast, Nat.cast_sub (by omega)]

/-- **A walk ends as an attempt does.**  Before step `j` the walk is at place `j - 1`, `y` is its
anchor, and nothing has been shared. -/
theorem follow_ends {pq q x₀ most : ℕ} (hpq : pq ≤ 2 ^ 63) (hx : x₀ < pq) (hq : q < pq)
    (hmost : 0 < most) {rounds j g start : ℕ} (hrounds : rounds + j = most)
    (hbefore : ∀ k, 0 < k → k < j + 1 → Rho.share pq q x₀ k = 1) (hg : 0 < j → g = 1) :
    ∃ i d, Rho.Ends pq q x₀ most i d ∧
      follow pq q rounds (j + 1) (Rho.walk pq q x₀ j) (Rho.walk pq q x₀ (Rho.anchor (j + 1))) g
        (start + j) = some (d, start + i) := by
  induction rounds generalizing j g with
  | zero =>
    obtain rfl : j = most := by omega
    rw [hg hmost]
    exact ⟨j, 1, ⟨hmost, le_rfl, hbefore j hmost (by omega), fun k hk hlt =>
      hbefore k hk (by omega), .inr rfl⟩, rfl⟩
  | succ rounds ih =>
    have hwalk := Rho.walk_lt (c := q) hx j
    obtain ⟨z, hz, hlt, hgcd⟩ := difference_eq hpq (Rho.walk_lt hx (j + 1))
      (Rho.walk_lt (c := q) hx (Rho.anchor (j + 1)))
    rw [follow, mulAdd_eq hpq hwalk hq (by omega), Nat.add_comm q, ← Rho.walk_succ,
      Option.bind_eq_bind, Option.bind_some, hz, Option.bind_some, gcd_eq hlt (by omega), hgcd,
      Option.bind_some]
    change ∃ i d, _ ∧ (if Rho.share pq q x₀ (j + 1) ≠ 1 then _ else _) = _
    by_cases hshare : Rho.share pq q x₀ (j + 1) = 1
    · have hanchor : Rho.walk pq q x₀ (Rho.anchor (j + 1 + 1))
          = if j + 1 &&& (j + 1 - 1) = 0 then Rho.walk pq q x₀ (j + 1)
            else Rho.walk pq q x₀ (Rho.anchor (j + 1)) := by
        rw [Rho.anchor, apply_ite (Rho.walk pq q x₀)]
        exact if_congr (Nat.and_sub_one_eq_zero_iff_isPowerOfTwo (by omega)).symm rfl rfl
      rw [if_neg (not_not.2 hshare), ← hanchor, Nat.add_assoc start]
      refine ih (by omega) (fun k hk hlt => ?_) fun _ => hshare
      rcases Nat.lt_succ_iff_lt_or_eq.1 hlt with hlt | rfl
      · exact hbefore k hk hlt
      · exact hshare
    · rw [if_pos hshare]
      exact ⟨j + 1, _, ⟨by omega, by omega, rfl, hbefore, .inl hshare⟩, rfl⟩

end Yunogram.Mtproto.PqFactorization
