import Mathlib
import Yunogram.Machinery.Digits
import Yunogram.Mtproto.PqWalks

/-!
# Mtproto/PqFactors — when the factors are the right ones

The random choices start one attempt after the other, at least three and as many as begin within a
thousand steps, until one meets a proper divisor (`Meets`).  `FactorizeSmallPQ` finds that divisor
or its cofactor; when none is met it answers one, which `FactorizePQ` takes for a factor.

The factors are written in four bytes each.  So they are right exactly when a divisor is met that
fits there, with its cofactor (`factors_right_iff`); those of a prime never are. -/

open Machinery

namespace Yunogram.Mtproto.PqFactorization

/-! ## Attempts -/

section

variable (pq : ℕ) (draws : Draws)

/-- What attempt `i` adds at each step. -/
def addend (i : ℕ) : ℕ := (17 + (draws i).1.val) % (pq - 1)

/-- Where attempt `i` starts. -/
def start (i : ℕ) : ℕ := (draws i).2.toNat % (pq - 1) + 1

/-- Attempt `i` ends with its step `j`, where `d` is shared. -/
def AttemptEnds (i j d : ℕ) : Prop :=
  Rho.Ends pq (addend pq draws i) (start pq draws i) (lim i - 1) j d

/-- A divisor that is neither one nor the number itself. -/
def IsProper (d : ℕ) : Prop := 1 < d ∧ d < pq

/-- Another attempt is due. -/
def IsDue (i iter : ℕ) : Prop := i < 3 ∨ iter < 1000

/-- The first `i` attempts were due and met no proper divisor; they took `iter` steps. -/
inductive Failed : ℕ → ℕ → Prop
  | none : Failed 0 0
  | more {i iter j d : ℕ} (before : Failed i iter) (due : IsDue i iter)
    (ends : AttemptEnds pq draws i j d) (fails : ¬IsProper pq d) : Failed (i + 1) (iter + j)

/-- **The random choices meet a proper divisor.** -/
def Meets (d : ℕ) : Prop :=
  ∃ i iter j, Failed pq draws i iter ∧ IsDue i iter ∧ AttemptEnds pq draws i j d ∧ IsProper pq d

end

variable {pq : ℕ} {draws : Draws}

theorem AttemptEnds.dvd {i j d : ℕ} (h : AttemptEnds pq draws i j d) : d ∣ pq := Rho.Ends.dvd h

theorem Failed.unique {i iter iter' : ℕ} (h : Failed pq draws i iter)
    (h' : Failed pq draws i iter') : iter = iter' := by
  induction h generalizing iter' with
  | none =>
    cases h'
    rfl
  | more before due ends fails ih =>
    cases h' with
    | more before' due' ends' fails' =>
      rw [ih before', (Rho.Ends.unique ends ends').1]

/-- An attempt before others was due, and failed. -/
theorem Failed.before {i iter k : ℕ} (h : Failed pq draws i iter) (hk : k < i) :
    ∃ iter' j d, Failed pq draws k iter' ∧ IsDue k iter' ∧ AttemptEnds pq draws k j d ∧
      ¬IsProper pq d := by
  induction h with
  | none => exact absurd hk (Nat.not_lt_zero k)
  | more before due ends fails ih =>
    rcases Nat.lt_succ_iff_lt_or_eq.1 hk with hk | rfl
    · exact ih hk
    · exact ⟨_, _, _, before, due, ends, fails⟩

/-- No attempt follows one that has met a divisor. -/
theorem Meets.not_failed {i j d i' iter' : ℕ} (hends : AttemptEnds pq draws i j d)
    (hproper : IsProper pq d) (h' : Failed pq draws i' iter') : ¬i < i' := by
  intro hlt
  obtain ⟨iter'', j', d', -, -, hends', hfails⟩ := h'.before hlt
  exact hfails ((Rho.Ends.unique hends hends').2 ▸ hproper)

/-- **One divisor is met at most.** -/
theorem Meets.unique {d d' : ℕ} (h : Meets pq draws d) (h' : Meets pq draws d') : d = d' := by
  obtain ⟨i, iter, j, hfailed, -, hends, hproper⟩ := h
  obtain ⟨i', iter', j', hfailed', -, hends', hproper'⟩ := h'
  obtain rfl : i = i' := Nat.le_antisymm
    (not_lt.1 (Meets.not_failed hends' hproper' hfailed))
    (not_lt.1 (Meets.not_failed hends hproper hfailed'))
  exact (Rho.Ends.unique hends hends').2

/-- When no more attempts are due, no divisor is met. -/
theorem Failed.not_meets {i iter : ℕ} (h : Failed pq draws i iter) (hdue : ¬IsDue i iter) (d : ℕ) :
    ¬Meets pq draws d := by
  rintro ⟨i', iter', j, hfailed, hdue', hends, hproper⟩
  rcases Nat.lt_trichotomy i i' with hlt | rfl | hlt
  · obtain ⟨iter'', j', d', hfailed', hdue'', -⟩ := hfailed.before hlt
    exact hdue (h.unique hfailed' ▸ hdue'')
  · exact hdue (h.unique hfailed ▸ hdue')
  · exact Meets.not_failed hends hproper h hlt

theorem Meets.dvd {d : ℕ} (h : Meets pq draws d) : d ∣ pq := by
  obtain ⟨i, iter, j, -, -, hends, -⟩ := h
  exact hends.dvd

theorem Meets.isProper {d : ℕ} (h : Meets pq draws d) : IsProper pq d := by
  obtain ⟨i, iter, j, -, -, -, hproper⟩ := h
  exact hproper

/-! ## The attempts of the code -/

theorem lim_pos (i : ℕ) : 0 < lim i - 1 := by
  have hle : 2 ^ 1 ≤ 2 ^ (min 5 i + 18) := Nat.pow_le_pow_right (by omega) (by omega)
  rw [lim, Nat.shiftLeft_eq]
  omega

/-- An attempt of the code. -/
theorem follow_attempt (hpq : 2 ≤ pq ∧ pq ≤ 2 ^ 63) (i iter g : ℕ) :
    ∃ j d, AttemptEnds pq draws i j d ∧
      follow pq (addend pq draws i) (lim i - 1) 1 (start pq draws i) (start pq draws i) g iter
        = some (d, iter + j) := by
  have hstart : start pq draws i < pq := by
    have := Nat.mod_lt (draws i).2.toNat (show 0 < pq - 1 by omega)
    rw [start]
    omega
  have haddend : addend pq draws i < pq := by
    have := Nat.mod_lt (17 + (draws i).1.val) (show 0 < pq - 1 by omega)
    rw [addend]
    omega
  exact follow_ends hpq.2 hstart haddend (lim_pos i) (Nat.add_zero _)
    (fun k hk hlt => absurd hlt (by omega)) fun h => absurd h (lt_irrefl 0)

theorem eq_of_not_isProper {g : ℕ} (hpq : 2 ≤ pq) (hdvd : g ∣ pq) (hproper : ¬IsProper pq g) :
    g = 1 ∨ g = pq := by
  have hpos := Nat.pos_of_dvd_of_pos hdvd (by omega)
  have hle := Nat.le_of_dvd (by omega) hdvd
  rw [IsProper] at hproper
  omega

/-- **The attempts end**, with the divisor that is met, or with one or the number itself when there
is none. -/
theorem attempts_eq (hpq : 2 ≤ pq ∧ pq ≤ 2 ^ 63) {rounds i iter g : ℕ}
    (hrounds : rounds + i = 1000) (hiter : i ≤ iter) (hfailed : Failed pq draws i iter)
    (hg : 0 < i → g ∣ pq ∧ ¬IsProper pq g) :
    ∃ d, attempts pq draws (rounds + 1) i iter g = some d ∧
      (Meets pq draws d ∨ ((∀ d, ¬Meets pq draws d) ∧ (d = 1 ∨ d = pq))) := by
  induction rounds generalizing i iter g with
  | zero =>
    have hdue : ¬(i < 3 ∨ iter < 1000) := by omega
    obtain ⟨hdvd, hproper⟩ := hg (by omega)
    rw [attempts, if_neg hdue]
    exact ⟨g, rfl, .inr ⟨hfailed.not_meets hdue, eq_of_not_isProper hpq.1 hdvd hproper⟩⟩
  | succ rounds ih =>
    rw [attempts]
    by_cases hdue : i < 3 ∨ iter < 1000
    · obtain ⟨j, d, hends, hfollow⟩ := @follow_attempt _ draws hpq i iter g
      have hrange := Nat.mod_lt (draws i).2.toNat (show 0 < pq - 1 by omega)
      rw [if_pos hdue, sub_eq (show 1 ≤ pq by omega), Option.bind_eq_bind, Option.bind_some,
        add_eq (by omega), Option.bind_some, ← start, ← addend, hfollow, Option.bind_eq_bind,
        Option.bind_some]
      dsimp only
      by_cases hproper : 1 < d ∧ d < pq
      · rw [if_pos hproper]
        exact ⟨d, rfl, .inl ⟨i, iter, j, hfailed, hdue, hends, hproper⟩⟩
      · rw [if_neg hproper]
        have hpos := hends.pos
        exact ih (by omega) (by omega) (hfailed.more hdue hends hproper) fun _ =>
          ⟨hends.dvd, hproper⟩
    · have hpos : 0 < i := by omega
      obtain ⟨hdvd, hproper⟩ := hg hpos
      rw [if_neg hdue]
      exact ⟨g, rfl, .inr ⟨hfailed.not_meets hdue, eq_of_not_isProper hpq.1 hdvd hproper⟩⟩

/-- **What `FactorizeSmallPQ` answers**: the smaller of the divisor met and its cofactor, or one. -/
theorem factorizeSmallPQ_eq (hpq : pq < 2 ^ 63) :
    ∃ p, factorizeSmallPQ pq draws = some p ∧
      ((∃ d, Meets pq draws d ∧ p = min d (pq / d)) ∨ ((∀ d, ¬Meets pq draws d) ∧ p = 1)) := by
  rw [factorizeSmallPQ, Nat.shiftLeft_eq, Nat.one_mul]
  by_cases hsmall : pq < 2
  · rw [if_pos (.inl hsmall)]
    refine ⟨1, rfl, .inr ⟨fun d hmeets => ?_, rfl⟩⟩
    have hproper := hmeets.isProper
    rw [IsProper] at hproper
    omega
  · obtain ⟨d, heq, hd⟩ := @attempts_eq pq draws (by omega) 1000 0 0 0 (Nat.add_zero 1000) le_rfl
      .none fun h => absurd h (lt_irrefl 0)
    rw [if_neg (by omega), heq, Option.bind_eq_bind, Option.bind_some]
    rcases hd with hmeets | ⟨hnone, hd⟩
    · have hproper := hmeets.isProper
      rw [IsProper] at hproper
      rw [if_pos (by omega)]
      refine ⟨_, rfl, .inl ⟨d, hmeets, ?_⟩⟩
      split_ifs <;> omega
    · refine ⟨1, ?_, .inr ⟨hnone, rfl⟩⟩
      rcases hd with rfl | rfl
      · rw [if_pos Nat.one_ne_zero, Nat.div_one]
        exact congrArg some (if_neg (by omega))
      · rw [if_pos (by omega), Nat.div_self (by omega)]
        exact congrArg some (if_pos (by omega))

/-! ## The answer -/

/-- The factors are the right ones, or there are none and `pqAnswered` fails. -/
def IsRight (pqStr : List UInt8) (parsed : ParsedPQ) : Prop :=
  pqAnswered parsed = .failed ∨
    (ofBigEndian parsed.p * ofBigEndian parsed.q = ofBigEndian pqStr ∧
      1 < ofBigEndian parsed.p ∧ ofBigEndian parsed.p ≤ ofBigEndian parsed.q)

/-- **A divisor is met that fits in four bytes, and so does its cofactor.** -/
def MeetsFitting (pq : ℕ) (draws : Draws) : Prop :=
  ∃ d, Meets pq draws d ∧ d < 2 ^ 32 ∧ pq / d < 2 ^ 32

/-- A divisor and its cofactor, the smaller one first. -/
theorem Meets.factors {d p : ℕ} (h : Meets pq draws d) (hp : p = min d (pq / d)) :
    p * (pq / p) = pq ∧ 1 < p ∧ p ≤ pq / p ∧
      (d < 2 ^ 32 ∧ pq / d < 2 ^ 32 ↔ p < 2 ^ 32 ∧ pq / p < 2 ^ 32) := by
  obtain ⟨e, he⟩ := h.dvd
  obtain ⟨hone, hlt⟩ := h.isProper
  have hdiv : pq / d = e := by rw [he, Nat.mul_div_cancel_left e (by omega)]
  have hdiv' : pq / e = d := by
    have hpos : 0 < e := Nat.pos_of_ne_zero fun h0 => by rw [h0, Nat.mul_zero] at he; omega
    rw [he, Nat.mul_div_cancel d hpos]
  have hcofactor : 1 < e := by
    by_contra hle
    have hmul : d * e ≤ d * 1 := Nat.mul_le_mul_left d (not_lt.1 hle)
    omega
  rw [hdiv] at hp ⊢
  rcases Nat.le_total d e with hle | hle
  · rw [Nat.min_eq_left hle] at hp
    subst hp
    rw [hdiv]
    exact ⟨he.symm, hone, hle, Iff.rfl⟩
  · rw [Nat.min_eq_right hle] at hp
    subst hp
    rw [hdiv', Nat.mul_comm]
    exact ⟨he.symm, hcofactor, hle, and_comm⟩

theorem and_high_bit {c : UInt8} (h : c.toNat < 128) : c &&& 128 = 0 := by
  refine UInt8.toNat_inj.1 ?_
  rw [UInt8.toNat_and]
  change c.toNat &&& 2 ^ 7 = 0
  rw [Nat.and_two_pow, Nat.testBit_lt_two_pow h]
  rfl

/-- A number of at most eight bytes and 63 bits is a small one. -/
theorem not_big {pqStr : List UInt8} (hsize : pqStr.length ≤ 8) (hpq : ofBigEndian pqStr < 2 ^ 63) :
    ¬(8 < pqStr.length ∨ (pqStr.length = 8 ∧ pqStr.headD 0 &&& 128 ≠ 0)) := by
  rintro (h | ⟨height, hbit⟩)
  · omega
  · cases pqStr with
    | nil => exact absurd height (by decide)
    | cons c rest =>
      refine hbit (and_high_bit (c := c) ?_)
      rw [List.length_cons] at height
      rw [ofBigEndian_cons, show rest.length = 7 by omega] at hpq
      omega

/-- Four bytes hold 32 bits. -/
theorem ofBigEndian_four_lt (n : ℕ) : ofBigEndian (bigEndian 4 n) < 2 ^ 32 := by
  have hlt := ofBigEndian_lt (bigEndian 4 n)
  rwa [length_bigEndian] at hlt

theorem pqAnswered_four (p q : ℕ) :
    pqAnswered ⟨bigEndian 4 p, bigEndian 4 q⟩ = .sent (bigEndian 4 p) (bigEndian 4 q) := rfl

/-- **`FactorizePQ` always has factors**, and no step of it wraps around. -/
theorem factorizePQ_eq (factorizeBigPQ : List UInt8 → ParsedPQ) (draws : Draws)
    {pqStr : List UInt8} (hsize : pqStr.length ≤ 8) (hpq : ofBigEndian pqStr < 2 ^ 63) :
    ∃ p, factorizePQ factorizeBigPQ draws pqStr
        = some ⟨bigEndian 4 p, bigEndian 4 (ofBigEndian pqStr / p)⟩ ∧
      ((∃ d, Meets (ofBigEndian pqStr) draws d ∧ p = min d (ofBigEndian pqStr / d)) ∨
        ((∀ d, ¬Meets (ofBigEndian pqStr) draws d) ∧ p = 1)) := by
  obtain ⟨p, heq, hp⟩ := @factorizeSmallPQ_eq _ draws hpq
  refine ⟨p, ?_, hp⟩
  rw [factorizePQ, if_neg (not_big hsize hpq)]
  dsimp only
  rw [heq, Option.bind_eq_bind, Option.bind_some]
  refine if_neg ?_
  rcases hp with ⟨d, hmeets, hmin⟩ | ⟨-, rfl⟩
  · obtain ⟨hmul, hone, -⟩ := hmeets.factors hmin
    have hmod : ofBigEndian pqStr % p = 0 := Nat.mod_eq_zero_of_dvd ⟨_, hmul.symm⟩
    omega
  · omega

/-- One is no right factor. -/
theorem not_isRight_one (pqStr : List UInt8) (q : ℕ) :
    ¬IsRight pqStr ⟨bigEndian 4 1, bigEndian 4 q⟩ := by
  rintro (hfailed | ⟨-, hone, -⟩)
  · exact nomatch hfailed
  · rw [ofBigEndian_bigEndian (show 1 < 256 ^ 4 by omega)] at hone
    exact lt_irrefl 1 hone

/-- A divisor that is met gives the right factors, if these fit. -/
theorem isRight_iff_of_meets {pqStr : List UInt8} {d p : ℕ} (hpq : ofBigEndian pqStr < 2 ^ 63)
    (hmeets : Meets (ofBigEndian pqStr) draws d) (hmin : p = min d (ofBigEndian pqStr / d)) :
    IsRight pqStr ⟨bigEndian 4 p, bigEndian 4 (ofBigEndian pqStr / p)⟩ ↔
      d < 2 ^ 32 ∧ ofBigEndian pqStr / d < 2 ^ 32 := by
  obtain ⟨hmul, hone, hle, hfits⟩ := hmeets.factors hmin
  have hsmall : p < 2 ^ 32 := by
    by_contra hbig
    have hsquare : 2 ^ 32 * 2 ^ 32 ≤ p * (ofBigEndian pqStr / p) :=
      Nat.mul_le_mul (not_lt.1 hbig) ((not_lt.1 hbig).trans hle)
    omega
  rw [hfits, IsRight, pqAnswered_four, ofBigEndian_bigEndian (show p < 256 ^ 4 from hsmall)]
  constructor
  · rintro (hfailed | ⟨hright, -, -⟩)
    · exact nomatch hfailed
    · have hq := ofBigEndian_four_lt (ofBigEndian pqStr / p)
      rw [Nat.eq_of_mul_eq_mul_left (by omega) (hright.trans hmul.symm)] at hq
      exact ⟨hsmall, hq⟩
  · rintro ⟨-, hq⟩
    rw [ofBigEndian_bigEndian (show ofBigEndian pqStr / p < 256 ^ 4 from hq)]
    exact .inr ⟨hmul, hone, hle⟩

/-- **The factors are right exactly when a divisor is met that fits.**  There are always factors,
and no step wraps around. -/
theorem factors_right_iff (factorizeBigPQ : List UInt8 → ParsedPQ) (draws : Draws)
    (pqStr : List UInt8) (hsize : pqStr.length ≤ 8) (hpq : ofBigEndian pqStr < 2 ^ 63) :
    ∃ parsed, factorizePQ factorizeBigPQ draws pqStr = some parsed ∧
      (IsRight pqStr parsed ↔ MeetsFitting (ofBigEndian pqStr) draws) := by
  obtain ⟨p, heq, hp⟩ := factorizePQ_eq factorizeBigPQ draws hsize hpq
  refine ⟨_, heq, ?_⟩
  rcases hp with ⟨d, hmeets, hmin⟩ | ⟨hnone, rfl⟩
  · rw [isRight_iff_of_meets hpq hmeets hmin]
    constructor
    · exact fun hfits => ⟨d, hmeets, hfits⟩
    · rintro ⟨d', hmeets', hfits⟩
      rwa [hmeets'.unique hmeets] at hfits
  · constructor
    · exact fun hright => absurd hright (not_isRight_one _ _)
    · rintro ⟨d, hmeets, -⟩
      exact absurd hmeets (hnone d)

theorem factors_right_iff_fifteen :
    ∃ parsed, factorizePQ (fun _ => {}) (fun _ => (0, 0)) [15] = some parsed ∧
      (IsRight [15] parsed ↔ MeetsFitting (ofBigEndian [15]) fun _ => (0, 0)) :=
  factors_right_iff _ _ [15] (by decide) (by decide)

/-- **The factors of a prime are never right**: the answer is one and the prime. -/
theorem factors_of_prime (factorizeBigPQ : List UInt8 → ParsedPQ) (draws : Draws)
    {pqStr : List UInt8} (hsize : pqStr.length ≤ 8) (hpq : ofBigEndian pqStr < 2 ^ 63)
    (hprime : (ofBigEndian pqStr).Prime) :
    ∃ parsed, factorizePQ factorizeBigPQ draws pqStr = some parsed ∧ ¬IsRight pqStr parsed := by
  obtain ⟨p, heq, hp⟩ := factorizePQ_eq factorizeBigPQ draws hsize hpq
  refine ⟨_, heq, ?_⟩
  rcases hp with ⟨d, hmeets, -⟩ | ⟨-, rfl⟩
  · obtain ⟨hone, hlt⟩ := hmeets.isProper
    rcases (Nat.dvd_prime hprime).1 hmeets.dvd with rfl | rfl
    · exact absurd hone (lt_irrefl 1)
    · exact absurd hlt (lt_irrefl _)
  · exact not_isRight_one _ _

/-- Seven is answered with one and seven. -/
theorem seven_not_right :
    ∃ parsed, factorizePQ (fun _ => {}) (fun _ => (0, 0)) [7] = some parsed ∧
      ¬IsRight [7] parsed :=
  factors_of_prime _ _ (by decide) (by decide) (by decide)

end Yunogram.Mtproto.PqFactorization
