import Mathlib
import Yunogram.Machinery.LittleEndian

/-!
# Mtproto/PqFactorization — two factors of the server's number

A server begins the creation of a key with a number `pq`, and `FactorizePQ` of
`mtproto_dc_key_creator.cpp` looks for the factors to answer with.  Numbers of at most 63 bits go
through `FactorizeSmallPQ`: walks modulo `pq`, squared step by step with additions only, and a
binary greatest common divisor.

Sums and differences of 64 bits are checked: where one would wrap around there is no value (`none`).
The loops of the source that end by themselves have rounds here, and no value when these run out. -/

open Machinery

namespace Yunogram.Mtproto.PqFactorization

/-- `ParsedPQ`. -/
structure ParsedPQ where
  p : List UInt8 := []
  q : List UInt8 := []
  deriving DecidableEq

/-- A sum of 64 bits. -/
def add (a b : ℕ) : Option ℕ := if a + b < 2 ^ 64 then some (a + b) else none

/-- A difference of 64 bits. -/
def sub (a b : ℕ) : Option ℕ := if b ≤ a then some (a - b) else none

/-! ## The greatest common divisor -/

/-- `while ((a & 1) == 0) a >>= 1`. -/
def stripped : ℕ → ℕ → Option ℕ
  | 0, _ => none
  | rounds + 1, a => if a &&& 1 = 0 then stripped rounds (a >>> 1) else some a

/-- `while ((a & 1) == 0 && (b & 1) == 0)`: the twos that `a` and `b` share. -/
def shared : ℕ → ℕ → ℕ → ℕ → Option (ℕ × ℕ × ℕ)
  | 0, _, _, _ => none
  | rounds + 1, a, b, shift =>
    if a &&& 1 = 0 ∧ b &&& 1 = 0 then
      shared rounds (a >>> 1) (b >>> 1) (shift + 1)
    else
      some (a, b, shift)

/-- `while (true)` of `gcd`. -/
def reduced : ℕ → ℕ → ℕ → ℕ → Option ℕ
  | 0, _, _, _ => none
  | rounds + 1, a, b, shift => do
    let a ← stripped 64 a
    let b ← stripped 64 b
    if b < a then
      let a ← sub a b
      reduced rounds a b shift
    else if a < b then
      let b ← sub b a
      reduced rounds a b shift
    else
      some ((a <<< shift) % 2 ^ 64)

/-- `gcd`. -/
def gcd (a b : ℕ) : Option ℕ :=
  if a = 0 then
    some b
  else if b = 0 then
    some a
  else do
    let (a, b, shift) ← shared 64 a b 0
    reduced 128 a b shift

/-! ## The walks -/

/-- `if (v >= pq) v -= pq`. -/
def reduceOnce (pq v : ℕ) : Option ℕ := if pq ≤ v then sub v pq else some v

/-- `if (b & 1) c += a`, modulo `pq`. -/
def addOdd (pq a b c : ℕ) : Option ℕ :=
  if b &&& 1 ≠ 0 then do
    let c ← add c a
    reduceOnce pq c
  else
    some c

/-- `while (b)`: `c += a * b`, modulo `pq`. -/
def mulAdd : ℕ → ℕ → ℕ → ℕ → ℕ → Option ℕ
  | 0, _, _, _, _ => none
  | rounds + 1, pq, a, b, c =>
    if b = 0 then
      some c
    else do
      let c ← addOdd pq a b c
      let a ← add a a
      let a ← reduceOnce pq a
      mulAdd rounds pq a (b >>> 1) c

/-- `x < y ? pq + x - y : x - y`. -/
def difference (pq x y : ℕ) : Option ℕ :=
  if x < y then do
    let sum ← add pq x
    sub sum y
  else
    sub x y

/-- `for (int j = 1; j < lim; j++)`, with so many rounds left: the last `g` and the new `iter`. -/
def follow (pq q : ℕ) : ℕ → ℕ → ℕ → ℕ → ℕ → ℕ → Option (ℕ × ℕ)
  | 0, _, _, _, g, iter => some (g, iter)
  | rounds + 1, j, x, y, _, iter => do
    let x ← mulAdd 65 pq x x q
    let z ← difference pq x y
    let g ← gcd z pq
    if g ≠ 1 then
      some (g, iter + 1)
    else
      follow pq q rounds (j + 1) x (if j &&& (j - 1) = 0 then x else y) g (iter + 1)

/-- The outcomes of `base::RandomIndex(16)` and `base::RandomValue<uint64>()`, one pair for each
attempt. -/
abbrev Draws := ℕ → Fin 16 × UInt64

/-- `lim` of an attempt. -/
def lim (i : ℕ) : ℕ := 1 <<< (min 5 i + 18)

/-- `for (int i = 0, iter = 0; i < 3 || iter < 1000; i++)`. -/
def attempts (pq : ℕ) (draws : Draws) : ℕ → ℕ → ℕ → ℕ → Option ℕ
  | 0, _, _, _ => none
  | rounds + 1, i, iter, g =>
    if i < 3 ∨ iter < 1000 then do
      let range ← sub pq 1
      let q := (17 + (draws i).1.val) % range
      let x ← add ((draws i).2.toNat % range) 1
      let (g, iter) ← follow pq q (lim i - 1) 1 x x g iter
      if 1 < g ∧ g < pq then
        some g
      else
        attempts pq draws rounds (i + 1) iter g
    else
      some g

/-- `FactorizeSmallPQ`. -/
def factorizeSmallPQ (pq : ℕ) (draws : Draws) : Option ℕ :=
  if pq < 2 ∨ 1 <<< 63 < pq then
    some 1
  else do
    let g ← attempts pq draws 1001 0 0 0
    if g ≠ 0 then
      let other := pq / g
      some (if other < g then other else g)
    else
      some g

/-! ## The answer -/

/-- `FactorizePQ`.  Numbers of more than 63 bits are left to `FactorizeBigPQ`. -/
def factorizePQ (factorizeBigPQ : List UInt8 → ParsedPQ) (draws : Draws) (pqStr : List UInt8) :
    Option ParsedPQ :=
  if 8 < pqStr.length ∨ (pqStr.length = 8 ∧ pqStr.headD 0 &&& 128 ≠ 0) then
    some (factorizeBigPQ pqStr)
  else do
    let pq := ofBigEndian pqStr
    let p ← factorizeSmallPQ pq draws
    if p = 0 ∨ pq % p ≠ 0 then
      some {}
    else
      let q := pq / p
      some { p := bigEndian 4 p, q := bigEndian 4 q }

/-- What `pqAnswered` does with the factors: it fails, or it sends them. -/
inductive Answer
  | failed
  | sent (p q : List UInt8)
  deriving DecidableEq

/-- The part of `DcKeyCreator::pqAnswered` that goes on with the factors. -/
def pqAnswered (parsed : ParsedPQ) : Answer :=
  if parsed.p.isEmpty || parsed.q.isEmpty then .failed else .sent parsed.p parsed.q

end Yunogram.Mtproto.PqFactorization
