import Yunogram.Machinery.Framing
import Yunogram.Machinery.Span

/-!
# Mtproto/TcpProtocol — the packet framings of the TCP transport

`TcpConnection::Protocol` of `mtproto/connection_tcp.cpp`: how the versions read the size of a packet
off the first received bytes.  `Version0` (and `Version1`, which only prepares keys differently)
counts 32-bit words in one byte or in three; `VersionD` has four bytes of length.

A size includes its own header.  The size that is read does not change when more bytes arrive, so
each version is a `Framing`.
-/

open Machinery

namespace Yunogram

namespace Mtproto

/-- The received bytes. -/
abbrev Bytes := List UInt8

/-- `kPacketSizeMax`. -/
def kPacketSizeMax : ℕ := 0x01000000 * 4

/-- The versions `Protocol::Create` chooses from. -/
inductive Protocol
  | version0
  | version1
  | versionD
  deriving DecidableEq

namespace Protocol

/-- `kUnknownSize`. -/
def kUnknownSize : ℤ := -1

/-- `kInvalidSize`. -/
def kInvalidSize : ℤ := -2

/-- `Version0::readPacketLength`. -/
def readPacketLength0 : Bytes → ℤ
  | [] => kUnknownSize
  | first :: rest =>
    if first = 0x7F then
      match rest with
      | b1 :: b2 :: b3 :: _ =>
        let ints := b1.toNat ||| b2.toNat <<< 8 ||| b3.toNat <<< 16
        if 0x7F ≤ ints then (ints <<< 2 : ℕ) + 4 else kInvalidSize
      | _ => kUnknownSize
    else if 0 < first ∧ first < 0x7F then
      (first.toNat <<< 2 : ℕ) + 1
    else
      kInvalidSize

/-- `VersionD::readPacketLength`; the addition is that of `uint32`. -/
def readPacketLengthD : Bytes → ℤ
  | b0 :: b1 :: b2 :: b3 :: _ =>
    let value :=
      ((b0.toNat ||| b1.toNat <<< 8 ||| b2.toNat <<< 16 ||| b3.toNat <<< 24) + 4) % 2 ^ 32
    if 8 ≤ value ∧ value < kPacketSizeMax then value else kInvalidSize
  | _ => kUnknownSize

/-- `readPacketLength`. -/
def readPacketLength : Protocol → Bytes → ℤ
  | version0 => readPacketLength0
  | version1 => readPacketLength0
  | versionD => readPacketLengthD

/-- How many bytes of a packet hold its size. -/
def sizeLength : Protocol → Bytes → ℕ
  | versionD, _ => 4
  | _, bytes => if bytes.head? = some 0x7F then 4 else 1

/-- `readPacket`: the packet without its size. -/
def readPacket (p : Protocol) (bytes : Bytes) : Except Fault Bytes := do
  let size := p.readPacketLength bytes
  expects (size ≠ kUnknownSize ∧ size ≠ kInvalidSize ∧ size ≤ bytes.length)
  subspan bytes (p.sizeLength bytes) (size.toNat - p.sizeLength bytes)

/-! ## The framings -/

/-- What a size that was read means. -/
def headerOf (size : ℤ) : Header :=
  if size = kUnknownSize then .short else if size ≤ 0 then .bad else .size size.toNat

theorem headerOf_eq_size {size : ℤ} {n : ℕ} (h : headerOf size = .size n) :
    size = n ∧ 0 < n := by
  rw [headerOf] at h
  split_ifs at h with h1 h2
  obtain rfl := Header.size.inj h
  omega

theorem readPacketLength0_append (b c : Bytes) (h : readPacketLength0 b ≠ kUnknownSize) :
    readPacketLength0 (b ++ c) = readPacketLength0 b := by
  match b with
  | [] => exact absurd rfl h
  | first :: [] => by_cases hf : first = 0x7F <;> simp_all [readPacketLength0]
  | first :: b1 :: [] => by_cases hf : first = 0x7F <;> simp_all [readPacketLength0]
  | first :: b1 :: b2 :: [] => by_cases hf : first = 0x7F <;> simp_all [readPacketLength0]
  | first :: b1 :: b2 :: b3 :: rest => rfl

theorem readPacketLengthD_append (b c : Bytes) (h : readPacketLengthD b ≠ kUnknownSize) :
    readPacketLengthD (b ++ c) = readPacketLengthD b := by
  match b with
  | [] => exact absurd rfl h
  | [_] => exact absurd rfl h
  | [_, _] => exact absurd rfl h
  | [_, _, _] => exact absurd rfl h
  | b0 :: b1 :: b2 :: b3 :: rest => rfl

/-- **A size that was read does not change when more arrives.** -/
theorem readPacketLength_append (p : Protocol) (b c : Bytes)
    (h : p.readPacketLength b ≠ kUnknownSize) :
    p.readPacketLength (b ++ c) = p.readPacketLength b := by
  cases p with
  | versionD => exact readPacketLengthD_append b c h
  | _ => exact readPacketLength0_append b c h

/-- Four bytes are enough to know the size. -/
theorem length_lt_of_unknown (p : Protocol) (b : Bytes)
    (h : p.readPacketLength b = kUnknownSize) : b.length < 4 := by
  by_contra hlen
  match b, hlen with
  | b0 :: b1 :: b2 :: b3 :: rest, _ =>
    cases p <;>
      simp only [readPacketLength, readPacketLength0, readPacketLengthD, kUnknownSize,
        kInvalidSize] at h <;>
      split_ifs at h <;> omega
  | [], hlen => simp at hlen
  | [_], hlen => simp at hlen
  | [_, _], hlen => simp at hlen
  | [_, _, _], hlen => simp at hlen

theorem readPacketLength_nil (p : Protocol) : p.readPacketLength [] = kUnknownSize := by
  cases p <;> rfl

/-- **Each version is a framing.** -/
def framing (p : Protocol) : Framing UInt8 where
  header b := headerOf (p.readPacketLength b)
  stable b c h := by
    rw [p.readPacketLength_append b c]
    intro hu
    exact h (by rw [headerOf, if_pos hu])
  size_pos b n h := (headerOf_eq_size h).2

theorem header_size {p : Protocol} {b : Bytes} {n : ℕ} (h : p.readPacketLength b = n)
    (hn : 0 < n) : p.framing.header b = .size n := by
  show headerOf (p.readPacketLength b) = .size n
  rw [headerOf, h, if_neg (by rw [kUnknownSize]; omega), if_neg (by omega), Int.toNat_natCast]

theorem header_bad {p : Protocol} {b : Bytes} (h : p.readPacketLength b ≠ kUnknownSize)
    (h' : p.readPacketLength b ≤ 0) : p.framing.header b = .bad := by
  show headerOf (p.readPacketLength b) = .bad
  rw [headerOf, if_neg h, if_pos h']

theorem header_short {p : Protocol} {b : Bytes} (h : p.readPacketLength b = kUnknownSize) :
    p.framing.header b = .short := if_pos h

end Protocol

end Mtproto

end Yunogram
