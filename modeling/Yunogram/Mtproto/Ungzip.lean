import Mathlib
import Yunogram.Mtproto.TcpFinalize

/-!
# Mtproto/Ungzip — unpacking within a limit

`SessionPrivate::ungzip` of `mtproto/session_private.cpp`.  The packed bytes are inflated in chunks
into a buffer that never grows beyond the limit; a buffer that reached it is kept only if one byte
more is not to be had, for which a last call of `inflate` offers one byte of room.

zlib and the readers of serialised values are not part of the repository: a `Reader` reads a value
from the ints it is given and leaves the last of them, a `Zlib` is any decompressor.  Next to what
`ungzip` returns stands how many bytes `inflate` wrote for it.

`ungzip_spec`: a result that is not empty has as many bytes as were written, at most the limit; no
call writes more than one byte beyond it.
-/

open Machinery

namespace Yunogram

namespace Mtproto

/-- `kUnpackedChunkSize`. -/
def kUnpackedChunkSize : ℕ := 1024 * 1024

/-! ## What the repository does not contain -/

/-- The `read` of a serialised type: the value and the ints behind it. -/
structure Reader (α : Type*) where
  read : MtpBuffer → Option (α × MtpBuffer)
  within : ∀ {ints : MtpBuffer} {a : α} {rest : MtpBuffer},
    read ints = some (a, rest) → rest <:+ ints

/-- What `inflate` returns: `Z_OK`, `Z_STREAM_END` or an error. -/
inductive InflateCode
  | ok
  | streamEnd
  | error
  deriving DecidableEq

/-- What a call of `inflate` returns and leaves: the bytes it wrote, and `avail_out`. -/
structure Inflated (ζ : Type*) where
  code : InflateCode
  written : Bytes
  availOut : ℕ
  stream : ζ

/-- A decompressor with streams in `ζ`. -/
structure Zlib (ζ : Type*) where
  inflateInit : Bytes → Option ζ
  inflate : ζ → ℕ → Inflated ζ

/-- **`inflate` reports the number of bytes it wrote**: it leaves that much less room. -/
def Zlib.Reports {ζ : Type*} (zlib : Zlib ζ) : Prop :=
  ∀ stream availOut, (zlib.inflate stream availOut).written.length +
    (zlib.inflate stream availOut).availOut = availOut

/-! ## The limit -/

/-- A number of bytes that is left to unpack, always whole ints. -/
structure Budget where
  bytes : ℤ
  whole : 4 ∣ bytes

/-- `unpackedBudget -= int(response.size() * sizeof(mtpPrime))`. -/
def Budget.spend (budget : Budget) (response : MtpBuffer) : Budget :=
  ⟨budget.bytes - 4 * response.length, Int.dvd_sub budget.whole (Int.dvd_mul_right 4 _)⟩

@[simp] theorem Budget.bytes_spend (budget : Budget) (response : MtpBuffer) :
    (budget.spend response).bytes = budget.bytes - 4 * response.length := rfl

/-! ## The loop -/

/-- The ints that bytes are the memory of. -/
def intsOf : Bytes → MtpBuffer
  | a :: b :: c :: d :: bytes => UInt32.ofNat (ofLittleEndian [a, b, c, d]) :: intsOf bytes
  | _ => []

theorem length_intsOf (bytes : Bytes) : (intsOf bytes).length = bytes.length / 4 := by
  fun_induction intsOf bytes with
  | case1 a b c d bytes ih =>
    simp only [List.length_cons, ih]
    omega
  | case2 bytes h =>
    have hlt : bytes.length < 4 := by
      rcases bytes with _ | ⟨a, _ | ⟨b, _ | ⟨c, _ | ⟨d, bytes⟩⟩⟩⟩
      · exact Nat.zero_lt_succ 3
      · exact Nat.one_lt_succ_succ 2
      · exact Nat.lt_of_sub_eq_succ rfl
      · exact Nat.lt_succ_self 3
      · exact absurd rfl (h a b c d bytes)
    exact (Nat.div_eq_of_lt hlt).symm

/-- The ints of a chunk of a resized buffer, after `inflate` wrote to its start. -/
def chunkOf (chunkSize : ℕ) (written : Bytes) : MtpBuffer :=
  intsOf ((written ++ List.replicate chunkSize 0).take chunkSize)

theorem length_chunkOf (chunkSize : ℕ) (written : Bytes) :
    (chunkOf chunkSize written).length = chunkSize / 4 := by
  rw [chunkOf, length_intsOf, List.length_take, List.length_append, List.length_replicate,
    min_eq_left (Nat.le_add_left _ _)]

/-- `std::min(kUnpackedChunkSize, sizeLimit - unpackedLength)`. -/
def chunkSize (sizeLimit : Budget) (result : MtpBuffer) : ℕ :=
  min kUnpackedChunkSize (sizeLimit.bytes.toNat - 4 * result.length)

/-- A chunk is whole ints, and there is one while the limit is not reached. -/
theorem chunkSize_spec {sizeLimit : Budget} {result : MtpBuffer}
    (h : ¬ sizeLimit.bytes ≤ 4 * result.length) :
    4 * (chunkSize sizeLimit result / 4) = chunkSize sizeLimit result ∧
      0 < chunkSize sizeLimit result ∧
      chunkSize sizeLimit result ≤ sizeLimit.bytes.toNat - 4 * result.length := by
  obtain ⟨k, hk⟩ := sizeLimit.whole
  have hchunk : kUnpackedChunkSize = 4 * 262144 := rfl
  rw [chunkSize, hchunk]
  omega

variable {ζ : Type*}

/-- The loop of `ungzip`: the buffer and the room left in it, unless it gave up, and the number of
bytes `inflate` wrote. -/
def unpack (zlib : Zlib ζ) (sizeLimit : Budget) (stream : ζ) (result : MtpBuffer) :
    Option (MtpBuffer × ℕ) × ℕ :=
  if sizeLimit.bytes ≤ 4 * result.length then
    let extra := zlib.inflate stream 1
    (if extra.code = .streamEnd ∧ extra.availOut = 1 then some (result, 0) else none,
      extra.written.length)
  else
    let inflated := zlib.inflate stream (chunkSize sizeLimit result)
    let grown := result ++ chunkOf (chunkSize sizeLimit result) inflated.written
    match inflated.code with
    | .error => (none, inflated.written.length)
    | .streamEnd => (some (grown, inflated.availOut), inflated.written.length)
    | .ok =>
      if inflated.availOut ≠ 0 then (none, inflated.written.length)
      else
        let more := unpack zlib sizeLimit inflated.stream grown
        (more.1, inflated.written.length + more.2)
  termination_by sizeLimit.bytes.toNat - 4 * result.length
  decreasing_by
    have hspec := chunkSize_spec ‹¬ sizeLimit.bytes ≤ 4 * result.length›
    rw [List.length_append, length_chunkOf]
    omega

/-- `ungzip`: the unpacked ints, none if it failed, and the number of bytes `inflate` wrote. -/
def ungzip (string : Reader Bytes) (zlib : Zlib ζ) (ints : MtpBuffer) (sizeLimit : Budget) :
    MtpBuffer × ℕ :=
  if sizeLimit.bytes ≤ 0 then ([], 0)
  else match string.read ints with
    | none => ([], 0)
    | some (packed, _) =>
      match zlib.inflateInit packed with
      | none => ([], 0)
      | some stream =>
        match unpack zlib sizeLimit stream [] with
        | (none, written) => ([], written)
        | (some (result, availOut), written) =>
          if availOut % 4 ≠ 0 then ([], written)
          else (result.take (result.length - availOut / 4), written)

/-! ## What is written and what is kept -/

variable {zlib : Zlib ζ} {sizeLimit : Budget}

/-- **The loop writes at most one byte beyond the limit**, and what it leaves in the buffer is what
it wrote. -/
theorem unpack_written (hzlib : zlib.Reports) (stream : ζ) (result : MtpBuffer)
    (hfit : 4 * result.length ≤ sizeLimit.bytes) :
    (4 * result.length + (unpack zlib sizeLimit stream result).2 ≤ sizeLimit.bytes + 1) ∧
      ∀ unpacked availOut,
        (unpack zlib sizeLimit stream result).1 = some (unpacked, availOut) →
          4 * unpacked.length =
            4 * result.length + (unpack zlib sizeLimit stream result).2 + availOut ∧
          4 * unpacked.length ≤ sizeLimit.bytes := by
  fun_induction unpack zlib sizeLimit stream result with
  | case1 stream result h extra =>
    have hextra : extra.written.length + extra.availOut = 1 := hzlib stream 1
    refine ⟨by omega, fun unpacked availOut hsome => ?_⟩
    dsimp only at hsome ⊢
    split_ifs at hsome with hend
    obtain ⟨rfl, rfl⟩ := Prod.mk.inj (Option.some.inj hsome)
    omega
  | case2 stream result h inflated hcode =>
    have hspec := chunkSize_spec h
    have hwritten : inflated.written.length + inflated.availOut = chunkSize sizeLimit result :=
      hzlib stream _
    exact ⟨by omega, fun unpacked availOut hsome => nomatch hsome⟩
  | case3 stream result h inflated grown hcode =>
    have hspec := chunkSize_spec h
    have hwritten : inflated.written.length + inflated.availOut = chunkSize sizeLimit result :=
      hzlib stream _
    have hgrown : grown.length = result.length + chunkSize sizeLimit result / 4 := by
      rw [List.length_append, length_chunkOf]
    refine ⟨by omega, fun unpacked availOut hsome => ?_⟩
    obtain ⟨rfl, rfl⟩ := Prod.mk.inj (Option.some.inj hsome)
    dsimp only
    omega
  | case4 stream result h inflated hcode hroom =>
    have hspec := chunkSize_spec h
    have hwritten : inflated.written.length + inflated.availOut = chunkSize sizeLimit result :=
      hzlib stream _
    exact ⟨by omega, fun unpacked availOut hsome => nomatch hsome⟩
  | case5 stream result h inflated grown hcode hroom more ih =>
    have hspec := chunkSize_spec h
    have hwritten : inflated.written.length + inflated.availOut = chunkSize sizeLimit result :=
      hzlib stream _
    have hgrown : grown.length = result.length + chunkSize sizeLimit result / 4 := by
      rw [List.length_append, length_chunkOf]
    obtain ⟨hle, hsome⟩ := ih (by omega)
    change 4 * (grown.length : ℤ) + more.2 ≤ _ at hle
    refine ⟨by dsimp only; omega, fun unpacked availOut hmore => ?_⟩
    have hunpacked := hsome unpacked availOut hmore
    change 4 * unpacked.length = 4 * grown.length + more.2 + availOut ∧ _ at hunpacked
    dsimp only
    omega

variable {string : Reader Bytes}

/-- **A result has the bytes that were written**, which are within the limit; when there is none, at
most one byte beyond the limit was written. -/
theorem ungzip_spec (hzlib : zlib.Reports) (ints : MtpBuffer) (hlimit : 0 ≤ sizeLimit.bytes) :
    ((ungzip string zlib ints sizeLimit).2 : ℤ) ≤ sizeLimit.bytes + 1 ∧
      ((ungzip string zlib ints sizeLimit).1 ≠ [] →
        4 * (ungzip string zlib ints sizeLimit).1.length = (ungzip string zlib ints sizeLimit).2 ∧
        4 * ((ungzip string zlib ints sizeLimit).1.length : ℤ) ≤ sizeLimit.bytes) := by
  have hnone : ((0 : ℕ) : ℤ) ≤ sizeLimit.bytes + 1 := by omega
  unfold ungzip
  split
  · exact ⟨hnone, fun h => absurd rfl h⟩
  · split
    · exact ⟨hnone, fun h => absurd rfl h⟩
    · split
      · exact ⟨hnone, fun h => absurd rfl h⟩
      · rename_i stream hstream
        have hfit : 4 * (([] : MtpBuffer).length : ℤ) ≤ sizeLimit.bytes := hlimit
        obtain ⟨hle, hsome⟩ := unpack_written hzlib stream [] hfit
        rw [List.length_nil] at hle hsome
        split
        · rename_i written heq
          rw [heq] at hle
          exact ⟨by omega, fun h => absurd rfl h⟩
        · rename_i result availOut written heq
          rw [heq] at hle hsome
          have hresult := hsome result availOut rfl
          split
          · exact ⟨by omega, fun h => absurd rfl h⟩
          · refine ⟨by omega, fun _ => ?_⟩
            rw [List.length_take, min_eq_left (Nat.sub_le _ _)]
            omega

end Mtproto

end Yunogram
