import Mathlib
import Yunogram.Machinery.LittleEndian

/-!
# Machinery/DataStream — a binary stream of 32-bit integers and counted bytes

The writer appends, an integer as its four bytes with the high one first.  The reader keeps what is
left and a status that goes bad at the first read past the end and stays so; such a read takes what
there is.  Each kind of value has its round trip: in front of anything, what was written is read and
the rest is left.
-/

namespace Machinery

/-- A signed integer of 32 bits. -/
abbrev Qint32 := { n : ℤ // -2 ^ 31 ≤ n ∧ n < 2 ^ 31 }

namespace Qint32

instance (n m : Qint32) : Decidable (n < m) := Int.decLt n.1 m.1

instance (n m : Qint32) : Decidable (n ≤ m) := Int.decLe n.1 m.1

/-- The integer a cast to 32 bits leaves. -/
@[irreducible] def wrap (n : ℤ) : Qint32 :=
  ⟨Int.bmod n (2 ^ 32), by
    have h := Int.le_bmod (x := n) (m := 2 ^ 32) (by norm_num)
    have h' := Int.bmod_lt (x := n) (m := 2 ^ 32) (by norm_num)
    norm_num at h h' ⊢
    omega⟩

/-- The integer as an unsigned one. -/
def toBits (n : Qint32) : ℕ := (n.1 % 2 ^ 32).toNat

/-- The greatest one. -/
def max : Qint32 := ⟨2 ^ 31 - 1, by decide⟩

theorem toBits_lt (n : Qint32) : n.toBits < 2 ^ 32 := by
  rw [toBits]
  omega

theorem le_max (n : Qint32) : n ≤ max := Int.le_sub_one_of_lt n.2.2

theorem wrap_eq {n : ℤ} (h : -2 ^ 31 ≤ n ∧ n < 2 ^ 31) : wrap n = ⟨n, h⟩ := by
  rw [wrap]
  refine Subtype.ext (Int.bmod_eq_of_le ?_ ?_)
  · norm_num
    omega
  · norm_num
    omega

/-- A cast that does not fit into the positive half becomes negative. -/
theorem wrap_neg {n : ℤ} (h : 2 ^ 31 ≤ n ∧ n < 2 ^ 32) : (wrap n).1 < 0 := by
  rw [wrap]
  show Int.bmod n (2 ^ 32) < 0
  rw [Int.bmod_def]
  norm_num at h ⊢
  omega

theorem wrap_val (n : Qint32) : wrap n.1 = n := wrap_eq n.2

theorem wrap_toBits (n : Qint32) : wrap n.toBits = n := by
  have h : ((n.toBits : ℕ) : ℤ) = n.1 % 2 ^ 32 := Int.toNat_of_nonneg (by omega)
  have hbmod : Int.bmod n.1 (2 ^ 32) = n.1 := by
    have hwrap := congrArg Subtype.val (wrap_val n)
    rwa [wrap] at hwrap
  rw [h, wrap]
  exact Subtype.ext ((Int.emod_bmod n.1 (2 ^ 32)).trans hbmod)

theorem toBits_wrap (n : ℤ) : (wrap n).toBits = (n % 2 ^ 32).toNat := by
  rw [toBits, wrap]
  exact congrArg Int.toNat Int.bmod_emod

end Qint32

/-! ## Writing -/

/-- The bytes of an unsigned integer. -/
def uint32Bytes (n : ℕ) : List UInt8 :=
  [UInt8.ofNat (n >>> 24), UInt8.ofNat (n >>> 16), UInt8.ofNat (n >>> 8), UInt8.ofNat n]

/-- The bytes of a signed integer. -/
def int32Bytes (n : Qint32) : List UInt8 := uint32Bytes n.toBits

/-- The bytes written when a length is given: none if it is negative. -/
def rawBytes (bytes : List UInt8) (length : Qint32) : List UInt8 := bytes.take length.1.toNat

theorem rawBytes_length {bytes : List UInt8} (h : bytes.length < 2 ^ 31) :
    rawBytes bytes (Qint32.wrap bytes.length) = bytes := by
  rw [rawBytes, Qint32.wrap_eq ⟨by omega, by exact_mod_cast h⟩, Int.toNat_natCast, List.take_length]

theorem int32Bytes_append_ne_nil (n : Qint32) (rest : List UInt8) : int32Bytes n ++ rest ≠ [] :=
  List.cons_ne_nil _ _

/-! ## Reading -/

/-- What is left of a stream, and whether every read found what it asked for. -/
structure DataStream where
  rest : List UInt8
  ok : Bool

namespace DataStream

variable {rest : List UInt8} {ok : Bool}

/-- `n` bytes, or what there is. -/
def readRaw (n : ℕ) (stream : DataStream) : List UInt8 × DataStream :=
  (stream.rest.take n, ⟨stream.rest.drop n, stream.ok && decide (n ≤ stream.rest.length)⟩)

/-- An unsigned integer, zero past the end. -/
def readUInt32 (stream : DataStream) : ℕ × DataStream :=
  (if 4 ≤ stream.rest.length then ofBigEndian (stream.rest.take 4) else 0, (stream.readRaw 4).2)

/-- A signed integer, zero past the end. -/
def readInt32 (stream : DataStream) : Qint32 × DataStream :=
  (Qint32.wrap stream.readUInt32.1, stream.readUInt32.2)

/-- A read that leaves a good status found as much as it asked for. -/
theorem of_readRaw {n : ℕ} {stream : DataStream} (h : (stream.readRaw n).2.ok = true) :
    stream.ok = true ∧ (stream.readRaw n).1.length = n := by
  obtain ⟨hok, hle⟩ := (Bool.and_eq_true _ _).mp h
  exact ⟨hok, by rw [readRaw, List.length_take, min_eq_left (of_decide_eq_true hle)]⟩

/-- **Bytes are read back…** -/
theorem readRaw_append (bytes rest : List UInt8) (ok : Bool) :
    readRaw bytes.length ⟨bytes ++ rest, ok⟩ = (bytes, ⟨rest, ok⟩) := by
  have hle : bytes.length ≤ (bytes ++ rest).length := by rw [List.length_append]; omega
  rw [readRaw, List.take_left, List.drop_left, decide_eq_true hle, Bool.and_true]

/-- …as are unsigned integers… -/
theorem readUInt32_append {n : ℕ} (h : n < 2 ^ 32) :
    readUInt32 ⟨uint32Bytes n ++ rest, ok⟩ = (n, ⟨rest, ok⟩) := by
  have hraw : readRaw 4 ⟨uint32Bytes n ++ rest, ok⟩ = (uint32Bytes n, ⟨rest, ok⟩) :=
    readRaw_append (uint32Bytes n) rest ok
  have hle : 4 ≤ (uint32Bytes n ++ rest).length := by
    rw [List.length_append]
    exact Nat.le_add_right 4 _
  have htake : (uint32Bytes n ++ rest).take 4 = uint32Bytes n := congrArg Prod.fst hraw
  have hrest : (readRaw 4 ⟨uint32Bytes n ++ rest, ok⟩).2 = ⟨rest, ok⟩ := congrArg Prod.snd hraw
  rw [readUInt32, if_pos hle, htake, hrest, uint32Bytes, ofBigEndian_four h]

/-- …and signed ones. -/
theorem readInt32_append (n : Qint32) :
    readInt32 ⟨int32Bytes n ++ rest, ok⟩ = (n, ⟨rest, ok⟩) := by
  rw [readInt32, int32Bytes, readUInt32_append n.toBits_lt, Qint32.wrap_toBits]

/-! ## Readers that give up -/

/-- A reader that may give up, leaving no stream. -/
abbrev Reader (α : Type) := StateT DataStream Option α

variable {α β : Type}

/-- A reader that does not give up. -/
def reads (f : DataStream → α × DataStream) : Reader α := fun stream => some (f stream)

/-- Go on only when a condition holds. -/
def require (p : Prop) [Decidable p] : Reader Unit := fun stream =>
  if p then some ((), stream) else none

/-- Go on only when no read went past the end. -/
def requireOk : Reader Unit := fun stream => if stream.ok then some ((), stream) else none

/-- Go on only with a value. -/
def expect (a : Option α) : Reader α := fun stream => a.map fun a => (a, stream)

section

variable {x : Reader α} {f : α → Reader β} {stream stream' : DataStream} {a : α}

/-- **What the first reader gives is what the second goes on with.** -/
theorem bind_of_some (h : x stream = some (a, stream')) : (x >>= f) stream = f a stream' := by
  show (x stream).bind (fun r => f r.1 r.2) = _
  rw [h]
  rfl

/-- **Where both have read, each has.** -/
theorem exists_of_bind {r : β × DataStream} (h : (x >>= f) stream = some r) :
    ∃ a stream', x stream = some (a, stream') ∧ f a stream' = some r := by
  obtain ⟨⟨a, stream'⟩, hx, hf⟩ := Option.bind_eq_some_iff.mp h
  exact ⟨a, stream', hx, hf⟩

theorem reads_of_eq {g : DataStream → α × DataStream} (h : g stream = (a, stream')) :
    reads g stream = some (a, stream') := congrArg some h

theorem of_reads {g : DataStream → α × DataStream} (h : reads g stream = some (a, stream')) :
    (g stream).1 = a ∧ (g stream).2 = stream' :=
  Prod.mk.inj (Option.some.inj h)

theorem of_requireOk {r : Unit × DataStream} (h : requireOk stream = some r) :
    stream.ok = true := by
  rw [requireOk] at h
  split_ifs at h with hok
  exact hok

theorem require_of {p : Prop} [Decidable p] (h : p) : require p stream = some ((), stream) :=
  if_pos h

theorem of_require {p : Prop} [Decidable p] {r : Unit × DataStream}
    (h : require p stream = some r) : p ∧ stream = r.2 := by
  rw [require] at h
  split_ifs at h with hp
  exact ⟨hp, congrArg Prod.snd (Option.some.inj h)⟩

end

/-! ## Reading many -/

/-- Read `count` values one behind the other and add each; where one cannot be read, what was added
before stays and no stream is left. -/
def readMany (read : Reader α) (add : β → α → β) :
    ℕ → β → DataStream → β × Option DataStream
  | 0, b, stream => (b, some stream)
  | count + 1, b, stream =>
    match read stream with
    | none => (b, none)
    | some (a, stream) => readMany read add count (add b a) stream

variable {read : Reader α} {add : β → α → β}

/-- **Values written one behind the other are all read and added.** -/
theorem readMany_append {bytes : α → List UInt8} {as : List α}
    (h : ∀ a ∈ as, ∀ rest, read ⟨bytes a ++ rest, true⟩ = some (a, ⟨rest, true⟩)) (b : β)
    (rest : List UInt8) :
    readMany read add as.length b ⟨as.flatMap bytes ++ rest, true⟩
      = (as.foldl add b, some ⟨rest, true⟩) := by
  induction as generalizing b with
  | nil => rfl
  | cons a as ih =>
    obtain ⟨ha, has⟩ := List.forall_mem_cons.mp h
    rw [List.length_cons, readMany, List.flatMap_cons, List.append_assoc, ha]
    exact ih has (add b a)

/-- **Whatever was read is some values added, no more than were asked for.** -/
theorem readMany_eq_foldl (count : ℕ) (b : β) (stream : DataStream) :
    ∃ as : List α, as.length ≤ count ∧ (readMany read add count b stream).1 = as.foldl add b ∧
      ∀ a ∈ as, ∃ s s', read s = some (a, s') := by
  induction count generalizing b stream with
  | zero => exact ⟨[], le_rfl, rfl, fun a ha => absurd ha List.not_mem_nil⟩
  | succ count ih =>
    rw [readMany]
    cases hread : read stream with
    | none => exact ⟨[], Nat.zero_le _, rfl, fun a ha => absurd ha List.not_mem_nil⟩
    | some r =>
      obtain ⟨as, hlength, hfold, has⟩ := ih (add b r.1) r.2
      exact ⟨r.1 :: as, Nat.succ_le_succ hlength, hfold,
        List.forall_mem_cons.mpr ⟨⟨stream, r.2, hread⟩, has⟩⟩

end DataStream

end Machinery
