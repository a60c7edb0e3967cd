import Yunogram.Mtproto.TlsSocket

/-!
# Mtproto/TlsRecords — what the bytes of both directions mean, read at once

The abstract side of `TlsSocket`.  `parseHello` reads the server's hello from all received bytes,
`records` the payloads of the records after it; what they say does not change when more arrives
(`parseHello_append`, `unread_append`).  `deframe` reads what `write` sends, and gets the written
bytes back.
-/

open Machinery

namespace Yunogram

namespace Mtproto

variable {keys : TlsKeys} {b c : Bytes}

/-- Two bytes, the high one first. -/
def partLength (b : Bytes) : ℕ := (b.take kLengthSize).foldl (fun n b => n * 256 + b.toNat) 0

theorem readPartLength_eq {offset : ℕ} (h : offset + kLengthSize ≤ b.length) :
    readPartLength b offset = .ok (partLength (b.drop offset)) := by
  rw [readPartLength, subspan_ok h]
  rfl

theorem partLength_append (h : kLengthSize ≤ b.length) (c : Bytes) :
    partLength (b ++ c) = partLength b := by
  rw [partLength, partLength, List.take_append_of_le_length h]

theorem partLength_take {n : ℕ} (h : kLengthSize ≤ n) : partLength (b.take n) = partLength b := by
  rw [partLength, partLength, List.take_take, min_eq_left h]

theorem partLength_pair (hi lo : UInt8) (b : Bytes) :
    partLength (hi :: lo :: b) = hi.toNat * 256 + lo.toNat := by
  show (0 * 256 + hi.toNat) * 256 + lo.toNat = _
  rw [Nat.zero_mul, Nat.zero_add]

theorem checkPart_iff {check : Bytes} : checkPart b check = true ↔ b.take check.length = check := by
  rw [checkPart]
  split_ifs with h
  · refine ⟨nofun, fun he => absurd (congrArg List.length he) ?_⟩
    rw [List.length_take]
    omega
  · exact decide_eq_true_iff

theorem checkPart_append {check : Bytes} (h : check.length ≤ b.length) (c : Bytes) :
    checkPart (b ++ c) check = checkPart b check := by
  rw [Bool.eq_iff_iff, checkPart_iff, checkPart_iff, List.take_append_of_le_length h]

theorem checkPart_take {check : Bytes} {n : ℕ} (h : check.length ≤ n) :
    checkPart (b.take n) check = checkPart b check := by
  rw [Bool.eq_iff_iff, checkPart_iff, checkPart_iff, List.take_take, min_eq_left h]

/-! ## The hello -/

/-- What the received bytes say about the hello. -/
inductive HelloResult
  | waiting
  | failed
  | connected (rest : Bytes)
  deriving DecidableEq

/-- The size of the hello up to the length of its last part. -/
def helloParts123 (b : Bytes) : ℕ :=
  parts1Size + partLength (b.drop (parts1Size - kLengthSize)) + kServerHelloPart3.length
    + kLengthSize

/-- The size of the hello. -/
def helloFull (b : Bytes) : ℕ :=
  helloParts123 b + partLength (b.drop (helloParts123 b - kLengthSize))

/-- The digest in the hello is that of both hellos, with zeros for itself. -/
def helloDigestGood (keys : TlsKeys) (hello : Bytes) : Bool :=
  slice hello kServerHelloDigestPosition kHelloDigestLength = keys.hmacSha256 (keys.digest ++
    overwrite hello kServerHelloDigestPosition (List.replicate kHelloDigestLength 0))

/-- The end of the hello: all of it is there. -/
def parseHelloDigest (keys : TlsKeys) (b : Bytes) : HelloResult :=
  if helloFull b < kServerHelloDigestPosition + kHelloDigestLength ∨
      !helloDigestGood keys (b.take (helloFull b)) then
    .failed
  else
    .connected (b.drop (helloFull b))

/-- The hello from the length of its last part on. -/
def parseHelloParts34 (keys : TlsKeys) (b : Bytes) : HelloResult :=
  if kMaxServerHelloLength < helloFull b ∨
      !checkPart (b.drop (helloParts123 b - kLengthSize - kServerHelloPart3.length))
        kServerHelloPart3 then
    .failed
  else if b.length < helloFull b then
    .waiting
  else
    parseHelloDigest keys b

/-- Read the hello: a record, the beginning of two more, and the rest of the last. -/
def parseHello (keys : TlsKeys) (b : Bytes) : HelloResult :=
  if b.length < parts1Size then
    .waiting
  else if kMaxServerHelloLength < helloParts123 b ∨ !checkPart b kServerHelloPart1 then
    .failed
  else if b.length < helloParts123 b then
    .waiting
  else
    parseHelloParts34 keys b

/-- The result when more bytes follow. -/
def HelloResult.append (c : Bytes) : HelloResult → HelloResult
  | .waiting => .waiting
  | .failed => .failed
  | .connected rest => .connected (rest ++ c)

theorem le_helloParts123 (b : Bytes) :
    parts1Size + kServerHelloPart3.length + kLengthSize ≤ helloParts123 b := by
  rw [helloParts123]
  omega

theorem le_helloFull (b : Bytes) : helloParts123 b ≤ helloFull b := Nat.le_add_right _ _

section

variable (h1 : parts1Size ≤ b.length) (c : Bytes)
include h1

theorem helloParts123_append : helloParts123 (b ++ c) = helloParts123 b := by
  have hle : kLengthSize ≤ parts1Size := by decide
  rw [helloParts123, helloParts123, List.drop_append_of_le_length (by omega),
    partLength_append (by rw [List.length_drop]; omega)]

variable (h3 : helloParts123 b ≤ b.length)
include h3

theorem helloFull_append : helloFull (b ++ c) = helloFull b := by
  have hle := le_helloParts123 b
  rw [helloFull, helloFull, helloParts123_append h1, List.drop_append_of_le_length (by omega),
    partLength_append (by rw [List.length_drop]; omega)]

theorem parseHelloDigest_append (h : helloFull b ≤ b.length) :
    parseHelloDigest keys (b ++ c) = (parseHelloDigest keys b).append c := by
  rw [parseHelloDigest, parseHelloDigest, helloFull_append h1 c h3,
    List.take_append_of_le_length h, List.drop_append_of_le_length h]
  split <;> rfl

theorem parseHelloParts34_append (h : parseHelloParts34 keys b ≠ .waiting) :
    parseHelloParts34 keys (b ++ c) = (parseHelloParts34 keys b).append c := by
  have hle := le_helloParts123 b
  rw [parseHelloParts34] at h ⊢
  rw [parseHelloParts34, helloFull_append h1 c h3, helloParts123_append h1,
    List.drop_append_of_le_length (by omega),
    checkPart_append (by rw [List.length_drop]; omega)]
  split
  · rfl
  · next hbad =>
    rw [if_neg hbad] at h
    by_cases hfull : b.length < helloFull b
    · exact absurd (if_pos hfull) h
    · rw [if_neg (by rw [List.length_append]; omega), if_neg hfull]
      exact parseHelloDigest_append h1 c h3 (not_lt.mp hfull)

end

/-- **What was found out about the hello stays when more arrives.** -/
theorem parseHello_append (h : parseHello keys b ≠ .waiting) (c : Bytes) :
    parseHello keys (b ++ c) = (parseHello keys b).append c := by
  have hle : kServerHelloPart1.length ≤ parts1Size := by decide
  rw [parseHello] at h ⊢
  by_cases h1 : b.length < parts1Size
  · exact absurd (if_pos h1) h
  rw [if_neg h1] at h
  rw [parseHello, if_neg h1, if_neg (by rw [List.length_append]; omega),
    helloParts123_append (not_lt.mp h1), checkPart_append (by omega)]
  split
  · rfl
  · next hbad =>
    rw [if_neg hbad] at h
    by_cases h3 : b.length < helloParts123 b
    · exact absurd (if_pos h3) h
    · rw [if_neg h3] at h
      rw [if_neg (by rw [List.length_append]; omega), if_neg h3]
      exact parseHelloParts34_append (not_lt.mp h1) c (not_lt.mp h3) h

/-! ## The records after the hello -/

/-- The payloads of the application-data records, the last one as far as it is there, and whether
the bytes end in something else.  A header is looked at when more than the header is there. -/
def records (b : Bytes) : Bytes × Bool :=
  let header := kServerHeader.length + kLengthSize
  if _h : b.length ≤ header then
    ([], false)
  else if !checkPart b kServerHeader then
    ([], true)
  else
    let length := partLength (b.drop kServerHeader.length)
    let more := records (b.drop (header + length))
    ((b.drop header).take length ++ more.1, more.2)
termination_by b.length
decreasing_by
  have hpos : 0 < kServerHeader.length := by decide
  rw [List.length_drop]
  omega

/-- The payloads in a record of which `limit` bytes are missing, and after it. -/
def unread (limit : ℕ) (b : Bytes) : Bytes × Bool :=
  (b.take limit ++ (records (b.drop limit)).1, (records (b.drop limit)).2)

theorem records_short (h : b.length ≤ kServerHeader.length + kLengthSize) :
    records b = ([], false) := by
  rw [records, dif_pos h]

theorem records_bad (h : kServerHeader.length + kLengthSize < b.length)
    (hbad : checkPart b kServerHeader = false) : records b = ([], true) := by
  rw [records, dif_neg (not_le.mpr h), hbad]
  rfl

theorem records_record (h : kServerHeader.length + kLengthSize < b.length)
    (hgood : checkPart b kServerHeader = true) :
    records b = unread (partLength (b.drop kServerHeader.length))
      (b.drop (kServerHeader.length + kLengthSize)) := by
  rw [records, dif_neg (not_le.mpr h), hgood]
  dsimp only
  rw [unread, List.drop_drop]
  rfl

@[simp] theorem unread_zero : unread 0 b = records b := rfl

@[simp] theorem unread_nil {limit : ℕ} : unread limit [] = ([], false) := by
  rw [unread, List.take_nil, List.drop_nil, records_short (Nat.zero_le _)]
  rfl

/-- Taking `n` bytes of a record. -/
theorem unread_take {limit n : ℕ} (hn : n ≤ limit) (hb : n ≤ b.length) :
    unread limit b = (b.take n ++ (unread (limit - n) (b.drop n)).1,
      (unread (limit - n) (b.drop n)).2) := by
  have htake : b.take limit = b.take n ++ (b.drop n).take (limit - n) := by
    conv_lhs => rw [← List.take_append_drop n b, List.take_append, List.take_take]
    rw [min_eq_right hn, List.length_take, min_eq_left hb]
  rw [unread, unread, List.drop_drop, Nat.add_sub_cancel' hn, htake, List.append_assoc]

/-! ## What is sent -/

/-- The type and version of a record that carries no data. -/
def kChangeCipherHeader : Bytes := [0x14, 0x03, 0x03]

/-- Read records: the data is what the application-data records carry. -/
def deframe (b : Bytes) : Option Bytes :=
  let header := kClientHeader.length + kLengthSize
  let length := partLength (b.drop kClientHeader.length)
  if _h : b.length < header then
    if b = [] then some [] else none
  else if b.length < header + length then
    none
  else if checkPart b kClientHeader then
    (deframe (b.drop (header + length))).map (slice b header length ++ ·)
  else if checkPart b kChangeCipherHeader then
    deframe (b.drop (header + length))
  else
    none
termination_by b.length
decreasing_by
  all_goals
    have hpos : 0 < kClientHeader.length + kLengthSize := by decide
    rw [List.length_drop]
    omega

theorem deframe_nil : deframe [] = some [] := by
  rw [deframe, dif_pos (by decide), if_pos rfl]

/-- The two bytes of a length. -/
theorem partLength_of_size {size : ℕ} (h : size < 2 ^ 16) (b : Bytes) :
    partLength ([UInt8.ofNat (size / 256), UInt8.ofNat (size % 256)] ++ b) = size := by
  rw [List.cons_append, List.cons_append, partLength_pair, UInt8.toNat_ofNat', UInt8.toNat_ofNat']
  omega

/-- **A data record is read back.** -/
theorem deframe_data {payload : Bytes} (h : payload.length < 2 ^ 16) (b : Bytes) :
    deframe (kClientHeader ++ [UInt8.ofNat (payload.length / 256),
      UInt8.ofNat (payload.length % 256)] ++ payload ++ b) = (deframe b).map (payload ++ ·) := by
  generalize hsize : [UInt8.ofNat (payload.length / 256), UInt8.ofNat (payload.length % 256)] = size
  have htwo : size.length = kLengthSize := by rw [← hsize]; rfl
  have hpart : partLength (size ++ (payload ++ b)) = payload.length := by
    rw [← hsize]
    exact partLength_of_size h _
  have hheader : (kClientHeader ++ size).length = kClientHeader.length + kLengthSize := by
    rw [List.length_append, htwo]
  have hdata : (kClientHeader ++ size ++ payload).length
      = kClientHeader.length + kLengthSize + payload.length := by
    rw [List.length_append, hheader]
  have hlen : (kClientHeader ++ size ++ payload ++ b).length
      = kClientHeader.length + kLengthSize + payload.length + b.length := by
    rw [List.length_append, hdata]
  have hcheck : checkPart (kClientHeader ++ size ++ payload ++ b) kClientHeader = true := by
    rw [checkPart_iff, List.append_assoc, List.append_assoc, List.take_left]
  have hdrop : (kClientHeader ++ size ++ payload ++ b).drop kClientHeader.length
      = size ++ (payload ++ b) := by
    rw [List.append_assoc, List.append_assoc, List.drop_left]
  have hslice : slice (kClientHeader ++ size ++ payload ++ b)
      (kClientHeader.length + kLengthSize) payload.length = payload := by
    rw [slice, List.append_assoc, ← hheader, List.drop_left, List.take_left]
  rw [deframe, hdrop, hpart, dif_neg (by omega), if_neg (by omega), if_pos hcheck, hslice, ← hdata,
    List.drop_left]

/-- The record in front of a first write is skipped. -/
theorem deframe_clientPrefix (b : Bytes) : deframe (kClientPrefix ++ b) = deframe b := by
  have hlen : (kClientPrefix ++ b).length = 6 + b.length := List.length_append
  have hheader : kClientHeader.length + kLengthSize = 5 := rfl
  have hone : partLength ((kClientPrefix ++ b).drop kClientHeader.length) = 1 := rfl
  have hno : ¬checkPart (kClientPrefix ++ b) kClientHeader = true := by
    rw [checkPart_iff]
    exact fun h => absurd h (by decide : kClientPrefix.take 3 ≠ kClientHeader)
  have hyes : checkPart (kClientPrefix ++ b) kChangeCipherHeader = true := by
    rw [checkPart_iff]
    rfl
  rw [deframe, hone, dif_neg (by omega), if_neg (by omega), if_neg hno, if_pos hyes]
  rfl

/-- The loop of `write` sends records whose data is the prefix and the buffer. -/
theorem deframe_writeParts {prefixBytes buffer : Bytes}
    (hp : prefixBytes.length ≤ kClientPartSize) (hb : buffer = [] → prefixBytes = []) (b : Bytes) :
    deframe (TlsSocket.writeParts prefixBytes buffer ++ b)
      = (deframe b).map (prefixBytes ++ buffer ++ ·) := by
  fun_induction TlsSocket.writeParts prefixBytes buffer generalizing b with
  | case1 prefixBytes =>
    rw [hb rfl]
    exact Option.map_id'.symm
  | case2 prefixBytes buffer hne write size ih =>
    have hmax : kClientPartSize < 2 ^ 16 := by decide
    have hpart : (kClientPartSize + 2 ^ 64 - prefixBytes.length) % 2 ^ 64
        = kClientPartSize - prefixBytes.length := by omega
    have hwrite : write ≤ kClientPartSize - prefixBytes.length := hpart ▸ min_le_left _ _
    have hdata : (prefixBytes ++ buffer.take write).length = prefixBytes.length + write := by
      rw [List.length_append, List.length_take, min_eq_left (min_le_right _ _)]
    have hsize : size = (prefixBytes ++ buffer.take write).length := by
      rw [hdata]
      exact Nat.mod_eq_of_lt (by omega)
    have hsmall : (prefixBytes ++ buffer.take write).length < 2 ^ 16 := by omega
    have hrecord := deframe_data hsmall (TlsSocket.writeParts [] (buffer.drop write) ++ b)
    rw [ih (Nat.zero_le _) fun _ => rfl, Option.map_map] at hrecord
    rw [hsize]
    simp only [List.append_assoc] at hrecord ⊢
    rw [hrecord]
    refine congrArg (fun f => Option.map f (deframe b)) (funext fun rest => ?_)
    show prefixBytes ++ (buffer.take write ++ (buffer.drop write ++ rest)) = _
    rw [← List.append_assoc (buffer.take write), List.take_append_drop]

theorem write_ok {s : TlsSocket} (hs : s.state = .connected) {prefixBytes buffer : Bytes}
    (hp : prefixBytes.length ≤ kClientPartSize) (hb : buffer ≠ []) :
    ∃ sent, s.write prefixBytes buffer = .ok sent ∧
      ∀ b, deframe (sent ++ b) = (deframe b).map (prefixBytes ++ buffer ++ ·) := by
  rw [TlsSocket.write, expects_ok hb, ok_bind, if_neg (not_not.mpr hs)]
  refine ⟨_, rfl, fun b => ?_⟩
  have hparts := deframe_writeParts hp (fun h => absurd h hb) b
  cases prefixBytes with
  | nil => exact hparts
  | cons x prefixBytes =>
    rw [List.isEmpty_cons, if_neg Bool.false_ne_true, List.append_assoc, deframe_clientPrefix]
    exact hparts

/-- **The records of several writes carry what was written.** -/
theorem writes_ok {s : TlsSocket} (hs : s.state = .connected) (buffers : List (Bytes × Bytes))
    (h : ∀ w ∈ buffers, w.1.length ≤ kClientPartSize ∧ w.2 ≠ []) :
    ∃ sent, s.writes buffers = .ok sent ∧
      deframe sent = some (buffers.flatMap fun w => w.1 ++ w.2) := by
  induction buffers with
  | nil => exact ⟨[], rfl, deframe_nil⟩
  | cons w buffers ih =>
    obtain ⟨hp, hb⟩ := h w List.mem_cons_self
    obtain ⟨sent, hsent, hdata⟩ := write_ok hs hp hb
    obtain ⟨more, hmore, hrest⟩ := ih fun w' hw' => h w' (List.mem_cons_of_mem w hw')
    refine ⟨sent ++ more, ?_, ?_⟩
    · rw [TlsSocket.writes, hsent, ok_bind, hmore]
      rfl
    · rw [hdata, hrest, List.flatMap_cons]
      rfl

end Mtproto

end Yunogram
