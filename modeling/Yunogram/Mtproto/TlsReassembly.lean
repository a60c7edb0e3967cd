import Yunogram.Machinery.Run
import Yunogram.Mtproto.TlsRecords

/-!
# Mtproto/TlsReassembly — the TLS socket reads what the whole stream says

The socket's state against the abstract reading of the bytes it took so far.  Before the hello is
complete it has all of them behind the digest, and knows the length of a part that is not there yet;
afterwards what it returned and what `unread` finds in its buffer are the payloads of the records.
`reassembly` follows for every order of arrivals, signals, queued calls and reads.
-/

open Machinery

namespace Yunogram

namespace Mtproto

namespace TlsSocket

variable {keys : TlsKeys} {s : TlsSocket} {b c rest out : Bytes}

/-! ## The hello -/

theorem shiftIncomingBy_ok (ho : s.incomingGoodDataOffset = 0) (hl : s.incomingGoodDataLimit = 0)
    (amount : ℕ) :
    s.shiftIncomingBy amount = .ok { s with incoming := s.incoming.drop amount } := by
  rw [shiftIncomingBy, expects_ok ho, expects_ok hl, ok_bind, ok_bind]
  split
  · rfl
  · next h =>
    rw [List.drop_eq_nil_of_le (not_lt.mp h)]
    rfl

/-- The first part of the hello is there and good. -/
def Part12 (b : Bytes) : Prop :=
  parts1Size ≤ b.length ∧
    ¬(kMaxServerHelloLength < helloParts123 b ∨ !checkPart b kServerHelloPart1)

/-- The third part is there and good. -/
def Part34 (b : Bytes) : Prop :=
  helloParts123 b ≤ b.length ∧ ¬(kMaxServerHelloLength < helloFull b ∨
    !checkPart (b.drop (helloParts123 b - kLengthSize - kServerHelloPart3.length))
      kServerHelloPart3)

/-- The length of a part that was found out from `b`. -/
inductive HelloLength (b : Bytes) : ℕ → Prop
  | parts1 : HelloLength b parts1Size
  | parts123 : Part12 b → HelloLength b (helloParts123 b)
  | full : Part12 b → Part34 b → HelloLength b (helloFull b)

theorem Part12.append (h : Part12 b) (c : Bytes) : Part12 (b ++ c) := by
  have hle : kServerHelloPart1.length ≤ parts1Size := by decide
  have h1 := h.1
  rw [Part12, helloParts123_append h1, checkPart_append (by omega), List.length_append]
  exact ⟨by omega, h.2⟩

theorem Part34.append (h1 : parts1Size ≤ b.length) (h : Part34 b) (c : Bytes) :
    Part34 (b ++ c) := by
  have hle := le_helloParts123 b
  have h3 := h.1
  rw [Part34, helloParts123_append h1, helloFull_append h1 c h3,
    List.drop_append_of_le_length (by omega), checkPart_append (by rw [List.length_drop]; omega),
    List.length_append]
  exact ⟨by omega, h.2⟩

/-- **A length that was found out stays when more arrives.** -/
theorem HelloLength.append {n : ℕ} (h : HelloLength b n) (c : Bytes) :
    HelloLength (b ++ c) n := by
  cases h with
  | parts1 => exact .parts1
  | parts123 h12 =>
    rw [← helloParts123_append h12.1 c]
    exact .parts123 (h12.append c)
  | full h12 h34 =>
    rw [← helloFull_append h12.1 c h34.1]
    exact .full (h12.append c) (h34.append h12.1 c)

theorem parseHello_of_part12 (h : Part12 b) : parseHello keys b =
    if b.length < helloParts123 b then .waiting else parseHelloParts34 keys b := by
  rw [parseHello, if_neg (not_lt.mpr h.1), if_neg h.2]

theorem parseHelloParts34_of_part34 (h : Part34 b) : parseHelloParts34 keys b =
    if b.length < helloFull b then .waiting else parseHelloDigest keys b := by
  rw [parseHelloParts34, if_neg h.2]

/-- **As long as the part is not there the hello is waited for.** -/
theorem HelloLength.parseHello {n : ℕ} (h : HelloLength b n) (hn : b.length < n) :
    parseHello keys b = .waiting := by
  cases h with
  | parts1 => rw [Mtproto.parseHello, if_pos hn]
  | parts123 h12 => rw [parseHello_of_part12 h12, if_pos hn]
  | full h12 h34 =>
    rw [parseHello_of_part12 h12, if_neg (not_lt.mpr h34.1), parseHelloParts34_of_part34 h34,
      if_pos hn]

/-- The socket before the hello is complete, having taken the bytes `b`. -/
structure AtHello (keys : TlsKeys) (b : Bytes) (s : TlsSocket) : Prop where
  state : s.state = .waitingHello
  incoming : s.incoming = keys.digest ++ b
  offset : s.incomingGoodDataOffset = 0
  limit : s.incomingGoodDataLimit = 0
  queued : s.checkQueued = false

/-- The socket after it looked at the hello in `b`, with the result `r`. -/
def AfterHello (keys : TlsKeys) (b : Bytes) (r : HelloResult) (s : TlsSocket) : Prop :=
  match r with
  | .waiting => AtHello keys b s ∧ HelloLength b s.serverHelloLength ∧
      b.length < s.serverHelloLength
  | .failed => s.state = .error ∧ s.incomingGoodDataOffset = 0 ∧ s.incomingGoodDataLimit = 0 ∧
      s.checkQueued = false
  | .connected rest => s.state = .connected ∧ s.incoming = rest ∧ s.incomingGoodDataOffset = 0 ∧
      s.incomingGoodDataLimit = 0 ∧ s.checkQueued = !rest.isEmpty

theorem AtHello.ready_iff (h : AtHello keys b s) :
    s.requiredHelloPartReady = true ↔ s.serverHelloLength ≤ b.length := by
  rw [requiredHelloPartReady, h.incoming, List.length_append, keys.length_digest,
    decide_eq_true_iff]
  omega

theorem AtHello.ready_eq_false (h : AtHello keys b s) :
    s.requiredHelloPartReady = false ↔ b.length < s.serverHelloLength := by
  rw [← Bool.not_eq_true, h.ready_iff, not_le]

theorem AtHello.withLength (h : AtHello keys b s) (n : ℕ) :
    AtHello keys b { s with serverHelloLength := n } :=
  ⟨h.state, h.incoming, h.offset, h.limit, h.queued⟩

theorem AtHello.handleError (h : AtHello keys b s) : AfterHello keys b .failed s.handleError :=
  ⟨rfl, h.offset, h.limit, h.queued⟩

/-- The view of the first `n` bytes of the hello. -/
theorem AtHello.subspan (h : AtHello keys b s) {n : ℕ} (hn : n ≤ b.length) :
    subspan s.incoming kHelloDigestLength n = .ok (b.take n) := by
  have hd := keys.length_digest
  rw [h.incoming, subspan_ok (by rw [List.length_append]; omega), ← hd]
  have hslice : slice (keys.digest ++ b) (keys.digest.length + 0) n = slice b 0 n :=
    slice_append keys.digest b
  exact congrArg Except.ok hslice

theorem checkHelloDigest_ok (h : AtHello keys b s) (hlen : s.serverHelloLength = helloFull b)
    (hb : helloFull b ≤ b.length) :
    ∃ s', s.checkHelloDigest keys = .ok s' ∧ s'.available = s.available ∧
      parseHelloDigest keys b ≠ .waiting ∧ AfterHello keys b (parseHelloDigest keys b) s' := by
  have hd := keys.length_digest
  rw [checkHelloDigest, parseHelloDigest, hlen]
  by_cases hsmall : helloFull b < kServerHelloDigestPosition + kHelloDigestLength
  · rw [if_pos hsmall, if_pos (Or.inl hsmall)]
    exact ⟨_, rfl, rfl, fun h => (by cases h), h.handleError⟩
  have hdata : Machinery.subspan s.incoming 0 (kHelloDigestLength + helloFull b)
      = .ok (keys.digest ++ b.take (helloFull b)) := by
    rw [h.incoming, subspan_ok (by rw [List.length_append]; omega), slice, List.drop_zero,
      List.take_append, List.take_of_length_le (by omega), hd, Nat.add_sub_cancel_left]
  have htake : (b.take (helloFull b)).length = helloFull b := by
    rw [List.length_take, min_eq_left hb]
  have hdigest : Machinery.subspan (keys.digest ++ b.take (helloFull b))
      (kHelloDigestLength + kServerHelloDigestPosition) kHelloDigestLength
      = .ok (slice (b.take (helloFull b)) kServerHelloDigestPosition kHelloDigestLength) := by
    rw [subspan_ok (by rw [List.length_append]; omega), ← hd, slice_append]
  have hzeroed : overwrite (keys.digest ++ b.take (helloFull b))
      (kHelloDigestLength + kServerHelloDigestPosition) (List.replicate kHelloDigestLength 0)
      = keys.digest ++ overwrite (b.take (helloFull b)) kServerHelloDigestPosition
        (List.replicate kHelloDigestLength 0) := by
    rw [← hd, overwrite_append]
  have hrest : (overwrite s.incoming 0 (keys.digest ++ overwrite (b.take (helloFull b))
      kServerHelloDigestPosition (List.replicate kHelloDigestLength 0))).drop
      (keys.digest ++ b.take (helloFull b)).length = b.drop (helloFull b) := by
    have hover : (overwrite (b.take (helloFull b)) kServerHelloDigestPosition
        (List.replicate kHelloDigestLength 0)).length = (b.take (helloFull b)).length :=
      length_overwrite (by rw [List.length_replicate]; omega)
    rw [List.length_append, ← hover, ← List.length_append, drop_overwrite_start, h.incoming,
      List.length_append, hover, htake, List.drop_append, List.drop_eq_nil_of_le (by omega),
      List.nil_append, Nat.add_sub_cancel_left]
  rw [if_neg hsmall, hdata, ok_bind, hdigest, ok_bind, hzeroed]
  by_cases hgood : helloDigestGood keys (b.take (helloFull b)) = true
  · have heq := hgood
    rw [helloDigestGood, decide_eq_true_iff] at heq
    rw [if_neg (not_or.mpr ⟨hsmall, by rw [hgood]; decide⟩)]
    dsimp only
    rw [if_neg (not_not.mpr heq), shiftIncomingBy_ok (by exact h.offset) (by exact h.limit),
      ok_bind]
    dsimp only
    rw [hrest]
    exact ⟨_, rfl, rfl, fun h => (by cases h), rfl, rfl, rfl, rfl, by rw [h.queued]; rfl⟩
  · have heq := hgood
    rw [helloDigestGood, decide_eq_true_iff] at heq
    rw [if_pos (Or.inr (by simpa using hgood))]
    dsimp only
    rw [if_pos heq]
    exact ⟨_, rfl, rfl, fun h => (by cases h), rfl, h.offset, h.limit, h.queued⟩

theorem checkHelloParts34_ok (h : AtHello keys b s) (h12 : Part12 b)
    (h3 : helloParts123 b ≤ b.length)
    (hlen : s.serverHelloLength = helloParts123 b ∨
      Part34 b ∧ s.serverHelloLength = helloFull b ∧ helloFull b ≤ b.length) :
    ∃ s', s.checkHelloParts34 keys (helloParts123 b)
        = .ok (s', decide (parseHelloParts34 keys b = .waiting)) ∧
      s'.available = s.available ∧ AfterHello keys b (parseHelloParts34 keys b) s' := by
  have hle := le_helloParts123 b
  have htake : (b.take (helloParts123 b)).length = helloParts123 b := by
    rw [List.length_take, min_eq_left h3]
  have hpart4 : readPartLength (b.take (helloParts123 b)) (helloParts123 b - kLengthSize)
      = .ok (partLength (b.drop (helloParts123 b - kLengthSize))) := by
    rw [readPartLength_eq (by omega), List.drop_take, partLength_take (by omega)]
  rw [checkHelloParts34, h.subspan h3, ok_bind, hpart4, ok_bind]
  dsimp only
  rw [← helloFull]
  by_cases hmax : kMaxServerHelloLength < helloFull b
  · have hr : parseHelloParts34 keys b = .failed := if_pos (Or.inl hmax)
    rw [if_pos hmax, hr]
    exact ⟨_, rfl, rfl, h.handleError⟩
  rw [if_neg hmax]
  by_cases h123 : s.serverHelloLength = helloParts123 b
  · rw [if_pos h123, subspan_ok (by omega), ok_bind, slice_to_end, List.drop_take,
      checkPart_take (by omega)]
    split
    · next hbad =>
      have hr : parseHelloParts34 keys b = .failed := if_pos (Or.inr hbad)
      rw [hr]
      exact ⟨_, rfl, rfl, h.handleError⟩
    · next hgood =>
      have h34 : Part34 b := ⟨h3, not_or.mpr ⟨hmax, hgood⟩⟩
      have hfull := h.withLength (helloFull b)
      rw [parseHelloParts34_of_part34 h34]
      by_cases hb : b.length < helloFull b
      · rw [hfull.ready_eq_false.mpr hb, if_pos hb]
        exact ⟨_, rfl, rfl, hfull, .full h12 h34, hb⟩
      · obtain ⟨s', he, hav, hr, hafter⟩ := checkHelloDigest_ok hfull rfl (not_lt.mp hb)
        rw [hfull.ready_iff.mpr (not_lt.mp hb), if_neg hb, he, decide_eq_false hr]
        exact ⟨s', rfl, hav, hafter⟩
  · obtain ⟨h34, hfull, hb⟩ := hlen.resolve_left h123
    obtain ⟨s', he, hav, hr, hafter⟩ := checkHelloDigest_ok h hfull hb
    rw [if_neg h123, he, ok_bind, parseHelloParts34_of_part34 h34, if_neg (not_lt.mpr hb),
      decide_eq_false hr]
    exact ⟨s', rfl, hav, hafter⟩

theorem checkHelloParts12_ok (h : AtHello keys b s) (hlen : HelloLength b s.serverHelloLength)
    (hready : s.serverHelloLength ≤ b.length) :
    ∃ s', s.checkHelloParts12 keys = .ok (s', decide (parseHello keys b = .waiting)) ∧
      s'.available = s.available ∧ AfterHello keys b (parseHello keys b) s' := by
  have hle := le_helloParts123 b
  have hsize : kServerHelloPart1.length + kLengthSize = parts1Size := rfl
  have hzero : parts1Size - kLengthSize - kServerHelloPart1.length = 0 := rfl
  have h1 : parts1Size ≤ b.length := by
    have := le_helloFull b
    generalize s.serverHelloLength = n at hlen hready
    cases hlen <;> omega
  have htake : (b.take parts1Size).length = parts1Size := by
    rw [List.length_take, min_eq_left h1]
  have hpart2 : readPartLength (b.take parts1Size) (parts1Size - kLengthSize)
      = .ok (partLength (b.drop (parts1Size - kLengthSize))) := by
    rw [readPartLength_eq (by omega), List.drop_take, partLength_take (by omega)]
  rw [checkHelloParts12, h.subspan h1, ok_bind, hpart2, ok_bind]
  dsimp only
  rw [← helloParts123]
  by_cases hmax : kMaxServerHelloLength < helloParts123 b
  · have hr : parseHello keys b = .failed := by
      rw [parseHello, if_neg (not_lt.mpr h1), if_pos (Or.inl hmax)]
    rw [if_pos hmax, hr]
    exact ⟨_, rfl, rfl, h.handleError⟩
  rw [if_neg hmax]
  by_cases hfirst : s.serverHelloLength = parts1Size
  · rw [if_pos hfirst, subspan_ok (by omega), ok_bind, slice_to_end, hzero, List.drop_zero,
      checkPart_take (by omega)]
    split
    · next hbad =>
      have hr : parseHello keys b = .failed := by
        rw [parseHello, if_neg (not_lt.mpr h1), if_pos (Or.inr hbad)]
      rw [hr]
      exact ⟨_, rfl, rfl, h.handleError⟩
    · next hgood =>
      have h12 : Part12 b := ⟨h1, not_or.mpr ⟨hmax, hgood⟩⟩
      have h123 := h.withLength (helloParts123 b)
      rw [parseHello_of_part12 h12]
      by_cases hb : b.length < helloParts123 b
      · rw [h123.ready_eq_false.mpr hb, if_pos hb]
        exact ⟨_, rfl, rfl, h123, .parts123 h12, hb⟩
      · rw [h123.ready_iff.mpr (not_lt.mp hb), if_neg hb]
        exact checkHelloParts34_ok h123 h12 (not_lt.mp hb) (Or.inl rfl)
  · rw [if_neg hfirst]
    generalize hn : s.serverHelloLength = n at hlen hready hfirst
    cases hlen with
    | parts1 => exact absurd rfl hfirst
    | parts123 h12 =>
      rw [parseHello_of_part12 h12, if_neg (not_lt.mpr hready)]
      exact checkHelloParts34_ok h h12 hready (Or.inl hn)
    | full h12 h34 =>
      rw [parseHello_of_part12 h12, if_neg (not_lt.mpr h34.1)]
      exact checkHelloParts34_ok h h12 h34.1 (Or.inr ⟨h34, hn, hready⟩)

/-- The socket knows the length of a part that is not there, or did not look at anything yet. -/
def Awaits (b : Bytes) (s : TlsSocket) : Prop :=
  s.serverHelloLength = 0 ∧ b = [] ∨
    HelloLength b s.serverHelloLength ∧ b.length < s.serverHelloLength

theorem AtHello.appendAll (h : AtHello keys b s) : AtHello keys (b ++ s.available) s.appendAll :=
  ⟨h.state, by rw [TlsSocket.appendAll, h.incoming, List.append_assoc], h.offset, h.limit, h.queued⟩

theorem awaitHelloPart_ok (h : AtHello keys b s) (hw : Awaits b s) :
    s.awaitHelloPart.available = [] ∧ AtHello keys (b ++ s.available) s.awaitHelloPart ∧
      HelloLength (b ++ s.available) s.awaitHelloPart.serverHelloLength := by
  rw [awaitHelloPart]
  rcases hw with ⟨h0, rfl⟩ | ⟨hlen, hb⟩
  · have h1 := h.withLength parts1Size
    have hpos : ([] : Bytes).length < parts1Size := by decide
    rw [if_pos h0, h1.ready_eq_false.mpr hpos]
    exact ⟨rfl, h1.appendAll, .parts1⟩
  · have h0 : s.serverHelloLength ≠ 0 := by omega
    rw [if_neg h0, h.ready_eq_false.mpr hb]
    exact ⟨rfl, h.appendAll, hlen.append _⟩

theorem readHello_idle (h : AtHello keys b s) (ha : s.available = [])
    (hb : b.length < s.serverHelloLength) : s.readHello keys = .ok s := by
  have h0 : s.serverHelloLength ≠ 0 := by omega
  have hs : s.awaitHelloPart = s := by
    rw [awaitHelloPart, if_neg h0, h.ready_eq_false.mpr hb, appendAll, ha, List.append_nil, ← ha]
    rfl
  rw [readHello, hs, dif_neg (by rw [h.ready_iff]; omega)]

/-- **`readHello` takes what is available and finds in all bytes what `parseHello` finds.** -/
theorem readHello_ok (h : AtHello keys b s) (hw : Awaits b s) :
    ∃ s', s.readHello keys = .ok s' ∧ s'.available = [] ∧
      AfterHello keys (b ++ s.available) (parseHello keys (b ++ s.available)) s' := by
  obtain ⟨ha, ht, hlen⟩ := awaitHelloPart_ok h hw
  rw [readHello]
  by_cases hready : s.awaitHelloPart.requiredHelloPartReady = true
  · obtain ⟨s', he, hav, hafter⟩ := checkHelloParts12_ok ht hlen (ht.ready_iff.mp hready)
    rw [dif_pos hready]
    split
    · next hfault => cases he.symm.trans hfault
    · next s'' hagain =>
      obtain ⟨rfl, hwait⟩ := Prod.mk.inj (Except.ok.inj (he.symm.trans hagain))
      have hr := of_decide_eq_true hwait
      rw [hr] at hafter ⊢
      exact ⟨s', readHello_idle hafter.1 (hav.trans ha) hafter.2.2, hav.trans ha, hafter⟩
    · next s'' hdone =>
      obtain ⟨rfl, -⟩ := Prod.mk.inj (Except.ok.inj (he.symm.trans hdone))
      exact ⟨s', rfl, hav.trans ha, hafter⟩
  · have hb : (b ++ s.available).length < s.awaitHelloPart.serverHelloLength := by
      rwa [ht.ready_iff, not_le] at hready
    rw [dif_neg hready, hlen.parseHello hb]
    exact ⟨_, rfl, ha, ht, hlen, hb⟩

/-! ## The records -/

/-- The socket after the hello, of which `rest` are the bytes behind the hello: what it returned and
what is found in its buffer are the records of `rest`, whatever follows. -/
structure Delivers (rest out : Bytes) (s : TlsSocket) : Prop where
  stream : ∀ c, records (rest ++ c) =
    (out ++ (unread s.incomingGoodDataLimit
        (s.incoming.drop s.incomingGoodDataOffset ++ c)).1,
      (unread s.incomingGoodDataLimit (s.incoming.drop s.incomingGoodDataOffset ++ c)).2)
  inside : s.incomingGoodDataOffset ≤ s.incoming.length
  offset : s.incomingGoodDataLimit = 0 → s.incomingGoodDataOffset = 0

/-- There is no record in the buffer that was not found. -/
def Settled (s : TlsSocket) : Prop :=
  s.incomingGoodDataLimit = 0 → records s.incoming = ([], false)

/-- What the loop of `checkNextPacket` can come to, from `offset` on. -/
inductive Checked (s : TlsSocket) (offset : ℕ) : TlsSocket → Bool → Prop
  | bad : (∀ c, records (s.incoming.drop offset ++ c) = ([], true)) → Checked s offset s false
  | nothing : records (s.incoming.drop offset) = ([], false) → Checked s offset s true
  | found (skipped length : ℕ) : skipped + (kServerHeader.length + kLengthSize) ≤ s.incoming.length →
    0 < length →
    (∀ c, records (s.incoming.drop offset ++ c)
      = unread length ((s.incoming.drop skipped).drop (kServerHeader.length + kLengthSize) ++ c)) →
    Checked s offset { s with
      incoming := s.incoming.drop skipped
      incomingGoodDataOffset := kServerHeader.length + kLengthSize
      incomingGoodDataLimit := length } true

theorem records_bad_append (h : kServerHeader.length + kLengthSize < b.length)
    (hbad : checkPart b kServerHeader = false) (c : Bytes) : records (b ++ c) = ([], true) := by
  refine records_bad (by rw [List.length_append]; omega) ?_
  rw [checkPart_append (by omega), hbad]

theorem records_record_append (h : kServerHeader.length + kLengthSize < b.length)
    (hgood : checkPart b kServerHeader = true) (c : Bytes) :
    records (b ++ c) = unread (partLength (b.drop kServerHeader.length))
      (b.drop (kServerHeader.length + kLengthSize) ++ c) := by
  rw [records_record (by rw [List.length_append]; omega) (by rw [checkPart_append (by omega), hgood]),
    List.drop_append_of_le_length (by omega), List.drop_append_of_le_length (by omega),
    partLength_append (by rw [List.length_drop]; omega)]

theorem Checked.skip {offset offset' : ℕ} {s' : TlsSocket} {good : Bool}
    (h : Checked s offset' s' good)
    (he : ∀ c, records (s.incoming.drop offset ++ c) = records (s.incoming.drop offset' ++ c)) :
    Checked s offset s' good := by
  cases h with
  | bad hbad => exact .bad fun c => (he c).trans (hbad c)
  | nothing hnothing =>
    have h0 := he []
    rw [List.append_nil, List.append_nil] at h0
    exact .nothing (h0.trans hnothing)
  | found skipped length hskipped hlength hrecord =>
    exact .found skipped length hskipped hlength fun c => (he c).trans (hrecord c)

theorem checkNextPacketFrom_ok (ho : s.incomingGoodDataOffset = 0)
    (hl : s.incomingGoodDataLimit = 0) (offset : ℕ) :
    ∃ s' good, s.checkNextPacketFrom offset = .ok (s', good) ∧ Checked s offset s' good := by
  induction hk : s.incoming.length - offset using Nat.strong_induction_on generalizing offset with
  | _ k ih =>
    have hpos : 0 < kServerHeader.length := by decide
    have hsize : (s.incoming.drop offset).length = s.incoming.length - offset :=
      List.length_drop
    rw [checkNextPacketFrom, if_neg (not_not.mpr hl)]
    dsimp only
    by_cases hshort : s.incoming.length ≤ offset + (kServerHeader.length + kLengthSize)
    · rw [dif_pos hshort]
      exact ⟨s, true, rfl, .nothing (records_short (by omega))⟩
    rw [dif_neg hshort, subspan_ok (by omega), ok_bind, slice_to_end]
    have hrest : kServerHeader.length + kLengthSize < (s.incoming.drop offset).length := by omega
    by_cases hbad : checkPart (s.incoming.drop offset) kServerHeader = false
    · rw [hbad]
      exact ⟨s, false, rfl, .bad (records_bad_append hrest hbad)⟩
    have hgood := (Bool.not_eq_false _).mp hbad
    have hrecord := records_record_append hrest hgood
    rw [hgood, if_neg (by decide), readPartLength_eq (by omega), ok_bind]
    rw [List.drop_drop] at hrecord
    rcases Nat.eq_zero_or_pos (partLength (s.incoming.drop (offset + kServerHeader.length)))
      with h0 | hlength
    · -- an empty record is skipped
      rw [if_neg (by omega), h0]
      obtain ⟨s', good, he, hc⟩ := ih _ (by omega)
        (offset + kServerHeader.length + kLengthSize + 0) rfl
      refine ⟨s', good, he, hc.skip fun c => ?_⟩
      rw [hrecord, h0, unread_zero, List.drop_drop, Nat.add_zero, Nat.add_assoc]
    · rw [if_pos hlength]
      refine ⟨_, true, ?_, .found offset _ (by omega) hlength hrecord⟩
      split
      · rw [shiftIncomingBy_ok ho hl]
        rfl
      · next h0 =>
        rw [show offset = 0 by omega, List.drop_zero]
        rfl

/-- What the checks and reads leave alone. -/
def Kept (s s' : TlsSocket) : Prop :=
  s'.available = s.available ∧ s'.checkQueued = s.checkQueued

/-- **`checkNextPacket` keeps what is delivered**, and says whether there is a bad record. -/
theorem checkNextPacket_ok (h : Delivers rest out s) :
    ∃ s' good, s.checkNextPacket = .ok (s', good) ∧ Delivers rest out s' ∧ Kept s s' ∧
      s'.state = s.state ∧ (good = true → Settled s') ∧
      (good = false → ∀ c, records (rest ++ c) = (out, true)) := by
  by_cases hl : s.incomingGoodDataLimit = 0
  · have ho := h.offset hl
    obtain ⟨s', good, he, hc⟩ := checkNextPacketFrom_ok ho hl 0
    have hstream := h.stream
    rw [hl, ho] at hstream
    refine ⟨s', good, he, ?_⟩
    cases hc with
    | bad hbad =>
      refine ⟨h, ⟨rfl, rfl⟩, rfl, nofun, fun _ c => ?_⟩
      rw [hstream, unread_zero, hbad, List.append_nil]
    | nothing hnothing => exact ⟨h, ⟨rfl, rfl⟩, rfl, fun _ _ => hnothing, nofun⟩
    | found skipped length hskipped hlength hrecord =>
      refine ⟨⟨fun c => ?_, ?_, fun h0 => absurd h0 (Nat.ne_of_gt hlength)⟩, ⟨rfl, rfl⟩, rfl,
        fun _ h0 => absurd h0 (Nat.ne_of_gt hlength), nofun⟩
      · rw [hstream, unread_zero, hrecord]
      · show kServerHeader.length + kLengthSize ≤ (s.incoming.drop skipped).length
        rw [List.length_drop]
        omega
  · refine ⟨s, true, ?_, h, ⟨rfl, rfl⟩, rfl, fun _ h0 => absurd h0 hl, nofun⟩
    rw [checkNextPacket, checkNextPacketFrom, if_pos hl]
    rfl

theorem Delivers.of_eq {s' : TlsSocket} (h : Delivers rest out s)
    (hi : s'.incoming = s.incoming) (ho : s'.incomingGoodDataOffset = s.incomingGoodDataOffset)
    (hl : s'.incomingGoodDataLimit = s.incomingGoodDataLimit) : Delivers rest out s' :=
  ⟨by rw [hi, ho, hl]; exact h.stream, by rw [hi, ho]; exact h.inside,
    by rw [ho, hl]; exact h.offset⟩

theorem Delivers.appendAll (h : Delivers rest out s) :
    Delivers (rest ++ s.available) out s.appendAll := by
  have hin := h.inside
  refine ⟨fun c => ?_, ?_, h.offset⟩
  · have hdrop : s.appendAll.incoming.drop s.appendAll.incomingGoodDataOffset
        = s.incoming.drop s.incomingGoodDataOffset ++ s.available :=
      List.drop_append_of_le_length hin
    rw [hdrop, List.append_assoc, List.append_assoc]
    exact h.stream _
  · show s.incomingGoodDataOffset ≤ (s.incoming ++ s.available).length
    rw [List.length_append]
    omega

/-- Bytes of a record that were returned. -/
theorem Delivers.take (h : Delivers rest out s) {n : ℕ} (hn : n ≤ s.incomingGoodDataLimit)
    (hin : s.incomingGoodDataOffset + n ≤ s.incoming.length) (c : Bytes) :
    records (rest ++ c) =
      (out ++ slice s.incoming s.incomingGoodDataOffset n
          ++ (unread (s.incomingGoodDataLimit - n)
            (s.incoming.drop (s.incomingGoodDataOffset + n) ++ c)).1,
        (unread (s.incomingGoodDataLimit - n)
          (s.incoming.drop (s.incomingGoodDataOffset + n) ++ c)).2) := by
  have hlen : n ≤ (s.incoming.drop s.incomingGoodDataOffset).length := by
    rw [List.length_drop]
    omega
  rw [h.stream, unread_take hn (by rw [List.length_append]; omega),
    List.take_append_of_le_length hlen, List.drop_append_of_le_length hlen, List.drop_drop,
    List.append_assoc, slice]

/-- **`read` returns what `records` says comes next.** -/
theorem read_ok (size : ℕ) (h : Delivers rest out s) :
    ∃ s' bytes, s.read size = .ok (s', bytes) ∧ Delivers rest (out ++ bytes) s' ∧ Kept s s' ∧
      (s'.state = s.state ∧ (Settled s → Settled s') ∨
        s'.state = .error ∧ ∀ c, records (rest ++ c) = (out ++ bytes, true)) := by
  induction size using Nat.strong_induction_on generalizing s out with
  | _ size ih =>
    have hidle : ∃ s' bytes, (Except.ok (s, []) : Except Fault _) = .ok (s', bytes) ∧
        Delivers rest (out ++ bytes) s' ∧ Kept s s' ∧
        (s'.state = s.state ∧ (Settled s → Settled s') ∨
          s'.state = .error ∧ ∀ c, records (rest ++ c) = (out ++ bytes, true)) :=
      ⟨s, [], rfl, by rwa [List.append_nil], ⟨rfl, rfl⟩, Or.inl ⟨rfl, id⟩⟩
    rw [read]
    by_cases hl : s.incomingGoodDataLimit = 0
    · rw [if_pos hl]
      exact hidle
    rw [if_neg hl]
    dsimp only
    by_cases ha : min s.incomingGoodDataLimit (s.incoming.length - s.incomingGoodDataOffset) = 0
    · rw [if_pos ha]
      exact hidle
    rw [if_neg ha]
    generalize hn : min (min s.incomingGoodDataLimit
      (s.incoming.length - s.incomingGoodDataOffset)) size = n
    by_cases h0 : n = 0
    · rw [dif_pos h0]
      exact hidle
    rw [dif_neg h0, subspan_ok (by omega), ok_bind]
    have hmore := h.take (n := n) (by omega) (by omega)
    by_cases hleft : s.incomingGoodDataLimit - n = 0
    · -- the record is finished
      let t : TlsSocket := { s with
        incomingGoodDataLimit := s.incomingGoodDataLimit - n
        incomingGoodDataOffset := 0
        incoming := s.incoming.drop (s.incomingGoodDataOffset + n) }
      have ht : Delivers rest (out ++ slice s.incoming s.incomingGoodDataOffset n) t :=
        ⟨hmore, Nat.zero_le _, fun _ => rfl⟩
      obtain ⟨u, good, hu, hdu, hku, hstate, hsettled, hbad⟩ := checkNextPacket_ok ht
      rw [if_neg (not_not.mpr hleft), shiftIncomingBy_ok rfl (by exact hleft), ok_bind, hu, ok_bind]
      cases good with
      | false =>
        exact ⟨u.handleError, _, rfl, hdu.of_eq rfl rfl rfl, hku, Or.inr ⟨rfl, hbad rfl⟩⟩
      | true =>
        obtain ⟨s', more, he, hd', hk', hs'⟩ := ih (size - n) (by omega) hdu
        refine ⟨s', _, by dsimp only; rw [he]; rfl, by rwa [← List.append_assoc],
          ⟨hk'.1.trans hku.1, hk'.2.trans hku.2⟩, ?_⟩
        rw [← List.append_assoc]
        exact hs'.imp (fun hs => ⟨hs.1.trans hstate, fun _ => hs.2 (hsettled rfl)⟩) id
    · rw [if_pos hleft]
      exact ⟨_, _, rfl, ⟨hmore, by dsimp only; omega, fun h0 => absurd h0 hleft⟩, ⟨rfl, rfl⟩,
        Or.inl ⟨rfl, fun _ h0 => absurd h0 hleft⟩⟩

/-! ## All events -/

/-- The socket after the hello was good. -/
structure Connected (rest out : Bytes) (s : TlsSocket) : Prop where
  delivers : Delivers rest out s
  state : s.state = .connected ∧ (s.checkQueued = false → Settled s) ∨
    s.state = .error ∧ ∀ c, records (rest ++ c) = (out, true)

/-- The socket that took the bytes `taken` and returned `out`. -/
def Follows (keys : TlsKeys) (taken out : Bytes) (s : TlsSocket) : Prop :=
  match parseHello keys taken with
  | .waiting => AtHello keys taken s ∧ Awaits taken s ∧ out = []
  | .failed => s.state = .error ∧ s.incomingGoodDataLimit = 0 ∧ s.checkQueued = false ∧ out = []
  | .connected rest => Connected rest out s

variable {taken : Bytes}

theorem follows_start (keys : TlsKeys) : Follows keys [] [] (start keys) :=
  ⟨⟨rfl, (List.append_nil _).symm, rfl, rfl, rfl⟩, Or.inl ⟨rfl, rfl⟩, rfl⟩

/-- New bytes at the plain socket change nothing. -/
theorem Follows.arrive (h : Follows keys taken out s) (bytes : Bytes) :
    Follows keys taken out { s with available := s.available ++ bytes } := by
  rw [Follows] at h ⊢
  split at h
  · obtain ⟨h0, hw, hout⟩ := h
    exact ⟨⟨h0.state, h0.incoming, h0.offset, h0.limit, h0.queued⟩, hw, hout⟩
  · exact h
  · exact ⟨h.delivers.of_eq rfl rfl rfl, h.state⟩

theorem AfterHello.follows {s' : TlsSocket} (h : AfterHello keys b (parseHello keys b) s') :
    Follows keys b [] s' := by
  rw [Follows]
  cases hr : parseHello keys b with
  | waiting =>
    rw [hr] at h
    exact ⟨h.1, Or.inr h.2, rfl⟩
  | failed =>
    rw [hr] at h
    exact ⟨h.1, h.2.2.1, h.2.2.2, rfl⟩
  | connected rest =>
    rw [hr] at h
    obtain ⟨hstate, hin, ho, hl, hq⟩ := h
    refine ⟨⟨fun c => ?_, by omega, fun _ => ho⟩, Or.inl ⟨hstate, fun hnot _ => ?_⟩⟩
    · rw [hl, ho, hin]
      rfl
    · rw [hq, Bool.not_eq_false', List.isEmpty_iff] at hnot
      rw [hin, hnot, records_short (Nat.zero_le _)]

theorem Connected.state_ne (h : Connected rest out s) : s.state ≠ .waitingHello := by
  rcases h.state with ⟨hs, -⟩ | ⟨hs, -⟩ <;> rw [hs] <;> decide

/-- What a check makes of the socket. -/
theorem Delivers.check (h : Delivers rest out s)
    (hs : s.state = .connected ∨ s.state = .error ∧ ∀ c, records (rest ++ c) = (out, true)) :
    ∃ s' good, s.checkNextPacket = .ok (s', good) ∧ s'.available = s.available ∧
      Connected rest out (if good then s' else s'.handleError) := by
  obtain ⟨s', good, he, hd, hk, hstate, hsettled, hbad⟩ := checkNextPacket_ok h
  refine ⟨s', good, he, hk.1, ?_⟩
  cases good with
  | false => exact ⟨hd.of_eq rfl rfl rfl, Or.inr ⟨rfl, hbad rfl⟩⟩
  | true => exact ⟨hd, hs.imp (fun hc => ⟨hstate.trans hc, fun _ => hsettled rfl⟩)
      fun hc => ⟨hstate.trans hc.1, hc.2⟩⟩

theorem Connected.readData (h : Connected rest out s) (hs : s.state = .connected) :
    ∃ s', s.readData = .ok s' ∧ s'.available = [] ∧ Connected (rest ++ s.available) out s' := by
  obtain ⟨s', good, he, ha, hc⟩ := h.delivers.appendAll.check (Or.inl hs)
  rw [TlsSocket.readData, if_neg (not_not.mpr hs), he, ok_bind]
  refine ⟨_, rfl, ?_, hc⟩
  cases good <;> exact ha

theorem Connected.read (h : Connected rest out s) (size : ℕ) :
    ∃ s' bytes, s.read size = .ok (s', bytes) ∧ s'.available = s.available ∧
      Connected rest (out ++ bytes) s' := by
  obtain ⟨s', bytes, he, hd, hk, hs'⟩ := read_ok size h.delivers
  refine ⟨s', bytes, he, hk.1, hd, ?_⟩
  rcases hs' with ⟨hstate, hsettled⟩ | hbad
  · refine h.state.imp (fun hs => ⟨hstate.trans hs.1, fun hq => ?_⟩)
      fun hs => ⟨hstate.trans hs.1, fun c => ?_⟩
    · rw [hk.2] at hq
      exact hsettled (hs.2 hq)
    · -- nothing is left to return after a bad record
      have hnothing := congrArg Prod.fst (hd.stream c)
      rw [hs.2, List.append_assoc] at hnothing
      have hbytes := (List.append_eq_nil_iff.mp (List.self_eq_append_right.mp hnothing)).1
      rw [hs.2, hbytes, List.append_nil]
  · exact Or.inr hbad

/-- The bytes that arrived at the plain socket. -/
def arrived (events : List TlsEvent) : Bytes :=
  events.flatMap fun
    | .arrive bytes => bytes
    | _ => []

theorem Follows.of_connected (hr : parseHello keys taken = .connected rest)
    (h : Connected rest out s) : Follows keys taken out s := by
  rw [Follows, hr]
  exact h

theorem Follows.plainReadyRead (h : Follows keys taken out s) :
    ∃ s' taken', s.plainReadyRead keys = .ok s' ∧ taken ++ s.available = taken' ++ s'.available ∧
      Follows keys taken' out s' := by
  have h' := h
  rw [Follows] at h
  cases hr : parseHello keys taken with
  | waiting =>
    rw [hr] at h
    obtain ⟨hat, hw, rfl⟩ := h
    obtain ⟨s', he, ha, hafter⟩ := readHello_ok hat hw
    refine ⟨s', taken ++ s.available, ?_, by rw [ha, List.append_nil], hafter.follows⟩
    rw [TlsSocket.plainReadyRead, hat.state]
    exact he
  | failed =>
    rw [hr] at h
    refine ⟨s, taken, ?_, rfl, h'⟩
    rw [TlsSocket.plainReadyRead, h.1]
  | connected rest =>
    rw [hr] at h
    rcases h.state with ⟨hs, -⟩ | ⟨hs, -⟩
    · obtain ⟨s', he, ha, hc⟩ := h.readData hs
      refine ⟨s', taken ++ s.available, ?_, by rw [ha, List.append_nil], .of_connected ?_ hc⟩
      · rw [TlsSocket.plainReadyRead, hs]
        exact he
      · rw [parseHello_append (by rw [hr]; nofun), hr]
        rfl
    · refine ⟨s, taken, ?_, rfl, h'⟩
      rw [TlsSocket.plainReadyRead, hs]

theorem Follows.checkNextPacket (h : Follows keys taken out s) :
    ∃ s', TlsSocket.step keys s .checkNextPacket = .ok (s', []) ∧ s'.available = s.available ∧
      Follows keys taken out s' := by
  have h' := h
  rw [TlsSocket.step]
  by_cases hq : s.checkQueued = false
  · rw [hq]
    exact ⟨s, rfl, rfl, h'⟩
  rw [(Bool.not_eq_false _).mp hq, if_neg (by decide)]
  rw [Follows] at h
  cases hr : parseHello keys taken with
  | waiting =>
    rw [hr] at h
    exact absurd h.1.queued hq
  | failed =>
    rw [hr] at h
    exact absurd h.2.2.1 hq
  | connected rest =>
    rw [hr] at h
    have hd : Delivers rest out { s with checkQueued := false } := h.delivers.of_eq rfl rfl rfl
    obtain ⟨s', good, he, ha, hc⟩ := hd.check (h.state.imp And.left id)
    rw [he, ok_bind]
    refine ⟨_, rfl, ?_, .of_connected hr hc⟩
    cases good <;> exact ha

theorem Follows.read (h : Follows keys taken out s) (size : ℕ) :
    ∃ s' bytes, s.read size = .ok (s', bytes) ∧ s'.available = s.available ∧
      Follows keys taken (out ++ bytes) s' := by
  have h' := h
  have hidle : s.incomingGoodDataLimit = 0 → ∃ s' bytes, s.read size = .ok (s', bytes) ∧
      s'.available = s.available ∧ Follows keys taken (out ++ bytes) s' := fun hl => by
    refine ⟨s, [], ?_, rfl, by rwa [List.append_nil]⟩
    rw [TlsSocket.read, if_pos hl]
    rfl
  rw [Follows] at h
  cases hr : parseHello keys taken with
  | waiting =>
    rw [hr] at h
    exact hidle h.1.limit
  | failed =>
    rw [hr] at h
    exact hidle h.2.1
  | connected rest =>
    rw [hr] at h
    obtain ⟨s', bytes, he, ha, hc⟩ := Connected.read h size
    exact ⟨s', bytes, he, ha, .of_connected hr hc⟩

/-- **One event.** -/
theorem Follows.step (h : Follows keys taken out s) (e : TlsEvent) :
    ∃ s' bytes taken', TlsSocket.step keys s e = .ok (s', bytes) ∧
      taken ++ s.available ++ arrived [e] = taken' ++ s'.available ∧
      Follows keys taken' (out ++ bytes) s' := by
  cases e with
  | arrive bytes =>
    refine ⟨_, [], taken, rfl, ?_, ?_⟩
    · show taken ++ s.available ++ (bytes ++ []) = taken ++ (s.available ++ bytes)
      rw [List.append_nil, List.append_assoc]
    · rw [List.append_nil]
      exact h.arrive bytes
  | plainReadyRead =>
    obtain ⟨s', taken', he, ht, hf⟩ := h.plainReadyRead
    refine ⟨s', [], taken', ?_, (List.append_nil _).trans ht, by rwa [List.append_nil]⟩
    rw [TlsSocket.step, he]
    rfl
  | checkNextPacket =>
    obtain ⟨s', he, ha, hf⟩ := h.checkNextPacket
    exact ⟨s', [], taken, he, by rw [ha]; exact List.append_nil _, by rwa [List.append_nil]⟩
  | read size =>
    obtain ⟨s', bytes, he, ha, hf⟩ := Follows.read h size
    exact ⟨s', bytes, taken, he, by rw [ha]; exact List.append_nil _, hf⟩

/-- **A run of events.** -/
theorem follows_run (keys : TlsKeys) (events : List TlsEvent) :
    ∃ s out, runChecked (TlsSocket.step keys) (start keys) events = .ok (s, out) ∧
      ∃ taken, arrived events = taken ++ s.available ∧ Follows keys taken out s := by
  refine runChecked_induction
    (fun events s out => ∃ taken, arrived events = taken ++ s.available ∧ Follows keys taken out s)
    ⟨[], rfl, follows_start keys⟩ (fun xs s t x h => ?_) events
  obtain ⟨taken, ha, hf⟩ := h
  obtain ⟨s', bytes, taken', he, ha', hf'⟩ := hf.step x
  refine ⟨s', bytes, he, taken', ?_, hf'⟩
  rw [← ha', ← ha, arrived, List.flatMap_append]
  rfl

/-! ## The whole stream -/

/-- What a stream means: the hello is not complete, or not good, or data follows it. -/
inductive TlsOutcome
  | waiting
  | failed
  | connected (payload : Bytes) (bad : Bool)
  deriving DecidableEq

/-- Read the whole stream at once. -/
def parseStream (keys : TlsKeys) (b : Bytes) : TlsOutcome :=
  match parseHello keys b with
  | .waiting => .waiting
  | .failed => .failed
  | .connected rest => .connected (records rest).1 (records rest).2

/-- The socket in state `s`, which returned `out`, agrees with an outcome: what was returned is a
beginning of the payload, and all of it after an error, or when nothing is queued or available. -/
def Agrees (out : Bytes) (s : TlsSocket) : TlsOutcome → Prop
  | .waiting => s.state = .waitingHello ∧ out = []
  | .failed => s.state = .error ∧ out = []
  | .connected payload bad => s.state ≠ .waitingHello ∧ out <+: payload ∧
      (s.state = .error → out = payload ∧ bad = true) ∧
      (s.checkQueued = false → s.hasBytesAvailable = false →
        out = payload ∧ (s.state = .error ↔ bad = true))

theorem Connected.agrees (h : Connected rest out s) :
    Agrees out s (.connected (records rest).1 (records rest).2) := by
  have hstream := h.delivers.stream []
  rw [List.append_nil, List.append_nil] at hstream
  refine ⟨h.state_ne, ?_, fun hs => ?_, fun hq hnone => ?_⟩
  · rw [hstream]
    exact List.prefix_append _ _
  · rcases h.state with ⟨hc, -⟩ | ⟨-, hbad⟩
    · exact absurd (hc.symm.trans hs) (by decide)
    · have hbad := hbad []
      rw [List.append_nil] at hbad
      rw [hbad]
      exact ⟨rfl, rfl⟩
  · rcases h.state with ⟨hc, hsettled⟩ | ⟨he, hbad⟩
    · have hend : unread s.incomingGoodDataLimit (s.incoming.drop s.incomingGoodDataOffset)
          = ([], false) := by
        rcases Nat.eq_zero_or_pos s.incomingGoodDataLimit with h0 | hpos
        · rw [h0, h.delivers.offset h0]
          exact hsettled hq h0
        · have hall : s.incoming.length ≤ s.incomingGoodDataOffset := by
            by_contra hmore
            exact absurd hnone (by simp [hasBytesAvailable, hpos, not_le.mp hmore])
          rw [List.drop_eq_nil_of_le hall, unread_nil]
      rw [hstream, hend, hc]
      exact ⟨(List.append_nil out).symm, iff_of_false nofun Bool.false_ne_true⟩
    · have hbad := hbad []
      rw [List.append_nil] at hbad
      rw [hbad, he]
      exact ⟨rfl, iff_of_true rfl rfl⟩

theorem Follows.agrees (h : Follows keys taken out s) :
    Agrees out s (parseStream keys taken) := by
  rw [Follows] at h
  rw [parseStream]
  cases hr : parseHello keys taken with
  | waiting =>
    rw [hr] at h
    exact ⟨h.1.state, h.2.2⟩
  | failed =>
    rw [hr] at h
    exact ⟨h.1, h.2.2.2⟩
  | connected rest =>
    rw [hr] at h
    exact h.agrees

/-- After an error no more bytes change what the stream means. -/
theorem Follows.error_final (h : Follows keys taken out s) (hs : s.state = .error) (c : Bytes) :
    parseStream keys (taken ++ c) = parseStream keys taken := by
  rw [Follows] at h
  cases hr : parseHello keys taken with
  | waiting =>
    rw [hr] at h
    exact absurd (h.1.state.symm.trans hs) (by decide)
  | failed =>
    rw [parseStream, parseStream, parseHello_append (by rw [hr]; nofun), hr]
    rfl
  | connected rest =>
    rw [hr] at h
    rcases h.state with ⟨hc, -⟩ | ⟨-, hbad⟩
    · exact absurd (hc.symm.trans hs) (by decide)
    · have hnow := hbad []
      rw [List.append_nil] at hnow
      rw [parseStream, parseStream, parseHello_append (by rw [hr]; nofun), hr]
      show TlsOutcome.connected (records (rest ++ c)).1 (records (rest ++ c)).2 = _
      rw [hbad c]
      dsimp only
      rw [hnow]

/-- The digests of a client hello and of the hello below, under a key of zeros. -/
def zeroKeys : TlsKeys where
  digest := List.replicate 32 0
  hmacSha256 _ :=
    [0x27, 0xf0, 0xff, 0xf8, 0xe5, 0x52, 0x3b, 0x5b, 0x57, 0x88, 0xa8, 0xe8, 0x47, 0x18, 0xb1, 0x32,
     0xc1, 0x30, 0x20, 0x33, 0x61, 0xd0, 0x2f, 0x2f, 0xc1, 0x9c, 0x48, 0xe7, 0x86, 0x14, 0x2f, 0x84]
  length_digest := rfl

/-- A hello of 55 bytes, which the first arrival ends in the middle of, and a record of three. -/
def helloEvents : List TlsEvent :=
  [.arrive ([0x16, 0x03, 0x03, 0, 38] ++ List.replicate 6 1), .plainReadyRead,
   .arrive (zeroKeys.hmacSha256 [] ++ [0x14, 0x03, 0x03, 0x00, 0x01, 0x01, 0x17, 0x03, 0x03, 0, 1, 5]
     ++ [0x17, 0x03, 0x03, 0, 3, 7, 8, 9]),
   .plainReadyRead, .checkNextPacket, .read 2, .read 5]

end TlsSocket

end Mtproto

end Yunogram
