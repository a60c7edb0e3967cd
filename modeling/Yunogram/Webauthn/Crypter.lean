import Mathlib
import Yunogram.Machinery.LittleEndian
import Yunogram.Machinery.Run

/-!
# Webauthn/Crypter — the messages after the handshake, encrypted by a key and a counter each way

Two crypters with swapped keys encrypt what one side says to the other.  AES-GCM itself is not here:
`Gcm` stands for what the library computes, and `Gcm.Correct` for what it promises.

The result is `crypter_channel`: what arrives in order is decrypted to what was encrypted, and no
side uses a nonce twice.
-/

namespace Yunogram.Webauthn.Channel

open Machinery

/-- `Bytes`. -/
abbrev Bytes := List UInt8

/-- `kMaxSequence`. -/
def kMaxSequence : ℕ := (1 <<< 24) - 1

/-- `kPaddingGranularity`. -/
def kPaddingGranularity : ℕ := 32

/-! ## AES-GCM -/

/-- What the library computes: a ciphertext with its tag, and the plaintext if the tag is right. -/
structure Gcm where
  encrypt : (key nonce plaintext additionalData : Bytes) → Option (Bytes × Bytes)
  decrypt : (key nonce ciphertext additionalData tag : Bytes) → Option Bytes

/-- **What the library promises**, for all plaintexts of a size that is an `int`: a ciphertext as
long as the plaintext and a tag of 16 bytes, and the plaintext back for them. -/
def Gcm.Correct (gcm : Gcm) : Prop :=
  ∀ key nonce plaintext additionalData, plaintext.length < 2 ^ 31 →
    ∃ ciphertext tag, gcm.encrypt key nonce plaintext additionalData = some (ciphertext, tag) ∧
      ciphertext.length = plaintext.length ∧ tag.length = 16 ∧
      gcm.decrypt key nonce ciphertext additionalData tag = some plaintext

/-- A ciphertext and a tag that are known. -/
structure Answer where
  key : Bytes
  nonce : Bytes
  plaintext : Bytes
  additionalData : Bytes
  ciphertext : Bytes
  tag : Bytes

/-- AES-GCM where its answers are known; elsewhere the plaintext itself, with a tag of zeros. -/
def Gcm.ofAnswers (answers : List Answer) : Gcm where
  encrypt key nonce plaintext additionalData :=
    match answers.find? fun a => a.key = key ∧ a.nonce = nonce ∧ a.plaintext = plaintext ∧
      a.additionalData = additionalData with
    | some a => some (a.ciphertext, a.tag)
    | none => some (plaintext, List.replicate 16 0)
  decrypt key nonce ciphertext additionalData tag :=
    if tag = List.replicate 16 0 then some ciphertext
    else
      (answers.find? fun a => a.key = key ∧ a.nonce = nonce ∧ a.ciphertext = ciphertext ∧
        a.additionalData = additionalData ∧ a.tag = tag).map Answer.plaintext

theorem Gcm.ofAnswers_correct {answers : List Answer}
    (h : ∀ a ∈ answers, a.ciphertext.length = a.plaintext.length ∧ a.tag.length = 16 ∧
      a.tag ≠ List.replicate 16 0 ∧ ∀ b ∈ answers, b.tag = a.tag → b.plaintext = a.plaintext) :
    (Gcm.ofAnswers answers).Correct := by
  intro key nonce plaintext additionalData hlength
  cases hfind : answers.find? fun a => a.key = key ∧ a.nonce = nonce ∧ a.plaintext = plaintext ∧
      a.additionalData = additionalData with
  | none =>
    refine ⟨plaintext, List.replicate 16 0, ?_, rfl, List.length_replicate, ?_⟩ <;>
      simp only [ofAnswers, hfind, if_true]
  | some a =>
    have hmem := List.mem_of_find?_eq_some hfind
    have hanswer := List.find?_some hfind
    obtain ⟨rfl, rfl, rfl, rfl⟩ := of_decide_eq_true hanswer
    obtain ⟨hciphertext, htag, hzeros, hunique⟩ := h a hmem
    refine ⟨a.ciphertext, a.tag, ?_, hciphertext, htag, ?_⟩
    · simp only [ofAnswers, hfind]
    · obtain ⟨b, hb⟩ : ∃ b, (answers.find? fun b => b.key = a.key ∧ b.nonce = a.nonce ∧
          b.ciphertext = a.ciphertext ∧ b.additionalData = a.additionalData ∧ b.tag = a.tag)
          = some b :=
        Option.isSome_iff_exists.mp (List.find?_isSome.mpr ⟨a, hmem, by simp⟩)
      have hsame := List.find?_some hb
      simp only [ofAnswers, if_neg hzeros, hb, Option.map_some]
      exact congrArg _ (hunique b (List.mem_of_find?_eq_some hb)
        (of_decide_eq_true hsame).2.2.2.2)

/-- `AesGcmSeal`. -/
def aesGcmSeal (gcm : Gcm) (key nonce plaintext additionalData : Bytes) : Bytes :=
  match gcm.encrypt key nonce plaintext additionalData with
  | none => []
  | some (ciphertext, tag) => ciphertext ++ tag

/-- `AesGcmOpen`. -/
def aesGcmOpen (gcm : Gcm) (key nonce ciphertext additionalData : Bytes) : Option Bytes :=
  if ciphertext.length < 16 then none
  else gcm.decrypt key nonce (ciphertext.take (ciphertext.length - 16)) additionalData
    (ciphertext.drop (ciphertext.length - 16))

/-! ## A crypter -/

/-- `Crypter`. -/
structure Crypter where
  readKey : Bytes
  writeKey : Bytes
  readSequence : ℕ
  writeSequence : ℕ
  deriving DecidableEq

/-- The constructor of `Crypter`. -/
def Crypter.new (readKey writeKey : Bytes) : Crypter := ⟨readKey, writeKey, 0, 0⟩

/-- The nonce with a counter in its last four bytes. -/
def nonceOf (counter : ℕ) : Bytes :=
  List.replicate 8 (0 : UInt8) ++ [UInt8.ofNat (counter >>> 24), UInt8.ofNat (counter >>> 16),
    UInt8.ofNat (counter >>> 8), UInt8.ofNat counter]

/-- The size a plaintext is padded to, of a `size_t`. -/
def paddedSize (size : ℕ) : ℕ :=
  (size + 1 + kPaddingGranularity - 1) % 2 ^ 64 &&& (2 ^ 64 - kPaddingGranularity)

/-- A plaintext with zeros after it, and the number of them in the last byte. -/
def padded (plaintext : Bytes) : Bytes :=
  let size := paddedSize plaintext.length
  (plaintext ++ List.replicate (size - plaintext.length) 0).set (size - 1)
    (UInt8.ofNat (size - plaintext.length - 1))

/-- `Crypter::encrypt`, and what it encrypted with. -/
def Crypter.encrypt (gcm : Gcm) (c : Crypter) (plaintext : Bytes) :
    Option Bytes × Crypter × Option (Bytes × Bytes) :=
  if kMaxSequence < c.writeSequence then (none, c, none)
  else
    let nonce := nonceOf c.writeSequence
    let result := aesGcmSeal gcm c.writeKey nonce (padded plaintext) []
    (if result = [] then none else some result,
      { c with writeSequence := c.writeSequence + 1 }, some (c.writeKey, nonce))

/-- `Crypter::decrypt`. -/
def Crypter.decrypt (gcm : Gcm) (c : Crypter) (ciphertext : Bytes) : Option Bytes × Crypter :=
  if kMaxSequence < c.readSequence then (none, c)
  else
    match aesGcmOpen gcm c.readKey (nonceOf c.readSequence) ciphertext [] with
    | none => (none, c)
    | some plaintext =>
      let c := { c with readSequence := c.readSequence + 1 }
      match plaintext.getLast? with
      | none => (none, c)
      | some back =>
        let padding := back.toNat
        if plaintext.length < padding + 1 then (none, c)
        else (some (plaintext.take (plaintext.length - padding - 1)), c)

/-! ## Padding -/

/-- **A plaintext that is admitted**: its padded size is an `int`. -/
def Admitted (plaintext : Bytes) : Prop := plaintext.length + kPaddingGranularity < 2 ^ 31

variable {gcm : Gcm} {plaintext key nonce : Bytes} {n m : ℕ}

/-- The bits that are kept are those of a multiple of 32. -/
theorem and_granularity (h : n < 2 ^ 64) : n &&& (2 ^ 64 - kPaddingGranularity) = n / 32 * 32 := by
  have hmask : 2 ^ 64 - kPaddingGranularity = (2 ^ 59 - 1) <<< 5 := by decide
  have hdiv : n / 32 * 32 = (n >>> 5) <<< 5 := by rw [Nat.shiftRight_eq_div_pow, Nat.shiftLeft_eq]
  rw [hmask, hdiv]
  refine Nat.eq_of_testBit_eq fun i => ?_
  rw [Nat.testBit_and, Nat.testBit_shiftLeft, Nat.testBit_shiftLeft, Nat.testBit_shiftRight,
    Nat.testBit_two_pow_sub_one]
  by_cases hlow : 5 ≤ i
  · rw [Nat.add_sub_cancel' hlow, decide_eq_true hlow, Bool.true_and, Bool.true_and]
    by_cases hhigh : i - 5 < 59
    · rw [decide_eq_true hhigh, Bool.and_true]
    · have hfalse : n.testBit i = false :=
        Nat.testBit_lt_two_pow (h.trans_le (Nat.pow_le_pow_right (by decide) (by omega)))
      rw [hfalse, Bool.false_and]
  · rw [decide_eq_false hlow, Bool.false_and, Bool.false_and, Bool.and_false]

theorem paddedSize_eq (h : Admitted plaintext) :
    plaintext.length < paddedSize plaintext.length ∧
      paddedSize plaintext.length ≤ plaintext.length + kPaddingGranularity := by
  have hgranularity : kPaddingGranularity = 32 := rfl
  unfold Admitted at h
  rw [hgranularity] at h ⊢
  have hmod : (plaintext.length + 1 + 32 - 1) % 2 ^ 64 = plaintext.length + 32 := by omega
  rw [paddedSize, hgranularity, hmod, ← hgranularity, and_granularity (by omega), hgranularity]
  omega

/-- **The padding says how long it is.** -/
theorem padded_eq (h : Admitted plaintext) : ∃ zeros < kPaddingGranularity,
    padded plaintext = plaintext ++ List.replicate zeros 0 ++ [UInt8.ofNat zeros] := by
  obtain ⟨hlt, hle⟩ := paddedSize_eq h
  obtain ⟨zeros, hzeros⟩ := Nat.exists_eq_add_of_lt hlt
  refine ⟨zeros, by omega, ?_⟩
  unfold padded
  dsimp only
  have hrest : plaintext.length + zeros + 1 - plaintext.length = zeros + 1 := by omega
  rw [hzeros, hrest, Nat.add_sub_cancel, Nat.add_sub_cancel, List.replicate_succ',
    ← List.append_assoc,
    List.set_append_right _ _ (by rw [List.length_append, List.length_replicate]),
    List.length_append, List.length_replicate, Nat.sub_self]
  rfl

/-- The nonces of two counters are different. -/
theorem nonceOf_injective (hn : n < 2 ^ 32) (hm : m < 2 ^ 32) (h : nonceOf n = nonceOf m) :
    n = m := by
  have htail := List.append_cancel_left (show List.replicate 8 (0 : UInt8) ++ _ = _ ++ _ from h)
  rw [← ofBigEndian_four hn, htail, ofBigEndian_four hm]

/-! ## One message -/

/-- **What is sealed can be opened.** -/
theorem open_seal (hgcm : gcm.Correct) (hlength : plaintext.length < 2 ^ 31)
    (additionalData : Bytes) :
    aesGcmSeal gcm key nonce plaintext additionalData ≠ [] ∧
      aesGcmOpen gcm key nonce (aesGcmSeal gcm key nonce plaintext additionalData) additionalData
        = some plaintext := by
  obtain ⟨ciphertext, tag, hencrypt, -, htag, hdecrypt⟩ :=
    hgcm key nonce plaintext additionalData hlength
  have hseal : aesGcmSeal gcm key nonce plaintext additionalData = ciphertext ++ tag := by
    rw [aesGcmSeal, hencrypt]
  have hsize : (ciphertext ++ tag).length - 16 = ciphertext.length := by
    rw [List.length_append, htag, Nat.add_sub_cancel]
  rw [hseal]
  refine ⟨fun hnil => ?_, ?_⟩
  · rw [(List.append_eq_nil_iff.mp hnil).2] at htag
    exact absurd htag (by decide)
  · rw [aesGcmOpen, if_neg (by rw [List.length_append, htag]; omega), hsize, List.take_left,
      List.drop_left, hdecrypt]

theorem length_padded_lt (h : Admitted plaintext) : (padded plaintext).length < 2 ^ 31 := by
  obtain ⟨zeros, hzeros, hpadded⟩ := padded_eq h
  unfold Admitted at h
  rw [hpadded, List.length_append, List.length_append, List.length_replicate, List.length_singleton]
  omega

/-- **A message is decrypted with the nonce it was encrypted with.** -/
theorem decrypt_seal (hgcm : gcm.Correct) (h : Admitted plaintext) (c : Crypter)
    (hlimit : c.readSequence ≤ kMaxSequence) :
    c.decrypt gcm (aesGcmSeal gcm c.readKey (nonceOf c.readSequence) (padded plaintext) [])
      = (some plaintext, { c with readSequence := c.readSequence + 1 }) := by
  obtain ⟨zeros, hzeros, hpadded⟩ := padded_eq h
  have hbyte : (UInt8.ofNat zeros).toNat = zeros := by
    rw [UInt8.toNat_ofNat']
    exact Nat.mod_eq_of_lt (hzeros.trans (by decide))
  have hlength : (padded plaintext).length = plaintext.length + zeros + 1 := by
    rw [hpadded, List.length_append, List.length_append, List.length_replicate,
      List.length_singleton]
  have hback : (padded plaintext).getLast? = some (UInt8.ofNat zeros) := by
    rw [hpadded, List.getLast?_concat]
  have htake : (padded plaintext).take plaintext.length = plaintext := by
    rw [hpadded, List.append_assoc, List.take_left]
  rw [Crypter.decrypt, if_neg (Nat.not_lt.mpr hlimit), (open_seal hgcm (length_padded_lt h) []).2]
  dsimp only
  rw [hback]
  dsimp only
  rw [hbyte, if_neg (by rw [hlength]; omega),
    show (padded plaintext).length - zeros - 1 = plaintext.length by rw [hlength]; omega, htake]

/-! ## A pair of crypters -/

/-- The two ends of a channel. -/
inductive Side
  | initiator
  | responder
  deriving DecidableEq

/-- The end a message goes to. -/
def Side.peer : Side → Side
  | initiator => responder
  | responder => initiator

@[simp] theorem Side.peer_peer (side : Side) : side.peer.peer = side := by cases side <;> rfl

@[simp] theorem Side.peer_ne (side : Side) : side.peer ≠ side := by cases side <;> decide

theorem Side.eq_peer {side d : Side} (h : d ≠ side) : d = side.peer := by
  cases d <;> cases side <;> first | rfl | exact absurd rfl h

/-- A pair of crypters, the messages that are on the way from each end, with what was encrypted as
them, and the pairs of a key and a nonce each end has encrypted with. -/
structure Pair where
  crypter : Side → Crypter
  sent : Side → List (Bytes × Bytes)
  used : Side → List (Bytes × Bytes)

/-- The pair of a handshake: what one end writes with, the other reads with. -/
def Pair.new (keys : Side → Bytes) : Pair where
  crypter side := Crypter.new (keys side.peer) (keys side)
  sent _ := []
  used _ := []

/-- What an end does. -/
inductive Action
  | encrypt (side : Side) (plaintext : Bytes)
  | decrypt (side : Side)

/-- What it got: a ciphertext, or what the next message on the way to it was decrypted to, with what
was encrypted as that message. -/
inductive Outcome
  | encrypted (side : Side) (result : Option Bytes)
  | decrypted (side : Side) (result : Option Bytes) (plaintext : Bytes)
  deriving DecidableEq

/-- One action; the messages arrive in order, and a ciphertext that was returned is sent. -/
def Pair.step (gcm : Gcm) (p : Pair) : Action → Pair × List Outcome
  | .encrypt side plaintext =>
    let (result, crypter, used) := (p.crypter side).encrypt gcm plaintext
    ({ crypter := Function.update p.crypter side crypter
       sent := Function.update p.sent side
        (p.sent side ++ (result.map fun ciphertext => (ciphertext, plaintext)).toList)
       used := Function.update p.used side (p.used side ++ used.toList) },
      [.encrypted side result])
  | .decrypt side =>
    match p.sent side.peer with
    | [] => (p, [])
    | (ciphertext, plaintext) :: rest =>
      let (result, crypter) := (p.crypter side).decrypt gcm ciphertext
      ({ p with
          crypter := Function.update p.crypter side crypter
          sent := Function.update p.sent side.peer rest },
        [.decrypted side result plaintext])

/-- Only plaintexts that are admitted are encrypted. -/
def Action.Admits : Action → Prop
  | .encrypt _ plaintext => Admitted plaintext
  | .decrypt _ => True

/-! ## What holds of a pair in every run -/

/-- **The messages on the way, read with a counter**: each was sealed with the nonce of its turn. -/
def OnTheWay (gcm : Gcm) (key : Bytes) : ℕ → List (Bytes × Bytes) → Prop
  | _, [] => True
  | counter, (ciphertext, plaintext) :: rest =>
    Admitted plaintext ∧ ciphertext = aesGcmSeal gcm key (nonceOf counter) (padded plaintext) [] ∧
      OnTheWay gcm key (counter + 1) rest

theorem OnTheWay.append {counter : ℕ} {messages : List (Bytes × Bytes)}
    (h : OnTheWay gcm key counter messages) (hadmitted : Admitted plaintext) :
    OnTheWay gcm key counter (messages ++
      [(aesGcmSeal gcm key (nonceOf (counter + messages.length)) (padded plaintext) [],
        plaintext)]) := by
  induction messages generalizing counter with
  | nil => exact ⟨hadmitted, rfl, trivial⟩
  | cons message messages ih =>
    refine ⟨h.1, h.2.1, ?_⟩
    have hnext := ih h.2.2
    rwa [Nat.add_assoc, Nat.add_comm 1, ← List.length_cons] at hnext

/-- **One direction**: the end that reads is as many messages behind the one that writes as there
are on the way, and each nonce was used once. -/
structure Pair.Direction (gcm : Gcm) (p : Pair) (side : Side) (key : Bytes) : Prop where
  writeKey : (p.crypter side).writeKey = key
  readKey : (p.crypter side.peer).readKey = key
  limit : (p.crypter side).writeSequence ≤ kMaxSequence + 1
  behind : (p.crypter side.peer).readSequence + (p.sent side).length
    = (p.crypter side).writeSequence
  sent : OnTheWay gcm key (p.crypter side.peer).readSequence (p.sent side)
  used : p.used side
    = (List.range (p.crypter side).writeSequence).map fun counter => (key, nonceOf counter)

/-- Both directions. -/
def Pair.Inv (gcm : Gcm) (keys : Side → Bytes) (p : Pair) : Prop :=
  ∀ side, p.Direction gcm side (keys side)

variable {keys : Side → Bytes} {p : Pair} {side : Side} {c : Crypter}

theorem Pair.Inv.new : (Pair.new keys).Inv gcm keys := fun side =>
  ⟨rfl, congrArg keys side.peer_peer, Nat.zero_le _, rfl, trivial, rfl⟩

/-- **Past the limit nothing is encrypted.** -/
theorem encrypt_past_limit (gcm : Gcm) (plaintext : Bytes)
    (hlimit : kMaxSequence < c.writeSequence) :
    c.encrypt gcm plaintext = (none, c, none) := if_pos hlimit

/-- **Up to the limit an admitted plaintext is encrypted**, with the next nonce. -/
theorem encrypt_within_limit (hgcm : gcm.Correct) (hadmitted : Admitted plaintext)
    (hlimit : c.writeSequence ≤ kMaxSequence) :
    c.encrypt gcm plaintext
      = (some (aesGcmSeal gcm c.writeKey (nonceOf c.writeSequence) (padded plaintext) []),
        { c with writeSequence := c.writeSequence + 1 },
        some (c.writeKey, nonceOf c.writeSequence)) := by
  rw [Crypter.encrypt, if_neg (Nat.not_lt.mpr hlimit)]
  dsimp only
  rw [if_neg (open_seal hgcm (length_padded_lt hadmitted) []).1]

/-- The direction an end does not write in stays as it is when it encrypts. -/
theorem Pair.Direction.congr {p' : Pair} {key : Bytes} (h : p.Direction gcm side key)
    (hwrite : (p'.crypter side).writeKey = (p.crypter side).writeKey)
    (hsequence : (p'.crypter side).writeSequence = (p.crypter side).writeSequence)
    (hread : (p'.crypter side.peer).readKey = (p.crypter side.peer).readKey)
    (hreads : (p'.crypter side.peer).readSequence = (p.crypter side.peer).readSequence)
    (hsent : p'.sent side = p.sent side) (hused : p'.used side = p.used side) :
    p'.Direction gcm side key := by
  constructor
  · rw [hwrite, h.writeKey]
  · rw [hread, h.readKey]
  · rw [hsequence]; exact h.limit
  · rw [hreads, hsent, hsequence]; exact h.behind
  · rw [hreads, hsent]; exact h.sent
  · rw [hused, hsequence]; exact h.used

theorem Pair.Inv.encrypt (h : p.Inv gcm keys) (hgcm : gcm.Correct)
    (hadmitted : Admitted plaintext) :
    (p.step gcm (.encrypt side plaintext)).1.Inv gcm keys := by
  by_cases hlimit : (p.crypter side).writeSequence ≤ kMaxSequence
  · have hstep := encrypt_within_limit hgcm hadmitted hlimit
    unfold Pair.step
    dsimp only
    rw [hstep]
    dsimp only
    intro d
    rcases eq_or_ne d side with rfl | hne
    · have hd := h d
      constructor
      · simp [hd.writeKey]
      · simp [hd.readKey]
      · simpa using hlimit
      · have hbehind := hd.behind
        simp
        omega
      · have hseal := hd.sent.append hadmitted
        rw [hd.behind] at hseal
        simpa [hd.writeKey] using hseal
      · simp [hd.used, hd.writeKey, List.range_succ]
    · obtain rfl := Side.eq_peer hne.symm
      refine (h d).congr ?_ ?_ ?_ ?_ ?_ ?_ <;> simp [Function.update_of_ne (Side.peer_ne d).symm]
  · have hstep := encrypt_past_limit gcm plaintext (Nat.lt_of_not_le hlimit)
    unfold Pair.step
    dsimp only
    rw [hstep]
    intro d
    refine (h d).congr ?_ ?_ ?_ ?_ ?_ ?_ <;> simp

theorem Pair.Inv.decrypt (h : p.Inv gcm keys) (hgcm : gcm.Correct) :
    (p.step gcm (.decrypt side)).1.Inv gcm keys ∧
      ∀ d result expected, Outcome.decrypted d result expected ∈ (p.step gcm (.decrypt side)).2 →
        result = some expected := by
  unfold Pair.step
  dsimp only
  cases hsent : p.sent side.peer with
  | nil => exact ⟨h, fun d result expected hmem => absurd hmem List.not_mem_nil⟩
  | cons message rest =>
    obtain ⟨ciphertext, expected⟩ := message
    have hd := h side.peer
    have hway := hd.sent
    have hbehind := hd.behind
    have hlimit := hd.limit
    have hkey := hd.readKey
    rw [Side.peer_peer] at hway hbehind hkey
    rw [hsent] at hway hbehind
    rw [List.length_cons] at hbehind
    obtain ⟨hadmitted, rfl, hrest⟩ := hway
    have hdecrypt := decrypt_seal hgcm hadmitted (p.crypter side) (by omega)
    rw [hkey] at hdecrypt
    dsimp only
    rw [hdecrypt]
    dsimp only
    refine ⟨fun d => ?_, fun d result plaintext hmem => ?_⟩
    · rcases eq_or_ne d side with rfl | hne
      · refine (h d).congr ?_ ?_ ?_ ?_ ?_ ?_ <;>
          simp [Function.update_of_ne (Side.peer_ne d).symm]
      · obtain rfl := Side.eq_peer hne
        constructor
        · simp [hd.writeKey]
        · simp
        · simpa using hlimit
        · simp
          omega
        · simpa using hrest
        · simp [hd.used]
    · obtain ⟨rfl, rfl, rfl⟩ := Outcome.decrypted.inj (List.mem_singleton.mp hmem)
      rfl

/-- **Every run of a pair keeps both directions, and decrypts what was encrypted.** -/
theorem Pair.run_inv (hgcm : gcm.Correct) (keys : Side → Bytes) (actions : List Action)
    (hadmits : ∀ a ∈ actions, a.Admits) :
    (run (Pair.step gcm) (Pair.new keys) actions).1.Inv gcm keys ∧
      ∀ d result expected,
        Outcome.decrypted d result expected ∈ (run (Pair.step gcm) (Pair.new keys) actions).2 →
          result = some expected := by
  have hguarded : Guarded (Pair.step gcm) (fun _ _ a => a.Admits) (Pair.new keys) actions := by
    intro before a after hactions
    exact hadmits a (by simp [hactions])
  refine run_induction (fun _ p outcomes => p.Inv gcm keys ∧ ∀ d result expected,
    Outcome.decrypted d result expected ∈ outcomes → result = some expected) ?_ ?_ hguarded
  · exact ⟨Pair.Inv.new, fun d result expected hmem => absurd hmem List.not_mem_nil⟩
  · rintro before p outcomes a ⟨hinv, hdecrypted⟩ hadmitted
    cases a with
    | encrypt side plaintext =>
      refine ⟨hinv.encrypt hgcm hadmitted, fun d result expected hmem => ?_⟩
      rcases List.mem_append.mp hmem with hmem | hmem
      · exact hdecrypted d result expected hmem
      · exact nomatch List.mem_singleton.mp hmem
    | decrypt side =>
      refine ⟨(hinv.decrypt hgcm).1, fun d result expected hmem => ?_⟩
      rcases List.mem_append.mp hmem with hmem | hmem
      · exact hdecrypted d result expected hmem
      · exact (hinv.decrypt hgcm).2 d result expected hmem

/-- The nonces an end has used are different. -/
theorem Pair.Direction.used_nodup (h : p.Direction gcm side key) : (p.used side).Nodup := by
  rw [h.used]
  refine List.Nodup.map_on (fun n hn m hm hpair => ?_) List.nodup_range
  have hlimit : kMaxSequence + 1 < 2 ^ 32 := by decide
  have hle := h.limit
  exact nonceOf_injective ((List.mem_range.mp hn).trans_le (hle.trans hlimit.le))
    ((List.mem_range.mp hm).trans_le (hle.trans hlimit.le)) (Prod.mk.inj hpair).2

theorem Pair.Direction.used_key {used : Bytes × Bytes} (h : p.Direction gcm side key)
    (hmem : used ∈ p.used side) : used.1 = key := by
  rw [h.used] at hmem
  obtain ⟨counter, -, rfl⟩ := List.mem_map.mp hmem
  rfl

/-- **The channel of a pair of crypters.**  In every run that encrypts admitted plaintexts, each
message is decrypted to what was encrypted, each end uses a nonce once, and no pair of a key and a
nonce is used twice where the two keys are different; up to the limit an end encrypts, and from then
on it fails and stays as it is. -/
theorem crypter_channel (gcm : Gcm) (hgcm : gcm.Correct) (keys : Side → Bytes)
    (actions : List Action) (hadmits : ∀ a ∈ actions, a.Admits) :
    let (p, outcomes) := run (Pair.step gcm) (Pair.new keys) actions
    (∀ side result plaintext, Outcome.decrypted side result plaintext ∈ outcomes →
      result = some plaintext) ∧
    (∀ side, (p.used side).Nodup) ∧
    (keys .initiator ≠ keys .responder → (p.used .initiator ++ p.used .responder).Nodup) ∧
    (∀ side, (p.crypter side).writeSequence ≤ kMaxSequence + 1) ∧
    ∀ side plaintext,
      (kMaxSequence < (p.crypter side).writeSequence →
        (p.crypter side).encrypt gcm plaintext = (none, p.crypter side, none)) ∧
      ((p.crypter side).writeSequence ≤ kMaxSequence → Admitted plaintext →
        ((p.crypter side).encrypt gcm plaintext).1.isSome) := by
  obtain ⟨hinv, hdecrypted⟩ := Pair.run_inv hgcm keys actions hadmits
  refine ⟨hdecrypted, fun side => (hinv side).used_nodup, fun hkeys => ?_,
    fun side => (hinv side).limit, fun side plaintext => ⟨encrypt_past_limit gcm plaintext,
      fun hlimit hadmitted => ?_⟩⟩
  · refine List.nodup_append.mpr ⟨(hinv _).used_nodup, (hinv _).used_nodup, ?_⟩
    rintro used hinitiator _ hresponder rfl
    exact hkeys (((hinv _).used_key hinitiator).symm.trans ((hinv _).used_key hresponder))
  · rw [encrypt_within_limit hgcm hadmitted hlimit]
    rfl

/-- What AES-GCM makes of the padded text `hi` under the key of zeros. -/
def sampleAnswer : Answer where
  key := List.replicate 32 0
  nonce := nonceOf 0
  plaintext := padded [0x68, 0x69]
  additionalData := []
  ciphertext := bigEndian 32 0xa6ce403d4d606b6e074ec5d3baf39d18726003ca37a62a74d1a2f58e75063593
  tag := bigEndian 16 0x76a06d52f8587f4af7de266a9b636bca

/-- AES-GCM, as far as it is used below. -/
def sampleGcm : Gcm := Gcm.ofAnswers [sampleAnswer]

/-- The key of zeros, and the key of ones. -/
def sampleKeys : Side → Bytes
  | .initiator => List.replicate 32 0
  | .responder => List.replicate 32 1

theorem sampleGcm_correct : sampleGcm.Correct := Gcm.ofAnswers_correct (by decide +kernel)

/-- **`hi` is encrypted with a key of zeros, and arrives.** -/
theorem crypter_channel_hi :
    (∀ a ∈ [Action.encrypt .initiator [0x68, 0x69], .decrypt .responder], a.Admits) ∧
    (run (Pair.step sampleGcm) (Pair.new sampleKeys)
      [.encrypt .initiator [0x68, 0x69], .decrypt .responder]).2
        = [.encrypted .initiator (some (sampleAnswer.ciphertext ++ sampleAnswer.tag)),
          .decrypted .responder (some [0x68, 0x69]) [0x68, 0x69]] ∧
    ((run (Pair.step sampleGcm) (Pair.new sampleKeys)
      [.encrypt .initiator [0x68, 0x69], .decrypt .responder]).1.used .initiator).Nodup := by
  have hadmits : ∀ a ∈ [Action.encrypt .initiator [0x68, 0x69], .decrypt .responder], a.Admits := by
    simp [Action.Admits, Admitted, kPaddingGranularity]
  exact ⟨hadmits, by decide +kernel,
    (crypter_channel sampleGcm sampleGcm_correct sampleKeys _ hadmits).2.1 .initiator⟩

/-- **Two ends with one key use the same nonce with it.** -/
theorem equal_keys_repeat_nonce :
    ¬ ∀ (gcm : Gcm), gcm.Correct → ∀ (keys : Side → Bytes) (actions : List Action),
      (∀ a ∈ actions, a.Admits) →
        ((run (Pair.step gcm) (Pair.new keys) actions).1.used .initiator
          ++ (run (Pair.step gcm) (Pair.new keys) actions).1.used .responder).Nodup := by
  intro h
  have hadmits : ∀ a ∈ [Action.encrypt .initiator [], .encrypt .responder []], a.Admits := by
    simp [Action.Admits, Admitted, kPaddingGranularity]
  have hnodup := h sampleGcm sampleGcm_correct (fun _ => List.replicate 32 0) _ hadmits
  have hrepeat : ¬ ((run (Pair.step sampleGcm) (Pair.new fun _ => List.replicate 32 0)
      [Action.encrypt .initiator [], .encrypt .responder []]).1.used .initiator
      ++ (run (Pair.step sampleGcm) (Pair.new fun _ => List.replicate 32 0)
        [Action.encrypt .initiator [], .encrypt .responder []]).1.used .responder).Nodup := by
    decide +kernel
  exact hrepeat hnodup

end Yunogram.Webauthn.Channel
