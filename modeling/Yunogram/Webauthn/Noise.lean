import Yunogram.Machinery.HashChain
import Yunogram.Webauthn.Cbor
import Yunogram.Webauthn.Crypter

/-!
# Webauthn/Noise — two ends agree on keys, and on what they have said

The initiator and the responder mix what they know and what they say into a chaining key and a
handshake hash.  The library computes the digests, the curve and AES-GCM: `Library` stands for it
and `Library.Correct` for what it promises.

The result is `handshake_agreement`: a handshake ends with swapped keys and one hash, and one hash
stands for one pre-shared key, one identity and one pair of ephemeral keys.
-/

namespace Yunogram.Webauthn.Handshake

open Machinery Channel

/-- `kP256X962Length`. -/
def kP256X962Length : ℕ := 65

/-- `kCompressedPublicKeySize`. -/
def kCompressedPublicKeySize : ℕ := 33

/-- `kHandshakeResponseSize`. -/
def kHandshakeResponseSize : ℕ := kP256X962Length + 16

/-! ## The library -/

/-- What the library computes: AES-GCM, the digests (`none` where a derivation fails), and the
points of the curve. -/
structure Library (Key Point : Type) where
  gcm : Gcm
  sha256 : Bytes → Bytes
  hkdf : (length : ℕ) → (secret salt info : Bytes) → Option Bytes
  publicKey : Key → Point
  point2oct : (compressed : Bool) → Point → Bytes
  oct2point : Bytes → Option Point
  computeKey : Point → Key → Bytes

variable {Key Point : Type}

/-- **What the library promises**: a digest of 32 bytes, public keys that are written in 65 bytes
and read back, and one shared secret of 32 bytes for a pair of keys, whichever end computes it. -/
structure Library.Correct (lib : Library Key Point) : Prop where
  gcm : lib.gcm.Correct
  sha256 : ∀ input, (lib.sha256 input).length = 32
  point2oct : ∀ key, (lib.point2oct false (lib.publicKey key)).length = kP256X962Length
  oct2point : ∀ key,
    lib.oct2point (lib.point2oct false (lib.publicKey key)) = some (lib.publicKey key)
  computeKey : ∀ key key', (lib.computeKey (lib.publicKey key) key').length = 32
  commutes : ∀ key key',
    lib.computeKey (lib.publicKey key) key' = lib.computeKey (lib.publicKey key') key

/-- `HkdfSha256`. -/
def hkdfSha256 (lib : Library Key Point) (length : ℕ) (secret salt info : Bytes) : Bytes :=
  (lib.hkdf length secret salt info).getD (List.replicate length 0)

/-- `PublicKeyX962`. -/
def publicKeyX962 (lib : Library Key Point) (key : Key) (compressed : Bool) : Bytes :=
  let result := lib.point2oct compressed (lib.publicKey key)
  if result.length ≠ (if compressed then kCompressedPublicKeySize else kP256X962Length) then []
  else result

/-- `EcdhSharedX`. -/
def ecdhSharedX (lib : Library Key Point) (privateKey : Key) (peerX962 : Bytes) : Option Bytes :=
  match lib.oct2point peerX962 with
  | none => none
  | some point =>
    let result := lib.computeKey point privateKey
    if result.length = 32 then some result else none

/-! ## The symmetric state -/

/-- `Noise::HandshakeType`. -/
inductive HandshakeType
  | knpsk0
  | nkpsk0

/-- `Noise`. -/
structure Noise where
  chainingKey : Bytes
  h : Bytes
  symmetricKey : Bytes
  symmetricNonce : ℕ

/-- The name of a protocol, in 32 bytes. -/
def HandshakeType.name (type : HandshakeType) : Bytes :=
  let name := match type with
    | .knpsk0 => "Noise_KNpsk0_P256_AESGCM_SHA256"
    | .nkpsk0 => "Noise_NKpsk0_P256_AESGCM_SHA256"
  let bytes := name.toList.map fun c => UInt8.ofNat c.toNat
  bytes ++ List.replicate (32 - bytes.length) 0

/-- `Noise::init`. -/
def Noise.init (type : HandshakeType) : Noise where
  chainingKey := type.name
  h := type.name
  symmetricKey := List.replicate 32 0
  symmetricNonce := 0

section

variable (lib : Library Key Point)

/-- `Noise::mixHash`, and `Noise::mixHashPoint`. -/
def Noise.mixHash (n : Noise) (input : Bytes) : Noise :=
  { n with h := lib.sha256 (n.h ++ input) }

/-- `Noise::initializeKey`. -/
def Noise.initializeKey (n : Noise) (key32 : Bytes) : Noise :=
  { n with symmetricKey := key32, symmetricNonce := 0 }

/-- `Noise::mixKey`. -/
def Noise.mixKey (n : Noise) (ikm : Bytes) : Noise :=
  let output := hkdfSha256 lib 64 ikm n.chainingKey []
  { n with chainingKey := output.take 32 }.initializeKey ((output.drop 32).take 32)

/-- `Noise::mixKeyAndHash`. -/
def Noise.mixKeyAndHash (n : Noise) (ikm : Bytes) : Noise :=
  let output := hkdfSha256 lib 96 ikm n.chainingKey []
  ({ n with chainingKey := output.take 32 }.mixHash lib ((output.drop 32).take 32)).initializeKey
    ((output.drop 64).take 32)

/-- The nonce with a counter in its first four bytes. -/
def noiseNonce (counter : ℕ) : Bytes :=
  [UInt8.ofNat (counter >>> 24), UInt8.ofNat (counter >>> 16), UInt8.ofNat (counter >>> 8),
    UInt8.ofNat counter] ++ List.replicate 8 (0 : UInt8)

/-- `Noise::encryptAndHash`. -/
def Noise.encryptAndHash (n : Noise) (plaintext : Bytes) : Bytes × Noise :=
  let ciphertext := aesGcmSeal lib.gcm n.symmetricKey (noiseNonce n.symmetricNonce) plaintext n.h
  (ciphertext, { n with symmetricNonce := n.symmetricNonce + 1 }.mixHash lib ciphertext)

/-- `Noise::decryptAndHash`. -/
def Noise.decryptAndHash (n : Noise) (ciphertext : Bytes) : Option Bytes × Noise :=
  let plaintext := aesGcmOpen lib.gcm n.symmetricKey (noiseNonce n.symmetricNonce) ciphertext n.h
  let n := { n with symmetricNonce := n.symmetricNonce + 1 }
  (plaintext, if plaintext.isSome then n.mixHash lib ciphertext else n)

/-- `Noise::trafficKeys`. -/
def Noise.trafficKeys (n : Noise) : Bytes × Bytes :=
  let output := hkdfSha256 lib 64 [] n.chainingKey []
  (output.take 32, (output.drop 32).take 32)

/-! ## The two ends -/

/-- `HandshakeResult`. -/
structure HandshakeResult where
  crypter : Crypter
  handshakeHash : Bytes
  deriving DecidableEq

/-- `HandshakeInitiator`. -/
structure HandshakeInitiator (Key : Type) where
  noise : Noise
  psk : Bytes
  localIdentity : Key
  ephemeralKey : Option Key

/-- The constructor of `HandshakeInitiator`. -/
def HandshakeInitiator.new (psk32 : Bytes) (localIdentity : Key) : HandshakeInitiator Key where
  noise := ⟨List.replicate 32 0, List.replicate 32 0, List.replicate 32 0, 0⟩
  psk := psk32.take 32
  localIdentity := localIdentity
  ephemeralKey := none

/-- `HandshakeInitiator::buildInitialMessage`, where `GenerateP256Key` returns `generated`. -/
def HandshakeInitiator.buildInitialMessage (i : HandshakeInitiator Key) (generated : Option Key) :
    Bytes × HandshakeInitiator Key :=
  let noise := Noise.init .knpsk0
  let noise := noise.mixHash lib [1]
  let noise := noise.mixHash lib (publicKeyX962 lib i.localIdentity false)
  let noise := noise.mixKeyAndHash lib i.psk
  let i := { i with noise := noise, ephemeralKey := generated }
  match generated with
  | none => ([], i)
  | some ephemeralKey =>
    let ephemeralPublic := publicKeyX962 lib ephemeralKey false
    let noise := noise.mixHash lib ephemeralPublic
    let noise := noise.mixKey lib ephemeralPublic
    let (ciphertext, noise) := noise.encryptAndHash lib []
    (ephemeralPublic ++ ciphertext, { i with noise := noise })

/-- `HandshakeInitiator::processResponse`. -/
def HandshakeInitiator.processResponse (i : HandshakeInitiator Key) (response : Bytes) :
    Option HandshakeResult × HandshakeInitiator Key :=
  match i.ephemeralKey with
  | none => (none, i)
  | some ephemeralKey =>
    if response.length ≠ kHandshakeResponseSize then (none, i)
    else
      let peerPointBytes := response.take kP256X962Length
      let ciphertext := response.drop kP256X962Length
      match ecdhSharedX lib ephemeralKey peerPointBytes with
      | none => (none, i)
      | some sharedEe =>
        let noise := i.noise.mixHash lib peerPointBytes
        let noise := noise.mixKey lib peerPointBytes
        let noise := noise.mixKey lib sharedEe
        match ecdhSharedX lib i.localIdentity peerPointBytes with
        | none => (none, { i with noise := noise })
        | some sharedSe =>
          let noise := noise.mixKey lib sharedSe
          let (plaintext, noise) := noise.decryptAndHash lib ciphertext
          let i := { i with noise := noise }
          if plaintext ≠ some [] then (none, i)
          else
            let (writeKey, readKey) := noise.trafficKeys lib
            (some ⟨Crypter.new readKey writeKey, noise.h⟩, i)

/-- `RespondToHandshake`, where `GenerateP256Key` returns `generated`; and what is in `outResponse`
after it. -/
def respondToHandshake (generated : Option Key)
    (psk32 peerIdentityX962 message outResponse : Bytes) : Option HandshakeResult × Bytes :=
  if message.length < kP256X962Length then (none, outResponse)
  else
    let peerPointBytes := message.take kP256X962Length
    let ciphertext := message.drop kP256X962Length
    let noise := Noise.init .knpsk0
    let noise := noise.mixHash lib [1]
    let noise := noise.mixHash lib peerIdentityX962
    let noise := noise.mixKeyAndHash lib psk32
    let noise := noise.mixHash lib peerPointBytes
    let noise := noise.mixKey lib peerPointBytes
    match generated with
    | none => (none, outResponse)
    | some ephemeralKey =>
      let (plaintext, noise) := noise.decryptAndHash lib ciphertext
      if plaintext ≠ some [] then (none, outResponse)
      else
        let ephemeralPublic := publicKeyX962 lib ephemeralKey false
        let noise := noise.mixHash lib ephemeralPublic
        let noise := noise.mixKey lib ephemeralPublic
        match ecdhSharedX lib ephemeralKey peerPointBytes with
        | none => (none, outResponse)
        | some sharedEe =>
          let noise := noise.mixKey lib sharedEe
          match ecdhSharedX lib ephemeralKey peerIdentityX962 with
          | none => (none, outResponse)
          | some sharedSe =>
            let noise := noise.mixKey lib sharedSe
            let (myCiphertext, noise) := noise.encryptAndHash lib []
            let (readKey, writeKey) := noise.trafficKeys lib
            (some ⟨Crypter.new readKey writeKey, noise.h⟩,
              outResponse ++ ephemeralPublic ++ myCiphertext)

end

/-! ## What the library promises, to one end -/

section

variable {lib : Library Key Point} {n : Noise} {key key' : Key}

theorem publicKeyX962_eq (hlib : lib.Correct) :
    publicKeyX962 lib key false = lib.point2oct false (lib.publicKey key) :=
  if_neg (not_not_intro (hlib.point2oct key))

theorem length_publicKeyX962 (hlib : lib.Correct) :
    (publicKeyX962 lib key false).length = kP256X962Length := by
  rw [publicKeyX962_eq hlib, hlib.point2oct]

/-- **A secret is shared.** -/
theorem ecdhSharedX_comm (hlib : lib.Correct) (key key' : Key) :
    ∃ shared, ecdhSharedX lib key (publicKeyX962 lib key' false) = some shared ∧
      ecdhSharedX lib key' (publicKeyX962 lib key false) = some shared := by
  refine ⟨lib.computeKey (lib.publicKey key') key, ?_, ?_⟩
  · rw [publicKeyX962_eq hlib, ecdhSharedX, hlib.oct2point]
    exact if_pos (hlib.computeKey key' key)
  · rw [publicKeyX962_eq hlib, ecdhSharedX, hlib.oct2point, hlib.commutes key' key]
    exact if_pos (hlib.computeKey key key')

/-- **In one state, what one end encrypts the other decrypts**, and the states stay equal. -/
theorem decrypt_encryptAndHash (hlib : lib.Correct) (n : Noise) :
    n.decryptAndHash lib (n.encryptAndHash lib []).1 = (some [], (n.encryptAndHash lib []).2) := by
  have hopen : aesGcmOpen lib.gcm n.symmetricKey (noiseNonce n.symmetricNonce)
      (aesGcmSeal lib.gcm n.symmetricKey (noiseNonce n.symmetricNonce) [] n.h) n.h = some [] :=
    (open_seal hlib.gcm (by decide) n.h).2
  unfold Noise.decryptAndHash Noise.encryptAndHash
  dsimp only
  rw [hopen]
  rfl

end

/-! ## The states a handshake goes through -/

section

variable (lib : Library Key Point)

/-- What a pre-shared key adds to the handshake hash. -/
def pskBlock (psk : Bytes) : Bytes :=
  ((hkdfSha256 lib 96 psk HandshakeType.knpsk0.name []).drop 32).take 32

/-- The state the first message is encrypted in. -/
def Noise.opened (psk identity ephemeral : Bytes) : Noise :=
  (((((Noise.init .knpsk0).mixHash lib [1]).mixHash lib identity).mixKeyAndHash lib psk).mixHash lib
    ephemeral).mixKey lib ephemeral

/-- The state the answer is encrypted in. -/
def Noise.answered (n : Noise) (ephemeral sharedEe sharedSe : Bytes) : Noise :=
  (((n.mixHash lib ephemeral).mixKey lib ephemeral).mixKey lib sharedEe).mixKey lib sharedSe

/-- What each end writes with. -/
def Noise.writeKeys (n : Noise) : Side → Bytes
  | .initiator => (n.trafficKeys lib).1
  | .responder => (n.trafficKeys lib).2

/-- **What is said in a handshake**: the prologue, the identity, what the pre-shared key adds, and
for each message the ephemeral key and the ciphertext. -/
def transcript (psk identity message response : Bytes) : List Bytes :=
  [[1], identity, pskBlock lib psk, message.take kP256X962Length, message.drop kP256X962Length,
    response.take kP256X962Length, response.drop kP256X962Length]

variable {lib} {i : HandshakeInitiator Key} {ephemeralKey : Key} {response message psk32 : Bytes}
  {peerIdentityX962 sharedEe sharedSe : Bytes} {r : HandshakeResult} {n : Noise}

theorem opened_h (psk identity ephemeral : Bytes) :
    (Noise.opened lib psk identity ephemeral).h
      = hashChain lib.sha256 HandshakeType.knpsk0.name
          [[1], identity, pskBlock lib psk, ephemeral] := rfl

theorem answered_h (ephemeral : Bytes) :
    (n.answered lib ephemeral sharedEe sharedSe).h = lib.sha256 (n.h ++ ephemeral) := rfl

theorem encryptAndHash_h (plaintext : Bytes) :
    (n.encryptAndHash lib plaintext).2.h
      = lib.sha256 (n.h ++ (n.encryptAndHash lib plaintext).1) := rfl

theorem decryptAndHash_h {ciphertext plaintext : Bytes}
    (h : (n.decryptAndHash lib ciphertext).1 = some plaintext) :
    (n.decryptAndHash lib ciphertext).2.h = lib.sha256 (n.h ++ ciphertext) := by
  have hsome : (n.decryptAndHash lib ciphertext).1.isSome := by rw [h]; rfl
  exact congrArg Noise.h (if_pos hsome)

theorem buildInitialMessage_eq :
    i.buildInitialMessage lib (some ephemeralKey)
      = let n := Noise.opened lib i.psk (publicKeyX962 lib i.localIdentity false)
          (publicKeyX962 lib ephemeralKey false)
        (publicKeyX962 lib ephemeralKey false ++ (n.encryptAndHash lib []).1,
          { i with noise := (n.encryptAndHash lib []).2, ephemeralKey := some ephemeralKey }) :=
  rfl

/-- **What it takes for the initiator to finish.** -/
theorem processResponse_eq_some (hkey : i.ephemeralKey = some ephemeralKey) :
    (i.processResponse lib response).1 = some r ↔
      response.length = kHandshakeResponseSize ∧ ∃ sharedEe sharedSe,
        ecdhSharedX lib ephemeralKey (response.take kP256X962Length) = some sharedEe ∧
        ecdhSharedX lib i.localIdentity (response.take kP256X962Length) = some sharedSe ∧
        let decrypted := (i.noise.answered lib (response.take kP256X962Length) sharedEe
          sharedSe).decryptAndHash lib (response.drop kP256X962Length)
        decrypted.1 = some [] ∧
          r = ⟨Crypter.new (decrypted.2.trafficKeys lib).2 (decrypted.2.trafficKeys lib).1,
            decrypted.2.h⟩ := by
  unfold HandshakeInitiator.processResponse
  rw [hkey]
  dsimp only
  by_cases hsize : response.length = kHandshakeResponseSize
  · rw [if_neg (not_not_intro hsize)]
    cases hee : ecdhSharedX lib ephemeralKey (response.take kP256X962Length) with
    | none => simp
    | some sharedEe =>
      dsimp only
      cases hse : ecdhSharedX lib i.localIdentity (response.take kP256X962Length) with
      | none => simp
      | some sharedSe =>
        dsimp only [Noise.answered]
        split
        · next hplaintext => simp [hplaintext]
        · next hplaintext =>
          refine ⟨fun h => ⟨hsize, sharedEe, sharedSe, rfl, rfl, not_not.mp hplaintext,
            (Option.some.inj h).symm⟩, ?_⟩
          rintro ⟨-, _, _, ⟨⟩, ⟨⟩, -, rfl⟩
          rfl
  · rw [if_pos hsize]
    simp [hsize]

/-- **What it takes for the responder to finish.** -/
theorem respondToHandshake_eq_some {outResponse : Bytes} :
    respondToHandshake lib (some ephemeralKey) psk32 peerIdentityX962 message [] =
        (some r, outResponse) ↔
      kP256X962Length ≤ message.length ∧ ∃ sharedEe sharedSe,
        ecdhSharedX lib ephemeralKey (message.take kP256X962Length) = some sharedEe ∧
        ecdhSharedX lib ephemeralKey peerIdentityX962 = some sharedSe ∧
        let decrypted := (Noise.opened lib psk32 peerIdentityX962
          (message.take kP256X962Length)).decryptAndHash lib (message.drop kP256X962Length)
        let encrypted := (decrypted.2.answered lib (publicKeyX962 lib ephemeralKey false) sharedEe
          sharedSe).encryptAndHash lib []
        decrypted.1 = some [] ∧
          outResponse = publicKeyX962 lib ephemeralKey false ++ encrypted.1 ∧
          r = ⟨Crypter.new (encrypted.2.trafficKeys lib).1 (encrypted.2.trafficKeys lib).2,
            encrypted.2.h⟩ := by
  unfold respondToHandshake
  dsimp only
  by_cases hsize : message.length < kP256X962Length
  · rw [if_pos hsize]
    simp [hsize]
  · rw [if_neg hsize, ← Noise.opened]
    simp only [Nat.not_lt.mp hsize, true_and]
    split
    · next hplaintext => simp [hplaintext]
    · next hplaintext =>
      cases hee : ecdhSharedX lib ephemeralKey (message.take kP256X962Length) with
      | none => simp
      | some sharedEe =>
        dsimp only
        cases hse : ecdhSharedX lib ephemeralKey peerIdentityX962 with
        | none => simp
        | some sharedSe =>
          dsimp only [Noise.answered]
          refine ⟨fun h => ⟨sharedEe, sharedSe, rfl, rfl, not_not.mp hplaintext,
            (Prod.mk.inj h).2.symm, (Option.some.inj (Prod.mk.inj h).1).symm⟩, ?_⟩
          rintro ⟨_, _, ⟨⟩, ⟨⟩, -, rfl, rfl⟩
          rfl

end

/-! ## A handshake -/

section

variable {lib : Library Key Point} {identity ephemeralKey ephemeralKey' : Key}
  {psk psk' message response peerIdentityX962 : Bytes} {r : HandshakeResult}

/-- A ciphertext of nothing is a tag. -/
theorem length_encryptAndHash_nil (hlib : lib.Correct) (n : Noise) :
    (n.encryptAndHash lib []).1.length = 16 := by
  obtain ⟨ciphertext, tag, hencrypt, hciphertext, htag, -⟩ :=
    hlib.gcm n.symmetricKey (noiseNonce n.symmetricNonce) [] n.h (by decide)
  have hseal : (n.encryptAndHash lib []).1 = ciphertext ++ tag := by
    unfold Noise.encryptAndHash aesGcmSeal
    dsimp only
    rw [hencrypt]
  rw [hseal, List.length_append, hciphertext, htag]
  rfl

/-- An ephemeral key and what is encrypted after it are told apart. -/
theorem take_drop_message (hlib : lib.Correct) (key : Key) (ciphertext : Bytes) :
    (publicKeyX962 lib key false ++ ciphertext).take kP256X962Length = publicKeyX962 lib key false ∧
      (publicKeyX962 lib key false ++ ciphertext).drop kP256X962Length = ciphertext :=
  ⟨List.take_left' (length_publicKeyX962 hlib), List.drop_left' (length_publicKeyX962 hlib)⟩

/-- **A handshake completes**, and gives a pair of crypters. -/
theorem handshake_completes (hlib : lib.Correct) (hpsk : psk.length = 32)
    (identity ephemeralKey ephemeralKey' : Key) :
    let (message, initiator) :=
      (HandshakeInitiator.new psk identity).buildInitialMessage lib (some ephemeralKey)
    ∃ r r' response keys,
      respondToHandshake lib (some ephemeralKey') psk (publicKeyX962 lib identity false) message []
        = (some r', response) ∧
      (initiator.processResponse lib response).1 = some r ∧
      r.handshakeHash = r'.handshakeHash ∧
      r.crypter = (Pair.new keys).crypter .initiator ∧
      r'.crypter = (Pair.new keys).crypter .responder := by
  have htake : psk.take 32 = psk := List.take_of_length_le hpsk.le
  obtain ⟨sharedEe, hee, hee'⟩ := ecdhSharedX_comm hlib ephemeralKey ephemeralKey'
  obtain ⟨sharedSe, hse, hse'⟩ := ecdhSharedX_comm hlib identity ephemeralKey'
  rw [buildInitialMessage_eq]
  dsimp only [HandshakeInitiator.new]
  rw [htake]
  -- both ends go through these two states
  generalize hopened : Noise.opened lib psk (publicKeyX962 lib identity false)
    (publicKeyX962 lib ephemeralKey false) = opened
  generalize hanswered : (opened.encryptAndHash lib []).2.answered lib
    (publicKeyX962 lib ephemeralKey' false) sharedEe sharedSe = answered
  obtain ⟨hfirst, hfirst'⟩ := take_drop_message hlib ephemeralKey (opened.encryptAndHash lib []).1
  obtain ⟨hsecond, hsecond'⟩ :=
    take_drop_message hlib ephemeralKey' (answered.encryptAndHash lib []).1
  set keys := (answered.encryptAndHash lib []).2.writeKeys lib with hkeys
  refine ⟨⟨(Pair.new keys).crypter .initiator, (answered.encryptAndHash lib []).2.h⟩,
    ⟨(Pair.new keys).crypter .responder, (answered.encryptAndHash lib []).2.h⟩,
    publicKeyX962 lib ephemeralKey' false ++ (answered.encryptAndHash lib []).1, keys,
    respondToHandshake_eq_some.mpr ⟨?_, sharedEe, sharedSe, ?_, hse', ?_⟩,
    (processResponse_eq_some rfl).mpr ⟨?_, sharedEe, sharedSe, ?_, ?_, ?_⟩, ?_⟩
  · rw [List.length_append, length_publicKeyX962 hlib]
    exact Nat.le_add_right _ _
  · rw [hfirst, hee']
  · rw [hfirst, hfirst', hopened, decrypt_encryptAndHash hlib]
    dsimp only
    rw [hanswered]
    exact ⟨rfl, rfl, rfl⟩
  · rw [List.length_append, length_publicKeyX962 hlib, length_encryptAndHash_nil hlib]
    rfl
  · rw [hsecond, hee]
  · rw [hsecond, hse]
  · rw [hsecond, hsecond', hanswered, decrypt_encryptAndHash hlib]
    exact ⟨rfl, rfl⟩
  · exact ⟨rfl, rfl, rfl⟩

/-- **The initiator's hash** is that of what it knows and what it has heard. -/
theorem initiator_hash (hlib : lib.Correct)
    (h : (((HandshakeInitiator.new psk identity).buildInitialMessage lib
      (some ephemeralKey)).2.processResponse lib response).1 = some r) :
    r.handshakeHash = hashChain lib.sha256 HandshakeType.knpsk0.name
      (transcript lib (psk.take 32) (publicKeyX962 lib identity false)
        ((HandshakeInitiator.new psk identity).buildInitialMessage lib (some ephemeralKey)).1
        response) := by
  rw [buildInitialMessage_eq] at h ⊢
  dsimp only [HandshakeInitiator.new] at h ⊢
  obtain ⟨-, sharedEe, sharedSe, -, -, hplaintext, rfl⟩ := (processResponse_eq_some rfl).mp h
  obtain ⟨hfirst, hfirst'⟩ := take_drop_message hlib ephemeralKey
    ((Noise.opened lib (psk.take 32) (publicKeyX962 lib identity false)
      (publicKeyX962 lib ephemeralKey false)).encryptAndHash lib []).1
  show (Noise.decryptAndHash lib _ _).2.h = _
  rw [decryptAndHash_h hplaintext, answered_h, encryptAndHash_h, opened_h, transcript, hfirst,
    hfirst']
  rfl

/-- **The responder's hash** is that of what it knows and what it has heard. -/
theorem responder_hash (hlib : lib.Correct)
    (h : respondToHandshake lib (some ephemeralKey) psk peerIdentityX962 message []
      = (some r, response)) :
    r.handshakeHash = hashChain lib.sha256 HandshakeType.knpsk0.name
      (transcript lib psk peerIdentityX962 message response) ∧
    response.take kP256X962Length = publicKeyX962 lib ephemeralKey false := by
  obtain ⟨-, sharedEe, sharedSe, -, -, hplaintext, rfl, rfl⟩ := respondToHandshake_eq_some.mp h
  refine ⟨?_, (take_drop_message hlib ephemeralKey _).1⟩
  rw [transcript, (take_drop_message hlib ephemeralKey _).1,
    (take_drop_message hlib ephemeralKey _).2]
  show (Noise.encryptAndHash lib _ _).2.h = _
  rw [encryptAndHash_h, answered_h, decryptAndHash_h hplaintext, opened_h]
  rfl

/-- **The agreement of a handshake.**  A handshake whose messages arrive completes, with one hash
and with the keys of one end swapped at the other; and two ends that complete with one hash, without
a collision of the digests they have computed, have used one pre-shared key, the identity of the
initiator and the ephemeral keys of the two. -/
theorem handshake_agreement (lib : Library Key Point) (hlib : lib.Correct) :
    (∀ psk identity ephemeralKey ephemeralKey', psk.length = 32 →
      let (message, initiator) :=
        (HandshakeInitiator.new psk identity).buildInitialMessage lib (some ephemeralKey)
      ∃ r r' response,
        respondToHandshake lib (some ephemeralKey') psk (publicKeyX962 lib identity false)
          message [] = (some r', response) ∧
        (initiator.processResponse lib response).1 = some r ∧
        r.handshakeHash = r'.handshakeHash ∧
        r.crypter.readKey = r'.crypter.writeKey ∧ r.crypter.writeKey = r'.crypter.readKey) ∧
    ∀ psk identity ephemeralKey response r psk' peerIdentityX962 ephemeralKey' message' response'
      r',
      let (message, initiator) :=
        (HandshakeInitiator.new psk identity).buildInitialMessage lib (some ephemeralKey)
      (initiator.processResponse lib response).1 = some r →
      respondToHandshake lib (some ephemeralKey') psk' peerIdentityX962 message' []
        = (some r', response') →
      r.handshakeHash = r'.handshakeHash →
      Set.InjOn (pskBlock lib) {psk.take 32, psk'} →
      Set.InjOn lib.sha256 {input |
        input ∈ hashInputs lib.sha256 HandshakeType.knpsk0.name
          (transcript lib (psk.take 32) (publicKeyX962 lib identity false) message response) ∨
        input ∈ hashInputs lib.sha256 HandshakeType.knpsk0.name
          (transcript lib psk' peerIdentityX962 message' response')} →
      psk.take 32 = psk' ∧ publicKeyX962 lib identity false = peerIdentityX962 ∧
        publicKeyX962 lib ephemeralKey false = message'.take kP256X962Length ∧
        response.take kP256X962Length = publicKeyX962 lib ephemeralKey' false := by
  constructor
  · intro psk identity ephemeralKey ephemeralKey' hpsk
    obtain ⟨r, r', response, keys, hrespond, hprocess, hhash, hcrypter, hcrypter'⟩ :=
      handshake_completes hlib hpsk identity ephemeralKey ephemeralKey'
    refine ⟨r, r', response, hrespond, hprocess, hhash, ?_, ?_⟩
    · rw [hcrypter, hcrypter']
      rfl
    · rw [hcrypter, hcrypter']
      rfl
  · intro psk identity ephemeralKey response r psk' peerIdentityX962 ephemeralKey' message'
      response' r' hprocess hrespond hhash hpsk hsha
    obtain ⟨hhash', hephemeral'⟩ := responder_hash hlib hrespond
    rw [initiator_hash hlib hprocess, hhash'] at hhash
    have hname : HandshakeType.knpsk0.name.length = 32 := by decide +kernel
    have hparts := (hashChain_injOn hlib.sha256 hname hname hsha hhash rfl).2
    simp only [transcript, List.cons.injEq, true_and, and_true] at hparts
    obtain ⟨hidentity, hblock, hfirst, -, hsecond, -⟩ := hparts
    refine ⟨hpsk (.inl rfl) (.inr rfl) hblock, hidentity, ?_, hsecond.trans hephemeral'⟩
    rw [← hfirst]
    exact (take_drop_message hlib ephemeralKey _).1.symm

/-! ## A known handshake -/

/-- The keys with the private numbers 1, 2 and 3. -/
inductive SampleKey
  | one
  | two
  | three
  deriving DecidableEq

/-- The coordinates of their public points. -/
def SampleKey.x : SampleKey → Bytes
  | one => bigEndian 32 0x6b17d1f2e12c4247f8bce6e563a440f277037d812deb33a0f4a13945d898c296
  | two => bigEndian 32 0x7cf27b188d034f7e8a52380304b51ac3c08969e277f21b35a60b48fc47669978
  | three => bigEndian 32 0x5ecbe4d1a6330a44c8f7ef951d4bf165e6c6b721efada985fb41661bc6e7fd6c

def SampleKey.y : SampleKey → Bytes
  | one => bigEndian 32 0x4fe342e2fe1a7f9b8ee7eb4a7c0f9e162bce33576b315ececbb6406837bf51f5
  | two => bigEndian 32 0x07775510db8ed040293d9ac69f7430dbba7dade63ce982299e04b79d227873d1
  | three => bigEndian 32 0x8734640c4998ff7e374b06ce1a64a2ecd82ab036384fb83d9a79b127a27d5032

/-- A public point in 65 bytes, or in 33. -/
def SampleKey.point2oct (compressed : Bool) (key : SampleKey) : Bytes :=
  if compressed then (if key = .two then 3 else if key = .one then 3 else 2) :: key.x
  else 4 :: (key.x ++ key.y)

/-- The first coordinate of the shared point. -/
def SampleKey.shared : SampleKey → SampleKey → Bytes
  | one, key => key.x
  | key, one => key.x
  | two, two => bigEndian 32 0xe2534a3532d08fbba02dde659ee62bd0031fe2db785596ef509302446b030852
  | two, three => bigEndian 32 0xb01a172a76a4602c92d3242cb897dde3024c740debb215b4c6b0aae93c2291a9
  | three, two => bigEndian 32 0xb01a172a76a4602c92d3242cb897dde3024c740debb215b4c6b0aae93c2291a9
  | three, three => bigEndian 32 0xea68d7b6fedf0b71878938d51d71f8729e0acb8c2c6df8b3d79e8a4b90949ee0

/-- The digests of what is said. -/
def sampleHashes : List Bytes :=
  [bigEndian 32 0x2368ca317a7b06a2424e87c2705aea6823e02b9aff3755ee08a0bc3ad49e10ac,
    bigEndian 32 0x58ea6031594d94d57e3c329ef392cf4d3de5e7d6653522f84fb9a97fa2161bbf,
    bigEndian 32 0x6de5e845a261906f3f7299095b5800d684da53f01facb4a2fb92458872adf7fd,
    bigEndian 32 0xdd778a598fb8f1030f82bea881b7142b6b77d82778d7217e09a1c62521b5455c,
    bigEndian 32 0x77c33a11aee2343a496532630a56903cf527457577f1c6749db5c097ac3e8a41,
    bigEndian 32 0xe651aeae386e59b34893bca24f9cb77dd18ad7156a10b15a99f2275222183276,
    bigEndian 32 0xdf7bc8889acbba783a2ca1d9079db46c05bbb94dde4de015e0adc7fedc5634b8]

/-- What is derived, 32 bytes at a time: for the pre-shared key 96 of them, then 64 each. -/
def sampleDerived : List Bytes :=
  [bigEndian 32 0x648c42d92ec185ebc4f01d0fbe0e382527726e27333b47420144b2933b0dbc7c ++
      bigEndian 32 0xb10d32e3291585a6678dc666420d4c38e65c3932682155fecbba590cfc84e164 ++
      bigEndian 32 0xb4c2a5068d3d5b127224d86e4cc9a7a70c84082ceb9d4d55699b8e49cb3cb3b6,
    bigEndian 32 0xb828acea427a7c052ec96481eaef85cd7d4727b63d6a16bfe6d683954b13f06c ++
      bigEndian 32 0x165dc50f53801c8db6b71b5c2bff27138d5917269c2a6ed4cbb4b396544412a6,
    bigEndian 32 0x27b61a4e69e4e5d65a8a8e1f206dff9d96fd936078d3486e7a9ad59a0490e3af ++
      bigEndian 32 0xb15c9cb0b020451c514b6eeeb42ffc2ff883e06fe2ca9b3adceb88c33d38da1f,
    bigEndian 32 0x739d5f71abe950e236482710ea448e7edd0229a1e0d9e63738baf72408d7959f ++
      bigEndian 32 0x4a178c6269a97f99fa5693f0c27d27becb4d01e28f49c99a4b51e68bf48bf8a0,
    bigEndian 32 0xf2ae97c9e07d13fb824dc3cab8293d028134e5f75bc384750417e8306b6e4276 ++
      bigEndian 32 0x7c667a8ff6fc1313163dd15b24f19fa5438a9eaa4d25599f8a5470cdb7038674,
    bigEndian 32 0x072c9a4cc0a16759ee184a9507fa6d6216fa1374652b4dd59cdf8fa3bf65cead ++
      bigEndian 32 0x5d8aedc753facced9e6f1c6409e27edddd3f42b6cdded14d86fb71e2780fd331]

/-- The chaining keys. -/
def sampleChainingKey (index : ℕ) : Bytes := (sampleDerived.getD index []).take 32

/-- The pre-shared key of zeros. -/
def samplePsk : Bytes := List.replicate 32 0

/-- The tags of the two messages. -/
def sampleTags : Bytes × Bytes :=
  (bigEndian 16 0x538e8d3b178668d5cfe3f8313e7411b4,
    bigEndian 16 0xb0e9f8a82b8139abd043499b6ad943b8)

/-- The message of the initiator, and the answer. -/
def sampleMessage : Bytes := SampleKey.two.point2oct false ++ sampleTags.1

def sampleResponse : Bytes := SampleKey.three.point2oct false ++ sampleTags.2

/-- What is hashed: each digest, and what is said after it. -/
def sampleInputs : List Bytes :=
  List.zipWith (· ++ ·) (HandshakeType.knpsk0.name :: sampleHashes)
    [[1], SampleKey.one.point2oct false, ((sampleDerived.getD 0 []).drop 32).take 32,
      SampleKey.two.point2oct false, sampleTags.1, SampleKey.three.point2oct false, sampleTags.2]

/-- What is derived from: a secret and the chaining key before it. -/
def sampleSecrets : List (ℕ × Bytes × Bytes) :=
  [(96, samplePsk, HandshakeType.knpsk0.name),
    (64, SampleKey.two.point2oct false, sampleChainingKey 0),
    (64, SampleKey.three.point2oct false, sampleChainingKey 1),
    (64, SampleKey.two.shared .three, sampleChainingKey 2),
    (64, SampleKey.one.shared .three, sampleChainingKey 3),
    (64, [], sampleChainingKey 4)]

/-- What the library computes in the handshake of these keys. -/
def sampleLibrary : Library SampleKey SampleKey where
  gcm := Gcm.ofAnswers
    [⟨(sampleDerived.getD 1 []).drop 32, noiseNonce 0, [], sampleHashes.getD 3 [], [],
        sampleTags.1⟩,
      ⟨(sampleDerived.getD 4 []).drop 32, noiseNonce 0, [], sampleHashes.getD 5 [], [],
        sampleTags.2⟩]
  sha256 input := ((sampleInputs.zip sampleHashes).lookup input).getD (List.replicate 32 0)
  hkdf length secret salt _ := (sampleSecrets.zip sampleDerived).lookup (length, secret, salt)
  publicKey := id
  point2oct := SampleKey.point2oct
  oct2point bytes := [SampleKey.one, .two, .three].find? fun key => key.point2oct false = bytes
  computeKey := SampleKey.shared

theorem sampleLibrary_correct : sampleLibrary.Correct where
  gcm := Gcm.ofAnswers_correct (by decide +kernel)
  sha256 input := by
    cases h : (sampleInputs.zip sampleHashes).lookup input with
    | none => simp [sampleLibrary, h]
    | some digest =>
      have hdigests : ∀ e ∈ sampleInputs.zip sampleHashes, e.2.length = 32 := by decide +kernel
      have hmem : (input, digest) ∈ sampleInputs.zip sampleHashes := by
        obtain ⟨before, after, hlist, -⟩ := List.lookup_eq_some_iff.mp h
        rw [hlist]
        exact List.mem_append_right _ List.mem_cons_self
      simpa [sampleLibrary, h] using hdigests _ hmem
  point2oct key := by cases key <;> decide +kernel
  oct2point key := by cases key <;> decide +kernel
  computeKey key key' := by cases key <;> cases key' <;> decide +kernel
  commutes key key' := by cases key <;> cases key' <;> rfl

/-- What the two ends get. -/
def sampleResult : Side → HandshakeResult
  | .initiator => ⟨Crypter.new ((sampleDerived.getD 5 []).drop 32) (sampleChainingKey 5),
      sampleHashes.getD 6 []⟩
  | .responder => ⟨Crypter.new (sampleChainingKey 5) ((sampleDerived.getD 5 []).drop 32),
      sampleHashes.getD 6 []⟩

/-- **The handshake of these keys**, and what its hash stands for. -/
theorem handshake_agreement_sample :
    (let (message, initiator) := (HandshakeInitiator.new samplePsk .one).buildInitialMessage
        sampleLibrary (some .two)
      ∃ r r' response,
        respondToHandshake sampleLibrary (some .three) samplePsk
          (publicKeyX962 sampleLibrary .one false) message [] = (some r', response) ∧
        (initiator.processResponse sampleLibrary response).1 = some r ∧
        r.handshakeHash = r'.handshakeHash ∧
        r.crypter.readKey = r'.crypter.writeKey ∧ r.crypter.writeKey = r'.crypter.readKey) ∧
    samplePsk.take 32 = samplePsk ∧
      publicKeyX962 sampleLibrary .one false = SampleKey.one.point2oct false ∧
      publicKeyX962 sampleLibrary .two false = sampleMessage.take kP256X962Length ∧
      sampleResponse.take kP256X962Length = publicKeyX962 sampleLibrary .three false := by
  have hinputs : hashInputs sampleLibrary.sha256 HandshakeType.knpsk0.name
      (transcript sampleLibrary samplePsk (SampleKey.one.point2oct false) sampleMessage
        sampleResponse) = sampleInputs := by decide +kernel
  have hinputs' : hashInputs sampleLibrary.sha256 HandshakeType.knpsk0.name
      (transcript sampleLibrary (samplePsk.take 32) (publicKeyX962 sampleLibrary .one false)
        ((HandshakeInitiator.new samplePsk .one).buildInitialMessage sampleLibrary (some .two)).1
        sampleResponse) = sampleInputs := by decide +kernel
  have hinj : ∀ x ∈ sampleInputs, ∀ y ∈ sampleInputs,
      sampleLibrary.sha256 x = sampleLibrary.sha256 y → x = y := by decide +kernel
  obtain ⟨hforward, hbackward⟩ := handshake_agreement sampleLibrary sampleLibrary_correct
  refine ⟨hforward samplePsk .one .two .three List.length_replicate,
    hbackward samplePsk .one .two sampleResponse (sampleResult .initiator) samplePsk
      (SampleKey.one.point2oct false) .three sampleMessage sampleResponse (sampleResult .responder)
      (by decide +kernel) (by decide +kernel) rfl ?_ ?_⟩
  · rintro x (rfl | rfl) y (rfl | rfl) -
    all_goals rfl
  · intro x hx y hy
    exact hinj x (hx.elim (fun h => hinputs' ▸ h) fun h => hinputs ▸ h) y
      (hy.elim (fun h => hinputs' ▸ h) fun h => hinputs ▸ h)

end

end Yunogram.Webauthn.Handshake
