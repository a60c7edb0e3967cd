import Mathlib

/-!
# Passport/PassportEncryption — what is encrypted comes back, whatever the random draws

`passport/passport_encryption.cpp`: values are padded at the front by a random number of bytes that
the first of them records, and encrypted under a secret whose bytes sum to 239 modulo 255; secrets
are encrypted in turn under hashes.  SHA-256, SHA-512 and AES-CBC are those of a `Library`.

`none` is a failed `Expects` or `Assert`; a refusal that the source logs is the empty bytes.

The result is `encryption_round_trips`: nothing fails on a generated secret, and decrypting gives
back the bytes.  A refusal of `DecryptData` is no suffix of the decrypted bytes
(`bad_hash_no_suffix`); everything else that it returns is one.
-/

namespace Yunogram.Passport

/-- `bytes::vector`. -/
abbrev Bytes := List UInt8

/-- `kAesKeyLength`. -/
def kAesKeyLength : ℕ := 32

/-- `kAesIvLength`. -/
def kAesIvLength : ℕ := 16

/-- `kSecretSize`. -/
def kSecretSize : ℕ := 32

/-- `kAesParamsHashSize`. -/
def kAesParamsHashSize : ℕ := 64

/-- `kMinPadding`. -/
def kMinPadding : ℕ := 32

/-- `kMaxPadding`. -/
def kMaxPadding : ℕ := 255

/-- `kAlignTo`. -/
def kAlignTo : ℕ := 16

/-- `kDataHashSize`. -/
def kDataHashSize : ℕ := 32

/-! ## The library -/

/-- `AesParams`. -/
structure AesParams where
  key : Bytes
  iv : Bytes

/-- **What the library computes, with what it promises**: digests of their sizes, and AES-CBC, whose
decryption undoes the encryption under the same key and initialization vector on whole blocks. -/
structure Library where
  sha256 : Bytes → Bytes
  sha512 : Bytes → Bytes
  cbcEncrypt : AesParams → Bytes → Bytes
  cbcDecrypt : AesParams → Bytes → Bytes
  length_sha256 : ∀ input, (sha256 input).length = 32
  length_sha512 : ∀ input, (sha512 input).length = 64
  length_cbcEncrypt : ∀ params input, (cbcEncrypt params input).length = input.length
  length_cbcDecrypt : ∀ params input, (cbcDecrypt params input).length = input.length
  cbcDecrypt_cbcEncrypt : ∀ params input, params.key.length = kAesKeyLength →
    params.iv.length = kAesIvLength → input.length % kAlignTo = 0 →
    cbcDecrypt params (cbcEncrypt params input) = input

/-- What the random generator gives: the bytes of a fill, by their place in it, and a number. -/
structure Draws where
  fill : ℕ → UInt8
  value : UInt32

/-- `bytes::set_random`, `base::RandomFill`. -/
def Draws.bytes (draws : Draws) (size : ℕ) : Bytes := (List.range size).map draws.fill

@[simp]
theorem Draws.length_bytes (draws : Draws) (size : ℕ) : (draws.bytes size).length = size := by
  simp [Draws.bytes]

variable (lib : Library)

/-- `PrepareAesParamsWithHash`. -/
def prepareAesParamsWithHash (hashForEncryptionKey : Bytes) : Option AesParams :=
  if hashForEncryptionKey.length = kAesParamsHashSize then
    some {
      key := hashForEncryptionKey.take kAesKeyLength
      iv := (hashForEncryptionKey.drop kAesKeyLength).take kAesIvLength }
  else none

/-- `PrepareAesParams`. -/
def prepareAesParams (bytesForEncryptionKey : Bytes) : Option AesParams :=
  prepareAesParamsWithHash (lib.sha512 bytesForEncryptionKey)

/-- `EncryptOrDecrypt`.  A key of 256 bits is one that `AES_set_encrypt_key` and
`AES_set_decrypt_key` take, so they give no error here. -/
def encryptOrDecrypt (initial : Bytes) (params : AesParams)
    (cbc : AesParams → Bytes → Bytes) : Option Bytes :=
  if initial.length % kAlignTo = 0 ∧ params.key.length = kAesKeyLength
      ∧ params.iv.length = kAesIvLength then
    some (cbc params initial)
  else none

/-- `Encrypt`. -/
def encrypt (decrypted : Bytes) (params : AesParams) : Option Bytes :=
  encryptOrDecrypt decrypted params lib.cbcEncrypt

/-- `Decrypt`. -/
def decrypt (encrypted : Bytes) (params : AesParams) : Option Bytes :=
  encryptOrDecrypt encrypted params lib.cbcDecrypt

/-! ## Secrets -/

/-- The sum of the bytes, in 64 bits. -/
def sumBytes (bytes : Bytes) : ℕ := bytes.foldl (fun sum value => (sum + value.toNat) % 2 ^ 64) 0

/-- `CheckBytesMod255`. -/
def checkBytesMod255 (bytes : Bytes) : Bool := sumBytes bytes % 255 = 239

/-- `CheckSecretBytes`. -/
def checkSecretBytes (secret : Bytes) : Bool := checkBytesMod255 secret

/-- `GenerateSecretBytes`. -/
def generateSecretBytes (draws : Draws) : Bytes :=
  let result := draws.bytes kSecretSize
  let mod := sumBytes result % 255
  let add := 255 + 239 - mod
  let first := ((result.getD 0 0).toNat + add) % 255
  result.set 0 (UInt8.ofNat first)

/-- `DecryptSecretBytesWithHash`. -/
def decryptSecretBytesWithHash (encryptedSecret hashForEncryptionKey : Bytes) : Option Bytes :=
  if encryptedSecret.length = 0 then some []
  else if encryptedSecret.length ≠ kSecretSize then some []
  else do
    let params ← prepareAesParamsWithHash hashForEncryptionKey
    let result ← decrypt lib encryptedSecret params
    if checkSecretBytes result then some result else some []

/-- `DecryptSecretBytes`. -/
def decryptSecretBytes (encryptedSecret bytesForEncryptionKey : Bytes) : Option Bytes :=
  decryptSecretBytesWithHash lib encryptedSecret (lib.sha512 bytesForEncryptionKey)

/-- `EncryptSecretBytesWithHash`. -/
def encryptSecretBytesWithHash (secret hashForEncryptionKey : Bytes) : Option Bytes :=
  if secret.length = kSecretSize ∧ checkSecretBytes secret then do
    let params ← prepareAesParamsWithHash hashForEncryptionKey
    encrypt lib secret params
  else none

/-- `EncryptSecretBytes`. -/
def encryptSecretBytes (secret bytesForEncryptionKey : Bytes) : Option Bytes :=
  if secret.length = kSecretSize ∧ checkSecretBytes secret then do
    let params ← prepareAesParams lib bytesForEncryptionKey
    encrypt lib secret params
  else none

/-- `DecryptSecureSecret`. -/
def decryptSecureSecret (encryptedSecret passwordHashForSecret : Bytes) : Option Bytes :=
  if encryptedSecret.length ≠ 0 then
    decryptSecretBytesWithHash lib encryptedSecret passwordHashForSecret
  else none

/-- `EncryptSecureSecret`. -/
def encryptSecureSecret (secret passwordHashForSecret : Bytes) : Option Bytes :=
  if secret.length = kSecretSize then encryptSecretBytesWithHash lib secret passwordHashForSecret
  else none

/-- `EncryptValueSecret`. -/
def encryptValueSecret (valueSecret secret valueHash : Bytes) : Option Bytes :=
  encryptSecretBytes lib valueSecret (secret ++ valueHash)

/-- `DecryptValueSecret`. -/
def decryptValueSecret (encrypted secret valueHash : Bytes) : Option Bytes :=
  decryptSecretBytes lib encrypted (secret ++ valueHash)

/-! ## Values -/

/-- `EncryptedData`. -/
structure EncryptedData where
  secret : Bytes
  hash : Bytes
  bytes : Bytes

/-- The `padding` of `EncryptData`, for bytes of a size. -/
def paddingOf (value : UInt32) (size : ℕ) : ℕ :=
  let kFromPadding := kMinPadding + kAlignTo - 1
  let kPaddingDelta := kMaxPadding - kFromPadding
  let randomPadding := kFromPadding + value.toNat % kPaddingDelta
  randomPadding - (size + randomPadding) % kAlignTo

/-- The `unencrypted` of `EncryptData`, its padding given. -/
def unencryptedOf (draws : Draws) (padding : ℕ) (bytes : Bytes) : Bytes :=
  UInt8.ofNat padding :: draws.bytes (padding - 1) ++ bytes

/-- `EncryptData`, under a given secret. -/
def encryptDataWith (draws : Draws) (bytes dataSecret : Bytes) : Option EncryptedData :=
  let padding := paddingOf draws.value bytes.length
  if kMinPadding ≤ padding ∧ padding ≤ kMaxPadding then
    if (padding + bytes.length) % kAlignTo = 0 then do
      let unencrypted := unencryptedOf draws padding bytes
      let dataHash := lib.sha256 unencrypted
      let params ← prepareAesParams lib (dataSecret ++ dataHash)
      let encrypted ← encrypt lib unencrypted params
      some { secret := dataSecret, hash := dataHash, bytes := encrypted }
    else none
  else none

/-- `EncryptData`; `generated` are the draws of `GenerateSecretBytes`. -/
def encryptData (generated draws : Draws) (bytes : Bytes) : Option EncryptedData :=
  encryptDataWith lib draws bytes (generateSecretBytes generated)

/-- `DecryptData` past its checks of sizes: the decrypted bytes without their padding. -/
def unpadded (decrypted dataHash : Bytes) : Bytes :=
  if lib.sha256 decrypted ≠ dataHash then []
  else
    let padding := (decrypted.getD 0 0).toNat
    if padding < kMinPadding ∨ padding > kMaxPadding ∨ padding > decrypted.length then []
    else decrypted.drop padding

/-- `DecryptData`. -/
def decryptData (encrypted dataHash dataSecret : Bytes) : Option Bytes :=
  if encrypted.length = 0 then some []
  else if dataHash.length ≠ kDataHashSize then some []
  else if dataSecret.length ≠ kSecretSize then some []
  else if encrypted.length % kAlignTo ≠ 0 then some []
  else do
    let params ← prepareAesParams lib (dataSecret ++ dataHash)
    let decrypted ← decrypt lib encrypted params
    some (unpadded lib decrypted dataHash)

/-! ## Generated secrets -/

variable {bytes secret hash encrypted dataHash dataSecret : Bytes} {params : AesParams} {n : ℕ}

theorem sumBytes_append (bytes : Bytes) (value : UInt8) :
    sumBytes (bytes ++ [value]) = (sumBytes bytes + value.toNat) % 2 ^ 64 := by
  rw [sumBytes, List.foldl_append]
  rfl

theorem sum_map_toNat_le (bytes : Bytes) :
    (bytes.map UInt8.toNat).sum ≤ bytes.length * 255 := by
  induction bytes with
  | nil => exact Nat.zero_le _
  | cons byte bytes ih =>
    have hbyte := byte.toNat_lt
    rw [List.map_cons, List.sum_cons, List.length_cons]
    omega

/-- The 64 bits hold the sum of the bytes of a secret. -/
theorem sumBytes_eq (h : bytes.length ≤ kSecretSize) :
    sumBytes bytes = (bytes.map UInt8.toNat).sum := by
  induction bytes using List.reverseRecOn with
  | nil => rfl
  | append_singleton bytes value ih =>
    have hlength : bytes.length + 1 ≤ kSecretSize := by simpa using h
    have hsum := sum_map_toNat_le bytes
    rw [sumBytes_append, ih (Nat.le_of_succ_le hlength), List.map_append, List.sum_append,
      List.map_singleton, List.sum_singleton, Nat.mod_eq_of_lt]
    have hvalue := value.toNat_lt
    rw [kSecretSize] at hlength
    omega

@[simp]
theorem length_generateSecretBytes (draws : Draws) :
    (generateSecretBytes draws).length = kSecretSize := by
  simp [generateSecretBytes]

/-- **A generated secret is accepted**, whatever was drawn. -/
theorem checkSecretBytes_generateSecretBytes (draws : Draws) :
    checkSecretBytes (generateSecretBytes draws) = true := by
  have hlength : (generateSecretBytes draws).length ≤ kSecretSize := by simp
  rw [checkSecretBytes, checkBytesMod255, sumBytes_eq hlength, decide_eq_true_iff]
  obtain ⟨b, rest, hdrawn⟩ : ∃ b rest, draws.bytes kSecretSize = b :: rest :=
    List.exists_cons_of_length_pos (by simp [kSecretSize])
  have hsum : sumBytes (b :: rest) = b.toNat + (rest.map UInt8.toNat).sum := by
    rw [sumBytes_eq (by rw [← hdrawn]; simp), List.map_cons, List.sum_cons]
  have hmod := Nat.mod_lt (sumBytes (b :: rest)) (show 255 > 0 by omega)
  have hfirst : ∀ m, (UInt8.ofNat (m % 255)).toNat = m % 255 := fun m => by
    have hm : m % 255 < 255 := Nat.mod_lt m (by omega)
    rw [UInt8.toNat_ofNat']
    exact Nat.mod_eq_of_lt (by omega)
  simp only [generateSecretBytes, hdrawn, List.getD_cons_zero, List.set_cons_zero, List.map_cons,
    List.sum_cons, hfirst]
  omega

/-! ## Keys and whole blocks -/

/-- The parameters that AES-CBC takes. -/
structure AesParams.Sized (params : AesParams) : Prop where
  key : params.key.length = kAesKeyLength
  iv : params.iv.length = kAesIvLength

/-- Parameters are prepared from a hash of 64 bytes, and from no other. -/
theorem prepareAesParamsWithHash_isSome :
    (prepareAesParamsWithHash hash).isSome ↔ hash.length = kAesParamsHashSize := by
  rw [prepareAesParamsWithHash]
  split_ifs with h <;> simp [h]

theorem sized_of_prepareAesParamsWithHash (h : prepareAesParamsWithHash hash = some params) :
    params.Sized := by
  rw [prepareAesParamsWithHash] at h
  split_ifs at h with hlength
  rw [kAesParamsHashSize] at hlength
  obtain rfl := Option.some.inj h
  constructor <;> simp [kAesKeyLength, kAesIvLength, hlength]

/-- A digest gives parameters. -/
theorem exists_prepareAesParams (bytes : Bytes) :
    ∃ params, prepareAesParams lib bytes = some params ∧ params.Sized := by
  have hsome := prepareAesParamsWithHash_isSome.2 (lib.length_sha512 bytes)
  obtain ⟨params, hparams⟩ := Option.isSome_iff_exists.1 hsome
  exact ⟨params, hparams, sized_of_prepareAesParamsWithHash hparams⟩

theorem encrypt_eq (hparams : params.Sized) (h : bytes.length % kAlignTo = 0) :
    encrypt lib bytes params = some (lib.cbcEncrypt params bytes) := by
  rw [encrypt, encryptOrDecrypt, if_pos ⟨h, hparams.key, hparams.iv⟩]

theorem decrypt_eq (hparams : params.Sized) (h : bytes.length % kAlignTo = 0) :
    decrypt lib bytes params = some (lib.cbcDecrypt params bytes) := by
  rw [decrypt, encryptOrDecrypt, if_pos ⟨h, hparams.key, hparams.iv⟩]

/-- What was encrypted is decrypted by the same parameters. -/
theorem decrypt_encrypt (hparams : params.Sized) (h : bytes.length % kAlignTo = 0) :
    decrypt lib (lib.cbcEncrypt params bytes) params = some bytes := by
  rw [decrypt_eq lib hparams (by rwa [lib.length_cbcEncrypt]),
    lib.cbcDecrypt_cbcEncrypt params bytes hparams.key hparams.iv h]

/-! ## Secrets come back -/

/-- A secret that the `Encrypt` functions take. -/
structure IsSecret (secret : Bytes) : Prop where
  length : secret.length = kSecretSize
  check : checkSecretBytes secret = true

theorem isSecret_generateSecretBytes (draws : Draws) : IsSecret (generateSecretBytes draws) :=
  ⟨length_generateSecretBytes draws, checkSecretBytes_generateSecretBytes draws⟩

theorem IsSecret.aligned (h : IsSecret secret) : secret.length % kAlignTo = 0 := by
  rw [h.length]
  rfl

theorem IsSecret.encryptSecretBytesWithHash_eq (h : IsSecret secret) :
    encryptSecretBytesWithHash lib secret hash =
      (prepareAesParamsWithHash hash).bind fun params => encrypt lib secret params := by
  rw [encryptSecretBytesWithHash, if_pos ⟨h.length, h.check⟩]
  rfl

theorem IsSecret.encryptSecretBytes_eq (h : IsSecret secret) :
    encryptSecretBytes lib secret bytes =
      encryptSecretBytesWithHash lib secret (lib.sha512 bytes) := by
  rw [encryptSecretBytes, if_pos ⟨h.length, h.check⟩, h.encryptSecretBytesWithHash_eq]
  rfl

/-- A secret is encrypted under any hash of 64 bytes, and comes back under that hash. -/
theorem IsSecret.round_trip (h : IsSecret secret) (hhash : hash.length = kAesParamsHashSize) :
    ∃ encrypted, encryptSecretBytesWithHash lib secret hash = some encrypted
      ∧ encrypted.length = kSecretSize
      ∧ decryptSecretBytesWithHash lib encrypted hash = some secret := by
  obtain ⟨params, hparams⟩ :=
    Option.isSome_iff_exists.1 (prepareAesParamsWithHash_isSome.2 hhash)
  have hsized := sized_of_prepareAesParamsWithHash hparams
  have hlength : (lib.cbcEncrypt params secret).length = kSecretSize := by
    rw [lib.length_cbcEncrypt, h.length]
  refine ⟨lib.cbcEncrypt params secret, ?_, hlength, ?_⟩
  · rw [h.encryptSecretBytesWithHash_eq, hparams]
    exact encrypt_eq lib hsized h.aligned
  · have hpositive : (lib.cbcEncrypt params secret).length ≠ 0 := by
      rw [hlength]
      exact Nat.succ_ne_zero 31
    rw [decryptSecretBytesWithHash, if_neg hpositive, if_neg (not_not.2 hlength), hparams]
    simp only [Option.bind_eq_bind, Option.bind_some, decrypt_encrypt lib hsized h.aligned,
      h.check, if_true]

/-- The secure secret is encrypted under the hash of a password, and comes back under it. -/
theorem IsSecret.secure_round_trip (h : IsSecret secret)
    (hhash : hash.length = kAesParamsHashSize) :
    ∃ encrypted, encryptSecureSecret lib secret hash = some encrypted
      ∧ decryptSecureSecret lib encrypted hash = some secret := by
  obtain ⟨encrypted, hencrypted, hlength, hdecrypted⟩ := h.round_trip lib hhash
  refine ⟨encrypted, ?_, ?_⟩
  · rw [encryptSecureSecret, if_pos h.length, hencrypted]
  · rw [decryptSecureSecret, if_pos (by rw [hlength]; exact Nat.succ_ne_zero 31), hdecrypted]

/-- The secret of a value is encrypted under any secret and hash, and comes back under them. -/
theorem IsSecret.value_round_trip {valueSecret : Bytes} (h : IsSecret valueSecret)
    (secret valueHash : Bytes) :
    ∃ encrypted, encryptValueSecret lib valueSecret secret valueHash = some encrypted
      ∧ decryptValueSecret lib encrypted secret valueHash = some valueSecret := by
  obtain ⟨encrypted, hencrypted, -, hdecrypted⟩ :=
    h.round_trip lib (lib.length_sha512 (secret ++ valueHash))
  refine ⟨encrypted, ?_, hdecrypted⟩
  rw [encryptValueSecret, h.encryptSecretBytes_eq, hencrypted]

/-! ## Padding -/

/-- The padding fits in its byte and fills the last block up. -/
theorem paddingOf_bounds (value : UInt32) (size : ℕ) :
    kMinPadding ≤ paddingOf value size ∧ paddingOf value size ≤ kMaxPadding
      ∧ (paddingOf value size + size) % kAlignTo = 0 := by
  have hrandom : value.toNat % 208 < 208 := Nat.mod_lt _ (by omega)
  simp only [paddingOf, kMinPadding, kMaxPadding, kAlignTo, Nat.reduceAdd, Nat.reduceSub]
  omega

variable (draws : Draws)

theorem length_unencryptedOf (bytes : Bytes) (h : 0 < n) :
    (unencryptedOf draws n bytes).length = n + bytes.length := by
  simp only [unencryptedOf, List.cons_append, List.length_cons, List.length_append,
    Draws.length_bytes]
  omega

/-- What the first byte says is what is taken off. -/
theorem unpadded_unencryptedOf (hmin : kMinPadding ≤ n) (hmax : n ≤ kMaxPadding) :
    unpadded lib (unencryptedOf draws n bytes) (lib.sha256 (unencryptedOf draws n bytes)) =
      bytes := by
  rw [kMinPadding] at hmin
  rw [kMaxPadding] at hmax
  have hlength := length_unencryptedOf draws bytes (show 0 < n by omega)
  have hfirst : ((unencryptedOf draws n bytes).getD 0 0).toNat = n := by
    rw [unencryptedOf, List.cons_append, List.getD_cons_zero, UInt8.toNat_ofNat']
    exact Nat.mod_eq_of_lt (by omega)
  have hfits : ¬(n < kMinPadding ∨ n > kMaxPadding
      ∨ n > (unencryptedOf draws n bytes).length) := by
    rw [kMinPadding, kMaxPadding, hlength]
    omega
  rw [unpadded, if_neg (not_not.2 rfl), hfirst]
  dsimp only
  rw [if_neg hfits, unencryptedOf, List.drop_left']
  simp only [List.length_cons, Draws.length_bytes]
  omega

/-! ## Values come back -/

/-- Bytes are encrypted under any secret, and no assertion fails. -/
theorem encryptDataWith_eq (bytes dataSecret : Bytes) :
    ∃ params, let unencrypted := unencryptedOf draws (paddingOf draws.value bytes.length) bytes
      params.Sized
        ∧ prepareAesParams lib (dataSecret ++ lib.sha256 unencrypted) = some params
        ∧ encryptDataWith lib draws bytes dataSecret = some {
            secret := dataSecret
            hash := lib.sha256 unencrypted
            bytes := lib.cbcEncrypt params unencrypted } := by
  obtain ⟨hmin, hmax, haligned⟩ := paddingOf_bounds draws.value bytes.length
  have hlength := length_unencryptedOf draws bytes (Nat.lt_of_lt_of_le (by decide) hmin)
  obtain ⟨params, hparams, hsized⟩ := exists_prepareAesParams lib (dataSecret ++
    lib.sha256 (unencryptedOf draws (paddingOf draws.value bytes.length) bytes))
  refine ⟨params, hsized, hparams, ?_⟩
  rw [encryptDataWith]
  dsimp only
  rw [if_pos ⟨hmin, hmax⟩, if_pos haligned, hparams]
  simp only [Option.bind_eq_bind, Option.bind_some]
  rw [encrypt_eq lib hsized (by rwa [hlength])]
  rfl

/-- What is encrypted under a secret of its size is decrypted to the same bytes. -/
theorem data_round_trip (bytes : Bytes) (hsecret : dataSecret.length = kSecretSize) :
    ∃ data, encryptDataWith lib draws bytes dataSecret = some data
      ∧ data.secret = dataSecret
      ∧ decryptData lib data.bytes data.hash dataSecret = some bytes := by
  obtain ⟨params, hsized, hparams, hdata⟩ := encryptDataWith_eq lib draws bytes dataSecret
  obtain ⟨hmin, hmax, haligned⟩ := paddingOf_bounds draws.value bytes.length
  have hpositive : 0 < paddingOf draws.value bytes.length := Nat.lt_of_lt_of_le (by decide) hmin
  have hlength := length_unencryptedOf draws bytes hpositive
  have hhash : (lib.sha256 (unencryptedOf draws (paddingOf draws.value bytes.length)
      bytes)).length = kDataHashSize := lib.length_sha256 _
  refine ⟨_, hdata, rfl, ?_⟩
  dsimp only
  rw [decryptData, lib.length_cbcEncrypt, hlength, if_neg (by omega), if_neg (not_not.2 hhash),
    if_neg (not_not.2 hsecret), if_neg (not_not.2 haligned), hparams]
  simp only [Option.bind_eq_bind, Option.bind_some]
  rw [decrypt_encrypt lib hsized (by rwa [hlength]), Option.bind_some,
    unpadded_unencryptedOf lib draws hmin hmax]

/-! ## What is decrypted at all -/

/-- A result that is the decrypted bytes from an offset on that a padding can have. -/
def IsSuffix (encrypted dataHash dataSecret result : Bytes) : Prop :=
  ∃ params decrypted offset, prepareAesParams lib (dataSecret ++ dataHash) = some params
    ∧ decrypt lib encrypted params = some decrypted
    ∧ kMinPadding ≤ offset ∧ offset ≤ kMaxPadding ∧ offset ≤ decrypted.length
    ∧ result = decrypted.drop offset

theorem unpadded_eq (decrypted dataHash : Bytes) : unpadded lib decrypted dataHash = []
    ∨ ∃ offset, kMinPadding ≤ offset ∧ offset ≤ kMaxPadding ∧ offset ≤ decrypted.length
      ∧ unpadded lib decrypted dataHash = decrypted.drop offset := by
  unfold unpadded
  dsimp only
  split_ifs with hhash hpadding
  · exact .inl rfl
  · exact .inl rfl
  · obtain ⟨hmin, hmax, hfits⟩ := by rwa [not_or, not_or] at hpadding
    exact .inr ⟨_, Nat.le_of_not_lt hmin, Nat.le_of_not_lt hmax, Nat.le_of_not_lt hfits, rfl⟩

/-- `DecryptData` fails on no bytes: it refuses them or takes a padding off. -/
theorem decryptData_eq (encrypted dataHash dataSecret : Bytes) :
    ∃ result, decryptData lib encrypted dataHash dataSecret = some result
      ∧ (result = [] ∨ IsSuffix lib encrypted dataHash dataSecret result) := by
  obtain ⟨params, hparams, hsized⟩ := exists_prepareAesParams lib (dataSecret ++ dataHash)
  unfold decryptData
  split_ifs with hempty hhash hsecret haligned
  · exact ⟨[], rfl, .inl rfl⟩
  · exact ⟨[], rfl, .inl rfl⟩
  · exact ⟨[], rfl, .inl rfl⟩
  · exact ⟨[], rfl, .inl rfl⟩
  · have hdecrypted := decrypt_eq lib hsized (not_not.1 haligned)
    simp only [hparams, hdecrypted, Option.bind_eq_bind, Option.bind_some]
    refine ⟨_, rfl, (unpadded_eq lib _ dataHash).imp_right ?_⟩
    rintro ⟨offset, hmin, hmax, hfits, hresult⟩
    exact ⟨params, _, offset, hparams, hdecrypted, hmin, hmax, hfits, hresult⟩

/-! ## The whole of it -/

/-- The preconditions of the `Encrypt` functions hold of a secret; hashes have to be of 64 bytes. -/
theorem IsSecret.encrypt_isSome (h : IsSecret secret) :
    (∀ bytes, (encryptSecretBytes lib secret bytes).isSome)
      ∧ (∀ hash, (encryptSecretBytesWithHash lib secret hash).isSome
        ↔ hash.length = kAesParamsHashSize)
      ∧ ∀ hash, (encryptSecureSecret lib secret hash).isSome
        ↔ hash.length = kAesParamsHashSize := by
  have hwith : ∀ hash, (encryptSecretBytesWithHash lib secret hash).isSome
      ↔ hash.length = kAesParamsHashSize := by
    intro hash
    refine ⟨fun hsome => ?_, fun hhash => ?_⟩
    · rw [h.encryptSecretBytesWithHash_eq] at hsome
      exact prepareAesParamsWithHash_isSome.1 (Option.isSome_of_isSome_bind hsome)
    · obtain ⟨encrypted, hencrypted, -⟩ := h.round_trip lib hhash
      rw [hencrypted]
      rfl
  refine ⟨fun bytes => ?_, hwith, fun hash => ?_⟩
  · rw [h.encryptSecretBytes_eq]
    exact (hwith _).2 (lib.length_sha512 bytes)
  · rw [encryptSecureSecret, if_pos h.length]
    exact hwith hash

/-- **What is encrypted comes back**, for every draw and all bytes.  Generated secrets are accepted,
by each of the `Encrypt` functions; no assertion of `EncryptData` fails, under any secret; and with
the secret that `DecryptValueSecret` recovers, `DecryptData` gives the bytes.  Whatever it is given,
`DecryptData` refuses it with empty bytes, or takes a padding of 32 to 255 bytes off. -/
theorem encryption_round_trips :
    (∀ generated, IsSecret (generateSecretBytes generated))
      ∧ (∀ secret, IsSecret secret →
        (∀ bytes, (encryptSecretBytes lib secret bytes).isSome)
          ∧ (∀ hash, (encryptSecretBytesWithHash lib secret hash).isSome
            ↔ hash.length = kAesParamsHashSize)
          ∧ ∀ hash, (encryptSecureSecret lib secret hash).isSome
            ↔ hash.length = kAesParamsHashSize)
      ∧ (∀ draws bytes dataSecret, (encryptDataWith lib draws bytes dataSecret).isSome)
      ∧ (∀ generated draws bytes secret valueHash, ∃ data encryptedSecret valueSecret,
        encryptData lib generated draws bytes = some data
          ∧ encryptValueSecret lib data.secret secret valueHash = some encryptedSecret
          ∧ decryptValueSecret lib encryptedSecret secret valueHash = some valueSecret
          ∧ decryptData lib data.bytes data.hash valueSecret = some bytes)
      ∧ ∀ encrypted dataHash dataSecret, ∃ result,
        decryptData lib encrypted dataHash dataSecret = some result
          ∧ (result = [] ∨ IsSuffix lib encrypted dataHash dataSecret result) := by
  refine ⟨isSecret_generateSecretBytes, fun secret h => h.encrypt_isSome lib,
    fun draws bytes dataSecret => ?_, fun generated draws bytes secret valueHash => ?_,
    decryptData_eq lib⟩
  · obtain ⟨params, -, -, hdata⟩ := encryptDataWith_eq lib draws bytes dataSecret
    rw [hdata]
    rfl
  · have hsecret := isSecret_generateSecretBytes generated
    obtain ⟨data, hdata, hkept, hdecrypted⟩ := data_round_trip lib draws bytes hsecret.length
    obtain ⟨encrypted, hencrypted, hrecovered⟩ := hsecret.value_round_trip lib secret valueHash
    exact ⟨data, encrypted, _, hdata, hkept ▸ hencrypted, hrecovered, hdecrypted⟩

/-! ## A refusal is no suffix -/

/-- A library of one digest of each size, that leaves blocks as they are. -/
def plain : Library where
  sha256 := fun _ => List.replicate 32 0
  sha512 := fun _ => List.replicate 64 0
  cbcEncrypt := fun _ input => input
  cbcDecrypt := fun _ input => input
  length_sha256 := fun _ => List.length_replicate
  length_sha512 := fun _ => List.length_replicate
  length_cbcEncrypt := fun _ _ => rfl
  length_cbcDecrypt := fun _ _ => rfl
  cbcDecrypt_cbcEncrypt := fun _ _ _ _ _ => rfl

/-- Decrypted bytes of another digest are refused, and no suffix of 512 bytes from 255 or less on
is empty. -/
theorem bad_hash_no_suffix : ¬∀ (lib : Library) (encrypted dataHash dataSecret result : Bytes),
    decryptData lib encrypted dataHash dataSecret = some result →
      IsSuffix lib encrypted dataHash dataSecret result := by
  intro h
  have hrefused : decryptData plain (List.replicate 512 0) (List.replicate 32 1)
      (List.replicate 32 0) = some [] := by
    obtain ⟨params, hparams, hsized⟩ := exists_prepareAesParams plain
      (List.replicate 32 0 ++ List.replicate 32 1)
    have hdecrypted : decrypt plain (List.replicate 512 0) params = some (List.replicate 512 0) :=
      decrypt_eq plain hsized (by rw [List.length_replicate]; rfl)
    have hbad : List.replicate 32 (0 : UInt8) ≠ List.replicate 32 1 := by decide
    simp only [decryptData, List.length_replicate, kDataHashSize, kSecretSize, kAlignTo, hparams, hdecrypted,
      unpadded, Option.bind_eq_bind, Option.bind_some]
    exact congrArg some (if_pos hbad)
  obtain ⟨params, decrypted, offset, -, hdecrypted, -, hmax, -, hresult⟩ := h _ _ _ _ _ hrefused
  rw [decrypt, encryptOrDecrypt] at hdecrypted
  split_ifs at hdecrypted with hsized
  have hlength := congrArg List.length hresult
  rw [← Option.some.inj hdecrypted, List.length_drop] at hlength
  simp only [plain, List.length_nil, List.length_replicate] at hlength
  rw [kMaxPadding] at hmax
  omega

end Yunogram.Passport
