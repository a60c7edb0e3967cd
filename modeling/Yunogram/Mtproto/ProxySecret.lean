import Yunogram.Machinery.Digits
import Yunogram.Mtproto.DcOptionsStorage
import Yunogram.Mtproto.TcpProtocol

/-!
# Mtproto/ProxySecret — the secret a proxy password stands for

`mtproto/mtproto_proxy_data.cpp`: the password of an MTProto proxy is its secret in hexadecimal or
in base64url.  A password is checked by the form of its text, `MtprotoPasswordStatus`, and the
checks look at the characters only; the secret is decoded later, and `Protocol::Create` chooses a
protocol by the length and the first byte of what was decoded, with no branch left for other
secrets.

`valid_password_secret`: the two agree.  Both decodings are the reading of `Machinery/Digits`, and
the characters a check looks at are the bits of the byte the other looks at. -/

open Machinery

namespace Yunogram

namespace Mtproto

/-- `QString`, by its UTF-16 units. -/
abbrev QString := List UInt16

/-- `ProxyData::Type`. -/
inductive ProxyType
  | none
  | socks5
  | http
  | mtproto
  | web
  deriving DecidableEq

/-- `ProxyData::Status`. -/
inductive ProxyStatus
  | valid
  | unsupported
  | incorrectSecret
  | invalid
  deriving DecidableEq

/-- `ProxyData`: what the secret depends on. -/
structure ProxyData where
  type : ProxyType
  password : QString

/-- A character in a range. -/
def between (low high : Char) (ch : UInt16) : Prop := low.toNat ≤ ch.toNat ∧ ch.toNat ≤ high.toNat

instance (low high : Char) (ch : UInt16) : Decidable (between low high ch) :=
  inferInstanceAs (Decidable (_ ∧ _))

/-- A character is the one given. -/
def isChar (c : Char) (ch : UInt16) : Prop := ch.toNat = c.toNat

instance (c : Char) (ch : UInt16) : Decidable (isChar c ch) := inferInstanceAs (Decidable (_ = _))

/-- `QChar::toLower`, of the characters of ASCII. -/
def toLower (ch : UInt16) : UInt16 := if between 'A' 'Z' ch then ch + 32 else ch

/-- `IsHexMtprotoPassword`. -/
def isHexMtprotoPassword (password : QString) : Bool :=
  let size := password.length
  if size < 32 ∨ size % 2 = 1 then
    false
  else
    password.all fun ch => between 'a' 'f' ch ∨ between 'A' 'F' ch ∨ between '0' '9' ch

/-- `HexMtprotoPasswordStatus`. -/
def hexMtprotoPasswordStatus : QString → Except Fault ProxyStatus
  | c0 :: c1 :: rest =>
    let size := (c0 :: c1 :: rest).length / 2
    let type1 := toLower c0
    let type2 := toLower c1
    if size = 16 ∨ size = 17 ∧ isChar 'd' type1 ∧ isChar 'd' type2 ∨
        21 ≤ size ∧ isChar 'e' type1 ∧ isChar 'e' type2 then
      .ok .valid
    else if size < 16 then
      .ok .invalid
    else
      .ok .unsupported
  | _ => .error .outOfBounds

/-- `fromHex` of `SecretFromHexMtprotoPassword`. -/
def fromHex (ch : UInt16) : Except Fault ℕ :=
  if between '0' '9' ch then .ok (ch.toNat - '0'.toNat)
  else if between 'A' 'F' ch then .ok (10 + (ch.toNat - 'A'.toNat))
  else if between 'a' 'f' ch then .ok (10 + (ch.toNat - 'a'.toNat))
  else .error .assertion

/-- The loop of `SecretFromHexMtprotoPassword`. -/
def hexBytes : QString → Except Fault Bytes
  | c0 :: c1 :: rest => do
    let high ← fromHex c0
    let low ← fromHex c1
    let bytes ← hexBytes rest
    .ok (UInt8.ofNat (high * 16 + low) :: bytes)
  | _ => .ok []

/-- `SecretFromHexMtprotoPassword`. -/
def secretFromHexMtprotoPassword (password : QString) : Except Fault Bytes := do
  expects (password.length % 2 = 0)
  hexBytes password

/-- One `=` off the end. -/
def dropPad (password : QString) : QString :=
  if password.getLast?.any fun ch => isChar '=' ch then password.dropLast else password

/-- `Base64UrlInner`. -/
def base64UrlInner (password : QString) : Except Fault QString := do
  expects (2 < password.length)
  .ok (dropPad (dropPad password))

/-- `IsBase64UrlMtprotoPassword`. -/
def isBase64UrlMtprotoPassword (password : QString) : Except Fault Bool := do
  let size := password.length
  if size < 22 ∨ size % 4 = 1 then
    .ok false
  else
    let inner ← base64UrlInner password
    .ok (inner.all fun ch => between 'a' 'z' ch ∨ between 'A' 'Z' ch ∨ between '0' '9' ch ∨
      isChar '_' ch ∨ isChar '-' ch)

/-- `Base64UrlMtprotoPasswordStatus`. -/
def base64UrlMtprotoPasswordStatus (password : QString) : Except Fault ProxyStatus := do
  let inner ← base64UrlInner password
  let size := inner.length * 3 / 4
  match password with
  | c0 :: c1 :: _ =>
    if size < 16 then
      .ok .invalid
    else if size = 16 ∨ size = 17 ∧ isChar '3' c0 ∧ (between 'Q' 'Z' c1 ∨ between 'a' 'f' c1) ∨
        21 ≤ size ∧ isChar '7' c0 ∧ between 'g' 'v' c1 then
      .ok .valid
    else if 21 ≤ size ∧ isChar 'e' (toLower c0) ∧ isChar 'e' (toLower c1) then
      .ok .incorrectSecret
    else
      .ok .unsupported
  | _ => .error .outOfBounds

/-- The six bits `QByteArray::fromBase64` reads off a character. -/
def base64UrlDigit (ch : UInt16) : Option ℕ :=
  if between 'A' 'Z' ch then some (ch.toNat - 'A'.toNat)
  else if between 'a' 'z' ch then some (ch.toNat - 'a'.toNat + 26)
  else if between '0' '9' ch then some (ch.toNat - '0'.toNat + 52)
  else if isChar '-' ch then some 62
  else if isChar '_' ch then some 63
  else none

/-- `QByteArray::fromBase64` with `Base64UrlEncoding`: other characters are skipped. -/
def fromBase64 (text : QString) : Bytes :=
  ((text.filterMap base64UrlDigit).foldl (Group.push 6) {}).out

/-- `SecretFromBase64UrlMtprotoPassword`. -/
def secretFromBase64UrlMtprotoPassword (password : QString) : Bytes :=
  fromBase64 (password.map fun ch => if ch.toNat < 256 then ch else UInt16.ofNat '?'.toNat)

/-- `ProxyData::MtprotoPasswordStatus`. -/
def mtprotoPasswordStatus (password : QString) : Except Fault ProxyStatus := do
  if isHexMtprotoPassword password then
    hexMtprotoPasswordStatus password
  else if ← isBase64UrlMtprotoPassword password then
    base64UrlMtprotoPasswordStatus password
  else
    .ok .invalid

/-- `ProxyData::secretFromMtprotoPassword`. -/
def ProxyData.secretFromMtprotoPassword (proxy : ProxyData) : Except Fault Bytes := do
  expects (proxy.type = .mtproto ∨ proxy.type = .web)
  if isHexMtprotoPassword proxy.password then
    secretFromHexMtprotoPassword proxy.password
  else if ← isBase64UrlMtprotoPassword proxy.password then
    .ok (secretFromBase64UrlMtprotoPassword proxy.password)
  else
    .ok []

/-- `Protocol::Create`, with the secret the protocol keeps. -/
def Protocol.create (secret : Bytes) : Except Fault (Protocol × Bytes) := do
  if 21 ≤ secret.length ∧ secret.head? = some 0xEE ∨
      secret.length = 17 ∧ secret.head? = some 0xDD then
    let key ← subspan secret 1 16
    .ok (versionD, key)
  else if secret.length = 16 then
    .ok (version1, secret)
  else if secret = [] then
    .ok (version0, [])
  else
    .error .assertion

/-! ## What a password denotes -/

/-- A hexadecimal digit. -/
def hexChar (digit : ℕ) : ℕ := if digit < 10 then '0'.toNat + digit else 'a'.toNat + (digit - 10)

/-- A character of the alphabet of base64url. -/
def base64UrlChar (digit : ℕ) : ℕ :=
  if digit < 26 then 'A'.toNat + digit
  else if digit < 52 then 'a'.toNat + (digit - 26)
  else if digit < 62 then '0'.toNat + (digit - 52)
  else if digit = 62 then '-'.toNat
  else '_'.toNat

/-- The bytes a text in hexadecimal stands for, in either case. -/
def DenotesHex (text : QString) (bytes : Bytes) : Prop :=
  ∃ digits : List ℕ, (∀ digit ∈ digits, digit < 16) ∧ digits.length % 2 = 0 ∧
    text.map (fun ch => (toLower ch).toNat) = digits.map hexChar ∧ bytes = bytesOfDigits 4 digits

/-- The bytes a text in base64url stands for, with the padding or without. -/
def DenotesBase64Url (text : QString) (bytes : Bytes) : Prop :=
  ∃ (digits : List ℕ) (pads : ℕ), (∀ digit ∈ digits, digit < 64) ∧ pads ≤ 2 ∧
    text.map UInt16.toNat = digits.map base64UrlChar ++ List.replicate pads '='.toNat ∧
      bytes = bytesOfDigits 6 digits

/-- What a password stands for; one that can be read as hexadecimal is. -/
def Denotes (password : QString) (bytes : Bytes) : Prop :=
  if isHexMtprotoPassword password then DenotesHex password bytes
  else DenotesBase64Url password bytes

/-! ## Characters -/

variable {ch c0 c1 : UInt16} {text inner password : QString} {secret : Bytes}

theorem toNat_toLower (ch : UInt16) :
    (toLower ch).toNat = if 65 ≤ ch.toNat ∧ ch.toNat ≤ 90 then ch.toNat + 32 else ch.toNat := by
  rw [toLower]
  by_cases hupper : between 'A' 'Z' ch
  · have hch : 65 ≤ ch.toNat ∧ ch.toNat ≤ 90 := hupper
    rw [if_pos hupper, if_pos hch, UInt16.toNat_add]
    exact Nat.mod_eq_of_lt (show ch.toNat + 32 < 65536 by omega)
  · rw [if_neg hupper]
    exact (if_neg hupper).symm

/-- The test of `IsHexMtprotoPassword`. -/
def isHexChar (ch : UInt16) : Prop := between 'a' 'f' ch ∨ between 'A' 'F' ch ∨ between '0' '9' ch

instance (ch : UInt16) : Decidable (isHexChar ch) := inferInstanceAs (Decidable (_ ∨ _))

/-- **A hexadecimal character is a digit.** -/
theorem fromHex_of_isHexChar (h : isHexChar ch) :
    ∃ digit < 16, fromHex ch = .ok digit ∧ (toLower ch).toNat = hexChar digit := by
  have htoNat : 'A'.toNat = 65 ∧ 'F'.toNat = 70 ∧ 'a'.toNat = 97 ∧ 'f'.toNat = 102 ∧
      '0'.toNat = 48 ∧ '9'.toNat = 57 := by decide
  obtain ⟨hA, hF, ha, hf, h0, h9⟩ := htoNat
  simp only [isHexChar, between, hA, hF, ha, hf, h0, h9] at h
  simp only [fromHex, between, hexChar, toNat_toLower, hA, hF, ha, hf, h0, h9]
  rcases h with h | h | h
  · rw [if_neg (by omega), if_neg (by omega), if_pos h, if_neg (by omega)]
    exact ⟨_, by omega, rfl, by rw [if_neg (by omega)]; omega⟩
  · rw [if_neg (by omega), if_pos h, if_pos (by omega)]
    exact ⟨_, by omega, rfl, by rw [if_neg (by omega)]; omega⟩
  · rw [if_pos h, if_neg (by omega)]
    exact ⟨_, by omega, rfl, by rw [if_pos (by omega)]; omega⟩

/-- **The loop reads the digits of the text.** -/
theorem hexBytes_eq : ∀ text : QString, (∀ ch ∈ text, isHexChar ch) → text.length % 2 = 0 →
    ∃ digits : List ℕ, (∀ digit ∈ digits, digit < 16) ∧
      text.map (fun ch => (toLower ch).toNat) = digits.map hexChar ∧
      hexBytes text = .ok (bytesOfDigits 4 digits)
  | [], _, _ => ⟨[], by simp, rfl, rfl⟩
  | [_], _, hlength => absurd hlength Nat.one_ne_zero
  | c0 :: c1 :: rest, hchars, hlength => by
    obtain ⟨d0, hd0, hread0, hlower0⟩ := fromHex_of_isHexChar (hchars c0 List.mem_cons_self)
    obtain ⟨d1, hd1, hread1, hlower1⟩ :=
      fromHex_of_isHexChar (hchars c1 (List.mem_cons_of_mem _ List.mem_cons_self))
    obtain ⟨digits, hdigits, hmap, hbytes⟩ := hexBytes_eq rest
      (fun ch hch => hchars ch (List.mem_cons_of_mem _ (List.mem_cons_of_mem _ hch)))
      (by simp only [List.length_cons] at hlength; omega)
    have hall : ∀ digit ∈ d0 :: d1 :: digits, digit < 16 := fun digit hdigit => by
      rcases List.mem_cons.mp hdigit with rfl | hdigit
      · exact hd0
      rcases List.mem_cons.mp hdigit with rfl | hdigit
      · exact hd1
      · exact hdigits digit hdigit
    refine ⟨d0 :: d1 :: digits, hall, ?_, ?_⟩
    · rw [List.map_cons, List.map_cons, List.map_cons, List.map_cons, hlower0, hlower1, hmap]
    · rw [hexBytes, hread0, hread1, hbytes, bytesOfDigits_four hall]
      rfl

/-- The test of `IsBase64UrlMtprotoPassword`. -/
def isBase64UrlChar (ch : UInt16) : Prop :=
  between 'a' 'z' ch ∨ between 'A' 'Z' ch ∨ between '0' '9' ch ∨ isChar '_' ch ∨ isChar '-' ch

instance (ch : UInt16) : Decidable (isBase64UrlChar ch) := inferInstanceAs (Decidable (_ ∨ _))

/-- **A character of base64url is a digit.** -/
theorem base64UrlDigit_of_isBase64UrlChar (h : isBase64UrlChar ch) :
    ∃ digit < 64, base64UrlDigit ch = some digit ∧ ch.toNat = base64UrlChar digit ∧
      ch.toNat < 256 := by
  have htoNat : 'A'.toNat = 65 ∧ 'Z'.toNat = 90 ∧ 'a'.toNat = 97 ∧ 'z'.toNat = 122 ∧
      '0'.toNat = 48 ∧ '9'.toNat = 57 ∧ '-'.toNat = 45 ∧ '_'.toNat = 95 := by decide
  obtain ⟨hA, hZ, ha, hz, h0, h9, hminus, hunder⟩ := htoNat
  simp only [isBase64UrlChar, between, isChar, hA, hZ, ha, hz, h0, h9, hminus, hunder] at h
  simp only [base64UrlDigit, between, isChar, base64UrlChar, hA, hZ, ha, hz, h0, h9, hminus, hunder]
  split_ifs with h1 h2 h3 h4 h5
  · exact ⟨_, by omega, rfl, by split_ifs <;> omega, by omega⟩
  · exact ⟨_, by omega, rfl, by split_ifs <;> omega, by omega⟩
  · exact ⟨_, by omega, rfl, by split_ifs <;> omega, by omega⟩
  · exact ⟨_, by omega, rfl, by split_ifs <;> omega, by omega⟩
  · exact ⟨_, by omega, rfl, by split_ifs <;> omega, by omega⟩
  · omega

/-! ## The decoding of base64url -/

theorem dropPad_eq (text : QString) :
    ∃ pads ≤ 1, text = dropPad text ++ List.replicate pads 61 := by
  rw [dropPad]
  split_ifs with h
  · obtain ⟨ch, hlast, hpad⟩ := (Option.any_eq_true _ _).mp h
    obtain ⟨front, rfl⟩ := List.getLast?_eq_some_iff.mp hlast
    have hch : ch = 61 := UInt16.toNat_inj.mp (of_decide_eq_true hpad)
    exact ⟨1, le_rfl, by rw [List.dropLast_concat, hch]; rfl⟩
  · exact ⟨0, Nat.zero_le 1, (List.append_nil text).symm⟩

/-- A text is its inner part and up to two `=`. -/
theorem base64UrlInner_eq (h : base64UrlInner text = .ok inner) :
    ∃ pads ≤ 2, text = inner ++ List.replicate pads 61 := by
  obtain ⟨-, -, hinner⟩ := bind_ok h
  obtain rfl := Except.ok.inj hinner
  obtain ⟨outer, houter, htext⟩ := dropPad_eq text
  obtain ⟨pads, hpads, hinner⟩ := dropPad_eq (dropPad text)
  refine ⟨pads + outer, by omega, ?_⟩
  rw [← List.replicate_append_replicate, ← List.append_assoc, ← hinner, ← htext]

theorem base64UrlDigits (hchars : ∀ ch ∈ inner, isBase64UrlChar ch) :
    ∃ digits : List ℕ, (∀ digit ∈ digits, digit < 64) ∧
      inner.map UInt16.toNat = digits.map base64UrlChar ∧
      inner.filterMap base64UrlDigit = digits := by
  induction inner with
  | nil => exact ⟨[], by simp, rfl, rfl⟩
  | cons ch inner ih =>
    obtain ⟨digit, hdigit, hread, hchar, -⟩ :=
      base64UrlDigit_of_isBase64UrlChar (hchars ch List.mem_cons_self)
    obtain ⟨digits, hdigits, hmap, hreads⟩ :=
      ih fun ch hch => hchars ch (List.mem_cons_of_mem _ hch)
    refine ⟨digit :: digits, fun d hd => ?_, ?_, ?_⟩
    · rcases List.mem_cons.mp hd with rfl | hd
      · exact hdigit
      · exact hdigits d hd
    · rw [List.map_cons, List.map_cons, hchar, hmap]
    · rw [List.filterMap_cons_some hread, hreads]

/-- **What `fromBase64` reads off a text and its padding.** -/
theorem secretFromBase64Url_eq {pads : ℕ} {digits : List ℕ}
    (hchars : ∀ ch ∈ inner, isBase64UrlChar ch) (hdigits : ∀ digit ∈ digits, digit < 64)
    (hreads : inner.filterMap base64UrlDigit = digits) :
    secretFromBase64UrlMtprotoPassword (inner ++ List.replicate pads 61) =
      bytesOfDigits 6 digits := by
  have hlatin : (inner ++ List.replicate pads 61).map
      (fun ch : UInt16 => if ch.toNat < 256 then ch else UInt16.ofNat '?'.toNat) =
        inner ++ List.replicate pads 61 := by
    refine (List.map_congr_left fun ch hch => ?_).trans (List.map_id _)
    rcases List.mem_append.mp hch with hch | hch
    · obtain ⟨-, -, -, -, hlt⟩ := base64UrlDigit_of_isBase64UrlChar (hchars ch hch)
      exact if_pos hlt
    · rw [List.eq_of_mem_replicate hch]
      rfl
  have hpads : (List.replicate pads (61 : UInt16)).filterMap base64UrlDigit = [] :=
    List.filterMap_eq_nil_iff.mpr fun ch hch => by
      rw [List.eq_of_mem_replicate hch]
      rfl
  rw [secretFromBase64UrlMtprotoPassword, hlatin, fromBase64, List.filterMap_append, hpads,
    List.append_nil, hreads, bytesOfDigits_eq (by decide) hdigits]

/-! ## The secret of a valid password -/

/-- The secrets that `Protocol::Create` has a protocol for, but for the empty one. -/
def Shape (secret : Bytes) : Prop :=
  21 ≤ secret.length ∧ secret.head? = some 0xEE ∨
    secret.length = 17 ∧ secret.head? = some 0xDD ∨ secret.length = 16

theorem Shape.validateSecret (h : Shape secret) : validateSecret secret = true := by
  rw [Mtproto.validateSecret]
  simp only [Bool.or_eq_true, Bool.and_eq_true, decide_eq_true_eq]
  rcases h with h | h | h
  · exact Or.inl (Or.inl (Or.inl h))
  · exact Or.inl (Or.inl (Or.inr h))
  · exact Or.inl (Or.inr h)

theorem Shape.create (h : Shape secret) : ∃ protocol, Protocol.create secret = .ok protocol := by
  rw [Protocol.create]
  by_cases hd : 21 ≤ secret.length ∧ secret.head? = some 0xEE ∨
      secret.length = 17 ∧ secret.head? = some 0xDD
  · rw [if_pos hd, subspan_ok (by omega), ok_bind]
    exact ⟨_, rfl⟩
  · have hsize : secret.length = 16 := by
      rcases h with h | h | h
      · exact absurd (Or.inl h) hd
      · exact absurd (Or.inr h) hd
      · exact h
    rw [if_neg hd, if_pos hsize]
    exact ⟨_, rfl⟩

theorem isHexMtprotoPassword_iff : isHexMtprotoPassword password = true ↔
    32 ≤ password.length ∧ password.length % 2 = 0 ∧ ∀ ch ∈ password, isHexChar ch := by
  rw [isHexMtprotoPassword]
  by_cases hsize : password.length < 32 ∨ password.length % 2 = 1
  · rw [if_pos hsize]
    exact ⟨(fun h => nomatch h), fun h => by omega⟩
  · rw [if_neg hsize, List.all_eq_true]
    constructor
    · exact fun h => ⟨by omega, by omega, fun ch hch => of_decide_eq_true (h ch hch)⟩
    · exact fun h ch hch => decide_eq_true (h.2.2 ch hch)

theorem isBase64UrlMtprotoPassword_eq (h : isBase64UrlMtprotoPassword password = .ok true) :
    22 ≤ password.length ∧ ∃ inner, base64UrlInner password = .ok inner ∧
      ∀ ch ∈ inner, isBase64UrlChar ch := by
  rw [isBase64UrlMtprotoPassword] at h
  split_ifs at h with hsize
  · exact nomatch h
  · obtain ⟨inner, hinner, hall⟩ := bind_ok h
    exact ⟨by omega, inner, hinner, fun ch hch =>
      of_decide_eq_true (List.all_eq_true.mp (Except.ok.inj hall) ch hch)⟩

/-- **A valid password in hexadecimal.** -/
theorem hex_secret (hhex : isHexMtprotoPassword password = true)
    (hvalid : hexMtprotoPasswordStatus password = .ok .valid) :
    ∃ secret, secretFromHexMtprotoPassword password = .ok secret ∧ DenotesHex password secret ∧
      Shape secret := by
  obtain ⟨hsize, heven, hchars⟩ := isHexMtprotoPassword_iff.mp hhex
  obtain ⟨digits, hdigits, hmap, hbytes⟩ := hexBytes_eq password hchars heven
  have hlength : digits.length = password.length := by
    rw [← List.length_map (f := hexChar), ← hmap, List.length_map]
  have hdigitsEven : digits.length % 2 = 0 := by rwa [hlength]
  refine ⟨bytesOfDigits 4 digits, ?_, ⟨digits, hdigits, hdigitsEven, hmap, rfl⟩, ?_⟩
  · rw [secretFromHexMtprotoPassword, expects_ok heven, ok_bind, hbytes]
  match password, digits, hlength, hsize, hvalid with
  | c0 :: c1 :: rest, d0 :: d1 :: digits, hlength, hsize, hvalid =>
    have hhead := head?_bytesOfDigits (w := 4) (by decide) (by decide) hdigits
    have hd0 := hdigits d0 List.mem_cons_self
    have hd1 := hdigits d1 (List.mem_cons_of_mem _ List.mem_cons_self)
    simp only [List.map_cons, List.cons.injEq] at hmap
    have hdigit (c : UInt16) (d k : ℕ) (hd : d < 16) (h : (toLower c).toNat = hexChar d)
        (hc : (toLower c).toNat = 87 + k) (hk : 10 ≤ k) : d = k := by
      have hten : hexChar d = if d < 10 then 48 + d else 97 + (d - 10) := rfl
      rw [h, hten] at hc
      split_ifs at hc <;> omega
    have hkind : (c0 :: c1 :: rest).length / 2 = 16 ∨
        (c0 :: c1 :: rest).length / 2 = 17 ∧ isChar 'd' (toLower c0) ∧ isChar 'd' (toLower c1) ∨
          21 ≤ (c0 :: c1 :: rest).length / 2 ∧ isChar 'e' (toLower c0) ∧
            isChar 'e' (toLower c1) := by
      by_contra hnot
      rw [hexMtprotoPasswordStatus, if_neg hnot] at hvalid
      split_ifs at hvalid <;> exact nomatch hvalid
    rw [Shape, length_bytesOfDigits, hhead, hlength]
    rcases hkind with hkind | ⟨hkind, hc0, hc1⟩ | ⟨hkind, hc0, hc1⟩
    · exact Or.inr (Or.inr (by omega))
    · obtain rfl := hdigit c0 d0 13 hd0 hmap.1 hc0 (by decide)
      obtain rfl := hdigit c1 d1 13 hd1 hmap.2.1 hc1 (by decide)
      exact Or.inr (Or.inl ⟨by omega, rfl⟩)
    · obtain rfl := hdigit c0 d0 14 hd0 hmap.1 hc0 (by decide)
      obtain rfl := hdigit c1 d1 14 hd1 hmap.2.1 hc1 (by decide)
      exact Or.inl ⟨by omega, rfl⟩

/-- **A valid password in base64url.** -/
theorem base64Url_secret (hbase : isBase64UrlMtprotoPassword password = .ok true)
    (hvalid : base64UrlMtprotoPasswordStatus password = .ok .valid) :
    DenotesBase64Url password (secretFromBase64UrlMtprotoPassword password) ∧
      Shape (secretFromBase64UrlMtprotoPassword password) := by
  obtain ⟨hsize, inner, hinner, hchars⟩ := isBase64UrlMtprotoPassword_eq hbase
  obtain ⟨pads, hpads, htext⟩ := base64UrlInner_eq hinner
  obtain ⟨digits, hdigits, hmap, hreads⟩ := base64UrlDigits hchars
  have hsecret : secretFromBase64UrlMtprotoPassword password = bytesOfDigits 6 digits := by
    rw [htext, secretFromBase64Url_eq hchars hdigits hreads]
  have hlength : digits.length = inner.length := by
    rw [← List.length_map (f := base64UrlChar), ← hmap, List.length_map]
  have hdenotes : password.map UInt16.toNat =
      digits.map base64UrlChar ++ List.replicate pads '='.toNat := by
    rw [htext, List.map_append, hmap, List.map_replicate]
    rfl
  rw [hsecret]
  refine ⟨⟨digits, pads, hdigits, hpads, hdenotes, rfl⟩, ?_⟩
  have htwo : 2 ≤ inner.length := by
    have := congrArg List.length htext
    rw [List.length_append, List.length_replicate] at this
    omega
  match inner, digits, hlength, htwo with
  | c0 :: c1 :: rest, d0 :: d1 :: digits, hlength, htwo =>
    have hhead := head?_bytesOfDigits (w := 6) (by decide) (by decide) hdigits
    have hd0 := hdigits d0 List.mem_cons_self
    have hd1 := hdigits d1 (List.mem_cons_of_mem _ List.mem_cons_self)
    simp only [List.map_cons, List.cons.injEq] at hmap
    obtain ⟨hc0, hc1, -⟩ := hmap
    have hkind : (c0 :: c1 :: rest).length * 3 / 4 = 16 ∨
        (c0 :: c1 :: rest).length * 3 / 4 = 17 ∧ isChar '3' c0 ∧
          (between 'Q' 'Z' c1 ∨ between 'a' 'f' c1) ∨
        21 ≤ (c0 :: c1 :: rest).length * 3 / 4 ∧ isChar '7' c0 ∧ between 'g' 'v' c1 := by
      by_contra hnot
      rw [base64UrlMtprotoPasswordStatus, hinner, ok_bind, htext, List.cons_append,
        List.cons_append] at hvalid
      dsimp only at hvalid
      rw [if_neg hnot] at hvalid
      split_ifs at hvalid <;> exact nomatch hvalid
    have hbyte : (d0 <<< 6 ||| d1) >>> (6 + 6 - 8) = d0 * 4 + d1 / 16 := by
      rw [← Nat.shiftLeft_add_eq_or_of_lt hd1, Nat.shiftLeft_eq, Nat.shiftRight_eq_div_pow]
      omega
    have hchar (d : ℕ) : base64UrlChar d = if d < 26 then 65 + d else if d < 52 then 97 + (d - 26)
        else if d < 62 then 48 + (d - 52) else if d = 62 then 45 else 95 := rfl
    rw [hchar] at hc0 hc1
    rw [Shape, length_bytesOfDigits, hhead, hbyte, hlength]
    rcases hkind with hkind | ⟨hkind, h0, h1⟩ | ⟨hkind, h0, h1⟩
    · exact Or.inr (Or.inr (by omega))
    · have h0 : c0.toNat = 51 := h0
      have h1 : 81 ≤ c1.toNat ∧ c1.toNat ≤ 90 ∨ 97 ≤ c1.toNat ∧ c1.toNat ≤ 102 := h1
      have hd0 : d0 = 55 := by split_ifs at hc0 <;> omega
      have hd1 : d1 / 16 = 1 := by split_ifs at hc1 <;> omega
      rw [hd0, hd1]
      exact Or.inr (Or.inl ⟨by omega, rfl⟩)
    · have h0 : c0.toNat = 55 := h0
      have h1 : 103 ≤ c1.toNat ∧ c1.toNat ≤ 118 := h1
      have hd0 : d0 = 59 := by split_ifs at hc0 <;> omega
      have hd1 : d1 / 16 = 2 := by split_ifs at hc1 <;> omega
      rw [hd0, hd1]
      exact Or.inl ⟨by omega, rfl⟩

/-- **Proxy secrets**: the secret of a valid password is what the password denotes, and there is a
protocol for it. -/
theorem valid_password_secret (proxy : ProxyData)
    (htype : proxy.type = .mtproto ∨ proxy.type = .web)
    (hvalid : mtprotoPasswordStatus proxy.password = .ok .valid) :
    ∃ secret, proxy.secretFromMtprotoPassword = .ok secret ∧ Denotes proxy.password secret ∧
      validateSecret secret = true ∧ ∃ protocol, Protocol.create secret = .ok protocol := by
  rw [ProxyData.secretFromMtprotoPassword, expects_ok htype, ok_bind]
  rw [mtprotoPasswordStatus] at hvalid
  by_cases hhex : isHexMtprotoPassword proxy.password = true
  · rw [if_pos hhex] at hvalid
    rw [if_pos hhex]
    obtain ⟨secret, hsecret, hdenotes, hshape⟩ := hex_secret hhex hvalid
    refine ⟨secret, hsecret, ?_, hshape.validateSecret, hshape.create⟩
    rwa [Denotes, if_pos hhex]
  · rw [if_neg hhex] at hvalid
    rw [if_neg hhex]
    obtain ⟨base, hbase, hvalid⟩ := bind_ok hvalid
    cases base with
    | true =>
      obtain ⟨hdenotes, hshape⟩ := base64Url_secret hbase hvalid
      rw [hbase]
      refine ⟨_, rfl, ?_, hshape.validateSecret, hshape.create⟩
      rwa [Denotes, if_neg hhex]
    | false => exact nomatch hvalid

/-- The password of a secret of seventeen bytes. -/
theorem valid_password_secret_dd : ∃ secret,
    ProxyData.secretFromMtprotoPassword ⟨.mtproto, 51 :: 81 :: List.replicate 21 65⟩ = .ok secret ∧
      Denotes (51 :: 81 :: List.replicate 21 65) secret ∧ validateSecret secret = true ∧
      ∃ protocol, Protocol.create secret = .ok protocol :=
  valid_password_secret ⟨.mtproto, 51 :: 81 :: List.replicate 21 65⟩ (Or.inl rfl)
    (by decide +kernel)

end Mtproto

end Yunogram
