import Yunogram.Core.UpdateAuthorization
import Yunogram.Machinery.Run

/-!
# Core/UpdateChecker — the held manifest, and the unpacking of updates

`HeldManifest`, `AdoptManifest` and the verification in `UnpackUpdateV2` of `core/update_checker.cpp`,
over the file of `storage/localstorage.cpp`.  Updates are unpacked on threads of their own: an unpack
reads the held manifest when it starts and verifies later, and the adoption of its manifest is posted
to the main thread, where the adoptions run one by one.  So an adoption may run after others it did
not know of, and between the start of an unpack and its verification.

`rollback_protection`: the held manifest is only ever replaced by one of a greater version, and what
a held manifest revokes stays revoked for every unpack started from then on, up to a newer manifest
that the root signed.
-/

open Machinery

namespace Yunogram

open Core.Updates

namespace Local

/-- `kSignatureSize`. -/
def kSignatureSize : ℕ := 64

/-- `writeUpdateManifest`: what is in the file afterwards.  The signature comes first.  A write that
is not committed leaves the file as it was. -/
def writeUpdateManifest (updaterDisabled : Bool) (file : Option QByteArray)
    (manifest signature : QByteArray) (committed : Bool) : Option QByteArray :=
  if updaterDisabled ∨ signature.length ≠ 64 ∨ manifest.isEmpty then file
  else if committed then some (signature ++ manifest) else file

/-- `readUpdateManifest`: the manifest and its signature. -/
def readUpdateManifest (updaterDisabled : Bool) (file : Option QByteArray) :
    Option (QByteArray × QByteArray) :=
  if updaterDisabled then
    none
  else do
    let content ← file
    if content.length ≤ kSignatureSize ∨ kSignatureSize + kMaxManifestSize < content.length then
      none
    else
      some (content.drop kSignatureSize, content.take kSignatureSize)

end Local

namespace Core

variable {Key : Type}

/-! ## The held manifest -/

/-- What an updater is built with. -/
structure Updater (Key : Type) where
  backend : Backend Key
  rootPublicKeyPem : QByteArray
  embeddedManifest : QByteArray
  embeddedManifestSignature : QByteArray
  updaterDisabled : Bool
  buildUpdateChannel : Channel

namespace Updater

variable (u : Updater Key)

/-- `ParseVerifiedManifest` with the pinned root key. -/
def parseVerifiedManifest (manifest signature : QByteArray) : Option Manifest :=
  (u.backend.parseVerifiedManifest manifest signature u.rootPublicKeyPem).toOption

/-- `HeldManifest`: the persisted manifest where it is newer than the embedded one. -/
def heldManifest (file : Option QByteArray) : Option Manifest :=
  let result := u.parseVerifiedManifest u.embeddedManifest u.embeddedManifestSignature
  match Local.readUpdateManifest u.updaterDisabled file with
  | none => result
  | some (manifest, signature) =>
    match u.parseVerifiedManifest manifest signature with
    | none => result
    | some persisted =>
      if result.all fun result => result.version < persisted.version then some persisted else result

/-- `AdoptManifest`: what is in the file afterwards. -/
def adoptManifest (file : Option QByteArray) (manifest : Manifest) (committed : Bool) :
    Option QByteArray :=
  if (u.heldManifest file).all fun held => held.version < manifest.version then
    Local.writeUpdateManifest u.updaterDisabled file manifest.bytes manifest.signature committed
  else
    file

end Updater

/-! ## Updates that are unpacked -/

/-- `TargetFromPlatformKey`. -/
def Updates.targetFromPlatformKey (key : QByteArray) : Option Target :=
  if key = ascii "win" then some ⟨.windows, .x86⟩
  else if key = ascii "win64" then some ⟨.windows, .x64⟩
  else if key = ascii "winarm" then some ⟨.windows, .arm⟩
  else if key = ascii "mac" then some ⟨.mac, .x64⟩
  else if key = ascii "armac" then some ⟨.mac, .arm⟩
  else if key = ascii "linux" then some ⟨.linux, .x64⟩
  else none

/-- The file of the manifest, the unpacks that did not verify yet with their numbers, how many were
started, and the adoptions posted to the main thread. -/
structure UpdaterState where
  updateManifestFile : Option QByteArray
  unpacks : List (ℕ × UpdateRun) := []
  started : ℕ := 0
  posted : List Manifest := []

/-- What can happen. -/
inductive UpdaterStep
  /-- `UnpackUpdateV2` is called: it reads the arguments of `VerifyUpdate`. -/
  | unpackUpdateV2 (autoUpdateKey content : QByteArray) (betaSet : Bool) (runningVersion : ℕ)
      (now : ℤ)
  /-- `VerifyUpdate` returns in the unpack with this number. -/
  | verifyUpdate (number : ℕ)
  /-- The main thread runs the adoption posted at this place. -/
  | onMain (place : ℕ) (committed : Bool)
  /-- `parseCanaryMetadata` on the main thread, with the decoded manifest and signature. -/
  | parseCanaryMetadata (manifest manifestSig : QByteArray) (committed : Bool)

/-- An update that was verified, in the unpack with this number. -/
structure Unpacked where
  number : ℕ
  arguments : UpdateRun
  verified : VerifiedUpdate

namespace Updater

variable (u : Updater Key)

/-- One step; it emits the update that was verified. -/
def step (s : UpdaterState) : UpdaterStep → UpdaterState × List Unpacked
  | .unpackUpdateV2 autoUpdateKey content betaSet runningVersion now =>
    match targetFromPlatformKey autoUpdateKey with
    | none => (s, [])
    | some target =>
      let arguments : UpdateRun := {
        data := content
        buildChannel := u.buildUpdateChannel
        betaSet
        expectedTarget := target
        runningVersion
        held := u.heldManifest s.updateManifestFile
        now }
      ({ s with unpacks := s.unpacks ++ [(s.started, arguments)], started := s.started + 1 }, [])
  | .verifyUpdate number =>
    match s.unpacks.find? fun unpack => unpack.1 = number with
    | none => (s, [])
    | some (_, arguments) =>
      let unpacks := s.unpacks.filter fun unpack => unpack.1 ≠ number
      match arguments.verify u.backend u.rootPublicKeyPem with
      | .error _ => ({ s with unpacks }, [])
      | .ok verified =>
        let posted := if verified.adoptManifest then s.posted ++ [verified.manifest] else s.posted
        ({ s with unpacks, posted }, [⟨number, arguments, verified⟩])
  | .onMain place committed =>
    match s.posted[place]? with
    | none => (s, [])
    | some manifest =>
      let updateManifestFile := u.adoptManifest s.updateManifestFile manifest committed
      ({ s with updateManifestFile, posted := s.posted.eraseIdx place }, [])
  | .parseCanaryMetadata manifest manifestSig committed =>
    if manifest.isEmpty ∨ manifestSig.isEmpty then
      (s, [])
    else match u.parseVerifiedManifest manifest manifestSig with
      | none => (s, [])
      | some parsed =>
        let updateManifestFile := u.adoptManifest s.updateManifestFile parsed committed
        ({ s with updateManifestFile }, [])

/-! ## Manifests that the root signed -/

/-- A manifest as `ParseVerifiedManifest` gives it. -/
def Signed (manifest : Manifest) : Prop :=
  Verified u.backend u.rootPublicKeyPem manifest.bytes manifest.signature manifest

/-- The manifest held in a state. -/
def held (s : UpdaterState) : Option Manifest := u.heldManifest s.updateManifestFile

variable {u} {manifest : Manifest} {file : Option QByteArray}

theorem signed_of_verified {bytes signature : QByteArray}
    (h : Verified u.backend u.rootPublicKeyPem bytes signature manifest) : u.Signed manifest := by
  obtain ⟨-, hbytes, hsignature⟩ := parseManifest_fields h.2.2
  rwa [Signed, hbytes, hsignature]

theorem parseVerifiedManifest_eq_some {bytes signature : QByteArray} :
    u.parseVerifiedManifest bytes signature = some manifest ↔
      Verified u.backend u.rootPublicKeyPem bytes signature manifest := by
  rw [← parseVerifiedManifest_iff, parseVerifiedManifest]
  cases u.backend.parseVerifiedManifest bytes signature u.rootPublicKeyPem with
  | error text => exact ⟨nofun, nofun⟩
  | ok m => exact ⟨fun h => congrArg _ (Option.some.inj h), fun h => congrArg _ (Except.ok.inj h)⟩

theorem Signed.version_pos (h : u.Signed manifest) : 0 < manifest.version :=
  (parseManifest_fields h.2.2).1

theorem Signed.length_signature (h : u.Signed manifest) :
    manifest.signature.length = Local.kSignatureSize := by
  obtain ⟨root, -, hsigned⟩ := h.2.1
  rw [Backend.verifyEd25519] at hsigned
  split at hsigned
  · exact nomatch hsigned
  · next hlength => exact not_not.mp hlength

/-- What is held is signed. -/
theorem signed_heldManifest (h : u.heldManifest file = some manifest) : u.Signed manifest := by
  rw [heldManifest] at h
  split at h
  · exact signed_of_verified (parseVerifiedManifest_eq_some.mp h)
  · split at h
    · exact signed_of_verified (parseVerifiedManifest_eq_some.mp h)
    · next persisted hpersisted =>
      split at h
      · obtain rfl := Option.some.inj h
        exact signed_of_verified (parseVerifiedManifest_eq_some.mp hpersisted)
      · exact signed_of_verified (parseVerifiedManifest_eq_some.mp h)

/-! ## Adoption -/

/-- A manifest is newer than a held one, in the words of `heldVersion`. -/
theorem all_lt_iff {held : Option Manifest} (h : 0 < manifest.version) :
    (held.all fun held => decide (held.version < manifest.version)) = true ↔
      heldVersion held < manifest.version := by
  cases held with
  | none => exact ⟨fun _ => h, fun _ => rfl⟩
  | some held => exact decide_eq_true_iff

/-- The embedded manifest bounds what is held. -/
theorem embedded_le_held :
    heldVersion (u.parseVerifiedManifest u.embeddedManifest u.embeddedManifestSignature)
      ≤ heldVersion (u.heldManifest file) := by
  rw [heldManifest]
  split
  · exact le_rfl
  · split
    · exact le_rfl
    · next persisted hpersisted =>
      split
      · next hnewer =>
        have hpos := (signed_of_verified (parseVerifiedManifest_eq_some.mp hpersisted)).version_pos
        exact ((all_lt_iff hpos).mp hnewer).le
      · exact le_rfl

/-- **Reading back what was written.** -/
theorem readUpdateManifest_append (h : u.Signed manifest) :
    Local.readUpdateManifest false (some (manifest.signature ++ manifest.bytes))
      = some (manifest.bytes, manifest.signature) := by
  have hlength := h.length_signature
  obtain ⟨hpos, hle⟩ := h.1
  have hfits : ¬((manifest.signature ++ manifest.bytes).length ≤ Local.kSignatureSize ∨
      Local.kSignatureSize + kMaxManifestSize
        < (manifest.signature ++ manifest.bytes).length) := by
    rw [List.length_append]
    omega
  rw [Local.readUpdateManifest, if_neg Bool.false_ne_true]
  dsimp only [bind, Option.bind]
  rw [if_neg hfits, ← hlength, List.drop_left, List.take_left]

/-- **What an adoption does to the held manifest**: it stays, or the adopted one takes its place. -/
theorem heldManifest_adoptManifest (h : u.Signed manifest) (committed : Bool) :
    u.heldManifest (u.adoptManifest file manifest committed) = u.heldManifest file ∨
      heldVersion (u.heldManifest file) < manifest.version ∧
        u.heldManifest (u.adoptManifest file manifest committed) = some manifest := by
  rw [adoptManifest]
  split
  · next hnewer =>
    rw [all_lt_iff h.version_pos] at hnewer
    rw [Local.writeUpdateManifest]
    split
    · exact .inl rfl
    · next hwritten =>
      split
      · refine .inr ⟨hnewer, ?_⟩
        have henabled : u.updaterDisabled = false := by
          rw [← Bool.not_eq_true]
          exact fun hdisabled => hwritten (.inl hdisabled)
        have hembedded : heldVersion (u.parseVerifiedManifest u.embeddedManifest
            u.embeddedManifestSignature) < manifest.version := embedded_le_held.trans_lt hnewer
        rw [heldManifest, henabled, readUpdateManifest_append h]
        dsimp only
        rw [parseVerifiedManifest_eq_some.mpr h]
        dsimp only
        rw [if_pos ((all_lt_iff h.version_pos).mpr hembedded)]
      · exact .inl rfl
  · exact .inl rfl

theorem advances_adoptManifest (h : u.Signed manifest) (committed : Bool) :
    Advances heldVersion (u.heldManifest file)
      (u.heldManifest (u.adoptManifest file manifest committed)) := by
  rcases heldManifest_adoptManifest h committed with hsame | ⟨hnewer, hadopted⟩
  · rw [hsame]
    exact .refl _
  · rw [hadopted]
    exact .inr hnewer

/-! ## Unpacks -/

/-- The arguments of an unpack with this number were read in the state `s₀` or later. -/
def Since (u : Updater Key) (s₀ : UpdaterState) (number : ℕ) (arguments : UpdateRun) : Prop :=
  s₀.started ≤ number → Advances heldVersion (u.held s₀) arguments.held

/-- An update was verified with a signed manifest, the held one or a newer one. -/
structure VerifiedWith (u : Updater Key) (v : Unpacked) : Prop where
  signed : u.Signed v.verified.manifest
  advances : Advances heldVersion v.arguments.held (some v.verified.manifest)

/-- The newest manifest is signed, and advances the held one. -/
theorem newest_spec {held : Option Manifest} {carried : Manifest} (hcarried : u.Signed carried)
    (hheld : ∀ m, held = some m → u.Signed m) :
    u.Signed (newest held carried) ∧ Advances heldVersion held (some (newest held carried)) := by
  rw [newest]
  split
  · next hnewer => exact ⟨hcarried, .inr hnewer⟩
  · next hold =>
    cases held with
    | none => exact absurd hcarried.version_pos hold
    | some held => exact ⟨hheld held rfl, .refl _⟩

theorem verifiedWith {number : ℕ} {arguments : UpdateRun} {verified : VerifiedUpdate}
    (h : arguments.verify u.backend u.rootPublicKeyPem = .ok verified)
    (hheld : ∀ m, arguments.held = some m → u.Signed m) :
    u.VerifiedWith ⟨number, arguments, verified⟩ := by
  obtain ⟨e, carried, -, -, hcarried, -, -, -, rfl⟩ := verifyUpdate_iff.mp h
  obtain ⟨hsigned, hadvances⟩ := newest_spec (signed_of_verified hcarried) hheld
  exact ⟨hsigned, hadvances⟩

/-! ## Runs -/

/-- A run that started in `s₀` is in `s`, and verified the updates `t` on the way. -/
structure Follows (u : Updater Key) (s₀ s : UpdaterState) (t : List Unpacked) : Prop where
  held : Advances heldVersion (u.held s₀) (u.held s)
  started : s₀.started ≤ s.started
  numbers : ∀ unpack ∈ s.unpacks, unpack.1 < s.started
  posted : ∀ m ∈ s.posted, u.Signed m
  arguments : ∀ unpack ∈ s.unpacks, ∀ m, unpack.2.held = some m → u.Signed m
  since : ∀ unpack ∈ s.unpacks, u.Since s₀ unpack.1 unpack.2
  verified : ∀ v ∈ t, u.VerifiedWith v ∧ u.Since s₀ v.number v.arguments

variable {s₀ s : UpdaterState} {t : List Unpacked}

theorem follows_start (file : Option QByteArray) :
    u.Follows { updateManifestFile := file } { updateManifestFile := file } [] where
  held := .refl _
  started := le_rfl
  numbers := fun _ h => absurd h List.not_mem_nil
  posted := fun _ h => absurd h List.not_mem_nil
  arguments := fun _ h => absurd h List.not_mem_nil
  since := fun _ h => absurd h List.not_mem_nil
  verified := fun _ h => absurd h List.not_mem_nil

/-- Every state is a start: the unpacks of before have smaller numbers. -/
theorem Follows.restart (h : u.Follows s₀ s t) : u.Follows s s [] where
  held := .refl _
  started := le_rfl
  numbers := h.numbers
  posted := h.posted
  arguments := h.arguments
  since := fun unpack hmem hle => absurd (h.numbers unpack hmem) (not_lt.mpr hle)
  verified := fun _ h => absurd h List.not_mem_nil

/-- The main thread adopts a manifest. -/
theorem Follows.adopt {m : Manifest} (h : u.Follows s₀ s t) (hm : u.Signed m) (committed : Bool) :
    u.Follows s₀
      { s with updateManifestFile := u.adoptManifest s.updateManifestFile m committed } t :=
  { h with held := h.held.trans (advances_adoptManifest hm committed) }

/-- An unpack starts: it has the next number and the manifest held now. -/
theorem Follows.unpack (h : u.Follows s₀ s t) {arguments : UpdateRun}
    (hheld : arguments.held = u.held s) :
    u.Follows s₀
      { s with unpacks := s.unpacks ++ [(s.started, arguments)], started := s.started + 1 } t := by
  refine { h with
    started := h.started.trans (Nat.le_succ _), numbers := ?_, arguments := ?_, since := ?_ }
  all_goals
    intro unpack hmem
    rcases List.mem_append.mp hmem with hmem | hmem
  · exact (h.numbers unpack hmem).trans (Nat.lt_succ_self _)
  · obtain rfl := List.mem_singleton.mp hmem
    exact Nat.lt_succ_self _
  · exact h.arguments unpack hmem
  · obtain rfl := List.mem_singleton.mp hmem
    intro m hm
    exact signed_heldManifest (hheld.symm.trans hm)
  · exact h.since unpack hmem
  · obtain rfl := List.mem_singleton.mp hmem
    intro _
    rw [hheld]
    exact h.held

/-- Fewer unpacks are left. -/
theorem Follows.filter (h : u.Follows s₀ s t) (p : ℕ × UpdateRun → Bool) :
    u.Follows s₀ { s with unpacks := s.unpacks.filter p } t :=
  { h with
    numbers := fun unpack hmem => h.numbers unpack (List.mem_of_mem_filter hmem)
    arguments := fun unpack hmem => h.arguments unpack (List.mem_of_mem_filter hmem)
    since := fun unpack hmem => h.since unpack (List.mem_of_mem_filter hmem) }

/-- An unpack verifies its update, and may post an adoption. -/
theorem Follows.verify (h : u.Follows s₀ s t) {number : ℕ} {arguments : UpdateRun}
    {v : VerifiedUpdate} (hmem : (number, arguments) ∈ s.unpacks)
    (hv : arguments.verify u.backend u.rootPublicKeyPem = .ok v) (p : ℕ × UpdateRun → Bool) :
    u.Follows s₀
      { s with
        unpacks := s.unpacks.filter p
        posted := if v.adoptManifest then s.posted ++ [v.manifest] else s.posted }
      (t ++ [⟨number, arguments, v⟩]) := by
  have hwith : u.VerifiedWith ⟨number, arguments, v⟩ := verifiedWith hv (h.arguments _ hmem)
  refine { h.filter p with posted := ?_, verified := ?_ }
  · intro m hm
    split at hm
    · rcases List.mem_append.mp hm with hm | hm
      · exact h.posted m hm
      · obtain rfl := List.mem_singleton.mp hm
        exact hwith.signed
    · exact h.posted m hm
  · intro w hw
    rcases List.mem_append.mp hw with hw | hw
    · exact h.verified w hw
    · obtain rfl := List.mem_singleton.mp hw
      exact ⟨hwith, h.since _ hmem⟩

/-- **Every step keeps the invariant.** -/
theorem Follows.step (h : u.Follows s₀ s t) (x : UpdaterStep) :
    u.Follows s₀ (u.step s x).1 (t ++ (u.step s x).2) := by
  cases x with
  | unpackUpdateV2 autoUpdateKey content betaSet runningVersion now =>
    rw [Updater.step]
    split
    · rwa [List.append_nil]
    · rw [List.append_nil]
      exact h.unpack rfl
  | verifyUpdate number =>
    rw [Updater.step]
    split
    · rwa [List.append_nil]
    · next k arguments hfind =>
      have hmem := List.mem_of_find?_eq_some hfind
      have hk := List.find?_some hfind
      obtain rfl : k = number := of_decide_eq_true hk
      dsimp only
      split
      · rw [List.append_nil]
        exact h.filter _
      · next v hv => exact h.verify hmem hv _
  | onMain place committed =>
    rw [Updater.step]
    split
    · rwa [List.append_nil]
    · next m hm =>
      rw [List.append_nil]
      have hadopt := h.adopt (h.posted m (List.mem_of_getElem? hm)) committed
      exact { hadopt with posted := fun m' hm' => h.posted m' (List.mem_of_mem_eraseIdx hm') }
  | parseCanaryMetadata manifest manifestSig committed =>
    rw [Updater.step]
    split
    · rwa [List.append_nil]
    · split
      · rwa [List.append_nil]
      · next parsed hparsed =>
        rw [List.append_nil]
        exact h.adopt (signed_of_verified (parseVerifiedManifest_eq_some.mp hparsed)) committed

theorem Follows.run (h : u.Follows s₀ s []) (xs : List UpdaterStep) :
    u.Follows s₀ (Machinery.run u.step s xs).1 (Machinery.run u.step s xs).2 := by
  have hguarded : Guarded u.step (fun _ _ _ => True) s xs := fun _ _ _ _ => trivial
  exact run_induction (fun _ => u.Follows s₀) h (fun _ _ _ x h _ => h.step x) hguarded

/-! ## Rollback protection -/

/-- The key with this id counts in the authorization of the update. -/
def Authorizes (u : Updater Key) (v : Unpacked) (id : QByteArray) : Prop :=
  ∃ key, key.id = id ∧ Counts u.backend v.verified.manifest
    (signingInput u.backend.evpDigest v.verified.envelope) v.verified.envelope.signatures
    v.arguments.now key

/-- **Rollback protection.**  In every run the version of the held manifest never decreases.  A key
that a held manifest revokes authorizes an update unpacked from then on only with a newer manifest,
signed by the root, that no longer revokes it. -/
theorem rollback_protection (u : Updater Key) (file : Option QByteArray)
    (before after : List UpdaterStep) :
    let s := (Machinery.run u.step { updateManifestFile := file } before).1
    let s' := Machinery.run u.step s after
    heldVersion (u.held s) ≤ heldVersion (u.held s'.1) ∧
      ∀ m, u.held s = some m → ∀ id ∈ m.revoked, ∀ v ∈ s'.2, s.started ≤ v.number →
        u.Authorizes v id → u.Signed v.verified.manifest ∧
          m.version < v.verified.manifest.version ∧ id ∉ v.verified.manifest.revoked := by
  intro s s'
  have hbefore : u.Follows _ s _ := (follows_start file).run before
  have hafter : u.Follows s s'.1 s'.2 := hbefore.restart.run after
  refine ⟨hafter.held.rank_le, fun m hm id hid v hv hlater ⟨key, hkey, hcounts⟩ => ?_⟩
  obtain ⟨hwith, hsince⟩ := hafter.verified v hv
  have hunrevoked : id ∉ v.verified.manifest.revoked := hkey ▸ hcounts.unrevoked
  have hadvances := (hsince hlater).trans hwith.advances
  rw [hm] at hadvances
  rcases hadvances with hsame | hnewer
  · obtain rfl := Option.some.inj hsame
    exact absurd hid hunrevoked
  · exact ⟨hwith.signed, hnewer, hunrevoked⟩

/-! ## A sample -/

/-- A manifest that revokes the key `k`. -/
def revokingManifest : QByteArray := ascii
  ("\x7b\"format\":1,\"manifest_version\":1,\"keys\":[],\"channels\":\x7b\x7d,"
    ++ "\"revoked\":[\"k\"]\x7d")

/-- …as the JSON parser reads it. -/
def revokingJson : Json :=
  .object [(latin1 "channels", .object []), (latin1 "format", .double 1),
    (latin1 "keys", .array []), (latin1 "manifest_version", .double 1),
    (latin1 "revoked", .array [.string (latin1 "k")])]

/-- The signature of the root. -/
def revokingSignature : QByteArray :=
  [65, 94, 103, 255, 254, 37, 140, 192, 186, 30, 241, 254, 200, 147, 155, 103, 177, 248, 104, 165,
    63, 125, 80, 223, 27, 208, 223, 123, 174, 149, 94, 101, 3, 254, 102, 92, 113, 5, 69, 46, 60,
    67, 39, 142, 98, 45, 235, 184, 191, 139, 224, 47, 161, 50, 1, 159, 55, 25, 172, 123, 6, 89,
    22, 6]

/-- A beta build with the revoking manifest embedded. -/
def sampleUpdater : Updater SampleKey where
  backend := { sampleBackend with
    fromJson := fun bytes =>
      if bytes = revokingManifest then some revokingJson else sampleBackend.fromJson bytes
    digestVerify := fun key sha256 message signature =>
      match key with
      | .root => message = revokingManifest && signature = revokingSignature
        || sampleBackend.digestVerify .root sha256 message signature
      | .k => sampleBackend.digestVerify .k sha256 message signature }
  rootPublicKeyPem := samplePem
  embeddedManifest := revokingManifest
  embeddedManifestSignature := revokingSignature
  updaterDisabled := false
  buildUpdateChannel := .beta

/-- The sample package, whose newer manifest lists the key again, is unpacked, verified and its
manifest adopted. -/
def sampleSteps : List UpdaterStep :=
  [.unpackUpdateV2 (ascii "linux") (sampleEnvelope .beta (sampleSignatures 0)).encode false
      (5000000 * 2 ^ 32) 1700000001,
    .verifyUpdate 0, .onMain 0 true]

theorem authorizes_iff {v : Unpacked} {id : QByteArray} :
    u.Authorizes v id ↔ u.backend.satisfies v.verified.manifest
      (signingInput u.backend.evpDigest v.verified.envelope) v.verified.envelope.signatures
      v.arguments.now id = true := by
  rw [satisfies_iff]
  exact Iff.rfl

theorem rollback_protection_sample :
    let s : UpdaterState := { updateManifestFile := none }
    let s' := Machinery.run sampleUpdater.step s sampleSteps
    heldVersion (sampleUpdater.held s) ≤ heldVersion (sampleUpdater.held s'.1) ∧
      ∃ m v, sampleUpdater.held s = some m ∧ ascii "k" ∈ m.revoked ∧ v ∈ s'.2 ∧
        sampleUpdater.Authorizes v (ascii "k") ∧ m.version < v.verified.manifest.version := by
  intro s s'
  obtain ⟨hle, hlater⟩ := rollback_protection sampleUpdater none [] sampleSteps
  refine ⟨hle, ?_⟩
  have hrevoked : (sampleUpdater.held s).map Manifest.revoked = some [ascii "k"] := by
    decide +kernel
  have hsatisfied : s'.2.map (fun v => sampleUpdater.backend.satisfies v.verified.manifest
      (signingInput sampleUpdater.backend.evpDigest v.verified.envelope)
      v.verified.envelope.signatures v.arguments.now (ascii "k")) = [true] := by
    decide +kernel
  obtain ⟨m, hm, hrevoked⟩ := Option.map_eq_some_iff.mp hrevoked
  have hid : ascii "k" ∈ m.revoked := by
    rw [hrevoked]
    exact List.mem_singleton_self _
  obtain ⟨v, hv, hauthorizes⟩ := List.mem_map.mp (hsatisfied ▸ List.mem_singleton_self true)
  have hauthorizes := authorizes_iff.mpr hauthorizes
  exact ⟨m, v, hm, hid, hv, hauthorizes,
    (hlater m hm _ hid v hv (Nat.zero_le _) hauthorizes).2.1⟩

end Updater

end Core

end Yunogram
