import Yunogram.Core.EnvelopeGrammar
import Yunogram.Core.UpdateVerify

/-!
# Core/UpdateAuthorization — when an update is accepted

The rule behind `VerifyChannelAuthorization`, stated with quantifiers: in every group of the channel
some listed key counts, that is, it is not revoked, not expired and signed.  `verifyUpdate_iff` puts the
checks of `VerifyUpdate` together.  The rule is monotone (`Authorized.mono`): a manifest with more
revocations or fewer keys, a later time or fewer signatures authorize less.
-/

open Machinery

namespace Yunogram

namespace Core

namespace Updates

variable {Key : Type} (backend : Backend Key)

/-! ## The rule -/

/-- A signature over the signing input is valid. -/
def ValidSignature (key : ManifestKey) (input signature : QByteArray) : Prop :=
  backend.verifySignature key input signature = .ok ()

/-- A key that counts: listed, not revoked, not expired, with a valid signature. -/
structure Counts (manifest : Manifest) (input : QByteArray) (signatures : List EnvelopeSignature)
    (now : ℤ) (key : ManifestKey) : Prop where
  listed : key ∈ manifest.keys.list
  unrevoked : key.id ∉ manifest.revoked
  unexpired : key.expires ≤ 0 ∨ now < key.expires
  signed : ∃ s ∈ signatures, s.keyId = key.id ∧ ValidSignature backend key input s.bytes

/-- **The AND-of-ORs rule**: the channel has groups, and in each of them some key counts. -/
def Authorized (manifest : Manifest) (channel : Channel) (input : QByteArray)
    (signatures : List EnvelopeSignature) (now : ℤ) : Prop :=
  ∃ groups, manifest.channels.find (channelName channel) = some groups ∧ groups ≠ [] ∧
    ∀ group ∈ groups, ∃ key, key.id ∈ group ∧ Counts backend manifest input signatures now key

variable {backend} {manifest : Manifest} {input : QByteArray} {signatures : List EnvelopeSignature}
  {now : ℤ}

/-- `findKey` finds the one key of an id. -/
theorem Manifest.findKey_eq_some {id : QByteArray} {key : ManifestKey} :
    manifest.findKey id = some key ↔ key ∈ manifest.keys.list ∧ key.id = id := by
  rw [Manifest.findKey]
  constructor
  · intro h
    have hid := List.find?_some h
    exact ⟨List.mem_of_find?_eq_some h, of_decide_eq_true hid⟩
  · rintro ⟨hmem, rfl⟩
    have hsome : (manifest.keys.list.find? fun key' => key'.id = key.id).isSome :=
      List.find?_isSome.mpr ⟨key, hmem, by simp⟩
    obtain ⟨key', hkey'⟩ := Option.isSome_iff_exists.mp hsome
    have hid := List.find?_some hkey'
    rw [decide_eq_true_iff] at hid
    rw [hkey', List.inj_on_of_nodup_map manifest.keys.nodup (List.mem_of_find?_eq_some hkey') hmem hid]

theorem verifySignature_isOk {key : ManifestKey} {signature : QByteArray} :
    (backend.verifySignature key input signature).isOk = true ↔
      ValidSignature backend key input signature := by
  rw [ValidSignature]
  cases backend.verifySignature key input signature with
  | error text => exact ⟨nofun, nofun⟩
  | ok u => exact ⟨fun _ => rfl, fun _ => rfl⟩

theorem satisfies_iff {id : QByteArray} :
    backend.satisfies manifest input signatures now id = true ↔
      ∃ key, key.id = id ∧ Counts backend manifest input signatures now key := by
  rw [Backend.satisfies]
  constructor
  · intro h
    split at h
    · exact nomatch h
    · next hrevoked =>
      cases hkey : manifest.findKey id with
      | none =>
        rw [hkey] at h
        exact nomatch h
      | some key =>
        rw [hkey] at h
        obtain ⟨hmem, rfl⟩ := Manifest.findKey_eq_some.mp hkey
        dsimp only at h
        split at h
        · exact nomatch h
        · next hexpired =>
          obtain ⟨s, hs, hvalid⟩ := List.any_eq_true.mp h
          rw [Bool.and_eq_true, decide_eq_true_iff, verifySignature_isOk] at hvalid
          refine ⟨key, rfl, hmem, fun hr => hrevoked ?_, by omega, s, hs, hvalid⟩
          exact List.any_eq_true.mpr ⟨key.id, hr, decide_eq_true rfl⟩
  · rintro ⟨key, rfl, hlisted, hunrevoked, hunexpired, s, hs, hid, hvalid⟩
    have hrevoked : ¬(manifest.revoked.any fun entry => decide (entry = key.id)) = true := by
      intro h
      obtain ⟨entry, hmem, he⟩ := List.any_eq_true.mp h
      rw [of_decide_eq_true he] at hmem
      exact hunrevoked hmem
    rw [if_neg hrevoked, Manifest.findKey_eq_some.mpr ⟨hlisted, rfl⟩]
    dsimp only
    rw [if_neg (by omega)]
    refine List.any_eq_true.mpr ⟨s, hs, ?_⟩
    rw [Bool.and_eq_true, decide_eq_true_iff, verifySignature_isOk]
    exact ⟨hid, hvalid⟩

/-- **`VerifyChannelAuthorization` decides the rule.** -/
theorem verifyChannelAuthorization_iff {channel : Channel} :
    backend.verifyChannelAuthorization manifest channel input signatures now = .ok () ↔
      Authorized backend manifest channel input signatures now := by
  rw [Backend.verifyChannelAuthorization, Authorized]
  cases manifest.channels.find (channelName channel) with
  | none => exact ⟨nofun, fun ⟨_, h, _⟩ => nomatch h⟩
  | some groups =>
    dsimp only
    by_cases hnil : groups = []
    · rw [if_pos (List.isEmpty_iff.mpr hnil)]
      refine ⟨nofun, ?_⟩
      rintro ⟨groups', h, hne, -⟩
      obtain rfl := Option.some.inj h
      exact absurd hnil hne
    · rw [if_neg (fun h => hnil (List.isEmpty_iff.mp h))]
      have hall : (groups.all fun group =>
          group.any (backend.satisfies manifest input signatures now)) = true ↔
          ∀ group ∈ groups, ∃ key, key.id ∈ group ∧
            Counts backend manifest input signatures now key := by
        rw [List.all_eq_true]
        refine forall₂_congr fun group _ => ?_
        rw [List.any_eq_true]
        constructor
        · rintro ⟨id, hid, hs⟩
          obtain ⟨key, rfl, hcounts⟩ := satisfies_iff.mp hs
          exact ⟨key, hid, hcounts⟩
        · rintro ⟨key, hid, hcounts⟩
          exact ⟨key.id, hid, satisfies_iff.mpr ⟨key, rfl, hcounts⟩⟩
      constructor
      · intro h
        split at h
        · next hok => exact ⟨groups, rfl, hnil, hall.mp hok⟩
        · exact nomatch h
      · rintro ⟨groups', h, -, hgroups⟩
        obtain rfl := Option.some.inj h
        rw [if_pos (hall.mpr hgroups)]

/-! ## The manifest -/

variable (backend) in
/-- The root signed the bytes. -/
def RootSigned (rootPublicKeyPem bytes signature : QByteArray) : Prop :=
  ∃ root, backend.loadEd25519Pem rootPublicKeyPem = some root ∧
    backend.verifyEd25519 root bytes signature = true

variable (backend) in
/-- A manifest that the root signed and that is well formed. -/
def Verified (rootPublicKeyPem bytes signature : QByteArray) (manifest : Manifest) : Prop :=
  Sized kMaxManifestSize bytes ∧ RootSigned backend rootPublicKeyPem bytes signature ∧
    backend.parseManifest bytes signature = .ok manifest

theorem orError_eq_ok {α : Type} {value : Option α} {text : String} {a : α} :
    orError value text = .ok a ↔ value = some a := by
  cases value with
  | none => exact ⟨nofun, nofun⟩
  | some b => exact ⟨fun h => congrArg some (Except.ok.inj h), fun h => congrArg _ (Option.some.inj h)⟩

theorem parseVerifiedManifest_iff {pem bytes signature : QByteArray} :
    backend.parseVerifiedManifest bytes signature pem = .ok manifest ↔
      Verified backend pem bytes signature manifest := by
  rw [Backend.parseVerifiedManifest, Verified, Sized]
  by_cases hsize : bytes.isEmpty = true ∨ kMaxManifestSize < bytes.length
  · rw [if_pos hsize]
    refine ⟨nofun, fun ⟨⟨hpos, hle⟩, _⟩ => ?_⟩
    rw [List.isEmpty_iff, ← List.length_eq_zero_iff] at hsize
    omega
  · rw [if_neg hsize]
    have hsized : 0 < bytes.length ∧ bytes.length ≤ kMaxManifestSize := by
      rw [List.isEmpty_iff, ← List.length_eq_zero_iff] at hsize
      omega
    constructor
    · intro h
      obtain ⟨root, hroot, h⟩ := bind_ok h
      rw [orError_eq_ok] at hroot
      dsimp only at h
      split at h
      · exact nomatch h
      · next hsigned =>
        rw [Bool.not_eq_true', Bool.not_eq_false] at hsigned
        exact ⟨hsized, ⟨root, hroot, hsigned⟩, h⟩
    · rintro ⟨-, ⟨root, hroot, hsigned⟩, h⟩
      rw [orError_eq_ok.mpr hroot, ok_bind, hsigned]
      exact h

/-- What a well-formed manifest says about its bytes. -/
theorem parseManifest_fields {bytes signature : QByteArray}
    (h : backend.parseManifest bytes signature = .ok manifest) :
    0 < manifest.version ∧ manifest.bytes = bytes ∧ manifest.signature = signature := by
  rw [Backend.parseManifest] at h
  obtain ⟨document, -, h⟩ := bind_ok h
  split at h
  · next object =>
    split at h
    · next format =>
      split at h
      · exact nomatch h
      · obtain ⟨version, -, h⟩ := bind_ok h
        dsimp only at h
        split at h
        · exact nomatch h
        · next hversion =>
          obtain ⟨keys, -, h⟩ := bind_ok h
          obtain ⟨channels, -, h⟩ := bind_ok h
          obtain ⟨revoked, -, h⟩ := bind_ok h
          obtain rfl := Except.ok.inj h
          exact ⟨by dsimp only; omega, rfl, rfl⟩
    · exact nomatch h
  · exact nomatch h

/-! ## `VerifyUpdate` -/

/-- The version of the held manifest, zero without one. -/
def heldVersion (held : Option Manifest) : ℕ := (held.map Manifest.version).getD 0

/-- The manifest with the greater version among the held one and the carried one. -/
def newest (held : Option Manifest) (carried : Manifest) : Manifest :=
  if heldVersion held < carried.version then carried else held.getD carried

theorem newest_none (carried : Manifest) : newest none carried = carried := by
  rw [newest, Option.getD_none]
  split <;> rfl

theorem reported_eq_ok {α : Type} {x : Except String α} {a : α} :
    reported x = .ok a ↔ x = .ok a := by
  cases x with
  | error text => exact ⟨nofun, nofun⟩
  | ok b => exact ⟨fun h => congrArg _ (Except.ok.inj h), fun h => congrArg _ (Except.ok.inj h)⟩

/-- Something is held where the carried manifest is not newer. -/
theorem selectManifest_eq {held : Option Manifest} {carried : Manifest}
    (h : 0 < carried.version) : selectManifest held carried
      = .ok (newest held carried, decide (heldVersion held < carried.version)) := by
  have hselect : selectManifest held carried = if heldVersion held < carried.version then
      .ok (carried, true)
      else held.elim (.error (.fault .assertion)) fun held => .ok (held, false) := by
    unfold selectManifest
    cases held <;> rfl
  rw [hselect, newest]
  split
  · next hnew => rw [decide_eq_true hnew]
  · next hold =>
    rw [decide_eq_false hold]
    cases held with
    | none => exact absurd h hold
    | some held => rfl

variable {data pem : QByteArray} {build : Channel} {betaSet : Bool} {target : Target} {running : ℕ}
  {held : Option Manifest}

/-- What `VerifyUpdate` does with an envelope for this platform and a verified manifest. -/
theorem verifyUpdate_of_verified {e : Envelope} {carried : Manifest}
    (he : parseEnvelope data = .ok e) (htarget : e.target = target)
    (hcarried : Verified backend pem e.manifest e.manifestSignature carried) :
    backend.verifyUpdate data build betaSet target running held pem now =
      if channelPolicyAllows build betaSet e.channel e.version running = true then
        reported (backend.verifyChannelAuthorization (newest held carried) e.channel
          (signingInput backend.evpDigest e) e.signatures now) >>= fun _ =>
        if e.version ≤ running then .error (.error "Package version is not newer.")
        else .ok ⟨e, newest held carried, decide (heldVersion held < carried.version)⟩
      else .error (.error "Package channel is not allowed for this build.") := by
  rw [Backend.verifyUpdate, he, ok_bind, if_neg (not_not.mpr htarget),
    reported_eq_ok.mpr (parseVerifiedManifest_iff.mpr hcarried), ok_bind,
    selectManifest_eq (parseManifest_fields hcarried.2.2).1, ok_bind]
  dsimp only
  cases channelPolicyAllows build betaSet e.channel e.version running <;> rfl

/-- **When `VerifyUpdate` succeeds, and with what.** -/
theorem verifyUpdate_iff {r : VerifiedUpdate} :
    backend.verifyUpdate data build betaSet target running held pem now = .ok r ↔
      ∃ e carried, parseEnvelope data = .ok e ∧ e.target = target ∧
        Verified backend pem e.manifest e.manifestSignature carried ∧
        channelPolicyAllows build betaSet e.channel e.version running = true ∧
        Authorized backend (newest held carried) e.channel (signingInput backend.evpDigest e)
          e.signatures now ∧
        running < e.version ∧
        r = ⟨e, newest held carried, decide (heldVersion held < carried.version)⟩ := by
  constructor
  · intro h
    have h' := h
    rw [Backend.verifyUpdate] at h
    obtain ⟨e, he, h⟩ := bind_ok h
    dsimp only at h
    split at h
    · exact nomatch h
    · next htarget =>
      obtain ⟨carried, hcarried, -⟩ := bind_ok h
      rw [reported_eq_ok, parseVerifiedManifest_iff] at hcarried
      rw [not_not] at htarget
      rw [verifyUpdate_of_verified he htarget hcarried] at h'
      split at h'
      · next hpolicy =>
        obtain ⟨u, hauth, h'⟩ := bind_ok h'
        rw [reported_eq_ok, verifyChannelAuthorization_iff] at hauth
        split at h'
        · exact nomatch h'
        · next hversion =>
          exact ⟨e, carried, he, htarget, hcarried, hpolicy, hauth, not_le.mp hversion,
            (Except.ok.inj h').symm⟩
      · exact nomatch h'
  · rintro ⟨e, carried, he, htarget, hcarried, hpolicy, hauth, hversion, rfl⟩
    rw [verifyUpdate_of_verified he htarget hcarried, if_pos hpolicy,
      reported_eq_ok.mpr (verifyChannelAuthorization_iff.mpr hauth), ok_bind,
      if_neg (not_le.mpr hversion)]

/-- What is not accepted is reported. -/
theorem verifyUpdate_no_fault (fault : Fault) :
    backend.verifyUpdate data build betaSet target running held pem now ≠ .error (.fault fault) := by
  cases he : parseEnvelope data with
  | error stop =>
    rw [Backend.verifyUpdate, he]
    rintro h
    obtain rfl := Except.error.inj h
    exact (parseEnvelope_iff data).1 fault he
  | ok e =>
    by_cases htarget : e.target = target
    · cases hcarried : backend.parseVerifiedManifest e.manifest e.manifestSignature pem with
      | error text =>
        rw [Backend.verifyUpdate, he, ok_bind, if_neg (not_not.mpr htarget), hcarried]
        exact fun h => nomatch Except.error.inj h
      | ok carried =>
        rw [verifyUpdate_of_verified he htarget (parseVerifiedManifest_iff.mp hcarried)]
        split
        · cases backend.verifyChannelAuthorization (newest held carried) e.channel
            (signingInput backend.evpDigest e) e.signatures now with
          | error text => exact fun h => nomatch Except.error.inj h
          | ok u =>
            show (if _ then _ else _) ≠ _
            split
            · exact fun h => nomatch Except.error.inj h
            · exact nofun
        · exact fun h => nomatch Except.error.inj h
    · rw [Backend.verifyUpdate, he, ok_bind, if_pos htarget]
      exact fun h => nomatch Except.error.inj h

/-! ## Runs compared -/

/-- `stricter` says what `manifest` says, but for more revocations and fewer keys. -/
structure Stricter (manifest stricter : Manifest) : Prop where
  version : stricter.version = manifest.version
  channels : stricter.channels = manifest.channels
  revoked : manifest.revoked ⊆ stricter.revoked
  keys : stricter.keys.list ⊆ manifest.keys.list

/-- …for what is held, if anything. -/
def HeldStricter : Option Manifest → Option Manifest → Prop
  | none, none => True
  | some manifest, some stricter => Stricter manifest stricter
  | _, _ => False

theorem Stricter.refl (manifest : Manifest) : Stricter manifest manifest :=
  ⟨rfl, rfl, List.Subset.refl _, List.Subset.refl _⟩

theorem HeldStricter.refl (held : Option Manifest) : HeldStricter held held := by
  cases held with
  | none => trivial
  | some manifest => exact Stricter.refl manifest

theorem HeldStricter.heldVersion_eq {held held' : Option Manifest} (h : HeldStricter held held') :
    heldVersion held' = heldVersion held := by
  match held, held', h with
  | none, none, _ => rfl
  | some _, some _, h => exact h.version

theorem Stricter.newest {held held' : Option Manifest} {carried carried' : Manifest}
    (hheld : HeldStricter held held') (h : Stricter carried carried') :
    Stricter (newest held carried) (newest held' carried') := by
  rw [Updates.newest, Updates.newest, hheld.heldVersion_eq, h.version]
  split
  · exact h
  · match held, held', hheld with
    | none, none, _ => exact h
    | some _, some _, hheld => exact hheld

/-- **A stricter manifest, a later time and fewer valid signatures authorize less.** -/
theorem Authorized.mono {stricter : Manifest} {channel : Channel} {input' : QByteArray}
    {signatures' : List EnvelopeSignature} {now' : ℤ} (hm : Stricter manifest stricter)
    (hnow : now ≤ now')
    (hsigned : ∀ key, ∀ s' ∈ signatures', ValidSignature backend key input' s'.bytes →
      ∃ s ∈ signatures, s.keyId = s'.keyId ∧ ValidSignature backend key input s.bytes)
    (h : Authorized backend stricter channel input' signatures' now') :
    Authorized backend manifest channel input signatures now := by
  obtain ⟨groups, hgroups, hne, hall⟩ := h
  refine ⟨groups, hm.channels ▸ hgroups, hne, fun group hgroup => ?_⟩
  obtain ⟨key, hid, hcounts⟩ := hall group hgroup
  obtain ⟨s', hs', hkey, hvalid⟩ := hcounts.signed
  obtain ⟨s, hs, hsame, hvalid'⟩ := hsigned key s' hs' hvalid
  exact ⟨key, hid, hm.keys hcounts.listed, fun hr => hcounts.unrevoked (hm.revoked hr),
    hcounts.unexpired.imp id fun hexpires => lt_of_le_of_lt hnow hexpires,
    s, hs, hsame.trans hkey, hvalid'⟩

/-- The arguments of `VerifyUpdate`. -/
structure UpdateRun where
  data : QByteArray
  buildChannel : Channel
  betaSet : Bool
  expectedTarget : Target
  runningVersion : ℕ
  held : Option Manifest
  now : ℤ

/-- `VerifyUpdate` with its arguments. -/
def UpdateRun.verify (run : UpdateRun) (backend : Backend Key) (pem : QByteArray) :
    Except Stop VerifiedUpdate :=
  backend.verifyUpdate run.data run.buildChannel run.betaSet run.expectedTarget run.runningVersion
    run.held pem run.now

/-- The update is accepted. -/
def UpdateRun.Accepted (run : UpdateRun) (backend : Backend Key) (pem : QByteArray) : Prop :=
  ∃ r, run.verify backend pem = .ok r

/-- What the rules ask of a run. -/
def UpdateRun.Rules (run : UpdateRun) (backend : Backend Key) (pem : QByteArray) : Prop :=
  ∃ e carried, parseEnvelope run.data = .ok e ∧ e.target = run.expectedTarget ∧
    Verified backend pem e.manifest e.manifestSignature carried ∧
    channelPolicyAllows run.buildChannel run.betaSet e.channel e.version run.runningVersion = true ∧
    run.runningVersion < e.version ∧
    Authorized backend (newest run.held carried) e.channel (signingInput backend.evpDigest e)
      e.signatures run.now

theorem UpdateRun.accepted_iff {run : UpdateRun} :
    run.Accepted backend pem ↔ run.Rules backend pem := by
  constructor
  · rintro ⟨r, hr⟩
    obtain ⟨e, carried, he, htarget, hcarried, hpolicy, hauth, hversion, -⟩ :=
      verifyUpdate_iff.mp hr
    exact ⟨e, carried, he, htarget, hcarried, hpolicy, hversion, hauth⟩
  · rintro ⟨e, carried, he, htarget, hcarried, hpolicy, hversion, hauth⟩
    exact ⟨_, verifyUpdate_iff.mpr
      ⟨e, carried, he, htarget, hcarried, hpolicy, hauth, hversion, rfl⟩⟩

/-- Two runs with one build, and envelopes of one channel, target and version; the manifests of the
second are stricter, its time is later, and its valid signatures are valid in the first. -/
structure StricterRun (backend : Backend Key) (pem : QByteArray) (run strict : UpdateRun)
    (e e' : Envelope) (carried carried' : Manifest) : Prop where
  build : strict.buildChannel = run.buildChannel ∧ strict.betaSet = run.betaSet ∧
    strict.expectedTarget = run.expectedTarget ∧ strict.runningVersion = run.runningVersion
  envelope : parseEnvelope run.data = .ok e
  envelope' : parseEnvelope strict.data = .ok e'
  metadata : e'.channel = e.channel ∧ e'.target = e.target ∧ e'.version = e.version
  verified : Verified backend pem e.manifest e.manifestSignature carried
  verified' : Verified backend pem e'.manifest e'.manifestSignature carried'
  carried : Stricter carried carried'
  held : HeldStricter run.held strict.held
  now : run.now ≤ strict.now
  signed : ∀ key, ∀ s' ∈ e'.signatures,
    ValidSignature backend key (signingInput backend.evpDigest e') s'.bytes →
    ∃ s ∈ e.signatures, s.keyId = s'.keyId ∧
      ValidSignature backend key (signingInput backend.evpDigest e) s.bytes

theorem Verified.unique {bytes signature : QByteArray} {m m' : Manifest}
    (h : Verified backend pem bytes signature m) (h' : Verified backend pem bytes signature m') :
    m = m' := Except.ok.inj (h.2.2.symm.trans h'.2.2)

/-- **The stricter run accepts less.** -/
theorem StricterRun.accepted {run strict : UpdateRun} {e e' : Envelope}
    {carried carried' : Manifest} (h : StricterRun backend pem run strict e e' carried carried')
    (haccepted : strict.Accepted backend pem) : run.Accepted backend pem := by
  obtain ⟨f, m, hf, htarget, hm, hpolicy, hversion, hauth⟩ := UpdateRun.accepted_iff.mp haccepted
  obtain rfl := Except.ok.inj (h.envelope'.symm.trans hf)
  obtain rfl := h.verified'.unique hm
  obtain ⟨hbuild, hbeta, hexpected, hrunning⟩ := h.build
  obtain ⟨hchannel, htarget', hversion'⟩ := h.metadata
  rw [hexpected] at htarget
  rw [hchannel, hversion', hbuild, hbeta, hrunning] at hpolicy
  rw [hversion', hrunning] at hversion
  rw [hchannel] at hauth
  exact UpdateRun.accepted_iff.mpr ⟨e, carried, h.envelope, htarget' ▸ htarget, h.verified, hpolicy,
    hversion, hauth.mono (h.carried.newest h.held) h.now h.signed⟩

/-- **The rules of updates.**  `VerifyUpdate` accepts exactly what the rules ask for, and reports
everything else.  A run with stricter manifests at a later time accepts less; and a package with more
signatures, which is still an envelope, is accepted where the one with fewer is. -/
theorem update_rules (backend : Backend Key) (pem : QByteArray) :
    (∀ run : UpdateRun, (∀ fault, run.verify backend pem ≠ .error (.fault fault)) ∧
      (run.Accepted backend pem ↔ run.Rules backend pem)) ∧
    (∀ run strict e e' carried carried',
      StricterRun backend pem run strict e e' carried carried' →
      strict.Accepted backend pem → run.Accepted backend pem) ∧
    ∀ (run : UpdateRun) (data : QByteArray) (e : Envelope) (signatures : List EnvelopeSignature),
      parseEnvelope run.data = .ok e → parseEnvelope data = .ok { e with signatures } →
      e.signatures ⊆ signatures → run.Accepted backend pem →
      UpdateRun.Accepted { run with data } backend pem := by
  refine ⟨fun run => ⟨fun fault => verifyUpdate_no_fault fault, UpdateRun.accepted_iff⟩,
    fun run strict e e' carried carried' h => h.accepted,
    fun run data e signatures he he' hsub haccepted => ?_⟩
  obtain ⟨f, carried, hf, -, hcarried, -⟩ := UpdateRun.accepted_iff.mp haccepted
  obtain rfl := Except.ok.inj (he.symm.trans hf)
  have h : StricterRun backend pem { run with data } run { e with signatures } e carried carried :=
    ⟨⟨rfl, rfl, rfl, rfl⟩, he', he, ⟨rfl, rfl, rfl⟩, hcarried, hcarried, .refl carried,
      .refl run.held, le_rfl, fun key s hs hvalid => ⟨s, hsub hs, rfl, hvalid⟩⟩
  exact h.accepted haccepted

/-! ## A sample -/

/-- The keys of the sample. -/
inductive SampleKey
  | root
  | k

/-- The public key of the root. -/
def samplePem : QByteArray := ascii
  ("-----BEGIN PUBLIC KEY-----\n"
    ++ "MCowBQYDK2VwAyEAhDxUj+21AGO45e+ne4lZXlsP+FgUaST8KlbCfM59qcM=\n"
    ++ "-----END PUBLIC KEY-----\n")

/-- A manifest with the key `k` in the one group of the channel `beta`. -/
def sampleManifest : QByteArray := ascii
  ("\x7b\"format\":1,\"manifest_version\":2,\"keys\":[\x7b\"id\":\"k\",\"alg\":\"Ed25519\","
    ++ "\"x\":\"DB9fRxlicb1ATwEEzIKIe7P1mjOJjjLnWPbUYfBuC8M\"\x7d"
    ++ "],\"channels\":\x7b\"beta\":[[\"k\"]]\x7d,\"revoked\":[]\x7d")

/-- …as the JSON parser reads it. -/
def sampleJson : Json :=
  .object [(latin1 "channels", .object [(latin1 "beta", .array [.array [.string (latin1 "k")]])]),
    (latin1 "format", .double 1),
    (latin1 "keys", .array [.object [(latin1 "alg", .string (latin1 "Ed25519")),
      (latin1 "id", .string (latin1 "k")),
      (latin1 "x", .string (latin1 "DB9fRxlicb1ATwEEzIKIe7P1mjOJjjLnWPbUYfBuC8M"))]]),
    (latin1 "manifest_version", .double 2), (latin1 "revoked", .array [])]

/-- The signature of the root. -/
def sampleRootSignature : QByteArray :=
  [63, 239, 126, 209, 199, 49, 183, 67, 183, 204, 135, 6, 169, 86, 234, 159, 109, 241, 73, 203,
    10, 229, 60, 133, 238, 173, 108, 37, 39, 145, 173, 117, 47, 1, 96, 76, 184, 199, 208, 20,
    126, 140, 142, 16, 55, 35, 85, 195, 210, 226, 33, 130, 196, 118, 166, 166, 120, 232, 11, 66,
    150, 152, 169, 12]

/-- The public key `k`. -/
def sampleX : QByteArray :=
  [12, 31, 95, 71, 25, 98, 113, 189, 64, 79, 1, 4, 204, 130, 136, 123, 179, 245, 154, 51, 137,
    142, 50, 231, 88, 246, 212, 97, 240, 110, 11, 195]

/-- A package of the sample. -/
def sampleEnvelope (channel : Channel) (signatures : List EnvelopeSignature) : Envelope :=
  let envelope : Envelope := {
    channel
    target := ⟨.linux, .x64⟩
    version := 5000001 * 2 ^ 32
    created := 1700000000
    manifest := sampleManifest
    manifestSignature := sampleRootSignature
    signatures
    payload := [7]
    signedRegion := [] }
  { envelope with signedRegion := envelope.header }

/-- The signature of the key `k` over the package for the channel `beta`. -/
def sampleSignature : QByteArray :=
  [224, 241, 242, 184, 27, 58, 150, 249, 178, 68, 233, 84, 186, 99, 175, 1, 117, 30, 116, 89,
    154, 40, 80, 66, 74, 242, 21, 138, 182, 190, 171, 33, 18, 38, 245, 230, 70, 96, 14, 50, 180,
    138, 217, 22, 153, 182, 168, 212, 106, 236, 250, 15, 191, 161, 15, 60, 79, 129, 157, 204,
    246, 74, 89, 10]

/-- What the library does on the sample. -/
def sampleBackend : Backend SampleKey where
  fromJson bytes := if bytes = sampleManifest then some sampleJson else none
  fromBase64Url text :=
    if text = ascii "DB9fRxlicb1ATwEEzIKIe7P1mjOJjjLnWPbUYfBuC8M" then some sampleX else none
  readPubkey pem := if pem = samplePem then some .root else none
  isEd25519 _ := true
  newRawEd25519 x := if x = sampleX then some .k else none
  d2iPubkey _ := none
  i2dEcdsaSig _ _ := none
  digestVerify
    | .root, _, message, signature => message = sampleManifest && signature = sampleRootSignature
    | .k, _, message, signature =>
      message = signingInput digestOfSeven (sampleEnvelope .beta []) && signature = sampleSignature
  evpDigest := digestOfSeven

/-- A package of the sample, offered to an older beta build that holds no manifest. -/
def sampleRun (channel : Channel) (signatures : List EnvelopeSignature) : UpdateRun where
  data := (sampleEnvelope channel signatures).encode
  buildChannel := .beta
  betaSet := false
  expectedTarget := ⟨.linux, .x64⟩
  runningVersion := 5000000 * 2 ^ 32
  held := none
  now := 1700000001

/-- The rules without asking that the channel is listed. -/
def UpdateRun.UnlistedRules (run : UpdateRun) (backend : Backend Key) (pem : QByteArray) : Prop :=
  ∃ e carried, parseEnvelope run.data = .ok e ∧ e.target = run.expectedTarget ∧
    Verified backend pem e.manifest e.manifestSignature carried ∧
    channelPolicyAllows run.buildChannel run.betaSet e.channel e.version run.runningVersion = true ∧
    run.runningVersion < e.version ∧
    ∀ groups, (newest run.held carried).channels.find (channelName e.channel) = some groups →
      ∀ group ∈ groups, ∃ key, key.id ∈ group ∧ Counts backend (newest run.held carried)
        (signingInput backend.evpDigest e) e.signatures run.now key

theorem sized_sampleManifest : Sized kMaxManifestSize sampleManifest := by decide +kernel

theorem sized_sampleRootSignature : Sized kMaxManifestSignatureSize sampleRootSignature := by
  decide +kernel

theorem sampleEnvelope_limits (channel : Channel) (signatures : List EnvelopeSignature)
    (hcount : signatures.length ≤ kMaxSignatures)
    (hsized : ∀ s ∈ signatures, Sized kMaxKeyIdSize s.keyId ∧ Sized kMaxSignatureSize s.bytes) :
    (sampleEnvelope channel signatures).WithinLimits := by
  constructor <;> simp only [sampleEnvelope]
  · decide
  · exact sized_sampleManifest
  · exact sized_sampleRootSignature
  · exact hcount
  · exact hsized
  · decide +kernel

theorem sampleEnvelope_region (channel : Channel) (signatures : List EnvelopeSignature) :
    (sampleEnvelope channel signatures).signedRegion
      = (sampleEnvelope channel signatures).header := by
  simp only [sampleEnvelope, Envelope.header, Envelope.fields]

theorem parseEnvelope_sampleRun (channel : Channel) (signatures : List EnvelopeSignature)
    (hcount : signatures.length ≤ kMaxSignatures)
    (hsized : ∀ s ∈ signatures, Sized kMaxKeyIdSize s.keyId ∧ Sized kMaxSignatureSize s.bytes) :
    parseEnvelope (sampleRun channel signatures).data = .ok (sampleEnvelope channel signatures) := by
  simp only [sampleRun]
  exact ((parseEnvelope_iff _).2 _).mpr
    ⟨sampleEnvelope_limits channel signatures hcount hsized, sampleEnvelope_region channel signatures, rfl⟩

theorem accepted_of_isOk {run : UpdateRun} (h : (run.verify backend pem).isOk = true) :
    run.Accepted backend pem := by
  cases hr : run.verify backend pem with
  | error stop =>
    rw [hr] at h
    exact nomatch h
  | ok r => exact ⟨r, hr⟩

theorem not_accepted_of_isOk {run : UpdateRun} (h : (run.verify backend pem).isOk = false) :
    ¬run.Accepted backend pem := by
  rintro ⟨r, hr⟩
  rw [hr] at h
  exact nomatch h

/-- The signatures of the sample package behind `n` others. -/
def sampleSignatures (n : ℕ) : List EnvelopeSignature :=
  List.replicate n ⟨[1], [1]⟩ ++ [⟨ascii "k", sampleSignature⟩]

theorem sampleEnvelope_with (channel : Channel) (signatures more : List EnvelopeSignature) :
    { sampleEnvelope channel signatures with signatures := more }
      = sampleEnvelope channel more := by
  simp only [sampleEnvelope, Envelope.header, Envelope.fields]

theorem update_rules_sample : (sampleRun .beta (sampleSignatures 2)).Accepted sampleBackend
    samplePem := by
  have hone := parseEnvelope_sampleRun .beta (sampleSignatures 1) (by decide +kernel)
    (by decide +kernel)
  have htwo := parseEnvelope_sampleRun .beta (sampleSignatures 2) (by decide +kernel)
    (by decide +kernel)
  rw [← sampleEnvelope_with .beta (sampleSignatures 1)] at htwo
  obtain ⟨-, -, hmore⟩ := update_rules sampleBackend samplePem
  have haccepted := hmore (sampleRun .beta (sampleSignatures 1)) _ _ _ hone htwo (by decide +kernel)
    (accepted_of_isOk (by decide +kernel))
  simpa only [sampleRun] using haccepted

/-- The manifest of the sample does not list the channel `stable`. -/
theorem verified_sampleManifest : ∃ carried,
    Verified sampleBackend samplePem sampleManifest sampleRootSignature carried ∧
      carried.channels.find (channelName .stable) = none := by
  have heval : (sampleBackend.parseVerifiedManifest sampleManifest sampleRootSignature
      samplePem).toOption.map (fun m => (m.channels.find (channelName .stable)).isNone)
        = some true := by
    decide +kernel
  cases hcarried : sampleBackend.parseVerifiedManifest sampleManifest sampleRootSignature
      samplePem with
  | error stop =>
    rw [hcarried] at heval
    exact nomatch heval
  | ok carried =>
    rw [hcarried] at heval
    exact ⟨carried, parseVerifiedManifest_iff.mp hcarried,
      Option.isNone_iff_eq_none.mp (Option.some.inj heval)⟩

/-- A package for a channel that is not listed meets the rules without that, and is rejected; and a
package with one signature more than fit is rejected where the one without it is accepted. -/
theorem update_rules_need_list_and_limit :
    ((sampleRun .stable []).UnlistedRules sampleBackend samplePem ∧
      ¬(sampleRun .stable []).Accepted sampleBackend samplePem) ∧
    ((sampleRun .beta (sampleSignatures 15)).Accepted sampleBackend samplePem ∧
      ¬(sampleRun .beta (sampleSignatures 16)).Accepted sampleBackend samplePem) := by
  refine ⟨⟨?_, not_accepted_of_isOk (by decide +kernel)⟩,
    accepted_of_isOk (by decide +kernel), not_accepted_of_isOk (by decide +kernel)⟩
  obtain ⟨carried, hcarried, hunlisted⟩ := verified_sampleManifest
  have hparse := parseEnvelope_sampleRun .stable [] (by decide) nofun
  refine ⟨sampleEnvelope .stable [], carried, hparse, rfl, ?_, ?_, ?_, fun groups hgroups => ?_⟩
  · simpa only [sampleEnvelope] using hcarried
  · decide +kernel
  · decide +kernel
  · simp only [sampleRun, sampleEnvelope, newest_none] at hgroups
    exact nomatch hunlisted.symm.trans hgroups

end Updates

end Core

end Yunogram
