import Mathlib
import Yunogram.Machinery.Holders

/-!
# Mtproto/KeyCreation — which session of a data center creates its keys

The sessions of a data center share its temporary keys, and a key that is not there is created by
the session that acquired its creation.  The data center has a flag for each temporary key, and the
session remembers what it acquired; `Locked` says that the two agree.  Each operation holds the lock
of the data center while it looks at the keys, and so it is one step here.

The result is `key_creation_locked`: the two agree along every run in which a created key is bound
with the persistent key that the data center has.  Where it is not, the flag stays set and no
session has it. -/

namespace Yunogram.Mtproto

open Machinery

/-- `DcType`. -/
inductive DcType
  | regular
  | temporary
  | mediaCluster
  | cdn
  deriving DecidableEq

/-- `TemporaryKeyType`. -/
inductive TemporaryKeyType
  | regular
  | mediaCluster
  deriving DecidableEq

/-- `CreatingKeyType`. -/
inductive CreatingKeyType
  | none
  | persistent
  | temporaryRegular
  | temporaryMediaCluster
  deriving DecidableEq

/-- `IndexByType`, of a temporary key. -/
def TemporaryKeyType.index : TemporaryKeyType → Fin 2
  | .regular => 0
  | .mediaCluster => 1

/-- `IndexByType`, of what is created, which must be something. -/
def CreatingKeyType.index : CreatingKeyType → Option (Fin 2)
  | .none => Option.none
  | .persistent => some 0
  | .temporaryRegular => some 0
  | .temporaryMediaCluster => some 1

/-- `TemporaryKeyTypeByDcType`. -/
def temporaryKeyTypeByDcType (type : DcType) : TemporaryKeyType :=
  if type = .mediaCluster then .mediaCluster else .regular

variable {Key : Type} {Session : Type}

/-- `Dcenter`, with keys for what points to them. -/
structure Dcenter (Key : Type) where
  temporaryKeys : Fin 2 → Option Key
  persistentKey : Option Key
  connectionInited : Bool
  creatingKeys : Fin 2 → Bool

namespace Dcenter

variable (dc : Dcenter Key)

/-- The constructor of `Dcenter`. -/
def new (key : Option Key) : Dcenter Key := ⟨fun _ => none, key, false, fun _ => false⟩

/-- `Dcenter::destroyTemporaryKey`. -/
def destroyTemporaryKey (keyId : Key → UInt64) (id : UInt64) : Dcenter Key :=
  if (dc.temporaryKeys 0).map keyId = some id then
    { dc with temporaryKeys := Function.update dc.temporaryKeys 0 none, connectionInited := false }
  else if (dc.temporaryKeys 1).map keyId = some id then
    { dc with temporaryKeys := Function.update dc.temporaryKeys 1 none, connectionInited := false }
  else dc

/-- `Dcenter::destroyConfirmedForgottenKey`. -/
def destroyConfirmedForgottenKey (keyId : Key → UInt64) (id : UInt64) : Dcenter Key :=
  if dc.persistentKey.map keyId ≠ some id then dc
  else { dc with temporaryKeys := fun _ => none, persistentKey := none, connectionInited := false }

/-- `compare_exchange_strong` of a flag that is expected not to be set: what is created when it was
not, and else nothing. -/
def exchange (index : Fin 2) (created : CreatingKeyType) : Dcenter Key × CreatingKeyType :=
  if dc.creatingKeys index then (dc, .none)
  else ({ dc with creatingKeys := Function.update dc.creatingKeys index true }, created)

/-- The flag that `acquireKeyCreation` tries to set. -/
def slot (type : DcType) : Fin 2 :=
  if temporaryKeyTypeByDcType type = .mediaCluster ∧
      (dc.temporaryKeys TemporaryKeyType.regular.index).isSome then 1 else 0

/-- `Dcenter::acquireKeyCreation`. -/
def acquireKeyCreation (type : DcType) : Dcenter Key × CreatingKeyType :=
  let keyType := temporaryKeyTypeByDcType type
  let index := keyType.index
  let regular := TemporaryKeyType.regular.index
  if (dc.temporaryKeys index).isSome then (dc, .none)
  else if keyType = .mediaCluster ∧ (dc.temporaryKeys regular).isSome then
    dc.exchange index .temporaryMediaCluster
  else
    dc.exchange regular
      (if type ≠ .cdn ∧ dc.persistentKey.isNone then .persistent else .temporaryRegular)

/-- `Dcenter::releaseKeyCreationOnDone`, with nothing where it expects something else. -/
def releaseKeyCreationOnDone [DecidableEq Key] (type : CreatingKeyType) (temporaryKey : Option Key)
    (persistentKeyUsedForBind : Option Key) : Option (Dcenter Key × Bool) :=
  match type.index with
  | none => none
  | some index =>
    if dc.creatingKeys index = false ∨ (dc.temporaryKeys index).isSome ∨ temporaryKey.isNone then
      none
    else if type ≠ .persistent ∧ dc.persistentKey ≠ persistentKeyUsedForBind then some (dc, false)
    else some ({ dc with
      persistentKey := if type = .persistent then persistentKeyUsedForBind else dc.persistentKey
      temporaryKeys := Function.update dc.temporaryKeys index temporaryKey
      creatingKeys := Function.update dc.creatingKeys index false
      connectionInited := false }, true)

/-- `Dcenter::releaseKeyCreationOnFail`, with nothing where it expects something else. -/
def releaseKeyCreationOnFail (type : CreatingKeyType) : Option (Dcenter Key) :=
  match type.index with
  | none => none
  | some index =>
    if dc.creatingKeys index = false ∨ (dc.temporaryKeys index).isSome then none
    else some { dc with creatingKeys := Function.update dc.creatingKeys index false }

end Dcenter

/-! ## The sessions of a data center -/

/-- A data center with its sessions, and what each of them has acquired: `_myKeyCreation`. -/
structure Sessions (Key Session : Type) where
  dc : Dcenter Key
  myKeyCreation : Session → CreatingKeyType

/-- What the sessions of a data center do to it, and what is done to its keys. -/
inductive Action (Key Session : Type)
  | acquireKeyCreation (session : Session) (type : DcType)
  | releaseKeyCreationOnDone (session : Session) (temporaryKey persistentKeyUsedForBind : Key)
  | releaseCdnKeyCreationOnDone (session : Session) (temporaryKey : Key)
  | releaseKeyCreationOnFail (session : Session)
  | destroySession (session : Session)
  | destroyTemporaryKey (id : UInt64)
  | destroyConfirmedForgottenKey (id : UInt64)

namespace Sessions

section

variable (s : Sessions Key Session)

/-- A session acquires while it has nothing, and releases only what it acquired. -/
def Allowed : Action Key Session → Prop
  | .acquireKeyCreation session _ => s.myKeyCreation session = .none
  | .releaseKeyCreationOnDone session _ _ => s.myKeyCreation session ≠ .none
  | .releaseCdnKeyCreationOnDone session _ => s.myKeyCreation session = .temporaryRegular
  | .releaseKeyCreationOnFail session => s.myKeyCreation session ≠ .none
  | _ => True

/-- **A key that was created is bound with the persistent key that the data center has**, or becomes
it. -/
def Binds : Action Key Session → Prop
  | .releaseKeyCreationOnDone session _ persistentKeyUsedForBind =>
    s.myKeyCreation session = .persistent ∨ s.dc.persistentKey = some persistentKeyUsedForBind
  | .releaseCdnKeyCreationOnDone _ _ => s.dc.persistentKey = none
  | _ => True

/-- The flag of what a session has. -/
def holds (session : Session) : Option (Fin 2) := (s.myKeyCreation session).index

/-- **A flag is set exactly while one session has it**, and the key of it is not there then. -/
structure Locked : Prop where
  exclusive : Exclusive s.dc.creatingKeys s.holds
  missing : ∀ index, s.dc.creatingKeys index = true → s.dc.temporaryKeys index = none

variable {s} {dc : Dcenter Key} {session : Session} {type : CreatingKeyType} {index : Fin 2}

theorem index_eq_none : type.index = none ↔ type = .none := by
  cases type <;> simp [CreatingKeyType.index]

/-- A data center that nothing is created for. -/
theorem Locked.start (key : Option Key) :
    Locked (⟨Dcenter.new key, fun _ => .none⟩ : Sessions Key Session) where
  exclusive := Exclusive.start
  missing _ hset := nomatch hset

/-- Keys that are destroyed are not there. -/
theorem Locked.destroyed (h : s.Locked) (hflags : dc.creatingKeys = s.dc.creatingKeys)
    (hkeys : ∀ index, s.dc.temporaryKeys index = none → dc.temporaryKeys index = none) :
    Locked { s with dc } where
  exclusive := hflags.symm ▸ h.exclusive
  missing index hset := hkeys index (h.missing index (hflags ▸ hset))

/-- The flag of what a session has is set, and its key is not there: nothing that is expected fails.
-/
theorem Locked.held (h : s.Locked) (hheld : s.holds session = some index) :
    s.dc.creatingKeys index = true ∧ s.dc.temporaryKeys index = none := by
  have hset := (h.exclusive.set_iff index).mpr ⟨session, hheld⟩
  exact ⟨hset, h.missing index hset⟩

theorem holds_of_ne (hne : s.myKeyCreation session ≠ .none) :
    ∃ index, s.holds session = some index :=
  Option.ne_none_iff_exists'.mp fun hnone => hne (index_eq_none.mp hnone)

/-- **What a session tries to acquire is the creation of a key that is not there.** -/
theorem acquireKeyCreation_eq (dc : Dcenter Key) (type : DcType) :
    dc.acquireKeyCreation type = (dc, .none) ∧
        (dc.temporaryKeys (temporaryKeyTypeByDcType type).index).isSome ∨
      ∃ created, dc.acquireKeyCreation type = dc.exchange (dc.slot type) created ∧
        created.index = some (dc.slot type) ∧ dc.temporaryKeys (dc.slot type) = none := by
  unfold Dcenter.acquireKeyCreation Dcenter.slot
  dsimp only
  by_cases hthere : (dc.temporaryKeys (temporaryKeyTypeByDcType type).index).isSome
  · exact Or.inl ⟨if_pos hthere, hthere⟩
  · rw [if_neg hthere]
    refine Or.inr ?_
    split_ifs with hmedia
    · rw [hmedia.1] at hthere ⊢
      exact ⟨_, rfl, rfl, Option.not_isSome_iff_eq_none.mp hthere⟩
    all_goals
      refine ⟨_, rfl, rfl, Option.not_isSome_iff_eq_none.mp fun hregular => ?_⟩
      cases hkey : temporaryKeyTypeByDcType type with
      | regular => exact hthere (hkey ▸ hregular)
      | mediaCluster => exact hmedia ⟨hkey, hregular⟩

/-- The flag of a key that is not there is taken, or another session has it. -/
theorem Locked.acquires (h : s.Locked) (type : DcType) :
    (s.dc.temporaryKeys (temporaryKeyTypeByDcType type).index).isSome ∨
      (s.dc.acquireKeyCreation type).2.index = some (s.dc.slot type) ∨
        ∃ session, s.holds session = some (s.dc.slot type) := by
  rcases acquireKeyCreation_eq s.dc type with ⟨-, hthere⟩ | ⟨created, heq, hindex, -⟩
  · exact Or.inl hthere
  · refine Or.inr ?_
    rw [← h.exclusive.set_iff, heq, Dcenter.exchange]
    split_ifs with hset
    · exact Or.inr hset
    · exact Or.inl hindex

end

section

variable [DecidableEq Session] (s : Sessions Key Session)

/-- The session has something else than before. -/
def set (dc : Dcenter Key) (session : Session) (type : CreatingKeyType) : Sessions Key Session :=
  ⟨dc, Function.update s.myKeyCreation session type⟩

/-- `Session::releaseGenericKeyCreationOnDone`. -/
def releaseGenericKeyCreationOnDone [DecidableEq Key] (session : Session)
    (temporaryKey persistentKeyUsedForBind : Option Key) : Option (Sessions Key Session) :=
  (s.dc.releaseKeyCreationOnDone (s.myKeyCreation session) temporaryKey
    persistentKeyUsedForBind).map fun (dc, _) => s.set dc session .none

/-- `Session::releaseKeyCreationOnFail`, once it is known that there is something to release. -/
def releaseKeyCreationOnFail (session : Session) : Option (Sessions Key Session) :=
  (s.dc.releaseKeyCreationOnFail (s.myKeyCreation session)).map fun dc => s.set dc session .none

/-- What a step leads to, with nothing where an expectation of it fails. -/
def step [DecidableEq Key] (keyId : Key → UInt64) :
    Action Key Session → Option (Sessions Key Session)
  | .acquireKeyCreation session type =>
    if s.myKeyCreation session ≠ .none then none
    else
      let acquired := s.dc.acquireKeyCreation type
      some (s.set acquired.1 session acquired.2)
  | .releaseKeyCreationOnDone session temporaryKey persistentKeyUsedForBind =>
    if s.myKeyCreation session = .none then none
    else s.releaseGenericKeyCreationOnDone session temporaryKey persistentKeyUsedForBind
  | .releaseCdnKeyCreationOnDone session temporaryKey =>
    if s.myKeyCreation session ≠ .temporaryRegular then none
    else s.releaseGenericKeyCreationOnDone session temporaryKey none
  | .releaseKeyCreationOnFail session =>
    if s.myKeyCreation session = .none then none
    else s.releaseKeyCreationOnFail session
  | .destroySession session =>
    if s.myKeyCreation session = .none then some s
    else s.releaseKeyCreationOnFail session
  | .destroyTemporaryKey id => some { s with dc := s.dc.destroyTemporaryKey keyId id }
  | .destroyConfirmedForgottenKey id =>
    some { s with dc := s.dc.destroyConfirmedForgottenKey keyId id }

/-- A run whose steps are all as they have to be. -/
inductive Runs [DecidableEq Key] (keyId : Key → UInt64)
    (ok : Sessions Key Session → Action Key Session → Prop) :
    Sessions Key Session → Sessions Key Session → Prop
  | start {s : Sessions Key Session} : Runs keyId ok s s
  | step {s s' s'' : Sessions Key Session} {a : Action Key Session} (h : Runs keyId ok s s')
      (hok : ok s' a) (hstep : s'.step keyId a = some s'') : Runs keyId ok s s''

variable {s} {dc : Dcenter Key} {session : Session}
  {type : CreatingKeyType} {index : Fin 2} {keyId : Key → UInt64} {a : Action Key Session}

theorem holds_set : (s.set dc session type).holds = Function.update s.holds session type.index := by
  funext other
  show (Function.update s.myKeyCreation session type other).index
    = Function.update s.holds session type.index other
  by_cases h : other = session
  · rw [h, Function.update_self, Function.update_self]
  · rw [Function.update_of_ne h, Function.update_of_ne h, holds]

/-- **Acquiring keeps the flags.** -/
theorem Locked.acquire (h : s.Locked) (hnone : s.myKeyCreation session = .none) (type : DcType) :
    (s.set (s.dc.acquireKeyCreation type).1 session (s.dc.acquireKeyCreation type).2).Locked := by
  have hholds : s.holds session = none := by rw [holds, hnone, CreatingKeyType.index]
  have hsame : (s.set s.dc session .none).Locked := by
    refine ⟨?_, h.missing⟩
    rw [holds_set, CreatingKeyType.index, ← hholds, Function.update_eq_self]
    exact h.exclusive
  rcases acquireKeyCreation_eq s.dc type with ⟨heq, -⟩ | ⟨created, heq, hindex, hmissing⟩
  · rw [heq]
    exact hsame
  · rw [heq, Dcenter.exchange]
    split_ifs with hset
    · exact hsame
    · refine ⟨?_, fun other hother => ?_⟩
      · rw [holds_set, hindex]
        exact h.exclusive.take (Bool.not_eq_true _ ▸ hset) hholds
      · by_cases hi : other = s.dc.slot type
        · rw [hi]
          exact hmissing
        · exact h.missing other ((Function.update_of_ne hi ..).symm.trans hother)

/-- What a session has is given back. -/
theorem Locked.release (h : s.Locked) (hheld : s.holds session = some index)
    (hflags : dc.creatingKeys = Function.update s.dc.creatingKeys index false)
    (hkeys : ∀ other, other ≠ index → dc.temporaryKeys other = s.dc.temporaryKeys other) :
    (s.set dc session .none).Locked where
  exclusive := by
    rw [holds_set, set, hflags]
    exact h.exclusive.give hheld
  missing other hother := by
    rw [set, hflags] at hother
    have hne : other ≠ index := fun hi => by
      rw [hi, Function.update_self] at hother
      exact absurd hother (by decide)
    rw [Function.update_of_ne hne] at hother
    exact (hkeys other hne).trans (h.missing other hother)

/-- **A creation that failed is given back.** -/
theorem Locked.fail (h : s.Locked) (hne : s.myKeyCreation session ≠ .none) :
    ∃ s', s.releaseKeyCreationOnFail session = some s' ∧ s'.Locked := by
  obtain ⟨index, hheld⟩ := holds_of_ne hne
  obtain ⟨hset, hmissing⟩ := h.held hheld
  unfold releaseKeyCreationOnFail Dcenter.releaseKeyCreationOnFail
  unfold holds at hheld
  rw [hheld]
  dsimp only
  rw [if_neg (by simp [hset, hmissing])]
  exact ⟨_, rfl, h.release hheld rfl fun _ _ => rfl⟩

variable [DecidableEq Key]

/-- **A creation that is done is given back**, exactly if what was created is bound with the
persistent key that is there. -/
theorem Locked.done (h : s.Locked) (hne : s.myKeyCreation session ≠ .none) (temporaryKey : Key)
    (persistentKey : Option Key) :
    ∃ s', s.releaseGenericKeyCreationOnDone session (some temporaryKey) persistentKey = some s' ∧
      (s.myKeyCreation session = .persistent ∨ s.dc.persistentKey = persistentKey ↔ s'.Locked) := by
  obtain ⟨index, hheld⟩ := holds_of_ne hne
  obtain ⟨hset, hmissing⟩ := h.held hheld
  have hindex := hheld
  unfold holds at hindex
  unfold releaseGenericKeyCreationOnDone Dcenter.releaseKeyCreationOnDone
  rw [hindex]
  dsimp only
  rw [if_neg (by simp [hset, hmissing])]
  by_cases hbinds : s.myKeyCreation session ≠ .persistent ∧ s.dc.persistentKey ≠ persistentKey
  · rw [if_pos hbinds]
    refine ⟨_, rfl, fun hnot => (hnot.elim hbinds.1 hbinds.2).elim, fun hlocked => ?_⟩
    obtain ⟨-, hforgotten⟩ := h.exclusive.not_forget hheld
    obtain ⟨other, hother⟩ := (hlocked.exclusive.set_iff index).mp hset
    rw [holds_set] at hother
    exact absurd hother (hforgotten other)
  · rw [if_neg hbinds]
    refine ⟨_, rfl, fun _ => ?_, fun _ => (not_and_or.mp hbinds).imp not_not.mp not_not.mp⟩
    exact h.release hheld rfl fun _ hi => Function.update_of_ne hi ..

/-- **No step that is allowed fails**, and it keeps the flags exactly if it binds what it must. -/
theorem Locked.step (h : s.Locked) (hallowed : s.Allowed a) :
    ∃ s', s.step keyId a = some s' ∧ (s.Binds a ↔ s'.Locked) := by
  cases a with
  | acquireKeyCreation session type =>
    refine ⟨_, if_neg (not_not.mpr hallowed), fun _ => h.acquire hallowed type, fun _ => trivial⟩
  | releaseKeyCreationOnDone session temporaryKey persistentKey =>
    obtain ⟨s', hs', hiff⟩ := h.done hallowed temporaryKey (some persistentKey)
    exact ⟨s', (if_neg hallowed).trans hs', hiff⟩
  | releaseCdnKeyCreationOnDone session temporaryKey =>
    have hne : s.myKeyCreation session ≠ .none := fun hnone =>
      absurd (hnone.symm.trans hallowed) (by decide)
    obtain ⟨s', hs', hiff⟩ := h.done hne temporaryKey none
    refine ⟨s', (if_neg (not_not.mpr hallowed)).trans hs', Iff.trans ?_ hiff⟩
    exact ⟨Or.inr, fun hor => hor.resolve_left fun hnot =>
      absurd (hnot.symm.trans hallowed) (by decide)⟩
  | releaseKeyCreationOnFail session =>
    obtain ⟨s', hs', hlocked⟩ := h.fail hallowed
    exact ⟨s', (if_neg hallowed).trans hs', fun _ => hlocked, fun _ => trivial⟩
  | destroySession session =>
    by_cases hnone : s.myKeyCreation session = .none
    · exact ⟨s, if_pos hnone, fun _ => h, fun _ => trivial⟩
    · obtain ⟨s', hs', hlocked⟩ := h.fail hnone
      exact ⟨s', (if_neg hnone).trans hs', fun _ => hlocked, fun _ => trivial⟩
  | destroyTemporaryKey id =>
    refine ⟨_, rfl, fun _ => h.destroyed ?_ fun index hmissing => ?_, fun _ => trivial⟩
    · unfold Dcenter.destroyTemporaryKey
      split_ifs <;> rfl
    · unfold Dcenter.destroyTemporaryKey
      split_ifs
      all_goals
        first
        | exact hmissing
        | (dsimp only
           rw [Function.update_apply, hmissing, ite_self])
  | destroyConfirmedForgottenKey id =>
    refine ⟨_, rfl, fun _ => h.destroyed ?_ fun index hmissing => ?_, fun _ => trivial⟩
    · unfold Dcenter.destroyConfirmedForgottenKey
      split_ifs <;> rfl
    · unfold Dcenter.destroyConfirmedForgottenKey
      split_ifs
      · exact hmissing
      · rfl

/-- The flags agree with the sessions along a run that binds what it must. -/
theorem Runs.locked {s' : Sessions Key Session}
    (h : Runs keyId (fun s a => s.Allowed a ∧ s.Binds a) s s') (hs : s.Locked) : s'.Locked := by
  induction h with
  | start => exact hs
  | step _ hok hstep ih =>
    obtain ⟨s', hs', hbinds⟩ := ih.step hok.1
    rw [hstep] at hs'
    exact Option.some.inj hs' ▸ hbinds.mp hok.2

end

end Sessions

open Sessions

section

variable [DecidableEq Session] [DecidableEq Key] {keyId : Key → UInt64} {key : Option Key}
  {s : Sessions Key Session}

/-- **A flag is set exactly while one session has it**, along every run in which the keys that are
created are bound with the persistent key that the data center has then: no expectation fails, a
step keeps this exactly if it binds what it must, and what nobody has can be acquired. -/
theorem key_creation_locked
    (h : Runs keyId (fun s a => s.Allowed a ∧ s.Binds a) ⟨Dcenter.new key, fun _ => .none⟩ s) :
    s.Locked ∧
    (∀ a, s.Allowed a → ∃ s', s.step keyId a = some s' ∧ (s.Binds a ↔ s'.Locked)) ∧
    ∀ type, (s.dc.temporaryKeys (temporaryKeyTypeByDcType type).index).isSome ∨
      (s.dc.acquireKeyCreation type).2.index = some (s.dc.slot type) ∨
        ∃ session, s.holds session = some (s.dc.slot type) :=
  have hlocked := h.locked (Locked.start key)
  ⟨hlocked, fun _ => hlocked.step, hlocked.acquires⟩

end

/-- Two sessions, of which one has acquired a temporary key. -/
def acquired : Sessions UInt64 Bool :=
  (⟨Dcenter.new (some 7), fun _ => .none⟩ : Sessions UInt64 Bool).set
    ⟨fun _ => none, some 7, false, Function.update (fun _ => false) 0 true⟩ false .temporaryRegular

theorem key_creation_locked_acquired :
    acquired.Locked ∧
    (∀ a, acquired.Allowed a →
      ∃ s', acquired.step id a = some s' ∧ (acquired.Binds a ↔ s'.Locked)) ∧
    ∀ type, (acquired.dc.temporaryKeys (temporaryKeyTypeByDcType type).index).isSome ∨
      (acquired.dc.acquireKeyCreation type).2.index = some (acquired.dc.slot type) ∨
        ∃ session, acquired.holds session = some (acquired.dc.slot type) :=
  have hrun : Runs id (fun s a => s.Allowed a ∧ s.Binds a) ⟨Dcenter.new (some 7), fun _ => .none⟩
      acquired :=
    Runs.step (a := .acquireKeyCreation false .regular) Runs.start ⟨rfl, trivial⟩ rfl
  key_creation_locked hrun

/-- **A persistent key that is destroyed while a temporary one is created leaves the flag set**: no
session has it, and none will acquire it. -/
theorem destroyed_key_leaves_flag :
    ∃ s : Sessions UInt64 Bool,
      Runs id (fun s a => s.Allowed a) ⟨Dcenter.new (some 7), fun _ => .none⟩ s ∧
        s.dc.creatingKeys 0 = true ∧ (∀ session, s.holds session = none) ∧
        ∀ type, (s.dc.acquireKeyCreation type).2 = .none := by
  refine ⟨_, Runs.step (a := .releaseKeyCreationOnDone false 9 7) (Runs.step
    (a := .destroyConfirmedForgottenKey 7) (Runs.step (a := .acquireKeyCreation false .regular)
      Runs.start rfl rfl) trivial rfl) ?_ rfl, rfl, ?_, ?_⟩
  · exact fun h => nomatch h
  · rintro (_ | _) <;> rfl
  · rintro (_ | _ | _ | _) <;> rfl

end Yunogram.Mtproto
