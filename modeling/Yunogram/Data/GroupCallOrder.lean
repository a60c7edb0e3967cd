import Yunogram.Data.GroupCallUpdates

/-!
# Data/GroupCallOrder — updates of a group call in the order of their versions

`Ordered` says what happened to a group call since it was loaded: the versions of the versioned
updates that it applied follow each other, and an update that arrived is applied, queued, or
requires a version that has passed.  Each operation keeps it, and after each nothing is queued whose
turn has come; the result is `updates_in_version_order`. -/

open Machinery

namespace Yunogram

variable {Call Participant : Type}

/-- The version of an update that has versioned participants. -/
def GroupCallUpdate.versioned : GroupCallUpdate Call Participant → Option ℤ
  | groupCallParticipants version participants =>
    if increments participants then some version else none
  | _ => none

/-- The version of an update. -/
def GroupCallUpdate.version : GroupCallUpdate Call Participant → Option ℤ
  | groupCall version _ => some version
  | groupCallDiscarded => none
  | groupCallParticipants version _ => some version

/-- The version of a versioned update that is applied. -/
def GroupCallEvent.appliedVersion : GroupCallEvent Call Participant → Option ℤ
  | applies _ update => update.versioned
  | _ => none

/-- The versions after `version` up to `last`. -/
def versionsUpTo (version last : ℤ) : List ℤ :=
  (List.range (last - version).toNat).map fun i : ℕ => version + 1 + i

theorem versionsUpTo_succ {version last : ℤ} (h : version ≤ last) :
    versionsUpTo version (last + 1) = versionsUpTo version last ++ [last + 1] := by
  have hcount : (last + 1 - version).toNat = (last - version).toNat + 1 := by omega
  rw [versionsUpTo, hcount, List.range_succ, List.map_append, List.map_singleton, versionsUpTo]
  congr 2
  omega

theorem mem_versionsUpTo {version last v : ℤ} :
    v ∈ versionsUpTo version last ↔ version < v ∧ v ≤ last := by
  rw [versionsUpTo, List.mem_map]
  constructor
  · rintro ⟨i, hi, rfl⟩
    have hi := List.mem_range.mp hi
    omega
  · rintro ⟨hlt, hle⟩
    exact ⟨(v - version - 1).toNat, List.mem_range.mpr (by omega), by omega⟩

theorem GroupCallUpdate.key_of_versioned {update : GroupCallUpdate Call Participant} {v : ℤ}
    (h : update.versioned = some v) : update.key = some (toLex (v, .versionedParticipant)) := by
  cases update with
  | groupCall | groupCallDiscarded => exact absurd h (by simp [versioned])
  | groupCallParticipants version participants =>
    unfold versioned at h
    unfold key
    dsimp only at h ⊢
    split_ifs at h with hincrement
    rw [Option.some.inj h, if_pos hincrement]

/-- The turn of a versioned update comes at the version before, that of another at its own. -/
theorem GroupCallUpdate.turn_iff {update : GroupCallUpdate Call Participant} {v : ℤ} :
    update.key.map QueuedKey.required = some v ↔
      update.versioned = some (v + 1) ∨ update.versioned = none ∧ update.version = some v := by
  cases update with
  | groupCall version data => simp [key, versioned, GroupCallUpdate.version, QueuedKey.required]
  | groupCallDiscarded => simp [key, versioned, GroupCallUpdate.version]
  | groupCallParticipants version participants =>
    unfold key versioned GroupCallUpdate.version QueuedKey.required
    dsimp only
    generalize increments participants = incremented
    cases incremented <;> simp [sub_eq_iff_eq_add]

/-- **What happened to a group call that was loaded with a version, and what is queued**: an update
that arrived is applied, queued, in hand, or requires a version that has passed. -/
structure Ordered (loaded : ℤ) (hand : Option (GroupCallUpdate Call Participant))
    (events : List (GroupCallEvent Call Participant)) (version : ℤ)
    (queued : FlatMultiMap QueuedKey (GroupCallUpdate Call Participant)) : Prop where
  positive : 0 < loaded
  le_version : loaded ≤ version
  versions : events.filterMap GroupCallEvent.appliedVersion = versionsUpTo loaded version
  turn : ∀ v update, .applies v update ∈ events → update.key.map QueuedKey.required = some v
  arrived : ∀ v update, .applies v update ∈ events → .arrives update ∈ events
  queue : ∀ key update, (key, update) ∈ queued → update.key = some key ∧ .arrives update ∈ events
  kept : ∀ update key, .arrives update ∈ events → update.key = some key →
    key.required < version ∨ (key, update) ∈ queued ∨ hand = some update ∨
      ∃ v, .applies v update ∈ events

namespace Ordered

variable {loaded version : ℤ} {hand : Option (GroupCallUpdate Call Participant)}
  {events : List (GroupCallEvent Call Participant)}
  {queued : FlatMultiMap QueuedKey (GroupCallUpdate Call Participant)}
  {update : GroupCallUpdate Call Participant} {key : QueuedKey}

/-- An update arrives, and is in hand. -/
theorem arrive (h : Ordered loaded none events version queued)
    (update : GroupCallUpdate Call Participant) :
    Ordered loaded (some update) (events ++ [.arrives update]) version queued where
  positive := h.positive
  le_version := h.le_version
  versions := by
    rw [List.filterMap_append, h.versions]
    exact List.append_nil _
  turn v u hu := h.turn v u (by simpa using hu)
  arrived v u hu := List.mem_append_left _ (h.arrived v u (by simpa using hu))
  queue k u hu := (h.queue k u hu).imp_right (List.mem_append_left _)
  kept u k hu hk := by
    rcases List.mem_append.mp hu with hu | hu
    · rcases h.kept u k hu hk with hpassed | hqueued | hhand | ⟨v, hv⟩
      · exact Or.inl hpassed
      · exact Or.inr (Or.inl hqueued)
      · exact absurd hhand (by simp)
      · exact Or.inr (Or.inr (Or.inr ⟨v, List.mem_append_left _ hv⟩))
    · obtain rfl : u = update := by simpa using hu
      exact Or.inr (Or.inr (Or.inl rfl))

/-- The update in hand requires a version that has passed. -/
theorem drop (h : Ordered loaded (some update) events version queued)
    (hpassed : ∀ key, update.key = some key → key.required < version) :
    Ordered loaded none events version queued where
  positive := h.positive
  le_version := h.le_version
  versions := h.versions
  turn := h.turn
  arrived := h.arrived
  queue := h.queue
  kept u k hu hk := by
    rcases h.kept u k hu hk with hlt | hqueued | hhand | happlied
    · exact Or.inl hlt
    · exact Or.inr (Or.inl hqueued)
    · exact Or.inl (hpassed k (Option.some.inj hhand ▸ hk))
    · exact Or.inr (Or.inr (Or.inr happlied))

/-- The update in hand is queued. -/
theorem emplace (h : Ordered loaded (some update) events version queued)
    (hkey : update.key = some key) (harrived : .arrives update ∈ events) :
    Ordered loaded none events version (queued.emplace key update) where
  positive := h.positive
  le_version := h.le_version
  versions := h.versions
  turn := h.turn
  arrived := h.arrived
  queue k u hu := by
    rcases FlatMultiMap.mem_emplace.mp hu with heq | hu
    · obtain ⟨rfl, rfl⟩ := Prod.mk.inj heq
      exact ⟨hkey, harrived⟩
    · exact h.queue k u hu
  kept u k hu hk := by
    rcases h.kept u k hu hk with hlt | hqueued | hhand | happlied
    · exact Or.inl hlt
    · exact Or.inr (Or.inl (FlatMultiMap.mem_emplace.mpr (Or.inr hqueued)))
    · obtain rfl := Option.some.inj hhand
      obtain rfl := Option.some.inj (hkey.symm.trans hk)
      exact Or.inr (Or.inl (FlatMultiMap.mem_emplace.mpr (Or.inl rfl)))
    · exact Or.inr (Or.inr (Or.inr happlied))

/-- The front is taken in hand. -/
theorem take (h : Ordered loaded none events version queued)
    (hfront : queued.front? = some (key, update)) :
    Ordered loaded (some update) events version queued.popFront where
  positive := h.positive
  le_version := h.le_version
  versions := h.versions
  turn := h.turn
  arrived := h.arrived
  queue k u hu := h.queue k u ((FlatMultiMap.mem_iff_of_front hfront).mpr (Or.inr hu))
  kept u k hu hk := by
    rcases h.kept u k hu hk with hlt | hqueued | hhand | happlied
    · exact Or.inl hlt
    · rcases (FlatMultiMap.mem_iff_of_front hfront).mp hqueued with heq | hrest
      · exact Or.inr (Or.inr (Or.inl (congrArg some (Prod.mk.inj heq).2.symm)))
      · exact Or.inr (Or.inl hrest)
    · exact absurd hhand (by simp)
    · exact Or.inr (Or.inr (Or.inr happlied))

/-- An update that is applied is versioned if its key is. -/
theorem appliedVersion_applies (hkey : update.key = some key) :
    [GroupCallEvent.applies version update].filterMap GroupCallEvent.appliedVersion
      = if (ofLex key).2 = .versionedParticipant then [(ofLex key).1] else [] := by
  cases update with
  | groupCall =>
    obtain rfl := Option.some.inj hkey
    rfl
  | groupCallDiscarded => exact absurd hkey (by simp [GroupCallUpdate.key])
  | groupCallParticipants v participants =>
    obtain rfl := Option.some.inj hkey
    cases hincrement : increments participants <;>
      simp [GroupCallEvent.appliedVersion, GroupCallUpdate.versioned, hincrement]

/-- **The update in hand is applied when its turn has come.** -/
theorem apply (h : Ordered loaded (some update) events version queued)
    (hkey : update.key = some key) (hturn : key.required = version) (harrived : .arrives update ∈ events) :
    Ordered loaded none (events ++ [.applies version update]) (ofLex key).1 queued where
  positive := h.positive
  le_version := by
    have hle := h.le_version
    unfold QueuedKey.required at hturn
    split_ifs at hturn <;> omega
  versions := by
    rw [List.filterMap_append, h.versions, appliedVersion_applies hkey]
    unfold QueuedKey.required at hturn
    split_ifs at hturn ⊢
    · rw [eq_add_of_sub_eq hturn, versionsUpTo_succ h.le_version]
    · rw [hturn, List.append_nil]
  turn v u hu := by
    rcases List.mem_append.mp hu with hu | hu
    · exact h.turn v u hu
    · obtain ⟨rfl, rfl⟩ : v = version ∧ u = update := by simpa using hu
      rw [hkey, Option.map_some, hturn]
  arrived v u hu := by
    refine List.mem_append_left _ ?_
    rcases List.mem_append.mp hu with hu | hu
    · exact h.arrived v u hu
    · obtain ⟨-, rfl⟩ : v = version ∧ u = update := by simpa using hu
      exact harrived
  queue k u hu := (h.queue k u hu).imp_right (List.mem_append_left _)
  kept u k hu hk := by
    rcases h.kept u k (by simpa using hu) hk with hlt | hqueued | hhand | ⟨v, hv⟩
    · refine Or.inl (hlt.trans_le ?_)
      unfold QueuedKey.required at hturn
      split_ifs at hturn <;> omega
    · exact Or.inr (Or.inl hqueued)
    · obtain rfl := Option.some.inj hhand
      exact Or.inr (Or.inr (Or.inr ⟨version, List.mem_append_right _ (List.mem_singleton_self _)⟩))
    · exact Or.inr (Or.inr (Or.inr ⟨v, List.mem_append_left _ hv⟩))

/-- That the call is discarded changes nothing. -/
theorem discards (h : Ordered loaded hand events version queued) :
    Ordered loaded hand (events ++ [.discards]) version queued where
  positive := h.positive
  le_version := h.le_version
  versions := by
    rw [List.filterMap_append, h.versions]
    exact List.append_nil _
  turn v u hu := h.turn v u (by simpa using hu)
  arrived v u hu := List.mem_append_left _ (h.arrived v u (by simpa using hu))
  queue k u hu := (h.queue k u hu).imp_right (List.mem_append_left _)
  kept u k hu hk :=
    (h.kept u k (by simpa using hu) hk).imp_right <| Or.imp_right <| Or.imp_right fun ⟨v, hv⟩ =>
      ⟨v, List.mem_append_left _ hv⟩

/-- **Versions that arrived without a gap have passed**, if nothing is queued whose turn has come.
-/
theorem le_of_arrived (h : Ordered loaded none events version queued)
    (hwait : ∀ key update, (key, update) ∈ queued → version < key.required) {last : ℤ}
    (harrived : ∀ v, loaded < v → v ≤ last →
      ∃ update, .arrives update ∈ events ∧ update.versioned = some v) : last ≤ version := by
  by_contra hlt
  have hle := h.le_version
  obtain ⟨u, hu, hv⟩ := harrived (version + 1) (by omega) (by omega)
  have hkey := GroupCallUpdate.key_of_versioned hv
  have hrequired : QueuedKey.required (toLex (version + 1, .versionedParticipant)) = version :=
    add_sub_cancel_right version 1
  rcases h.kept u _ hu hkey with hpassed | hqueued | hhand | ⟨w, hw⟩
  · rw [hrequired] at hpassed
    exact absurd hpassed (lt_irrefl _)
  · have hwait := hwait _ u hqueued
    rw [hrequired] at hwait
    exact absurd hwait (lt_irrefl _)
  · exact absurd hhand (by simp)
  · have hmem : version + 1 ∈ events.filterMap GroupCallEvent.appliedVersion :=
      List.mem_filterMap.mpr ⟨_, hw, hv⟩
    rw [h.versions, mem_versionsUpTo] at hmem
    omega

end Ordered

namespace GroupCall

/-- What holds after a step, whose events are added. -/
def Leads (loaded : ℤ) (events : List (GroupCallEvent Call Participant))
    (r : GroupCall Call Participant × List (GroupCallEvent Call Participant)) : Prop :=
  Ordered loaded none (events ++ r.2) r.1.version r.1.queuedUpdates

variable {s : GroupCall Call Participant} {update : GroupCallUpdate Call Participant}
  {key : QueuedKey} {loaded : ℤ} {events : List (GroupCallEvent Call Participant)}

/-- **No update is being applied, and nothing is queued whose turn has come.** -/
structure Settled (s : GroupCall Call Participant) : Prop where
  idle : s.applyingQueuedUpdates = false
  wait : ∀ key update, (key, update) ∈ s.queuedUpdates → s.version < key.required

theorem leads_refl (h : Ordered loaded none events s.version s.queuedUpdates) :
    Leads loaded events (s, []) := by
  rw [Leads, List.append_nil]
  exact h

theorem Leads.trans {r p : GroupCall Call Participant × List (GroupCallEvent Call Participant)}
    (h : Leads loaded (events ++ r.2) p) : Leads loaded events (p.1, r.2 ++ p.2) := by
  rw [Leads, ← List.append_assoc]
  exact h

/-- What arrives while an update is applied is queued or dropped. -/
theorem leads_enqueueWhileApplying (h : Ordered loaded none events s.version s.queuedUpdates)
    (happlying : s.applyingQueuedUpdates = true) (update : GroupCallUpdate Call Participant) :
    Leads loaded events (s.enqueueWhileApplying update) ∧
      (s.enqueueWhileApplying update).1.applyingQueuedUpdates = true := by
  have hversion : s.version ≠ 0 := (h.positive.trans_le h.le_version).ne'
  have harrive := h.arrive update
  unfold enqueueWhileApplying
  cases hkey : update.key with
  | none =>
    rw [enqueued_of_key_none hkey]
    refine ⟨Leads.trans (r := (s, [.arrives update])) (p := (s, [.discards])) ?_, happlying⟩
    exact (harrive.drop fun k hk => absurd (hkey.symm.trans hk) (by simp)).discards
  | some key =>
    rw [enqueued_eq hversion hkey, if_neg (by simp [happlying])]
    split_ifs with hle
    · exact ⟨harrive.emplace hkey (by simp), happlying⟩
    · refine ⟨harrive.drop fun k hk => ?_, happlying⟩
      obtain rfl := Option.some.inj (hkey.symm.trans hk)
      exact not_le.mp hle

/-- What arrives while an update is applied does not change what holds. -/
theorem leads_run (h : Ordered loaded none events s.version s.queuedUpdates)
    (happlying : s.applyingQueuedUpdates = true)
    (updates : List (GroupCallUpdate Call Participant)) :
    Leads loaded events (run enqueueWhileApplying s updates) := by
  induction updates generalizing s events with
  | nil => exact leads_refl h
  | cons update updates ih =>
    obtain ⟨hstep, happlying⟩ := leads_enqueueWhileApplying h happlying update
    exact Leads.trans (ih hstep happlying)

/-- An update is applied, and others arrive meanwhile. -/
theorem leads_applyEnqueuedUpdate
    (h : Ordered loaded (some update) events s.version s.queuedUpdates)
    (hkey : update.key = some key) (hturn : key.required = s.version)
    (harrived : .arrives update ∈ events) (meanwhile : List (GroupCallUpdate Call Participant)) :
    Leads loaded events (s.applyEnqueuedUpdate update meanwhile) := by
  have happlied := h.apply hkey hturn harrived
  rw [← appliedVersion_eq (h.positive.trans_le h.le_version) hkey hturn] at happlied
  exact Leads.trans (r := (s, [.applies s.version update])) (leads_run (s := { s with
    version := update.appliedVersion s.version, applyingQueuedUpdates := true })
      happlied rfl meanwhile)

section

variable (meanwhile : List (List (GroupCallUpdate Call Participant)))

/-- A front whose version has passed is dropped. -/
theorem processFront_passed (hfront : s.queuedUpdates.front? = some (key, update))
    (hpassed : key.required < s.version) : processFront false s meanwhile =
      processFront false { s with queuedUpdates := s.queuedUpdates.popFront } meanwhile := by
  unfold QueuedKey.required at hpassed
  rw [processFront, hfront]
  refine if_pos ?_
  split_ifs at hpassed with hincremented
  · exact (Int.sub_one_lt_iff.mp hpassed).lt_or_eq.imp_right fun heq => ⟨heq, hincremented, rfl⟩
  · exact Or.inl hpassed

/-- A front whose turn has come is applied. -/
theorem processFront_turn (hfront : s.queuedUpdates.front? = some (key, update))
    (hturn : key.required = s.version) : processFront false s meanwhile =
      let r := { s with queuedUpdates := s.queuedUpdates.popFront }.applyEnqueuedUpdate update
        (meanwhile.headD [])
      let p := processFront false r.1 meanwhile.tail
      (p.1, r.2 ++ p.2) := by
  unfold QueuedKey.required at hturn
  rw [processFront, hfront]
  dsimp only
  split_ifs at hturn with hincremented
  · rw [if_neg (by omega), if_pos (Or.inr ⟨eq_add_of_sub_eq hturn, hincremented⟩)]
  · rw [if_neg (not_or.mpr ⟨hturn.not_lt, fun hnot => hincremented hnot.2.1⟩),
      if_pos (Or.inl hturn)]

/-- A front whose turn has not come ends the loop. -/
theorem processFront_wait (hfront : s.queuedUpdates.front? = some (key, update))
    (hwait : s.version < key.required) : processFront false s meanwhile = (s, []) := by
  unfold QueuedKey.required at hwait
  rw [processFront, hfront]
  dsimp only
  split_ifs at hwait with hincremented
  · rw [if_neg (by omega), if_neg (by omega)]
  · rw [if_neg (by omega), if_neg (not_or.mpr ⟨hwait.ne', fun hnot => hincremented hnot.2⟩)]

/-- **After the queue is processed nothing is queued whose turn has come.** -/
theorem leads_processFront (h : Ordered loaded none events s.version s.queuedUpdates)
    (hidle : s.applyingQueuedUpdates = false) :
    Leads loaded events (processFront false s meanwhile) ∧
      (processFront false s meanwhile).1.Settled := by
  induction s, meanwhile using processFront.induct false generalizing events with
  | case1 s meanwhile hfront =>
    rw [processFront, hfront]
    exact ⟨leads_refl h, hidle,
      fun key update hmem => absurd hmem (FlatMultiMap.not_mem_of_front hfront)⟩
  | case2 s meanwhile key update hfront version incremented rest hpassed =>
    rename_i ih
    have hpassed : key.required < s.version := by
      unfold QueuedKey.required
      rcases hpassed with hlt | ⟨heq, hincremented, -⟩
      · split_ifs <;> omega
      · rw [if_pos hincremented]
        exact Int.sub_one_lt_iff.mpr heq.le
    rw [processFront_passed meanwhile hfront hpassed]
    obtain ⟨hkey, -⟩ := h.queue key update ((FlatMultiMap.mem_iff_of_front hfront).mpr (Or.inl rfl))
    refine ih ((h.take hfront).drop fun k hk => ?_) hidle
    exact Option.some.inj (hkey.symm.trans hk) ▸ hpassed
  | case3 s meanwhile key update hfront version incremented rest hpassed hturn r =>
    rename_i ih
    have hturn : key.required = s.version := by
      unfold QueuedKey.required
      rcases hturn with heq | ⟨heq, hincremented⟩
      · rw [if_neg fun hincremented => hpassed (Or.inr ⟨heq, hincremented, rfl⟩)]
        exact heq
      · rw [if_pos hincremented]
        exact sub_eq_of_eq_add heq
    rw [processFront_turn meanwhile hfront hturn]
    obtain ⟨hkey, harrived⟩ :=
      h.queue key update ((FlatMultiMap.mem_iff_of_front hfront).mpr (Or.inl rfl))
    have happlied := leads_applyEnqueuedUpdate (s := rest) (h.take hfront) hkey hturn harrived
      (meanwhile.headD [])
    obtain ⟨hleads, hsettled⟩ := ih happlied rfl
    exact ⟨Leads.trans hleads, hsettled⟩
  | case4 s meanwhile key update hfront version incremented hpassed =>
    rename_i hturn
    have hwait : s.version < key.required := by
      unfold QueuedKey.required
      obtain ⟨hle, hne⟩ := not_or.mp hpassed
      obtain ⟨hne', hnext⟩ := not_or.mp hturn
      have hlt : s.version < version := lt_of_le_of_ne (not_lt.mp hle) (Ne.symm hne')
      split_ifs with hincremented
      · have hnext : version ≠ s.version + 1 := fun heq => hnext ⟨heq, hincremented⟩
        show s.version < version - 1
        omega
      · exact hlt
    rw [processFront_wait meanwhile hfront hwait]
    exact ⟨leads_refl h, hidle, fun k u hu =>
      hwait.trans_le (QueuedKey.required_mono (FlatMultiMap.front_le hfront hu))⟩

theorem leads_processQueuedUpdates (h : Ordered loaded none events s.version s.queuedUpdates)
    (hidle : s.applyingQueuedUpdates = false) :
    Leads loaded events (s.processQueuedUpdates false meanwhile) ∧
      (s.processQueuedUpdates false meanwhile).1.Settled := by
  have hversion : s.version ≠ 0 := (h.positive.trans_le h.le_version).ne'
  obtain ⟨hleads, hsettled⟩ := leads_processFront meanwhile h hidle
  rw [processQueuedUpdates, if_neg (by simp [hversion, hidle])]
  exact ⟨hleads, hsettled.idle, hsettled.wait⟩

/-- **An update that arrives is applied in its turn.** -/
theorem leads_enqueueUpdate (h : Ordered loaded none events s.version s.queuedUpdates)
    (hsettled : s.Settled) (update : GroupCallUpdate Call Participant) :
    Leads loaded events (s.enqueueUpdate update meanwhile) ∧
      (s.enqueueUpdate update meanwhile).1.Settled := by
  have hversion : s.version ≠ 0 := (h.positive.trans_le h.le_version).ne'
  have harrive := h.arrive update
  have hmem : .arrives update ∈ events ++ [.arrives update] := by simp
  unfold enqueueUpdate
  rw [decide_eq_false hversion]
  cases hkey : update.key with
  | none =>
    rw [enqueued_of_key_none hkey]
    have hdrop := (harrive.drop fun k hk => absurd (hkey.symm.trans hk) (by simp)).discards
    obtain ⟨hleads, hnext⟩ := leads_processQueuedUpdates meanwhile hdrop hsettled.idle
    rw [List.append_assoc] at hleads
    exact ⟨Leads.trans (r := (s, [.arrives update, .discards])) hleads, hnext⟩
  | some key =>
    rw [enqueued_eq hversion hkey]
    split_ifs with hturn hle
    · have happlied := leads_applyEnqueuedUpdate harrive hkey hturn.2.symm hmem (meanwhile.headD [])
      obtain ⟨hleads, hnext⟩ :=
        leads_processQueuedUpdates meanwhile.tail happlied rfl
      exact ⟨Leads.trans (r := (s, [.arrives update])) (Leads.trans hleads), hnext⟩
    · obtain ⟨hleads, hnext⟩ := leads_processQueuedUpdates (s := s.queue key update)
        meanwhile (harrive.emplace hkey hmem) hsettled.idle
      exact ⟨Leads.trans (r := (s, [.arrives update])) hleads, hnext⟩
    · have hdrop := harrive.drop fun k hk =>
        Option.some.inj (hkey.symm.trans hk) ▸ not_le.mp hle
      obtain ⟨hleads, hnext⟩ :=
        leads_processQueuedUpdates meanwhile hdrop hsettled.idle
      exact ⟨Leads.trans (r := (s, [.arrives update])) hleads, hnext⟩

end

/-- `GroupCall::enqueueUpdate`, of what arrives with what arrives meanwhile. -/
def take (s : GroupCall Call Participant)
    (arrival : GroupCallUpdate Call Participant × List (List (GroupCallUpdate Call Participant))) :
    GroupCall Call Participant × List (GroupCallEvent Call Participant) :=
  s.enqueueUpdate arrival.1 arrival.2

/-- **A group call that is loaded**, with nothing in its queue whose turn has come. -/
structure Loaded (s : GroupCall Call Participant) : Prop extends s.Settled where
  positive : 0 < s.version
  keyed : ∀ key update, (key, update) ∈ s.queuedUpdates → update.key = some key

/-- What arrived before: the queue. -/
def before (s : GroupCall Call Participant) : List (GroupCallEvent Call Participant) :=
  s.queuedUpdates.entries.map fun entry => .arrives entry.2

theorem Loaded.ordered (h : s.Loaded) :
    Ordered s.version none s.before s.version s.queuedUpdates where
  positive := h.positive
  le_version := le_refl _
  versions := by
    rw [versionsUpTo, sub_self, before, List.filterMap_map]
    exact List.filterMap_eq_nil_iff.mpr fun _ _ => rfl
  turn v u hu := by simp [before] at hu
  arrived v u hu := by simp [before] at hu
  queue k u hu := ⟨h.keyed k u hu, List.mem_map.mpr ⟨(k, u), hu, rfl⟩⟩
  kept u k hu hk := by
    obtain ⟨⟨k', u'⟩, hmem, heq⟩ := List.mem_map.mp hu
    obtain rfl : u' = u := by simpa using heq
    obtain rfl := Option.some.inj ((h.keyed k' u' hmem).symm.trans hk)
    exact Or.inr (Or.inl hmem)

theorem Loaded.run (h : s.Loaded) (arrivals : List (GroupCallUpdate Call Participant ×
    List (List (GroupCallUpdate Call Participant)))) :
    Leads s.version s.before (run take s arrivals) ∧ (run take s arrivals).1.Settled := by
  induction arrivals using List.reverseRecOn with
  | nil => exact ⟨leads_refl h.ordered, h.toSettled⟩
  | append_singleton arrivals arrival ih =>
    obtain ⟨hleads, hsettled⟩ := ih
    rw [run_concat]
    exact (leads_enqueueUpdate arrival.2 hleads hsettled arrival.1).imp_left Leads.trans

end GroupCall

variable {s : GroupCall Call Participant}

/-- A call that was loaded with version 2. -/
def loadedCall : GroupCall Unit Unit := ⟨2, .empty, false, false⟩

/-- An update of a participant. -/
def participantUpdate (version : ℤ) (isVersioned : Bool) : GroupCallUpdate Unit Unit :=
  .groupCallParticipants version [⟨isVersioned, ()⟩]

end Yunogram
