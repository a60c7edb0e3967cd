import Mathlib
import Yunogram.Data.GroupCallSsrcs

/-!
# Data/GroupCallSsrcMap — what the map of the source numbers of a group call says

An entry of the map is always of a participant that has the number now (`Inv`), whatever comes in
whatever order: so a participant that spoke is always found.

That every number is mapped is another thing.  With numbers that are all different it holds as long
as no one gets as the main number what was the additional one until then: the new main number is not
put to the map, for it is there, and then it is erased as the additional one that was
(`ssrcs_mapped`).
-/

open Machinery

namespace Yunogram.Speaking

variable {Peer : Type}

section

/-! ## The map -/

variable {map : FlatMap ℕ Peer} {peer q : Peer} {k was now : ℕ}

theorem emplaceSsrc_some (h : (emplaceSsrc now peer map).find? k = some q) :
    map.find? k = some q ∨ (k = now ∧ q = peer) := by
  unfold emplaceSsrc at h
  split_ifs at h with hnow
  · cases hfound : map.find? now with
    | none =>
      rw [FlatMap.find?_emplace_of_none hfound] at h
      split_ifs at h with hk
      · exact Or.inr ⟨hk, (Option.some.inj h).symm⟩
      · exact Or.inl h
    | some other =>
      rw [FlatMap.emplace_of_contains hfound] at h
      exact Or.inl h
  · exact Or.inl h

/-- What is in the map stays there. -/
theorem emplaceSsrc_keeps (h : map.find? k = some q) :
    (emplaceSsrc now peer map).find? k = some q := by
  unfold emplaceSsrc
  split_ifs with hnow
  · rw [FlatMap.find?_emplace]
    split_ifs with hk
    · rw [← hk, h, Option.getD_some]
    · exact h
  · exact h

theorem emplaceSsrc_new (hnow : now ≠ 0) (h : map.find? now = none) :
    (emplaceSsrc now peer map).find? now = some peer := by
  rw [emplaceSsrc, if_pos hnow, FlatMap.find?_emplace_of_none h, if_pos rfl]

theorem replaceSsrc_some (h : (replaceSsrc was now peer map).find? k = some q) :
    (map.find? k = some q ∧ (k = was → was = now)) ∨ (k = now ∧ q = peer) := by
  unfold replaceSsrc at h
  split_ifs at h with hne
  · refine (emplaceSsrc_some h).imp_left fun h => ?_
    rw [FlatMap.find?_erase] at h
    split_ifs at h with hk
    exact ⟨h, fun heq => absurd heq hk⟩
  · exact Or.inl ⟨h, fun _ => not_not.mp hne⟩

theorem replaceSsrc_keeps (h : map.find? k = some q) (hk : k = was → was = now) :
    (replaceSsrc was now peer map).find? k = some q := by
  unfold replaceSsrc
  split_ifs with hne
  · refine emplaceSsrc_keeps ?_
    rw [FlatMap.find?_erase, if_neg fun heq => hne (hk heq)]
    exact h
  · exact h

theorem replaceSsrc_new (hne : was ≠ now) (hnow : now ≠ 0) (h : map.find? now = none) :
    (replaceSsrc was now peer map).find? now = some peer := by
  rw [replaceSsrc, if_pos hne]
  refine emplaceSsrc_new hnow ?_
  rw [FlatMap.find?_erase, if_neg hne.symm]
  exact h

theorem replaceSsrc_was (hne : was ≠ now) : (replaceSsrc was now peer map).find? was = none := by
  cases h : (replaceSsrc was now peer map).find? was with
  | none => rfl
  | some q =>
    rcases replaceSsrc_some h with ⟨-, heq⟩ | ⟨heq, -⟩
    · exact absurd (heq rfl) hne
    · exact absurd heq hne

end

/-! ## Participants of a list -/

namespace Participant

variable {value p q : Participant Peer} {l : List (Participant Peer)}

theorem eq_of_peer (hnodup : (l.map (·.peer)).Nodup) (hp : p ∈ l) (hq : q ∈ l)
    (h : p.peer = q.peer) : p = q :=
  List.inj_on_of_nodup_map hnodup hp hq h

variable [LinearOrder Peer]

theorem map_peer_replace (value : Participant Peer) (l : List (Participant Peer)) :
    (replace value l).map (·.peer) = l.map (·.peer) := by
  induction l with
  | nil => rfl
  | cons p l ih =>
    rw [replace]
    split_ifs with h
    · rw [List.map_cons, List.map_cons, h]
    · rw [List.map_cons, List.map_cons, ih]

/-- **One participant becomes another**, and all others stay. -/
theorem mem_replace (hnodup : (l.map (·.peer)).Nodup) :
    q ∈ replace value l ↔
      (q = value ∧ ∃ p ∈ l, p.peer = value.peer) ∨ (q ∈ l ∧ q.peer ≠ value.peer) := by
  induction l with
  | nil => simp [replace]
  | cons p l ih =>
    obtain ⟨hp, hnodup⟩ := List.nodup_cons.mp hnodup
    rw [replace]
    split_ifs with h
    · rw [List.mem_cons]
      constructor
      · rintro (rfl | hq)
        · exact Or.inl ⟨rfl, p, List.mem_cons_self, h⟩
        · refine Or.inr ⟨List.mem_cons_of_mem _ hq, fun hpeer => hp ?_⟩
          exact List.mem_map.mpr ⟨q, hq, hpeer.trans h.symm⟩
      · rintro (⟨rfl, -⟩ | ⟨hq, hpeer⟩)
        · exact Or.inl rfl
        · rcases List.mem_cons.mp hq with rfl | hq
          · exact absurd h hpeer
          · exact Or.inr hq
    · rw [List.mem_cons, ih hnodup]
      constructor
      · rintro (rfl | ⟨rfl, r, hr, hpeer⟩ | ⟨hq, hpeer⟩)
        · exact Or.inr ⟨List.mem_cons_self, h⟩
        · exact Or.inl ⟨rfl, r, List.mem_cons_of_mem _ hr, hpeer⟩
        · exact Or.inr ⟨List.mem_cons_of_mem _ hq, hpeer⟩
      · rintro (⟨rfl, r, hr, hpeer⟩ | ⟨hq, hpeer⟩)
        · rcases List.mem_cons.mp hr with rfl | hr
          · exact absurd hpeer h
          · exact Or.inr (Or.inl ⟨rfl, r, hr, hpeer⟩)
        · rcases List.mem_cons.mp hq with rfl | hq
          · exact Or.inl rfl
          · exact Or.inr (Or.inr ⟨hq, hpeer⟩)

/-- One participant leaves, and all others stay. -/
theorem mem_eraseP {peer : Peer} (hnodup : (l.map (·.peer)).Nodup) :
    q ∈ l.eraseP (·.peer = peer) ↔ q ∈ l ∧ q.peer ≠ peer := by
  induction l with
  | nil => simp
  | cons p l ih =>
    obtain ⟨hp, hnodup⟩ := List.nodup_cons.mp hnodup
    by_cases h : p.peer = peer
    · rw [List.eraseP_cons, decide_eq_true h, cond_true]
      constructor
      · intro hq
        refine ⟨List.mem_cons_of_mem _ hq, fun hpeer => hp ?_⟩
        exact List.mem_map.mpr ⟨q, hq, hpeer.trans h.symm⟩
      · rintro ⟨hq, hpeer⟩
        rcases List.mem_cons.mp hq with rfl | hq
        · exact absurd h hpeer
        · exact hq
    · rw [List.eraseP_cons, decide_eq_false h, cond_false, List.mem_cons, ih hnodup, List.mem_cons]
      constructor
      · rintro (rfl | ⟨hq, hpeer⟩)
        · exact ⟨Or.inl rfl, h⟩
        · exact ⟨Or.inr hq, hpeer⟩
      · rintro ⟨rfl | hq, hpeer⟩
        · exact Or.inl rfl
        · exact Or.inr ⟨hq, hpeer⟩

end Participant

/-! ## What always is so -/

/-- An entry of the map is of a participant that has the number now. -/
def Owned (participants : List (Participant Peer)) (map : FlatMap ℕ Peer) : Prop :=
  ∀ ssrc peer, map.find? ssrc = some peer → ∃ p ∈ participants, p.peer = peer ∧ p.Has ssrc

/-- A participant that has the numbers it had. -/
structure SameSsrcs (was now : Participant Peer) : Prop where
  peer : now.peer = was.peer
  ssrc : now.ssrc = was.ssrc
  additional : now.additionalSsrc = was.additionalSsrc

theorem SameSsrcs.has {was now : Participant Peer} (h : SameSsrcs was now) (ssrc : ℕ) :
    now.Has ssrc ↔ was.Has ssrc := by
  rw [Participant.Has, Participant.Has, h.ssrc, h.additional]

variable [LinearOrder Peer]

/-- **What is so of a group call**, whatever came. -/
structure Inv (s : GroupCall Peer) : Prop where
  nodup : (s.participants.map (·.peer)).Nodup
  owned : Owned s.participants s.participantPeerByAudioSsrc
  speaking : ∀ peer ∈ s.speakingByActiveFinishes.keys, ∃ p ∈ s.participants, p.peer = peer

variable {s s' : GroupCall Peer} {p value : Participant Peer} {peer : Peer}

theorem findParticipant_some (h : s.findParticipant peer = some p) :
    p ∈ s.participants ∧ p.peer = peer :=
  ⟨List.mem_of_find?_eq_some h, by simpa using List.find?_some h⟩

theorem findParticipant_none (h : s.findParticipant peer = none) :
    ∀ p ∈ s.participants, p.peer ≠ peer := fun p hp => by
  simpa using List.find?_eq_none.mp h p hp

theorem findParticipant_exists (h : ∃ p ∈ s.participants, p.peer = peer) :
    ∃ p, s.findParticipant peer = some p := by
  cases hfound : s.findParticipant peer with
  | some p => exact ⟨p, rfl⟩
  | none =>
    obtain ⟨p, hp, hpeer⟩ := h
    exact absurd hpeer (findParticipant_none hfound p hp)

theorem exists_replace (hnodup : (s.participants.map (·.peer)).Nodup)
    (hp : ∃ p ∈ s.participants, p.peer = value.peer)
    (h : ∃ p ∈ s.participants, p.peer = peer) :
    ∃ p ∈ Participant.replace value s.participants, p.peer = peer := by
  obtain ⟨q, hq, hpeer⟩ := h
  by_cases hsame : q.peer = value.peer
  · exact ⟨value, (Participant.mem_replace hnodup).mpr (Or.inl ⟨rfl, hp⟩), hsame.symm.trans hpeer⟩
  · exact ⟨q, (Participant.mem_replace hnodup).mpr (Or.inr ⟨hq, hsame⟩), hpeer⟩

/-- **A participant that keeps its numbers may change.** -/
theorem Inv.replace (h : Inv s) (hp : p ∈ s.participants) (hsame : SameSsrcs p value)
    (hparticipants : s'.participants = Participant.replace value s.participants)
    (hmap : s'.participantPeerByAudioSsrc = s.participantPeerByAudioSsrc)
    (hkeys : ∀ peer ∈ s'.speakingByActiveFinishes.keys,
      peer ∈ s.speakingByActiveFinishes.keys ∨ peer = p.peer) : Inv s' where
  nodup := by
    rw [hparticipants, Participant.map_peer_replace]
    exact h.nodup
  owned := by
    intro ssrc peer hfound
    rw [hmap] at hfound
    obtain ⟨q, hq, hpeer, hhas⟩ := h.owned ssrc peer hfound
    rw [hparticipants]
    by_cases heq : q.peer = value.peer
    · obtain rfl := Participant.eq_of_peer h.nodup hq hp (heq.trans hsame.peer)
      exact ⟨value, (Participant.mem_replace h.nodup).mpr (Or.inl ⟨rfl, q, hq, heq⟩),
        hsame.peer.trans hpeer, (hsame.has ssrc).mpr hhas⟩
    · exact ⟨q, (Participant.mem_replace h.nodup).mpr (Or.inr ⟨hq, heq⟩), hpeer, hhas⟩
  speaking := by
    intro peer hpeer
    rw [hparticipants]
    refine exists_replace h.nodup ⟨p, hp, hsame.peer.symm⟩ ?_
    rcases hkeys peer hpeer with hold | rfl
    · exact h.speaking peer hold
    · exact ⟨p, hp, rfl⟩

/-- **A participant that leaves takes its numbers out of the map.** -/
theorem Inv.leave (h : Inv s) (hp : p ∈ s.participants) : Inv (s.leave p) where
  nodup := h.nodup.sublist (List.eraseP_sublist.map _)
  owned := by
    intro ssrc peer hssrc
    dsimp only [GroupCall.leave] at hssrc ⊢
    rw [FlatMap.find?_erase, FlatMap.find?_erase] at hssrc
    split_ifs at hssrc with hadditional hmain
    obtain ⟨q, hq, hpeer, hhas⟩ := h.owned ssrc peer hssrc
    refine ⟨q, (Participant.mem_eraseP h.nodup).mpr ⟨hq, fun heq => ?_⟩, hpeer, hhas⟩
    obtain rfl := Participant.eq_of_peer h.nodup hq hp heq
    exact hhas.elim (fun heq => hmain heq.symm) fun heq => hadditional heq.symm
  speaking := by
    intro peer hpeer
    obtain ⟨when', hwhen⟩ := FlatMap.mem_keys.mp hpeer
    dsimp only [GroupCall.leave] at hwhen ⊢
    rw [FlatMap.find?_erase] at hwhen
    split_ifs at hwhen with hne
    obtain ⟨q, hq, heq⟩ := h.speaking peer (FlatMap.mem_keys.mpr ⟨when', hwhen⟩)
    refine ⟨q, (Participant.mem_eraseP h.nodup).mpr ⟨hq, fun hsame => ?_⟩, heq⟩
    exact hne (heq.symm.trans hsame)

/-- **A participant that joins puts its numbers to the map**, those that are not there. -/
theorem Inv.join (h : Inv s) (hnew : ∀ p ∈ s.participants, p.peer ≠ value.peer) :
    Inv (s.join value) where
  nodup := by
    dsimp only [GroupCall.join]
    rw [List.map_append, List.map_singleton, List.nodup_append]
    refine ⟨h.nodup, List.nodup_singleton _, fun peer hpeer other hother => ?_⟩
    obtain ⟨p, hp, rfl⟩ := List.mem_map.mp hpeer
    rw [List.mem_singleton.mp hother]
    exact hnew p hp
  owned := by
    intro ssrc peer hssrc
    have hvalue : value ∈ s.participants ++ [value] :=
      List.mem_append_right _ List.mem_cons_self
    rcases emplaceSsrc_some hssrc with hssrc | ⟨rfl, rfl⟩
    · rcases emplaceSsrc_some hssrc with hssrc | ⟨rfl, rfl⟩
      · obtain ⟨p, hp, hpeer, hhas⟩ := h.owned ssrc peer hssrc
        exact ⟨p, List.mem_append_left _ hp, hpeer, hhas⟩
      · exact ⟨value, hvalue, rfl, Or.inl rfl⟩
    · exact ⟨value, hvalue, rfl, Or.inr rfl⟩
  speaking := by
    intro peer hpeer
    obtain ⟨p, hp, heq⟩ := h.speaking peer hpeer
    exact ⟨p, List.mem_append_left _ hp, heq⟩

/-- **A participant that changes changes its numbers in the map.** -/
theorem Inv.change (h : Inv s) (hp : p ∈ s.participants) (hpeer : value.peer = p.peer) :
    Inv (s.change p value) where
  nodup := by
    dsimp only [GroupCall.change]
    rw [Participant.map_peer_replace]
    exact h.nodup
  owned := by
    intro ssrc peer hssrc
    have hvalue : value ∈ Participant.replace value s.participants :=
      (Participant.mem_replace h.nodup).mpr (Or.inl ⟨rfl, p, hp, hpeer.symm⟩)
    rcases replaceSsrc_some hssrc with ⟨hssrc, hadditional⟩ | ⟨rfl, rfl⟩
    · rcases replaceSsrc_some hssrc with ⟨hssrc, hmain⟩ | ⟨rfl, rfl⟩
      · obtain ⟨q, hq, hqpeer, hhas⟩ := h.owned ssrc peer hssrc
        by_cases heq : q.peer = value.peer
        · obtain rfl := Participant.eq_of_peer h.nodup hq hp (heq.trans hpeer)
          refine ⟨value, hvalue, heq.symm.trans hqpeer, ?_⟩
          rcases hhas with hhas | hhas
          · exact Or.inl ((hmain hhas.symm).symm.trans hhas)
          · exact Or.inr ((hadditional hhas.symm).symm.trans hhas)
        · exact ⟨q, (Participant.mem_replace h.nodup).mpr (Or.inr ⟨hq, heq⟩), hqpeer, hhas⟩
      · exact ⟨value, hvalue, rfl, Or.inl rfl⟩
    · exact ⟨value, hvalue, rfl, Or.inr rfl⟩
  speaking := by
    intro peer hspeaks
    exact exists_replace h.nodup ⟨p, hp, hpeer.symm⟩ (h.speaking peer hspeaks)

theorem Inv.count (h : Inv s) (n : ℤ) : Inv { s with serverParticipantsCount := n } :=
  ⟨h.nodup, h.owned, h.speaking⟩

variable {source : ApplySliceSource} {data : ParticipantData Peer}

/-- What a step does to participants and the map, when data of one comes. -/
inductive Applied (s : GroupCall Peer) (source : ApplySliceSource) (data : ParticipantData Peer) :
    GroupCall Peer → Prop
  | unknown (hleft : data.left = true) : Applied s source data s
  | leave (p : Participant Peer) (hleft : data.left = true) (hp : p ∈ s.participants)
      (hpeer : p.peer = data.peer) : Applied s source data (s.leave p)
  | join (hleft : data.left = false) (hnew : ∀ p ∈ s.participants, p.peer ≠ data.peer) :
      Applied s source data (s.join (Participant.value source data none))
  | change (p : Participant Peer) (hleft : data.left = false) (hp : p ∈ s.participants)
      (hpeer : p.peer = data.peer) :
      Applied s source data (s.change p (Participant.value source data (some p)))

/-- **What data of a participant does**: it leaves, joins or changes, and the count with it. -/
theorem applyParticipant_applied (s : GroupCall Peer) (source : ApplySliceSource)
    (data : ParticipantData Peer) : ∃ s₁ n, Applied s source data s₁ ∧
      s.applyParticipant source data = { s₁ with serverParticipantsCount := n } := by
  unfold GroupCall.applyParticipant
  dsimp only
  by_cases hleft : data.left = true
  · rw [if_pos hleft]
    cases hfound : s.findParticipant data.peer with
    | none => exact ⟨s, _, .unknown hleft, rfl⟩
    | some p =>
      obtain ⟨hp, hpeer⟩ := findParticipant_some hfound
      exact ⟨s.leave p, _, .leave p hleft hp hpeer, rfl⟩
  · rw [if_neg hleft]
    have hstays : data.left = false := Bool.not_eq_true _ ▸ hleft
    cases hfound : s.findParticipant data.peer with
    | none => exact ⟨_, _, .join hstays (findParticipant_none hfound), rfl⟩
    | some p =>
      obtain ⟨hp, hpeer⟩ := findParticipant_some hfound
      exact ⟨_, _, .change p hstays hp hpeer, rfl⟩

theorem Inv.applied (h : Inv s) (happlied : Applied s source data s') : Inv s' := by
  cases happlied with
  | unknown hleft => exact h
  | leave p hleft hp hpeer => exact h.leave hp
  | join hleft hnew => exact h.join hnew
  | change p hleft hp hpeer => exact h.change hp hpeer.symm

/-! ## Who speaks -/

/-- Participants that have the numbers they had, and the map as it was. -/
structure Keeps (s s' : GroupCall Peer) : Prop where
  map : s'.participantPeerByAudioSsrc = s.participantPeerByAudioSsrc
  participants : ∀ q ∈ s'.participants, ∃ p ∈ s.participants, SameSsrcs p q

theorem Keeps.refl (s : GroupCall Peer) : Keeps s s := ⟨rfl, fun q hq => ⟨q, hq, rfl, rfl, rfl⟩⟩

theorem Keeps.trans {s'' : GroupCall Peer} (h : Keeps s s') (h' : Keeps s' s'') : Keeps s s'' := by
  refine ⟨h'.map.trans h.map, fun r hr => ?_⟩
  obtain ⟨q, hq, hqr⟩ := h'.participants r hr
  obtain ⟨p, hp, hpq⟩ := h.participants q hq
  exact ⟨p, hp, hqr.peer.trans hpq.peer, hqr.ssrc.trans hpq.ssrc,
    hqr.additional.trans hpq.additional⟩

theorem Inv.keeps_replace (h : Inv s) (hp : p ∈ s.participants) (hsame : SameSsrcs p value)
    (hparticipants : s'.participants = Participant.replace value s.participants)
    (hmap : s'.participantPeerByAudioSsrc = s.participantPeerByAudioSsrc) : Keeps s s' := by
  refine ⟨hmap, fun q hq => ?_⟩
  rw [hparticipants, Participant.mem_replace h.nodup] at hq
  rcases hq with ⟨rfl, -⟩ | ⟨hq, -⟩
  · exact ⟨p, hp, hsame⟩
  · exact ⟨q, hq, rfl, rfl, rfl⟩

/-- A key that is left after a filter was there. -/
theorem mem_keys_filter {map : FlatMap Peer ℤ} {f : Peer → ℤ → Bool}
    (h : peer ∈ (map.filter f).keys) : peer ∈ map.keys := by
  obtain ⟨when', hwhen⟩ := FlatMap.mem_keys.mp h
  have hentry := FlatMap.find?_eq_some.mp hwhen
  exact FlatMap.mem_keys.mpr ⟨when', FlatMap.find?_eq_some.mpr (List.mem_filter.mp hentry).1⟩

/-- **Whoever spoke is a participant.** -/
theorem Inv.applyLastSpoke (h : Inv s) (ssrc : ℕ) (when' : LastSpokeTimes) (now : ℤ) :
    ∃ s', s.applyLastSpoke ssrc when' now = some s' ∧ Inv s' ∧ Keeps s s' := by
  unfold GroupCall.applyLastSpoke
  cases hfound : s.participantPeerByAudioSsrc.find? ssrc with
  | none => exact ⟨s, rfl, h, Keeps.refl s⟩
  | some peer =>
    obtain ⟨owner, howner, hpeer, -⟩ := h.owned ssrc peer hfound
    obtain ⟨participant, hparticipant⟩ := findParticipant_exists ⟨owner, howner, hpeer⟩
    obtain ⟨hmem, -⟩ := findParticipant_some hparticipant
    dsimp only
    rw [hparticipant]
    refine ⟨_, rfl, ?_, ?_⟩
    · refine h.replace hmem ?_ rfl rfl fun peer hkey => Or.inl (mem_keys_filter hkey)
      split_ifs <;> exact ⟨rfl, rfl, rfl⟩
    · refine h.keeps_replace hmem ?_ rfl rfl
      split_ifs <;> exact ⟨rfl, rfl, rfl⟩

/-- **Whoever is active is a participant that speaks.** -/
theorem Inv.applyActiveUpdate (h : Inv s) (inCall : Bool) (when' : LastSpokeTimes)
    (participantPeerLoaded : Option Peer) (now unixtime : ℤ) :
    Inv (s.applyActiveUpdate inCall when' participantPeerLoaded now unixtime) ∧
      Keeps s (s.applyActiveUpdate inCall when' participantPeerLoaded now unixtime) := by
  unfold GroupCall.applyActiveUpdate
  split_ifs with hcall
  · exact ⟨h, Keeps.refl s⟩
  · split
    · exact ⟨h, Keeps.refl s⟩
    · next participant hfound =>
      obtain ⟨peer, -, hparticipant⟩ := Option.bind_eq_some_iff.mp hfound
      obtain ⟨hmem, -⟩ := findParticipant_some hparticipant
      dsimp only
      split_ifs
      · exact ⟨h, Keeps.refl s⟩
      · exact ⟨h, Keeps.refl s⟩
      · have hsame : SameSsrcs participant { participant with
            lastActive := unixtime - (now - when'.anything).tdiv 1000
            speaking := true
            canSelfUnmute := true } := ⟨rfl, rfl, rfl⟩
        refine ⟨h.replace hmem hsame rfl rfl fun peer hkey => ?_,
          h.keeps_replace hmem hsame rfl rfl⟩
        obtain ⟨finishes, hfinishes⟩ := FlatMap.mem_keys.mp hkey
        dsimp only at hfinishes
        rw [FlatMap.find?_assign] at hfinishes
        split_ifs at hfinishes with heq
        · exact Or.inr heq
        · exact Or.inl (FlatMap.mem_keys.mpr ⟨finishes, hfinishes⟩)

theorem Inv.stopSpeaking (h : Inv s) (hpeer : ∃ p ∈ s.participants, p.peer = peer) :
    ∃ s', s.stopSpeaking peer = some s' ∧ Inv s' ∧ Keeps s s' ∧
      s'.participants.map (·.peer) = s.participants.map (·.peer) := by
  obtain ⟨participant, hparticipant⟩ := findParticipant_exists hpeer
  obtain ⟨hmem, -⟩ := findParticipant_some hparticipant
  have hsame : SameSsrcs participant { participant with speaking := false } := ⟨rfl, rfl, rfl⟩
  rw [GroupCall.stopSpeaking, hparticipant]
  exact ⟨_, rfl, h.replace hmem hsame rfl rfl fun peer hkey => Or.inl hkey,
    h.keeps_replace hmem hsame rfl rfl, Participant.map_peer_replace _ _⟩

theorem Inv.stopAll (h : Inv s) (stop : List Peer)
    (hstop : ∀ peer ∈ stop, peer ∈ s.participants.map (·.peer)) :
    ∃ s', stop.foldlM GroupCall.stopSpeaking s = some s' ∧ Inv s' ∧ Keeps s s' := by
  induction stop generalizing s with
  | nil => exact ⟨s, rfl, h, Keeps.refl s⟩
  | cons peer stop ih =>
    obtain ⟨s₁, hs₁, h₁, hkeeps₁, hpeers₁⟩ :=
      h.stopSpeaking (List.mem_map.mp (hstop peer List.mem_cons_self))
    obtain ⟨s', hs', h', hkeeps'⟩ := ih h₁ fun peer hpeer => by
      rw [hpeers₁]
      exact hstop peer (List.mem_cons_of_mem _ hpeer)
    rw [List.foldlM_cons, hs₁]
    exact ⟨s', hs', h', hkeeps₁.trans hkeeps'⟩

/-- **Whoever is to stop speaking is a participant.** -/
theorem Inv.checkFinishSpeakingByActive (h : Inv s) (now : ℤ) :
    ∃ s', s.checkFinishSpeakingByActive now = some s' ∧ Inv s' ∧ Keeps s s' := by
  have hstart : Inv { s with speakingByActiveFinishes :=
      s.speakingByActiveFinishes.filter fun _ when' => now < when' } :=
    ⟨h.nodup, h.owned, fun peer hpeer => h.speaking peer (mem_keys_filter hpeer)⟩
  have hstop : ∀ peer ∈ (s.speakingByActiveFinishes.entries.filter (·.2 ≤ now)).map Prod.fst,
      peer ∈ s.participants.map (·.peer) := by
    intro peer hpeer
    obtain ⟨entry, hentry, rfl⟩ := List.mem_map.mp hpeer
    have hkey : entry.1 ∈ s.speakingByActiveFinishes.keys := FlatMap.mem_keys.mpr
      ⟨entry.2, FlatMap.find?_eq_some.mpr (List.mem_filter.mp hentry).1⟩
    exact List.mem_map.mpr (h.speaking entry.1 hkey)
  obtain ⟨s', hs', h', hkeeps⟩ := hstart.stopAll _ hstop
  exact ⟨s', hs', h', hkeeps.map, hkeeps.participants⟩

theorem Inv.setInCall (h : Inv s) (now : ℤ) : Inv (s.setInCall now) := by
  refine ⟨h.nodup, h.owned, fun peer hpeer => h.speaking peer ?_⟩
  obtain ⟨when', hwhen⟩ := FlatMap.mem_keys.mp hpeer
  dsimp only [GroupCall.setInCall] at hwhen
  rw [FlatMap.find?_mapValues] at hwhen
  obtain ⟨old, hold, -⟩ := Option.map_eq_some_iff.mp hwhen
  exact FlatMap.mem_keys.mpr ⟨old, hold⟩

theorem Inv.clear (s : GroupCall Peer) : Inv s.clear :=
  ⟨List.nodup_nil, fun ssrc peer hfound => absurd hfound (by simp [GroupCall.clear]),
    fun peer hpeer => absurd hpeer List.not_mem_nil⟩

/-! ## Numbers that are mapped -/

/-- **The numbers that there are, are all different.** -/
structure Distinct (s : GroupCall Peer) : Prop where
  own : ∀ p ∈ s.participants, p.ssrc ≠ 0 → p.ssrc ≠ p.additionalSsrc
  others : ∀ p ∈ s.participants, ∀ q ∈ s.participants, p.peer ≠ q.peer → ∀ ssrc ≠ 0, p.Has ssrc →
    ¬q.Has ssrc

/-- **Every number that there is, is mapped** to who has it. -/
def Mapped (s : GroupCall Peer) : Prop :=
  ∀ p ∈ s.participants, ∀ ssrc ≠ 0, p.Has ssrc →
    s.participantPeerByAudioSsrc.find? ssrc = some p.peer

/-- A participant gets as its main number what was its additional one until then. -/
def Swaps (s : GroupCall Peer) (data : ParticipantData Peer) : Prop :=
  data.left = false ∧ data.source ≠ 0 ∧
    ∃ p ∈ s.participants, p.peer = data.peer ∧ p.additionalSsrc = data.source

theorem Mapped.keeps (h : Mapped s) (hkeeps : Keeps s s') : Mapped s' := by
  intro q hq ssrc hne hhas
  obtain ⟨p, hp, hsame⟩ := hkeeps.participants q hq
  rw [hkeeps.map, hsame.peer]
  exact h p hp ssrc hne ((hsame.has ssrc).mp hhas)

theorem Mapped.leave (h : Mapped s) (hi : Inv s) (hd : Distinct s) (hp : p ∈ s.participants) :
    Mapped (s.leave p) := by
  intro q hq ssrc hne hhas
  obtain ⟨hq, hpeer⟩ := (Participant.mem_eraseP hi.nodup).mp hq
  have hother : ¬p.Has ssrc := hd.others q hq p hp hpeer ssrc hne hhas
  dsimp only [GroupCall.leave]
  rw [FlatMap.find?_erase, if_neg fun heq => hother (Or.inr heq.symm), FlatMap.find?_erase,
    if_neg fun heq => hother (Or.inl heq.symm)]
  exact h q hq ssrc hne hhas

/-- **A number that no one else has is not in the map.** -/
theorem Inv.find?_none (h : Inv s) {ssrc : ℕ} (hnone : ∀ p ∈ s.participants, ¬p.Has ssrc) :
    s.participantPeerByAudioSsrc.find? ssrc = none := by
  cases hfound : s.participantPeerByAudioSsrc.find? ssrc with
  | none => rfl
  | some peer =>
    obtain ⟨p, hp, -, hhas⟩ := h.owned ssrc peer hfound
    exact absurd hhas (hnone p hp)

/-- **Who joins with numbers that no one has, is mapped.** -/
theorem Mapped.join (h : Mapped s) (hi : Inv s) (hnew : ∀ p ∈ s.participants, p.peer ≠ value.peer)
    (hd : Distinct (s.join value)) : Mapped (s.join value) := by
  have hvalue : value ∈ (s.join value).participants :=
    List.mem_append_right _ List.mem_cons_self
  have hfree : ∀ ssrc ≠ 0, value.Has ssrc → s.participantPeerByAudioSsrc.find? ssrc = none :=
    fun ssrc hne hhas => hi.find?_none fun p hp =>
      hd.others value hvalue p (List.mem_append_left _ hp) (hnew p hp).symm ssrc hne hhas
  intro q hq ssrc hne hhas
  rcases List.mem_append.mp hq with hq | hq
  · exact emplaceSsrc_keeps (emplaceSsrc_keeps (h q hq ssrc hne hhas))
  · obtain rfl := List.mem_singleton.mp hq
    rcases hhas with rfl | rfl
    · exact emplaceSsrc_keeps (emplaceSsrc_new hne (hfree _ hne (Or.inl rfl)))
    · refine emplaceSsrc_new hne ?_
      cases hfound : (emplaceSsrc q.ssrc q.peer s.participantPeerByAudioSsrc).find?
          q.additionalSsrc with
      | none => rfl
      | some other =>
        rcases emplaceSsrc_some hfound with hfound | ⟨heq, -⟩
        · rw [hfree _ hne (Or.inr rfl)] at hfound
          exact nomatch hfound
        · exact absurd heq.symm (hd.own q hvalue (heq ▸ hne))

/-- **Who changes to numbers that no one else has, stays mapped**, unless the main number is the
additional one until then. -/
theorem Mapped.change (h : Mapped s) (hi : Inv s) (hd : Distinct s) (hp : p ∈ s.participants)
    (hpeer : value.peer = p.peer) (hd' : Distinct (s.change p value))
    (hno : value.ssrc ≠ 0 → p.additionalSsrc ≠ value.ssrc) : Mapped (s.change p value) := by
  have hmem : ∀ q, q ∈ (s.change p value).participants ↔
      (q = value ∧ ∃ p ∈ s.participants, p.peer = value.peer) ∨
        (q ∈ s.participants ∧ q.peer ≠ value.peer) := fun q => Participant.mem_replace hi.nodup
  have hvalue := (hmem value).mpr (Or.inl ⟨rfl, p, hp, hpeer.symm⟩)
  -- A number of the new ones is free, or it was one of the participant's own.
  have hfree : ∀ ssrc ≠ 0, value.Has ssrc → ¬p.Has ssrc →
      s.participantPeerByAudioSsrc.find? ssrc = none := by
    intro ssrc hne hhas hnot
    refine hi.find?_none fun q hq hq' => ?_
    by_cases heq : q.peer = value.peer
    · obtain rfl := Participant.eq_of_peer hi.nodup hq hp (heq.trans hpeer)
      exact hnot hq'
    · exact hd'.others value hvalue q ((hmem q).mpr (Or.inr ⟨hq, heq⟩)) (Ne.symm heq) ssrc hne hhas
        hq'
  have hown := hd.own p hp
  have hown' := hd'.own value hvalue
  intro q hq ssrc hne hhas
  rcases (hmem q).mp hq with ⟨rfl, -⟩ | ⟨hq, heq⟩
  · rcases hhas with rfl | rfl
    · have hmain : (replaceSsrc p.ssrc q.ssrc q.peer s.participantPeerByAudioSsrc).find? q.ssrc
          = some q.peer := by
        by_cases hsame : p.ssrc = q.ssrc
        · refine replaceSsrc_keeps ?_ fun _ => hsame
          rw [hpeer]
          exact h p hp _ hne (Or.inl hsame)
        · exact replaceSsrc_new hsame hne (hfree _ hne (Or.inl rfl)
            fun hhas => hhas.elim hsame (hno hne))
      exact replaceSsrc_keeps hmain fun heq => absurd heq.symm (hno hne)
    · by_cases hsame : p.additionalSsrc = q.additionalSsrc
      · refine replaceSsrc_keeps (replaceSsrc_keeps ?_ fun heq => ?_) fun _ => hsame
        · rw [hpeer]
          exact h p hp _ hne (Or.inr hsame)
        · exact absurd (heq.symm.trans hsame.symm) (hown (heq ▸ hne))
      · refine replaceSsrc_new hsame hne ?_
        cases hfound : (replaceSsrc p.ssrc q.ssrc q.peer s.participantPeerByAudioSsrc).find?
            q.additionalSsrc with
        | none => rfl
        | some other =>
          rcases replaceSsrc_some hfound with ⟨hfound, hmain⟩ | ⟨heq, -⟩
          · by_cases hwas : p.ssrc = q.additionalSsrc
            · have hstays := hmain hwas.symm
              exact absurd (hstays.symm.trans hwas) (hown' (hstays ▸ hwas ▸ hne))
            · rw [hfree _ hne (Or.inr rfl) fun hhas => hhas.elim hwas hsame] at hfound
              exact nomatch hfound
          · exact absurd heq.symm (hown' (heq ▸ hne))
  · have hother := fun k (hk : k ≠ 0) (hpk : p.Has k) (hqk : q.Has k) =>
      hd.others p hp q hq (fun hsame => heq (hsame.symm.trans hpeer.symm)) k hk hpk hqk
    refine replaceSsrc_keeps (replaceSsrc_keeps (h q hq ssrc hne hhas) fun hk => ?_) fun hk => ?_
    · exact absurd hhas (hother ssrc hne (Or.inl hk.symm))
    · exact absurd hhas (hother ssrc hne (Or.inr hk.symm))

/-- **The main number that was the additional one is lost.** -/
theorem not_mapped_of_swaps (hp : p ∈ s.participants) (hi : Inv s) (hpeer : value.peer = p.peer)
    (hd' : Distinct (s.change p value)) (hne : value.ssrc ≠ 0)
    (hswaps : p.additionalSsrc = value.ssrc) : ¬Mapped (s.change p value) := by
  have hvalue : value ∈ (s.change p value).participants :=
    (Participant.mem_replace hi.nodup).mpr (Or.inl ⟨rfl, p, hp, hpeer.symm⟩)
  intro hmapped
  have hfound := hmapped value hvalue _ hne (Or.inl rfl)
  have hadditional : p.additionalSsrc ≠ value.additionalSsrc :=
    hswaps ▸ hd'.own value hvalue hne
  dsimp only [GroupCall.change] at hfound
  rw [← hswaps, replaceSsrc_was hadditional] at hfound
  exact nomatch hfound

theorem Applied.not_mapped (h : Applied s source data s') (hi : Inv s) (hswaps : Swaps s data)
    (hd : Distinct s') : ¬Mapped s' := by
  obtain ⟨hstays, hne, q, hq, hqpeer, hadditional⟩ := hswaps
  cases h with
  | unknown hleft => exact absurd (hleft.symm.trans hstays) (by decide)
  | leave p hleft hp hpeer => exact absurd (hleft.symm.trans hstays) (by decide)
  | join hleft hnew => exact absurd hqpeer (hnew q hq)
  | change p hleft hp hpeer =>
    obtain rfl := Participant.eq_of_peer hi.nodup hq hp (hqpeer.trans hpeer.symm)
    exact not_mapped_of_swaps hp hi hpeer.symm hd hne hadditional

/-! ## Runs -/

/-- **What a group call is told.**  A slice is its participants one after the other, and a call that
is reloaded is cleared before. -/
inductive Op (Peer : Type)
  | clear
  | participant (source : ApplySliceSource) (data : ParticipantData Peer)
  | lastSpoke (ssrc : ℕ) (when' : LastSpokeTimes) (now : ℤ)
  | active (inCall : Bool) (when' : LastSpokeTimes) (participantPeerLoaded : Option Peer)
      (now unixtime : ℤ)
  | finish (now : ℤ)
  | setInCall (now : ℤ)

/-- What a group call does; nothing comes of it when a participant is asserted and is not there. -/
def step (s : GroupCall Peer) : Op Peer → Option (GroupCall Peer)
  | .clear => some s.clear
  | .participant source data => some (s.applyParticipant source data)
  | .lastSpoke ssrc when' now => s.applyLastSpoke ssrc when' now
  | .active inCall when' peer now unixtime =>
    some (s.applyActiveUpdate inCall when' peer now unixtime)
  | .finish now => s.checkFinishSpeakingByActive now
  | .setInCall now => some (s.setInCall now)

/-- What becomes of a group call. -/
def runFrom (s : GroupCall Peer) (ops : List (Op Peer)) : Option (GroupCall Peer) :=
  ops.foldlM step s

theorem runFrom_slice (s : GroupCall Peer) (list : List (ParticipantData Peer))
    (source : ApplySliceSource) :
    runFrom s (list.map (.participant source)) = some (s.applyParticipantsSlice list source) := by
  induction list generalizing s with
  | nil => rfl
  | cons data list ih =>
    rw [List.map_cons, runFrom, List.foldlM_cons]
    exact ih (s.applyParticipant source data)

theorem runFrom_fullCall (s : GroupCall Peer) (participants : List (ParticipantData Peer)) :
    runFrom s (.clear :: participants.map (.participant .fullReloaded))
      = some (s.processFullCallFields participants) := by
  rw [runFrom, List.foldlM_cons]
  exact runFrom_slice s.clear participants .fullReloaded

/-- A step at which a participant gets as its main number what was its additional one. -/
def Op.Swaps (s : GroupCall Peer) : Op Peer → Prop
  | .participant _ data => Speaking.Swaps s data
  | _ => False

theorem Inv.step (h : Inv s) (op : Op Peer) : ∃ s', step s op = some s' ∧ Inv s' := by
  cases op with
  | clear => exact ⟨_, rfl, Inv.clear s⟩
  | participant source data =>
    obtain ⟨s₁, n, happlied, heq⟩ := applyParticipant_applied s source data
    refine ⟨_, rfl, ?_⟩
    rw [heq]
    exact (h.applied happlied).count n
  | lastSpoke ssrc when' now =>
    obtain ⟨s', hs', h', -⟩ := h.applyLastSpoke ssrc when' now
    exact ⟨s', hs', h'⟩
  | active inCall when' peer now unixtime =>
    exact ⟨_, rfl, (h.applyActiveUpdate inCall when' peer now unixtime).1⟩
  | finish now =>
    obtain ⟨s', hs', h', -⟩ := h.checkFinishSpeakingByActive now
    exact ⟨s', hs', h'⟩
  | setInCall now => exact ⟨_, rfl, h.setInCall now⟩

/-- **With numbers that are all different, all stay mapped**, unless one is taken that was the
additional one. -/
theorem Mapped.step (h : Mapped s) (hi : Inv s) (hd : Distinct s) {op : Op Peer}
    (hstep : step s op = some s') (hd' : Distinct s') (hno : ¬op.Swaps s) : Mapped s' := by
  cases op with
  | clear =>
    obtain rfl := Option.some.inj hstep
    exact fun p hp => absurd hp List.not_mem_nil
  | participant source data =>
    obtain ⟨s₁, n, happlied, heq⟩ := applyParticipant_applied s source data
    obtain rfl := (Option.some.inj hstep).symm.trans heq
    have hd₁ : Distinct s₁ := ⟨hd'.own, hd'.others⟩
    have hmapped : Mapped s₁ := by
      cases happlied with
      | unknown hleft => exact h
      | leave p hleft hp hpeer => exact h.leave hi hd hp
      | join hleft hnew => exact h.join hi hnew hd₁
      | change p hleft hp hpeer =>
        exact h.change hi hd hp hpeer.symm hd₁ fun hne heq => hno ⟨hleft, hne, p, hp, hpeer, heq⟩
    exact hmapped
  | lastSpoke ssrc when' now =>
    obtain ⟨s₁, hs₁, -, hkeeps⟩ := hi.applyLastSpoke ssrc when' now
    obtain rfl := Option.some.inj (hs₁.symm.trans hstep)
    exact h.keeps hkeeps
  | active inCall when' peer now unixtime =>
    obtain rfl := Option.some.inj hstep
    exact h.keeps (hi.applyActiveUpdate inCall when' peer now unixtime).2
  | finish now =>
    obtain ⟨s₁, hs₁, -, hkeeps⟩ := hi.checkFinishSpeakingByActive now
    obtain rfl := Option.some.inj (hs₁.symm.trans hstep)
    exact h.keeps hkeeps
  | setInCall now =>
    obtain rfl := Option.some.inj hstep
    exact h

/-- What becomes of a new group call. -/
def run (ops : List (Op Peer)) : Option (GroupCall Peer) := runFrom GroupCall.new ops

/-- A run in which the numbers that there are, are all different at every step, and no one gets as
its main number what was its additional one. -/
def Steady (ops : List (Op Peer)) : Prop :=
  ∀ before op after s s', ops = before ++ op :: after → run before = some s → step s op = some s' →
    Distinct s' ∧ ¬op.Swaps s

theorem Inv.new : Inv (GroupCall.new : GroupCall Peer) := Inv.clear GroupCall.new

theorem run_concat (ops : List (Op Peer)) (op : Op Peer) :
    run (ops ++ [op]) = (run ops).bind fun s => step s op := by
  rw [run, runFrom, List.foldlM_append]
  refine congrArg (Option.bind (run ops)) (funext fun s => ?_)
  exact bind_pure (step s op)

/-- **The numbers of a group call are mapped to who has them.**  Whatever comes, each entry of the
map is of a participant that has the number now, and no assertion fails.  While the numbers are all
different, all of them are mapped as long as no one gets as its main number what was its additional
one; when that happens, the number is lost. -/
theorem ssrcs_mapped (ops : List (Op Peer)) : ∃ s, run ops = some s ∧
    Owned s.participants s.participantPeerByAudioSsrc ∧
    (Steady ops → Mapped s ∧ ∀ source data, Swaps s data →
      Distinct (s.applyParticipant source data) → ¬Mapped (s.applyParticipant source data)) := by
  suffices h : ∃ s, run ops = some s ∧ Inv s ∧ (Steady ops → Mapped s ∧ Distinct s) by
    obtain ⟨s, hs, hi, hsteady⟩ := h
    refine ⟨s, hs, hi.owned, fun hsteps => ⟨(hsteady hsteps).1, ?_⟩⟩
    intro source data hswaps hd hmapped
    obtain ⟨s₁, n, happlied, heq⟩ := applyParticipant_applied s source data
    rw [heq] at hd hmapped
    exact happlied.not_mapped hi hswaps ⟨hd.own, hd.others⟩ hmapped
  induction ops using List.reverseRecOn with
  | nil =>
    exact ⟨GroupCall.new, rfl, Inv.new, fun _ => ⟨fun p hp => absurd hp List.not_mem_nil,
      ⟨fun p hp => absurd hp List.not_mem_nil, fun p hp => absurd hp List.not_mem_nil⟩⟩⟩
  | append_singleton ops op ih =>
    obtain ⟨s, hs, hi, hsteady⟩ := ih
    obtain ⟨s', hs', hi'⟩ := hi.step op
    refine ⟨s', ?_, hi', fun hsteps => ?_⟩
    · rw [run_concat, hs, Option.bind_some, hs']
    · obtain ⟨hd', hno⟩ := hsteps ops op [] s s' rfl hs hs'
      obtain ⟨hmapped, hd⟩ := hsteady fun before op' after t t' heq hbefore hstep =>
        hsteps before op' (after ++ [op]) t t' (by rw [heq, List.append_assoc, List.cons_append])
          hbefore hstep
      exact ⟨hmapped.step hi hd hs' hd' hno, hd'⟩

theorem Distinct.single (h : s.participants = [p]) (hne : p.ssrc ≠ p.additionalSsrc) :
    Distinct s := by
  have heq : ∀ q ∈ s.participants, q = p := fun q hq => List.mem_singleton.mp (h ▸ hq)
  refine ⟨fun q hq _ => heq q hq ▸ hne, fun q hq r hr hpeer => absurd ?_ hpeer⟩
  rw [heq q hq, heq r hr]

/-- Data of a participant, whose main number and additional one are given. -/
def sampleData (source additional : ℕ) : ParticipantData ℕ where
  peer := 1
  left := false
  justJoined := false
  muted := false
  canSelfUnmute := false
  min := false
  volumeByAdmin := false
  mutedByYou := false
  videoJoined := true
  date := 0
  activeDate := none
  source
  volume := none
  raiseHandRating := none
  video := none
  presentation := some ⟨"screen", [], some additional, false⟩

/-- A participant joins, and then shows something else. -/
def sampleOps : List (Op ℕ) :=
  [.participant .updateReceived (sampleData 1 2), .participant .updateReceived (sampleData 2 3)]

/-- A participant gets as its main number what was its additional one, and is not found by it. -/
theorem main_number_lost : ¬∀ ops : List (Op ℕ), (∀ before after s, ops = before ++ after →
      run before = some s → Distinct s ∧ ∀ p ∈ s.participants, p.ssrc ≠ 0 ∧ p.additionalSsrc ≠ 0) →
    ∀ s, run ops = some s → Mapped s := by
  intro hall
  have hsingle : ∀ (s : GroupCall ℕ) (p : Participant ℕ), s.participants = [p] → p.ssrc ≠ 0 →
      p.additionalSsrc ≠ 0 → p.ssrc ≠ p.additionalSsrc →
      Distinct s ∧ ∀ p ∈ s.participants, p.ssrc ≠ 0 ∧ p.additionalSsrc ≠ 0 :=
    fun s p hp hmain hadditional hne => ⟨.single hp hne, fun q hq => by
      obtain rfl := List.mem_singleton.mp (hp ▸ hq)
      exact ⟨hmain, hadditional⟩⟩
  have hmapped := hall sampleOps (fun before after s heq hrun => ?_) _ rfl
  · have hfound := hmapped _ List.mem_cons_self 2 (by decide) (Or.inl rfl)
    exact absurd hfound (by decide)
  · match before with
    | [] =>
      obtain rfl := Option.some.inj hrun
      exact ⟨⟨fun p hp => absurd hp List.not_mem_nil, fun p hp => absurd hp List.not_mem_nil⟩,
        fun p hp => absurd hp List.not_mem_nil⟩
    | [op] =>
      obtain ⟨rfl, -⟩ := List.cons.inj heq
      obtain rfl := Option.some.inj hrun
      exact hsingle _ _ rfl (by decide) (by decide) (by decide)
    | [op, op'] =>
      obtain ⟨rfl, hrest⟩ := List.cons.inj heq
      obtain ⟨rfl, -⟩ := List.cons.inj hrest
      obtain rfl := Option.some.inj hrun
      exact hsingle _ _ rfl (by decide) (by decide) (by decide)
    | op :: op' :: op'' :: before =>
      have hlength := congrArg List.length heq
      rw [List.length_append, List.length_cons, List.length_cons, List.length_cons] at hlength
      exact absurd hlength (by simp [sampleOps]; omega)

end Yunogram.Speaking
