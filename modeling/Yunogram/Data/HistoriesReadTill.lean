import Yunogram.Data.HistoriesQuiet

/-!
# Data/HistoriesReadTill — a chat is read further and further

`Reading` relates the two till ids of a chat to each other and to the read requests of it in flight,
whichever were sent before which.  What was asked for last is above all that is in flight, and a
chat that has no read request on record is known to be read as far as its requests in flight say.
Both speak of the requests that the chat still lists; when the states are forgotten in ghost mode
the requests in flight are not listed any more, and only `Overtaken` keeps the next till id above
them.
-/

open Machinery

namespace Yunogram.Histories

variable {Peer : Type} [LinearOrder Peer] {s s' s'' : Histories Peer} {h h' : Peer}
  {st st' : State} {r : ApiRequest Peer} {till tillId : MsgId}

/-- A till id asked for in a chat is below that of a read request of the chat that is in flight and
that the chat does not list any more. -/
def Overtaken (s : Histories Peer) (h : Peer) (tillId : MsgId) : Prop :=
  ∃ r ∈ s.live, r.history = h ∧ ¬Listed s r ∧ ∃ till, r.generator = .readInbox till ∧ tillId < till

/-- A chat is known to be read up to an id. -/
def History.IsRead (chat : History) (tillId : MsgId) : Prop :=
  ∃ before, chat.inboxReadBefore = some before ∧ tillId < before

/-- The till ids of the chats, beside the read requests in flight. -/
structure Reading (s : Histories Peer) : Prop where
  plain : Plain s
  bounded : ∀ r ∈ s.live, r.requestId < s.nextRequestId
  nonneg : ∀ h, 0 ≤ (s.state h).sentReadTill
  idle : ∀ h, (s.state h).willReadTill = 0 → (s.state h).willReadWhen = 0
  above : ∀ h, (s.state h).willReadTill = 0 ∨
    (s.state h).sentReadTill < (s.state h).willReadTill
  known : ∀ r ∈ s.live, ∀ till, r.generator = .readInbox till →
    ((s.state r.history).sentReadTill = 0 ∨ till ≤ (s.state r.history).sentReadTill) ∧
      ((s.state r.history).willReadTill = 0 ∨ till ≤ (s.state r.history).willReadTill)
  listed : ∀ r ∈ s.live, Listed s r → ∀ till, r.generator = .readInbox till →
    ((s.state r.history).sentReadTill = 0 → (s.chats r.history).IsRead till) ∧
      ((s.state r.history).willReadTill ≠ 0 → till < (s.state r.history).willReadTill)

theorem reading_start (chats : Peer → History) (mode : Bool) : Reading (start chats mode) where
  plain := fun _ => State.plain_empty
  bounded := fun _ hr => nomatch hr
  nonneg := fun _ => le_rfl
  idle := fun _ _ => rfl
  above := fun _ => .inl rfl
  known := fun _ hr => nomatch hr
  listed := fun _ hr => nomatch hr

/-- **What leaves reading alone keeps the invariant.** -/
theorem Reading.quiet (hr : Reading s) (hq : Quiet s s') : Reading s' where
  plain := hq.plain
  bounded := by
    intro r hlive
    rcases hq.live r hlive with hlive | ⟨-, hlt, -⟩
    · exact (hr.bounded r hlive).trans_le hq.next
    · exact hlt
  nonneg := by
    intro h
    rw [hq.sent]
    exact hr.nonneg h
  idle := by
    intro h hwill
    rw [hq.will] at hwill
    rcases hq.when h with heq | hzero
    · exact heq.trans (hr.idle h hwill)
    · exact hzero.2
  above := by
    intro h
    rw [hq.will, hq.sent]
    exact hr.above h
  known := by
    intro r hlive till hg
    rw [hq.will, hq.sent]
    rcases hq.live r hlive with hlive | ⟨-, -, hpassed⟩
    · exact hr.known r hlive till hg
    · exact nomatch hg.symm.trans hpassed
  listed := by
    intro r hlive hl till hg
    rw [hq.will, hq.sent, hq.chats]
    rcases hq.live r hlive with hlive | ⟨-, -, hpassed⟩
    · exact hr.listed r hlive (hq.listed r (hr.bounded r hlive) hl) till hg
    · exact nomatch hg.symm.trans hpassed

/-- **A state changes how far its chat is read**; nothing is listed anew in it. -/
theorem Reading.setState (hr : Reading s) (hplain : (s.state h).Plain → st.Plain)
    (hsent : st.sent = (s.state h).sent) (hnonneg : 0 ≤ st.sentReadTill)
    (hidle : st.willReadTill = 0 → st.willReadWhen = 0)
    (habove : st.willReadTill = 0 ∨ st.sentReadTill < st.willReadTill)
    (hknown : ∀ r ∈ s.live, r.history = h → ∀ till, r.generator = .readInbox till →
      (st.sentReadTill = 0 ∨ till ≤ st.sentReadTill) ∧
        (st.willReadTill = 0 ∨ till ≤ st.willReadTill))
    (hlisted : ∀ r ∈ s.live, r.history = h → Listed s r → ∀ till, r.generator = .readInbox till →
      (st.sentReadTill = 0 → (s.chats h).IsRead till) ∧
        (st.willReadTill ≠ 0 → till < st.willReadTill)) :
    Reading (s.setState h st) := by
  have hlist : ∀ r, Listed (s.setState h st) r → Listed s r := by
    rintro r ⟨q, hfind, hid⟩
    rw [state_setState] at hfind
    split_ifs at hfind with heq
    · exact ⟨q, by rwa [heq, ← hsent], hid⟩
    · exact ⟨q, hfind, hid⟩
  exact
    { plain := by
        intro h'
        rw [state_setState]
        split_ifs
        · exact hplain (hr.plain h)
        · exact hr.plain h'
      bounded := hr.bounded
      nonneg := by
        intro h'
        rw [state_setState]
        split_ifs
        · exact hnonneg
        · exact hr.nonneg h'
      idle := by
        intro h'
        rw [state_setState]
        split_ifs
        · exact hidle
        · exact hr.idle h'
      above := by
        intro h'
        rw [state_setState]
        split_ifs
        · exact habove
        · exact hr.above h'
      known := by
        intro r hlive till hg
        rw [state_setState]
        split_ifs with heq
        · exact hknown r hlive heq till hg
        · exact hr.known r hlive till hg
      listed := by
        intro r hlive hl till hg
        rw [state_setState]
        split_ifs with heq
        · have hboth := hlisted r hlive heq (hlist r hl) till hg
          exact ⟨fun hzero => heq ▸ hboth.1 hzero, hboth.2⟩
        · exact hr.listed r hlive (hlist r hl) till hg }

/-- **A chat is read further**, or nothing is known of it that was not. -/
theorem Reading.setChat (hr : Reading s) {chat : History}
    (hread : ∀ till, (s.chats h).IsRead till → chat.IsRead till) : Reading (s.setChat h chat) where
  plain := hr.plain
  bounded := hr.bounded
  nonneg := hr.nonneg
  idle := hr.idle
  above := hr.above
  known := hr.known
  listed := by
    intro r hlive hl till hg
    refine ⟨fun hzero => ?_, (hr.listed r hlive hl till hg).2⟩
    have hold := (hr.listed r hlive hl till hg).1 hzero
    show ((Function.update s.chats h chat) r.history).IsRead till
    rw [Function.update_apply]
    split_ifs with heq
    · exact hread till (heq ▸ hold)
    · exact hold

/-- **The states are forgotten.** -/
theorem Reading.clear (hr : Reading s) : Reading { s with states := FlatMap.empty } where
  plain := fun _ => State.plain_empty
  bounded := hr.bounded
  nonneg := fun _ => le_rfl
  idle := fun _ _ => rfl
  above := fun _ => .inl rfl
  known := fun _ _ _ _ => ⟨.inl rfl, .inl rfl⟩
  listed := by
    rintro r - ⟨q, hfind, -⟩
    exact nomatch hfind

/-! ## How far a chat is read -/

section

variable {chat : History} {upTo : MsgId}

theorem History.IsRead.mono (hread : chat.IsRead tillId) (hle : till ≤ tillId) :
    chat.IsRead till := by
  obtain ⟨before, hsome, hlt⟩ := hread
  exact ⟨before, hsome, hle.trans_lt hlt⟩

theorem History.isRead_setInboxReadTill (chat : History) (upTo : MsgId) :
    (chat.setInboxReadTill upTo).IsRead upTo := by
  rw [setInboxReadTill]
  split
  · exact ⟨_, rfl, (Int.lt_succ upTo).trans_le (le_max_right _ _)⟩
  · exact ⟨_, rfl, Int.lt_succ upTo⟩

theorem History.IsRead.setInboxReadTill (hread : chat.IsRead tillId) (upTo : MsgId) :
    (chat.setInboxReadTill upTo).IsRead tillId := by
  obtain ⟨before, hsome, hlt⟩ := hread
  rw [History.setInboxReadTill, hsome]
  exact ⟨_, rfl, hlt.trans_le (le_max_left _ _)⟩

theorem History.IsRead.setUnreadCount (hread : chat.IsRead tillId) (facts : Facts) (count : ℤ) :
    (chat.setUnreadCount facts count).IsRead tillId := by
  have hread' : ({ chat with unreadCount := some count } : History).IsRead tillId := hread
  rw [History.setUnreadCount]
  split_ifs
  · exact hread
  · exact hread'.setInboxReadTill _
  · exact hread'
  · exact hread'.setInboxReadTill _
  · exact hread'
  · exact hread'

theorem History.IsRead.syncGuard (hread : chat.IsRead tillId) (facts : Facts) (upTo : MsgId) :
    (chat.syncGuard facts upTo).IsRead tillId := by
  rw [History.syncGuard]
  split_ifs
  · exact hread.setUnreadCount facts 0
  · exact hread

/-- A chat that needs no refresh is known to be read. -/
theorem History.isRead_of_not_refreshNeeded (hpos : 0 ≤ tillId)
    (hrefresh : ¬chat.unreadCountRefreshNeeded tillId) : chat.IsRead tillId := by
  rw [unreadCountRefreshNeeded, Bool.or_eq_true, not_or, decide_eq_true_eq, not_lt] at hrefresh
  cases hbefore : chat.inboxReadBefore with
  | none =>
    rw [hbefore, Option.getD_none] at hrefresh
    exact absurd hrefresh.2 (not_le.mpr (Int.lt_add_one_of_le hpos))
  | some before =>
    rw [hbefore, Option.getD_some] at hrefresh
    exact ⟨before, hbefore, Int.lt_of_add_one_le hrefresh.2⟩

/-- What is asked for is above what is read. -/
theorem History.IsRead.lt_of_needsRequest (hread : chat.IsRead till)
    (hneeds : chat.readInboxTillNeedsRequest tillId) : till < tillId := by
  obtain ⟨before, hsome, hlt⟩ := hread
  rw [readInboxTillNeedsRequest, Bool.and_eq_true, decide_eq_true_eq, hsome] at hneeds
  exact hlt.trans_le hneeds.2

end

/-! ## Sending what is due -/

/-- The read requests of the chats of `P` are sent, and nothing else about reading changes. -/
structure Sends (P : Peer → Prop) (s s' : Histories Peer) : Prop where
  will : ∀ h, P h → (s'.state h).willReadTill = 0
  sent : ∀ h, P h → (s'.state h).sentReadTill = (s.state h).willReadTill
  when : ∀ h, P h → (s'.state h).willReadWhen = 0
  request : ∀ h, P h → ∃ r ∈ s'.requested, s.nextRequestId ≤ r.requestId ∧ r.history = h ∧
    r.generator = .readInbox (s.state h).willReadTill
  kept : ∀ h, ¬P h → (s'.state h).willReadTill = (s.state h).willReadTill ∧
    (s'.state h).sentReadTill = (s.state h).sentReadTill ∧
    (s'.state h).willReadWhen = (s.state h).willReadWhen
  chats : s'.chats = s.chats
  timer : s'.readRequestsTimer = s.readRequestsTimer
  now : s'.now = s.now
  mode : s'.sendReadMessages = s.sendReadMessages
  next : s.nextRequestId ≤ s'.nextRequestId
  requested : s.requested ⊆ s'.requested

theorem Sends.refl {P : Peer → Prop} (hP : ∀ h, ¬P h) (s : Histories Peer) : Sends P s s where
  will := fun h hp => absurd hp (hP h)
  sent := fun h hp => absurd hp (hP h)
  when := fun h hp => absurd hp (hP h)
  request := fun h hp => absurd hp (hP h)
  kept := fun _ _ => ⟨rfl, rfl, rfl⟩
  chats := rfl
  timer := rfl
  now := rfl
  mode := rfl
  next := le_rfl
  requested := List.Subset.refl _

/-- **One chat after the others.** -/
theorem Sends.trans {P Q R : Peer → Prop} (hs : Sends P s s') (hs' : Sends Q s' s'')
    (hR : ∀ h, R h ↔ P h ∨ Q h) (hdisjoint : ∀ h, P h → ¬Q h) : Sends R s s'' := by
  have hq : ∀ h, Q h → ¬P h := fun h hq hp => hdisjoint h hp hq
  exact
    { will := by
        intro h hr
        rcases (hR h).mp hr with hp | hQ
        · exact (hs'.kept h (hdisjoint h hp)).1.trans (hs.will h hp)
        · exact hs'.will h hQ
      sent := by
        intro h hr
        rcases (hR h).mp hr with hp | hQ
        · exact (hs'.kept h (hdisjoint h hp)).2.1.trans (hs.sent h hp)
        · exact (hs'.sent h hQ).trans (hs.kept h (hq h hQ)).1
      when := by
        intro h hr
        rcases (hR h).mp hr with hp | hQ
        · exact (hs'.kept h (hdisjoint h hp)).2.2.trans (hs.when h hp)
        · exact hs'.when h hQ
      request := by
        intro h hr
        rcases (hR h).mp hr with hp | hQ
        · obtain ⟨r, hmem, hid, hh, hg⟩ := hs.request h hp
          exact ⟨r, hs'.requested hmem, hid, hh, hg⟩
        · obtain ⟨r, hmem, hid, hh, hg⟩ := hs'.request h hQ
          exact ⟨r, hmem, hs.next.trans hid, hh, hg.trans (by rw [(hs.kept h (hq h hQ)).1])⟩
      kept := by
        intro h hr
        have hp := hs.kept h fun hp => hr ((hR h).mpr (.inl hp))
        have hQ := hs'.kept h fun hQ => hr ((hR h).mpr (.inr hQ))
        exact ⟨hQ.1.trans hp.1, hQ.2.1.trans hp.2.1, hQ.2.2.trans hp.2.2⟩
      chats := hs'.chats.trans hs.chats
      timer := hs'.timer.trans hs.timer
      now := hs'.now.trans hs.now
      mode := hs'.mode.trans hs.mode
      next := hs.next.trans hs'.next
      requested := List.Subset.trans hs.requested hs'.requested }

/-- The state of a chat whose read request is being sent. -/
def State.sending (st : State) : State :=
  { st with
    sentReadTill := st.willReadTill
    willReadTill := 0
    willReadWhen := 0
    sentReadDone := false }

/-- **A till id that is sent is above all in flight.** -/
theorem Reading.sending (hr : Reading s) (hwill : (s.state h).willReadTill ≠ 0) :
    Reading (s.setState h (s.state h).sending) := by
  have habove := (hr.above h).resolve_left hwill
  refine hr.setState (fun hp => ⟨hp.postponed, hp.sent⟩) rfl
    ((hr.nonneg h).trans habove.le) (fun _ => rfl) (.inl rfl) (fun r hlive heq till hg => ?_)
    fun _ _ _ _ _ _ => ⟨fun hzero => absurd hzero hwill, fun hne => absurd rfl hne⟩
  refine ⟨.inr ?_, .inl rfl⟩
  have hknown := (hr.known r hlive till hg).2
  rw [heq] at hknown
  exact hknown.resolve_left hwill

/-- **The precondition of `sendReadRequest` holds** where a till id waits, and the invariant is
kept. -/
theorem Reading.sendReadRequest (hr : Reading s) (hwill : (s.state h).willReadTill ≠ 0) :
    ∃ s', s.sendReadRequest h = .ok s' ∧ Reading s' ∧ Sends (· = h) s s' := by
  have habove := (hr.above h).resolve_left hwill
  set s₁ := s.setState h (s.state h).sending with hs₁
  set tillId := (s.state h).willReadTill
  have hr₁ : Reading s₁ := hr.sending hwill
  have hst₁ : s₁.state h = (s.state h).sending := state_setState_self
  have hquiet : Quiet s₁ { s₁.sendRequest h .readInbox (.readInbox tillId) with live := s₁.live } :=
    quiet_sendRequest_live hr₁.plain h fun h => nomatch h
  have hr₂ := hr₁.quiet hquiet
  have hsent : ((s₁.sendRequest h .readInbox (.readInbox tillId)).state h).sentReadTill = tillId :=
    (hquiet.sent h).trans (by rw [hst₁]; rfl)
  have hwill₂ : ((s₁.sendRequest h .readInbox (.readInbox tillId)).state h).willReadTill = 0 :=
    (hquiet.will h).trans (by rw [hst₁]; rfl)
  refine ⟨s₁.sendRequest h .readInbox (.readInbox tillId), ?_, ?_, ?_⟩
  · rw [Histories.sendReadRequest, if_pos habove]
    rfl
  · exact
      { hr₂ with
        bounded := by
          intro r hlive
          rcases mem_live_sendRequest hlive with hlive | ⟨rfl, hnext⟩
          · exact hr₂.bounded r hlive
          · rw [hnext]
            exact Nat.lt_succ_self _
        known := by
          intro r hlive till hg
          rcases mem_live_sendRequest hlive with hlive | ⟨rfl, -⟩
          · exact hr₂.known r hlive till hg
          · cases hg
            exact ⟨.inr hsent.ge, .inl hwill₂⟩
        listed := by
          intro r hlive hl till hg
          rcases mem_live_sendRequest hlive with hlive | ⟨rfl, -⟩
          · exact hr₂.listed r hlive hl till hg
          · exact ⟨fun hzero => absurd (hsent.symm.trans hzero) hwill,
              fun hne => absurd hwill₂ hne⟩ }
  · exact
      { will := by
          rintro h' rfl
          exact hwill₂
        sent := by
          rintro h' rfl
          exact hsent
        when := by
          rintro h' rfl
          rcases hquiet.when h' with heq | hzero
          · exact heq.trans (by rw [hst₁]; rfl)
          · exact hzero.2
        request := by
          rintro h' rfl
          exact ⟨_, read_requested_sendRequest s₁ h' tillId, le_rfl, rfl, rfl⟩
        kept := by
          intro h' hne
          have hst : s₁.state h' = s.state h' := state_setState_ne hne
          refine ⟨(hquiet.will h').trans (by rw [hst]), (hquiet.sent h').trans (by rw [hst]), ?_⟩
          rcases hquiet.when h' with heq | hzero
          · exact heq.trans (by rw [hst])
          · exact hzero.2.trans (hr.idle h' (hst ▸ hzero.1)).symm
        chats := hquiet.chats
        timer := hquiet.timer
        now := hquiet.now
        mode := hquiet.mode
        next := hquiet.next
        requested := hquiet.requested }

/-- The read request of a chat is due. -/
def Due (s : Histories Peer) (h : Peer) : Prop :=
  (s.state h).willReadTill ≠ 0 ∧ (s.state h).willReadWhen ≤ s.now

/-- The time of the next read request is that of the first one that waits among some chats, or one
that was found before. -/
structure NextIs (s : Histories Peer) (histories : List Peer) (next next' : Option ℕ) : Prop where
  before : ∀ time, next = some time → ∃ time', next' = some time' ∧ time' ≤ time
  first : ∀ h ∈ histories, (s.state h).willReadTill ≠ 0 → ¬Due s h →
    ∃ time, next' = some time ∧ time ≤ (s.state h).willReadWhen
  found : ∀ time, next' = some time → next = some time ∨
    ∃ h ∈ histories, (s.state h).willReadTill ≠ 0 ∧ time = (s.state h).willReadWhen

theorem Sends.due_iff {P : Peer → Prop} (hs : Sends P s s') (hp : ¬P h) : Due s' h ↔ Due s h := by
  rw [Due, Due, (hs.kept h hp).1, (hs.kept h hp).2.2, hs.now]

/-- A chat whose read request is not due bounds the next time. -/
theorem NextIs.waiting {histories : List Peer} {next next₁ next' : Option ℕ}
    (hnext : NextIs s histories next₁ next') (hwill : (s.state h).willReadTill ≠ 0)
    (hle : ∃ time, next₁ = some time ∧ time ≤ (s.state h).willReadWhen)
    (hbefore : ∀ time, next = some time → ∃ time', next₁ = some time' ∧ time' ≤ time)
    (hfound : ∀ time, next₁ = some time → next = some time ∨ time = (s.state h).willReadWhen) :
    NextIs s (h :: histories) next next' where
  before := by
    intro time htime
    obtain ⟨time', htime', hle'⟩ := hbefore time htime
    obtain ⟨time'', htime'', hle''⟩ := hnext.before time' htime'
    exact ⟨time'', htime'', hle''.trans hle'⟩
  first := by
    intro h' hmem hwill' hdue
    rcases List.mem_cons.mp hmem with rfl | hmem
    · obtain ⟨time, htime, hle⟩ := hle
      obtain ⟨time', htime', hle'⟩ := hnext.before time htime
      exact ⟨time', htime', hle'.trans hle⟩
    · exact hnext.first h' hmem hwill' hdue
  found := by
    intro time htime
    rcases hnext.found time htime with htime | ⟨h', hmem, hwill', heq⟩
    · exact (hfound time htime).imp_right fun heq => ⟨h, List.mem_cons_self, hwill, heq⟩
    · exact .inr ⟨h', List.mem_cons_of_mem _ hmem, hwill', heq⟩

/-- A chat that does not wait does not count. -/
theorem NextIs.cons {histories : List Peer} {next next' : Option ℕ}
    (hnext : NextIs s histories next next')
    (hskip : (s.state h).willReadTill ≠ 0 → Due s h) : NextIs s (h :: histories) next next' where
  before := hnext.before
  first := by
    intro h' hmem hwill hdue
    rcases List.mem_cons.mp hmem with rfl | hmem
    · exact absurd (hskip hwill) hdue
    · exact hnext.first h' hmem hwill hdue
  found := fun time htime => (hnext.found time htime).imp_right
    fun ⟨h', hmem, h⟩ => ⟨h', List.mem_cons_of_mem _ hmem, h⟩

/-- **The loop of `sendReadRequests`** sends what is due, and finds when the next one is. -/
theorem Reading.sendDue {histories : List Peer} (hnodup : histories.Nodup) (hr : Reading s)
    (next : Option ℕ) :
    ∃ s' next', s.sendDue next histories = .ok (s', next') ∧ Reading s' ∧
      Sends (fun h => h ∈ histories ∧ Due s h) s s' ∧ NextIs s histories next next' := by
  induction histories generalizing s next with
  | nil =>
    refine ⟨s, next, rfl, hr, .refl (fun h hp => nomatch hp.1) s, ?_⟩
    exact ⟨fun time h => ⟨time, h, le_rfl⟩, (fun _ h => nomatch h), fun _ h => .inl h⟩
  | cons h histories ih =>
    obtain ⟨hnot, hnodup⟩ := List.nodup_cons.mp hnodup
    have hskip : ¬Due s h → ∀ h', h' ∈ h :: histories ∧ Due s h' ↔ h' ∈ histories ∧ Due s h' := by
      refine fun hdue h' => ⟨fun ⟨hmem, hdue'⟩ => ⟨?_, hdue'⟩, fun ⟨hmem, hdue'⟩ =>
        ⟨List.mem_cons_of_mem _ hmem, hdue'⟩⟩
      rcases List.mem_cons.mp hmem with rfl | hmem
      · exact absurd hdue' hdue
      · exact hmem
    rw [Histories.sendDue]
    by_cases hwill : (s.state h).willReadTill = 0
    · obtain ⟨s', next', hok, hr', hsends, hnext⟩ := ih hnodup hr next
      refine ⟨s', next', by rw [if_pos hwill, hok], hr', ?_,
        hnext.cons fun hne => absurd hwill hne⟩
      simpa only [hskip fun hdue => hdue.1 hwill] using hsends
    · by_cases hwhen : (s.state h).willReadWhen ≤ s.now
      · obtain ⟨s₁, hok₁, hr₁, hsends₁⟩ := hr.sendReadRequest hwill
        obtain ⟨s', next', hok, hr', hsends, hnext⟩ := ih hnodup hr₁ next
        have hother : ∀ h' ∈ histories, h' ≠ h := fun h' hmem heq => hnot (heq ▸ hmem)
        refine ⟨s', next', ?_, hr', ?_, ?_⟩
        · rw [if_neg hwill, if_pos hwhen, hok₁]
          exact hok
        · refine hsends₁.trans hsends (fun h' => ?_) fun h' heq hmem => hother h' hmem.1 heq
          constructor
          · rintro ⟨hmem, hdue⟩
            rcases List.mem_cons.mp hmem with heq | hmem
            · exact .inl heq
            · exact .inr ⟨hmem, (hsends₁.due_iff (hother h' hmem)).mpr hdue⟩
          · rintro (rfl | ⟨hmem, hdue⟩)
            · exact ⟨List.mem_cons_self, hwill, hwhen⟩
            · exact ⟨List.mem_cons_of_mem _ hmem, (hsends₁.due_iff (hother h' hmem)).mp hdue⟩
        · refine NextIs.cons ⟨hnext.before, fun h' hmem hwill' hdue => ?_, fun time htime => ?_⟩
            fun _ => ⟨hwill, hwhen⟩
          · have hkept := hsends₁.kept h' (hother h' hmem)
            rw [← hkept.2.2]
            exact hnext.first h' hmem (hkept.1 ▸ hwill')
              fun h => hdue ((hsends₁.due_iff (hother h' hmem)).mp h)
          · refine (hnext.found time htime).imp_right fun ⟨h', hmem, hwill', heq⟩ => ?_
            have hkept := hsends₁.kept h' (hother h' hmem)
            exact ⟨h', hmem, hkept.1 ▸ hwill', hkept.2.2 ▸ heq⟩
      · rw [if_neg hwill, if_neg hwhen]
        have hnotdue : ¬Due s h := fun hdue => hwhen hdue.2
        by_cases hall : next.all ((s.state h).willReadWhen < ·) = true
        · obtain ⟨s', next', hok, hr', hsends, hnext⟩ :=
            ih hnodup hr (some (s.state h).willReadWhen)
          refine ⟨s', next', by rw [if_pos hall, hok], hr', ?_, hnext.waiting hwill
            ⟨_, rfl, le_rfl⟩ (fun time htime => ⟨_, rfl, ?_⟩)
            fun time htime => .inr (Option.some.inj htime).symm⟩
          · simpa only [hskip hnotdue] using hsends
          · rw [htime] at hall
            exact (of_decide_eq_true hall).le
        · obtain ⟨s', next', hok, hr', hsends, hnext⟩ := ih hnodup hr next
          refine ⟨s', next', by rw [if_neg hall, hok], hr', ?_, hnext.waiting hwill ?_
            (fun time htime => ⟨time, htime, le_rfl⟩) fun time htime => .inl htime⟩
          · simpa only [hskip hnotdue] using hsends
          · cases next with
            | none => exact absurd rfl hall
            | some time =>
              exact ⟨time, rfl, not_lt.mp fun hlt => hall (decide_eq_true hlt)⟩

end Yunogram.Histories
