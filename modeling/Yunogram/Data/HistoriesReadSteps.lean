import Yunogram.Data.HistoriesReadTill

/-!
# Data/HistoriesReadSteps — a till id waits, or is settled

What a step does to a till id that waits: it leaves it waiting, or it settles it, by a greater one,
by a request, or by forgetting it in ghost mode.  `Clock` says that the timer is set no later than
any request is due.  Each function of the reading is gone through once, `Fine` collecting what holds
where it succeeds and which assertions it may fail on.
-/

open Machinery

namespace Yunogram.Histories

variable {Peer : Type} [LinearOrder Peer] {s s' s'' : Histories Peer} {h h' : Peer}
  {st st' : State} {r : ApiRequest Peer} {till tillId : MsgId} {id : ℕ}

/-! ## What a step does to a chat that waits -/

/-- The till id that waited is superseded by a greater one, or sent, or forgotten in ghost mode. -/
def Settled (s s' : Histories Peer) (h : Peer) : Prop :=
  (s.state h).willReadTill < (s'.state h).willReadTill ∨
    (∃ r ∈ s'.requested, s.nextRequestId ≤ r.requestId ∧ r.history = h ∧
      ∃ till, r.generator = .readInbox till ∧ (s.state h).willReadTill ≤ till) ∨
    s.sendReadMessages = false ∧ (s'.state h).willReadTill = 0

/-- The till id goes on waiting, and the timer is left to it once it is due. -/
structure Waits (s s' : Histories Peer) (h : Peer) : Prop where
  will : (s'.state h).willReadTill = (s.state h).willReadTill
  when : (s'.state h).willReadWhen = (s.state h).willReadWhen
  timer : (s.state h).willReadWhen ≤ s.now → s'.readRequestsTimer = s.readRequestsTimer

/-- A till id that waits is settled or goes on waiting. -/
def Patient (s s' : Histories Peer) (h : Peer) : Prop :=
  (s.state h).willReadTill ≠ 0 → Settled s s' h ∨ Waits s s' h

/-- The till ids, their times and the timer are as they were. -/
structure Same (s s' : Histories Peer) : Prop where
  will : ∀ h, (s'.state h).willReadTill = (s.state h).willReadTill
  when : ∀ h, (s'.state h).willReadWhen = (s.state h).willReadWhen
  timer : s'.readRequestsTimer = s.readRequestsTimer
  now : s'.now = s.now
  mode : s'.sendReadMessages = s.sendReadMessages
  next : s.nextRequestId ≤ s'.nextRequestId
  requested : s.requested ⊆ s'.requested

theorem Quiet.same (hq : Quiet s s') (hr : Reading s) : Same s s' where
  will := hq.will
  when := by
    intro h
    rcases hq.when h with heq | ⟨hzero, hwhen⟩
    · exact heq
    · exact hwhen.trans (hr.idle h hzero).symm
  timer := hq.timer
  now := hq.now
  mode := hq.mode
  next := hq.next
  requested := hq.requested

theorem Same.refl (s : Histories Peer) : Same s s :=
  ⟨fun _ => rfl, fun _ => rfl, rfl, rfl, rfl, le_rfl, List.Subset.refl _⟩

theorem Same.waits (hs : Same s s') (h : Peer) : Waits s s' h :=
  ⟨hs.will h, hs.when h, fun _ => hs.timer⟩

theorem Same.patient (hs : Same s s') (h : Peer) : Patient s s' h := fun _ => .inr (hs.waits h)

/-- What follows changes nothing. -/
theorem Patient.andThen (hp : Patient s s' h) (hs : Same s' s'') : Patient s s'' h := by
  intro hwill
  rcases hp hwill with (hlt | ⟨r, hmem, hr⟩ | ⟨hmode, hzero⟩) | hwaits
  · exact .inl (.inl (by rwa [hs.will]))
  · exact .inl (.inr (.inl ⟨r, hs.requested hmem, hr⟩))
  · exact .inl (.inr (.inr ⟨hmode, (hs.will h).trans hzero⟩))
  · exact .inr ⟨(hs.will h).trans hwaits.will, (hs.when h).trans hwaits.when,
      fun hdue => hs.timer.trans (hwaits.timer hdue)⟩

/-- What came before changed nothing. -/
theorem Same.andThen (hs : Same s s') (hp : Patient s' s'' h) : Patient s s'' h := by
  intro hwill
  rcases hp (by rwa [hs.will]) with (hlt | ⟨r, hmem, hle, hh, hr⟩ | ⟨hmode, hzero⟩) | hwaits
  · exact .inl (.inl (by rwa [hs.will] at hlt))
  · rw [hs.will] at hr
    exact .inl (.inr (.inl ⟨r, hmem, hs.next.trans hle, hh, hr⟩))
  · exact .inl (.inr (.inr ⟨hs.mode.symm.trans hmode, hzero⟩))
  · refine .inr ⟨hwaits.will.trans (hs.will h), hwaits.when.trans (hs.when h), fun hdue => ?_⟩
    exact (hwaits.timer (by rwa [hs.when, hs.now])).trans hs.timer

/-! ## The timer -/

/-- No request waits longer than the timeout, and neither does the timer. -/
structure Soon (s : Histories Peer) : Prop where
  when : ∀ h, (s.state h).willReadWhen ≤ s.now + kReadRequestTimeout
  timer : ∀ time, s.readRequestsTimer = some time → time ≤ s.now + kReadRequestTimeout

/-- The timer is set no later than any request is due. -/
structure Clock (s : Histories Peer) : Prop extends Soon s where
  armed : ∀ h, (s.state h).willReadTill ≠ 0 → (s.state h).willReadWhen ≠ 0 ∧
    ∃ time, s.readRequestsTimer = some time ∧ time ≤ (s.state h).willReadWhen

theorem clock_start (chats : Peer → History) (mode : Bool) : Clock (start chats mode) where
  when := fun _ => Nat.zero_le _
  timer := fun _ h => nomatch h
  armed := fun _ hwill => absurd rfl hwill

theorem Same.soon (hs : Same s s') (hc : Soon s) : Soon s' where
  when := fun h => by rw [hs.when, hs.now]; exact hc.when h
  timer := fun time htime => by rw [hs.now]; exact hc.timer time (hs.timer.symm.trans htime)

theorem Same.clock (hs : Same s s') (hc : Clock s) : Clock s' where
  toSoon := hs.soon hc.toSoon
  armed := by
    intro h hwill
    rw [hs.when, hs.timer]
    exact hc.armed h (by rwa [← hs.will])

/-! ## Sending what is due -/

/-- What is due is sent, and the timer is set for the first of the others. -/
structure Sweeps (s s' : Histories Peer) : Prop where
  sends : Sends (Due s) s { s' with readRequestsTimer := s.readRequestsTimer }
  armed : ∀ h, (s.state h).willReadTill ≠ 0 → ¬Due s h →
    ∃ time, s'.readRequestsTimer = some time ∧ time ≤ (s.state h).willReadWhen
  found : ∀ time, s'.readRequestsTimer = some time → s.readRequestsTimer = some time ∨
    ∃ h, (s.state h).willReadTill ≠ 0 ∧ time = (s.state h).willReadWhen

theorem mem_keys_of_will (hwill : (s.state h).willReadTill ≠ 0) : h ∈ s.states.keys :=
  FlatMap.mem_keys.mpr ⟨_, lookup_isSome_of_will hwill⟩

/-- **`sendReadRequests` never fails**, and sends what is due unless in ghost mode. -/
theorem Reading.sendReadRequests (hr : Reading s) :
    ∃ s', s.sendReadRequests = .ok s' ∧ Reading s' ∧
      (s.sendReadMessages = false ∧ s' = { s with states := FlatMap.empty } ∨ Sweeps s s') := by
  by_cases hmode : s.sendReadMessages = false
  · refine ⟨{ s with states := FlatMap.empty }, ?_, hr.clear, .inl ⟨hmode, rfl⟩⟩
    rw [Histories.sendReadRequests, if_pos (by rw [hmode]; rfl)]
  · rw [Histories.sendReadRequests, if_neg (by simpa using hmode)]
    by_cases hempty : s.states.isEmpty = true
    · have hnone : ∀ h, (s.state h).willReadTill = 0 := by
        intro h
        by_contra hwill
        have hmem := mem_keys_of_will hwill
        rw [FlatMap.keys, FlatMap.isEmpty_iff.mp hempty] at hmem
        cases hmem
      refine ⟨s, if_pos hempty, hr, .inr ⟨.refl (fun h hdue => hdue.1 (hnone h)) s,
        fun h hwill => absurd (hnone h) hwill, fun time htime => .inl htime⟩⟩
    · obtain ⟨s₁, next, hok, hr₁, hsends, hnext⟩ := hr.sendDue s.states.nodup_keys none
      have hkeys : ∀ h, h ∈ s.states.keys ∧ Due s h ↔ Due s h :=
        fun h => and_iff_right_of_imp fun hdue => mem_keys_of_will hdue.1
      simp only [hkeys] at hsends
      refine ⟨{ s₁ with readRequestsTimer := next }, by rw [if_neg hempty, hok]; rfl, ?_, .inr ?_⟩
      · exact ⟨hr₁.plain, hr₁.bounded, hr₁.nonneg, hr₁.idle, hr₁.above, hr₁.known, hr₁.listed⟩
      · refine ⟨?_, fun h hwill => hnext.first h (mem_keys_of_will hwill) hwill, fun time htime => ?_⟩
        · exact { hsends with timer := rfl }
        · obtain hbefore | ⟨h, -, hwill, heq⟩ := hnext.found time htime
          · cases hbefore
          · exact .inr ⟨h, hwill, heq⟩

theorem Sweeps.clock (hs : Sweeps s s') (hc : Soon s) : Clock s' := by
  have hnow : s'.now = s.now := hs.sends.now
  have hdue : ∀ h, Due s h → (s'.state h).willReadTill = 0 ∧ (s'.state h).willReadWhen = 0 :=
    fun h hdue => ⟨hs.sends.will h hdue, hs.sends.when h hdue⟩
  have hkept : ∀ h, ¬Due s h → (s'.state h).willReadTill = (s.state h).willReadTill ∧
      (s'.state h).willReadWhen = (s.state h).willReadWhen :=
    fun h hnot => ⟨(hs.sends.kept h hnot).1, (hs.sends.kept h hnot).2.2⟩
  exact
    { when := by
        intro h
        rw [hnow]
        by_cases h' : Due s h
        · rw [(hdue h h').2]; exact Nat.zero_le _
        · rw [(hkept h h').2]; exact hc.when h
      timer := by
        intro time htime
        rw [hnow]
        rcases hs.found time htime with htime | ⟨h, -, rfl⟩
        · exact hc.timer time htime
        · exact hc.when h
      armed := by
        intro h hwill
        by_cases h' : Due s h
        · exact absurd (hdue h h').1 hwill
        · rw [(hkept h h').1] at hwill
          rw [(hkept h h').2]
          refine ⟨fun hzero => h' ⟨hwill, ?_⟩, hs.armed h hwill h'⟩
          rw [hzero]
          exact Nat.zero_le _ }

/-- **What is due is settled.** -/
theorem Sweeps.settled (hs : Sweeps s s') (hdue : Due s h) : Settled s s' h := by
  obtain ⟨r, hmem, hle, hh, hg⟩ := hs.sends.request h hdue
  exact .inr (.inl ⟨r, hmem, hle, hh, _, hg, le_rfl⟩)

theorem Sweeps.patient (hs : Sweeps s s') (h : Peer) : Patient s s' h := by
  intro hwill
  by_cases hdue : Due s h
  · exact .inl (hs.settled hdue)
  · exact .inr ⟨(hs.sends.kept h hdue).1, (hs.sends.kept h hdue).2.2,
      fun hwhen => absurd ⟨hwill, hwhen⟩ hdue⟩

/-! ## The functions of the reading -/

/-- The invariant is kept, the timer is set in time, and every till id that waited is settled or
waits on. -/
structure Advance (s s' : Histories Peer) : Prop where
  reading : Reading s'
  clock : Clock s'
  patient : ∀ h, Patient s s' h

theorem Advance.of_quiet (hr : Reading s) (hc : Clock s) (hq : Quiet s s') : Advance s s' :=
  ⟨hr.quiet hq, (hq.same hr).clock hc, (hq.same hr).patient⟩

theorem Advance.refl (hr : Reading s) (hc : Clock s) : Advance s s :=
  ⟨hr, hc, (Same.refl s).patient⟩

theorem Advance.quiet (ha : Advance s s') (hq : Quiet s' s'') : Advance s s'' :=
  ⟨ha.reading.quiet hq, (hq.same ha.reading).clock ha.clock,
    fun h => (ha.patient h).andThen (hq.same ha.reading)⟩

theorem same_setChat (s : Histories Peer) (h : Peer) (chat : History) : Same s (s.setChat h chat) :=
  ⟨fun _ => rfl, fun _ => rfl, rfl, rfl, rfl, le_rfl, List.Subset.refl _⟩

/-- Afterwards a chat is read further. -/
theorem Advance.setChat (ha : Advance s s') {chat : History}
    (hread : ∀ till, (s'.chats h).IsRead till → chat.IsRead till) :
    Advance s (s'.setChat h chat) :=
  ⟨ha.reading.setChat hread, (same_setChat s' h chat).clock ha.clock,
    fun h' => (ha.patient h').andThen (same_setChat s' h chat)⟩

/-- **Once the requests are sent all is in time**, and what was due is settled. -/
theorem Reading.sendAdvance (hr : Reading s) (hc : Soon s) :
    ∃ s', s.sendReadRequests = .ok s' ∧ Advance s s' ∧ ∀ h, Due s h → Settled s s' h := by
  obtain ⟨s', hok, hr', ⟨hmode, rfl⟩ | hsweeps⟩ := hr.sendReadRequests
  · have hforgotten : ∀ h, Settled s { s with states := FlatMap.empty } h :=
      fun h => .inr (.inr ⟨hmode, rfl⟩)
    exact ⟨_, hok, ⟨hr', ⟨⟨fun _ => Nat.zero_le _, hc.timer⟩, fun _ hwill => absurd rfl hwill⟩,
      fun h _ => .inl (hforgotten h)⟩, fun h _ => hforgotten h⟩
  · exact ⟨s', hok, ⟨hr', hsweeps.clock hc, hsweeps.patient⟩, fun h => hsweeps.settled⟩

/-- A chat whose state is not the one that changed. -/
theorem Patient.of_setState (hne : h' ≠ h) (hp : Patient (s.setState h st) s' h') :
    Patient s s' h' := by
  have hst : (s.setState h st).state h' = s.state h' := state_setState_ne hne
  intro hwill
  rcases hp (by rwa [hst]) with hsettled | hwaits
  · rw [Settled, hst] at hsettled
    exact .inl hsettled
  · exact .inr ⟨hwaits.will.trans (by rw [hst]), hwaits.when.trans (by rw [hst]),
      fun hdue => hwaits.timer (by rwa [hst])⟩

/-- The chat whose till id grew. -/
theorem Settled.of_setState (hle : (s.state h).willReadTill ≤ st.willReadTill)
    (hs : Settled (s.setState h st) s' h) : Settled s s' h := by
  rw [Settled, state_setState_self] at hs
  rcases hs with hlt | ⟨r, hmem, hid, hh, till, hg, hle'⟩ | hforgotten
  · exact .inl (hle.trans_lt hlt)
  · exact .inr (.inl ⟨r, hmem, hid, hh, till, hg, hle.trans hle'⟩)
  · exact .inr (.inr hforgotten)

/-- **The request of a chat is sent at once.** -/
theorem Reading.hurry (hr : Reading (s.setState h st)) (hc : Soon s) (hwhen : st.willReadWhen = 0)
    (hwill : st.willReadTill ≠ 0) (hle : (s.state h).willReadTill ≤ st.willReadTill) :
    Fine (Advance s) (s.setState h st).sendReadRequests := by
  have hsoon : Soon (s.setState h st) := by
    refine ⟨fun h' => ?_, hc.timer⟩
    rw [state_setState]
    split_ifs
    · rw [hwhen]; exact Nat.zero_le _
    · exact hc.when h'
  obtain ⟨s', hok, hadvance, hsettled⟩ := hr.sendAdvance hsoon
  rw [hok]
  refine ⟨hadvance.reading, hadvance.clock, fun h' => ?_⟩
  by_cases heq : h' = h
  · subst heq
    have hdue : Due (s.setState h' st) h' := by
      rw [Due, state_setState_self]
      exact ⟨hwill, hwhen ▸ Nat.zero_le _⟩
    exact fun _ => .inl ((hsettled h' hdue).of_setState hle)
  · exact (hadvance.patient h').of_setState heq

theorem fine_sendPendingReadInbox (hr : Reading s) (hc : Clock s) (h : Peer) :
    Fine (Advance s) (s.sendPendingReadInbox h) := by
  rw [sendPendingReadInbox]
  cases hst : s.lookup h with
  | none => exact .refl hr hc
  | some st =>
    obtain rfl := state_of_lookup hst
    dsimp only
    split_ifs with hwaits
    · refine Reading.hurry ?_ hc.toSoon rfl hwaits.1 le_rfl
      refine hr.setState (fun hp => ⟨hp.postponed, hp.sent⟩) rfl (hr.nonneg h) (fun _ => rfl)
        (hr.above h) ?_ ?_
      · rintro r hlive rfl till hg
        exact hr.known r hlive till hg
      · rintro r hlive rfl hl till hg
        exact hr.listed r hlive hl till hg
    · exact .refl hr hc

/-- **A till id is accepted**: it is above all that came before. -/
theorem Reading.accept (hr : Reading s)
    (hpos : 0 < tillId) (hsent : (s.state h).sentReadTill < tillId)
    (hwill : (s.state h).willReadTill < tillId)
    (hneeds : (s.chats h).readInboxTillNeedsRequest tillId ∨ (s.state h).willReadTill ≠ 0)
    (hin : ¬Overtaken s h tillId) (time : ℕ) :
    Reading (s.setState h { s.state h with willReadTill := tillId, willReadWhen := time }) := by
  have hbelow : ∀ r ∈ s.live, r.history = h → Listed s r → ∀ till, r.generator = .readInbox till →
      till < tillId := by
    rintro r hlive rfl hl till hg
    obtain ⟨hread, hbelow⟩ := hr.listed r hlive hl till hg
    by_cases hzero : (s.state r.history).willReadTill = 0
    · by_cases hsentzero : (s.state r.history).sentReadTill = 0
      · exact (hread hsentzero).lt_of_needsRequest (hneeds.resolve_right (not_not.mpr hzero))
      · exact ((hr.known r hlive till hg).1.resolve_left hsentzero).trans_lt hsent
    · exact (hbelow hzero).trans hwill
  refine hr.setState (fun hp => ⟨hp.postponed, hp.sent⟩) rfl (hr.nonneg h)
    (fun hzero => absurd hzero hpos.ne') (.inr hsent) (fun r hlive heq till hg => ?_)
    fun r hlive heq hl till hg => ?_
  · refine ⟨heq ▸ (hr.known r hlive till hg).1, .inr ?_⟩
    by_cases hl : Listed s r
    · exact (hbelow r hlive heq hl till hg).le
    · exact not_lt.mp fun hlt => hin ⟨r, hlive, heq, hl, till, hg, hlt⟩
  · exact ⟨heq ▸ (hr.listed r hlive hl till hg).1, fun _ => hbelow r hlive heq hl till hg⟩

/-- **A till id is put off**, and the timer is set for it unless it is set already. -/
theorem Clock.advance_wait (hc : Clock s) {time : ℕ} {timer : Option ℕ}
    (hr : Reading
      (s.setState h { s.state h with willReadTill := tillId, willReadWhen := time }))
    (hlt : (s.state h).willReadTill < tillId) (hne : time ≠ 0)
    (hsoon : time ≤ s.now + kReadRequestTimeout)
    (htimer : timer = s.readRequestsTimer ∨ s.readRequestsTimer = none ∧ timer = some time)
    (harmed : ∃ first, timer = some first ∧ first ≤ time) :
    Advance s
      { s.setState h { s.state h with willReadTill := tillId, willReadWhen := time } with
        readRequestsTimer := timer } := by
  set s₁ : Histories Peer :=
    { s.setState h { s.state h with willReadTill := tillId, willReadWhen := time } with
      readRequestsTimer := timer } with hs₁
  have hself : s₁.state h = { s.state h with willReadTill := tillId, willReadWhen := time } :=
    state_setState_self
  have hother : ∀ h', h' ≠ h → s₁.state h' = s.state h' := fun h' hne => state_setState_ne hne
  -- whoever waits already has the timer set
  have hkept : ∀ h', (s.state h').willReadTill ≠ 0 → timer = s.readRequestsTimer := by
    intro h' hwill
    rcases htimer with htimer | ⟨hnone, -⟩
    · exact htimer
    · obtain ⟨-, first, hfirst, -⟩ := hc.armed h' hwill
      exact nomatch hnone.symm.trans hfirst
  refine ⟨⟨hr.plain, hr.bounded, hr.nonneg, hr.idle, hr.above, hr.known, hr.listed⟩,
    ⟨⟨fun h' => ?_, fun first hfirst => ?_⟩, fun h' hwill => ?_⟩, fun h' hwill => ?_⟩
  · by_cases heq : h' = h
    · rw [heq, hself]; exact hsoon
    · rw [hother h' heq]; exact hc.when h'
  · rcases htimer with htimer | ⟨-, htimer⟩
    · exact hc.timer first (htimer.symm.trans hfirst)
    · exact Option.some.inj (htimer.symm.trans hfirst) ▸ hsoon
  · by_cases heq : h' = h
    · rw [heq, hself]
      exact ⟨hne, harmed⟩
    · rw [hother h' heq] at hwill ⊢
      refine ⟨(hc.armed h' hwill).1, ?_⟩
      show ∃ first, timer = some first ∧ first ≤ _
      rw [hkept h' hwill]
      exact (hc.armed h' hwill).2
  · by_cases heq : h' = h
    · refine .inl (.inl ?_)
      rw [heq, hself]
      exact hlt
    · exact .inr ⟨by rw [hother h' heq], by rw [hother h' heq], fun _ => hkept h' hwill⟩

theorem Clock.advance_postponeRead (hc : Clock s)
    (hr : ∀ time, Reading
      (s.setState h { s.state h with willReadTill := tillId, willReadWhen := time }))
    (hlt : (s.state h).willReadTill < tillId) (hidle : (s.state h).willReadWhen ≠ 0 →
      (s.state h).willReadTill ≠ 0) :
    Advance s (s.postponeRead h { s.state h with willReadTill := tillId }) := by
  rw [postponeRead]
  split_ifs with hwhen
  · refine hc.advance_wait (hr _) hlt (Nat.succ_ne_zero _) le_rfl ?_ ?_
    · cases htimer : s.readRequestsTimer with
      | none => exact .inr ⟨rfl, rfl⟩
      | some first => exact .inl rfl
    · cases htimer : s.readRequestsTimer with
      | none => exact ⟨_, rfl, le_rfl⟩
      | some first => exact ⟨first, rfl, hc.timer first htimer⟩
  · have hwait := hc.advance_wait (hr _) hlt hwhen (hc.when h)
      (.inl (rfl : s.readRequestsTimer = s.readRequestsTimer)) (hc.armed h (hidle hwhen)).2
    exact hwait

theorem isRead_markRead {chat : History} (hread : chat.IsRead till) (facts : Facts) (count : ℤ) :
    ((chat.setInboxReadTill tillId).setUnreadCount facts count).IsRead till :=
  (hread.setInboxReadTill tillId).setUnreadCount facts count

/-- **`readInboxTill` accepts a till id.** -/
theorem fine_acceptTill (hr : Reading s) (hc : Clock s) (hpos : 0 < tillId)
    (hsent : (s.state h).sentReadTill < tillId) (hwill : (s.state h).willReadTill < tillId)
    (hneeds : (s.chats h).readInboxTillNeedsRequest tillId ∨ (s.state h).willReadTill ≠ 0)
    (hin : ¬Overtaken s h tillId) (force : Bool) (facts : Facts) :
    Fine (Advance s) (s.acceptTill h tillId force facts) := by
  have haccept := hr.accept hpos hsent hwill hneeds hin
  have hhurry : Fine (Advance s) (s.setState h
      { s.state h with willReadTill := tillId, willReadWhen := 0 }).sendReadRequests :=
    (haccept 0).hurry hc.toSoon rfl hpos.ne' hwill.le
  have hmark : ∀ {s'} (stillUnread : ℤ), Advance s s' →
      Advance s (s'.markRead h tillId facts stillUnread) :=
    fun stillUnread ha => ha.setChat fun till hread => isRead_markRead hread facts stillUnread
  rw [acceptTill]
  cases facts.stillUnread with
  | none => exact hhurry
  | some stillUnread =>
    dsimp only
    split_ifs
    · exact hhurry.map fun s' => hmark stillUnread
    · exact hmark stillUnread (hc.advance_postponeRead haccept hwill fun hwhen hzero =>
        hwhen (hr.idle h hzero))

/-! ## `readInboxTill` -/

section

variable {force : Bool} {facts : Facts}

theorem pos_of_isServerMsgId (hserver : IsServerMsgId tillId = true) : 0 < tillId := by
  rw [IsServerMsgId, Bool.and_eq_true, decide_eq_true_eq] at hserver
  exact hserver.1

/-- What is known of a till id that is accepted. -/
theorem of_accepts (hpos : 0 < tillId) (ha : s.accepts h tillId force facts = true) :
    (s.state h).sentReadTill < tillId ∧ (s.state h).willReadTill < tillId ∧
      ((s.chats h).readInboxTillNeedsRequest tillId ∨ (s.state h).willReadTill ≠ 0) := by
  have hzero : decide (tillId ≤ 0) = false := decide_eq_false (not_le.mpr hpos)
  rw [accepts, any_lookup hzero, any_lookup hzero, any_lookup (decide_eq_false (by simp))] at ha
  simp only [Bool.and_eq_true, Bool.or_eq_true, Bool.not_eq_true', decide_eq_false_iff_not,
    decide_eq_true_eq, not_le] at ha
  exact ⟨ha.1.1.1.2, ha.1.1.2, ha.1.2⟩

/-- The ways `readInboxTill` goes. -/
theorem readInboxTillBody_cases (s : Histories Peer) (h : Peer) (tillId : MsgId) (force : Bool)
    (facts : Facts) :
    s.accepts h tillId force facts = true ∧
        s.readInboxTillBody h tillId force facts = s.acceptTill h tillId force facts ∨
      s.readInboxTillBody h tillId force facts = .ok s ∨
      s.readInboxTillBody h tillId force facts = s.sendPendingReadInbox h ∨
      s.readInboxTillBody h tillId force facts =
        .ok (s.setChat h ((s.chats h).setInboxReadTill tillId)) := by
  rw [readInboxTillBody]
  dsimp only
  split_ifs with hasked htrack hsent hwill hforce hneeds hcount
  · exact .inr (.inl rfl)
  · exact .inr (.inl rfl)
  · exact .inr (.inl rfl)
  · exact .inr (.inr (.inl rfl))
  · exact .inr (.inl rfl)
  · exact .inr (.inl rfl)
  · exact .inr (.inr (.inr rfl))
  · refine .inl ⟨?_, rfl⟩
    have hor : ∀ a b : Bool, ¬(!a && !b) = true → (a || b) = true := by decide
    have hcounted : ∀ a b c : Bool, ¬(!a && b && c) = true → (a || !(b && c)) = true := by decide
    have htracks : facts.trackUnreadMessages = true := by simpa using htrack
    rw [Bool.not_eq_true] at hsent hwill
    rw [accepts, hor _ _ hasked, htracks, hsent, hwill, hor _ _ hneeds, hcounted _ _ _ hcount]
    rfl

/-- **`readInboxTill` keeps everything**, where a till id it accepts is not overtaken. -/
theorem fine_readInboxTill (hr : Reading s) (hc : Clock s)
    (hin : s.accepts h tillId force facts = true → ¬Overtaken s h tillId) :
    Fine (Advance s) (s.readInboxTill h tillId force facts) := by
  rw [readInboxTill]
  split_ifs with hexpects
  · refine Fine.map (P := Advance s) ?_ fun s' ha => ha.setChat fun till hread =>
      hread.syncGuard facts tillId
    rcases readInboxTillBody_cases s h tillId force facts with ⟨ha, heq⟩ | heq | heq | heq
    · have hpos : 0 < tillId := by
        rcases Bool.or_eq_true_iff.mp hexpects with hserver | hzero
        · exact pos_of_isServerMsgId hserver
        · obtain ⟨hzero, hforce⟩ := Bool.and_eq_true_iff.mp hzero
          rw [of_decide_eq_true hzero, (Bool.not_eq_true' force).mp hforce] at ha
          exact nomatch ha
      obtain ⟨hsent, hwill, hneeds⟩ := of_accepts hpos ha
      rw [heq]
      exact fine_acceptTill hr hc hpos hsent hwill hneeds (hin ha) force facts
    · rw [heq]
      exact .refl hr hc
    · rw [heq]
      exact fine_sendPendingReadInbox hr hc h
    · rw [heq]
      exact (Advance.refl hr hc).setChat fun till hread => hread.setInboxReadTill tillId
  · exact ⟨nofun, nofun⟩

end

/-! ## Answers -/

/-- A state changes, but neither its till id nor its time. -/
theorem same_setState (hwill : st.willReadTill = (s.state h).willReadTill)
    (hwhen : st.willReadWhen = (s.state h).willReadWhen) : Same s (s.setState h st) := by
  refine ⟨fun h' => ?_, fun h' => ?_, rfl, rfl, rfl, le_rfl, List.Subset.refl _⟩
  · rw [state_setState]
    split_ifs with heq
    · rw [heq]; exact hwill
    · rfl
  · rw [state_setState]
    split_ifs with heq
    · rw [heq]; exact hwhen
    · rfl

theorem Same.trans (hs : Same s s') (hs' : Same s' s'') : Same s s'' where
  will := fun h => (hs'.will h).trans (hs.will h)
  when := fun h => (hs'.when h).trans (hs.when h)
  timer := hs'.timer.trans hs.timer
  now := hs'.now.trans hs.now
  mode := hs'.mode.trans hs.mode
  next := hs.next.trans hs'.next
  requested := List.Subset.trans hs.requested hs'.requested

/-- What was sent is read, if the chat is known to be. -/
theorem Reading.take (hr : Reading s) (done : Bool)
    (hread : (s.chats h).IsRead (s.state h).sentReadTill) :
    Reading (s.setState h { s.state h with sentReadDone := done, sentReadTill := 0 }) := by
  refine hr.setState (fun hp => ⟨hp.postponed, hp.sent⟩) rfl le_rfl (hr.idle h) ?_ ?_ ?_
  · exact (hr.above h).imp_right fun habove => (hr.nonneg h).trans_lt habove
  · rintro r hlive rfl till hg
    exact ⟨.inl rfl, (hr.known r hlive till hg).2⟩
  · rintro r hlive rfl hl till hg
    refine ⟨fun _ => ?_, (hr.listed r hlive hl till hg).2⟩
    rcases (hr.known r hlive till hg).1 with hzero | hle
    · exact (hr.listed r hlive hl till hg).1 hzero
    · exact hread.mono hle

/-- **The assertion in the handler holds**: what was sent later is above what is answered. -/
theorem fine_readDone (hr : Reading s) (hknown : (s.state h).sentReadTill = 0 ∨
      tillId ≤ (s.state h).sentReadTill) :
    Fine (fun s' => Reading s' ∧ Same s s') (s.readDone h tillId) := by
  have hkeep : ∀ done, Reading (s.setState h { s.state h with sentReadDone := done }) := by
    refine fun done => hr.setState (fun hp => ⟨hp.postponed, hp.sent⟩) rfl (hr.nonneg h)
      (hr.idle h) (hr.above h) ?_ ?_
    · rintro r hlive rfl till hg
      exact hr.known r hlive till hg
    · rintro r hlive rfl hl till hg
      exact hr.listed r hlive hl till hg
  have hsame : ∀ done, Same s (s.setState h { s.state h with sentReadDone := done }) :=
    fun _ => same_setState rfl rfl
  rw [readDone]
  split_ifs with hsent hrefresh hbelow
  · have hquiet := quiet_requestDialogEntry (hkeep true).plain h none
    exact ⟨(hkeep true).quiet hquiet, (hsame true).trans (hquiet.same (hkeep true))⟩
  · rw [← hsent] at hrefresh
    exact ⟨hr.take true (History.isRead_of_not_refreshNeeded (hr.nonneg h) hrefresh),
      same_setState rfl rfl⟩
  · exact ⟨hkeep _, hsame _⟩
  · rcases hknown with hzero | hle
    · exact absurd (.inl hzero) hbelow
    · exact absurd (.inr (lt_of_le_of_ne hle (Ne.symm hsent))) hbelow

/-- **An answered read request** is taken back, and what is due is sent. -/
theorem fine_readFinished (hr : Reading s) (hc : Clock s) (hknown : (s.state h).sentReadTill = 0 ∨
      tillId ≤ (s.state h).sentReadTill) (id : ℕ) :
    Fine (Advance s) (s.readFinished h id tillId) := by
  rw [readFinished]
  refine (fine_readDone hr hknown).bind fun s₁ ⟨hr₁, hsame⟩ => ?_
  obtain ⟨s₂, hok, hadvance, -⟩ := hr₁.sendAdvance (hsame.soon hc.toSoon)
  rw [hok]
  refine (fine_checkPostponed hadvance.reading.plain h id).mono fun s₃ hquiet => ?_
  exact Advance.quiet ⟨hadvance.reading, hadvance.clock,
    fun h' => hsame.andThen (hadvance.patient h')⟩ hquiet

theorem fine_answered (hr : Reading s) (hc : Clock s) (requestId : ℕ) :
    Fine (Advance s) (s.answered requestId) := by
  rw [answered]
  cases hfind : s.live.find? fun request => request.requestId = requestId with
  | none => exact .refl hr hc
  | some request =>
    have hlive := List.mem_of_find?_eq_some hfind
    have hcancel : Quiet s (s.cancel [requestId]) := quiet_cancel hr.plain _
    have hsame := hcancel.same hr
    dsimp only
    cases hg : request.generator with
    | passed =>
      refine (fine_checkPostponed hcancel.plain request.history request.id).mono fun s' hquiet => ?_
      exact .of_quiet hr hc (hcancel.trans hquiet)
    | readInbox till =>
      refine (fine_readFinished (hr.quiet hcancel) (hsame.clock hc)
        (hr.known request hlive till hg).1 request.id).mono fun s' ha => ?_
      exact ⟨ha.reading, ha.clock, fun h' => hsame.andThen (ha.patient h')⟩

/-- **The end of `dialogEntryApplied`** takes back what was sent. -/
theorem advance_dialogEntryReturns (hr : Reading s) (hc : Clock s) :
    Advance s s.dialogEntryReturns := by
  rw [dialogEntryReturns]
  cases happlying : s.applying with
  | nil => exact .refl hr hc
  | cons h applying =>
    have hdrop : Quiet s { s with applying := applying } :=
      .of_states hr.plain rfl rfl rfl rfl rfl le_rfl (List.Subset.refl _) fun _ hr => hr
    have hadvance : Advance s { s with applying := applying } := .of_quiet hr hc hdrop
    dsimp only
    cases hst : lookup { s with applying := applying } h with
    | none => exact hadvance
    | some st =>
      obtain rfl := state_of_lookup hst
      dsimp only
      split_ifs with hsent
      · set s₁ : Histories Peer := { s with applying := applying }
        set chat := (s₁.chats h).setInboxReadTill (s₁.state h).sentReadTill
        have hread : ((s₁.setChat h chat).chats h).IsRead (s₁.state h).sentReadTill := by
          show ((Function.update s₁.chats h chat) h).IsRead _
          rw [Function.update_self]
          exact History.isRead_setInboxReadTill _ _
        have hchat : Advance s (s₁.setChat h chat) :=
          hadvance.setChat fun till hread => hread.setInboxReadTill _
        have htaken := hchat.reading.take (h := h) (s₁.state h).sentReadDone hread
        have hsame : Same (s₁.setChat h chat) ((s₁.setChat h chat).setState h
            { s₁.state h with sentReadTill := 0 }) := same_setState rfl rfl
        exact Advance.quiet ⟨htaken, hsame.clock hchat.clock,
          fun h' => (hchat.patient h').andThen hsame⟩ (quiet_checkEmptyState htaken.plain h)
      · exact hadvance

/-! ## Any event -/

/-- A till id that is accepted is not overtaken. -/
def Event.InOrder (s : Histories Peer) : Event Peer → Prop
  | .readInboxTill history tillId force facts =>
    s.accepts history tillId force facts = true → ¬Overtaken s history tillId
  | _ => True

/-- **The timer fires**, and what is due is settled. -/
theorem fine_timer (hr : Reading s) (hc : Clock s) :
    Fine (fun s' => Advance s s' ∧ ∀ h, Due s h → Settled s s' h)
      { s with readRequestsTimer := none }.sendReadRequests := by
  set s₁ : Histories Peer := { s with readRequestsTimer := none }
  have hr₁ : Reading s₁ :=
    ⟨hr.plain, hr.bounded, hr.nonneg, hr.idle, hr.above, hr.known, hr.listed⟩
  obtain ⟨s', hok, hadvance, hsettled⟩ := hr₁.sendAdvance ⟨hc.when, fun _ h => nomatch h⟩
  rw [hok]
  refine ⟨⟨hadvance.reading, hadvance.clock, fun h hwill => ?_⟩, hsettled⟩
  by_cases hdue : Due s h
  · exact .inl (hsettled h hdue)
  · rcases hadvance.patient h hwill with hsettled | hwaits
    · exact .inl hsettled
    · exact .inr ⟨hwaits.will, hwaits.when, fun hwhen => absurd ⟨hwill, hwhen⟩ hdue⟩

/-- **Every event keeps everything.** -/
theorem fine_step (hr : Reading s) (hc : Clock s) {event : Event Peer} (hin : event.InOrder s) :
    Fine (Advance s) (s.step event) := by
  cases event with
  | readInboxTill history tillId force facts => exact fine_readInboxTill hr hc hin
  | sendPendingReadInbox history => exact fine_sendPendingReadInbox hr hc history
  | readRequestsTimer =>
    rw [step]
    split_ifs
    · exact (fine_timer hr hc).mono fun s' h => h.1
    · exact .refl hr hc
  | sendRequest history type => exact .of_quiet hr hc (quiet_sendRequest hr.plain history type)
  | cancelRequest id => exact (fine_cancelRequest hr.plain id).mono fun _ => .of_quiet hr hc
  | answered requestId => exact fine_answered hr hc requestId
  | requestDialogEntry history callback =>
    exact .of_quiet hr hc (quiet_requestDialogEntry hr.plain history callback)
  | sendDialogRequests =>
    rw [step]
    split
    · exact .refl hr hc
    · have hcall : ∀ calls, Quiet s { s with postponedCalls := calls } := fun _ =>
        .of_states hr.plain rfl rfl rfl rfl rfl le_rfl (List.Subset.refl _) fun _ hr => hr
      exact .of_quiet hr hc ((hcall _).andThen quiet_sendDialogRequests)
  | peerDialogs requestId =>
    exact .of_quiet hr hc (.of_states hr.plain rfl rfl rfl rfl rfl le_rfl (List.Subset.refl _)
      fun _ hr => hr)
  | finalizeNext => exact .of_quiet hr hc (quiet_finalizeNext hr.plain)
  | dialogEntryApplied history => exact .of_quiet hr hc (quiet_dialogEntryApplied hr.plain history)
  | dialogEntryReturns => exact advance_dialogEntryReturns hr hc
  | setSendReadMessages value =>
    exact ⟨⟨hr.plain, hr.bounded, hr.nonneg, hr.idle, hr.above, hr.known, hr.listed⟩,
      ⟨⟨hc.when, hc.timer⟩, hc.armed⟩, fun h _ => .inr ⟨rfl, rfl, fun _ => rfl⟩⟩
  | setInboxReadTill history upTo =>
    exact (Advance.refl hr hc).setChat fun till hread => hread.setInboxReadTill upTo
  | setUnreadCount history facts newUnreadCount =>
    exact (Advance.refl hr hc).setChat fun till hread => hread.setUnreadCount facts newUnreadCount
  | tick milliseconds =>
    have hle : s.now + kReadRequestTimeout ≤ s.now + milliseconds + kReadRequestTimeout :=
      Nat.add_le_add_right (Nat.le_add_right _ _) _
    exact ⟨⟨hr.plain, hr.bounded, hr.nonneg, hr.idle, hr.above, hr.known, hr.listed⟩,
      ⟨⟨fun h => (hc.when h).trans hle, fun time htime => (hc.timer time htime).trans hle⟩,
        hc.armed⟩, fun h _ => .inr ⟨rfl, rfl, fun _ => rfl⟩⟩

end Yunogram.Histories
