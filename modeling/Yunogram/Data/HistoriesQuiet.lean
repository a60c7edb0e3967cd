import Yunogram.Data.HistoriesRead

/-!
# Data/HistoriesQuiet — what leaves reading alone

Requests of other kinds come and go in the states of the chats beside the reading.  `Quiet` says of
two moments that nothing about reading changed between them: how far each chat is read and will be,
the timer, and which read requests are in flight; a request that was in flight is not listed anew by
its chat.  Everything is assembled from three changes, of a state (`quiet_setState`), a request that
is sent (`quiet_generate`) and requests that are cancelled (`quiet_cancel`).
-/

open Machinery

namespace Yunogram.Histories

variable {Peer : Type} [LinearOrder Peer] {s s' s'' : Histories Peer} {h h' : Peer}
  {st st' st'' : State} {n id : ℕ} {r : ApiRequest Peer}

/-! ## Reading a state back -/

theorem lookup_setState (s : Histories Peer) (h h' : Peer) (st : State) :
    (s.setState h st).lookup h' = if h' = h then some st else s.lookup h' :=
  FlatMap.find?_assign _ _ _ _

theorem state_setState (s : Histories Peer) (h h' : Peer) (st : State) :
    (s.setState h st).state h' = if h' = h then st else s.state h' := by
  rw [state, lookup_setState]
  split_ifs
  · rfl
  · rfl

@[simp] theorem state_setState_self : (s.setState h st).state h = st := by
  rw [state_setState, if_pos rfl]

theorem state_setState_ne (hne : h' ≠ h) : (s.setState h st).state h' = s.state h' := by
  rw [state_setState, if_neg hne]

theorem state_of_lookup (hst : s.lookup h = some st) : s.state h = st := by
  rw [state, hst, Option.getD_some]

theorem state_of_lookup_none (hnone : s.lookup h = none) : s.state h = {} := by
  rw [state, hnone, Option.getD_none]

theorem lookup_isSome_of_will (hwill : (s.state h).willReadTill ≠ 0) :
    s.lookup h = some (s.state h) := by
  cases hst : s.lookup h with
  | none => exact absurd (by rw [state_of_lookup_none hst]) hwill
  | some st => rw [state_of_lookup hst]

/-- What `any` of a chat's state says, when it is false of a state with nothing in it. -/
theorem any_lookup {p : State → Bool} (hempty : p {} = false) :
    (s.lookup h).any p = p (s.state h) := by
  rw [state]
  cases s.lookup h with
  | none => exact hempty.symm
  | some st => rfl

/-! ## A state whose reading is left alone -/

/-- The requests that are sent when nothing is deleted any more come from outside. -/
structure State.Plain (st : State) : Prop where
  postponed : ∀ id g, st.postponed.find? id = some g → g = .passed
  sent : ∀ id q, st.sent.find? id = some q → q.type = .history → q.generator = .passed

theorem State.plain_empty : State.Plain {} where
  postponed := fun _ _ h => nomatch h
  sent := fun _ _ h => nomatch h

/-- Nothing about reading differs, and a request sent before number `n` is not listed anew. -/
structure State.Quiet (n : ℕ) (st st' : State) : Prop where
  will : st'.willReadTill = st.willReadTill
  sent : st'.sentReadTill = st.sentReadTill
  when : st'.willReadWhen = st.willReadWhen
  listed : ∀ id q, st'.sent.find? id = some q → st.sent.find? id = some q ∨ n ≤ q.id
  plain : st.Plain → st'.Plain

namespace State

theorem Quiet.refl (n : ℕ) (st : State) : Quiet n st st :=
  ⟨rfl, rfl, rfl, fun _ _ h => .inl h, id⟩

theorem Quiet.trans (hq : Quiet n st st') (hq' : Quiet n st' st'') : Quiet n st st'' where
  will := hq'.will.trans hq.will
  sent := hq'.sent.trans hq.sent
  when := hq'.when.trans hq.when
  listed := by
    intro id q hfind
    rcases hq'.listed id q hfind with hfind | hid
    · exact hq.listed id q hfind
    · exact .inr hid
  plain := fun hplain => hq'.plain (hq.plain hplain)

theorem quiet_flag (st : State) (flag : Bool) :
    Quiet n st { st with postponedRequestEntry := flag } :=
  ⟨rfl, rfl, rfl, fun _ _ h => .inl h, fun h => ⟨h.postponed, h.sent⟩⟩

theorem quiet_postponeEntry (st : State) (requested : Bool) :
    Quiet n st (st.postponeEntry requested) := by
  rw [postponeEntry]
  split_ifs
  · exact quiet_flag st true
  · exact .refl n st

/-- What is found after a request was added. -/
theorem find?_emplace_sent {q q' : SentRequest} {k : ℕ}
    (hfind : (st.sent.emplace id q).find? k = some q') : st.sent.find? k = some q' ∨ q' = q := by
  rw [FlatMap.find?_emplace] at hfind
  split_ifs at hfind with hk
  · cases hold : st.sent.find? id with
    | none =>
      rw [hold] at hfind
      exact .inr (Option.some.inj hfind).symm
    | some q'' =>
      rw [hold] at hfind
      exact .inl (hk ▸ hold.trans hfind)
  · exact .inl hfind

/-- A request is added; one for messages comes from outside. -/
theorem quiet_emplace_sent (st : State) (id : ℕ) {q : SentRequest} (hn : q.id = n)
    (hq : q.type = .history → q.generator = .passed) :
    Quiet n st { st with sent := st.sent.emplace id q } where
  will := rfl
  sent := rfl
  when := rfl
  listed := by
    intro k q' hfind
    rcases find?_emplace_sent hfind with hfind | rfl
    · exact .inl hfind
    · exact .inr hn.ge
  plain := by
    refine fun hplain => ⟨hplain.postponed, fun k q' hfind => ?_⟩
    rcases find?_emplace_sent hfind with hfind | rfl
    · exact hplain.sent k q' hfind
    · exact hq

theorem quiet_filter_sent (st : State) (p : ℕ → SentRequest → Bool) :
    Quiet n st { st with sent := st.sent.filter p } := by
  have hfilter : ∀ k q, (st.sent.filter p).find? k = some q → st.sent.find? k = some q := by
    intro k q hfind
    rw [FlatMap.find?_filter, Option.filter_eq_some_iff] at hfind
    exact hfind.1
  exact
    { will := rfl
      sent := rfl
      when := rfl
      listed := fun k q hfind => .inl (hfilter k q hfind)
      plain := fun hplain =>
        ⟨hplain.postponed, fun k q hfind => hplain.sent k q (hfilter k q hfind)⟩ }

theorem quiet_postponed (st : State) {postponed : FlatMap ℕ Generator}
    (hp : st.Plain → ∀ id g, postponed.find? id = some g → g = .passed) :
    Quiet n st { st with postponed := postponed } :=
  ⟨rfl, rfl, rfl, fun _ _ h => .inl h, fun h => ⟨hp h, h.sent⟩⟩

theorem passed_emplace {m : FlatMap ℕ Generator} {g : Generator} (hg : g = .passed)
    (hm : ∀ id g, m.find? id = some g → g = .passed) (k : ℕ) :
    ∀ id g', (m.emplace k g).find? id = some g' → g' = .passed := by
  intro id g' hfind
  rw [FlatMap.find?_emplace] at hfind
  split_ifs at hfind
  · cases hold : m.find? k with
    | none =>
      rw [hold] at hfind
      exact Option.some.inj hfind ▸ hg
    | some g'' =>
      rw [hold] at hfind
      exact hm k g' (hold.trans hfind)
  · exact hm id g' hfind

/-- What is resent comes from outside. -/
theorem passed_foldl (l : List (ℕ × SentRequest)) (hl : ∀ e ∈ l, e.2.generator = .passed)
    {m : FlatMap ℕ Generator} (hm : ∀ id g, m.find? id = some g → g = .passed) :
    ∀ id g, (l.foldl (fun map e => map.emplace e.1 e.2.generator) m).find? id = some g →
      g = .passed := by
  induction l generalizing m with
  | nil => exact hm
  | cons e l ih =>
    exact ih (fun e' he' => hl e' (List.mem_cons_of_mem _ he'))
      (passed_emplace (hl e List.mem_cons_self) hm e.1)

theorem quiet_resend (st : State) : Quiet n st st.resend := by
  refine (quiet_postponed st fun hplain => ?_).trans (quiet_filter_sent _ _)
  refine passed_foldl _ (fun e he => ?_) hplain.postponed
  obtain ⟨hmem, htype⟩ := List.mem_filter.mp he
  exact hplain.sent e.1 e.2 (FlatMap.find?_eq_some.mpr hmem) (of_decide_eq_true htype)

end State

/-! ## Two moments with nothing about reading between them -/

/-- A request in flight is listed: its chat has it among the sent ones. -/
def Listed (s : Histories Peer) (r : ApiRequest Peer) : Prop :=
  ∃ q, (s.state r.history).sent.find? r.id = some q ∧ q.id = r.requestId

/-- The states of all chats are plain. -/
def Plain (s : Histories Peer) : Prop := ∀ h, (s.state h).Plain

/-- Nothing about reading happens between two moments. -/
structure Quiet (s s' : Histories Peer) : Prop where
  will : ∀ h, (s'.state h).willReadTill = (s.state h).willReadTill
  sent : ∀ h, (s'.state h).sentReadTill = (s.state h).sentReadTill
  when : ∀ h, (s'.state h).willReadWhen = (s.state h).willReadWhen ∨
    (s.state h).willReadTill = 0 ∧ (s'.state h).willReadWhen = 0
  chats : s'.chats = s.chats
  timer : s'.readRequestsTimer = s.readRequestsTimer
  now : s'.now = s.now
  mode : s'.sendReadMessages = s.sendReadMessages
  next : s.nextRequestId ≤ s'.nextRequestId
  requested : s.requested ⊆ s'.requested
  listed : ∀ r, r.requestId < s.nextRequestId → Listed s' r → Listed s r
  plain : Plain s'
  live : ∀ r ∈ s'.live, r ∈ s.live ∨
    s.nextRequestId ≤ r.requestId ∧ r.requestId < s'.nextRequestId ∧ r.generator = .passed

theorem Quiet.refl (hp : Plain s) : Quiet s s where
  will := fun _ => rfl
  sent := fun _ => rfl
  when := fun _ => .inl rfl
  chats := rfl
  timer := rfl
  now := rfl
  mode := rfl
  next := le_rfl
  requested := List.Subset.refl _
  listed := fun _ _ h => h
  plain := hp
  live := fun _ h => .inl h

theorem Quiet.trans (hq : Quiet s s') (hq' : Quiet s' s'') : Quiet s s'' where
  will := fun h => (hq'.will h).trans (hq.will h)
  sent := fun h => (hq'.sent h).trans (hq.sent h)
  when := by
    intro h
    rcases hq'.when h with heq | ⟨hzero, hwhen⟩
    · rcases hq.when h with heq' | ⟨hzero, hwhen⟩
      · exact .inl (heq.trans heq')
      · exact .inr ⟨hzero, heq.trans hwhen⟩
    · exact .inr ⟨(hq.will h).symm.trans hzero, hwhen⟩
  chats := hq'.chats.trans hq.chats
  timer := hq'.timer.trans hq.timer
  now := hq'.now.trans hq.now
  mode := hq'.mode.trans hq.mode
  next := hq.next.trans hq'.next
  requested := List.Subset.trans hq.requested hq'.requested
  listed := fun r hr hl => hq.listed r hr (hq'.listed r (hr.trans_le hq.next) hl)
  plain := hq'.plain
  live := by
    intro r hr
    rcases hq'.live r hr with hr | ⟨hle, hlt, hg⟩
    · rcases hq.live r hr with hr | ⟨hle, hlt, hg⟩
      · exact .inl hr
      · exact .inr ⟨hle, hlt.trans_le hq'.next, hg⟩
    · exact .inr ⟨hq.next.trans hle, hlt, hg⟩

theorem Quiet.andThen (hq : Quiet s s') (hq' : Plain s' → Quiet s' s'') : Quiet s s'' :=
  hq.trans (hq' hq.plain)

/-- What is not looked at by reading may change. -/
theorem Quiet.of_states (hp : Plain s) (hstates : s'.states = s.states)
    (hchats : s'.chats = s.chats) (htimer : s'.readRequestsTimer = s.readRequestsTimer)
    (hnow : s'.now = s.now) (hmode : s'.sendReadMessages = s.sendReadMessages)
    (hnext : s.nextRequestId ≤ s'.nextRequestId) (hrequested : s.requested ⊆ s'.requested)
    (hlive : ∀ r ∈ s'.live, r ∈ s.live) :
    Quiet s s' := by
  have hstate : ∀ h, s'.state h = s.state h := fun h => by rw [state, lookup, hstates]; rfl
  exact
    { will := fun h => by rw [hstate]
      sent := fun h => by rw [hstate]
      when := fun h => .inl (by rw [hstate])
      chats := hchats
      timer := htimer
      now := hnow
      mode := hmode
      next := hnext
      requested := hrequested
      listed := fun r _ hl => by rwa [Listed, ← hstate]
      plain := fun h => by rw [hstate]; exact hp h
      live := fun r hr => .inl (hlive r hr) }

/-- **A state changes, and nothing about reading in it.** -/
theorem Quiet.change (hp : Plain s)
    (hq : State.Quiet s.nextRequestId (s.state h) st)
    (hstates : s'.states = s.states.assign h st) (hchats : s'.chats = s.chats)
    (htimer : s'.readRequestsTimer = s.readRequestsTimer) (hnow : s'.now = s.now)
    (hmode : s'.sendReadMessages = s.sendReadMessages)
    (hnext : s.nextRequestId ≤ s'.nextRequestId) (hrequested : s.requested ⊆ s'.requested)
    (hlive : ∀ r ∈ s'.live, r ∈ s.live ∨
      s.nextRequestId ≤ r.requestId ∧ r.requestId < s'.nextRequestId ∧ r.generator = .passed) :
    Quiet s s' := by
  have hstate : ∀ h', s'.state h' = if h' = h then st else s.state h' := by
    intro h'
    rw [state, lookup, hstates]
    exact state_setState s h h' st
  exact
    { will := by
        intro h'
        rw [hstate]
        split_ifs with heq
        · rw [heq]; exact hq.will
        · rfl
      sent := by
        intro h'
        rw [hstate]
        split_ifs with heq
        · rw [heq]; exact hq.sent
        · rfl
      when := by
        intro h'
        rw [hstate]
        split_ifs with heq
        · rw [heq]; exact .inl hq.when
        · exact .inl rfl
      chats := hchats
      timer := htimer
      now := hnow
      mode := hmode
      next := hnext
      requested := hrequested
      listed := by
        rintro r hr ⟨q, hfind, hid⟩
        rw [hstate] at hfind
        split_ifs at hfind with heq
        · rcases hq.listed r.id q hfind with hfind | hle
          · exact ⟨q, by rw [heq]; exact hfind, hid⟩
          · exact absurd (hle.trans_eq hid) (Nat.not_le.mpr hr)
        · exact ⟨q, hfind, hid⟩
      plain := by
        intro h'
        rw [hstate]
        split_ifs
        · exact hq.plain (hp h)
        · exact hp h'
      live := hlive }

theorem quiet_setState (hp : Plain s)
    (hq : State.Quiet s.nextRequestId (s.state h) st) : Quiet s (s.setState h st) :=
  .change hp hq rfl rfl rfl rfl rfl le_rfl (List.Subset.refl _) fun _ hr => .inl hr

/-- **Requests are cancelled.** -/
theorem quiet_cancel (hp : Plain s) (ids : List ℕ) : Quiet s (s.cancel ids) :=
  .of_states hp rfl rfl rfl rfl rfl le_rfl (List.Subset.refl _) fun _ hr => List.mem_of_mem_filter hr

theorem state_checkEmptyState (s : Histories Peer) (h h' : Peer) :
    (s.checkEmptyState h).state h' =
      if h' = h ∧ (s.lookup h).any State.isEmpty then {} else s.state h' := by
  rw [checkEmptyState]
  by_cases hempty : (s.lookup h).any State.isEmpty
  · rw [if_pos hempty, state, lookup, FlatMap.find?_erase]
    by_cases heq : h' = h
    · rw [if_pos heq, if_pos ⟨heq, hempty⟩]
      rfl
    · rw [if_neg heq, if_neg fun h => heq h.1]
      rfl
  · rw [if_neg hempty, if_neg fun h => hempty h.2]

/-- Only states are forgotten. -/
theorem checkEmptyState_eq (s : Histories Peer) (h : Peer) :
    s.checkEmptyState h = { s with states := (s.checkEmptyState h).states } := by
  rw [checkEmptyState]
  split_ifs
  · rfl
  · rfl

/-- **A state with nothing in it is forgotten.** -/
theorem quiet_checkEmptyState (hp : Plain s) (h : Peer) : Quiet s (s.checkEmptyState h) := by
  have hzero : (s.lookup h).any State.isEmpty →
      (s.state h).willReadTill = 0 ∧ (s.state h).sentReadTill = 0 := by
    intro hempty
    cases hst : s.lookup h with
    | none => rw [hst] at hempty; exact nomatch hempty
    | some st =>
      rw [hst, Option.any_some, State.isEmpty] at hempty
      simp only [Bool.and_eq_true, decide_eq_true_eq] at hempty
      rw [state_of_lookup hst]
      exact ⟨hempty.1.2, hempty.2⟩
  exact
    { will := by
        intro h'
        rw [state_checkEmptyState]
        split_ifs with hempty
        · rw [hempty.1]; exact (hzero hempty.2).1.symm
        · rfl
      sent := by
        intro h'
        rw [state_checkEmptyState]
        split_ifs with hempty
        · rw [hempty.1]; exact (hzero hempty.2).2.symm
        · rfl
      when := by
        intro h'
        rw [state_checkEmptyState]
        split_ifs with hempty
        · rw [hempty.1]; exact .inr ⟨(hzero hempty.2).1, rfl⟩
        · exact .inl rfl
      chats := by rw [checkEmptyState_eq]
      timer := by rw [checkEmptyState_eq]
      now := by rw [checkEmptyState_eq]
      mode := by rw [checkEmptyState_eq]
      next := by rw [checkEmptyState_eq]
      requested := by rw [checkEmptyState_eq]; exact List.Subset.refl _
      listed := by
        rintro r - ⟨q, hfind, hid⟩
        rw [state_checkEmptyState] at hfind
        split_ifs at hfind
        · exact nomatch hfind
        · exact ⟨q, hfind, hid⟩
      plain := by
        intro h'
        rw [state_checkEmptyState]
        split_ifs
        · exact State.plain_empty
        · exact hp h'
      live := fun r hr => .inl (by rwa [checkEmptyState_eq] at hr) }

/-! ## What the requests of other kinds do -/

theorem quiet_postponeRequestDialogEntries (hp : Plain s) :
    Quiet s s.postponeRequestDialogEntries := by
  rw [postponeRequestDialogEntries]
  split_ifs
  · exact .refl hp
  · exact .of_states hp rfl rfl rfl rfl rfl le_rfl (List.Subset.refl _) fun _ hr => hr

theorem quiet_requestDialogEntry (hp : Plain s) (h : Peer) (callback : Option Callback) :
    Quiet s (s.requestDialogEntry h callback) := by
  rw [requestDialogEntry]
  split_ifs
  · exact .refl hp
  · split
    · exact .of_states hp rfl rfl rfl rfl rfl le_rfl (List.Subset.refl _) fun _ hr => hr
    · split
      · exact .of_states hp rfl rfl rfl rfl rfl le_rfl (List.Subset.refl _) fun _ hr => hr
      · have hpending : Quiet s
            { s with
              dialogRequestsPending := s.dialogRequestsPending.emplace h callback.toList } :=
          .of_states hp rfl rfl rfl rfl rfl le_rfl (List.Subset.refl _) fun _ hr => hr
        exact hpending.andThen quiet_postponeRequestDialogEntries

theorem quiet_sendDialogRequests (hp : Plain s) : Quiet s s.sendDialogRequests := by
  have hflags : ∀ (l : List Peer) {s : Histories Peer}, Plain s → Quiet s (l.foldl
      (fun s history =>
        s.setState history { s.state history with postponedRequestEntry := true }) s) := by
    intro l
    induction l with
    | nil => exact .refl
    | cons h l ih => exact fun hp => (quiet_setState hp (State.quiet_flag _ true)).andThen ih
  rw [sendDialogRequests]
  split_ifs
  · exact .refl hp
  · exact (hflags _ hp).andThen fun hp =>
      .of_states hp rfl rfl rfl rfl rfl (Nat.le_succ _)
      (List.Subset.refl _) fun _ hr => hr

theorem quiet_dialogEntryApplied (hp : Plain s) (h : Peer) :
    Quiet s (s.dialogEntryApplied h) := by
  by_cases hflag : (s.lookup h).any State.postponedRequestEntry
  · rw [dialogEntryApplied, if_pos hflag]
    exact .refl hp
  · rw [dialogEntryApplied, if_neg hflag]
    exact .of_states hp rfl rfl rfl rfl rfl le_rfl (List.Subset.refl _) fun _ hr => hr

theorem quiet_finalizeNext (hp : Plain s) : Quiet s s.finalizeNext := by
  cases hlist : s.finalizing with
  | nil =>
    rw [finalizeNext, hlist]
    exact .refl hp
  | cons h finalizing =>
    have hdrop : Quiet s { s with finalizing := finalizing } :=
      .of_states hp rfl rfl rfl rfl rfl le_rfl (List.Subset.refl _) fun _ hr => hr
    rw [finalizeNext, hlist]
    dsimp only
    split_ifs
    · exact hdrop
    · exact hdrop.andThen fun hp => quiet_dialogEntryApplied hp h

/-- **A request from outside is sent.** -/
theorem quiet_generate (hp : Plain s) (h : Peer) (id : ℕ)
    (hq : State.Quiet s.nextRequestId (s.state h) st) :
    Quiet s ((s.generate h id .passed).setState h st) := by
  refine .change hp hq rfl rfl rfl rfl rfl (Nat.le_succ _) (List.subset_append_left _ _)
    fun r hr => ?_
  rcases List.mem_append.mp hr with hr | hr
  · exact .inl hr
  · rw [List.mem_singleton.mp hr]
    exact .inr ⟨le_rfl, Nat.lt_succ_self _, rfl⟩

theorem quiet_sendPostponed (hp : Plain s) (h : Peer) {l : List (ℕ × Generator)}
    (hl : ∀ e ∈ l, e.2 = .passed) : Quiet s (s.sendPostponed h l) := by
  induction l generalizing s with
  | nil => exact .refl hp
  | cons e l ih =>
    obtain ⟨id, g⟩ := e
    obtain rfl : g = .passed := hl _ List.mem_cons_self
    refine (quiet_generate hp h id (State.quiet_emplace_sent _ id rfl fun _ => rfl)).andThen
      fun hp => ih hp fun e he => hl e (List.mem_cons_of_mem _ he)

theorem quiet_finishPostponed (hp : Plain s) (h : Peer) : Quiet s (s.finishPostponed h) := by
  rw [finishPostponed]
  split_ifs
  · have htaken : Quiet s (s.setState h { s.state h with postponed := FlatMap.empty }) :=
      quiet_setState hp (State.quiet_postponed _ fun _ _ _ hfind => nomatch hfind)
    refine htaken.andThen fun hp' => quiet_sendPostponed hp' h fun e he => ?_
    exact (hp h).postponed e.1 e.2 (FlatMap.find?_eq_some.mpr he)
  · exact .refl hp

/-! ## What holds where a function succeeds -/

/-- The two assertions about till ids hold, and so does `P` where the result is a state. -/
def Fine (P : Histories Peer → Prop) : Except Failure (Histories Peer) → Prop
  | .ok s => P s
  | .error e => e ≠ .sendReadRequest ∧ e ≠ .readFinished

section

variable {P Q : Histories Peer → Prop} {x : Except Failure (Histories Peer)}

theorem Fine.mono (hx : Fine P x) (hPQ : ∀ s, P s → Q s) : Fine Q x := by
  cases x with
  | error e => exact hx
  | ok s => exact hPQ s hx

theorem Fine.map {f : Histories Peer → Histories Peer} (hx : Fine P x)
    (hf : ∀ s, P s → Q (f s)) : Fine Q (x.map f) := by
  cases x with
  | error e => exact hx
  | ok s => exact hf s hx

theorem Fine.bind {f : Histories Peer → Except Failure (Histories Peer)} (hx : Fine P x)
    (hf : ∀ s, P s → Fine Q (f s)) : Fine Q (x >>= f) := by
  cases x with
  | error e => exact hx
  | ok s => exact hf s hx

end

/-- Whether an entry is asked for again when a request finishes. -/
abbrev State.resumesEntry (st : State) : Bool :=
  st.postponedRequestEntry && !st.postponeEntryRequest

/-- **An entry is asked for again**, when its chat has nothing else in flight. -/
theorem finishEntry_ok (hs' : s.finishEntry h = .ok s') :
    ¬(s.state h).resumesEntry ∧ s' = s ∨
      (s.state h).resumesEntry ∧ ∃ callbacks, s.dialogRequests.find? h = some callbacks ∧
        s.dialogRequestsPending.contains h = false ∧ s' = s.requeueEntry h callbacks := by
  by_cases hresume : (s.state h).resumesEntry
  · refine .inr ⟨hresume, ?_⟩
    rw [finishEntry, if_pos hresume] at hs'
    cases hfind : s.dialogRequests.find? h with
    | none => rw [hfind] at hs'; exact nomatch hs'
    | some callbacks =>
      rw [hfind] at hs'
      dsimp only at hs'
      split_ifs at hs' with hpending
      exact ⟨callbacks, rfl, Bool.not_eq_true _ ▸ hpending, (Except.ok.inj hs').symm⟩
  · rw [finishEntry, if_neg hresume] at hs'
    exact .inl ⟨hresume, (Except.ok.inj hs').symm⟩

theorem quiet_requeueEntry (hp : Plain s) (h : Peer) (callbacks : List Callback) :
    Quiet s (s.requeueEntry h callbacks) := by
  have hflag := quiet_setState hp (State.quiet_flag (s.state h) false)
  refine (hflag.andThen fun hp => ?_).andThen quiet_postponeRequestDialogEntries
  exact .of_states hp rfl rfl rfl rfl rfl le_rfl (List.Subset.refl _) fun _ hr => hr

/-- **Only its own assertions can fail.** -/
theorem fine_finishEntry (hp : Plain s) (h : Peer) : Fine (Quiet s) (s.finishEntry h) := by
  cases hs' : s.finishEntry h with
  | ok s' =>
    rcases finishEntry_ok hs' with ⟨-, rfl⟩ | ⟨-, callbacks, -, -, rfl⟩
    · exact .refl hp
    · exact quiet_requeueEntry hp h callbacks
  | error e =>
    suffices heq : e = .finishSentRequest from heq ▸ ⟨nofun, nofun⟩
    by_cases hresume : (s.state h).resumesEntry
    · rw [finishEntry, if_pos hresume] at hs'
      cases hfind : s.dialogRequests.find? h with
      | none => rw [hfind] at hs'; exact (Except.error.inj hs').symm
      | some callbacks =>
        rw [hfind] at hs'
        dsimp only at hs'
        split_ifs at hs'
        exact (Except.error.inj hs').symm
    · rw [finishEntry, if_neg hresume] at hs'
      exact nomatch hs'

theorem quiet_removeSent (hp : Plain s) (h : Peer) (id : ℕ) :
    Quiet s (s.removeSent h (s.state h) id) := by
  have hby : Quiet s { s with historyByRequest := s.historyByRequest.erase id } :=
    .of_states hp rfl rfl rfl rfl rfl le_rfl (List.Subset.refl _) fun _ hr => hr
  rw [removeSent]
  cases (s.state h).sent.find? id with
  | none => exact hby
  | some q =>
    refine (hby.andThen fun hp => quiet_setState hp ?_).andThen fun hp => quiet_cancel hp _
    exact State.quiet_filter_sent _ _

/-- **A finished request leaves reading alone.** -/
theorem fine_finishSentRequest (hp : Plain s) (h : Peer) (id : ℕ) :
    Fine (Quiet s) (s.finishSentRequest h (s.state h) id) := by
  have hsent := (quiet_removeSent hp h id).andThen fun hp => quiet_finishPostponed hp h
  exact (fine_finishEntry hsent.plain h).map fun s' hq =>
    (hsent.trans hq).andThen fun hp => quiet_checkEmptyState hp h

theorem fine_checkPostponed (hp : Plain s) (h : Peer) (id : ℕ) :
    Fine (Quiet s) (s.checkPostponed h id) := by
  rw [checkPostponed]
  cases hst : s.lookup h with
  | none => exact .refl hp
  | some st =>
    rw [← state_of_lookup hst]
    exact fine_finishSentRequest hp h id

/-- The first thing `cancelRequest` does with the state of a chat. -/
theorem quiet_erasePostponed (hp : Plain s) (h : Peer) (id : ℕ) :
    Quiet s (s.setState h { s.state h with postponed := (s.state h).postponed.erase id }) := by
  refine quiet_setState hp (State.quiet_postponed _ fun hplain k g hg => ?_)
  rw [FlatMap.find?_erase] at hg
  split_ifs at hg
  exact hplain.postponed k g hg

theorem fine_cancelRequest (hp : Plain s) (id : ℕ) : Fine (Quiet s) (s.cancelRequest id) := by
  rw [cancelRequest]
  cases s.historyByRequest.find? id with
  | none => exact .refl hp
  | some h =>
    set s₁ : Histories Peer := { s with historyByRequest := s.historyByRequest.erase id }
    have hby : Quiet s s₁ :=
      .of_states hp rfl rfl rfl rfl rfl le_rfl (List.Subset.refl _) fun _ hr => hr
    dsimp only
    cases hst : s₁.lookup h with
    | none => exact hby
    | some st =>
      obtain rfl := state_of_lookup hst
      have herased := hby.andThen fun hp => quiet_erasePostponed hp h id
      have hfine := fine_finishSentRequest herased.plain h id
      rw [state_setState_self] at hfine
      exact hfine.mono fun s' hq => herased.trans hq

/-! ## A request is sent -/

theorem quiet_sentState (s : Histories Peer) (h : Peer) {type : RequestType} {g : Generator}
    (hg : type = .history → g = .passed) (id : ℕ) :
    State.Quiet s.nextRequestId (s.state h) (s.sentState h type g id) := by
  have hq : (⟨g, s.nextRequestId, type⟩ : SentRequest).id = s.nextRequestId := rfl
  rw [sentState]
  exact (State.quiet_emplace_sent _ id hq hg).trans (State.quiet_postponeEntry _ _)

/-- **Whatever a request is for, sending it leaves reading alone** but for the request itself. -/
theorem quiet_sendRequest_live (hp : Plain s) (h : Peer) {type : RequestType} {g : Generator}
    (hg : type = .history → g = .passed) :
    Quiet s { s.sendRequest h type g with live := s.live } := by
  have hnumber : Quiet s (s.assignId h) :=
    .of_states hp rfl rfl rfl rfl rfl le_rfl (List.Subset.refl _) fun _ hr => hr
  refine hnumber.andThen fun hp => ?_
  by_cases hpost : (type = .history && (s.state h).postponeHistoryRequest) = true
  · have htype : type = .history := of_decide_eq_true (Bool.and_eq_true_iff.mp hpost).1
    rw [sendRequest, if_pos hpost]
    refine quiet_setState hp (State.quiet_postponed _ fun hplain => ?_)
    exact State.passed_emplace (hg htype) hplain.postponed _
  · have hsent := quiet_sentState (s.assignId h) h hg (s.requestAutoincrement + 1)
    rw [sendRequest, if_neg hpost, sendNow]
    by_cases hdelete : ((s.assignId h).sentState h type g
        (s.requestAutoincrement + 1)).postponeHistoryRequest = true
    · rw [if_pos hdelete]
      exact .change hp (hsent.trans (State.quiet_resend _)) rfl rfl rfl rfl rfl (Nat.le_succ _)
        (List.subset_append_left _ _) fun _ hr => .inl hr
    · rw [if_neg hdelete]
      exact .change hp hsent rfl rfl rfl rfl rfl (Nat.le_succ _)
        (List.subset_append_left _ _) fun _ hr => .inl hr

/-- **What is in flight after a request was sent.** -/
theorem mem_live_sendRequest {type : RequestType} {g : Generator}
    (hr : r ∈ (s.sendRequest h type g).live) :
    r ∈ s.live ∨ r = ⟨s.nextRequestId, h, s.requestAutoincrement + 1, g⟩ ∧
      (s.sendRequest h type g).nextRequestId = s.nextRequestId + 1 := by
  have hnew : ∀ {r}, r ∈ s.live ++ [⟨s.nextRequestId, h, s.requestAutoincrement + 1, g⟩] →
      r ∈ s.live ∨ r = ⟨s.nextRequestId, h, s.requestAutoincrement + 1, g⟩ :=
    fun hr => (List.mem_append.mp hr).imp_right List.mem_singleton.mp
  rw [sendRequest] at hr ⊢
  split_ifs at hr ⊢ with hpost
  · exact .inl hr
  · rw [sendNow] at hr ⊢
    split_ifs at hr ⊢
    · exact (hnew (List.mem_of_mem_filter hr)).imp_right fun h => ⟨h, rfl⟩
    · exact (hnew hr).imp_right fun h => ⟨h, rfl⟩

/-- **A request from outside leaves reading alone.** -/
theorem quiet_sendRequest (hp : Plain s) (h : Peer) (type : RequestType) :
    Quiet s (s.sendRequest h type .passed) := by
  have hquiet := quiet_sendRequest_live (g := .passed) hp h fun (_ : type = .history) => rfl
  exact
    { hquiet with
      live := by
        intro r hr
        rcases mem_live_sendRequest hr with hr | ⟨rfl, hnext⟩
        · exact .inl hr
        · exact .inr ⟨le_rfl, by rw [hnext]; exact Nat.lt_succ_self _, rfl⟩ }

/-- A read request that is sent is made. -/
theorem read_requested_sendRequest (s : Histories Peer) (h : Peer) (tillId : MsgId) :
    ⟨s.nextRequestId, h, s.requestAutoincrement + 1, .readInbox tillId⟩ ∈
      (s.sendRequest h .readInbox (.readInbox tillId)).requested := by
  rw [sendRequest, if_neg (by simp), sendNow]
  split_ifs
  · exact List.mem_append_right _ (List.mem_singleton.mpr rfl)
  · exact List.mem_append_right _ (List.mem_singleton.mpr rfl)

end Yunogram.Histories
