import Yunogram.Data.HistoriesReadSteps

/-!
# Data/HistoriesReadRuns — every till id that waits is settled

Runs of the histories, finite ones that may fail on an assertion and infinite ones along which time
passes and the timer fires.  `reading_in_order` holds of all of them where no till id is accepted
below a read request that the chat lost sight of; `cleared_state_fails` is a run in ghost mode where
one is.
-/

open Machinery

namespace Yunogram.Histories

variable {Peer : Type} [LinearOrder Peer] {s s' : Histories Peer} {h : Peer}

/-- No event of a run accepts a till id that is overtaken. -/
def OrderedRun (s : Histories Peer) : List (Event Peer) → Prop
  | [] => True
  | event :: events => event.InOrder s ∧ ∀ s', s.step event = .ok s' → OrderedRun s' events

/-- A till id above all in flight is not overtaken. -/
theorem not_overtaken {tillId : MsgId}
    (hbelow : ∀ r ∈ s.live, ∀ till, r.generator = .readInbox till → till ≤ tillId) :
    ¬Overtaken s h tillId :=
  fun ⟨r, hr, _, _, till, hg, hlt⟩ => absurd (hbelow r hr till hg) (not_le.mpr hlt)

/-- **Runs keep the invariant.** -/
theorem fine_runEvents {events : List (Event Peer)} (hr : Reading s) (hc : Clock s)
    (hin : OrderedRun s events) :
    Fine (fun s' => Reading s' ∧ Clock s') (s.runEvents events) := by
  induction events generalizing s with
  | nil => exact ⟨hr, hc⟩
  | cons event events ih =>
    have hstep := fine_step hr hc hin.1
    rw [runEvents]
    cases hs' : s.step event with
    | error e =>
      rw [hs'] at hstep
      exact hstep
    | ok s' =>
      rw [hs'] at hstep
      exact ih hstep.reading hstep.clock (hin.2 s' hs')

/-- A run that goes on for ever: no event accepts a till id that is overtaken, the clock passes
every moment, and the timer fires once it is due, unless it was set to another time. -/
structure Behaviour (chats : Peer → History) (mode : Bool) (states : ℕ → Histories Peer)
    (events : ℕ → Event Peer) : Prop where
  start : states 0 = Histories.start chats mode
  next : ∀ n, (states n).step (events n) = .ok (states (n + 1))
  inOrder : ∀ n, (events n).InOrder (states n)
  time : ∀ time, ∃ n, ∀ m, n ≤ m → time ≤ (states m).now
  timer : ∀ n time, (states n).readRequestsTimer = some time → ∃ m, n ≤ m ∧
    ((states m).readRequestsTimer ≠ some time ∨
      events m = .readRequestsTimer ∧ time ≤ (states m).now)

namespace Behaviour

variable {chats : Peer → History} {mode : Bool} {states : ℕ → Histories Peer}
  {events : ℕ → Event Peer}

theorem advance (hb : Behaviour chats mode states events) {n : ℕ} (hr : Reading (states n))
    (hc : Clock (states n)) : Advance (states n) (states (n + 1)) := by
  have hstep := fine_step hr hc (hb.inOrder n)
  rwa [hb.next n] at hstep

theorem invariant (hb : Behaviour chats mode states events) (n : ℕ) :
    Reading (states n) ∧ Clock (states n) := by
  induction n with
  | zero => rw [hb.start]; exact ⟨reading_start chats mode, clock_start chats mode⟩
  | succ n ih => exact ⟨(hb.advance ih.1 ih.2).reading, (hb.advance ih.1 ih.2).clock⟩

theorem patient (hb : Behaviour chats mode states events) (n : ℕ) (h : Peer) :
    Patient (states n) (states (n + 1)) h :=
  (hb.advance (hb.invariant n).1 (hb.invariant n).2).patient h

/-- While it is not settled it waits, for the same till id and till the same time. -/
theorem waiting (hb : Behaviour chats mode states events) {n : ℕ}
    (hwill : ((states n).state h).willReadTill ≠ 0)
    (hnot : ∀ m, n ≤ m → ((states m).state h).willReadTill = ((states n).state h).willReadTill →
      ¬Settled (states m) (states (m + 1)) h) {m : ℕ} (hle : n ≤ m) :
    ((states m).state h).willReadTill = ((states n).state h).willReadTill ∧
      ((states m).state h).willReadWhen = ((states n).state h).willReadWhen := by
  induction m, hle using Nat.le_induction with
  | base => exact ⟨rfl, rfl⟩
  | succ m hle ih =>
    rcases hb.patient m h (ih.1 ▸ hwill) with hsettled | hwaits
    · exact absurd hsettled (hnot m hle ih.1)
    · exact ⟨hwaits.will.trans ih.1, hwaits.when.trans ih.2⟩

/-- **A till id that waits is settled**: the timer is set no later than it is due, and when both
have come nothing but the sending of what is due sets the timer again. -/
theorem settles (hb : Behaviour chats mode states events) {n : ℕ}
    (hwill : ((states n).state h).willReadTill ≠ 0) :
    ∃ m, n ≤ m ∧ ((states m).state h).willReadTill = ((states n).state h).willReadTill ∧
      Settled (states m) (states (m + 1)) h := by
  by_contra hcontra
  have hnot : ∀ m, n ≤ m → ((states m).state h).willReadTill = ((states n).state h).willReadTill →
      ¬Settled (states m) (states (m + 1)) h :=
    fun m hle heq hsettled => hcontra ⟨m, hle, heq, hsettled⟩
  obtain ⟨late, hlate⟩ := hb.time ((states n).state h).willReadWhen
  set N := max n late
  have hwaits : ∀ m, N ≤ m → ((states m).state h).willReadTill ≠ 0 ∧ Due (states m) h := by
    intro m hle
    obtain ⟨hsame, hwhen⟩ := hb.waiting hwill hnot ((le_max_left n late).trans hle)
    refine ⟨hsame ▸ hwill, hsame ▸ hwill, ?_⟩
    rw [hwhen]
    exact hlate m ((le_max_right n late).trans hle)
  obtain ⟨-, time, htime, -⟩ := (hb.invariant N).2.armed h (hwaits N le_rfl).1
  have htimer : ∀ m, N ≤ m → (states m).readRequestsTimer = some time := by
    intro m hle
    induction m, hle using Nat.le_induction with
    | base => exact htime
    | succ m hle ih =>
      have hn := (le_max_left n late).trans hle
      rcases hb.patient m h (hwaits m hle).1 with hsettled | hkept
      · exact absurd hsettled (hnot m hn (hb.waiting hwill hnot hn).1)
      · exact (hkept.timer (hwaits m hle).2.2).trans ih
  obtain ⟨m, hle, hother | ⟨hevent, hdue⟩⟩ := hb.timer N time htime
  · exact hother (htimer m hle)
  · have hstep := hb.next m
    have hfine := fine_timer (hb.invariant m).1 (hb.invariant m).2
    have hn := (le_max_left n late).trans hle
    rw [hevent, step, if_pos (by rw [htimer m hle]; exact decide_eq_true hdue)] at hstep
    rw [hstep] at hfine
    exact hnot m hn (hb.waiting hwill hnot hn).1 (hfine.2 h (hwaits m hle).2)

end Behaviour

/-- **Reading in order.**  Where no till id is accepted below a read request in flight that its chat
does not list any more, the till id that waits is always above the one that was sent, the
precondition of `sendReadRequest` and the assertion in the handler of an answered request hold, and
what waits is superseded by a greater till id, sent, or forgotten in ghost mode. -/
theorem reading_in_order (chats : Peer → History) (mode : Bool) :
    (∀ events, OrderedRun (start chats mode) events →
      Fine (fun s => ∀ h, (s.state h).willReadTill = 0 ∨
        (s.state h).sentReadTill < (s.state h).willReadTill)
        ((start chats mode).runEvents events)) ∧
      ∀ states events, Behaviour chats mode states events → ∀ n h,
        ((states n).state h).willReadTill ≠ 0 →
          ∃ m, n ≤ m ∧ ((states m).state h).willReadTill = ((states n).state h).willReadTill ∧
            Settled (states m) (states (m + 1)) h :=
  ⟨fun _ hin => (fine_runEvents (reading_start chats mode) (clock_start chats mode) hin).mono
    fun _ h => h.1.above, fun _ _ hb _ _ hwill => hb.settles hwill⟩

/-- A chat of which no message is loaded. -/
def unloaded : Facts := ⟨true, none, none, 0, false⟩

/-- Two read requests of a chat, the second of which is answered first. -/
def twoReads : List (Event ℕ) :=
  [.readInboxTill 7 10 false unloaded, .readInboxTill 7 20 false unloaded, .answered 2, .answered 1]

theorem reading_in_order_two :
    Fine (fun s => ∀ h, (s.state h).willReadTill = 0 ∨
      (s.state h).sentReadTill < (s.state h).willReadTill)
      ((start (fun _ : ℕ => {}) true).runEvents twoReads) := by
  have hlive : ((start (fun _ : ℕ => {}) true).step (.readInboxTill 7 10 false unloaded)).map
      Histories.live = .ok [⟨1, 7, 1, .readInbox 10⟩] := rfl
  have hfirst : (Event.readInboxTill 7 10 false unloaded).InOrder (start (fun _ : ℕ => {}) true) :=
    fun _ => not_overtaken fun _ hr => absurd hr List.not_mem_nil
  have hin : OrderedRun (start (fun _ : ℕ => {}) true) twoReads := by
    refine And.intro hfirst fun s₁ h₁ => And.intro (fun _ => not_overtaken fun r hr => ?_)
      fun _ _ => And.intro trivial fun _ _ => And.intro trivial fun _ _ => trivial
    rw [h₁] at hlive
    rw [Except.ok.inj hlive] at hr
    obtain rfl := List.mem_singleton.mp hr
    rintro till ⟨⟩
    decide
  have hall := (reading_in_order (fun _ : ℕ => {}) true).1
  exact hall twoReads hin

/-- A read request is in flight when the states are forgotten in ghost mode; another one, below it,
is sent once the ghost mode is off. -/
def clearedRun : List (Event ℕ) :=
  [.readInboxTill 7 20 false unloaded, .setSendReadMessages false,
    .readInboxTill 7 25 false unloaded, .setSendReadMessages true,
    .readInboxTill 7 10 false unloaded, .answered 1]

/-- **The assertion in the handler fails**: the chat has sent 10 when 20 is answered. -/
theorem cleared_state_fails :
    (start (fun _ : ℕ => {}) true).runEvents clearedRun = .error .readFinished := by
  rfl

end Yunogram.Histories
