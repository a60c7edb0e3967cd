import Yunogram.Machinery.FlatMap
import Yunogram.Machinery.Run

/-!
# Api/Updates — containers of updates put in order by `seq`

`api/api_updates.cpp`, `Updates::applyUpdates` and `Updates::setState` for the containers that carry a
`seq`: `updates` is numbered by one `seq`, `updatesCombined` covers `seq_start` to `seq`.  A container
over a gap is kept in `_bySeqUpdates` under its first number.  Feeding one moves `_updatesSeq`, and
`setState` then goes through the kept ones: it drops those that are behind and ends by applying the
one that is next, which `applyUpdates` calls again for.

Feeding a container (`processUsers`, `processChats`, `feedUpdateVector`) is an effect.  The numbers are
`int32` in the source; `_updatesSeq + 1` is only compared with a number above `_updatesSeq`, so it does
not leave the type.
-/

open Machinery

namespace Yunogram

/-- The containers `applyUpdates` puts in order, and `updateShort`, which carries no `seq`. -/
inductive MTPUpdates (V : Type*)
  | updates (seq date : ℤ) (body : V)
  | updatesCombined (seqStart seq date : ℤ) (body : V)
  | updateShort (date : ℤ) (body : V)
  deriving DecidableEq

namespace MTPUpdates

variable {V : Type*}

/-- The first number a container covers, zero when it is not numbered. -/
def seqStart : MTPUpdates V → ℤ
  | .updates seq _ _ => seq
  | .updatesCombined seqStart _ _ _ => seqStart
  | .updateShort _ _ => 0

/-- The last number a container covers. -/
def seq : MTPUpdates V → ℤ
  | .updates seq _ _ => seq
  | .updatesCombined _ seq _ _ => seq
  | .updateShort _ _ => 0

/-- The date of a container. -/
def date : MTPUpdates V → ℤ
  | .updates _ date _ => date
  | .updatesCombined _ _ date _ => date
  | .updateShort date _ => date

end MTPUpdates

namespace Api

/-- What `Updates` does besides keeping its state. -/
inductive Effect (V : Type*)
  | ptsWaiterInit (pts : ℤ)
  | bySeqTimerCancel
  | bySeqTimerCallOnce (ms : ℤ)
  | feed (updates : MTPUpdates V)
  | sendHistoryChangeNotifications
  deriving DecidableEq

/-- `Api::Updates`, the fields the order by `seq` uses. -/
structure Updates (V : Type*) where
  updatesDate : ℤ := 0
  updatesQts : ℤ := -1
  updatesSeq : ℤ := 0
  bySeqUpdates : FlatMap ℤ (MTPUpdates V) := .empty
  bySeqTimerActive : Bool := false
  byMinChannelTimerActive : Bool := false

namespace Updates

variable {V : Type*}

/-- `PtsWaiter::kWaitForSkippedTimeout`. -/
def kWaitForSkippedTimeout : ℤ := 1000

/-! ## The operations -/

/-- The loop of `setState` over the kept containers: what it drops, and the one it ends by
applying. -/
def bySeqLoop (seq : ℤ) (u : Updates V) :
    List (ℤ × MTPUpdates V) → Updates V × List (Effect V) × Option (MTPUpdates V)
  | [] => (u, [], none)
  | (s, v) :: rest =>
    if s ≤ seq + 1 then
      let u := { u with bySeqUpdates := u.bySeqUpdates.dropFront 1 }
      if s = seq + 1 then (u, [], some v) else bySeqLoop seq u rest
    else if !u.bySeqTimerActive then
      ({ u with bySeqTimerActive := true }, [.bySeqTimerCallOnce kWaitForSkippedTimeout], none)
    else
      (u, [], none)

/-- `setState`, the date. -/
def setDate (u : Updates V) (date : ℤ) : Updates V :=
  if u.updatesDate < date && !u.byMinChannelTimerActive then { u with updatesDate := date } else u

/-- `setState`, the `qts`. -/
def setQts (u : Updates V) (qts : ℤ) : Updates V :=
  if qts ≠ 0 ∧ u.updatesQts < qts then { u with updatesQts := qts } else u

/-- `setState`, the `seq`. -/
def setSeq (u : Updates V) (seq : ℤ) : Updates V × List (Effect V) × Option (MTPUpdates V) :=
  if seq ≠ 0 ∧ seq ≠ u.updatesSeq then
    let es := if u.bySeqTimerActive then [.bySeqTimerCancel] else []
    let (u, es', next) :=
      bySeqLoop seq { u with updatesSeq := seq, bySeqTimerActive := false } u.bySeqUpdates.entries
    (u, es ++ es', next)
  else
    (u, [], none)

/-- `setState`, up to the container it ends by applying. -/
def setState (u : Updates V) (pts date qts seq : ℤ) :
    Updates V × List (Effect V) × Option (MTPUpdates V) :=
  let es := if pts ≠ 0 then [.ptsWaiterInit pts] else []
  let (u, es', next) := ((u.setDate date).setQts qts).setSeq seq
  (u, es ++ es', next)

/-- The `seq` a container is reported to `setState` with. -/
def stateSeq (u : Updates V) : MTPUpdates V → ℤ
  | .updates seq _ _ => seq
  | .updatesCombined _ seq _ _ => seq
  | .updateShort _ _ => u.updatesSeq

/-! ## What the loop does -/

/-- **The loop drops what is behind and finds what is next.** -/
theorem bySeqLoop_eq (seq : ℤ) (l : List (ℤ × MTPUpdates V)) (u : Updates V)
    (hl : u.bySeqUpdates.entries = l) :
    (∃ active, (bySeqLoop seq u l).1 = { u with
      bySeqUpdates := u.bySeqUpdates.filter fun s _ => seq + 1 < s
      bySeqTimerActive := active }) ∧
    (bySeqLoop seq u l).2.2 = u.bySeqUpdates.find? (seq + 1) ∧
    ∀ c, Effect.feed c ∉ (bySeqLoop seq u l).2.1 := by
  induction l generalizing u with
  | nil =>
    refine ⟨⟨u.bySeqTimerActive, ?_⟩, ?_, by simp [bySeqLoop]⟩
    · have : u.bySeqUpdates.filter (fun s _ => seq + 1 < s) = u.bySeqUpdates :=
        FlatMap.ext (by simp [FlatMap.filter, hl])
      rw [this]
      rfl
    · simp [bySeqLoop, FlatMap.find?, hl]
  | cons e rest ih =>
    obtain ⟨s, v⟩ := e
    have hrest : ∀ b ∈ rest, s < b.1 := by
      have hsorted := u.bySeqUpdates.sorted
      rw [hl] at hsorted
      exact (List.pairwise_cons.mp hsorted).1
    have hdrop : (u.bySeqUpdates.dropFront 1).entries = rest := by simp [FlatMap.dropFront, hl]
    rw [bySeqLoop]
    by_cases hs : s ≤ seq + 1
    · rw [if_pos hs]
      have hfilter : (u.bySeqUpdates.dropFront 1).filter (fun s _ => seq + 1 < s)
          = u.bySeqUpdates.filter fun s _ => seq + 1 < s :=
        FlatMap.ext (by simp [FlatMap.filter, hdrop, hl, hs])
      by_cases hn : s = seq + 1
      · refine ⟨⟨u.bySeqTimerActive, ?_⟩, ?_, by simp [hn]⟩
        · have hkeep : (u.bySeqUpdates.dropFront 1).filter (fun s _ => seq + 1 < s)
              = u.bySeqUpdates.dropFront 1 := by
            refine FlatMap.ext (List.filter_eq_self.mpr fun b hb => ?_)
            rw [hdrop] at hb
            simpa [hn] using hrest b hb
          simp only [if_pos hn, ← hfilter, hkeep]
        · simp [hn, FlatMap.find?, hl]
      · obtain ⟨⟨active, hu⟩, hnext, hfeed⟩ :=
          ih { u with bySeqUpdates := u.bySeqUpdates.dropFront 1 } hdrop
        dsimp only at hu hnext hfeed ⊢
        rw [if_neg hn]
        refine ⟨⟨active, by rw [hu, hfilter]⟩, ?_, hfeed⟩
        rw [hnext, FlatMap.find?, FlatMap.find?, hdrop, hl]
        simp [hn]
    · have hlt : seq + 1 < s := not_le.mp hs
      have hkeep : u.bySeqUpdates.filter (fun s _ => seq + 1 < s) = u.bySeqUpdates := by
        refine FlatMap.ext (List.filter_eq_self.mpr fun b hb => ?_)
        rw [hl] at hb
        rcases List.mem_cons.mp hb with rfl | hb
        · simpa using hlt
        · simpa using hlt.trans (hrest b hb)
      have hfind : u.bySeqUpdates.find? (seq + 1) = none := by
        rw [FlatMap.find?_eq_none, FlatMap.keys, hl]
        simp only [List.map_cons, List.mem_cons, List.mem_map, not_or, not_exists, not_and]
        exact ⟨by omega, fun b hb h => by have := hrest b hb; omega⟩
      rw [if_neg hs, hkeep, hfind]
      split_ifs <;> exact ⟨⟨_, rfl⟩, rfl, by simp⟩

@[simp] theorem updatesSeq_setDate_setQts (u : Updates V) (date qts : ℤ) :
    ((u.setDate date).setQts qts).updatesSeq = u.updatesSeq := by
  rw [setQts, setDate]
  split_ifs <;> rfl

@[simp] theorem bySeqUpdates_setDate_setQts (u : Updates V) (date qts : ℤ) :
    ((u.setDate date).setQts qts).bySeqUpdates = u.bySeqUpdates := by
  rw [setQts, setDate]
  split_ifs <;> rfl

theorem seq_unmoved {u : Updates V} {seq : ℤ} (h : ¬ (seq ≠ 0 ∧ seq ≠ u.updatesSeq)) :
    seq = 0 ∨ seq = u.updatesSeq := by
  tauto

/-- A `seq` that does not move leaves the order alone. -/
theorem setState_same {u : Updates V} {seq : ℤ} (h : seq = 0 ∨ seq = u.updatesSeq)
    (date qts : ℤ) :
    (u.setState 0 date qts seq).1.updatesSeq = u.updatesSeq ∧
      (u.setState 0 date qts seq).1.bySeqUpdates = u.bySeqUpdates ∧
      (u.setState 0 date qts seq).2 = ([], none) := by
  have hn : ¬ (seq ≠ 0 ∧ seq ≠ u.updatesSeq) := by tauto
  rw [setState, setSeq, updatesSeq_setDate_setQts, if_neg hn]
  exact ⟨updatesSeq_setDate_setQts u date qts, bySeqUpdates_setDate_setQts u date qts, rfl⟩

/-- **A `seq` that moves** drops what is behind and ends by applying what is next. -/
theorem setState_moved {u : Updates V} {seq : ℤ} (h0 : seq ≠ 0) (h : seq ≠ u.updatesSeq)
    (date qts : ℤ) :
    (u.setState 0 date qts seq).1.updatesSeq = seq ∧
      (u.setState 0 date qts seq).1.bySeqUpdates
        = u.bySeqUpdates.filter (fun s _ => seq + 1 < s) ∧
      (u.setState 0 date qts seq).2.2 = u.bySeqUpdates.find? (seq + 1) ∧
      ∀ c, Effect.feed c ∉ (u.setState 0 date qts seq).2.1 := by
  rw [setState, setSeq, updatesSeq_setDate_setQts, if_pos ⟨h0, h⟩, bySeqUpdates_setDate_setQts]
  obtain ⟨⟨active, hu⟩, hnext, hfeed⟩ := bySeqLoop_eq seq u.bySeqUpdates.entries
    { (u.setDate date).setQts qts with updatesSeq := seq, bySeqTimerActive := false }
    (congrArg FlatMap.entries (bySeqUpdates_setDate_setQts u date qts))
  dsimp only at hu hnext hfeed ⊢
  simp only [bySeqUpdates_setDate_setQts] at hu hnext hfeed
  refine ⟨by rw [hu], by rw [hu], hnext, fun c hc => ?_⟩
  rcases List.mem_append.mp hc with hc | hc
  · simp at hc
  · rcases List.mem_append.mp hc with hc | hc
    · split_ifs at hc <;> simp at hc
    · exact hfeed c hc

/-- A container that `setState` ends by applying has left the queue. -/
theorem size_setState_lt {u : Updates V} {date qts seq : ℤ} {v : MTPUpdates V}
    (h : (u.setState 0 date qts seq).2.2 = some v) :
    (u.setState 0 date qts seq).1.bySeqUpdates.size < u.bySeqUpdates.size := by
  by_cases hs : seq ≠ 0 ∧ seq ≠ u.updatesSeq
  · obtain ⟨-, hq, hnext, -⟩ := setState_moved hs.1 hs.2 date qts
    rw [hq]
    exact FlatMap.size_filter_lt (hnext.symm.trans h) (by simp)
  · obtain ⟨-, -, he⟩ := setState_same (seq_unmoved hs) date qts
    rw [he] at h
    exact absurd h (by simp)

/-- `applyUpdates`, the branches of the containers modelled here.  A container that is numbered is
dropped when it is behind and kept when it is ahead. -/
def applyUpdates (u : Updates V) (updates : MTPUpdates V) : Updates V × List (Effect V) :=
  if updates.seqStart ≠ 0 ∧ updates.seqStart ≤ u.updatesSeq then
    (u, [])
  else if updates.seqStart ≠ 0 ∧ u.updatesSeq + 1 < updates.seqStart then
    ({ u with
        bySeqUpdates := u.bySeqUpdates.emplace updates.seqStart updates
        bySeqTimerActive := true },
      [.bySeqTimerCallOnce kWaitForSkippedTimeout])
  else
    let state := u.setState 0 updates.date u.updatesQts (u.stateSeq updates)
    match h : state.2.2 with
    | none => (state.1, .feed updates :: state.2.1 ++ [.sendHistoryChangeNotifications])
    | some v =>
      let (u, es) := applyUpdates state.1 v
      (u, .feed updates :: state.2.1 ++ es ++ [.sendHistoryChangeNotifications])
termination_by u.bySeqUpdates.size
decreasing_by exact size_setState_lt h

end Updates

end Api

end Yunogram
