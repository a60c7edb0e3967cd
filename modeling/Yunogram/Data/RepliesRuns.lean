import Yunogram.Data.RepliesWindow

/-!
# Data/RepliesRuns — runs of a replies list keep its window, if the pages fit the counters

Requests are sent and answered, messages arrive and are destroyed, and each step keeps the window.

The result is `window_kept`: no assertion fails, and the window is what it is to be (`Windowed`) at
all times in every run whose pages fit the counters.  `arrived_messages_skipped` is a run with a
page that does not: messages that arrive while newer ones than the loaded are still to be loaded are
not counted, and the counter after the list becomes zero before the end of the thread is loaded. -/

open Machinery

namespace Yunogram.Data

open RepliesList

/-! ## Live updates -/

section

variable {skippedBefore skippedAfter fullCount fullCount' : Option ℤ}
  {before before' size size' after after' : ℤ}

theorem Counted.congr (h : Counted skippedBefore skippedAfter fullCount before size after)
    (hsum : ∀ b a, skippedBefore = some b → skippedAfter = some a →
      fullCount' = some (b + size' + a))
    (hbefore : before' ≤ before) (hafter : skippedAfter = some 0 → after = 0 → after' = 0) :
    Counted skippedBefore skippedAfter fullCount' before' size' after' where
  sum := hsum
  ended := h.ended
  beforeAlone := h.beforeAlone
  afterAlone := h.afterAlone
  before_le b hb := hbefore.trans (h.before_le b hb)
  after_zero ha := hafter ha (h.after_zero ha)
  after_nonneg := h.after_nonneg

theorem countAll_of_known {b a : ℤ} {list : List MsgId} (hb : skippedBefore = some b)
    (ha : skippedAfter = some a) :
    countAll skippedBefore skippedAfter list = some (b + list.length + a) := by
  rw [hb, ha]
  rfl

end

section

variable {thread : Finset MsgId} {s : RepliesList} {result : MessagesResult} {id : MsgId}

/-- The place at which an id is looked up has it if the list does. -/
theorem getElem?_lowerBound {list : List MsgId} (hlist : list.Pairwise fun a b => b < a) :
    list[lowerBound (fun x => decide (id < x)) list]? = some id ↔ id ∈ list := by
  have hsorted : list.Pairwise fun x y => decide (id < y) → decide (id < x) :=
    hlist.imp fun hlt h => decide_eq_true ((of_decide_eq_true h).trans hlt)
  refine ⟨List.mem_of_getElem?, fun hmem => ?_⟩
  set n := lowerBound (fun x => decide (id < x)) list
  rw [← List.take_append_drop n list] at hmem hlist
  obtain ⟨-, hdrop, -⟩ := List.pairwise_append.mp hlist
  rcases List.mem_append.mp hmem with hmem | hmem
  · exact absurd (of_decide_eq_true (of_mem_take_lowerBound hsorted hmem)) (lt_irrefl id)
  · obtain ⟨x, rest, hrest⟩ := List.exists_cons_of_ne_nil (List.ne_nil_of_mem hmem)
    have hx : ¬ id < x := of_decide_eq_false
      (of_mem_drop_lowerBound hsorted (hrest ▸ List.mem_cons_self))
    rw [← List.head?_drop, hrest, List.head?_cons]
    rw [hrest] at hmem hdrop
    rcases List.mem_cons.mp hmem with rfl | hmem
    · rfl
    · exact absurd ((List.pairwise_cons.mp hdrop).1 id hmem) hx

/-- **A message is destroyed.** -/
theorem Kept.applyDestroyed (h : Kept thread s) (id : MsgId) :
    Kept (thread.erase id) (s.applyDestroyed id) := by
  have hnodup : s.list.Nodup := h.decreasing.imp fun hlt => hlt.ne'
  rw [RepliesList.applyDestroyed]
  split_ifs with hmem
  · have hnot : id ∉ s.list.toFinset := fun hin =>
      hmem ((getElem?_lowerBound h.decreasing).mpr (List.mem_toFinset.mp hin))
    have hblock : IsBlock (thread.erase id) s.list.toFinset := by
      have := h.block.erase (y := id)
      rwa [Finset.erase_eq_of_notMem hnot] at this
    have hsub := Finset.erase_subset id thread
    refine ⟨h.decreasing, hblock, h.counted.congr h.counted.sum ?_ fun _ hzero => ?_⟩
    · split_ifs
      · exact le_rfl
      · exact Nat.cast_le.mpr (Machinery.before_le_of_subset hsub)
    · split_ifs at hzero ⊢ with hnil
      · rfl
      · have := Machinery.after_le_of_subset (s := s.list.toFinset) hsub
        omega
  · rw [not_not] at hmem
    have hin : id ∈ s.list := (getElem?_lowerBound h.decreasing).mp hmem
    have herase : s.list.eraseIdx (lowerBound (fun x => decide (id < x)) s.list)
        = s.list.erase id := by
      obtain ⟨hlt, hget⟩ := List.getElem?_eq_some_iff.mp hmem
      rw [← hnodup.erase_getElem _ hlt, hget]
    have htoFinset : (s.list.erase id).toFinset = s.list.toFinset.erase id := by
      ext x
      rw [List.mem_toFinset, hnodup.mem_erase_iff, Finset.mem_erase, List.mem_toFinset]
    have hlist : s.list ≠ [] := List.ne_nil_of_mem hin
    have hcounted := h.counted_of_ne hlist
    rw [herase]
    refine ⟨h.decreasing.sublist List.erase_sublist, htoFinset ▸ h.block.erase,
      hcounted.congr (fun b a hb ha => ?_) ?_ fun hafter hzero => ?_⟩
    · dsimp only
      rw [countAll_of_known hb ha]
    · dsimp only
      rw [htoFinset]
      split_ifs with hnil
      · exact Nat.cast_nonneg _
      · by_cases hempty : s.list.erase id = []
        · have hzero : s.skippedAfter = some 0 := not_not.mp fun hne => hnil ⟨hempty, hne⟩
          have hafter := hcounted.after_zero hzero
          have hcard := h.block.card ⟨id, List.mem_toFinset.mpr hin⟩
          have hone : s.list.length - 1 = 0 := by
            rw [← List.length_erase_of_mem hin, hempty, List.length_nil]
          rw [← htoFinset, hempty, List.toFinset_nil, Machinery.before_empty,
            Finset.card_erase_of_mem (h.block.subset (List.mem_toFinset.mpr hin))]
          rw [card_toFinset h.decreasing] at hcard
          omega
        · rw [Machinery.before_erase h.block (List.mem_toFinset.mpr hin)
            (htoFinset ▸ (List.toFinset_nonempty_iff _).mpr hempty)]
    · dsimp only
      split_ifs with hnil
      · rfl
      · rw [htoFinset, Machinery.after_erase h.block (List.mem_toFinset.mpr hin)
          (htoFinset ▸ (List.toFinset_nonempty_iff _).mpr hnil)]
        exact hzero

/-- **A new message arrives.** -/
theorem Kept.applyAdded (h : Kept thread s) (hnew : ∀ x ∈ s.list, x < id)
    (hfirst : s.list = [] → ∀ t ∈ thread, t < id) :
    Kept (insert id thread) (s.applyAdded id) := by
  have hplace : lowerBound (fun x => decide (id < x)) s.list = 0 :=
    lowerBound_eq_zero fun x hx => decide_eq_false (hnew x hx).not_gt
  have hfresh : s.list[0]? ≠ some id := fun hat =>
    lt_irrefl id (hnew id (List.mem_of_getElem? hat))
  have hsub : thread ⊆ insert id thread := Finset.subset_insert id thread
  rw [RepliesList.applyAdded, hplace]
  by_cases hzero : s.skippedAfter = some 0
  · rw [if_neg (by simp [hzero, hfresh]), List.insertIdx_zero]
    -- nothing is after the list, so that the new message is the newest of the thread
    have hunder : ∀ t ∈ thread, s.list ≠ [] → ∃ x ∈ s.list, t ≤ x := fun t ht hlist => by
      have hafter := (h.counted_of_ne hlist).after_zero hzero
      obtain ⟨x, hx, htx⟩ := after_eq_zero_iff.mp (Nat.cast_eq_zero.mp hafter) t ht
      exact ⟨x, List.mem_toFinset.mp hx, htx⟩
    have hnewest : ∀ t ∈ thread, t < id := fun t ht => by
      by_cases hlist : s.list = []
      · exact hfirst hlist t ht
      · obtain ⟨x, hx, htx⟩ := hunder t ht hlist
        exact htx.trans_lt (hnew x hx)
    have hblock : IsBlock (insert id thread) (id :: s.list).toFinset := by
      rw [List.toFinset_cons]
      refine ⟨Finset.insert_subset_insert id h.block.subset, fun a ha b hb x hx hax hxb => ?_⟩
      rcases Finset.mem_insert.mp hx with rfl | hthread
      · exact Finset.mem_insert_self x _
      · rcases Finset.mem_insert.mp ha with rfl | ha
        · exact absurd (hnewest x hthread) hax.not_gt
        · obtain ⟨w, hw, hxw⟩ := hunder x hthread (List.ne_nil_of_mem (List.mem_toFinset.mp ha))
          exact Finset.mem_insert_of_mem
            (h.block.between a ha w (List.mem_toFinset.mpr hw) x hthread hax hxw)
    refine ⟨List.pairwise_cons.mpr ⟨hnew, h.decreasing⟩, hblock,
      h.counted.congr (fun b a hb ha => ?_) ?_ fun _ _ => ?_⟩
    · dsimp only
      rw [countAll_of_known hb ha]
    · rw [if_neg fun hnil => List.cons_ne_nil id s.list hnil.1,
        if_neg fun hnil => hnil.2 hzero, List.toFinset_cons]
      refine Nat.cast_le.mpr (Finset.card_le_card fun t ht => ?_)
      obtain ⟨ht, hlt⟩ := Finset.mem_filter.mp ht
      have hne : t ≠ id := (hlt id (Finset.mem_insert_self id _)).ne
      exact Finset.mem_filter.mpr ⟨(Finset.mem_insert.mp ht).resolve_left hne,
        fun a ha => hlt a (Finset.mem_insert_of_mem ha)⟩
    · rw [if_neg (List.cons_ne_nil id s.list), Nat.cast_eq_zero, after_eq_zero_iff]
      refine fun t ht => ⟨id, by simp, ?_⟩
      rcases Finset.mem_insert.mp ht with rfl | ht
      · exact le_rfl
      · exact (hnewest t ht).le
  · rw [if_pos (Or.inl hzero)]
    have hblock : IsBlock (insert id thread) s.list.toFinset := by
      refine ⟨h.block.subset.trans hsub, fun a ha b hb x hx hax hxb => ?_⟩
      rcases Finset.mem_insert.mp hx with rfl | hx
      · exact absurd (hnew b (List.mem_toFinset.mp hb)) hxb.not_gt
      · exact h.block.between a ha b hb x hx hax hxb
    refine ⟨h.decreasing, hblock,
      h.counted.congr h.counted.sum ?_ fun hzero' => absurd hzero' hzero⟩
    split_ifs with hnil
    · exact le_rfl
    · have hlist : s.list ≠ [] := fun hlist => hnil ⟨hlist, hzero⟩
      obtain ⟨c, hc⟩ := List.exists_mem_of_ne_nil _ hlist
      rw [Machinery.before_grown hsub fun x hx hnot => ⟨c, List.mem_toFinset.mpr hc, ?_⟩]
      obtain rfl := (Finset.mem_insert.mp hx).resolve_right hnot
      exact (hnew c hc).le

/-! ## A response to `loadAround` -/

/-- Nothing is loaded of a thread that has nothing. -/
theorem kept_nothing (hlist : s.list = []) (hbefore : s.skippedBefore = some 0)
    (hafter : s.skippedAfter = some 0) (hfull : s.fullCount = some 0) (hthread : thread = ∅) :
    Kept thread s := by
  refine ⟨by rw [hlist]; exact List.Pairwise.nil, ?_, ?_⟩
  · rw [hlist]
    exact IsBlock.empty
  · rw [if_neg fun h => h.2 hafter, if_pos hlist, hlist, hbefore, hafter, hfull, hthread]
    exact Counted.of_known rfl (Or.inl rfl) le_rfl (fun _ => rfl) le_rfl

/-- **A response to `loadAround`.** -/
theorem Kept.aroundDone (hpage : Truthful thread result)
    (hanswers : Answers thread result (.around id)) :
    ∃ s', s.aroundDone id result = some s' ∧ Kept thread s' := by
  have hthread : result.ids = [] → thread = ∅ := fun hids => by
    refine Finset.eq_empty_iff_forall_notMem.mpr fun t ht => ?_
    obtain ⟨x, hx, -⟩ := hanswers.1 (Or.inr fun x hx => by rw [hids] at hx; cases hx) t ht
    rw [hids] at hx
    cases hx
  rw [RepliesList.aroundDone]
  set cleared : RepliesList := { s with
    beforeId := none
    loadingAround := none
    skippedAfter := if id = 0 then some 0 else none
    skippedBefore := none
    list := [] } with hcleared
  by_cases hne : result.list = []
  · have hids : result.ids = [] := by rw [MessagesResult.ids, hne]; rfl
    have hprocess : cleared.processMessagesIsEmpty result = some (cleared, true) := by
      rw [processMessagesIsEmpty, hne]
    rw [hprocess]
    exact ⟨_, rfl, kept_nothing rfl rfl rfl rfl (hthread hids)⟩
  · have hdec : result.ids.Pairwise fun a b => b < a := pairwise_threadIds hpage.decreasing
    have hids : result.ids ≠ [] → (before thread result.ids.toFinset : ℤ) + result.ids.length
        + after thread result.ids.toFinset + result.skipped ≤ result.fullCount := fun hids => by
      have hcard := hpage.block.card ((List.toFinset_nonempty_iff _).mpr hids)
      have htotal := hpage.total
      rw [card_toFinset hdec] at hcard
      omega
    -- around the end nothing is after the page, around an id no counter is known
    obtain ⟨b, a, hsettle, hcounted, hknown⟩ : ∃ b a,
        settle cleared.skippedBefore cleared.skippedAfter result.ids.length
          (max (result.fullCount - result.skipped) (cleared.list ++ result.ids).length)
          (cleared.list ++ result.ids).length = some (b, a) ∧
        (result.ids ≠ [] → Counted b a
          (some (max (result.fullCount - result.skipped) (cleared.list ++ result.ids).length))
          (before thread result.ids.toFinset) result.ids.length
          (after thread result.ids.toFinset)) ∧ (id ≠ 0 → b = none ∧ a = none) := by
      by_cases hid : id = 0
      · have hafter : result.ids ≠ [] → after thread result.ids.toFinset = 0 := fun _ => by
          rw [after_eq_zero_iff]
          simpa only [List.mem_toFinset] using hanswers.1 (Or.inl hid)
        rw [hcleared, if_pos hid]
        refine ⟨_, _, settle_other, fun hne' => ?_, fun h => absurd hid h⟩
        have htotal := hids hne'
        have hzero := hafter hne'
        refine Counted.of_known ?_ (Or.inr ?_) ?_ ?_ ?_ <;>
          simp only [List.nil_append] <;> omega
      · rw [hcleared, if_neg hid]
        exact ⟨none, none, rfl, fun _ => Counted.unknown, fun _ => ⟨rfl, rfl⟩⟩
    rw [processMessagesIsEmpty_back (s := cleared) hne hpage.decreasing List.Pairwise.nil
      (fun back hback => by cases hback) hsettle]
    by_cases hnil : result.ids = []
    · rw [decide_eq_true hnil]
      exact ⟨_, rfl, kept_nothing hnil rfl rfl rfl (hthread hnil)⟩
    · rw [decide_eq_false hnil]
      have hcounted := hcounted hnil
      dsimp only
      by_cases hid : id = 0
      · rw [if_pos hid]
        exact ⟨_, rfl, Kept.of_ne hnil hdec hpage.block hcounted⟩
      · obtain ⟨rfl, rfl⟩ := hknown hid
        rw [if_neg hid]
        obtain ⟨front, hfront⟩ : ∃ front, result.ids.head? = some front :=
          ⟨_, List.head?_eq_some_head hnil⟩
        obtain ⟨back, hback⟩ : ∃ back, result.ids.getLast? = some back :=
          ⟨_, List.getLast?_eq_some_getLast hnil⟩
        simp only [withPage, List.nil_append, hcleared, hfront, hback]
        split_ifs with hend hstart
        · refine ⟨_, rfl, Kept.of_ne hnil hdec hpage.block (Counted.unknown.none_after ?_)⟩
          rw [Nat.cast_eq_zero, after_eq_zero_iff]
          have hall := hanswers.1 (Or.inr fun x hx => (le_first hdec hfront hx).trans hend)
          simpa only [List.mem_toFinset] using hall
        · refine ⟨_, rfl, Kept.of_ne hnil hdec hpage.block (Counted.unknown.none_before ?_)⟩
          rw [Nat.cast_nonpos, before_eq_zero_iff]
          have hall := hanswers.2 (fun x hx => hstart.trans (last_le hdec hback hx)) hid
          simpa only [List.mem_toFinset] using hall
        · exact ⟨_, rfl, Kept.of_ne hnil hdec hpage.block Counted.unknown⟩

end

/-! ## Runs -/

/-- A thread and the part of it that is loaded. -/
structure ThreadState where
  ids : Finset MsgId
  replies : RepliesList
  deriving DecidableEq

/-- Requests are sent, answered and fail; messages of the thread arrive and are destroyed. -/
inductive RepliesEvent
  | loadAround (id : MsgId)
  | loadBefore
  | loadAfter
  | done (request : RepliesRequest) (result : MessagesResult)
  | fail (request : RepliesRequest)
  | added (id : MsgId)
  | destroyed (id : MsgId)

/-- What an event does; `none` if an assertion fails. -/
def ThreadState.step (w : ThreadState) : RepliesEvent → Option ThreadState
  | .loadAround id => some ⟨w.ids, w.replies.loadAround id⟩
  | .loadBefore => w.replies.loadBefore.map (⟨w.ids, ·⟩)
  | .loadAfter => w.replies.loadAfter.map (⟨w.ids, ·⟩)
  | .done request result => (w.replies.done result request).map (⟨w.ids, ·⟩)
  | .fail request => some ⟨w.ids, w.replies.fail request⟩
  | .added id => some ⟨insert id w.ids, w.replies.applyAdded id⟩
  | .destroyed id => some ⟨w.ids.erase id, w.replies.applyDestroyed id⟩

/-- The state after a run. -/
def ThreadState.run (w : ThreadState) (events : List RepliesEvent) : Option ThreadState :=
  events.foldlM ThreadState.step w

/-- A request waits for its response. -/
def RepliesList.InFlight (s : RepliesList) (request : RepliesRequest) : Prop :=
  s.beforeId = some request ∨ s.afterId = some request

/-- **What can happen**: more is loaded where something is, requests in flight are answered with
truthful pages, and messages arrive that are newer than what is loaded, or than all where nothing
is. -/
def Allowed (w : ThreadState) : RepliesEvent → Prop
  | .loadAround _ => True
  | .loadBefore => w.replies.list ≠ []
  | .loadAfter => w.replies.list ≠ []
  | .done request result =>
    w.replies.InFlight request ∧ Truthful w.ids result ∧ Answers w.ids result request
  | .fail request => w.replies.InFlight request
  | .added id =>
    (∀ x ∈ w.replies.list, x < id) ∧ (w.replies.list = [] → ∀ t ∈ w.ids, t < id)
  | .destroyed _ => True

/-- **The pages fit the counters.** -/
def Fitting (w : ThreadState) : RepliesEvent → Prop
  | .done request result => Fits w.ids w.replies result request
  | _ => True

/-- Each event of a run meets a condition in the state it happens in. -/
def Meets (ok : ThreadState → RepliesEvent → Prop) : ThreadState → List RepliesEvent → Prop
  | _, [] => True
  | w, event :: events =>
    ok w event ∧
      match w.step event with
      | none => True
      | some w' => Meets ok w' events

instance : DecidableRel Allowed
  | _, .loadAround _ => .isTrue trivial
  | w, .loadBefore => inferInstanceAs (Decidable (w.replies.list ≠ []))
  | w, .loadAfter => inferInstanceAs (Decidable (w.replies.list ≠ []))
  | w, .done request result => inferInstanceAs (Decidable
      ((w.replies.beforeId = some request ∨ w.replies.afterId = some request) ∧
        Truthful w.ids result ∧ Answers w.ids result request))
  | w, .fail request => inferInstanceAs (Decidable
      (w.replies.beforeId = some request ∨ w.replies.afterId = some request))
  | w, .added id => inferInstanceAs (Decidable
      ((∀ x ∈ w.replies.list, x < id) ∧ (w.replies.list = [] → ∀ t ∈ w.ids, t < id)))
  | _, .destroyed _ => .isTrue trivial

instance : DecidableRel Fitting
  | _, .loadAround _ => .isTrue trivial
  | _, .loadBefore => .isTrue trivial
  | _, .loadAfter => .isTrue trivial
  | w, .done request result => Fits.decide w.ids w.replies result request
  | _, .fail _ => .isTrue trivial
  | _, .added _ => .isTrue trivial
  | _, .destroyed _ => .isTrue trivial

instance Meets.decide {ok : ThreadState → RepliesEvent → Prop} [DecidableRel ok] :
    (w : ThreadState) → (events : List RepliesEvent) → Decidable (Meets ok w events)
  | _, [] => .isTrue trivial
  | w, event :: events =>
    match hstep : w.step event with
    | none => decidable_of_iff (ok w event) (by rw [Meets, hstep, and_true])
    | some w' =>
      have : Decidable (Meets ok w' events) := Meets.decide w' events
      decidable_of_iff (ok w event ∧ Meets ok w' events) (by rw [Meets, hstep])

theorem kept_new (thread : Finset MsgId) : Kept thread RepliesList.new :=
  ⟨List.Pairwise.nil, IsBlock.empty, Counted.unknown⟩

theorem Kept.loadAround {thread : Finset MsgId} {s : RepliesList} (h : Kept thread s) (id : MsgId) :
    Kept thread (s.loadAround id) := by
  rw [RepliesList.loadAround]
  split_ifs
  · exact h
  · exact ⟨h.decreasing, h.block, h.counted⟩

theorem Kept.windowed {thread : Finset MsgId} {s : RepliesList} (h : Kept thread s) :
    Windowed thread s where
  decreasing := h.decreasing
  block := h.block
  sum := h.counted.sum
  nothingBefore hzero hlist := by
    have hle := (h.counted_of_ne hlist).before_le 0 hzero
    have hall := before_eq_zero_iff.mp (Nat.cast_nonpos.mp hle)
    simpa only [List.mem_toFinset] using hall
  nothingAfter hzero hlist := by
    have hzero := (h.counted_of_ne hlist).after_zero hzero
    have hall := after_eq_zero_iff.mp (Nat.cast_eq_zero.mp hzero)
    simpa only [List.mem_toFinset] using hall
  nothing hbefore hafter hlist := by
    have hle := h.counted.before_le 0 hbefore
    rw [if_neg fun hnot => hnot.2 hafter, hlist, List.toFinset_nil, before_empty] at hle
    exact Finset.card_eq_zero.mp (Nat.cast_nonpos.mp hle)

/-- **Each step keeps the window**, and no assertion fails in it. -/
theorem Kept.step {w : ThreadState} {event : RepliesEvent} (h : Kept w.ids w.replies)
    (hallowed : Allowed w event) (hfits : Fitting w event) :
    ∃ w', w.step event = some w' ∧ Kept w'.ids w'.replies := by
  have hmap : ∀ {r : Option RepliesList}, (∃ s', r = some s' ∧ Kept w.ids s') →
      ∃ w' : ThreadState, r.map (⟨w.ids, ·⟩) = some w' ∧ Kept w'.ids w'.replies := by
    rintro _ ⟨s', rfl, hs'⟩
    exact ⟨_, rfl, hs'⟩
  cases event with
  | loadAround id => exact ⟨_, rfl, h.loadAround id⟩
  | loadBefore => exact hmap (exists_loadBefore h hallowed)
  | loadAfter => exact hmap (exists_loadAfter h hallowed)
  | done request result =>
    obtain ⟨-, hpage, hanswers⟩ := hallowed
    cases request with
    | around id => exact hmap (Kept.aroundDone hpage hanswers)
    | before last => exact hmap (h.beforeDone hpage hanswers hfits)
    | after first => exact hmap (h.afterDone hpage hanswers hfits)
  | fail request =>
    cases request with
    | around id => exact ⟨_, rfl, h.decreasing, h.block, h.counted⟩
    | before last => exact ⟨_, rfl, h.decreasing, h.block, h.counted⟩
    | after first => exact ⟨_, rfl, h.decreasing, h.block, h.counted⟩
  | added id => exact ⟨_, rfl, h.applyAdded hallowed.1 hallowed.2⟩
  | destroyed id => exact ⟨_, rfl, h.applyDestroyed id⟩

/-- **The window is kept.**  In every run whose pages fit the counters no assertion fails, and what
is loaded is a part of the thread without gaps, newest first; the counters before and after it,
where both are known, make up with it the full count, and one that is zero has nothing on its side.
-/
theorem window_kept (thread : Finset MsgId) (events : List RepliesEvent)
    (h : Meets (fun w event => Allowed w event ∧ Fitting w event) ⟨thread, new⟩ events) :
    ∃ w, ThreadState.run ⟨thread, new⟩ events = some w ∧ Windowed w.ids w.replies := by
  have hrun : ∀ w : ThreadState, Kept w.ids w.replies →
      Meets (fun w event => Allowed w event ∧ Fitting w event) w events →
      ∃ w', w.run events = some w' ∧ Kept w'.ids w'.replies := by
    clear h
    induction events with
    | nil => exact fun w hw _ => ⟨w, rfl, hw⟩
    | cons event events ih =>
      rintro w hw ⟨⟨hallowed, hfits⟩, hrest⟩
      obtain ⟨w', hstep, hw'⟩ := hw.step hallowed hfits
      rw [hstep] at hrest
      obtain ⟨w'', hrun, hw''⟩ := ih w' hw' hrest
      refine ⟨w'', ?_, hw''⟩
      rw [ThreadState.run, List.foldlM_cons, hstep]
      exact hrun
  obtain ⟨w, hw, hkept⟩ := hrun _ (kept_new thread) h
  exact ⟨w, hw, hkept.windowed⟩

/-- The newest messages are loaded, then one before them, and a message arrives and is destroyed. -/
def sampleEvents : List RepliesEvent :=
  [.loadAround 0, .done (.around 0) (.messagesSlice 3 [⟨3, true⟩]),
    .loadBefore, .done (.before 3) (.messagesSlice 3 [⟨2, true⟩]), .added 5, .destroyed 2]

theorem window_kept_sample :
    ∃ w, ThreadState.run ⟨{1, 2, 3}, new⟩ sampleEvents = some w ∧ Windowed w.ids w.replies :=
  window_kept {1, 2, 3} sampleEvents (by decide +kernel)

/-- The start of a thread is loaded with the messages up to the third, the fourth is still to be
loaded, two messages arrive, and then the fourth is loaded. -/
def arrivedEvents : List RepliesEvent :=
  [.loadAround 1, .done (.around 1) (.messagesSlice 4 [⟨2, true⟩, ⟨1, true⟩]),
    .loadAfter, .done (.after 2) (.messagesSlice 4 [⟨3, true⟩]), .added 5, .added 6,
    .loadAfter, .done (.after 3) (.messagesSlice 6 [⟨4, true⟩])]

/-- **Messages that arrive before newer ones are loaded are skipped**: nothing is said to be after
the fourth message, though there are two. -/
theorem arrived_messages_skipped :
    Meets Allowed ⟨{1, 2, 3, 4}, new⟩ arrivedEvents ∧
    ∃ w, ThreadState.run ⟨{1, 2, 3, 4}, new⟩ arrivedEvents = some w ∧
      w.replies.skippedAfter = some 0 ∧ ¬ Windowed w.ids w.replies := by
  refine ⟨by decide +kernel, _, rfl, by decide +kernel, fun h => ?_⟩
  have := h.nothingAfter (by decide +kernel) (by decide +kernel) 6 (by decide +kernel)
  revert this
  decide +kernel

end Yunogram.Data
