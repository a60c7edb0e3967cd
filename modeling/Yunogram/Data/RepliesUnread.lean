import Yunogram.Data.RepliesWindow

/-!
# Data/RepliesUnread — the unread messages of a thread, counted by what is loaded of it

When a thread is read up to some message, how many are left unread is counted by the loaded part of
it, where that is enough, and by how many there were unread before.  The root of a topic is one of
the messages of the topic: the views leave it out, and so do all ways to count but one.

`unread_counted`: if the loaded part is truly one of the thread and the former count is right, then
the new one is right, or there is none, exactly unless a thread that is loaded as a whole, with its
root, is counted from its root on. -/

open Machinery

namespace Yunogram.Data

/-- A `RepliesList` with what is known of what is read. -/
structure RepliesUnread where
  replies : RepliesList
  rootId : MsgId
  inboxReadTillId : MsgId
  unreadCount : Option ℤ
  deriving DecidableEq

namespace RepliesUnread

/-- `computeUnreadCountLocally`; it expects nothing below what is read already. -/
def computeUnreadCountLocally (s : RepliesUnread) (afterId : MsgId) : Option (Option ℤ) :=
  if afterId < s.inboxReadTillId then none  -- Expects(afterId >= _inboxReadTillId)
  else
    let list := s.replies.list
    let startingMarkingAsRead :=
      s.unreadCount = some 0 ∧ s.inboxReadTillId = 1 ∧ 1 < afterId
    let wasUnreadCountAfter :=
      if startingMarkingAsRead then some (s.replies.fullCount.getD 0) else s.unreadCount
    let readTillId := max afterId s.rootId
    let wasReadTillId := s.inboxReadTillId
    let backLoaded := s.replies.skippedBefore = some 0
    let frontLoaded := s.replies.skippedAfter = some 0
    let fullLoaded := backLoaded ∧ frontLoaded
    let allUnread := readTillId = s.rootId ∨ fullLoaded ∧ list = []
    some <|
      if allUnread ∧ fullLoaded then some list.length
      else if frontLoaded ∧ ∃ front ∈ list.head?, front ≤ readTillId then some 0
      else if wasReadTillId = readTillId then wasUnreadCountAfter
      else if frontLoaded ∧ ∃ back ∈ list.getLast?, back ≤ readTillId then
        some (lowerBound (fun id => decide (readTillId < id)) list)
      else if list = [] then none
      else
        match wasUnreadCountAfter with
        | none => none
        | some was =>
          if (frontLoaded ∨ ∃ front ∈ list.head?, readTillId ≤ front) ∧
              (backLoaded ∨ ∃ back ∈ list.getLast?, back ≤ wasReadTillId) then
            let start := lowerBound (fun id => decide (readTillId < id)) list
            let count := lowerBound (fun id => decide (wasReadTillId < id)) (list.drop start)
            some (max (was - count) 0)
          else none

/-- `setInboxReadTill`. -/
def setInboxReadTill (s : RepliesUnread) (readTillId : MsgId) (unreadCount : Option ℤ) :
    RepliesUnread :=
  let newReadTillId := max readTillId 1
  if newReadTillId < s.inboxReadTillId then s
  else
    let changed := s.inboxReadTillId < newReadTillId
    let inboxReadTillId := if changed then newReadTillId else s.inboxReadTillId
    let unreadCount :=
      if s.replies.skippedAfter = some 0 ∧ ∃ front ∈ s.replies.list.head?, front ≤ inboxReadTillId
      then some 0 else unreadCount
    { s with
      inboxReadTillId
      unreadCount :=
        if s.unreadCount ≠ unreadCount ∧ (changed ∨ unreadCount.isSome) then unreadCount
        else s.unreadCount }

/-- `apply` of what was read elsewhere. -/
def applyReadTill (s : RepliesUnread) (readTillId : MsgId) : Option RepliesUnread :=
  if readTillId < s.inboxReadTillId then some s
  else (s.computeUnreadCountLocally readTillId).map (s.setInboxReadTill readTillId)

/-! ## What is true of a thread -/

/-- The messages of a thread above an id. -/
def countAbove (thread : Finset MsgId) (id : MsgId) : ℤ := (thread.filter (id < ·)).card

/-- **The loaded part is truly one of the thread**: without a gap, with as many messages on its two
sides as it says, and in all as many as it says when there is none in it. -/
structure TrueWindow (thread : Finset MsgId) (s : RepliesList) : Prop where
  decreasing : s.list.Pairwise fun a b => b < a
  block : IsBlock thread s.list.toFinset
  before : s.list ≠ [] → ∀ n ∈ s.skippedBefore, n = before thread s.list.toFinset
  after : s.list ≠ [] → ∀ n ∈ s.skippedAfter, n = after thread s.list.toFinset
  none : s.list = [] → ∀ b ∈ s.skippedBefore, ∀ a ∈ s.skippedAfter, b + a = thread.card

/-- **The thread is loaded as a whole, with its root, and nothing above the root was read.** -/
def CountsRoot (s : RepliesUnread) (afterId : MsgId) : Prop :=
  s.replies.skippedBefore = some 0 ∧ s.replies.skippedAfter = some 0 ∧ afterId ≤ s.rootId ∧
    ∃ id ∈ s.replies.list, id ≤ s.rootId

instance (s : RepliesUnread) (afterId : MsgId) : Decidable (CountsRoot s afterId) :=
  inferInstanceAs (Decidable (_ ∧ _ ∧ _ ∧ _))

section

variable {thread : Finset MsgId} {s : RepliesList} {id front back : MsgId}

theorem TrueWindow.le_front (h : TrueWindow thread s) (hafter : s.skippedAfter = some 0)
    (hfront : s.list.head? = some front) : ∀ x ∈ thread, x ≤ front := by
  have hne : s.list ≠ [] := fun hnil => absurd hfront (by simp [hnil])
  have hzero : Machinery.after thread s.list.toFinset = 0 :=
    Nat.cast_eq_zero.mp (h.after hne 0 hafter).symm
  intro x hx
  obtain ⟨a, ha, hle⟩ := after_eq_zero_iff.mp hzero x hx
  exact hle.trans (le_first h.decreasing hfront (List.mem_toFinset.mp ha))

theorem TrueWindow.back_le (h : TrueWindow thread s) (hbefore : s.skippedBefore = some 0)
    (hback : s.list.getLast? = some back) : ∀ x ∈ thread, back ≤ x := by
  have hne : s.list ≠ [] := fun hnil => absurd hback (by simp [hnil])
  have hzero : Machinery.before thread s.list.toFinset = 0 :=
    Nat.cast_eq_zero.mp (h.before hne 0 hbefore).symm
  intro x hx
  obtain ⟨a, ha, hle⟩ := before_eq_zero_iff.mp hzero x hx
  exact (last_le h.decreasing hback (List.mem_toFinset.mp ha)).trans hle

/-- **A thread that is loaded as a whole.** -/
theorem TrueWindow.full (h : TrueWindow thread s) (hbefore : s.skippedBefore = some 0)
    (hafter : s.skippedAfter = some 0) : thread = s.list.toFinset := by
  refine Finset.Subset.antisymm (fun x hx => ?_) h.block.subset
  cases hlist : s.list with
  | nil =>
    have hcard : (0 : ℤ) = thread.card := h.none hlist 0 hbefore 0 hafter
    rw [Finset.card_eq_zero.mp (Nat.cast_eq_zero.mp hcard.symm)] at hx
    exact absurd hx (Finset.notMem_empty x)
  | cons front rest =>
    have hhead : s.list.head? = some front := by rw [hlist, List.head?_cons]
    have hlast := List.getLast?_eq_some_getLast (show s.list ≠ [] by simp [hlist])
    generalize s.list.getLast _ = back at hlast
    rw [← hlist]
    exact h.block.between back (List.mem_toFinset.mpr (List.mem_of_getLast? hlast)) front
      (List.mem_toFinset.mpr (List.mem_of_head? hhead)) x hx (h.back_le hbefore hlast x hx)
      (h.le_front hafter hhead x hx)

theorem TrueWindow.card (h : TrueWindow thread s) : (s.list.toFinset.card : ℤ) = s.list.length := by
  rw [List.toFinset_card_of_nodup (h.decreasing.imp fun hlt => hlt.ne')]

/-- The loaded messages of a kind, counted in the thread. -/
theorem TrueWindow.countP (h : TrueWindow thread s) {p : MsgId → Bool}
    (hin : ∀ x ∈ thread, p x = true → x ∈ s.list) :
    s.list.countP p = (thread.filter (p · = true)).card := by
  have hnodup : s.list.Nodup := h.decreasing.imp fun hlt => hlt.ne'
  rw [List.countP_eq_length_filter, ← List.toFinset_card_of_nodup (hnodup.filter _)]
  refine congrArg Finset.card (Finset.ext fun x => ?_)
  rw [List.mem_toFinset, List.mem_filter, Finset.mem_filter]
  refine and_congr_left fun hp => ⟨fun hx => ?_, fun hx => hin x hx hp⟩
  exact h.block.subset (List.mem_toFinset.mpr hx)

theorem pairwise_lowerBound {list : List MsgId} (h : list.Pairwise fun a b => b < a) :
    list.Pairwise fun x y => decide (id < y) = true → decide (id < x) = true :=
  h.imp fun hlt hid => decide_eq_true ((of_decide_eq_true hid).trans hlt)

/-- **What is above an id is counted in the list**, if all of it is loaded. -/
theorem TrueWindow.lowerBound (h : TrueWindow thread s) (hin : ∀ x ∈ thread, id < x → x ∈ s.list) :
    (Machinery.lowerBound (fun x => decide (id < x)) s.list : ℤ) = countAbove thread id := by
  rw [lowerBound_eq_countP (pairwise_lowerBound h.decreasing),
    h.countP fun x hx hlt => hin x hx (of_decide_eq_true hlt), countAbove]
  simp only [decide_eq_true_eq]

/-- **What is between two ids is counted in the rest of the list**, if all of it is loaded. -/
theorem TrueWindow.lowerBound_drop (h : TrueWindow thread s) {was till : MsgId}
    (hle : was ≤ till) (hin : ∀ x ∈ thread, was < x → x ≤ till → x ∈ s.list) :
    countAbove thread was = countAbove thread till +
      Machinery.lowerBound (fun x => decide (was < x))
        (s.list.drop (Machinery.lowerBound (fun x => decide (till < x)) s.list)) := by
  have hdrop := h.decreasing.sublist
    (List.drop_sublist (Machinery.lowerBound (fun x => decide (till < x)) s.list) s.list)
  have hbetween : (s.list.drop (Machinery.lowerBound (fun x => decide (till < x)) s.list)).countP
      (fun x => decide (was < x)) = s.list.countP fun x => decide (was < x ∧ x ≤ till) := by
    conv_rhs =>
      rw [← List.take_append_drop (Machinery.lowerBound (fun x => decide (till < x)) s.list) s.list]
    have htake : (s.list.take (Machinery.lowerBound (fun x => decide (till < x)) s.list)).countP
        (fun x => decide (was < x ∧ x ≤ till)) = 0 := by
      refine List.countP_eq_zero.mpr fun x hx hand => ?_
      have hlt := of_mem_take_lowerBound (pairwise_lowerBound h.decreasing) hx
      exact absurd (of_decide_eq_true hand).2 (not_le.mpr (of_decide_eq_true hlt))
    rw [List.countP_append, htake, Nat.zero_add]
    refine List.countP_congr fun x hx => ?_
    have hnot := of_mem_drop_lowerBound (pairwise_lowerBound h.decreasing) hx
    have hle := not_lt.mp (of_decide_eq_false hnot)
    rw [decide_eq_true_eq, decide_eq_true_eq, and_iff_left hle]
  rw [lowerBound_eq_countP (pairwise_lowerBound hdrop), hbetween,
    h.countP fun x hx hand => hin x hx (of_decide_eq_true hand).1 (of_decide_eq_true hand).2,
    countAbove, countAbove, ← Nat.cast_add]
  simp only [decide_eq_true_eq]
  rw [← Finset.card_union_of_disjoint]
  · refine congrArg _ (congrArg Finset.card (Finset.ext fun x => ?_))
    simp only [Finset.mem_filter, Finset.mem_union]
    constructor
    · rintro ⟨hx, hlt⟩
      exact (lt_or_ge till x).imp (⟨hx, ·⟩) fun hge => ⟨hx, hlt, hge⟩
    · rintro (⟨hx, hlt⟩ | ⟨hx, hlt, -⟩)
      · exact ⟨hx, hle.trans_lt hlt⟩
      · exact ⟨hx, hlt⟩
  · refine Finset.disjoint_filter.mpr fun x _ hlt hand => ?_
    exact absurd hand.2 (not_le.mpr hlt)

end

/-! ## The count -/

variable {thread : Finset MsgId} {s : RepliesUnread} {afterId : MsgId}

/-- Nothing of a thread is above an id that none of it is above. -/
theorem countAbove_eq_zero {id : MsgId} (h : ∀ x ∈ thread, x ≤ id) : countAbove thread id = 0 := by
  rw [countAbove, Finset.filter_eq_empty_iff.mpr fun x hx => not_lt.mpr (h x hx),
    Finset.card_empty, Nat.cast_zero]

/-- **What is counted is right**, but for the root of a thread that is loaded as a whole. -/
theorem computeUnreadCountLocally_eq (h : TrueWindow thread s.replies)
    (hunread : s.unreadCount = some (countAbove thread s.inboxReadTillId))
    (hafter : s.inboxReadTillId ≤ afterId) (hroot : ¬ CountsRoot s afterId) :
    ∃ count, s.computeUnreadCountLocally afterId = some count ∧
      ∀ n ∈ count, n = countAbove thread (max afterId s.rootId) := by
  rw [computeUnreadCountLocally, if_neg (not_lt.mpr hafter)]
  dsimp only
  refine ⟨_, rfl, fun n hn => ?_⟩
  have hle : s.inboxReadTillId ≤ max afterId s.rootId := hafter.trans (le_max_left _ _)
  -- Where nothing was unread from the start on, there is nothing above the first id.
  have hstarting : (s.unreadCount = some 0 ∧ s.inboxReadTillId = 1 ∧ 1 < afterId) →
      1 < max afterId s.rootId ∧ ∀ x ∈ s.replies.list, x ≤ 1 := by
    rintro ⟨hzero, hone, hlt⟩
    refine ⟨hlt.trans_le (le_max_left _ _), fun x hx => ?_⟩
    rw [hunread, Option.some.injEq, hone, countAbove, Nat.cast_eq_zero, Finset.card_eq_zero,
      Finset.filter_eq_empty_iff] at hzero
    exact not_lt.mp (hzero (h.block.subset (List.mem_toFinset.mpr hx)))
  generalize hwas : (if s.unreadCount = some 0 ∧ s.inboxReadTillId = 1 ∧ 1 < afterId then
    some (s.replies.fullCount.getD 0) else s.unreadCount) = was at hn
  split_ifs at hn with hall hfront hsame hback hnil hloaded
  · -- The whole thread is loaded, and all of it is unread.
    obtain ⟨hunreadAll, hbackLoaded, hfrontLoaded⟩ := hall
    have hthread := h.full hbackLoaded hfrontLoaded
    have habove : ∀ x ∈ thread, max afterId s.rootId < x := by
      intro x hx
      rw [hthread, List.mem_toFinset] at hx
      rcases hunreadAll with heq | ⟨-, hnil⟩
      · rw [heq]
        refine lt_of_not_ge fun hge => hroot ⟨hbackLoaded, hfrontLoaded, ?_, x, hx, hge⟩
        exact (le_max_left _ _).trans heq.le
      · rw [hnil] at hx
        exact absurd hx List.not_mem_nil
    rw [← Option.some.inj hn, countAbove, Finset.filter_true_of_mem habove]
    conv_rhs => rw [hthread]
    exact h.card.symm
  · -- All of the thread is read.
    obtain ⟨hfrontLoaded, front, hhead, hfrontLe⟩ := hfront
    rw [← Option.some.inj hn, countAbove_eq_zero fun x hx =>
      (h.le_front hfrontLoaded hhead x hx).trans hfrontLe]
  · -- The count is what it was.
    have hstart : ¬ (s.unreadCount = some 0 ∧ s.inboxReadTillId = 1 ∧ 1 < afterId) :=
      fun hstart => (hstarting hstart).1.ne' (hsame.symm.trans hstart.2.1)
    rw [if_neg hstart, hunread] at hwas
    rw [← hwas, Option.mem_some_iff] at hn
    rw [← hn, hsame]
  · -- All above the id is loaded.
    obtain ⟨hfrontLoaded, back, hlast, hbackLe⟩ := hback
    have hne : s.replies.list ≠ [] := fun hnil => by simp [hnil] at hlast
    obtain ⟨front, hhead⟩ := Option.ne_none_iff_exists'.mp (mt List.head?_eq_none_iff.mp hne)
    rw [← Option.some.inj hn]
    refine h.lowerBound fun x hx hlt => List.mem_toFinset.mp ?_
    exact h.block.between back (List.mem_toFinset.mpr (List.mem_of_getLast? hlast)) front
      (List.mem_toFinset.mpr (List.mem_of_head? hhead)) x hx (hbackLe.trans hlt.le)
      (h.le_front hfrontLoaded hhead x hx)
  · exact nomatch hn
  · -- What was read since is loaded.
    obtain ⟨front, hhead⟩ := Option.ne_none_iff_exists'.mp (mt List.head?_eq_none_iff.mp hnil)
    have hlast := List.getLast?_eq_some_getLast hnil
    generalize s.replies.list.getLast hnil = back at hlast
    cases was with
    | none => exact nomatch hn
    | some was =>
      dsimp only at hn
      rw [Option.mem_def] at hn
      obtain ⟨hfrontLoaded, hbackLoaded⟩ := hloaded
      have hstart : ¬ (s.unreadCount = some 0 ∧ s.inboxReadTillId = 1 ∧ 1 < afterId) := by
        intro hstart
        obtain ⟨hlt, hlist⟩ := hstarting hstart
        have hone := hlist front (List.mem_of_head? hhead)
        rcases hfrontLoaded with hloaded | ⟨front', hhead', hge⟩
        · exact hfront ⟨hloaded, front, hhead, hone.trans hlt.le⟩
        · obtain rfl := Option.mem_unique hhead hhead'
          exact absurd (hge.trans hone) (not_le.mpr hlt)
      rw [if_neg hstart, hunread, Option.some.injEq] at hwas
      have hin : ∀ x ∈ thread, s.inboxReadTillId < x → x ≤ max afterId s.rootId →
          x ∈ s.replies.list := by
        intro x hx hlt hxle
        refine List.mem_toFinset.mp (h.block.between back
          (List.mem_toFinset.mpr (List.mem_of_getLast? hlast)) front
          (List.mem_toFinset.mpr (List.mem_of_head? hhead)) x hx ?_ ?_)
        · rcases hbackLoaded with hloaded | ⟨back', hlast', hge⟩
          · exact h.back_le hloaded hlast x hx
          · obtain rfl := Option.mem_unique hlast hlast'
            exact hge.trans hlt.le
        · rcases hfrontLoaded with hloaded | ⟨front', hhead', hge⟩
          · exact h.le_front hloaded hhead x hx
          · obtain rfl := Option.mem_unique hhead hhead'
            exact hxle.trans hge
      have hsplit := h.lowerBound_drop hle hin
      have hpos : 0 ≤ countAbove thread (max afterId s.rootId) := Nat.cast_nonneg _
      rw [← Option.some.inj hn, ← hwas, hsplit, add_sub_cancel_right, max_eq_left hpos]
  · cases was with
    | none => exact nomatch hn
    | some was => exact nomatch hn

/-- **The unread messages are counted right, or not at all**, for all that may be read of a truly
loaded part of a thread, exactly unless the root of the thread is counted with them. -/
theorem unread_counted (h : TrueWindow thread s.replies)
    (hunread : s.unreadCount = some (countAbove thread s.inboxReadTillId))
    (hafter : s.inboxReadTillId ≤ afterId) :
    (∃ count, s.computeUnreadCountLocally afterId = some count ∧
        ∀ n ∈ count, n = countAbove thread (max afterId s.rootId)) ↔ ¬ CountsRoot s afterId := by
  refine ⟨?_, computeUnreadCountLocally_eq h hunread hafter⟩
  rintro ⟨count, hcount, hright⟩ ⟨hbefore, hafterZero, hle, id, hid, hidLe⟩
  have hmax : max afterId s.rootId = s.rootId := max_eq_right hle
  rw [computeUnreadCountLocally, if_neg (not_lt.mpr hafter)] at hcount
  dsimp only at hcount
  rw [if_pos ⟨Or.inl hmax, hbefore, hafterZero⟩, Option.some.injEq] at hcount
  have hall := hright _ (Option.mem_def.mpr hcount.symm)
  have hthread := h.full hbefore hafterZero
  have hlt : (thread.filter (s.rootId < ·)).card < thread.card := by
    refine Finset.card_lt_card (Finset.filter_ssubset.mpr ⟨id, ?_, not_lt.mpr hidLe⟩)
    rw [hthread]
    exact List.mem_toFinset.mpr hid
  have hcard : (thread.card : ℤ) = s.replies.list.length := by rw [hthread, h.card]
  rw [hmax, countAbove] at hall
  omega

/-- A topic that is loaded as a whole, of its root and one message. -/
def topicRead : RepliesUnread where
  replies := { RepliesList.new with
    list := [7, 5], skippedBefore := some 0, skippedAfter := some 0, fullCount := some 2 }
  rootId := 5
  inboxReadTillId := 5
  unreadCount := some 1

theorem topicRead_true : TrueWindow {5, 7} topicRead.replies where
  decreasing := by decide
  block := by decide
  before _ n hn := Option.some.inj hn ▸ (by decide)
  after _ n hn := Option.some.inj hn ▸ (by decide)
  none hnil := absurd hnil (by decide)

/-- A message above the one that is there is read. -/
theorem unread_counted_topic :
    ∃ count, topicRead.computeUnreadCountLocally 7 = some count ∧
      ∀ n ∈ count, n = countAbove {5, 7} (max 7 topicRead.rootId) :=
  (unread_counted topicRead_true (by decide) (by decide)).mpr (by decide)

/-- **The root of a topic is counted**: a topic is loaded and read up to its root, so that one
message is unread, and when the root is read again, two are counted. -/
theorem root_counted :
    ((RepliesList.new.loadAround 0).done
        (.channelMessages 2 [⟨7, true⟩, ⟨5, true⟩]) (.around 0)).map
        (fun replies => setInboxReadTill ⟨replies, 5, 0, none⟩ 5 (some 1)) = some topicRead ∧
      TrueWindow {5, 7} topicRead.replies ∧
      topicRead.unreadCount = some (countAbove {5, 7} topicRead.inboxReadTillId) ∧
      topicRead.inboxReadTillId ≤ 5 ∧
      ¬ ∃ count, topicRead.computeUnreadCountLocally 5 = some count ∧
        ∀ n ∈ count, n = countAbove {5, 7} (max 5 topicRead.rootId) := by
  refine ⟨by decide, topicRead_true, by decide, by decide, ?_⟩
  rintro ⟨count, hcount, hright⟩
  have htwo : topicRead.computeUnreadCountLocally 5 = some (some 2) := by decide
  have hwrong := hright 2 (Option.some.inj (hcount.symm.trans htwo))
  exact absurd hwrong (by decide)

/-! ## What is read elsewhere -/

/-- **What is known of the unread messages stays right** when more of the thread is read, or it is
no longer known. -/
theorem applyReadTill_unread (h : TrueWindow thread s.replies)
    (hunread : s.unreadCount = some (countAbove thread s.inboxReadTillId))
    (hafter : s.inboxReadTillId ≤ afterId) (hone : 1 ≤ afterId) (hrootLe : s.rootId ≤ afterId)
    (hroot : ¬ CountsRoot s afterId) :
    ∃ s', s.applyReadTill afterId = some s' ∧ s'.replies = s.replies ∧
      s'.inboxReadTillId = afterId ∧ ∀ n ∈ s'.unreadCount, n = countAbove thread afterId := by
  obtain ⟨count, hcount, hright⟩ := computeUnreadCountLocally_eq h hunread hafter hroot
  rw [max_eq_left hrootLe] at hright
  rw [applyReadTill, if_neg (not_lt.mpr hafter), hcount]
  refine ⟨_, rfl, ?_⟩
  have hread : (if s.inboxReadTillId < afterId then afterId else s.inboxReadTillId) = afterId := by
    split_ifs with hlt
    · rfl
    · exact le_antisymm hafter (not_lt.mp hlt)
  rw [setInboxReadTill, max_eq_left hone, if_neg (not_lt.mpr hafter)]
  dsimp only
  rw [hread]
  refine ⟨rfl, rfl, ?_⟩
  have hnext : ∀ n ∈ (if s.replies.skippedAfter = some 0 ∧
      ∃ front ∈ s.replies.list.head?, front ≤ afterId then some 0 else count),
      n = countAbove thread afterId := by
    intro n hn
    split_ifs at hn with hfront
    · obtain ⟨hfrontLoaded, front, hhead, hle⟩ := hfront
      rw [← Option.some.inj hn, countAbove_eq_zero fun x hx =>
        (h.le_front hfrontLoaded hhead x hx).trans hle]
    · exact hright n hn
  generalize (if s.replies.skippedAfter = some 0 ∧
    ∃ front ∈ s.replies.list.head?, front ≤ afterId then some 0 else count) = next at hnext ⊢
  intro n hn
  split_ifs at hn with hset
  · exact hnext n hn
  · rw [not_and_or, not_not, not_or, not_lt] at hset
    rcases hset with heq | ⟨hle, -⟩
    · exact hnext n (heq ▸ hn)
    · rw [hunread, Option.mem_some_iff] at hn
      rw [← hn, le_antisymm hafter hle]

end RepliesUnread

end Yunogram.Data
