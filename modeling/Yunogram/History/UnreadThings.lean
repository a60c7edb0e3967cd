import Mathlib
import Yunogram.Machinery.Run

/-!
# History/UnreadThings — the unread mentions, reactions and poll votes of a thread

A thread counts its unread things of each kind and loads some of them.  The lists of all kinds are
made together when there is something to store, and thrown away together when all of them are known
to be empty.

The result is `unread_true_in_every_state`: what is loaded is unread, and what is known of the count
is true, in all states of exactly those runs in which no new thing comes while only some of those
known are loaded, a slice without unread things comes only when all are loaded, and a count of zero
is not the first that is known of a thread with other unread things. -/

open Machinery

namespace Yunogram.HistoryUnreadThings

/-- `MsgId`. -/
abbrev MsgId := ℤ

/-- `Type`. -/
inductive Kind
  | mentions
  | reactions
  | pollVotes
  deriving DecidableEq

/-- `AddType`. -/
inductive AddType
  | new
  | existing
  deriving DecidableEq

/-- `List`. -/
structure Things where
  count : Option ℕ
  messages : Finset MsgId

/-- `List::loadedCount`. -/
def Things.loadedCount (list : Things) : ℕ := list.messages.card

/-- `List::clear`. -/
def Things.clear (list : Things) : Things := { list with messages := ∅ }

/-- `All`. -/
abbrev All := Kind → Things

/-- What a proxy is for: a thread, as far as its unread things go. -/
structure Thread where
  isBroadcast : Bool
  known : Bool
  data : Option All

namespace Thread

/-- `ConstProxy::loadedCount`. -/
def loadedCount (t : Thread) (kind : Kind) : ℕ :=
  (t.data.map fun all => (all kind).loadedCount).getD 0

/-- `ConstProxy::count`, unless it is not known. -/
def count (t : Thread) (kind : Kind) : Option ℕ :=
  match t.data with
  | some all => (all kind).count
  | none => if t.known then some 0 else none

/-- The ids that are stored. -/
def ids (t : Thread) (kind : Kind) : Finset MsgId :=
  (t.data.map fun all => (all kind).messages).getD ∅

/-- `Proxy::createData`. -/
def createData (known : Bool) : All := fun _ => ⟨if known then some 0 else none, ∅⟩

/-- The lists of a thread, which are made if there are none; `known` is what a proxy has seen. -/
def resolve (t : Thread) (known : Bool) : All := t.data.getD (createData known)

/-- `othersEmpty`. -/
def othersEmpty (all : All) (kind : Kind) : Bool :=
  [Kind.mentions, .reactions, .pollVotes].all fun other =>
    other = kind || (all other).count = some 0

/-- What `Proxy::setCount` does with lists that there are. -/
def storeCount (t : Thread) (all : All) (kind : Kind) (count : ℕ) : Thread :=
  let list := if count = 0 then (all kind).clear else all kind
  let count := if list.loadedCount > count then list.loadedCount else count
  if count = 0 && othersEmpty all kind then { t with data := none }
  else { t with data := some (Function.update all kind { list with count := some count }) }

/-- `Proxy::setCount`, of a proxy that has seen whether the thread was known. -/
def setCount (t : Thread) (known : Bool) (kind : Kind) (count : ℕ) : Thread :=
  let t := { t with known := t.known || !known }
  if t.data.isNone && count = 0 then t else t.storeCount (t.resolve known) kind count

/-- `Proxy::add`. -/
def add (t : Thread) (kind : Kind) (msgId : MsgId) (type : AddType) : Thread :=
  if t.isBroadcast then t
  else
    let all := t.resolve t.known
    let list := all kind
    let inserted :=
      { t with
        data := some (Function.update all kind
          { list with messages := insert msgId list.messages }) }
    match list.count with
    | some count =>
      if count ≤ list.loadedCount then
        if type = .new ∨ msgId ∉ list.messages then inserted.setCount t.known kind (count + 1)
        else { t with data := some all }
      else if 0 < list.loadedCount ∧ type ≠ .new then inserted
      else { t with data := some all }
    | none =>
      if 0 < list.loadedCount ∧ type ≠ .new then inserted else { t with data := some all }

/-- `Proxy::erase`. -/
def erase (t : Thread) (kind : Kind) (msgId : MsgId) : Thread :=
  match t.data with
  | none => t
  | some all =>
    let list := all kind
    let erased :=
      { t with
        data := some (Function.update all kind
          { list with messages := list.messages.erase msgId }) }
    match list.count with
    | some count => if 0 < count then erased.setCount t.known kind (count - 1) else erased
    | none => erased

/-- `Proxy::clear`. -/
def clear (t : Thread) (kind : Kind) : Thread :=
  match t.data with
  | none => t
  | some all =>
    if (all kind).count = some 0 then t
    else
      { t with data := some (Function.update all kind (all kind).clear) }.setCount t.known kind 0

/-- `MTPmessages_Messages`; a message is its id, and whether it is unread in the way of a kind. -/
inductive Slice
  | messagesNotModified
  | messages (vmessages : List (MsgId × Bool))
  | messagesSlice (vcount : ℕ) (vmessages : List (MsgId × Bool))
  | channelMessages (vcount : ℕ) (vmessages : List (MsgId × Bool))

/-- `fullCount`. -/
def Slice.fullCount : Slice → ℕ
  | .messagesNotModified => 0
  | .messages vmessages => vmessages.length
  | .messagesSlice vcount _ => vcount
  | .channelMessages vcount _ => vcount

/-- `messages`. -/
def Slice.list : Slice → List (MsgId × Bool)
  | .messagesNotModified => []
  | .messages vmessages => vmessages
  | .messagesSlice _ vmessages => vmessages
  | .channelMessages _ vmessages => vmessages

/-- The ids that a slice adds; a message with poll votes gets unread ones. -/
def Slice.unread (slice : Slice) (kind : Kind) : List MsgId :=
  (slice.list.filter fun message => kind = .pollVotes || message.2).map Prod.fst

/-- What `Proxy::addSlice` does first: a first slice replaces what is loaded. -/
def beforeSlice (t : Thread) (kind : Kind) (alreadyLoaded : ℤ) : Thread :=
  match t.data with
  | some all =>
    if alreadyLoaded = 0 then { t with data := some (Function.update all kind (all kind).clear) }
    else t
  | none => t

/-- `Proxy::addSlice`. -/
def addSlice (t : Thread) (kind : Kind) (slice : Slice) (alreadyLoaded : ℤ) : Thread :=
  let cleared := t.beforeSlice kind alreadyLoaded
  if slice.list.isEmpty then cleared.setCount t.known kind (cleared.loadedCount kind)
  else
    let all := cleared.resolve t.known
    let list := all kind
    let added :=
      { cleared with
        data := some (Function.update all kind
          { list with messages := list.messages ∪ (slice.unread kind).toFinset }) }
    let fullCount :=
      if (slice.unread kind).isEmpty then added.loadedCount kind else slice.fullCount
    added.setCount t.known kind fullCount

/-! ## What is known is true -/

variable {t : Thread} {kind other : Kind} {msgId : MsgId} {truth : Kind → Finset MsgId} {all : All}
  {known : Bool} {n : ℕ}

/-- A list has unread things only, and a count that it has is theirs. -/
def ListTracks (list : Things) (unread : Finset MsgId) : Prop :=
  list.messages ⊆ unread ∧ ∀ c, list.count = some c → c = unread.card

/-- **The lists of a thread have unread things only, and what is known of a count is true.** -/
def Tracks (t : Thread) (truth : Kind → Finset MsgId) : Prop :=
  ∀ kind, t.ids kind ⊆ truth kind ∧ ∀ c, t.count kind = some c → c = (truth kind).card

theorem listTracks_empty (hzero : known = true → truth kind = ∅) :
    ListTracks (createData known kind) (truth kind) := by
  refine ⟨Finset.empty_subset _, fun c hc => ?_⟩
  rw [createData] at hc
  split_ifs at hc with hknown
  rw [hzero hknown]
  exact (Option.some.inj hc).symm

theorem tracks_of_data (hdata : t.data = some all) :
    Tracks t truth ↔ ∀ kind, ListTracks (all kind) (truth kind) := by
  simp only [Tracks, ids, count, hdata]
  exact Iff.rfl

theorem tracks_of_none (hdata : t.data = none) :
    Tracks t truth ↔ (t.known = true → ∀ kind, truth kind = ∅) := by
  simp only [Tracks, ids, count, hdata]
  constructor
  · intro h hknown kind
    have hzero := (h kind).2 0 (if_pos hknown)
    exact Finset.card_eq_zero.mp hzero.symm
  · intro h kind
    refine ⟨Finset.empty_subset _, fun c hc => ?_⟩
    split_ifs at hc with hknown
    rw [h hknown kind]
    exact (Option.some.inj hc).symm

theorem Tracks.resolve (h : Tracks t truth) (kind : Kind) :
    ListTracks (t.resolve t.known kind) (truth kind) := by
  rw [Thread.resolve]
  cases hdata : t.data with
  | some all => exact (tracks_of_data hdata).mp h kind
  | none => exact listTracks_empty fun hknown => (tracks_of_none hdata).mp h hknown kind

/-- Lists that are all right but for one that was replaced. -/
theorem tracks_update {list : Things} (hdata : t.data = some (Function.update all kind list))
    (hlist : ListTracks list (truth kind))
    (hothers : ∀ other, other ≠ kind → ListTracks (all other) (truth other)) : Tracks t truth := by
  refine (tracks_of_data hdata).mpr fun other => ?_
  by_cases heq : other = kind
  · subst heq
    rw [Function.update_self]
    exact hlist
  · rw [Function.update_of_ne heq]
    exact hothers other heq

theorem othersEmpty_iff : othersEmpty all kind = true ↔
    ∀ other, other ≠ kind → (all other).count = some 0 := by
  have hkinds : ∀ other : Kind, other ∈ [Kind.mentions, .reactions, .pollVotes] := by
    intro other
    cases other <;> simp
  simp only [othersEmpty, List.all_eq_true, Bool.or_eq_true, decide_eq_true_eq]
  exact ⟨fun h other hne => (h other (hkinds other)).resolve_left hne,
    fun h other _ => or_iff_not_imp_left.mpr (h other)⟩

/-- **A count is set to what it is.** -/
theorem tracks_storeCount (hkind : (all kind).messages ⊆ truth kind)
    (hothers : ∀ other, other ≠ kind → ListTracks (all other) (truth other)) :
    Tracks (t.storeCount all kind (truth kind).card) truth := by
  set list := if (truth kind).card = 0 then (all kind).clear else all kind with hlist
  have hmessages : list.messages ⊆ truth kind := by
    rw [hlist]
    split_ifs
    · exact Finset.empty_subset _
    · exact hkind
  have hloaded : ¬ list.loadedCount > (truth kind).card :=
    not_lt.mpr (Finset.card_le_card hmessages)
  have hstore : t.storeCount all kind (truth kind).card =
      if (truth kind).card = 0 && othersEmpty all kind then { t with data := none }
      else { t with
        data := some (Function.update all kind
          { list with count := some (truth kind).card }) } := by
    rw [storeCount, if_neg hloaded]
  rw [hstore]
  split_ifs with hreset
  · rw [Bool.and_eq_true, decide_eq_true_eq, othersEmpty_iff] at hreset
    refine (tracks_of_none rfl).mpr fun _ other => Finset.card_eq_zero.mp ?_
    by_cases heq : other = kind
    · rw [heq]; exact hreset.1
    · exact ((hothers other heq).2 0 (hreset.2 other heq)).symm
  · exact tracks_update rfl ⟨hmessages, fun c hc => (Option.some.inj hc).symm⟩ hothers

theorem tracks_setCount (hkind : (t.resolve known kind).messages ⊆ truth kind)
    (hothers : ∀ other, other ≠ kind → ListTracks (t.resolve known other) (truth other))
    (hzero : t.data = none → truth kind = ∅ → ∀ other, truth other = ∅) :
    Tracks (t.setCount known kind (truth kind).card) truth := by
  rw [setCount]
  split_ifs with hnone
  · rw [Bool.and_eq_true, Option.isNone_iff_eq_none, decide_eq_true_eq] at hnone
    exact (tracks_of_none hnone.1).mpr fun _ => hzero hnone.1 (Finset.card_eq_zero.mp hnone.2)
  · exact tracks_storeCount hkind hothers

theorem loadedCount_resolve (t : Thread) (known : Bool) (kind : Kind) :
    (t.resolve known kind).loadedCount = t.loadedCount kind := by
  rw [Thread.resolve, Thread.loadedCount]
  cases t.data with
  | some all => rfl
  | none => rfl

theorem tracks_setCount_update {list : Things}
    (hdata : t.data = some (Function.update all kind list)) (hlist : list.messages ⊆ truth kind)
    (hothers : ∀ other, other ≠ kind → ListTracks (all other) (truth other)) :
    Tracks (t.setCount known kind (truth kind).card) truth := by
  have hresolve : t.resolve known = Function.update all kind list := by
    rw [Thread.resolve, hdata, Option.getD_some]
  refine tracks_setCount ?_ (fun other hne => ?_) fun hnone => nomatch hdata.symm.trans hnone
  · rw [hresolve, Function.update_self]
    exact hlist
  · rw [hresolve, Function.update_of_ne hne]
    exact hothers other hne

/-- A count that is set is what it was set to, if no more is loaded. -/
theorem count_storeCount (hknown : t.known = true) (all : All) (kind : Kind) (n : ℕ) :
    ∃ m, (t.storeCount all kind n).count kind = some m ∧
      ((all kind).loadedCount ≤ n → m = n) := by
  set list := if n = 0 then (all kind).clear else all kind with hlist
  have hloaded : list.loadedCount ≤ (all kind).loadedCount := by
    rw [hlist]
    split_ifs
    · exact Nat.zero_le _
    · exact le_rfl
  have hmax : (if list.loadedCount > n then list.loadedCount else n) = max list.loadedCount n := by
    split_ifs with h
    · exact (max_eq_left h.le).symm
    · exact (max_eq_right (not_lt.mp h)).symm
  refine ⟨max list.loadedCount n, ?_, fun hle => max_eq_right (hloaded.trans hle)⟩
  rw [storeCount, ← hlist, hmax]
  split_ifs with hreset
  · rw [Bool.and_eq_true, decide_eq_true_eq] at hreset
    rw [count, hreset.1]
    exact if_pos hknown
  · rw [count]
    dsimp only
    rw [Function.update_self]

/-- …and it is known from then on. -/
theorem count_setCount (t : Thread) (kind : Kind) (n : ℕ) :
    ∃ m, (t.setCount t.known kind n).count kind = some m ∧ (t.loadedCount kind ≤ n → m = n) := by
  rw [setCount]
  split_ifs with hnone
  · rw [Bool.and_eq_true, Option.isNone_iff_eq_none, decide_eq_true_eq] at hnone
    refine ⟨0, ?_, fun _ => hnone.2.symm⟩
    rw [count, hnone.1]
    exact if_pos (Bool.or_not_self _)
  · rw [← loadedCount_resolve t t.known kind]
    exact count_storeCount (Bool.or_not_self _) _ kind n

theorem count_resolve (t : Thread) (kind : Kind) :
    (t.resolve t.known kind).count = t.count kind := by
  rw [Thread.resolve, count]
  cases t.data with
  | some all => rfl
  | none => rfl

/-! ## What is done with the things of a kind -/

section

variable {unread : Finset MsgId}

theorem Tracks.at_others (h : Tracks t truth) (hne : other ≠ kind) :
    ListTracks (t.resolve t.known other) (Function.update truth kind unread other) := by
  rw [Function.update_of_ne hne]
  exact h.resolve other

/-- The lists of a thread may be made at any time. -/
theorem Tracks.create (h : Tracks t truth) :
    Tracks { t with data := some (t.resolve t.known) } truth :=
  (tracks_of_data rfl).mpr h.resolve

/-- Where the count is not known there may be more that is unread. -/
theorem Tracks.grow (h : Tracks t truth) (hcount : t.count kind = none)
    (hsubset : truth kind ⊆ unread) : Tracks t (Function.update truth kind unread) := by
  intro other
  by_cases heq : other = kind
  · subst heq
    rw [Function.update_self]
    exact ⟨(h other).1.trans hsubset, fun c hc => nomatch hcount.symm.trans hc⟩
  · rw [Function.update_of_ne heq]
    exact h other

/-- **A new thing** is counted and stored, if the others are. -/
theorem Tracks.add (h : Tracks t truth) (hnew : msgId ∉ truth kind)
    (hfits : ∀ c, t.count kind = some c → t.isBroadcast = false ∧ c ≤ t.loadedCount kind) :
    Tracks (t.add kind msgId .new) (Function.update truth kind (insert msgId (truth kind))) := by
  have hlist := h.resolve kind
  rw [Thread.add]
  split_ifs with hbroadcast
  · refine h.grow ?_ (Finset.subset_insert _ _)
    cases hcount : t.count kind with
    | none => rfl
    | some c => exact nomatch hbroadcast.symm.trans (hfits c hcount).1
  dsimp only
  rw [count_resolve, loadedCount_resolve]
  cases hcount : t.count kind with
  | none =>
    dsimp only
    rw [if_neg fun hnew => hnew.2 rfl]
    exact h.create.grow ((count_resolve t kind).trans hcount) (Finset.subset_insert _ _)
  | some c =>
    have hc : c + 1 = (Function.update truth kind (insert msgId (truth kind)) kind).card := by
      rw [Function.update_self, Finset.card_insert_of_notMem hnew]
      exact congrArg (· + 1) ((h kind).2 c hcount)
    dsimp only
    rw [if_pos (hfits c hcount).2, if_pos (.inl rfl), hc]
    refine tracks_setCount_update rfl ?_ fun other hne => h.at_others hne
    rw [Function.update_self]
    exact Finset.insert_subset_insert msgId hlist.1

/-- **A thing that is unread already** is stored at most. -/
theorem Tracks.addExisting (h : Tracks t truth) (hmem : msgId ∈ truth kind) :
    Tracks (t.add kind msgId .existing) truth := by
  have hlist := h.resolve kind
  have hinserted : ∀ {count}, (t.resolve t.known kind).count = count →
      Tracks { t with data := some (Function.update (t.resolve t.known) kind
        ⟨count, insert msgId (t.resolve t.known kind).messages⟩) } truth := fun hcount =>
    tracks_update rfl ⟨Finset.insert_subset hmem hlist.1, hcount ▸ hlist.2⟩
      fun other _ => h.resolve other
  rw [Thread.add]
  split_ifs with hbroadcast
  · exact h
  dsimp only
  cases hcount : (t.resolve t.known kind).count with
  | none =>
    dsimp only
    split_ifs
    · exact hinserted hcount
    · exact h.create
  | some c =>
    dsimp only
    split_ifs with hall hmissing
    · -- all that is unread is loaded, so this is
      have heq : (t.resolve t.known kind).messages = truth kind :=
        Finset.eq_of_subset_of_card_le hlist.1 (by rw [← hlist.2 c hcount]; exact hall)
      rcases hmissing with htype | hmissing
      · exact nomatch htype
      · exact absurd (heq ▸ hmem) hmissing
    · exact h.create
    · exact hinserted hcount
    · exact h.create

/-- **A thing that is read** is not counted any more, wherever it was. -/
theorem Tracks.erase (h : Tracks t truth) (hmem : msgId ∈ truth kind) :
    Tracks (t.erase kind msgId) (Function.update truth kind ((truth kind).erase msgId)) := by
  rw [Thread.erase]
  cases hdata : t.data with
  | none =>
    refine (tracks_of_none hdata).mpr fun hknown => ?_
    rw [(tracks_of_none hdata).mp h hknown kind] at hmem
    exact absurd hmem (Finset.notMem_empty _)
  | some all =>
    have hall := (tracks_of_data hdata).mp h
    have herased : (all kind).messages.erase msgId ⊆ (truth kind).erase msgId :=
      Finset.erase_subset_erase msgId (hall kind).1
    have hothers : ∀ other, other ≠ kind → ListTracks (all other)
        (Function.update truth kind ((truth kind).erase msgId) other) := fun other hne => by
      rw [Function.update_of_ne hne]
      exact hall other
    dsimp only
    cases hcount : (all kind).count with
    | none =>
      refine tracks_update rfl ?_ hothers
      rw [Function.update_self]
      exact ⟨herased, fun c hc => nomatch hc⟩
    | some c =>
      have hc := (hall kind).2 c hcount
      have hpos : 0 < c := hc ▸ Finset.card_pos.mpr ⟨msgId, hmem⟩
      have hcard : c - 1 =
          (Function.update truth kind ((truth kind).erase msgId) kind).card := by
        rw [Function.update_self, Finset.card_erase_of_mem hmem, hc]
      dsimp only
      rw [if_pos hpos, hcard]
      refine tracks_setCount_update rfl ?_ hothers
      rw [Function.update_self]
      exact herased

/-- **All things of a kind are read.** -/
theorem Tracks.clear (h : Tracks t truth) (kind : Kind) :
    Tracks (t.clear kind) (Function.update truth kind ∅) := by
  rw [Thread.clear]
  cases hdata : t.data with
  | none =>
    refine (tracks_of_none hdata).mpr fun hknown other => ?_
    by_cases heq : other = kind
    · rw [heq, Function.update_self]
    · rw [Function.update_of_ne heq]
      exact (tracks_of_none hdata).mp h hknown other
  | some all =>
    have hall := (tracks_of_data hdata).mp h
    dsimp only
    split_ifs with hzero
    · have hempty : truth kind = ∅ :=
        Finset.card_eq_zero.mp ((hall kind).2 0 hzero).symm
      rw [← hempty, Function.update_eq_self]
      exact h
    · have hcard : 0 = (Function.update truth kind ∅ kind).card := by
        rw [Function.update_self, Finset.card_empty]
      rw [hcard]
      refine tracks_setCount_update rfl (Finset.empty_subset _) fun other hne => ?_
      rw [Function.update_of_ne hne]
      exact hall other

/-- **A count that is received** is the true one. -/
theorem Tracks.setCount (h : Tracks t truth)
    (hfits : t.data = none → t.known = false → truth kind = ∅ → ∀ other, truth other = ∅) :
    Tracks (t.setCount t.known kind (truth kind).card) truth := by
  refine tracks_setCount (h.resolve kind).1 (fun other _ => h.resolve other) fun hdata hzero => ?_
  cases hknown : t.known with
  | false => exact hfits hdata hknown hzero
  | true => exact (tracks_of_none hdata).mp h hknown

theorem Tracks.beforeSlice (h : Tracks t truth) (kind : Kind) (alreadyLoaded : ℤ) :
    Tracks (t.beforeSlice kind alreadyLoaded) truth := by
  rw [Thread.beforeSlice]
  cases hdata : t.data with
  | none => exact h
  | some all =>
    have hall := (tracks_of_data hdata).mp h
    dsimp only
    split_ifs
    · exact tracks_update rfl ⟨Finset.empty_subset _, (hall kind).2⟩ fun other _ => hall other
    · exact h

/-- A first slice changes nothing but what is loaded. -/
theorem beforeSlice_eq (t : Thread) (kind : Kind) (alreadyLoaded : ℤ) :
    (t.beforeSlice kind alreadyLoaded).known = t.known ∧
      ((t.beforeSlice kind alreadyLoaded).data = none ↔ t.data = none) := by
  rw [Thread.beforeSlice]
  cases hdata : t.data with
  | none => exact ⟨rfl, iff_of_true hdata rfl⟩
  | some all =>
    dsimp only
    split_ifs
    · exact ⟨rfl, iff_of_false nofun nofun⟩
    · exact ⟨rfl, iff_of_false (by rw [hdata]; exact nofun) nofun⟩

theorem loadedCount_beforeSlice (t : Thread) (kind : Kind) (alreadyLoaded : ℤ) :
    (t.beforeSlice kind alreadyLoaded).loadedCount kind =
      if alreadyLoaded = 0 then 0 else t.loadedCount kind := by
  rw [Thread.beforeSlice]
  cases hdata : t.data with
  | none =>
    rw [Thread.loadedCount, hdata]
    exact (ite_self 0).symm
  | some all =>
    dsimp only
    split_ifs
    · show (Function.update all kind _ kind).loadedCount = 0
      rw [Function.update_self]
      rfl
    · rfl

/-- The count that a slice sets: that of what is loaded, if it adds nothing. -/
theorem addSlice_of_nothing (t : Thread) {slice : Slice} (alreadyLoaded : ℤ)
    (hnothing : slice.unread kind = []) :
    ∃ t', t'.known = t.known ∧ (t'.data = none ↔ slice.list = [] ∧ t.data = none) ∧
      t'.loadedCount kind = (if alreadyLoaded = 0 then 0 else t.loadedCount kind) ∧
      (∀ {truth}, Tracks t truth → Tracks t' truth) ∧
      t.addSlice kind slice alreadyLoaded = t'.setCount t.known kind (t'.loadedCount kind) := by
  obtain ⟨hknown, hdata⟩ := beforeSlice_eq t kind alreadyLoaded
  rw [← loadedCount_beforeSlice]
  set cleared := t.beforeSlice kind alreadyLoaded with hcleared
  rw [addSlice, ← hcleared, hnothing]
  dsimp only
  split_ifs with hlist hfalse
  · refine ⟨cleared, hknown, ?_, rfl, fun h => h.beforeSlice kind alreadyLoaded, rfl⟩
    rw [hdata, List.isEmpty_iff.mp hlist]
    exact (and_iff_right rfl).symm
  · refine ⟨{ cleared with data := some (Function.update (cleared.resolve t.known) kind
      ⟨(cleared.resolve t.known kind).count,
        (cleared.resolve t.known kind).messages ∪ ([] : List MsgId).toFinset⟩) },
      hknown, ?_, ?_, fun h => ?_, rfl⟩
    · exact iff_of_false nofun fun h => hlist (List.isEmpty_iff.mpr h.1)
    · show (Function.update (cleared.resolve t.known) kind _ kind).loadedCount = _
      rw [Function.update_self, ← loadedCount_resolve cleared t.known kind, Things.loadedCount,
        List.toFinset_nil, Finset.union_empty]
      rfl
    · have hbefore := (h.beforeSlice kind alreadyLoaded).resolve
      rw [← hcleared, hknown] at hbefore
      refine tracks_update rfl ?_ fun other _ => hbefore other
      rw [List.toFinset_nil, Finset.union_empty]
      exact hbefore kind
  · exact absurd rfl hfalse

/-- **A slice** adds what is unread, and the count that comes with it is the true one. -/
theorem Tracks.addSlice (h : Tracks t truth) {slice : Slice} {alreadyLoaded : ℤ}
    (hslice : ∀ msgId ∈ slice.unread kind, msgId ∈ truth kind)
    (hcount : slice.unread kind ≠ [] → slice.fullCount = (truth kind).card)
    (hfits : slice.unread kind = [] →
      (if alreadyLoaded = 0 then 0 else t.loadedCount kind) = (truth kind).card ∧
      (slice.list = [] → t.data = none → t.known = false → ∀ other, truth other = ∅)) :
    Tracks (t.addSlice kind slice alreadyLoaded) truth := by
  by_cases hnothing : slice.unread kind = []
  · obtain ⟨hloaded, hzero⟩ := hfits hnothing
    obtain ⟨t', hknown, hdata, hloaded', htracks, hslice⟩ :=
      addSlice_of_nothing t alreadyLoaded hnothing
    rw [hslice, hloaded'.trans hloaded, ← hknown]
    refine (htracks h).setCount fun hnone hfalse _ => ?_
    exact hzero (hdata.mp hnone).1 (hdata.mp hnone).2 (hknown.symm.trans hfalse)
  · have hlist : slice.list ≠ [] := fun hnil => hnothing (by rw [Slice.unread, hnil]; rfl)
    have hbefore := (h.beforeSlice kind alreadyLoaded).resolve
    rw [(beforeSlice_eq t kind alreadyLoaded).1] at hbefore
    rw [Thread.addSlice]
    dsimp only
    rw [if_neg (fun h => hlist (List.isEmpty_iff.mp h)),
      if_neg (fun h => hnothing (List.isEmpty_iff.mp h)), hcount hnothing]
    refine tracks_setCount_update rfl ?_ fun other _ => hbefore other
    refine Finset.union_subset (hbefore kind).1 fun msgId hmem => ?_
    exact hslice msgId (List.mem_toFinset.mp hmem)

end

end Thread

/-- A thread, and what is unread in it. -/
structure Chat where
  thread : Thread
  unread : Kind → Finset MsgId

/-- What happens to a thread. -/
inductive Op
  | add (kind : Kind) (msgId : MsgId)
  | addExisting (kind : Kind) (msgId : MsgId)
  | erase (kind : Kind) (msgId : MsgId)
  | clear (kind : Kind)
  | setCount (kind : Kind)
  | addSlice (kind : Kind) (slice : Thread.Slice) (alreadyLoaded : ℤ)

/-- One of them, if it is as the thread is: what is new was not unread before, what is there or
erased was, and a slice with something unread has unread things only and their count. -/
def step (c : Chat) : Op → Option Chat
  | .add kind msgId =>
    if msgId ∈ c.unread kind then none
    else some ⟨c.thread.add kind msgId .new,
      Function.update c.unread kind (insert msgId (c.unread kind))⟩
  | .addExisting kind msgId =>
    if msgId ∈ c.unread kind then some { c with thread := c.thread.add kind msgId .existing }
    else none
  | .erase kind msgId =>
    if msgId ∈ c.unread kind then
      some ⟨c.thread.erase kind msgId,
        Function.update c.unread kind ((c.unread kind).erase msgId)⟩
    else none
  | .clear kind => some ⟨c.thread.clear kind, Function.update c.unread kind ∅⟩
  | .setCount kind =>
    some { c with thread := c.thread.setCount c.thread.known kind (c.unread kind).card }
  | .addSlice kind slice alreadyLoaded =>
    if (∀ msgId ∈ slice.unread kind, msgId ∈ c.unread kind) ∧
        (slice.unread kind ≠ [] → slice.fullCount = (c.unread kind).card) then
      some { c with thread := c.thread.addSlice kind slice alreadyLoaded }
    else none

/-- **What is loaded is unread, a count that is known is that of what is unread and no less than
what is loaded, and if no more than what is loaded is known, all that is unread is loaded.** -/
def Sound (c : Chat) : Prop :=
  ∀ kind, c.thread.ids kind ⊆ c.unread kind ∧ ∀ count, c.thread.count kind = some count →
    count = (c.unread kind).card ∧ c.thread.loadedCount kind ≤ count ∧
      (count ≤ c.thread.loadedCount kind → c.thread.ids kind = c.unread kind)

theorem loadedCount_eq (t : Thread) (kind : Kind) : t.loadedCount kind = (t.ids kind).card := by
  rw [Thread.loadedCount, Thread.ids]
  cases t.data with
  | some all => rfl
  | none => rfl

theorem sound_iff {c : Chat} : Sound c ↔ c.thread.Tracks c.unread := by
  refine forall_congr' fun kind => and_congr_right fun hsubset => forall₂_congr fun count _ => ?_
  refine ⟨And.left, fun hcount => ⟨hcount, ?_, fun hle => ?_⟩⟩
  · rw [hcount, loadedCount_eq]
    exact Finset.card_le_card hsubset
  · rw [hcount, loadedCount_eq] at hle
    exact Finset.eq_of_subset_of_card_le hsubset hle

/-! ## In every run -/

open Thread

/-- What a step must not meet: a new thing while the count is known and not all is loaded (or in a
channel, which stores nothing); a slice that adds nothing while not all is loaded; and a first count
of zero while things of another kind are unread. -/
def Op.Fits (c : Chat) : Op → Prop
  | .add kind _ => ∀ count, c.thread.count kind = some count →
    c.thread.isBroadcast = false ∧ count ≤ c.thread.loadedCount kind
  | .setCount kind => c.thread.data = none → c.thread.known = false → c.unread kind = ∅ →
    ∀ other, c.unread other = ∅
  | .addSlice kind slice alreadyLoaded => slice.unread kind = [] →
    (if alreadyLoaded = 0 then 0 else c.thread.loadedCount kind) = (c.unread kind).card ∧
    (slice.list = [] → c.thread.data = none → c.thread.known = false →
      ∀ other, c.unread other = ∅)
  | _ => True

variable {c c' : Chat} {op : Op}

/-- **A step that fits keeps the state sound.** -/
theorem tracks_step (h : c.thread.Tracks c.unread) (hfits : op.Fits c)
    (hstep : step c op = some c') : c'.thread.Tracks c'.unread := by
  cases op with
  | add kind msgId =>
    rw [HistoryUnreadThings.step] at hstep
    split_ifs at hstep with hnew
    exact Option.some.inj hstep ▸ h.add hnew hfits
  | addExisting kind msgId =>
    rw [HistoryUnreadThings.step] at hstep
    split_ifs at hstep with hmem
    exact Option.some.inj hstep ▸ h.addExisting hmem
  | erase kind msgId =>
    rw [HistoryUnreadThings.step] at hstep
    split_ifs at hstep with hmem
    exact Option.some.inj hstep ▸ h.erase hmem
  | clear kind => exact Option.some.inj hstep ▸ h.clear kind
  | setCount kind => exact Option.some.inj hstep ▸ h.setCount hfits
  | addSlice kind slice alreadyLoaded =>
    rw [HistoryUnreadThings.step] at hstep
    split_ifs at hstep with htrue
    exact Option.some.inj hstep ▸ h.addSlice htrue.1 htrue.2 hfits

/-- A new thing that does not fit leaves the count as it was. -/
theorem count_add (t : Thread) (kind : Kind) (msgId : MsgId) {count : ℕ}
    (hcount : t.count kind = some count)
    (hfits : ¬ (t.isBroadcast = false ∧ count ≤ t.loadedCount kind)) :
    (t.add kind msgId .new).count kind = some count := by
  rw [Thread.add]
  split_ifs with hbroadcast
  · exact hcount
  have hmore : ¬ count ≤ t.loadedCount kind :=
    fun hle => hfits ⟨Bool.not_eq_true _ ▸ hbroadcast, hle⟩
  dsimp only
  rw [count_resolve, loadedCount_resolve, hcount]
  dsimp only
  rw [if_neg hmore, if_neg fun hnew => hnew.2 rfl]
  exact (count_resolve t kind).trans hcount

/-- A first count of zero is one of all kinds. -/
theorem count_setCount_zero {t : Thread} (hdata : t.data = none) (kind other : Kind) :
    (t.setCount t.known kind 0).count other = some 0 := by
  have hnone : (t.data.isNone && decide (0 = 0)) = true := by rw [hdata]; rfl
  rw [setCount]
  dsimp only
  rw [if_pos hnone, count, hdata]
  exact if_pos (Bool.or_not_self _)

/-- **A step that does not fit leads to a state that is not sound.** -/
theorem not_sound_step (h : c.thread.Tracks c.unread) (hfits : ¬ op.Fits c)
    (htrue : (step c op).isSome) : ∃ c', step c op = some c' ∧ ¬ Sound c' := by
  obtain ⟨c', hstep⟩ := Option.isSome_iff_exists.mp htrue
  refine ⟨c', hstep, fun hsound => ?_⟩
  rw [sound_iff] at hsound
  cases op with
  | add kind msgId =>
    rw [Op.Fits] at hfits
    push Not at hfits
    obtain ⟨count, hcount, hfits⟩ := hfits
    rw [HistoryUnreadThings.step] at hstep
    split_ifs at hstep with hnew
    obtain rfl := Option.some.inj hstep
    have hafter := (hsound kind).2 count
      (count_add c.thread kind msgId hcount fun hfit => absurd hfit.2 (not_le.mpr (hfits hfit.1)))
    dsimp only at hafter
    rw [Function.update_self, Finset.card_insert_of_notMem hnew,
      ← (h kind).2 count hcount] at hafter
    exact absurd hafter (Nat.succ_ne_self count).symm
  | setCount kind =>
    rw [Op.Fits] at hfits
    push Not at hfits
    obtain ⟨hdata, -, hzero, other, hother⟩ := hfits
    obtain rfl := Option.some.inj hstep
    have hafter := (hsound other).2 0 (by
      rw [hzero, Finset.card_empty]
      exact count_setCount_zero hdata kind other)
    exact absurd (Finset.card_eq_zero.mp hafter.symm) hother.ne_empty
  | addSlice kind slice alreadyLoaded =>
    rw [Op.Fits, Classical.not_imp] at hfits
    obtain ⟨hnothing, hfits⟩ := hfits
    rw [HistoryUnreadThings.step] at hstep
    split_ifs at hstep
    obtain rfl := Option.some.inj hstep
    obtain ⟨t', hknown, hdata, hloaded, -, hslice⟩ :=
      addSlice_of_nothing c.thread alreadyLoaded hnothing
    rw [hslice, ← hknown] at hsound
    obtain ⟨m, hcount, hm⟩ := count_setCount t' kind (t'.loadedCount kind)
    have hcard := (hsound kind).2 m hcount
    rw [hm le_rfl, hloaded] at hcard
    refine hfits ⟨hcard, fun hlist hnone _ other => ?_⟩
    have hnone' := hdata.mpr ⟨hlist, hnone⟩
    have hzero : t'.loadedCount kind = 0 := by rw [Thread.loadedCount, hnone']; rfl
    rw [hzero] at hsound
    exact Finset.card_eq_zero.mp ((hsound other).2 0 (count_setCount_zero hnone' kind other)).symm
  | _ => exact hfits trivial

/-- Where a step does not happen, it fits as well as not. -/
def Op.Fine (c : Chat) (op : Op) : Prop := (step c op).isSome → op.Fits c

/-- **What is loaded and counted is true exactly as long as each step fits**: from a thread of which
nothing is known on, in every state of a run what is loaded of a kind is unread, a count that is
known is that of all that is unread, and it is all loaded when the list says so, if and only if each
step of the run that happens fits. -/
theorem unread_true_in_every_state (isBroadcast : Bool) (unread : Kind → Finset MsgId)
    (ops : List Op) :
    EveryState step Sound ⟨⟨isBroadcast, false, none⟩, unread⟩ ops ↔
      EveryStep step Op.Fine ⟨⟨isBroadcast, false, none⟩, unread⟩ ops := by
  refine everyState_iff (fun _ => sound_iff.mpr) (fun c op c' h hfine hstep => ?_)
    (fun c op h hfine => ?_) ((tracks_of_none rfl).mpr fun h => absurd h Bool.false_ne_true) ops
  · exact tracks_step h (hfine (Option.isSome_of_eq_some hstep)) hstep
  · rw [Op.Fine, Classical.not_imp] at hfine
    exact not_sound_step h hfine.2 hfine.1

/-- **A mention that comes while others are not loaded is not counted.** -/
theorem new_mention_not_counted : ¬ ∀ (unread : Kind → Finset MsgId) (ops : List Op),
    EveryState step Sound ⟨⟨false, false, none⟩, unread⟩ ops := by
  intro hall
  have hstates := hall (Function.update (fun _ => ∅) .mentions {1, 2}) [.setCount .mentions,
    .addSlice .mentions (.messagesSlice 2 [(1, true)]) 0, .add .mentions 3]
  have hsound := ((hstates.2 _ rfl).2 _ rfl).2 _ rfl
  have hcount := ((hsound .mentions).2 2 rfl).1
  exact absurd hcount (by decide)

end Yunogram.HistoryUnreadThings
