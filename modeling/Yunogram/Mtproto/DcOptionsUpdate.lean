import Mathlib
import Yunogram.Mtproto.DcOptions

/-!
# Mtproto/DcOptionsUpdate — what setting the options stores and reports

`Listed` says which endpoints a list of options stands for: an option of the right type, unless one
before it has its data centre and address.  `setFromList` should store exactly those and report
exactly the data centres whose endpoints became others.  It compares the tables by address and port
only, so it does when `Compatible` holds: where a data centre keeps its addresses, the list gives
them the flags and secrets they had.  Otherwise the new flags and secrets are not reported, and where
nothing else changes they are not stored either.
-/

namespace Yunogram.Mtproto

open Machinery

/-! ## Comparing tables -/

/-- The endpoints a vector of entries has under an id. -/
def lookupIn (l : List (DcId × List Endpoint)) (id : DcId) : List Endpoint :=
  ((l.find? fun e => e.1 = id).map Prod.snd).getD []

section

variable {a a' b b' : List (DcId × List Endpoint)} {i : DcId × List Endpoint} {id x : DcId}

theorem lookupIn_cons : lookupIn (i :: a) id = if i.1 = id then i.2 else lookupIn a id := by
  rw [lookupIn, List.find?_cons]
  split_ifs with h
  · rw [decide_eq_true h]
    rfl
  · rw [decide_eq_false h, lookupIn]

/-- An id below all that are stored has no endpoints. -/
theorem lookupIn_of_lt (h : ∀ e ∈ a, id < e.1) : lookupIn a id = [] := by
  have hnone : (a.find? fun e => e.1 = id) = none :=
    List.find?_eq_none.mpr fun e he => by simpa using (h e he).ne'
  rw [lookupIn, hnone]
  rfl

/-- Lists of endpoints with distinct addresses are equal for `equalAddresses` when they have the same
ones. -/
theorem equalAddresses_iff {m n : List Endpoint} (hm : (m.map Endpoint.address).Nodup)
    (hn : (n.map Endpoint.address).Nodup) :
    equalAddresses m n = true ↔
      ∀ address, address ∈ m.map Endpoint.address ↔ address ∈ n.map Endpoint.address := by
  have hall : m.all (findAddress n) = true ↔
      m.map Endpoint.address ⊆ n.map Endpoint.address := by
    rw [List.all_eq_true, List.subset_def, List.forall_mem_map]
    exact forall₂_congr fun e _ => any_address
  rw [equalAddresses, Bool.and_eq_true, decide_eq_true_eq, hall]
  constructor
  · rintro ⟨hlength, hsubset⟩
    have hperm : (m.map Endpoint.address).Perm (n.map Endpoint.address) :=
      (List.subperm_of_subset hm hsubset).perm_of_length_le (by simp [hlength])
    exact fun address => hperm.mem_iff
  · intro h
    refine ⟨?_, fun address => (h address).mp⟩
    simpa using ((List.perm_ext_iff_of_nodup hm hn).mpr h).length_eq

/-- Endpoints are not the same as none. -/
theorem equalAddresses_nil_right {m : List Endpoint} (h : m ≠ []) : equalAddresses m [] = false := by
  cases m with
  | nil => exact absurd rfl h
  | cons e m => rfl

theorem equalAddresses_nil_left {n : List Endpoint} (h : n ≠ []) : equalAddresses [] n = false := by
  cases n with
  | nil => exact absurd rfl h
  | cons e n => rfl

/-- What comparing two tables should give: it reads past an end when only one of them has the
greatest id, and else reports the ids whose addresses are not equal. -/
def IsDifference (a b : List (DcId × List Endpoint)) : Except Fault (List DcId) → Prop
  | .ok result => (Qint32.max ∈ a.map Prod.fst ↔ Qint32.max ∈ b.map Prod.fst) ∧
      ∀ id, id ∈ result ↔ equalAddresses (lookupIn a id) (lookupIn b id) = false
  | .error _ => ¬ (Qint32.max ∈ a.map Prod.fst ↔ Qint32.max ∈ b.map Prod.fst)

/-- **One step of the comparison.**  It looks at an id that is in neither rest. -/
theorem IsDifference.step {result : Except Fault (List DcId)} (h : IsDifference a' b' result)
    (hmax : (Qint32.max ∈ a.map Prod.fst ↔ Qint32.max ∈ b.map Prod.fst) ↔
      (Qint32.max ∈ a'.map Prod.fst ↔ Qint32.max ∈ b'.map Prod.fst))
    (ha : ∀ id, id ≠ x → lookupIn a id = lookupIn a' id)
    (hb : ∀ id, id ≠ x → lookupIn b id = lookupIn b' id)
    (hxa : lookupIn a' x = []) (hxb : lookupIn b' x = []) :
    IsDifference a b (if equalAddresses (lookupIn a x) (lookupIn b x) then result
      else result.map (x :: ·)) := by
  have hx : equalAddresses (lookupIn a' x) (lookupIn b' x) = true := by rw [hxa, hxb]; rfl
  cases result with
  | error e =>
    have hfault : ¬ (Qint32.max ∈ a.map Prod.fst ↔ Qint32.max ∈ b.map Prod.fst) := mt hmax.mp h
    split_ifs <;> exact hfault
  | ok result =>
    obtain ⟨hfits, hresult⟩ := h
    split_ifs with hequal
    · refine ⟨hmax.mpr hfits, fun id => ?_⟩
      by_cases hid : id = x
      · rw [hid, hresult x, hx, hequal]
      · rw [hresult id, ha id hid, hb id hid]
    · refine ⟨hmax.mpr hfits, fun id => ?_⟩
      rw [List.mem_cons]
      by_cases hid : id = x
      · rw [hid, Bool.eq_false_iff]
        exact iff_of_true (.inl rfl) hequal
      · rw [hresult id, ha id hid, hb id hid, or_iff_right hid]

theorem lookupIn_cons_self : lookupIn (i :: a) i.1 = i.2 := by rw [lookupIn_cons, if_pos rfl]

theorem lookupIn_cons_of_ne (h : id ≠ i.1) : lookupIn (i :: a) id = lookupIn a id := by
  rw [lookupIn_cons, if_neg (Ne.symm h)]

/-- The greatest id is not below another. -/
theorem max_mem_cons (h : i.1 ≠ Qint32.max) :
    Qint32.max ∈ (i :: a).map Prod.fst ↔ Qint32.max ∈ a.map Prod.fst := by
  rw [List.map_cons, List.mem_cons, or_iff_right (Ne.symm h)]

/-- An id only the first table has is reported… -/
theorem IsDifference.left {result : Except Fault (List DcId)} (h : IsDifference a b result)
    (hmax : i.1 ≠ Qint32.max) (ha : ∀ e ∈ a, i.1 < e.1) (hb : ∀ e ∈ b, i.1 < e.1)
    (hi : i.2 ≠ []) : IsDifference (i :: a) b (result.map (i.1 :: ·)) := by
  have hstep := h.step (x := i.1) (iff_congr (max_mem_cons hmax) Iff.rfl)
    (fun id => lookupIn_cons_of_ne) (fun id _ => rfl) (lookupIn_of_lt ha) (lookupIn_of_lt hb)
  rwa [lookupIn_cons_self, lookupIn_of_lt hb, equalAddresses_nil_right hi,
    if_neg Bool.false_ne_true] at hstep

/-- …as is one only the second has… -/
theorem IsDifference.right {result : Except Fault (List DcId)} (h : IsDifference a b result)
    (hmax : i.1 ≠ Qint32.max) (ha : ∀ e ∈ a, i.1 < e.1) (hb : ∀ e ∈ b, i.1 < e.1)
    (hi : i.2 ≠ []) : IsDifference a (i :: b) (result.map (i.1 :: ·)) := by
  have hstep := h.step (x := i.1) (iff_congr Iff.rfl (max_mem_cons hmax))
    (fun id _ => rfl) (fun id => lookupIn_cons_of_ne) (lookupIn_of_lt ha) (lookupIn_of_lt hb)
  rwa [lookupIn_cons_self, lookupIn_of_lt ha, equalAddresses_nil_left hi,
    if_neg Bool.false_ne_true] at hstep

/-- …and one that both have when its addresses differ. -/
theorem IsDifference.both {j : DcId × List Endpoint} {result : Except Fault (List DcId)}
    (h : IsDifference a b result) (hij : i.1 = j.1) (ha : ∀ e ∈ a, i.1 < e.1)
    (hb : ∀ e ∈ b, i.1 < e.1) :
    IsDifference (i :: a) (j :: b)
      (if equalAddresses i.2 j.2 then result else result.map (i.1 :: ·)) := by
  have hmax : (Qint32.max ∈ (i :: a).map Prod.fst ↔ Qint32.max ∈ (j :: b).map Prod.fst) ↔
      (Qint32.max ∈ a.map Prod.fst ↔ Qint32.max ∈ b.map Prod.fst) := by
    have hnot : ∀ l : List (DcId × List Endpoint), (∀ e ∈ l, i.1 < e.1) → i.1 = Qint32.max →
        Qint32.max ∉ l.map Prod.fst := fun l hl hi hmem => by
      obtain ⟨e, he, -⟩ := List.mem_map.mp hmem
      exact absurd (hl e he) (hi ▸ not_lt.mpr (Qint32.le_max e.1))
    rcases eq_or_ne i.1 Qint32.max with hi | hi
    · refine iff_of_true (iff_of_true ?_ ?_) (iff_of_false (hnot a ha hi) (hnot b hb hi))
      · exact hi ▸ List.mem_cons_self
      · exact hi ▸ hij ▸ List.mem_cons_self
    · exact iff_congr (max_mem_cons hi) (max_mem_cons (hij ▸ hi))
  have hstep := h.step (x := i.1) hmax (fun id => lookupIn_cons_of_ne)
    (fun id hid => lookupIn_cons_of_ne (hij ▸ hid)) (lookupIn_of_lt ha) (lookupIn_of_lt hb)
  have hj : lookupIn (j :: b) i.1 = j.2 := hij ▸ lookupIn_cons_self
  rwa [lookupIn_cons_self, hj] at hstep

/-- **`countOptionsDifference` compares tables whose data centres all have endpoints.** -/
theorem isDifference_countOptionsDifference (ha : a.Pairwise fun i j => i.1 < j.1)
    (hb : b.Pairwise fun i j => i.1 < j.1) (hna : ∀ i ∈ a, i.2 ≠ []) (hnb : ∀ j ∈ b, j.2 ≠ []) :
    IsDifference a b (countOptionsDifference a b) := by
  induction a, b using countOptionsDifference.induct with
  | case1 =>
    rw [countOptionsDifference]
    exact ⟨Iff.rfl, fun id => iff_of_false List.not_mem_nil (by simp [lookupIn, equalAddresses])⟩
  | case2 i a h ih =>
    obtain ⟨hia, ha'⟩ := List.pairwise_cons.mp ha
    obtain ⟨hi, hna'⟩ := List.forall_mem_cons.mp hna
    rw [countOptionsDifference, if_pos h]
    exact (ih ha' hb hna' hnb).left h.ne hia (fun _ he => absurd he List.not_mem_nil) hi
  | case3 i a h =>
    have hi : i.1 = Qint32.max := (Qint32.le_max i.1).antisymm (not_lt.mp h)
    rw [countOptionsDifference, if_neg h]
    exact fun hiff => absurd (hiff.mp (hi ▸ List.mem_cons_self)) List.not_mem_nil
  | case4 j b h ih =>
    obtain ⟨hjb, hb'⟩ := List.pairwise_cons.mp hb
    obtain ⟨hj, hnb'⟩ := List.forall_mem_cons.mp hnb
    rw [countOptionsDifference, if_pos h]
    exact (ih ha hb' hna hnb').right h.ne (fun _ he => absurd he List.not_mem_nil) hjb hj
  | case5 j b h =>
    have hj : j.1 = Qint32.max := (Qint32.le_max j.1).antisymm (not_lt.mp h)
    rw [countOptionsDifference, if_neg h]
    exact fun hiff => absurd (hiff.mpr (hj ▸ List.mem_cons_self)) List.not_mem_nil
  | case6 i a j b h ih =>
    obtain ⟨hia, ha'⟩ := List.pairwise_cons.mp ha
    obtain ⟨hi, hna'⟩ := List.forall_mem_cons.mp hna
    have hjb : ∀ e ∈ j :: b, i.1 < e.1 :=
      List.forall_mem_cons.mpr ⟨h, fun e he => h.trans ((List.pairwise_cons.mp hb).1 e he)⟩
    rw [countOptionsDifference, if_pos h]
    exact (ih ha' hb hna' hnb).left (h.trans_le (Qint32.le_max j.1)).ne hia hjb hi
  | case7 i a j b h h' ih =>
    obtain ⟨hjb, hb'⟩ := List.pairwise_cons.mp hb
    obtain ⟨hj, hnb'⟩ := List.forall_mem_cons.mp hnb
    have hia : ∀ e ∈ i :: a, j.1 < e.1 :=
      List.forall_mem_cons.mpr ⟨h', fun e he => h'.trans ((List.pairwise_cons.mp ha).1 e he)⟩
    rw [countOptionsDifference, if_neg h, if_pos h']
    exact (ih ha hb' hna hnb').right (h'.trans_le (Qint32.le_max i.1)).ne hia hjb hj
  | case8 i a j b h h' heq ih | case9 i a j b h h' heq ih =>
    obtain ⟨hia, ha'⟩ := List.pairwise_cons.mp ha
    obtain ⟨hjb, hb'⟩ := List.pairwise_cons.mp hb
    have hij : i.1 = j.1 := (not_lt.mp h').antisymm (not_lt.mp h)
    have hboth := (ih ha' hb' (List.forall_mem_cons.mp hna).2 (List.forall_mem_cons.mp hnb).2).both
      hij hia (hij ▸ hjb)
    rwa [countOptionsDifference, if_neg h, if_neg h']

end

/-! ## The endpoints a list of options stands for -/

/-- The endpoints of the options of the right type, in the order of the list. -/
def validated (options : List MTPDcOption) : List Endpoint :=
  options.filterMap fun
    | .dcOption option => some option.endpoint
    | .other _ => none

/-- An endpoint of the list that has no endpoint of its data centre and address before it. -/
def Listed (options : List MTPDcOption) (e : Endpoint) : Prop :=
  ∃ before after, validated options = before ++ e :: after ∧
    ∀ e' ∈ before, e'.id = e.id → e'.address ≠ e.address

section

variable {options : List MTPDcOption} {e x : Endpoint}

theorem validated_append (options options' : List MTPDcOption) :
    validated (options ++ options') = validated options ++ validated options' :=
  List.filterMap_append

theorem Listed.mem (h : Listed options e) : e ∈ validated options := by
  obtain ⟨before, after, h, -⟩ := h
  rw [h]
  exact List.mem_append_right _ List.mem_cons_self

/-- **A list with one endpoint more.** -/
theorem listed_concat {option : MTPDdcOption} :
    Listed (options ++ [.dcOption option]) e ↔ Listed options e ∨
      (e = option.endpoint ∧
        ∀ e' ∈ validated options, e'.id = e.id → e'.address ≠ e.address) := by
  have hvalidated : validated (options ++ [.dcOption option])
      = validated options ++ [option.endpoint] := validated_append _ _
  rw [Listed, hvalidated]
  constructor
  · rintro ⟨before, after, h, hfirst⟩
    rcases List.eq_nil_or_concat after with rfl | ⟨after, y, rfl⟩
    · obtain ⟨hbefore, he⟩ := List.append_inj' h rfl
      exact .inr ⟨(List.cons.inj he).1.symm, hbefore ▸ hfirst⟩
    · have h' : validated options ++ [option.endpoint] = (before ++ e :: after) ++ [y] := by
        simpa using h
      exact .inl ⟨before, after, (List.append_inj' h' rfl).1, hfirst⟩
  · rintro (⟨before, after, h, hfirst⟩ | ⟨rfl, hfirst⟩)
    · exact ⟨before, after ++ [option.endpoint], by rw [h, List.append_assoc, List.cons_append],
        hfirst⟩
    · exact ⟨validated options, [], rfl, hfirst⟩

theorem listed_concat_other {type : UInt32} :
    Listed (options ++ [.other type]) e ↔ Listed options e := by
  have hvalidated : validated (options ++ [.other type]) = validated options :=
    (validated_append _ _).trans (List.append_nil _)
  rw [Listed, hvalidated, Listed]

/-- Every endpoint of the list has its data centre and address in common with a listed one. -/
theorem exists_listed (he : e ∈ validated options) :
    ∃ e', Listed options e' ∧ e'.id = e.id ∧ e'.address = e.address := by
  induction options using List.reverseRecOn generalizing e with
  | nil => exact absurd he List.not_mem_nil
  | append_singleton options option ih =>
    rw [validated_append] at he
    cases option with
    | other type =>
      obtain ⟨e', he', h⟩ := ih ((List.mem_append.mp he).resolve_right List.not_mem_nil)
      exact ⟨e', listed_concat_other.mpr he', h⟩
    | dcOption option =>
      have hbefore : ∀ e ∈ validated options, ∃ e', Listed (options ++ [.dcOption option]) e' ∧
          e'.id = e.id ∧ e'.address = e.address := fun e he => by
        obtain ⟨e', he', h⟩ := ih he
        exact ⟨e', listed_concat.mpr (.inl he'), h⟩
      rcases List.mem_append.mp he with he | he
      · exact hbefore e he
      · obtain rfl : e = option.endpoint := List.mem_singleton.mp he
        by_cases hfirst : ∃ e' ∈ validated options, e'.id = option.endpoint.id ∧
            e'.address = option.endpoint.address
        · obtain ⟨e', he', hid, haddress⟩ := hfirst
          obtain ⟨e'', he'', hid', haddress'⟩ := hbefore e' he'
          exact ⟨e'', he'', hid'.trans hid, haddress'.trans haddress⟩
        · refine ⟨option.endpoint, listed_concat.mpr (.inr ⟨rfl, fun e' he' hid haddress => ?_⟩),
            rfl, rfl⟩
          exact hfirst ⟨e', he', hid, haddress⟩

theorem applyOptions_concat (data : DcTable) (options : List MTPDcOption) (option : MTPDcOption) :
    applyOptions data (options ++ [option]) = applyMtpOption (applyOptions data options) option := by
  rw [applyOptions, List.foldl_append]
  rfl

/-- **The options are collected into the endpoints they stand for.** -/
theorem mem_endpoints_applyOptions {id : DcId} :
    e ∈ (applyOptions FlatMap.empty options).endpoints id ↔ Listed options e ∧ e.id = id := by
  induction options using List.reverseRecOn generalizing e id with
  | nil =>
    refine iff_of_false List.not_mem_nil fun h => ?_
    exact absurd h.1.mem List.not_mem_nil
  | append_singleton options option ih =>
    rw [applyOptions_concat]
    cases option with
    | other type => rw [applyMtpOption, ih, listed_concat_other]
    | dcOption option =>
      have hnew : (option.ipAddress, option.port) ∉
            ((applyOptions FlatMap.empty options).endpoints option.id).map Endpoint.address ↔
          ∀ e' ∈ validated options, e'.id = option.id → e'.address ≠ option.endpoint.address := by
        refine ⟨fun h e' he' hid haddress => h ?_, fun h haddress => ?_⟩
        · obtain ⟨e'', he'', hid', haddress'⟩ := exists_listed he'
          exact List.mem_map.mpr ⟨e'', ih.mpr ⟨he'', hid'.trans hid⟩, haddress'.trans haddress⟩
        · obtain ⟨e', he', haddress⟩ := List.mem_map.mp haddress
          obtain ⟨hlisted, hid⟩ := ih.mp he'
          exact h e' hlisted.mem hid haddress
      rw [applyMtpOption, endpoints_applyOneOption, listed_concat]
      split_ifs with h
      · obtain ⟨rfl, hfirst⟩ := h
        rw [List.mem_append, ih, List.mem_singleton, or_and_right]
        refine or_congr Iff.rfl ⟨?_, fun h => h.1.1⟩
        rintro rfl
        exact ⟨⟨rfl, hnew.mp hfirst⟩, rfl⟩
      · rw [ih, or_and_right, or_iff_left]
        rintro ⟨⟨rfl, hfirst⟩, hid⟩
        exact h ⟨hid.symm, hnew.mpr hfirst⟩

end

/-! ## Setting the options -/

variable {Key : Type}

/-- What setting the options promises: the table has the listed endpoints, with all their fields, and
the reported data centres are those whose endpoints are others than before. -/
structure Replaced (s : DcOptions Key) (options : List MTPDcOption) (s' : DcOptions Key)
    (changed : List DcId) : Prop where
  stored : ∀ id e, e ∈ s'.data.endpoints id ↔ Listed options e ∧ e.id = id
  reported : ∀ id, id ∈ changed ↔ ¬ ∀ e, e ∈ s.data.endpoints id ↔ e ∈ s'.data.endpoints id

/-- The stored addresses of a data centre are the listed ones. -/
def SameAddresses (s : DcOptions Key) (options : List MTPDcOption) (id : DcId) : Prop :=
  ∀ address, (∃ e ∈ s.data.endpoints id, e.address = address) ↔
    ∃ e, (Listed options e ∧ e.id = id) ∧ e.address = address

/-- The stored endpoints of a data centre are the listed ones, flags and secrets included. -/
def SameEndpoints (s : DcOptions Key) (options : List MTPDcOption) (id : DcId) : Prop :=
  ∀ e, e ∈ s.data.endpoints id ↔ Listed options e ∧ e.id = id

/-- Where a data centre keeps its addresses they keep their flags and secrets; and the greatest id,
which stands for the end of a table, is in both or in neither. -/
structure Compatible (s : DcOptions Key) (options : List MTPDcOption) : Prop where
  fields : ∀ id, SameAddresses s options id → SameEndpoints s options id
  greatest : (∃ e, e ∈ s.data.endpoints Qint32.max) ↔ ∃ e, Listed options e ∧ e.id = Qint32.max

section

variable {s : DcOptions Key} {options : List MTPDcOption} {id : DcId}

theorem mem_endpoints_collected {e : Endpoint} :
    e ∈ (s.collected options true).endpoints id ↔ Listed options e ∧ e.id = id :=
  mem_endpoints_applyOptions

theorem equalAddresses_collected :
    equalAddresses (s.data.endpoints id) ((s.collected options true).endpoints id) = true ↔
      SameAddresses s options id := by
  rw [equalAddresses_iff (s.wellFormed.addresses id)
    ((s.wellFormed_collected options true).addresses id), SameAddresses]
  simp only [List.mem_map, mem_endpoints_collected]

theorem WellFormed.mem_keys {data : DcTable} (h : WellFormed data) :
    id ∈ data.entries.map Prod.fst ↔ ∃ e, e ∈ data.endpoints id := by
  constructor
  · intro hid
    obtain ⟨list, hlist⟩ := FlatMap.mem_keys.mp hid
    obtain ⟨e, he⟩ := List.exists_mem_of_ne_nil list (h.nonempty id list hlist)
    exact ⟨e, mem_endpoints.mpr ⟨list, hlist, he⟩⟩
  · rintro ⟨e, he⟩
    obtain ⟨list, hlist, -⟩ := mem_endpoints.mp he
    exact FlatMap.mem_keys.mpr ⟨list, hlist⟩

/-- The tables compared by `setFromList`. -/
theorem isDifference_collected :
    IsDifference s.data.entries (s.collected options true).entries
      (countOptionsDifference s.data.entries (s.collected options true).entries) :=
  isDifference_countOptionsDifference s.data.sorted (s.collected options true).sorted
    (fun i hi => s.wellFormed.nonempty i.1 i.2 (FlatMap.find?_eq_some.mpr hi))
    (fun j hj => (s.wellFormed_collected options true).nonempty j.1 j.2
      (FlatMap.find?_eq_some.mpr hj))

/-- **What `setFromList` does once the tables are compared.** -/
theorem setFromList_of_difference (hm : s.immutable = false) (hne : options ≠ [])
    {result : List DcId}
    (h : countOptionsDifference s.data.entries (s.collected options true).entries = .ok result) :
    ∃ s', s.setFromList options = .ok (s', result) ∧
      s'.data = if result = [] then s.data else s.collected options true := by
  have hproceed : (options.isEmpty || s.immutable) = false := by
    rw [hm, Bool.or_false, List.isEmpty_eq_false_iff]
    exact hne
  obtain ⟨ids, hids⟩ := s.wellFormed.computeCdnDcIds
  obtain ⟨ids', hids'⟩ := (s.wellFormed_collected options true).computeCdnDcIds
  rw [DcOptions.setFromList, DcOptions.processFromList, hproceed, if_neg Bool.false_ne_true]
  dsimp only
  rw [h, ok_bind]
  cases result with
  | nil =>
    rw [List.isEmpty_nil, if_pos rfl, hids, ok_bind]
    exact ⟨_, rfl, (if_pos rfl).symm⟩
  | cons x result =>
    rw [List.isEmpty_cons, if_neg Bool.false_ne_true, hids', ok_bind]
    exact ⟨_, rfl, (if_neg (List.cons_ne_nil _ _)).symm⟩

/-- …and when comparing them reads past an end. -/
theorem setFromList_of_fault (hm : s.immutable = false) (hne : options ≠ []) {fault : Fault}
    (h : countOptionsDifference s.data.entries (s.collected options true).entries
      = .error fault) : s.setFromList options = .error fault := by
  have hproceed : (options.isEmpty || s.immutable) = false := by
    rw [hm, Bool.or_false, List.isEmpty_eq_false_iff]
    exact hne
  rw [DcOptions.setFromList, DcOptions.processFromList, hproceed, if_neg Bool.false_ne_true]
  dsimp only
  rw [h]
  rfl

/-- **Setting the options stores the listed endpoints and reports what became different exactly when
the list is compatible with the table.** -/
theorem setFromList_replaces_iff (s : DcOptions Key) (options : List MTPDcOption)
    (hm : s.immutable = false) (hne : options ≠ []) :
    (∃ s' changed, s.setFromList options = .ok (s', changed) ∧ Replaced s options s' changed) ↔
      Compatible s options := by
  have hgreatest : (Qint32.max ∈ s.data.entries.map Prod.fst ↔
      Qint32.max ∈ (s.collected options true).entries.map Prod.fst) ↔
      ((∃ e, e ∈ s.data.endpoints Qint32.max) ↔
        ∃ e, Listed options e ∧ e.id = Qint32.max) := by
    rw [s.wellFormed.mem_keys, (s.wellFormed_collected options true).mem_keys]
    simp only [mem_endpoints_collected]
  have hdifference : IsDifference s.data.entries (s.collected options true).entries _ :=
    isDifference_collected
  cases hcount : countOptionsDifference s.data.entries (s.collected options true).entries with
  | error fault =>
    rw [hcount] at hdifference
    refine iff_of_false ?_ fun h => hdifference (hgreatest.mpr h.greatest)
    rintro ⟨s', changed, h, -⟩
    rw [setFromList_of_fault hm hne hcount] at h
    exact nomatch h
  | ok result =>
    rw [hcount] at hdifference
    obtain ⟨hfits, hresult⟩ := hdifference
    obtain ⟨s', hset, hdata⟩ := setFromList_of_difference hm hne hcount
    have hchanged : ∀ id, id ∈ result ↔ ¬ SameAddresses s options id := fun id => by
      rw [← equalAddresses_collected, Bool.not_eq_true]
      exact hresult id
    have hstored : (∀ id, SameAddresses s options id → SameEndpoints s options id) →
        ∀ id e, e ∈ s'.data.endpoints id ↔ Listed options e ∧ e.id = id := fun hfields id e => by
      rw [hdata]
      split_ifs with hnil
      · refine hfields id ?_ e
        have hid := mt (hchanged id).mpr (hnil ▸ List.not_mem_nil)
        exact not_not.mp hid
      · exact mem_endpoints_collected
    have hsame : (∀ id e, e ∈ s'.data.endpoints id ↔ Listed options e ∧ e.id = id) →
        ∀ id, (∀ e, e ∈ s.data.endpoints id ↔ e ∈ s'.data.endpoints id) ↔
          SameEndpoints s options id := fun h id =>
      forall_congr' fun e => by rw [h id e]
    have haddresses : ∀ id, SameEndpoints s options id → SameAddresses s options id :=
      fun id h address => exists_congr fun e => and_congr (h e) Iff.rfl
    constructor
    · rintro ⟨s'', changed, h, hreplaced⟩
      obtain ⟨rfl, rfl⟩ := Prod.mk.inj (Except.ok.inj (hset.symm.trans h))
      refine ⟨fun id h => ?_, hgreatest.mp hfits⟩
      by_contra hnot
      refine (hchanged id).mp ((hreplaced.reported id).mpr ?_) h
      rwa [hsame hreplaced.stored id]
    · rintro ⟨hfields, -⟩
      refine ⟨s', result, hset, hstored hfields, fun id => ?_⟩
      rw [hsame (hstored hfields) id, hchanged id]
      exact not_congr ⟨hfields id, haddresses id⟩

end

/-! ## A table of one endpoint -/

theorem second_within : -2 ^ 31 ≤ (2 : ℤ) ∧ (2 : ℤ) < 2 ^ 31 := by decide

theorem port443_within : -2 ^ 31 ≤ (443 : ℤ) ∧ (443 : ℤ) < 2 ^ 31 := by decide

/-- An option for the second data centre. -/
def secondDc (ip : Bytes) (secret : Option Bytes) : MTPDcOption :=
  .dcOption ⟨0, ⟨2, second_within⟩, ip, ⟨443, port443_within⟩, secret⟩

/-- A table with this endpoint alone. -/
def oneEndpoint : DcOptions Unit where
  environment := .production
  data := applyOptions FlatMap.empty [secondDc [49] none]
  wellFormed := WellFormed.empty.applyOptions _
  cdnDcIds := FlatMap.empty
  cdnPublicKeys := FlatMap.empty
  immutable := false

theorem listed_secondDc {ip : Bytes} {secret : Option Bytes} {e : Endpoint} :
    Listed [secondDc ip secret] e ↔
      e = ⟨⟨2, by decide⟩, 0, ip, ⟨443, by decide⟩, secret.getD []⟩ := by
  rw [secondDc, ← List.nil_append [MTPDcOption.dcOption _], listed_concat]
  constructor
  · rintro (h | ⟨h, -⟩)
    · exact absurd h.mem List.not_mem_nil
    · exact h
  · rintro rfl
    exact .inr ⟨rfl, fun e' he' => absurd he' List.not_mem_nil⟩

theorem mem_oneEndpoint {id : DcId} {e : Endpoint} :
    e ∈ oneEndpoint.data.endpoints id ↔
      e = ⟨⟨2, by decide⟩, 0, [49], ⟨443, by decide⟩, []⟩ ∧ e.id = id := by
  rw [oneEndpoint, mem_endpoints_applyOptions, listed_secondDc]
  rfl

/-- A list with another address is stored and reported. -/
theorem setFromList_replaces_address :
    ∃ s' changed, oneEndpoint.setFromList [secondDc [50] none] = .ok (s', changed) ∧
      Replaced oneEndpoint [secondDc [50] none] s' changed := by
  refine (setFromList_replaces_iff oneEndpoint [secondDc [50] none] rfl
    (List.cons_ne_nil _ _)).mpr ⟨fun id h e => ?_, iff_of_false ?_ ?_⟩
  · have hid : id ≠ ⟨2, by decide⟩ := by
      rintro rfl
      obtain ⟨e, ⟨he, -⟩, haddress⟩ := (h ([49], ⟨443, by decide⟩)).mp
        ⟨_, mem_oneEndpoint.mpr ⟨rfl, rfl⟩, rfl⟩
      rw [listed_secondDc.mp he] at haddress
      exact absurd haddress (by decide)
    rw [mem_oneEndpoint, listed_secondDc]
    refine iff_of_false ?_ ?_ <;> rintro ⟨rfl, rfl⟩ <;> exact hid rfl
  · rintro ⟨e, he⟩
    obtain ⟨rfl, h⟩ := mem_oneEndpoint.mp he
    exact absurd h (by decide)
  · rintro ⟨e, he, h⟩
    obtain rfl := listed_secondDc.mp he
    exact absurd h (by decide)

/-- A list that gives the stored address a secret is neither stored nor reported. -/
theorem setFromList_loses_secret :
    ¬ ∃ s' changed,
      oneEndpoint.setFromList [secondDc [49] (some (List.replicate 16 7))] = .ok (s', changed) ∧
        Replaced oneEndpoint [secondDc [49] (some (List.replicate 16 7))] s' changed := by
  rintro ⟨s', changed, h, hreplaced⟩
  have hsame : countOptionsDifference oneEndpoint.data.entries
      (oneEndpoint.collected [secondDc [49] (some (List.replicate 16 7))] true).entries = .ok [] := by
    decide +kernel
  obtain ⟨s'', hset, hdata⟩ := setFromList_of_difference rfl (List.cons_ne_nil _ _) hsame
  obtain ⟨rfl, rfl⟩ := Prod.mk.inj (Except.ok.inj (hset.symm.trans h))
  have hstored := (hreplaced.stored ⟨2, by decide⟩ _).mpr ⟨listed_secondDc.mpr rfl, rfl⟩
  rw [hdata, if_pos rfl, mem_oneEndpoint] at hstored
  exact absurd hstored.1 (by decide)

end Yunogram.Mtproto
