import Mathlib

/-!
# Machinery/Framing — cutting a stream into frames, and why the cuts of the transport do not matter

A `Framing` reads the size of the first frame off the front of a stream: the front is too short, or
bad, or the frame has a positive size.  What it says about a front it still says when more arrives.

`split` cuts a whole stream into frames and stops at a bad front, when the consumer hangs up, or when
the rest is not a frame yet.  `split_append` is the reason a receiver may work piecewise: splitting a
stream is splitting what came first and then the rest together with what came next.
-/

namespace Machinery

/-- What the front of a stream says about its first frame. -/
inductive Header
  | short
  | bad
  | size (n : ℕ)
  deriving DecidableEq

/-- A way to read sizes that more input does not change. -/
structure Framing (α : Type*) where
  header : List α → Header
  stable : ∀ b c, header b ≠ .short → header (b ++ c) = header b
  size_pos : ∀ b n, header b = .size n → 0 < n

/-- How a stream that is cut into frames ends. -/
inductive SplitStatus (α : Type*)
  | waiting (rest : List α)
  | failed
  | closed
  deriving DecidableEq

/-- The frames of a stream, and how it ends. -/
structure Split (α : Type*) where
  frames : List (List α)
  status : SplitStatus α
  deriving DecidableEq

namespace Framing

variable {α : Type*} (F : Framing α) (keeps : List (List α) → Bool)

/-- Cut a stream into frames, after the frames `fs`; `keeps` says whether the consumer stays after
the frames it was given. -/
def split (fs : List (List α)) (b : List α) : Split α :=
  match _h : F.header b with
  | .short => ⟨fs, .waiting b⟩
  | .bad => ⟨fs, .failed⟩
  | .size n =>
    if _hn : n ≤ b.length then
      if keeps (fs ++ [b.take n]) then split (fs ++ [b.take n]) (b.drop n)
      else ⟨fs ++ [b.take n], .closed⟩
    else ⟨fs, .waiting b⟩
termination_by b.length
decreasing_by
  have := F.size_pos b n _h
  rw [List.length_drop]
  omega

variable {F keeps}

theorem split_short {fs : List (List α)} {b : List α} (h : F.header b = .short) :
    F.split keeps fs b = ⟨fs, .waiting b⟩ := by
  rw [split]
  split <;> simp_all

theorem split_bad {fs : List (List α)} {b : List α} (h : F.header b = .bad) :
    F.split keeps fs b = ⟨fs, .failed⟩ := by
  rw [split]
  split <;> simp_all

theorem split_incomplete {fs : List (List α)} {b : List α} {n : ℕ} (h : F.header b = .size n)
    (hn : b.length < n) : F.split keeps fs b = ⟨fs, .waiting b⟩ := by
  rw [split]
  split
  · rfl
  · simp_all
  · next m hm =>
    obtain rfl : m = n := by simpa [h] using hm.symm
    rw [dif_neg (not_le.mpr hn)]

theorem split_frame {fs : List (List α)} {b : List α} {n : ℕ} (h : F.header b = .size n)
    (hn : n ≤ b.length) : F.split keeps fs b =
      if keeps (fs ++ [b.take n]) then F.split keeps (fs ++ [b.take n]) (b.drop n)
      else ⟨fs ++ [b.take n], .closed⟩ := by
  rw [split]
  split
  · simp_all
  · simp_all
  · next m hm =>
    obtain rfl : m = n := by simpa [h] using hm.symm
    rw [dif_pos hn]

/-- **A stream may be split piecewise.** -/
theorem split_append (fs : List (List α)) (b c : List α) :
    F.split keeps fs (b ++ c) =
      match F.split keeps fs b with
      | ⟨fs', .waiting rest⟩ => F.split keeps fs' (rest ++ c)
      | s => s := by
  induction hk : b.length using Nat.strong_induction_on generalizing fs b with
  | _ k ih =>
    cases h : F.header b with
    | short => rw [split_short h]
    | bad =>
      have h' : F.header (b ++ c) = .bad := h ▸ F.stable b c (by simp [h])
      rw [split_bad h, split_bad h']
    | size n =>
      have h' : F.header (b ++ c) = .size n := h ▸ F.stable b c (by simp [h])
      have hpos := F.size_pos b n h
      by_cases hn : n ≤ b.length
      · have hn' : n ≤ (b ++ c).length := by rw [List.length_append]; omega
        rw [split_frame h hn, split_frame h' hn', List.take_append_of_le_length hn,
          List.drop_append_of_le_length hn]
        split_ifs
        · exact ih (b.drop n).length (by rw [List.length_drop]; omega) _ _ rfl
        · rfl
      · rw [split_incomplete h (not_le.mp hn)]

/-- The frames and what is left to wait for are the stream. -/
theorem split_flatten {fs fs' : List (List α)} {b rest : List α}
    (h : F.split keeps fs b = ⟨fs', .waiting rest⟩) : fs'.flatten ++ rest = fs.flatten ++ b := by
  induction hk : b.length using Nat.strong_induction_on generalizing fs b with
  | _ k ih =>
    cases hb : F.header b with
    | short =>
      rw [split_short hb] at h
      cases h
      rfl
    | bad =>
      rw [split_bad hb] at h
      cases h
    | size n =>
      by_cases hn : n ≤ b.length
      · have hpos := F.size_pos b n hb
        rw [split_frame hb hn] at h
        split_ifs at h
        · rw [ih _ (by rw [List.length_drop]; omega) h rfl, List.flatten_append,
            List.flatten_singleton, List.append_assoc, List.take_append_drop]
        · cases h
      · rw [split_incomplete hb (not_le.mp hn)] at h
        cases h
        rfl

/-- Frames cut off before stand in front. -/
theorem split_behind (fs : List (List α)) (b : List α) :
    F.split (fun _ => true) fs b =
      ⟨fs ++ (F.split (fun _ => true) [] b).frames, (F.split (fun _ => true) [] b).status⟩ := by
  induction hk : b.length using Nat.strong_induction_on generalizing fs b with
  | _ k ih =>
    cases hb : F.header b with
    | short => rw [split_short hb, split_short hb, List.append_nil]
    | bad => rw [split_bad hb, split_bad hb, List.append_nil]
    | size n =>
      by_cases hn : n ≤ b.length
      · have hpos := F.size_pos b n hb
        have hlt : (b.drop n).length < k := by
          rw [List.length_drop]
          omega
        rw [split_frame hb hn, split_frame hb hn, if_pos rfl, if_pos rfl, ih _ hlt _ _ rfl,
          ih _ hlt ([] ++ [b.take n]) _ rfl, List.nil_append, List.append_assoc]
      · rw [split_incomplete hb (not_le.mp hn), split_incomplete hb (not_le.mp hn),
          List.append_nil]

/-! ## A stream of given frames -/

variable (F) in
/-- Bytes that are one frame. -/
def IsFrame (f : List α) : Prop := ∀ c, F.header (f ++ c) = .size f.length

/-- **The frames of a stream are cut off one by one.** -/
theorem split_frames {fs : List (List α)} (hfs : ∀ f ∈ fs, F.IsFrame f) (b : List α) :
    F.split (fun _ => true) [] (fs.flatten ++ b) =
      ⟨fs ++ (F.split (fun _ => true) [] b).frames, (F.split (fun _ => true) [] b).status⟩ := by
  induction fs with
  | nil => rfl
  | cons f fs ih =>
    have hf : F.header (f ++ (fs.flatten ++ b)) = .size f.length :=
      hfs f List.mem_cons_self (fs.flatten ++ b)
    have hlen : f.length ≤ (f ++ (fs.flatten ++ b)).length := by
      rw [List.length_append]
      omega
    rw [List.flatten_cons, List.append_assoc, split_frame hf hlen, if_pos rfl, split_behind,
      List.drop_left, List.take_left, ih fun g hg => hfs g (List.mem_cons_of_mem _ hg)]
    rfl

/-- A part of a frame waits for the rest of it. -/
theorem split_part {f b : List α} (hf : F.IsFrame f) (hb : b <+: f) (hlt : b.length < f.length) :
    F.split keeps [] b = ⟨[], .waiting b⟩ := by
  obtain ⟨c, rfl⟩ := hb
  by_cases hshort : F.header b = .short
  · exact split_short hshort
  · have hsize := hf []
    rw [List.append_nil, F.stable b c hshort] at hsize
    exact split_incomplete hsize hlt

end Framing

/-! ## Where a stream is cut -/

section

variable {α : Type*} {parts : List (List α)} {s s' rest rest' tail : List α} {k k' n : ℕ}

/-- Of the parts of a stream, `k` are complete when `n` of its elements have arrived. -/
def Completed (parts : List (List α)) (n k : ℕ) : Prop :=
  k ≤ parts.length ∧ (parts.take k).flatten.length ≤ n ∧
    (k < parts.length → n < (parts.take (k + 1)).flatten.length)

/-- What arrived is `k` parts and a proper part of the next one. -/
structure Cut (parts : List (List α)) (s : List α) (k : ℕ) (rest : List α) : Prop where
  le : k ≤ parts.length
  eq : s = (parts.take k).flatten ++ rest
  proper : ∀ h : k < parts.length, rest <+: parts[k] ∧ rest.length < parts[k].length

/-- **Every front of a stream is cut somewhere.** -/
theorem exists_cut (h : s <+: parts.flatten ++ tail) :
    ∃ k rest, Cut parts s k rest ∧ (k = parts.length → rest <+: tail) := by
  induction parts generalizing s with
  | nil => exact ⟨0, s, ⟨le_rfl, rfl, nofun⟩, fun _ => h⟩
  | cons p parts ih =>
    rw [List.flatten_cons, List.append_assoc] at h
    rcases Nat.lt_or_ge s.length p.length with hlt | hge
    · have hp : s <+: p :=
        List.prefix_of_prefix_length_le h (List.prefix_append p _) hlt.le
      exact ⟨0, s, ⟨Nat.zero_le _, rfl, fun _ => ⟨hp, hlt⟩⟩, nofun⟩
    · obtain ⟨s, rfl⟩ := List.prefix_of_prefix_length_le (List.prefix_append p _) h hge
      obtain ⟨k, rest, hcut, htail⟩ := ih ((List.prefix_append_right_inj p).mp h)
      refine ⟨k + 1, rest, ⟨Nat.succ_le_succ hcut.le, ?_, fun hk => ?_⟩, fun hk => ?_⟩
      · rw [List.take_succ_cons, List.flatten_cons, List.append_assoc, ← hcut.eq]
      · exact hcut.proper (Nat.lt_of_succ_lt_succ hk)
      · exact htail (Nat.succ.inj hk)

theorem Cut.completed (h : Cut parts s k rest) : Completed parts s.length k := by
  refine ⟨h.le, ?_, fun hk => ?_⟩
  · rw [h.eq, List.length_append]
    omega
  · have hrest := (h.proper hk).2
    rw [h.eq, List.take_succ_eq_append_getElem hk, List.flatten_append, List.flatten_singleton,
      List.length_append, List.length_append]
    omega

/-- More arrives, and more parts are complete. -/
theorem Cut.le_of_prefix (h : Cut parts s k rest) (h' : Cut parts s' k' rest') (hs : s <+: s') :
    k ≤ k' := by
  by_contra hlt
  rw [not_le] at hlt
  have hmore := h'.completed.2.2 (hlt.trans_le h.le)
  have hless := h.completed.2.1
  have hparts : (parts.take (k' + 1)).flatten.length ≤ (parts.take k).flatten.length := by
    have hprefix : parts.take (k' + 1) <+: parts.take k := List.take_prefix_take_left hlt
    obtain ⟨more, hmore⟩ := hprefix
    rw [← hmore, List.flatten_append, List.length_append]
    omega
  have := hs.length_le
  omega

/-- **What arrives between two cuts**: the parts that became complete, up to the new rest. -/
theorem Cut.between (h : Cut parts s k rest) {chunk : List α}
    (h' : Cut parts (s ++ chunk) k' rest') :
    rest ++ chunk = ((parts.take k').drop k).flatten ++ rest' := by
  have hle := h.le_of_prefix h' (List.prefix_append s chunk)
  have htake : parts.take k' = parts.take k ++ (parts.take k').drop k := by
    conv_lhs => rw [← List.take_append_drop k (parts.take k'), List.take_take, min_eq_left hle]
  have heq := h'.eq
  rw [h.eq, htake, List.flatten_append, List.append_assoc, List.append_assoc] at heq
  exact List.append_cancel_left heq

/-- A cut behind all parts. -/
theorem Cut.length_eq (h : Cut parts s k rest) (hs : parts.flatten.length ≤ s.length) :
    k = parts.length ∧ s.length = parts.flatten.length + rest.length := by
  have hk : k = parts.length := by
    refine le_antisymm h.le (not_lt.mp fun hlt => ?_)
    have hmore := h.completed.2.2 hlt
    have hall : parts.flatten = (parts.take (k + 1)).flatten ++ (parts.drop (k + 1)).flatten := by
      rw [← List.flatten_append, List.take_append_drop]
    rw [hall, List.length_append] at hs
    omega
  refine ⟨hk, ?_⟩
  conv_lhs => rw [h.eq, hk, List.take_length, List.length_append]

end

end Machinery
