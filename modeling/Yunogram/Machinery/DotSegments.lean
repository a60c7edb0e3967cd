import Mathlib

/-!
# Machinery/DotSegments — the segments of a path, with the dots settled

A path is a list of segments.  Some segments do nothing (`skips`), one of them steps `up`.  Reading
them one after the other onto a stack settles the path (`settled`): a step up takes the last name
back, and where there is none left it either stays (`keeps`) or is dropped.

* `isSettled_settled` — what is left is steps up, if any are kept, and names after them.
* `settled_of_isSettled` — such a path is left as it is, so that settling twice is settling once.
* `settled_append` — names after a settled path stay after it. -/

namespace Machinery.Dots

variable {σ : Type*} (skips : σ → Bool) (up : σ) (keeps : Bool)

/-- A segment that is a name. -/
def IsName (segment : σ) : Prop := skips segment = false ∧ segment ≠ up

/-- Steps up, if they are kept, and names after them. -/
def IsSettled (segments : List σ) : Prop :=
  ∃ (k : ℕ) (names : List σ), segments = List.replicate k up ++ names ∧
    (keeps = false → k = 0) ∧ ∀ name ∈ names, IsName skips up name

variable {skips up keeps}

theorem IsSettled.nil : IsSettled skips up keeps [] := ⟨0, [], rfl, fun _ => rfl, by simp⟩

/-- A settled path stays settled with its last segment left out. -/
theorem IsSettled.dropLast {segments : List σ} (h : IsSettled skips up keeps segments) :
    IsSettled skips up keeps segments.dropLast := by
  obtain ⟨k, names, rfl, hk, hnames⟩ := h
  rcases List.eq_nil_or_concat names with rfl | ⟨init, last, rfl⟩
  · refine ⟨k - 1, [], by simp, fun hkeeps => ?_, by simp⟩
    rw [hk hkeeps]
  · refine ⟨k, init, ?_, hk, fun name hname => hnames name (by simp [hname])⟩
    rw [List.concat_eq_append, ← List.append_assoc, List.dropLast_concat]

/-- No segment of a settled path does nothing. -/
theorem filter_of_isSettled (hup : skips up = false) {segments : List σ}
    (h : IsSettled skips up keeps segments) : (segments.filter fun s => !skips s) = segments := by
  obtain ⟨k, names, rfl, -, hnames⟩ := h
  rw [List.filter_eq_self]
  intro s hs
  rcases List.mem_append.1 hs with hs | hs
  · simp [List.eq_of_mem_replicate hs, hup]
  · simp [(hnames s hs).1]

/-! ## Pushing -/

variable [DecidableEq σ]

variable (skips up keeps) in
/-- One more segment, on the stack of those before it. -/
def push (stack : List σ) (segment : σ) : List σ :=
  if skips segment then
    stack
  else if segment = up then
    match stack with
    | [] => if keeps then [up] else []
    | top :: rest => if top = up then up :: top :: rest else rest
  else
    segment :: stack

variable (skips up keeps) in
/-- The segments, settled. -/
def settled (segments : List σ) : List σ := (segments.foldl (push skips up keeps) []).reverse

theorem push_name {segment : σ} (h : IsName skips up segment) (stack : List σ) :
    push skips up keeps stack segment = segment :: stack := by
  simp [push, h.1, h.2]

/-- Names go on the stack as they are. -/
theorem foldl_push_names {names : List σ} (h : ∀ name ∈ names, IsName skips up name)
    (stack : List σ) : names.foldl (push skips up keeps) stack = names.reverse ++ stack := by
  induction names generalizing stack with
  | nil => rfl
  | cons name names ih =>
    rw [List.foldl_cons, push_name (h name List.mem_cons_self),
      ih fun name hname => h name (List.mem_cons_of_mem _ hname)]
    simp

/-- Steps up pile up where they are kept. -/
theorem foldl_push_ups (hup : skips up = false) (k : ℕ) :
    (List.replicate k up).foldl (push skips up true) [] = List.replicate k up := by
  induction k with
  | zero => rfl
  | succ k ih =>
    rw [List.replicate_succ', List.foldl_append, ih, ← List.replicate_succ']
    cases k <;> simp [push, hup, List.replicate_succ]

/-- A settled path stays one with a segment more. -/
theorem IsSettled.push {stack : List σ} (h : IsSettled skips up keeps stack.reverse) (segment : σ) :
    IsSettled skips up keeps (push skips up keeps stack segment).reverse := by
  by_cases hskips : skips segment = true
  · simpa [Dots.push, hskips] using h
  by_cases hup : segment = up
  · subst hup
    cases stack with
    | nil =>
      cases keeps with
      | false => simpa [Dots.push, hskips] using h
      | true => exact ⟨1, [], by simp [Dots.push, hskips], by simp, by simp⟩
    | cons top rest =>
      by_cases htop : top = segment
      · subst htop
        obtain ⟨k, names, heq, hk, hnames⟩ := h
        rcases List.eq_nil_or_concat names with rfl | ⟨init, last, rfl⟩
        · refine ⟨k + 1, [], ?_, fun hkeeps => ?_, by simp⟩
          · simp only [List.append_nil] at heq ⊢
            rw [List.replicate_succ', ← heq]
            simp [Dots.push, hskips]
          · rw [hk hkeeps] at heq
            simp at heq
        · rw [List.reverse_cons, List.concat_eq_append, ← List.append_assoc] at heq
          have hlast : top = last := by simpa using (List.append_inj' heq rfl).2
          exact absurd hlast.symm (hnames last (by simp)).2
      · have hpush : Dots.push skips segment keeps (top :: rest) segment = rest := by
          simp [Dots.push, hskips, htop]
        rw [hpush]
        simpa using h.dropLast
  · have hname : IsName skips up segment := ⟨by simpa using hskips, hup⟩
    obtain ⟨k, names, heq, hk, hnames⟩ := h
    refine ⟨k, names ++ [segment], by rw [push_name hname, List.reverse_cons, heq]; simp, hk, ?_⟩
    intro name hmem
    rcases List.mem_append.1 hmem with hmem | hmem
    · exact hnames name hmem
    · rwa [List.mem_singleton.1 hmem]

theorem mem_push {s segment : σ} {stack : List σ} (h : s ∈ push skips up keeps stack segment) :
    s ∈ stack ∨ s = segment := by
  rw [push.eq_def] at h
  split at h
  · exact .inl h
  split at h
  · rename_i hup
    subst hup
    split at h
    · split at h
      · exact .inr (List.mem_singleton.1 h)
      · exact .inl h
    · split at h
      · exact (List.mem_cons.1 h).symm
      · exact .inl (List.mem_cons_of_mem _ h)
  · exact (List.mem_cons.1 h).symm

/-- Nothing is on the stack but what was there and what was read. -/
theorem mem_foldl_push {s : σ} {segments stack : List σ}
    (h : s ∈ segments.foldl (push skips up keeps) stack) : s ∈ stack ∨ s ∈ segments := by
  induction segments generalizing stack with
  | nil => exact .inl h
  | cons segment segments ih =>
    rcases ih h with h | h
    · rcases mem_push h with h | rfl
      · exact .inl h
      · exact .inr List.mem_cons_self
    · exact .inr (List.mem_cons_of_mem _ h)

/-! ## Settling -/

theorem mem_of_mem_settled {s : σ} {segments : List σ} (h : s ∈ settled skips up keeps segments) :
    s ∈ segments :=
  (mem_foldl_push (List.mem_reverse.1 h)).resolve_left List.not_mem_nil

/-- **What is left is settled.** -/
theorem isSettled_settled (segments : List σ) :
    IsSettled skips up keeps (settled skips up keeps segments) := by
  have key : ∀ stack : List σ, IsSettled skips up keeps stack.reverse →
      IsSettled skips up keeps (segments.foldl (push skips up keeps) stack).reverse := by
    induction segments with
    | nil => exact fun stack h => h
    | cons segment segments ih => exact fun stack h => ih _ (h.push segment)
  exact key [] IsSettled.nil

/-- A settled path is put on the stack as it is. -/
theorem foldl_push_isSettled (hup : skips up = false) {segments : List σ}
    (h : IsSettled skips up keeps segments) :
    segments.foldl (push skips up keeps) [] = segments.reverse := by
  obtain ⟨k, names, rfl, hk, hnames⟩ := h
  have hups : (List.replicate k up).foldl (push skips up keeps) [] = List.replicate k up := by
    cases keeps with
    | false => rw [hk rfl]; rfl
    | true => exact foldl_push_ups hup k
  rw [List.foldl_append, hups, foldl_push_names hnames, List.reverse_append, List.reverse_replicate]

/-- **A settled path is left as it is.** -/
theorem settled_of_isSettled (hup : skips up = false) {segments : List σ}
    (h : IsSettled skips up keeps segments) : settled skips up keeps segments = segments := by
  rw [settled, foldl_push_isSettled hup h, List.reverse_reverse]

/-- Segments that do nothing may be left out first. -/
theorem foldl_push_filter (segments : List σ) (stack : List σ) :
    (segments.filter fun s => !skips s).foldl (push skips up keeps) stack
      = segments.foldl (push skips up keeps) stack := by
  induction segments generalizing stack with
  | nil => rfl
  | cons segment segments ih =>
    by_cases hskips : skips segment = true
    · rw [List.filter_cons_of_neg (by simp [hskips]), ih, List.foldl_cons]
      simp [push, hskips]
    · rw [List.filter_cons_of_pos (by simp [hskips]), List.foldl_cons, List.foldl_cons, ih]

theorem settled_filter (segments : List σ) :
    settled skips up keeps (segments.filter fun s => !skips s)
      = settled skips up keeps segments := by
  rw [settled, foldl_push_filter, settled]

/-- **Where nothing steps up after a settled path, its segments stay the first ones.** -/
theorem settled_append (hup : skips up = false) {segments after : List σ}
    (h : IsSettled skips up keeps segments) (hafter : up ∉ after) :
    settled skips up keeps (segments ++ after) = segments ++ after.filter fun s => !skips s := by
  have hnames : ∀ name ∈ after.filter fun s => !skips s, IsName skips up name := by
    intro name hname
    rw [List.mem_filter] at hname
    exact ⟨by simpa using hname.2, fun heq => hafter (heq ▸ hname.1)⟩
  rw [settled, List.foldl_append, foldl_push_isSettled hup h, ← foldl_push_filter,
    foldl_push_names hnames, List.reverse_append, List.reverse_reverse, List.reverse_reverse]

end Machinery.Dots
