import Mathlib

/-!
# Machinery/Parsing — parsers with a position, and what they accept

A parser moves a position through a buffer and may stop with an error.  `Accepts clean P R` says all
about it: from a position inside the buffer every error is `clean`, and `P` succeeds with `b` exactly
when what follows begins with some `u` that `R` allows for `b`, and then moves behind `u`.  `R` also
sees what was read before.

`Accepts.bind` puts parsers one after the other, `Accepts.times` repeats one; for a parser of encoded
values (`Encodes`) both speak about the encodings.
-/

namespace Machinery

variable {α ε β γ : Type}

/-- A position in a buffer. -/
structure Cursor (α : Type) where
  data : List α
  offset : ℕ

namespace Cursor

/-- What was read. -/
def before (c : Cursor α) : List α := c.data.take c.offset

/-- What is left. -/
def rest (c : Cursor α) : List α := c.data.drop c.offset

/-- The position behind `n` more cells. -/
def skip (c : Cursor α) (n : ℕ) : Cursor α := { c with offset := c.offset + n }

/-- The position lies in the buffer. -/
def Inside (c : Cursor α) : Prop := c.offset ≤ c.data.length

variable {c : Cursor α} {u : List α}

@[simp] theorem skip_zero : c.skip 0 = c := rfl

theorem skip_skip (m n : ℕ) : (c.skip m).skip n = c.skip (m + n) := by
  rw [skip, skip, skip, Nat.add_assoc]

theorem rest_skip (n : ℕ) : (c.skip n).rest = c.rest.drop n := by
  rw [rest, rest, skip, List.drop_drop]

theorem length_rest : c.rest.length = c.data.length - c.offset := List.length_drop

theorem Inside.skip_le (h : c.Inside) {n : ℕ} (hn : n ≤ c.rest.length) : (c.skip n).Inside := by
  have hin : c.offset ≤ c.data.length := h
  rw [length_rest] at hn
  show c.offset + n ≤ c.data.length
  omega

theorem Inside.skip (h : c.Inside) (hu : u <+: c.rest) : (c.skip u.length).Inside :=
  h.skip_le hu.length_le

theorem before_skip (hu : u <+: c.rest) : (c.skip u.length).before = c.before ++ u := by
  obtain ⟨t, ht⟩ := hu
  have hdata : (c.data.drop c.offset).take u.length = u := by
    rw [← rest, ← ht, List.take_left]
  show c.data.take (c.offset + u.length) = c.data.take c.offset ++ u
  rw [List.take_add, hdata]

/-- What follows one part and then another follows both. -/
theorem prefix_rest_skip {v : List α} (hu : u <+: c.rest) :
    v <+: (c.skip u.length).rest ↔ u ++ v <+: c.rest := by
  obtain ⟨t, ht⟩ := hu
  rw [rest_skip, ← ht, List.drop_left, List.prefix_append_right_inj]

/-- A position says how much was read. -/
theorem eq_of_skip {v : List α} (hu : u <+: c.rest) (hv : v <+: c.rest)
    (h : c.skip u.length = c.skip v.length) : u = v := by
  have hlen : u.length = v.length := Nat.add_left_cancel (congrArg Cursor.offset h)
  exact (List.prefix_of_prefix_length_le hu hv hlen.le).eq_of_length hlen

end Cursor

/-- A parser. -/
abbrev Parser (α ε β : Type) := StateT (Cursor α) (Except ε) β

/-- What a parser accepts: with `b` those inputs that begin with some `u` for which `R` holds of what
was read before, `b` and `u`. -/
def Accepts (clean : ε → Prop) (P : Parser α ε β) (R : List α → β → List α → Prop) : Prop :=
  ∀ c : Cursor α, c.Inside →
    (∀ e, P c = .error e → clean e) ∧
    ∀ b c', P c = .ok (b, c') ↔ ∃ u, u <+: c.rest ∧ R c.before b u ∧ c' = c.skip u.length

/-- The parser accepts the encodings of good values. -/
def Encodes (clean : ε → Prop) (P : Parser α ε β) (good : β → Prop) (encode : β → List α) : Prop :=
  Accepts clean P fun _ b u => good b ∧ u = encode b

variable {clean : ε → Prop} {P : Parser α ε β} {Q : β → Parser α ε γ}
  {R : List α → β → List α → Prop}

/-- A parser that reads nothing. -/
theorem accepts_pure (b : β) :
    Accepts clean (pure b : Parser α ε β) fun _ b' u => b' = b ∧ u = [] := by
  intro c _
  refine ⟨nofun, fun b' c' => ?_⟩
  constructor
  · intro h
    obtain ⟨rfl, rfl⟩ := Prod.mk.inj (Except.ok.inj h)
    exact ⟨[], List.nil_prefix, ⟨rfl, rfl⟩, rfl⟩
  · rintro ⟨u, -, ⟨rfl, rfl⟩, rfl⟩
    rfl

/-- The same parser with what it accepts said in other words. -/
theorem Accepts.congr {R' : List α → β → List α → Prop} (h : Accepts clean P R)
    (he : ∀ p b u, R p b u ↔ R' p b u) : Accepts clean P R' := by
  intro c hc
  obtain ⟨hclean, hiff⟩ := h c hc
  refine ⟨hclean, fun b c' => (hiff b c').trans ?_⟩
  simp only [he]

/-- **One parser after the other.** -/
theorem Accepts.bind {S : β → List α → γ → List α → Prop} (hP : Accepts clean P R)
    (hQ : ∀ b, Accepts clean (Q b) (S b)) :
    Accepts clean (P >>= Q) fun p d w =>
      ∃ b u v, R p b u ∧ S b (p ++ u) d v ∧ w = u ++ v := by
  intro c hc
  obtain ⟨hclean, hiff⟩ := hP c hc
  have hbind : (P >>= Q) c = P c >>= fun r => Q r.1 r.2 := rfl
  rw [hbind]
  cases hp : P c with
  | error e =>
    refine ⟨fun e' he' => ?_, fun d c' => ⟨nofun, ?_⟩⟩
    · obtain rfl := Except.error.inj he'
      exact hclean _ hp
    · rintro ⟨w, hw, ⟨b, u, v, hr, -, rfl⟩, -⟩
      have hok := (hiff b _).mpr ⟨u, (List.prefix_append u v).trans hw, hr, rfl⟩
      exact nomatch hp.symm.trans hok
  | ok r =>
    obtain ⟨b, c₁⟩ := r
    obtain ⟨u, hu, hr, rfl⟩ := (hiff b c₁).mp hp
    obtain ⟨hclean', hiff'⟩ := hQ b _ (hc.skip hu)
    refine ⟨hclean', fun d c' => (hiff' d c').trans ?_⟩
    rw [Cursor.before_skip hu]
    constructor
    · rintro ⟨v, hv, hs, rfl⟩
      exact ⟨u ++ v, (Cursor.prefix_rest_skip hu).mp hv, ⟨b, u, v, hr, hs, rfl⟩,
        by rw [Cursor.skip_skip, List.length_append]⟩
    · rintro ⟨w, hw, ⟨b', u', v, hr', hs, rfl⟩, rfl⟩
      have hu' := (List.prefix_append u' v).trans hw
      have hok := (hiff b' _).mpr ⟨u', hu', hr', rfl⟩
      obtain ⟨rfl, hskip⟩ := Prod.mk.inj (Except.ok.inj (hp.symm.trans hok))
      obtain rfl := Cursor.eq_of_skip hu hu' hskip
      exact ⟨v, (Cursor.prefix_rest_skip hu).mpr hw, hs,
        by rw [Cursor.skip_skip, List.length_append]⟩

/-! ## Repetition -/

/-- The parser, `n` times. -/
def times (P : Parser α ε β) : ℕ → Parser α ε (List β)
  | 0 => pure []
  | n + 1 => do
    let b ← P
    let bs ← times P n
    return b :: bs

/-- **A repeated parser reads the encodings one after the other.** -/
theorem Encodes.times {good : β → Prop} {encode : β → List α} (h : Encodes clean P good encode)
    (n : ℕ) : Encodes clean (times P n) (fun bs => bs.length = n ∧ ∀ b ∈ bs, good b)
      (List.flatMap encode) := by
  induction n with
  | zero =>
    refine (accepts_pure []).congr fun p bs u => ?_
    constructor
    · rintro ⟨rfl, rfl⟩
      exact ⟨⟨rfl, nofun⟩, rfl⟩
    · rintro ⟨⟨hlen, -⟩, rfl⟩
      rw [List.length_eq_zero_iff.mp hlen]
      exact ⟨rfl, rfl⟩
  | succ n ih =>
    refine (h.bind fun b => ih.bind fun bs => accepts_pure (b :: bs)).congr fun p bs w => ?_
    constructor
    · rintro ⟨b, _, _, ⟨hb, rfl⟩, ⟨bs', _, _, ⟨⟨hlen, hbs⟩, rfl⟩, ⟨rfl, rfl⟩, rfl⟩, rfl⟩
      refine ⟨⟨by rw [List.length_cons, hlen], List.forall_mem_cons.mpr ⟨hb, hbs⟩⟩, ?_⟩
      rw [List.append_nil, List.flatMap_cons]
    · rintro ⟨⟨hlen, hbs⟩, rfl⟩
      cases bs with
      | nil => exact nomatch hlen
      | cons b bs =>
        obtain ⟨hb, hbs⟩ := List.forall_mem_cons.mp hbs
        exact ⟨b, _, _, ⟨hb, rfl⟩, ⟨bs, _, _, ⟨⟨Nat.succ.inj hlen, hbs⟩, rfl⟩, ⟨rfl, rfl⟩,
          (List.append_nil _).symm⟩, List.flatMap_cons⟩

end Machinery
