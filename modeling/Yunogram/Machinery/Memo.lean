import Mathlib

/-!
# Machinery/Memo — remembered values of a function

A memo has values for some keys.  While it is sound, an answer from it is the value of the function,
whatever was asked before; what it has to forget when the function changes is what has changed.
-/

namespace Machinery

/-- Values that are remembered, by their keys. -/
abbrev Memo (κ β : Type*) := κ → Option β

namespace Memo

variable {κ β : Type*} [DecidableEq κ] {m m' : Memo κ β} {f f' : κ → β} {on on' : κ → Prop}
  {k : κ} {keys : List κ} {v : β}

/-- Nothing is remembered. -/
def empty : Memo κ β := fun _ => none

/-- A value is remembered. -/
def put (m : Memo κ β) (k : κ) (v : β) : Memo κ β := Function.update m k (some v)

/-- A value is forgotten. -/
def drop (m : Memo κ β) (k : κ) : Memo κ β := Function.update m k none

/-- One value is remembered for many keys. -/
def putAll (m : Memo κ β) (keys : List κ) (v : β) : Memo κ β :=
  keys.foldl (fun m k => m.put k v) m

/-- Many values are forgotten. -/
def dropAll (m : Memo κ β) (keys : List κ) : Memo κ β := keys.foldl drop m

theorem putAll_apply : (m.putAll keys v) k = if k ∈ keys then some v else m k := by
  induction keys generalizing m with
  | nil => rw [if_neg List.not_mem_nil]; rfl
  | cons key keys ih =>
    rw [putAll, List.foldl_cons, ← putAll, ih, put]
    by_cases hrest : k ∈ keys
    · rw [if_pos hrest, if_pos (List.mem_cons_of_mem key hrest)]
    · rw [if_neg hrest, Function.update_apply]
      by_cases hkey : k = key
      · rw [if_pos hkey, if_pos (hkey ▸ List.mem_cons_self ..)]
      · rw [if_neg hkey, if_neg (fun hmem => (List.mem_cons.1 hmem).elim hkey hrest)]

theorem dropAll_append (keys keys' : List κ) :
    m.dropAll (keys ++ keys') = (m.dropAll keys).dropAll keys' := List.foldl_append

theorem dropAll_apply : (m.dropAll keys) k = if k ∈ keys then none else m k := by
  induction keys generalizing m with
  | nil => rw [if_neg List.not_mem_nil]; rfl
  | cons key keys ih =>
    rw [dropAll, List.foldl_cons, ← dropAll, ih, drop]
    by_cases hrest : k ∈ keys
    · rw [if_pos hrest, if_pos (List.mem_cons_of_mem key hrest)]
    · rw [if_neg hrest, Function.update_apply]
      by_cases hkey : k = key
      · rw [if_pos hkey, if_pos (hkey ▸ List.mem_cons_self ..)]
      · rw [if_neg hkey, if_neg (fun hmem => (List.mem_cons.1 hmem).elim hkey hrest)]

/-! ## Soundness -/

/-- **What is remembered is the value**, where it matters. -/
def Sound (f : κ → β) (on : κ → Prop) (m : Memo κ β) : Prop :=
  ∀ k v, on k → m k = some v → v = f k

omit [DecidableEq κ] in
theorem sound_empty : Sound f on (empty : Memo κ β) := fun _ _ _ h => nomatch h

theorem Sound.put (h : m.Sound f on) (hv : on k → v = f k) : (m.put k v).Sound f on := by
  intro key value hon hkey
  rw [Memo.put, Function.update_apply] at hkey
  split at hkey
  · next heq =>
    subst heq
    rw [← Option.some.inj hkey]
    exact hv hon
  · exact h key value hon hkey

theorem Sound.putAll (h : m.Sound f on) (hv : ∀ k ∈ keys, on k → v = f k) :
    (m.putAll keys v).Sound f on := by
  intro key value hon hkey
  rw [putAll_apply] at hkey
  split at hkey
  · next hmem =>
    rw [← Option.some.inj hkey]
    exact hv key hmem hon
  · exact h key value hon hkey

omit [DecidableEq κ] in
/-- What is kept through a change of the function is what has not changed. -/
theorem Sound.change (h : m.Sound f on)
    (hkept : ∀ k v, m' k = some v → on' k → m k = some v ∧ on k ∧ f' k = f k) :
    m'.Sound f' on' := by
  intro k v hon hk
  obtain ⟨hold, hon', heq⟩ := hkept k v hk hon
  rw [heq]
  exact h k v hon' hold

end Memo

end Machinery
