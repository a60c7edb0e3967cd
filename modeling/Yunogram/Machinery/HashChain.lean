import Mathlib

/-!
# Machinery/HashChain — a digest of everything said so far

A transcript is kept as one digest: each part is hashed behind the digest of the parts before it.
`hashChain_injOn` is why that digest stands for the transcript: two transcripts of as many parts with
one digest are the same, as long as no two of the inputs hashed for them collide.
-/

namespace Machinery

variable {α : Type*} {hash : List α → List α}

/-- The digest of a transcript, from the digest `h` before it. -/
def hashChain (hash : List α → List α) (h : List α) (parts : List (List α)) : List α :=
  parts.foldl (fun h part => hash (h ++ part)) h

/-- What is hashed for it. -/
def hashInputs (hash : List α → List α) : List α → List (List α) → List (List α)
  | _, [] => []
  | h, part :: parts => (h ++ part) :: hashInputs hash (hash (h ++ part)) parts

@[simp] theorem hashChain_nil (h : List α) : hashChain hash h [] = h := rfl

@[simp] theorem hashChain_cons (h part : List α) (parts : List (List α)) :
    hashChain hash h (part :: parts) = hashChain hash (hash (h ++ part)) parts := rfl

/-- **One digest, one transcript.** -/
theorem hashChain_injOn {width : ℕ} (hwidth : ∀ input, (hash input).length = width)
    {h h' : List α} {parts parts' : List (List α)} (hh : h.length = width) (hh' : h'.length = width)
    (hinj : Set.InjOn hash {x | x ∈ hashInputs hash h parts ∨ x ∈ hashInputs hash h' parts'})
    (hchain : hashChain hash h parts = hashChain hash h' parts')
    (hlength : parts.length = parts'.length) : h = h' ∧ parts = parts' := by
  induction parts generalizing h h' parts' with
  | nil =>
    obtain rfl := List.eq_nil_of_length_eq_zero hlength.symm
    exact ⟨hchain, rfl⟩
  | cons part parts ih =>
    cases parts' with
    | nil => exact nomatch hlength
    | cons part' parts' =>
      obtain ⟨hdigest, rfl⟩ := ih (hwidth _) (hwidth _)
        (hinj.mono fun x hx => hx.imp (List.mem_cons_of_mem _) (List.mem_cons_of_mem _)) hchain
        (Nat.succ.inj hlength)
      have hinput := hinj (.inl List.mem_cons_self) (.inr List.mem_cons_self) hdigest
      obtain ⟨rfl, rfl⟩ := List.append_inj hinput (hh.trans hh'.symm)
      exact ⟨rfl, rfl⟩

end Machinery
