import Yunogram.Machinery.LittleEndian
import Yunogram.Machinery.Span

/-!
# Machinery/Layout — bytes with nested scopes, each behind its length

A layout is a list of raw bytes and of scopes; a scope is written as the length of what is inside,
in `width` bytes with the high one first, and then what is inside.  `fields` are the positions of
the lengths with the lengths themselves, `leaves` the positions of the raw bytes.

A field reads its length (`fields_written`), a leaf its bytes (`leaves_written`), and no leaf
reaches into a field (`leaves_apart`), so what is overwritten inside a leaf changes no field. -/

namespace Machinery

/-- A part of some bytes. -/
inductive Layout
  | raw (bytes : List UInt8)
  | scope (inner : List Layout)

namespace Layout

variable (width : ℕ)

mutual

/-- The bytes of a part. -/
def bytes : Layout → List UInt8
  | raw b => b
  | scope inner => bigEndian width (bytesAll inner).length ++ bytesAll inner

/-- The bytes of some parts. -/
def bytesAll : List Layout → List UInt8
  | [] => []
  | l :: ls => bytes l ++ bytesAll ls

end

mutual

/-- The positions of the lengths in a part that starts at `start`, with the lengths. -/
def fields (start : ℕ) : Layout → List (ℕ × ℕ)
  | raw _ => []
  | scope inner => (start, (bytesAll width inner).length) :: fieldsAll (start + width) inner

/-- …in some parts. -/
def fieldsAll (start : ℕ) : List Layout → List (ℕ × ℕ)
  | [] => []
  | l :: ls => fields start l ++ fieldsAll (start + (bytes width l).length) ls

end

mutual

/-- The positions of the raw bytes in a part that starts at `start`, with the bytes. -/
def leaves (start : ℕ) : Layout → List (ℕ × List UInt8)
  | raw b => [(start, b)]
  | scope inner => leavesAll (start + width) inner

/-- …in some parts. -/
def leavesAll (start : ℕ) : List Layout → List (ℕ × List UInt8)
  | [] => []
  | l :: ls => leaves start l ++ leavesAll (start + (bytes width l).length) ls

end

variable {width} {start pos : ℕ} {c data : List UInt8}

theorem bytesAll_append (ls ls' : List Layout) :
    bytesAll width (ls ++ ls') = bytesAll width ls ++ bytesAll width ls' := by
  induction ls with
  | nil => rfl
  | cons l ls ih => rw [List.cons_append, bytesAll, bytesAll, ih, List.append_assoc]

theorem leavesAll_append (start : ℕ) (ls ls' : List Layout) :
    leavesAll width start (ls ++ ls') =
      leavesAll width start ls ++ leavesAll width (start + (bytesAll width ls).length) ls' := by
  induction ls generalizing start with
  | nil => rfl
  | cons l ls ih =>
    rw [List.cons_append, leavesAll, leavesAll, ih, bytesAll, List.length_append,
      List.append_assoc, Nat.add_assoc]

/-- `c` is written at `pos` of bytes that start at `start`. -/
def Written (start : ℕ) (data : List UInt8) (pos : ℕ) (c : List UInt8) : Prop :=
  ∃ front back, data = front ++ (c ++ back) ∧ pos = start + front.length

theorem Written.append_right (h : Written start data pos c) (more : List UInt8) :
    Written start (data ++ more) pos c := by
  obtain ⟨front, back, rfl, hpos⟩ := h
  exact ⟨front, back ++ more, by simp, hpos⟩

theorem Written.append_left {more : List UInt8}
    (h : Written (start + more.length) data pos c) : Written start (more ++ data) pos c := by
  obtain ⟨front, back, rfl, rfl⟩ := h
  exact ⟨more ++ front, back, by simp, by rw [List.length_append]; omega⟩

theorem Written.within (h : Written start data pos c) :
    start ≤ pos ∧ pos + c.length ≤ start + data.length := by
  obtain ⟨front, back, rfl, rfl⟩ := h
  simp only [List.length_append]
  omega

theorem Written.slice_eq (h : Written 0 data pos c) : slice data pos c.length = c := by
  obtain ⟨front, back, rfl, rfl⟩ := h
  rw [Nat.zero_add, slice, List.drop_left, List.take_left]

/-- A field, and what its length counts. -/
def WrittenField (width start : ℕ) (data : List UInt8) (field : ℕ × ℕ) : Prop :=
  Written start data field.1 (bigEndian width field.2) ∧
    field.1 + width + field.2 ≤ start + data.length

theorem WrittenField.append_right {field : ℕ × ℕ} (h : WrittenField width start data field)
    (more : List UInt8) : WrittenField width start (data ++ more) field := by
  refine ⟨h.1.append_right more, h.2.trans ?_⟩
  rw [List.length_append]
  omega

theorem WrittenField.append_left {field : ℕ × ℕ} {more : List UInt8}
    (h : WrittenField width (start + more.length) data field) :
    WrittenField width start (more ++ data) field := by
  refine ⟨h.1.append_left, h.2.trans ?_⟩
  rw [List.length_append]
  omega

mutual

/-- **A field reads its length.** -/
theorem fields_written : ∀ (start : ℕ) (l : Layout),
    ∀ field ∈ fields width start l, WrittenField width start (bytes width l) field
  | _, raw _, _, hfield => nomatch hfield
  | start, scope inner, field, hfield => by
    rw [fields] at hfield
    rw [bytes]
    rcases List.mem_cons.mp hfield with rfl | hfield
    · refine ⟨⟨[], bytesAll width inner, rfl, rfl⟩, ?_⟩
      rw [List.length_append, length_bigEndian]
      omega
    · refine WrittenField.append_left ?_
      rw [length_bigEndian]
      exact fieldsAll_written (start + width) inner field hfield

theorem fieldsAll_written : ∀ (start : ℕ) (ls : List Layout),
    ∀ field ∈ fieldsAll width start ls, WrittenField width start (bytesAll width ls) field
  | _, [], _, hfield => nomatch hfield
  | start, l :: ls, field, hfield => by
    rw [fieldsAll] at hfield
    rw [bytesAll]
    rcases List.mem_append.mp hfield with hfield | hfield
    · exact (fields_written start l field hfield).append_right _
    · exact WrittenField.append_left (fieldsAll_written _ ls field hfield)

end

mutual

/-- **A leaf reads its bytes.** -/
theorem leaves_written : ∀ (start : ℕ) (l : Layout),
    ∀ leaf ∈ leaves width start l, Written start (bytes width l) leaf.1 leaf.2
  | _, raw b, leaf, hleaf => by
    obtain rfl := List.mem_singleton.mp hleaf
    exact ⟨[], [], (List.append_nil b).symm, rfl⟩
  | start, scope inner, leaf, hleaf => by
    rw [leaves] at hleaf
    rw [bytes]
    refine Written.append_left ?_
    rw [length_bigEndian]
    exact leavesAll_written (start + width) inner leaf hleaf

theorem leavesAll_written : ∀ (start : ℕ) (ls : List Layout),
    ∀ leaf ∈ leavesAll width start ls, Written start (bytesAll width ls) leaf.1 leaf.2
  | _, [], _, hleaf => nomatch hleaf
  | start, l :: ls, leaf, hleaf => by
    rw [leavesAll] at hleaf
    rw [bytesAll]
    rcases List.mem_append.mp hleaf with hleaf | hleaf
    · exact (leaves_written start l leaf hleaf).append_right _
    · exact Written.append_left (leavesAll_written _ ls leaf hleaf)

end

mutual

/-- **No leaf reaches into a field.** -/
theorem leaves_apart : ∀ (start : ℕ) (l : Layout),
    ∀ field ∈ fields width start l, ∀ leaf ∈ leaves width start l,
      leaf.1 + leaf.2.length ≤ field.1 ∨ field.1 + width ≤ leaf.1
  | _, raw _, _, hfield, _, _ => nomatch hfield
  | start, scope inner, field, hfield, leaf, hleaf => by
    rw [fields] at hfield
    rw [leaves] at hleaf
    rcases List.mem_cons.mp hfield with rfl | hfield
    · exact Or.inr (leavesAll_written _ inner leaf hleaf).within.1
    · exact leavesAll_apart _ inner field hfield leaf hleaf

theorem leavesAll_apart : ∀ (start : ℕ) (ls : List Layout),
    ∀ field ∈ fieldsAll width start ls, ∀ leaf ∈ leavesAll width start ls,
      leaf.1 + leaf.2.length ≤ field.1 ∨ field.1 + width ≤ leaf.1
  | _, [], _, hfield, _, _ => nomatch hfield
  | start, l :: ls, field, hfield, leaf, hleaf => by
    rw [fieldsAll] at hfield
    rw [leavesAll] at hleaf
    rcases List.mem_append.mp hfield with hfield | hfield <;>
      rcases List.mem_append.mp hleaf with hleaf | hleaf
    · exact leaves_apart start l field hfield leaf hleaf
    · have hend := (fields_written start l field hfield).2
      have hbegin := (leavesAll_written _ ls leaf hleaf).within.1
      omega
    · have hend := (leaves_written start l leaf hleaf).within.2
      have hbegin := (fieldsAll_written _ ls field hfield).1.within.1
      omega
    · exact leavesAll_apart _ ls field hfield leaf hleaf

end

end Layout

end Machinery
