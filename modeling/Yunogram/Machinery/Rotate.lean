import Mathlib

/-!
# Machinery/Rotate — a range of a list rotated, and an element moved by it

`rotate` is the rotation of the part of a list from `first` to `last` that brings the element at
`middle` to the front of it.  When one of the two parts that change places is one element, the
element is moved over the other part: `rotate_back` and `rotate_on`.
-/

namespace Machinery

variable {α : Type*} {front passed back : List α} {x : α}

/-- The elements from `first` on and those from `middle` on, up to `last`, change places. -/
def rotate (first middle last : ℕ) (l : List α) : List α :=
  l.take first ++ (l.take last).drop middle ++ (l.take middle).drop first ++ l.drop last

/-- **An element is moved back over what is before it.** -/
theorem rotate_back :
    rotate front.length (front.length + passed.length) (front.length + passed.length + 1)
      (front ++ passed ++ x :: back) = front ++ x :: (passed ++ back) := by
  have hlength : (front ++ passed).length = front.length + passed.length := List.length_append
  have htake : (front ++ passed ++ x :: back).take (front.length + passed.length)
      = front ++ passed := List.take_left' hlength
  have hnext : front ++ passed ++ x :: back = (front ++ passed ++ [x]) ++ back := by
    rw [List.append_assoc _ [x], List.singleton_append]
  have htake' : (front ++ passed ++ x :: back).take (front.length + passed.length + 1)
      = front ++ passed ++ [x] := by
    rw [hnext]
    exact List.take_left' (by rw [List.length_append, hlength, List.length_singleton])
  have hdrop : (front ++ passed ++ x :: back).drop (front.length + passed.length + 1) = back := by
    rw [hnext]
    exact List.drop_left' (by rw [List.length_append, hlength, List.length_singleton])
  have hfront : (front ++ passed ++ x :: back).take front.length = front := by
    rw [List.append_assoc]
    exact List.take_left
  rw [rotate, htake, htake', hdrop, hfront, List.drop_left' hlength, List.drop_left]
  simp

/-- **An element is moved on over what comes after it.** -/
theorem rotate_on :
    rotate front.length (front.length + 1) (front.length + 1 + passed.length)
      (front ++ x :: (passed ++ back)) = front ++ passed ++ x :: back := by
  have hone : (front ++ [x]).length = front.length + 1 := by simp
  have hnext : front ++ x :: (passed ++ back) = (front ++ [x]) ++ passed ++ back := by simp
  have hlast : (front ++ [x] ++ passed).length = front.length + 1 + passed.length := by
    rw [List.length_append, hone]
  have hfront : (front ++ x :: (passed ++ back)).take front.length = front := List.take_left
  have htake : (front ++ x :: (passed ++ back)).take (front.length + 1) = front ++ [x] := by
    rw [hnext, List.append_assoc]
    exact List.take_left' hone
  have htake' : (front ++ x :: (passed ++ back)).take (front.length + 1 + passed.length)
      = front ++ [x] ++ passed := by
    rw [hnext]
    exact List.take_left' hlast
  have hdrop : (front ++ x :: (passed ++ back)).drop (front.length + 1 + passed.length) = back := by
    rw [hnext]
    exact List.drop_left' hlast
  rw [rotate, htake, htake', hdrop, hfront, List.drop_left' hone, List.drop_left]
  simp

end Machinery
