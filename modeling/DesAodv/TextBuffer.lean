import Mathlib.Algebra.Order.Ring.Nat
import Mathlib.Data.Nat.Log
import Mathlib.Data.String.Lemmas
import Mathlib.Tactic.Common

/-!
# Texts in buffers of a fixed size

A text that grows at its end in a buffer whose size was fixed before. It ends
with a zero, which takes a place of its own. The length of a decimal number and
of a text that is cut off are known.
-/

/-- `overrun` is set by the first write behind the end. -/
structure TextBuffer where
  size : Nat
  text : String
  overrun : Bool
  overrun_iff : overrun = true ↔ size < text.length + 1

namespace TextBuffer

/-- The empty text is only its zero. -/
def alloc (size : Nat) : TextBuffer :=
  { size, text := "", overrun := decide (size < 1), overrun_iff := decide_eq_true_iff }

def strcat (b : TextBuffer) (s : String) : TextBuffer where
  size := b.size
  text := b.text ++ s
  overrun := b.overrun || decide (b.size < (b.text ++ s).length + 1)
  overrun_iff := by
    rw [Bool.or_eq_true, decide_eq_true_iff, b.overrun_iff, String.length_append]
    omega

def Fits (b : TextBuffer) : Prop := b.text.length + 1 ≤ b.size

theorem fits_iff {b : TextBuffer} : b.Fits ↔ b.overrun = false := by
  rw [Fits, ← Bool.not_eq_true, b.overrun_iff, Nat.not_lt]

@[simp] theorem alloc_size (size : Nat) : (alloc size).size = size := rfl
@[simp] theorem alloc_length (size : Nat) : (alloc size).text.length = 0 := rfl
@[simp] theorem strcat_size (b : TextBuffer) (s : String) : (b.strcat s).size = b.size := rfl

@[simp] theorem strcat_length (b : TextBuffer) (s : String) :
    (b.strcat s).text.length = b.text.length + s.length := String.length_append b.text s

section
variable {α : Type*} {append : TextBuffer → α → TextBuffer} {k : α → Nat}

theorem foldl_fits (hl : ∀ b a, (append b a).text.length = b.text.length + k a)
    (hs : ∀ b a, (append b a).size = b.size) (l : List α) (b : TextBuffer) :
    (l.foldl append b).Fits ↔ b.text.length + (l.map k).sum < b.size := by
  induction l generalizing b with
  | nil => exact Nat.add_one_le_iff
  | cons a l ih => rw [List.foldl_cons, ih, hs, hl, List.map_cons, List.sum_cons, Nat.add_assoc]

end

end TextBuffer

/-! ## Formatted texts -/

namespace Printf

/-- What `snprintf` leaves of a text in an array of the given size. -/
def snprintf (size : Nat) (s : String) : String := String.ofList (s.toList.take (size - 1))

theorem length_snprintf (size : Nat) (s : String) : (snprintf size s).length = min (size - 1) s.length := by
  rw [snprintf, String.length_ofList, List.length_take, String.length_toList]

def decimalLength (n : Nat) : Nat := Nat.log 10 n + 1

theorem decimalLength_le_iff {n k : Nat} (hk : 0 < k) : decimalLength n ≤ k ↔ n < 10 ^ k := by
  rcases Nat.eq_zero_or_pos n with rfl | hn
  · exact iff_of_true hk (Nat.pow_pos (by decide))
  · rw [decimalLength, Nat.add_one_le_iff, Nat.log_lt_iff_lt_pow (by decide) (Nat.ne_of_gt hn)]

theorem length_toString (n : Nat) : (toString n).length = decimalLength n := by
  have hpos : 0 < (toString n).length := Nat.length_repr_pos
  have hpos' : 0 < decimalLength n := Nat.succ_pos _
  apply Nat.le_antisymm
  · exact (Nat.length_repr_le_iff hpos').mpr ((decimalLength_le_iff hpos').mp (Nat.le_refl _))
  · exact (decimalLength_le_iff hpos).mpr ((Nat.length_repr_le_iff hpos).mp (Nat.le_refl _))

end Printf
