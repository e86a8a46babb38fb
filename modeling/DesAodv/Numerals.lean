import Mathlib.Algebra.Group.Int.Defs
import Mathlib.Data.Int.Basic
import Mathlib.Algebra.Group.Nat.Defs

/-!
# Numbers on a command line

`strtoul`, `strtol` and `sscanf` with a decimal conversion, for a `long` of `w`
bits, and the numerals that `printf` writes.
-/

namespace Numerals

def isSpace (c : Char) : Bool := decide (c.toNat = 32) || decide (9 ≤ c.toNat ∧ c.toNat ≤ 13)

/-- What `strtol` converts: whether there is a minus, and the digits. Whatever follows them is not read. -/
def subject (s : List Char) : Bool × List Char :=
  match s.dropWhile isSpace with
  | '-' :: s => (true, s.takeWhile Char.isDigit)
  | '+' :: s => (false, s.takeWhile Char.isDigit)
  | s => (false, s.takeWhile Char.isDigit)

section
variable (w : Nat)

/-- Out of range the largest value is returned; a minus negates the value as an `unsigned long`. -/
def strtoul (s : List Char) : Nat :=
  let (minus, digits) := subject s
  let value := Nat.ofDigitChars 10 digits 0
  if 2 ^ w ≤ value then 2 ^ w - 1
  else if minus then (2 ^ w - value) % 2 ^ w
  else value

/-- Out of range the nearest value is returned. -/
def strtol (s : List Char) : Int :=
  let (minus, digits) := subject s
  let value : Int := Nat.ofDigitChars 10 digits 0
  max (-2 ^ (w - 1)) (min (if minus then -value else value) (2 ^ (w - 1) - 1))

/-- `sscanf(s, "%u", &v) == 1`, and the value of `v`, which is cut off. -/
def sscanfU (s : List Char) : Option UInt32 :=
  if (subject s).2 = [] then none else some (UInt32.ofNat (strtoul w s))

end

/-- `%u` and the like. -/
def printU (n : Nat) : List Char := Nat.toDigits 10 n

/-- `%d` and the like. -/
def printD (i : Int) : List Char := if i < 0 then '-' :: printU i.natAbs else printU i.natAbs

/-! ## Reading what was written -/

theorem printU_digit {n : Nat} {c : Char} (h : c ∈ printU n) : c.isDigit = true :=
  Nat.isDigit_of_mem_toDigits (by decide) (by decide) h

theorem takeWhile_printU (n : Nat) : (printU n).takeWhile Char.isDigit = printU n := by
  have h := @List.takeWhile_append_of_pos _ Char.isDigit (printU n) [] fun _ hc => printU_digit hc
  simpa using h

theorem digit_not_space {c : Char} (h : c.isDigit = true) : isSpace c = false := by
  rw [Char.isDigit_iff_toNat] at h
  have h0 : '0'.toNat = 48 := rfl
  have h9 : '9'.toNat = 57 := rfl
  simp only [isSpace, Bool.or_eq_false_iff, decide_eq_false_iff_not]
  omega

theorem subject_of_digit {c : Char} {s : List Char} (h : c.isDigit = true) :
    subject (c :: s) = (false, (c :: s).takeWhile Char.isDigit) := by
  have hs : (c :: s).dropWhile isSpace = c :: s := by simp [digit_not_space h]
  rw [subject, hs]
  split
  · rename_i heq
    obtain ⟨rfl, -⟩ := List.cons.inj heq
    exact absurd h (by decide)
  · rename_i heq
    obtain ⟨rfl, -⟩ := List.cons.inj heq
    exact absurd h (by decide)
  · rfl

theorem subject_printU (n : Nat) : subject (printU n) = (false, printU n) := by
  obtain ⟨c, s, hcs⟩ := List.exists_cons_of_ne_nil (Nat.toDigits_ne_nil : Nat.toDigits 10 n ≠ [])
  have hc : c.isDigit = true := printU_digit (n := n) (by rw [printU, hcs]; exact List.mem_cons_self)
  have htake := takeWhile_printU n
  rw [printU, hcs] at htake ⊢
  rw [subject_of_digit hc, htake]

theorem subject_minus (n : Nat) : subject ('-' :: printU n) = (true, printU n) := by
  have hs : ('-' :: printU n).dropWhile isSpace = '-' :: printU n := by
    have hminus : isSpace '-' = false := by decide
    simp [hminus]
  rw [subject, hs]
  simp only [takeWhile_printU]

theorem value_printU (n : Nat) : Nat.ofDigitChars 10 (printU n) 0 = n := Nat.ofDigitChars_ten_toDigits

theorem strtoul_printU {w n : Nat} (h : n < 2 ^ w) : strtoul w (printU n) = n := by
  simp only [strtoul, subject_printU, value_printU, if_neg (Nat.not_le.mpr h), Bool.false_eq_true, if_false]

theorem strtol_printD {w : Nat} {i : Int} (hlo : -2 ^ (w - 1) ≤ i) (hhi : i < 2 ^ (w - 1)) :
    strtol w (printD i) = i := by
  have hclamp : max (-2 ^ (w - 1)) (min i (2 ^ (w - 1) - 1)) = i := by omega
  unfold printD
  by_cases hneg : i < 0
  · have habs : -(i.natAbs : Int) = i := by omega
    rw [if_pos hneg, strtol, subject_minus]
    simp only [value_printU, if_true, habs, hclamp]
  · have habs : (i.natAbs : Int) = i := by omega
    rw [if_neg hneg, strtol, subject_printU]
    simp only [value_printU, Bool.false_eq_true, if_false, habs, hclamp]

theorem strtol_printU {w n : Nat} (h : n < 2 ^ (w - 1)) : strtol w (printU n) = n := by
  have hd : printD (n : Int) = printU n := by
    rw [printD, if_neg (Int.not_lt.mpr (Int.natCast_nonneg n)), Int.natAbs_natCast]
  rw [← hd]
  have hpow : (0 : Int) ≤ 2 ^ (w - 1) := Int.pow_nonneg (by decide)
  have hlt : (n : Int) < 2 ^ (w - 1) := by exact_mod_cast h
  exact strtol_printD (by omega) hlt

end Numerals
