import Mathlib.Algebra.Group.Nat.Defs
import Mathlib.Data.List.Basic

/-!
# Numbers and records as bytes

A number in a fixed number of bytes, least significant byte first, and lists of
records of one size laid out one after the other.
-/

namespace Bytes

def toBytes : Nat → Nat → List UInt8
  | 0, _ => []
  | k + 1, n => UInt8.ofNat n :: toBytes k (n / 256)

def ofBytes : List UInt8 → Nat
  | [] => 0
  | b :: bs => b.toNat + 256 * ofBytes bs

@[simp] theorem length_toBytes (k n : Nat) : (toBytes k n).length = k := by
  induction k generalizing n with
  | zero => rfl
  | succ k ih => rw [toBytes, List.length_cons, ih]

theorem ofBytes_toBytes (k n : Nat) : ofBytes (toBytes k n) = n % 256 ^ k := by
  induction k generalizing n with
  | zero => rw [Nat.pow_zero, Nat.mod_one]; rfl
  | succ k ih =>
    have hb : (UInt8.ofNat n).toNat = n % 256 := UInt8.toNat_ofNat'
    have hp : 256 ^ (k + 1) = 256 * 256 ^ k := by rw [Nat.pow_succ, Nat.mul_comm]
    rw [toBytes, ofBytes, ih, hb, hp, Nat.mod_mul]

theorem ofBytes_toBytes_of_lt {k n : Nat} (h : n < 256 ^ k) : ofBytes (toBytes k n) = n := by
  rw [ofBytes_toBytes, Nat.mod_eq_of_lt h]

/-! ## Records -/

section
variable {α : Type*} (size : Nat) (encode : α → List UInt8) (decode : List UInt8 → α)

def record (bs : List UInt8) (i : Nat) : List UInt8 := (bs.drop (i * size)).take size

def readRecords (count : Nat) (bs : List UInt8) : List α := (List.range count).map fun i => decode (record size bs i)

def writeRecords (xs : List α) : List UInt8 := xs.flatMap encode

variable {size encode decode} (hlen : ∀ x, (encode x).length = size) (hdec : ∀ x, decode (encode x) = x)
include hlen

theorem length_writeRecords (xs : List α) : (writeRecords encode xs).length = xs.length * size := by
  induction xs with
  | nil => simp [writeRecords]
  | cons x xs ih =>
    have h : writeRecords encode (x :: xs) = encode x ++ writeRecords encode xs := rfl
    rw [h, List.length_append, ih, hlen, List.length_cons, Nat.succ_mul, Nat.add_comm]

theorem record_zero (x : α) (xs : List α) : record size (writeRecords encode (x :: xs)) 0 = encode x := by
  have h : writeRecords encode (x :: xs) = encode x ++ writeRecords encode xs := rfl
  rw [record, h, Nat.zero_mul, List.drop_zero]
  exact List.take_left' (hlen x)

theorem record_succ (x : α) (xs : List α) (i : Nat) :
    record size (writeRecords encode (x :: xs)) (i + 1) = record size (writeRecords encode xs) i := by
  have h : writeRecords encode (x :: xs) = encode x ++ writeRecords encode xs := rfl
  rw [record, record, h, Nat.succ_mul, Nat.add_comm, ← List.drop_drop, List.drop_left' (hlen x)]

include hdec

theorem readRecords_writeRecords (xs : List α) :
    readRecords size decode xs.length (writeRecords encode xs) = xs := by
  induction xs with
  | nil => rfl
  | cons x xs ih =>
    rw [readRecords, List.length_cons, List.range_succ_eq_map, List.map_cons, record_zero hlen, hdec, List.map_map]
    have htail : (fun i => decode (record size (writeRecords encode (x :: xs)) i)) ∘ Nat.succ =
        fun i => decode (record size (writeRecords encode xs) i) := by
      funext i
      exact congrArg decode (record_succ hlen x xs i)
    rw [htail]
    exact congrArg (x :: ·) ih

end

end Bytes
