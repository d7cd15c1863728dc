import Mathlib

namespace NCollectd.BigEndian

open List

abbrev Bytes := List UInt8

def beBytes : Nat → Nat → Bytes
  | 0, _ => []
  | width + 1, n => UInt8.ofNat (n / 256 ^ width) :: beBytes width n

def beNat (bytes : Bytes) : Nat := bytes.foldl (fun n byte => n * 256 + byte.toNat) 0

@[simp] theorem length_beBytes (width n : Nat) : (beBytes width n).length = width := by
  induction width with
  | zero => rfl
  | succ width ih => rw [beBytes, length_cons, ih]

theorem foldl_beBytes (width n start : Nat) :
    (beBytes width n).foldl (fun n byte => n * 256 + byte.toNat) start =
      start * 256 ^ width + n % 256 ^ width := by
  induction width generalizing start with
  | zero => simp [beBytes, Nat.mod_one]
  | succ width ih =>
    have split : n % 256 ^ (width + 1) = n % 256 ^ width + 256 ^ width * (n / 256 ^ width % 256) := by
      rw [Nat.pow_succ, Nat.mod_mul]
    rw [beBytes, foldl_cons, ih, split, UInt8.toNat_ofNat', Nat.pow_succ]
    ring

theorem beNat_beBytes (width n : Nat) : beNat (beBytes width n) = n % 256 ^ width := by
  rw [beNat, foldl_beBytes, zero_mul, zero_add]

theorem beNat_beBytes_of_lt (small : n < 256 ^ width) : beNat (beBytes width n) = n := by
  rw [beNat_beBytes, Nat.mod_eq_of_lt small]

theorem foldl_lt (bytes : Bytes) (start bound : Nat) (low : start < bound) :
    bytes.foldl (fun n byte => n * 256 + byte.toNat) start < bound * 256 ^ bytes.length := by
  induction bytes generalizing start bound with
  | nil => simpa using low
  | cons byte bytes ih =>
    rw [foldl_cons, length_cons, Nat.pow_succ', ← mul_assoc]
    apply ih
    have top := byte.toNat_lt
    omega

theorem beNat_lt (bytes : Bytes) : beNat bytes < 256 ^ bytes.length := by
  simpa [beNat] using foldl_lt bytes 0 1 Nat.zero_lt_one

def bufferNext (b : Bytes) (n : Nat) : Option (Bytes × Bytes) :=
  if b.length < n then none else some (b.take n, b.drop n)

theorem bufferNext_append (length : first.length = n) (rest : Bytes) :
    bufferNext (first ++ rest) n = some (first, rest) := by
  subst length
  simp [bufferNext]

theorem bufferNext_eq_some (taken : bufferNext b n = some (first, rest)) : b = first ++ rest ∧ first.length = n := by
  unfold bufferNext at taken
  split at taken
  · cases taken
  · rename_i enough
    cases taken
    exact ⟨(take_append_drop n b).symm, length_take_of_le (le_of_not_gt enough)⟩

def bufferUint16 (b : Bytes) : Option (Nat × Bytes) := (bufferNext b 2).map fun taken => (beNat taken.1, taken.2)

theorem bufferUint16_append (small : n < 65536) (rest : Bytes) :
    bufferUint16 (beBytes 2 n ++ rest) = some (n, rest) := by
  rw [bufferUint16, bufferNext_append (length_beBytes 2 n), Option.map_some, beNat_beBytes_of_lt small]

theorem bufferUint16_eq_some (taken : bufferUint16 b = some (n, rest)) : b.length = rest.length + 2 := by
  obtain ⟨⟨first, rest'⟩, next, same⟩ := Option.map_eq_some_iff.mp taken
  obtain ⟨whole, length⟩ := bufferNext_eq_some next
  cases same
  rw [whole, length_append, length, add_comm]

def overwrite (b : Bytes) (offset : Nat) (new : Bytes) : Bytes :=
  b.take offset ++ new.take (b.length - offset) ++ b.drop (offset + new.length)

@[simp] theorem length_overwrite (b : Bytes) (offset : Nat) (new : Bytes) :
    (overwrite b offset new).length = b.length := by
  simp only [overwrite, length_append, length_take, length_drop]
  omega

theorem overwrite_append (first : Bytes) (length : new.length = old.length) (rest : Bytes) :
    overwrite (first ++ old ++ rest) first.length new = first ++ new ++ rest := by
  have behind : (first ++ old ++ rest).drop (first.length + new.length) = rest := by
    rw [length, ← length_append, drop_left]
  rw [overwrite, behind, append_assoc first old rest, take_left, length_append,
    Nat.add_sub_cancel_left, take_of_length_le]
  rw [length, length_append]
  exact Nat.le_add_right _ _

theorem overwrite_append_right (front rest : Bytes) (offset : Nat) (new : Bytes) :
    overwrite (front ++ rest) (front.length + offset) new = front ++ overwrite rest offset new := by
  rw [overwrite, overwrite, take_length_add_append, length_append, Nat.add_sub_add_left, add_assoc,
    drop_length_add_append, append_assoc, append_assoc, append_assoc]

theorem overwrite_slice (b : Bytes) (offset n : Nat) : overwrite b offset ((b.drop offset).take n) = b := by
  have same : ((b.drop offset).take n).take (b.length - offset) = (b.drop offset).take n := by
    apply take_of_length_le
    rw [length_take, length_drop]
    exact min_le_right _ _
  have rest : (b.drop offset).drop ((b.drop offset).take n).length = (b.drop offset).drop n := by
    rw [length_take]
    rcases Nat.le_total n (b.drop offset).length with inside | behind
    · rw [min_eq_left inside]
    · rw [min_eq_right behind, drop_of_length_le (le_refl _), drop_of_length_le behind]
  rw [overwrite, same, ← drop_drop, rest, append_assoc, take_append_drop, take_append_drop]

theorem getElem?_overwrite_of_le (b : Bytes) (behind : offset + new.length ≤ i) :
    (overwrite b offset new)[i]? = b[i]? := by
  rcases lt_or_ge i b.length with inside | outside
  · have front : (b.take offset ++ new.take (b.length - offset)).length = offset + new.length := by
      simp only [length_append, length_take]
      omega
    rw [overwrite, getElem?_append_right (by omega), front, getElem?_drop]
    congr 1
    omega
  · rw [getElem?_eq_none outside, getElem?_eq_none (by rwa [length_overwrite])]

theorem take_overwrite (b : Bytes) (new : Bytes) (before : n ≤ offset) (inside : offset ≤ b.length) :
    (overwrite b offset new).take n = b.take n := by
  rw [overwrite, append_assoc, take_append_of_le_length (by rw [length_take]; omega), take_take,
    min_eq_left before]

end NCollectd.BigEndian
