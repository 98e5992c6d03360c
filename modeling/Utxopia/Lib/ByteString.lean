import Mathlib.Data.Nat.Digits.Defs
import Mathlib.Tactic.Common

/-!
Byte strings of fixed length and little-endian numbers.

A slice reads past the end as zero; the programs check lengths before they slice, so the
padding is never seen.
-/

namespace Utxopia.ByteString

/-- A byte array of length `n`. -/
abbrev Bytes (n : ℕ) := Vector UInt8 n

def zeros (n : ℕ) : Bytes n := Vector.replicate n 0

/-- The first `n` bytes of a list, padded with zeros. -/
def ofList (n : ℕ) (l : List UInt8) : Bytes n :=
  ⟨((l ++ List.replicate n 0).take n).toArray, by simp⟩

/-- The `n` bytes of `d` from offset `off`. -/
def slice (n : ℕ) (d : List UInt8) (off : ℕ) : Bytes n := ofList n (d.drop off)

/-- A slice past a prefix. -/
lemma slice_append (n : ℕ) (p d : List UInt8) (off : ℕ) :
    slice n (p ++ d) (p.length + off) = slice n d off := by
  rw [slice, slice, List.drop_append, List.drop_eq_nil_of_le (Nat.le_add_right ..),
    List.nil_append, Nat.add_sub_cancel_left]

/-- A slice at the place of a byte string. -/
lemma slice_toList_append {n : ℕ} (v : Bytes n) (d : List UInt8) : slice n (v.toList ++ d) 0 = v := by
  apply Vector.toList_inj.mp
  simp [slice, ofList, Vector.toList]

/-- A slice does not see the bytes before it. -/
lemma slice_set {n i off : ℕ} (d : List UInt8) (b : UInt8) (h : i < off) :
    slice n (d.set i b) off = slice n d off := by
  rw [slice, slice, List.drop_set_of_lt h]

/-- The number a byte string spells, least significant byte first. -/
def leNat (d : List UInt8) : ℕ := Nat.ofDigits 256 (d.map UInt8.toNat)

def leBytes : ℕ → ℕ → List UInt8
  | 0, _ => []
  | n + 1, v => UInt8.ofNat (v % 256) :: leBytes n (v / 256)

@[simp] lemma length_leBytes (n v : ℕ) : (leBytes n v).length = n := by
  induction n generalizing v with
  | zero => rfl
  | succ n ih => simp [leBytes, ih]

/-- The `n` low bytes of `v`, least significant first. -/
def toLe (n v : ℕ) : Bytes n := ⟨(leBytes n v).toArray, by simp⟩

def u16At (d : List UInt8) (off : ℕ) : ℕ := leNat (slice 2 d off).toList
def u32At (d : List UInt8) (off : ℕ) : ℕ := leNat (slice 4 d off).toList
def u64At (d : List UInt8) (off : ℕ) : ℕ := leNat (slice 8 d off).toList

lemma leNat_lt (d : List UInt8) : leNat d < 256 ^ d.length := by
  have h := Nat.ofDigits_lt_base_pow_length (b := 256) (l := d.map UInt8.toNat) (by omega)
    (by
      intro x hx
      obtain ⟨b, -, rfl⟩ := List.mem_map.mp hx
      exact UInt8.toNat_lt b)
  simpa [leNat] using h

lemma u32At_lt (d : List UInt8) (off : ℕ) : u32At d off < 2 ^ 32 := by
  have := leNat_lt (slice 4 d off).toList
  simpa [u32At] using this

lemma u64At_lt (d : List UInt8) (off : ℕ) : u64At d off < 2 ^ 64 := by
  have := leNat_lt (slice 8 d off).toList
  simpa [u64At] using this

/-- Compare position by position from the most significant end: the first difference
decides, and `tie` answers for equal numbers. -/
def gtRev {α : Type} [LT α] [DecidableLT α] (tie : Bool) (a b : ℕ → α) : ℕ → Bool
  | 0 => tie
  | i + 1 => if b i < a i then true else if a i < b i then false else gtRev tie a b i

/-- Ripple-carry addition, least significant byte first; the last carry is dropped. -/
def addCarry : ℕ → List UInt8 → List UInt8 → List UInt8
  | c, a :: as, b :: bs =>
    let sum := a.toNat + b.toNat + c
    UInt8.ofNat sum :: addCarry (sum / 256) as bs
  | _, _, _ => []

end Utxopia.ByteString
