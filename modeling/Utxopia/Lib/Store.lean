import Mathlib.Algebra.BigOperators.Group.Finset.Basic
import Mathlib.Algebra.Order.BigOperators.Group.Finset

/-!
A store: a value under every key, the default value under all but finitely many.

Writing one key changes the sum of a measure over all entries by the new value's measure
minus the old one's. Every conservation argument about a ledger kept in stores is an
application of this exchange.
-/

namespace Utxopia

variable {K V : Type}

/-! ### Maps -/

/-- An entry, after one is written, is that one or an old one. -/
lemma update_eq_some [DecidableEq K] {f : K → Option V} {k j : K} {v w : V} :
    Function.update f k (some v) j = some w ↔ j = k ∧ w = v ∨ j ≠ k ∧ f j = some w := by
  rcases eq_or_ne j k with rfl | hne
  · simp [eq_comm]
  · simp [hne]

/-- An entry, after one is removed, is another one. -/
lemma update_none_eq_some [DecidableEq K] {f : K → Option V} {k j : K} {w : V} :
    Function.update f k none j = some w ↔ j ≠ k ∧ f j = some w := by
  rcases eq_or_ne j k with rfl | hne
  · simp
  · simp [hne]

/-! ### Stores -/

/-- Values under keys, of which only those in `dom` may differ from the default. -/
structure Store (K V : Type) [Inhabited V] where
  get : K → V
  dom : Finset K
  outside : ∀ k, k ∉ dom → get k = default

namespace Store

variable [Inhabited V]

def empty : Store K V := ⟨fun _ => default, ∅, fun _ _ => rfl⟩

lemma ext {l l' : Store K V} (hget : ∀ k, l.get k = l'.get k) (hdom : l.dom = l'.dom) : l = l' := by
  obtain ⟨get, dom, outside⟩ := l
  obtain ⟨get', dom', outside'⟩ := l'
  obtain rfl : get = get' := funext hget
  obtain rfl : dom = dom' := hdom
  rfl

/-- Change all values; the default value stays the default. -/
def map {W : Type} [Inhabited W] (f : V → W) (hf : f default = default) (l : Store K V) :
    Store K W where
  get k := f (l.get k)
  dom := l.dom
  outside k hk := by rw [l.outside k hk, hf]

@[simp] lemma get_empty (k : K) : (empty : Store K V).get k = default := rfl

variable [DecidableEq K]

def set (s : Store K V) (k : K) (v : V) : Store K V where
  get := Function.update s.get k v
  dom := insert k s.dom
  outside := by
    intro j hj
    rw [Finset.mem_insert, not_or] at hj
    rw [Function.update_of_ne hj.1, s.outside j hj.2]

@[simp] lemma get_set_self (s : Store K V) (k : K) (v : V) : (s.set k v).get k = v := by
  simp [set]

lemma get_set_of_ne (s : Store K V) {k j : K} (v : V) (h : j ≠ k) :
    (s.set k v).get j = s.get j := by
  simp [set, h]

lemma get_set (s : Store K V) (k j : K) (v : V) :
    (s.set k v).get j = if j = k then v else s.get j := by
  rcases eq_or_ne j k with rfl | h
  · simp
  · rw [get_set_of_ne s v h, if_neg h]

lemma map_set {W : Type} [Inhabited W] {f : V → W} {hf : f default = default} (l : Store K V)
    (k : K) (v : V) : (l.set k v).map f hf = (l.map f hf).set k (f v) := by
  refine ext (fun j => ?_) rfl
  rw [get_set (l.map f hf)]
  change f ((l.set k v).get j) = if j = k then f v else f (l.get j)
  rw [get_set, apply_ite f]

/-! ### Sums over all entries -/

/-- The sum of a measure over all entries. -/
def sum (s : Store K V) (f : K → V → ℕ) : ℕ := ∑ k ∈ s.dom, f k (s.get k)

/-- The default value does not count. -/
def Measure (f : K → V → ℕ) : Prop := ∀ k, f k default = 0

variable {f g : K → V → ℕ}

omit [DecidableEq K] in
@[simp] lemma sum_empty : (empty : Store K V).sum f = 0 := rfl

omit [DecidableEq K] in
/-- Any finite set that holds the domain gives the same sum. -/
lemma sum_eq_of_subset (hf : Measure f) (s : Store K V) {D : Finset K} (hD : s.dom ⊆ D) :
    s.sum f = ∑ k ∈ D, f k (s.get k) := by
  refine Finset.sum_subset hD fun k _ hk => ?_
  rw [s.outside k hk, hf k]

/-- **Exchange**: a write trades the old value's measure for the new one's. -/
theorem sum_set (hf : Measure f) (s : Store K V) (k : K) (v : V) :
    (s.set k v).sum f + f k (s.get k) = s.sum f + f k v := by
  have hold : s.sum f = ∑ j ∈ insert k s.dom, f j (s.get j) :=
    sum_eq_of_subset hf s (Finset.subset_insert k s.dom)
  have hnew : (s.set k v).sum f = ∑ j ∈ insert k s.dom, f j ((s.set k v).get j) := rfl
  rw [hold, hnew, ← Finset.add_sum_erase _ _ (Finset.mem_insert_self k s.dom),
    ← Finset.add_sum_erase (insert k s.dom) (fun j => f j (s.get j))
      (Finset.mem_insert_self k s.dom)]
  have hrest : ∑ j ∈ (insert k s.dom).erase k, f j ((s.set k v).get j) =
      ∑ j ∈ (insert k s.dom).erase k, f j (s.get j) := by
    refine Finset.sum_congr rfl fun j hj => ?_
    rw [get_set_of_ne s v (Finset.ne_of_mem_erase hj)]
  rw [hrest, get_set_self]
  omega

/-- Stores whose entries measure alike have the same sum. -/
lemma sum_congr (hf : Measure f) (hg : Measure g) {s t : Store K V}
    (h : ∀ k, f k (s.get k) = g k (t.get k)) : s.sum f = t.sum g := by
  have hs : s.dom ⊆ s.dom ∪ t.dom := Finset.subset_union_left
  have ht : t.dom ⊆ s.dom ∪ t.dom := Finset.subset_union_right
  rw [sum_eq_of_subset hf s hs, sum_eq_of_subset hg t ht]
  exact Finset.sum_congr rfl fun k _ => h k

/-- An entry is at most the sum. -/
lemma le_sum (hf : Measure f) (s : Store K V) (k : K) : f k (s.get k) ≤ s.sum f := by
  by_cases hk : k ∈ s.dom
  · exact Finset.single_le_sum (f := fun k => f k (s.get k)) (fun _ _ => Nat.zero_le _) hk
  · rw [s.outside k hk, hf k]
    exact Nat.zero_le _

omit [DecidableEq K] in
lemma sum_le_sum {f g : K → V → ℕ} (s : Store K V) (h : ∀ k, f k (s.get k) ≤ g k (s.get k)) :
    s.sum f ≤ s.sum g :=
  Finset.sum_le_sum fun k _ => h k

omit [DecidableEq K] in
/-- Nothing counts if no entry does. -/
lemma sum_eq_zero (s : Store K V) (h : ∀ k, f k (s.get k) = 0) : s.sum f = 0 :=
  Finset.sum_eq_zero fun k _ => h k

omit [DecidableEq K] in
/-- A positive sum has a positive entry. -/
lemma exists_of_sum_pos (s : Store K V) (h : 0 < s.sum f) : ∃ k, 0 < f k (s.get k) := by
  by_contra hn
  push Not at hn
  have := sum_eq_zero s (f := f) fun k => Nat.le_zero.mp (hn k)
  omega

end Store

end Utxopia
