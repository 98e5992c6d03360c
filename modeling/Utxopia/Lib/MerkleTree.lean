import Mathlib.Algebra.GroupWithZero.Nat
import Mathlib.Data.List.Induction
import Mathlib.Data.Nat.Log
import Mathlib.Data.Set.Function
import Mathlib.Tactic.Common

/-!
Merkle trees over lists of any length, and walks up to their root.

A level is the hashes of the pairs of the level below; an odd last entry is paired with itself.
A walk carries one value and meets a sibling at every level, on either side. Nothing tells
leaves from nodes, so a walk may begin above the leaves or go on below them.
-/

namespace Utxopia.MerkleTree

variable {α : Type} {H : α × α → α}

/-- Neighbours two by two, a last one alone with itself. -/
def pairs : List α → List (α × α)
  | a :: b :: rest => (a, b) :: pairs rest
  | [a] => [(a, a)]
  | [] => []

def levelUp (H : α × α → α) (l : List α) : List α := (pairs l).map H

/-- The level `n` above the leaves. -/
def level (H : α × α → α) (l : List α) (n : ℕ) : List α := (levelUp H)^[n] l

def height (l : List α) : ℕ := Nat.clog 2 l.length

def root (H : α × α → α) (l : List α) : Option α := (level H l (height l)).head?

lemma length_pairs (l : List α) : (pairs l).length = (l.length + 1) / 2 := by
  induction l using pairs.induct with
  | case1 a b rest ih =>
    rw [pairs, List.length_cons, ih, List.length_cons, List.length_cons]
    omega
  | case2 a => simp [pairs]
  | case3 => simp [pairs]

@[simp] lemma level_zero (l : List α) : level H l 0 = l := rfl

lemma level_succ (l : List α) (n : ℕ) : level H l (n + 1) = levelUp H (level H l n) :=
  Function.iterate_succ_apply' ..

/-- Enough levels leave one entry. -/
lemma length_level {l : List α} {n : ℕ} (hne : l ≠ []) (hle : l.length ≤ 2 ^ n) :
    (level H l n).length = 1 := by
  induction n generalizing l with
  | zero =>
    have : 0 < l.length := List.length_pos_iff.mpr hne
    rw [level_zero]
    omega
  | succ n ih =>
    have hlen : (levelUp H l).length = (l.length + 1) / 2 := by
      rw [levelUp, List.length_map, length_pairs]
    have hpos : 0 < l.length := List.length_pos_iff.mpr hne
    have hup := ih (l := levelUp H l) (List.length_pos_iff.mp (by omega)) (by rw [Nat.pow_succ] at hle; omega)
    rwa [level, Function.iterate_succ_apply]

/-- The root is the one entry of the top level. -/
lemma top_level {l : List α} (hne : l ≠ []) {r : α} (hr : root H l = some r) :
    level H l (height l) = [r] := by
  have hlen : (level H l (height l)).length = 1 := length_level hne (Nat.le_pow_clog (by decide) _)
  obtain ⟨x, hx⟩ := List.length_eq_one_iff.mp hlen
  rw [root, hx, List.head?_cons, Option.some.injEq] at hr
  rw [hx, hr]

lemma mem_pairs {l : List α} {q : α × α} (h : q ∈ pairs l) : q.1 ∈ l ∧ q.2 ∈ l := by
  induction l using pairs.induct with
  | case1 a b rest ih =>
    rw [pairs, List.mem_cons] at h
    rcases h with rfl | h
    · simp
    · obtain ⟨h1, h2⟩ := ih h
      exact ⟨by simp [h1], by simp [h2]⟩
  | case2 a =>
    rw [pairs, List.mem_singleton] at h
    simp [h]
  | case3 => exact absurd h List.not_mem_nil

/-! ### Walks -/

/-- The value with its sibling; the side says that the value is on the right. -/
def ordered (side : Bool) (x sibling : α) : α × α := if side then (sibling, x) else (x, sibling)

def walk (H : α × α → α) (x : α) (path : List (Bool × α)) : α :=
  path.foldl (fun c q => H (ordered q.1 c q.2)) x

/-- The pairs a walk hashes. -/
def walkPairs (H : α × α → α) : α → List (Bool × α) → List (α × α)
  | _, [] => []
  | x, q :: path => ordered q.1 x q.2 :: walkPairs H (H (ordered q.1 x q.2)) path

lemma walk_concat (x : α) (path : List (Bool × α)) (q : Bool × α) :
    walk H x (path ++ [q]) = H (ordered q.1 (walk H x path) q.2) := by
  simp [walk]

lemma walk_append (x : α) (p q : List (Bool × α)) : walk H x (p ++ q) = walk H (walk H x p) q :=
  List.foldl_append ..

lemma walkPairs_append (x : α) (p q : List (Bool × α)) :
    walkPairs H x (p ++ q) = walkPairs H x p ++ walkPairs H (walk H x p) q := by
  induction p generalizing x with
  | nil => rfl
  | cons e p ih => rw [List.cons_append, walkPairs, walkPairs, ih, List.cons_append]; rfl

lemma mem_of_ordered {side : Bool} {x sibling : α} {q : α × α} {l : List α}
    (h : ordered side x sibling = q) (h1 : q.1 ∈ l) (h2 : q.2 ∈ l) : x ∈ l := by
  subst h
  cases side
  · exact h1
  · exact h2

/-- An entry is one of a pair. -/
lemma exists_pair {l : List α} {x : α} (h : x ∈ l) : ∃ side sibling, ordered side x sibling ∈ pairs l := by
  induction l using pairs.induct with
  | case1 a b rest ih =>
    rcases List.mem_cons.mp h with rfl | h
    · exact ⟨false, b, List.mem_cons_self⟩
    rcases List.mem_cons.mp h with rfl | h
    · exact ⟨true, a, List.mem_cons_self⟩
    · obtain ⟨side, sibling, hmem⟩ := ih h
      exact ⟨side, sibling, List.mem_cons_of_mem _ hmem⟩
  | case2 a =>
    obtain rfl := List.mem_singleton.mp h
    exact ⟨false, x, List.mem_singleton_self _⟩
  | case3 => exact absurd h List.not_mem_nil

/-- The pairs hashed below a level. -/
def pairsBelow (H : α × α → α) (l : List α) (n : ℕ) : Set (α × α) :=
  {q | ∃ m, m < n ∧ q ∈ pairs (level H l m)}

lemma pairsBelow_mono {l : List α} {m n : ℕ} (h : m ≤ n) : pairsBelow H l m ⊆ pairsBelow H l n :=
  fun _ ⟨k, hk, hq⟩ => ⟨k, hk.trans_le h, hq⟩

/-- **Every leaf has a walk** to any level, over pairs of the tree. -/
theorem exists_walk {l : List α} {x : α} (h : x ∈ l) (n : ℕ) : ∃ path, path.length = n ∧
    walk H x path ∈ level H l n ∧ ∀ q ∈ walkPairs H x path, q ∈ pairsBelow H l n := by
  induction n with
  | zero => exact ⟨[], rfl, h, fun q hq => absurd hq List.not_mem_nil⟩
  | succ n ih =>
    obtain ⟨path, hlen, hmem, hall⟩ := ih
    obtain ⟨side, sibling, hpair⟩ := exists_pair hmem
    refine ⟨path ++ [(side, sibling)], by simp [hlen], ?_, fun q hq => ?_⟩
    · rw [walk_concat, level_succ]
      exact List.mem_map_of_mem hpair
    · rw [walkPairs_append, List.mem_append] at hq
      rcases hq with hq | hq
      · exact pairsBelow_mono (Nat.le_succ n) (hall q hq)
      · obtain rfl : q = ordered side (walk H x path) sibling := by simpa [walkPairs] using hq
        exact ⟨n, Nat.lt_succ_self n, hpair⟩

/-- **A walk that ends in the tree was in the tree** on its last steps, where the hash tells the
pairs involved apart. -/
theorem walk_mem_of_walk_append {Q : Set (α × α)} (hinj : Set.InjOn H Q) {l : List α} {n : ℕ}
    (htree : pairsBelow H l n ⊆ Q) {x : α} {p r : List (Bool × α)} (hr : r.length ≤ n)
    (hwalk : ∀ q ∈ walkPairs H x (p ++ r), q ∈ Q) (h : walk H x (p ++ r) ∈ level H l n) :
    walk H x p ∈ level H l (n - r.length) := by
  induction r using List.reverseRecOn generalizing n with
  | nil => simpa using h
  | append_singleton r e ih =>
    rw [List.length_append, List.length_singleton] at hr ⊢
    obtain ⟨k, rfl⟩ : ∃ k, n = k + 1 := ⟨n - 1, by omega⟩
    rw [← List.append_assoc, walk_concat, level_succ] at h
    rw [← List.append_assoc] at hwalk
    obtain ⟨q, hq, heq⟩ := List.mem_map.mp h
    have hlast : ordered e.1 (walk H x (p ++ r)) e.2 ∈ Q := hwalk _ (by
      rw [walkPairs_append]
      exact List.mem_append_right _ List.mem_cons_self)
    have hsame := hinj hlast (htree ⟨k, Nat.lt_succ_self k, hq⟩) heq.symm
    obtain ⟨h1, h2⟩ := mem_pairs hq
    have hmem : walk H x (p ++ r) ∈ level H l k := mem_of_ordered hsame h1 h2
    have hbelow := ih ((pairsBelow_mono (Nat.le_succ k)).trans htree) (by omega)
      (fun q hq => hwalk q (by
        rw [walkPairs_append]
        exact List.mem_append_left _ hq)) hmem
    rwa [show k + 1 - (r.length + 1) = k - r.length by omega]

/-! ### Where a walk begins -/

/-- The index among the leaves of a walk to the root. Where the sibling is the value itself there is
one entry only, whatever the side. -/
def walkIndex [DecidableEq α] (H : α × α → α) : α → List (Bool × α) → ℕ
  | _, [] => 0
  | x, q :: path => 2 * walkIndex H (H (ordered q.1 x q.2)) path + if q.1 ∧ q.2 ≠ x then 1 else 0

lemma getElem_of_pairs {l : List α} {i : ℕ} {q : α × α} (h : (pairs l)[i]? = some q) :
    l[2 * i]? = some q.1 ∧ (l[2 * i + 1]? = some q.2 ∨ q.2 = q.1) := by
  induction l using pairs.induct generalizing i with
  | case1 a b rest ih =>
    cases i with
    | zero =>
      obtain rfl := Option.some_inj.mp h
      exact ⟨rfl, .inl rfl⟩
    | succ i => exact ih h
  | case2 a =>
    obtain rfl : i = 0 := by
      have := (List.getElem?_eq_some_iff.mp h).1
      simpa [pairs] using this
    obtain rfl := Option.some_inj.mp h
    exact ⟨rfl, .inr rfl⟩
  | case3 => exact absurd h (by simp [pairs])

/-- An ordered pair of a level has its value at the index that its side gives. -/
lemma getElem_of_ordered [DecidableEq α] {l : List α} {i : ℕ} {x : α} {q : Bool × α}
    (h : (pairs l)[i]? = some (ordered q.1 x q.2)) :
    l[2 * i + if q.1 ∧ q.2 ≠ x then 1 else 0]? = some x := by
  obtain ⟨hfst, hsnd⟩ := getElem_of_pairs h
  obtain ⟨side, sibling⟩ := q
  cases side with
  | false => simpa [ordered] using hfst
  | true =>
    by_cases heq : sibling = x
    · simpa [ordered, heq] using hfst
    · have hright : l[2 * i + 1]? = some x := hsnd.resolve_right fun h => heq h.symm
      simpa [heq] using hright

/-- **A walk begins at its index**: it leads from there to the entry it ends at. -/
theorem getElem_walkIndex [DecidableEq α] {Q : Set (α × α)} (hinj : Set.InjOn H Q) {l : List α}
    {n : ℕ} (htree : pairsBelow H l n ⊆ Q) {path : List (Bool × α)} {x : α} {m j : ℕ}
    (hn : m + path.length = n) (hwalk : ∀ q ∈ walkPairs H x path, q ∈ Q)
    (h : (level H l n)[j]? = some (walk H x path)) :
    (level H l m)[2 ^ path.length * j + walkIndex H x path]? = some x := by
  induction path generalizing x m with
  | nil =>
    obtain rfl : m = n := hn
    simpa [walkIndex, walk] using h
  | cons q path ih =>
    rw [List.length_cons] at hn
    have hup := ih (m := m + 1) (by omega) (fun p hp => hwalk p (List.mem_cons_of_mem _ hp)) h
    rw [level_succ, levelUp, List.getElem?_map, Option.map_eq_some_iff] at hup
    obtain ⟨p, hp, heq⟩ := hup
    have hmem : p ∈ Q := htree ⟨m, by omega, List.mem_of_getElem? hp⟩
    obtain rfl := hinj hmem (hwalk _ List.mem_cons_self) heq
    have hbelow := getElem_of_ordered hp
    rwa [show 2 ^ (q :: path).length * j + walkIndex H x (q :: path) =
      2 * (2 ^ path.length * j + walkIndex H (H (ordered q.1 x q.2)) path) +
        if q.1 ∧ q.2 ≠ x then 1 else 0 by
          rw [List.length_cons, walkIndex, pow_succ', Nat.mul_assoc, ← Nat.add_assoc, ← Nat.mul_add]]

/-! ### Branches -/

/-- The neighbour of an entry in its pair; a last one alone is its own. -/
def siblingAt (l : List α) (i : ℕ) : Option α :=
  l[if i % 2 = 0 then i + 1 else i - 1]? <|> l[i]?

/-- The walk from the entry at an index over `n` levels of the tree. -/
def branch (H : α × α → α) : ℕ → List α → ℕ → List (Bool × α)
  | 0, _, _ => []
  | n + 1, l, i =>
    match siblingAt l i with
    | some sibling => (decide (i % 2 = 1), sibling) :: branch H n (levelUp H l) (i / 2)
    | none => []

lemma siblingAt_cons_cons (a b : α) (rest : List α) (i : ℕ) :
    siblingAt (a :: b :: rest) (i + 2) = siblingAt rest i := by
  unfold siblingAt
  rw [Nat.add_mod_right, List.getElem?_cons_succ, List.getElem?_cons_succ]
  split_ifs with h
  · rw [List.getElem?_cons_succ, List.getElem?_cons_succ]
  · obtain ⟨j, rfl⟩ : ∃ j, i = j + 1 := ⟨i - 1, by omega⟩
    rw [show j + 1 + 2 - 1 = j + 2 by omega, List.getElem?_cons_succ, List.getElem?_cons_succ,
      Nat.add_sub_cancel]

/-- An entry and its sibling, in their order, are the pair at half the index. -/
lemma pairs_getElem {l : List α} {i : ℕ} {x : α} (h : l[i]? = some x) : ∃ sibling,
    siblingAt l i = some sibling ∧
      (pairs l)[i / 2]? = some (ordered (decide (i % 2 = 1)) x sibling) := by
  induction l using pairs.induct generalizing i with
  | case1 a b rest ih =>
    match i with
    | 0 =>
      obtain rfl := Option.some_inj.mp h
      exact ⟨b, rfl, rfl⟩
    | 1 =>
      obtain rfl := Option.some_inj.mp h
      exact ⟨a, rfl, rfl⟩
    | i + 2 =>
      obtain ⟨sibling, hsib, hpair⟩ := ih (i := i) (by simpa using h)
      refine ⟨sibling, (siblingAt_cons_cons a b rest i).trans hsib, ?_⟩
      rw [Nat.add_mod_right, show (i + 2) / 2 = i / 2 + 1 by omega]
      exact hpair
  | case2 a =>
    obtain rfl : i = 0 := by
      have := (List.getElem?_eq_some_iff.mp h).1
      simpa using this
    obtain rfl := Option.some_inj.mp h
    exact ⟨a, rfl, rfl⟩
  | case3 => exact absurd h (by simp)

/-- **A branch leads up**: the walk of an entry's branch is at its ancestor. -/
theorem walk_branch {n : ℕ} {l : List α} {i : ℕ} {x : α} (h : l[i]? = some x) :
    (level H l n)[i / 2 ^ n]? = some (walk H x (branch H n l i)) ∧ (branch H n l i).length = n := by
  induction n generalizing l i x with
  | zero => simpa [branch, walk] using h
  | succ n ih =>
    obtain ⟨sibling, hsib, hpair⟩ := pairs_getElem h
    have hup : (levelUp H l)[i / 2]? = some (H (ordered (decide (i % 2 = 1)) x sibling)) := by
      rw [levelUp, List.getElem?_map, hpair, Option.map_some]
    obtain ⟨hwalk, hlen⟩ := ih hup
    rw [branch, hsib]
    refine ⟨?_, by simp [hlen]⟩
    rw [level, Function.iterate_succ_apply, Nat.pow_succ', ← Nat.div_div_eq_div_mul]
    exact hwalk

/-- **A branch ends at the root**, from every leaf. -/
theorem root_branch {l : List α} {i : ℕ} {x : α} (h : l[i]? = some x) :
    root H l = some (walk H x (branch H (height l) l i)) := by
  have hne : l ≠ [] := by
    rintro rfl
    exact absurd h (by simp)
  have hlen : (level H l (height l)).length = 1 := length_level hne (Nat.le_pow_clog (by decide) _)
  obtain ⟨hwalk, -⟩ := walk_branch (H := H) (n := height l) h
  have htop : i / 2 ^ height l = 0 := by
    obtain ⟨hlt, -⟩ := List.getElem?_eq_some_iff.mp hwalk
    rw [hlen] at hlt
    exact Nat.lt_one_iff.mp hlt
  rw [htop] at hwalk
  rw [root, List.head?_eq_getElem?, hwalk]

end Utxopia.MerkleTree
