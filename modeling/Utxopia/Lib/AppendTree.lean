import Mathlib.Data.List.GetD
import Mathlib.Tactic.Common
import Mathlib.Tactic.Ring

/-!
Append-only Merkle trees of a fixed depth.

A tree is a list of leaves; the places after the list hold the empty leaf. To append one needs
only the right edge: on every level the last left node that still waits for its neighbour. A
walk over the neighbours of a leaf gives the root.
-/

namespace Utxopia.AppendTree

variable {α : Type} {H : α → α → α} {z : α} {leaves : List α} {x : α} {l i n : ℕ}

/-- The root of a subtree of empty leaves. -/
def emptyNode (H : α → α → α) (z : α) : ℕ → α
  | 0 => z
  | l + 1 => H (emptyNode H z l) (emptyNode H z l)

/-- Node `i` of the level `l` above the leaves. -/
def node (H : α → α → α) (z : α) (leaves : List α) : ℕ → ℕ → α
  | 0, i => leaves.getD i z
  | l + 1, i => H (node H z leaves l (2 * i)) (node H z leaves l (2 * i + 1))

def root (H : α → α → α) (z : α) (depth : ℕ) (leaves : List α) : α := node H z leaves depth 0

/-- A node with no leaf below it is empty. -/
lemma node_of_empty (h : leaves.length ≤ i * 2 ^ l) : node H z leaves l i = emptyNode H z l := by
  induction l generalizing i with
  | zero =>
    rw [node, emptyNode, List.getD_eq_default]
    simpa using h
  | succ l ih =>
    have hpow : i * 2 ^ (l + 1) = 2 * i * 2 ^ l := by rw [Nat.pow_succ]; ring
    have hle : 2 * i * 2 ^ l ≤ (2 * i + 1) * 2 ^ l := Nat.mul_le_mul_right _ (Nat.le_succ _)
    rw [hpow] at h
    rw [node, emptyNode, ih h, ih (h.trans hle)]

lemma root_nil (depth : ℕ) : root H z depth [] = emptyNode H z depth := node_of_empty (Nat.zero_le _)

/-- A node whose leaves are all placed stays as it is. -/
lemma node_append {more : List α} (h : (i + 1) * 2 ^ l ≤ leaves.length) :
    node H z (leaves ++ more) l i = node H z leaves l i := by
  induction l generalizing i with
  | zero =>
    have hi : i < leaves.length := by simpa [Nat.succ_le_iff] using h
    rw [node, node, List.getD_append _ _ _ _ hi]
  | succ l ih =>
    have hpow : (i + 1) * 2 ^ (l + 1) = (2 * i + 1 + 1) * 2 ^ l := by rw [Nat.pow_succ]; ring
    have hle : (2 * i + 1) * 2 ^ l ≤ (2 * i + 1 + 1) * 2 ^ l := Nat.mul_le_mul_right _ (Nat.le_succ _)
    rw [hpow] at h
    rw [node, node, ih h, ih (hle.trans h)]

/-! ### The climb of a new leaf -/

/-- On the way up from the leaf `n`, the node reached on a level. -/
def climbed (H : α → α → α) (z : α) (leaves : List α) (x : α) (l : ℕ) : α :=
  node H z (leaves ++ [x]) l (leaves.length / 2 ^ l)

lemma climbed_zero : climbed H z leaves x 0 = x := by
  simp [climbed, node]

lemma div_pow_succ (n l : ℕ) : n / 2 ^ (l + 1) = n / 2 ^ l / 2 := by
  rw [Nat.pow_succ, Nat.div_div_eq_div_mul]

lemma one_le_of_odd (h : n % 2 = 1) : 1 ≤ n := by omega

/-- A left node is paired with the empty one. -/
lemma climbed_left (h : leaves.length / 2 ^ l % 2 = 0) :
    H (climbed H z leaves x l) (emptyNode H z l) = climbed H z leaves x (l + 1) := by
  have hlt : leaves.length < (leaves.length / 2 ^ l + 1) * 2 ^ l := by
    have := Nat.lt_div_mul_add (Nat.two_pow_pos l) (a := leaves.length)
    rwa [Nat.succ_mul]
  have hnext : node H z (leaves ++ [x]) l (leaves.length / 2 ^ l + 1) = emptyNode H z l :=
    node_of_empty (by simpa using Nat.succ_le_of_lt hlt)
  rw [climbed, climbed, div_pow_succ, node, show 2 * (leaves.length / 2 ^ l / 2) =
    leaves.length / 2 ^ l by omega, hnext]

/-- A right node is paired with the one that waits for it. -/
lemma climbed_right (h : leaves.length / 2 ^ l % 2 = 1) :
    H (node H z leaves l (leaves.length / 2 ^ l - 1)) (climbed H z leaves x l) =
      climbed H z leaves x (l + 1) := by
  have hle : leaves.length / 2 ^ l * 2 ^ l ≤ leaves.length := Nat.div_mul_le_self _ _
  have hprev : node H z (leaves ++ [x]) l (leaves.length / 2 ^ l - 1) =
      node H z leaves l (leaves.length / 2 ^ l - 1) :=
    node_append (by rwa [Nat.sub_add_cancel (one_le_of_odd h)])
  rw [climbed, climbed, div_pow_succ, node, show 2 * (leaves.length / 2 ^ l / 2) =
    leaves.length / 2 ^ l - 1 by omega, hprev,
    Nat.sub_add_cancel (one_le_of_odd h)]

/-- At the top the climb has reached the root. -/
lemma climbed_top {depth : ℕ} (h : leaves.length < 2 ^ depth) :
    climbed H z leaves x depth = root H z depth (leaves ++ [x]) := by
  rw [climbed, root, Nat.div_eq_of_lt h]

/-! ### The right edge -/

/-- Where a left node waits for its neighbour, the edge has it. -/
def Edge (H : α → α → α) (z : α) (depth : ℕ) (leaves : List α) (edge : ℕ → α) : Prop :=
  ∀ l < depth, leaves.length / 2 ^ l % 2 = 1 →
    edge l = node H z leaves l (leaves.length / 2 ^ l - 1)

lemma edge_nil {depth : ℕ} (edge : ℕ → α) : Edge H z depth [] edge := fun l _ h => by simp at h

/-- What the climb leaves behind below a level: the left nodes it passed. -/
def edgeBelow (H : α → α → α) (z : α) (leaves : List α) (x : α) (edge : ℕ → α) (k l : ℕ) : α :=
  if l < k ∧ leaves.length / 2 ^ l % 2 = 0 then climbed H z leaves x l else edge l

lemma edgeBelow_zero (edge : ℕ → α) : edgeBelow H z leaves x edge 0 = edge := by
  funext l
  simp [edgeBelow]

lemma edgeBelow_left (edge : ℕ → α) (h : leaves.length / 2 ^ l % 2 = 0) :
    edgeBelow H z leaves x edge (l + 1) =
      Function.update (edgeBelow H z leaves x edge l) l (climbed H z leaves x l) := by
  funext k
  rcases eq_or_ne k l with rfl | hne
  · rw [Function.update_self, edgeBelow, if_pos ⟨Nat.lt_succ_self k, h⟩]
  · rw [Function.update_of_ne hne, edgeBelow, edgeBelow]
    congr 1
    exact propext (and_congr_left' (by omega))

lemma edgeBelow_right (edge : ℕ → α) (h : leaves.length / 2 ^ l % 2 = 1) :
    edgeBelow H z leaves x edge (l + 1) = edgeBelow H z leaves x edge l := by
  funext k
  rw [edgeBelow, edgeBelow]
  congr 1
  refine propext (and_congr_left fun hk => ?_)
  have hne : k ≠ l := fun heq => by
    subst heq
    omega
  omega

/-- The node that waits on a level is not touched before the climb gets there. -/
lemma edgeBelow_self (edge : ℕ → α) : edgeBelow H z leaves x edge l l = edge l := by
  simp [edgeBelow]

/-- **The edge follows the leaves**: after the climb of a new leaf it is the edge of the longer
list. -/
theorem Edge.append {depth : ℕ} {edge : ℕ → α} (h : Edge H z depth leaves edge) :
    Edge H z depth (leaves ++ [x]) (edgeBelow H z leaves x edge depth) := by
  intro l hl hodd
  rw [List.length_append, List.length_singleton] at hodd ⊢
  by_cases hdvd : 2 ^ l ∣ leaves.length + 1
  · -- the new leaf completes a node of this level
    have hstep : (leaves.length + 1) / 2 ^ l = leaves.length / 2 ^ l + 1 := Nat.succ_div_of_dvd hdvd
    have heven : leaves.length / 2 ^ l % 2 = 0 := by omega
    rw [edgeBelow, if_pos ⟨hl, heven⟩, climbed, hstep, Nat.add_sub_cancel]
  · have hstep : (leaves.length + 1) / 2 ^ l = leaves.length / 2 ^ l := Nat.succ_div_of_not_dvd hdvd
    rw [hstep] at hodd ⊢
    have hle : leaves.length / 2 ^ l * 2 ^ l ≤ leaves.length := Nat.div_mul_le_self _ _
    rw [edgeBelow, if_neg (by omega), h l hl hodd]
    exact (node_append (by rwa [Nat.sub_add_cancel (one_le_of_odd hodd)])).symm

/-! ### Walks -/

def sibling (i : ℕ) : ℕ := if i % 2 = 0 then i + 1 else i - 1

/-- The neighbours on the way up from node `i` of level `l`. -/
def path (H : α → α → α) (z : α) (leaves : List α) : ℕ → ℕ → ℕ → List α
  | 0, _, _ => []
  | k + 1, l, i => node H z leaves l (sibling i) :: path H z leaves k (l + 1) (i / 2)

@[simp] lemma length_path (k l i : ℕ) : (path H z leaves k l i).length = k := by
  induction k generalizing l i with
  | zero => rfl
  | succ k ih => rw [path, List.length_cons, ih]

/-- A node above is the hash of a node and its neighbour. -/
lemma node_parent (l i : ℕ) : node H z leaves (l + 1) (i / 2) =
    if i % 2 = 0 then H (node H z leaves l i) (node H z leaves l (sibling i))
    else H (node H z leaves l (sibling i)) (node H z leaves l i) := by
  rw [node, sibling]
  split_ifs with h
  · rw [show 2 * (i / 2) = i by omega]
  · rw [show 2 * (i / 2) = i - 1 by omega, show i - 1 + 1 = i by omega]

end Utxopia.AppendTree
