import Utxopia.Lib.AppendTree
import Utxopia.Pool.Spend

/-!
The commitment tree is the full tree over the leaves placed in it.

The stored frontier is the right edge of the leaves so far, and the stored root is the root of
the tree of depth 16 that has them first and empty leaves after them. So the neighbours of a
placed leaf lead the path check from the leaf to the current root.
-/

namespace Utxopia.Pool

open Utxopia.AppendTree Utxopia.ByteString Utxopia.Check

variable {E : Env} {t t' : CommitmentTree} {leaves hs : List Hash} {x : Hash} {k : ℕ}

/-! ### Inserting goes through -/

/-- The hash takes every pair of reduced elements. -/
def PoseidonTotal (E : Env) : Prop :=
  ∀ a b, (E.poseidon [reduceToFieldExact a, reduceToFieldExact b]).isSome = true

lemma poseidon2Hash_total (hE : PoseidonTotal E) (a b : Hash) : ∃ h, poseidon2Hash E a b = .ok h := by
  obtain ⟨h, hh⟩ := Option.isSome_iff_exists.mp (hE a b)
  exact ⟨h, orElse_eq_ok.mpr hh⟩

lemma climb_total (hE : PoseidonTotal E) (levels : List ℕ) (acc : CommitmentTree.Climb) :
    ∃ acc', loop (CommitmentTree.climbLevel E) acc levels = .ok acc' := by
  induction levels generalizing acc with
  | nil => exact ⟨acc, rfl⟩
  | cons level levels ih =>
    have hlevel : ∃ acc₁, CommitmentTree.climbLevel E acc level = .ok acc₁ := by
      unfold CommitmentTree.climbLevel
      split_ifs
      · obtain ⟨h, hh⟩ := poseidon2Hash_total hE acc.2.1 (zeroHash level)
        exact ⟨_, bind_eq_ok.mpr ⟨h, hh, rfl⟩⟩
      · obtain ⟨h, hh⟩ := poseidon2Hash_total hE (acc.1.toList.getD level (zeros 32)) acc.2.1
        exact ⟨_, bind_eq_ok.mpr ⟨h, hh, rfl⟩⟩
    obtain ⟨acc₁, hacc₁⟩ := hlevel
    obtain ⟨acc', hacc'⟩ := ih acc₁
    exact ⟨acc', loop_cons_eq_ok.mpr ⟨acc₁, hacc₁, hacc'⟩⟩

lemma appendLeaf_total (hE : PoseidonTotal E) (h : Hash) (hroom : t.nextIndex < maxLeaves) :
    ∃ t' root, t.appendLeaf E h = .ok (t', root, t.nextIndex) ∧ t'.nextIndex = t.nextIndex + 1 := by
  obtain ⟨acc, hacc⟩ := climb_total hE (List.range treeDepth) (t.frontier, h, t.nextIndex)
  refine ⟨{ t with frontier := acc.1, nextIndex := t.nextIndex + 1 }, acc.2.1, ?_, rfl⟩
  simp only [CommitmentTree.appendLeaf, bind_eq_ok, exists_unit, require_eq_ok, pure_eq_ok]
  exact ⟨hroom, acc, hacc, rfl⟩

lemma appends_total (hE : PoseidonTotal E) {hs : List Hash} (acc : CommitmentTree × Hash)
    (hroom : acc.1.nextIndex + hs.length ≤ maxLeaves) :
    ∃ acc', loop (CommitmentTree.appendNext E) acc hs = .ok acc' := by
  induction hs generalizing acc with
  | nil => exact ⟨acc, rfl⟩
  | cons h hs ih =>
    rw [List.length_cons] at hroom
    obtain ⟨t', root, happend, hnext⟩ := appendLeaf_total hE h (t := acc.1) (by omega)
    obtain ⟨acc', hacc'⟩ := ih (t', root) (by dsimp only; omega)
    refine ⟨acc', loop_cons_eq_ok.mpr ⟨(t', root), ?_, hacc'⟩⟩
    simp only [CommitmentTree.appendNext, bind_eq_ok, pure_eq_ok, Prod.exists]
    exact ⟨t', root, _, happend, rfl⟩

lemma insertLeavesBatch_total (hE : PoseidonTotal E) (hs : List Hash) (hne : hs ≠ [])
    (hroom : t.nextIndex + hs.length ≤ maxLeaves) : ∃ x, t.insertLeavesBatch E hs = .ok x := by
  obtain ⟨acc, hacc⟩ := appends_total hE (t, t.currentRoot) hroom
  refine ⟨(acc.1.updateRoot acc.2, t.nextIndex), ?_⟩
  simp only [CommitmentTree.insertLeavesBatch, bind_eq_ok, exists_unit, require_eq_ok, pure_eq_ok]
  exact ⟨hne, acc, hacc, rfl⟩

/-! ### The full tree -/

/-- The two-input hash as a function. -/
def parent (E : Env) (a b : Hash) : Hash := (poseidon2Hash E a b).toOption.getD (zeros 32)

/-- The root of the full tree: the given leaves first, zero leaves after them. -/
def fullRoot (E : Env) (leaves : List Hash) : Hash :=
  root (parent E) (zeros 32) treeDepth leaves

/-- `ZERO_HASHES` is the ladder of the hashes of zero subtrees. -/
def ZeroLadder (E : Env) : Prop :=
  ∀ l < treeDepth, poseidon2Hash E (zeroHash l) (zeroHash l) = .ok (zeroHash (l + 1))

lemma poseidon2Hash_parent (hE : PoseidonTotal E) (a b : Hash) :
    poseidon2Hash E a b = .ok (parent E a b) := by
  obtain ⟨h, hh⟩ := poseidon2Hash_total hE a b
  rw [parent, hh]
  rfl

lemma emptyNode_zeroHash (hz : ZeroLadder E) {l : ℕ} (hl : l ≤ treeDepth) :
    emptyNode (parent E) (zeros 32) l = zeroHash l := by
  induction l with
  | zero => rfl
  | succ l ih =>
    rw [emptyNode, ih (by omega), parent, hz l (by omega)]
    rfl

/-! ### The climb -/

/-- The frontier by level. -/
def edgeOf (frontier : Vector Hash treeDepth) (l : ℕ) : Hash := frontier.toList.getD l (zeros 32)

lemma edgeOf_set (frontier : Vector Hash treeDepth) {l : ℕ} (hl : l < treeDepth) (h : Hash) :
    edgeOf (frontier.setIfInBounds l h) = Function.update (edgeOf frontier) l h := by
  funext j
  rcases eq_or_ne j l with rfl | hne
  · rw [Function.update_self, edgeOf, Vector.toList_setIfInBounds, List.getD_eq_getElem?_getD,
      List.getElem?_set, if_pos rfl, if_pos (by simpa using hl), Option.getD_some]
  · rw [Function.update_of_ne hne, edgeOf, edgeOf, Vector.toList_setIfInBounds,
      List.getD_eq_getElem?_getD, List.getD_eq_getElem?_getD, List.getElem?_set_ne hne.symm]

/-- The climb, level by level: it carries the nodes above the new leaf and leaves the left ones in
the frontier. -/
lemma climb_ok (hE : PoseidonTotal E) (hz : ZeroLadder E) {frontier : Vector Hash treeDepth}
    {acc : CommitmentTree.Climb} (hk : k ≤ treeDepth)
    (hedge : Edge (parent E) (zeros 32) treeDepth leaves (edgeOf frontier))
    (h : loop (CommitmentTree.climbLevel E) (frontier, x, leaves.length) (List.range k) = .ok acc) :
    edgeOf acc.1 = edgeBelow (parent E) (zeros 32) leaves x (edgeOf frontier) k ∧
      acc.2 = (climbed (parent E) (zeros 32) leaves x k, leaves.length / 2 ^ k) := by
  induction k generalizing acc with
  | zero =>
    rw [List.range_zero, loop_nil, Except.ok.injEq] at h
    subst h
    rw [edgeBelow_zero, climbed_zero]
    simp
  | succ k ih =>
    rw [List.range_succ, loop_append_eq_ok] at h
    obtain ⟨mid, hmid, hlast⟩ := h
    obtain ⟨hmidEdge, hmidNode⟩ := ih (by omega) hmid
    obtain ⟨frontier', node', index'⟩ := mid
    obtain ⟨rfl, rfl⟩ := Prod.mk.inj hmidNode
    obtain ⟨acc', hlevel, hdone⟩ := loop_cons_eq_ok.mp hlast
    rw [loop_nil, Except.ok.injEq] at hdone
    subst hdone
    rw [CommitmentTree.climbLevel] at hlevel
    split_ifs at hlevel with heven
    · -- a left node is kept and paired with the empty subtree
      rw [poseidon2Hash_parent hE] at hlevel
      obtain rfl := Except.ok.inj hlevel
      rw [edgeBelow_left _ heven, ← hmidEdge, ← climbed_left heven, div_pow_succ,
        emptyNode_zeroHash hz (by omega)]
      exact ⟨edgeOf_set _ (by omega) _, rfl⟩
    · have hodd : leaves.length / 2 ^ k % 2 = 1 := Nat.mod_two_ne_zero.mp heven
      have hwaits : edgeOf frontier' k =
          node (parent E) (zeros 32) leaves k (leaves.length / 2 ^ k - 1) := by
        rw [show edgeOf frontier' = _ from hmidEdge, edgeBelow_self, hedge k (by omega) hodd]
      rw [poseidon2Hash_parent hE] at hlevel
      obtain rfl := Except.ok.inj hlevel
      rw [edgeBelow_right _ hodd, ← hmidEdge, ← climbed_right hodd, div_pow_succ, ← hwaits]
      exact ⟨rfl, rfl⟩

/-! ### Inserting -/

/-- The tree has these leaves, but its root may be out of date. -/
structure CommitmentTree.Grown (E : Env) (t : CommitmentTree) (leaves : List Hash) : Prop where
  next : t.nextIndex = leaves.length
  room : leaves.length ≤ maxLeaves
  edge : Edge (parent E) (zeros 32) treeDepth leaves (edgeOf t.frontier)

/-- The tree has these leaves, and the root of the full tree over them. -/
structure CommitmentTree.Holds (E : Env) (t : CommitmentTree) (leaves : List Hash) : Prop where
  grown : t.Grown E leaves
  root : t.currentRoot = fullRoot E leaves

lemma holds_init (hz : ZeroLadder E) (index : ℕ) : (CommitmentTree.init index).Holds E [] where
  grown := ⟨rfl, Nat.zero_le _, edge_nil _⟩
  root := by
    rw [fullRoot, root_nil, emptyNode_zeroHash hz le_rfl]
    rfl

/-- One leaf more. -/
lemma appendLeaf_grown (hE : PoseidonTotal E) (hz : ZeroLadder E) {r : Hash} {i : ℕ}
    (ht : t.Grown E leaves) (h : t.appendLeaf E x = .ok (t', r, i)) :
    t'.Grown E (leaves ++ [x]) ∧ r = fullRoot E (leaves ++ [x]) ∧ t'.treeIndex = t.treeIndex := by
  simp only [CommitmentTree.appendLeaf, bind_eq_ok, require_eq_ok, exists_unit, pure_eq_ok,
    Prod.mk.injEq, ht.next] at h
  obtain ⟨hroom, acc, hclimb, rfl, rfl, rfl⟩ := h
  obtain ⟨hedge, hnode⟩ := climb_ok hE hz le_rfl ht.edge hclimb
  refine ⟨⟨by simp, ?_, ?_⟩, ?_, rfl⟩
  · rw [List.length_append, List.length_singleton]
    exact Nat.succ_le_of_lt hroom
  · change Edge _ _ _ _ (edgeOf acc.1)
    rw [hedge]
    exact ht.edge.append
  · rw [hnode, fullRoot, ← climbed_top hroom]

/-- **A batch** places its leaves in order, and its root is the root of the full tree. -/
theorem insertLeavesBatch_holds (hE : PoseidonTotal E) (hz : ZeroLadder E) {first : ℕ}
    (ht : t.Holds E leaves) (h : t.insertLeavesBatch E hs = .ok (t', first)) :
    t'.Holds E (leaves ++ hs) ∧ t'.treeIndex = t.treeIndex := by
  simp only [CommitmentTree.insertLeavesBatch, bind_eq_ok, require_eq_ok, exists_unit, pure_eq_ok,
    Prod.mk.injEq] at h
  obtain ⟨-, acc, hloop, rfl, -⟩ := h
  have hstep : ∀ (p : List Hash) (acc : CommitmentTree × Hash) (x : Hash)
      (acc' : CommitmentTree × Hash),
      (acc.1.Grown E (leaves ++ p) ∧ acc.2 = fullRoot E (leaves ++ p) ∧
        acc.1.treeIndex = t.treeIndex) → CommitmentTree.appendNext E acc x = .ok acc' →
      acc'.1.Grown E (leaves ++ (p ++ [x])) ∧ acc'.2 = fullRoot E (leaves ++ (p ++ [x])) ∧
        acc'.1.treeIndex = t.treeIndex := by
    rintro p acc x acc' ⟨hgrown, -, hindex⟩ hnext
    simp only [CommitmentTree.appendNext, bind_eq_ok, pure_eq_ok, Prod.exists] at hnext
    obtain ⟨t₁, r, i, happend, rfl⟩ := hnext
    rw [← List.append_assoc]
    obtain ⟨hgrown₁, hr, hindex₁⟩ := appendLeaf_grown hE hz hgrown happend
    exact ⟨hgrown₁, hr, hindex₁.trans hindex⟩
  have h0 : t.Grown E (leaves ++ []) ∧ t.currentRoot = fullRoot E (leaves ++ []) ∧
      t.treeIndex = t.treeIndex := by
    rw [List.append_nil]
    exact ⟨ht.grown, ht.root, rfl⟩
  obtain ⟨hgrown, hroot, hindex⟩ := loop_prefix_inv hstep h0 hloop
  exact ⟨⟨⟨hgrown.next, hgrown.room, hgrown.edge⟩, hroot⟩, hindex⟩

lemma appended_holds (hE : PoseidonTotal E) (hz : ZeroLadder E) (ht : t.Holds E leaves)
    (h : t.Appended E hs t') : t'.Holds E (leaves ++ hs) ∧ t'.treeIndex = t.treeIndex := by
  rcases h with ⟨rfl, rfl⟩ | h
  · rw [List.append_nil]
    exact ⟨ht, rfl⟩
  · exact insertLeavesBatch_holds hE hz ht h

/-! ### Paths -/

/-- The path check climbs from a node over its neighbours. -/
lemma computeMerkleRoot_node (hE : PoseidonTotal E) (k l i : ℕ) :
    computeMerkleRoot E (node (parent E) (zeros 32) leaves l i) i
      (path (parent E) (zeros 32) leaves k l i) =
        .ok (node (parent E) (zeros 32) leaves (l + k) (i / 2 ^ k)) := by
  induction k generalizing l i with
  | zero => simp [path, computeMerkleRoot]
  | succ k ih =>
    have hrest : computeMerkleRoot E (node (parent E) (zeros 32) leaves (l + 1) (i / 2)) (i / 2)
        (path (parent E) (zeros 32) leaves k (l + 1) (i / 2)) =
          .ok (node (parent E) (zeros 32) leaves (l + (k + 1)) (i / 2 ^ (k + 1))) := by
      rw [ih, Nat.div_div_eq_div_mul, Nat.pow_succ', Nat.add_right_comm, Nat.add_assoc]
    rw [path, computeMerkleRoot]
    rw [node_parent l i] at hrest
    split_ifs at hrest ⊢ with heven
    · rw [poseidon2Hash_parent hE]
      exact hrest
    · rw [poseidon2Hash_parent hE]
      exact hrest

/-- **Every placed leaf has a path**: its neighbours lead to the root of the full tree. -/
theorem exists_path (hE : PoseidonTotal E) {i : ℕ} (h : leaves[i]? = some x)
    (hroom : leaves.length ≤ maxLeaves) : ∃ siblings, siblings.length = treeDepth ∧
      computeMerkleRoot E x i siblings = .ok (fullRoot E leaves) := by
  obtain ⟨hi, rfl⟩ := List.getElem?_eq_some_iff.mp h
  refine ⟨path (parent E) (zeros 32) leaves treeDepth 0 i, length_path .., ?_⟩
  have hleaf : node (parent E) (zeros 32) leaves 0 i = leaves[i] := by
    rw [node, List.getD_eq_getElem _ _ hi]
  have hwalk : computeMerkleRoot E (node (parent E) (zeros 32) leaves 0 i) i
      (path (parent E) (zeros 32) leaves treeDepth 0 i) =
        .ok (node (parent E) (zeros 32) leaves (0 + treeDepth) (i / 2 ^ treeDepth)) :=
    computeMerkleRoot_node hE treeDepth 0 i
  rwa [hleaf, Nat.zero_add, 
    Nat.div_eq_of_lt (show i < 2 ^ treeDepth from hi.trans_le hroom)] at hwalk

/-- A root that is not zero is accepted while it is current. -/
lemma CommitmentTree.Holds.isValidRoot (h : t.Holds E leaves) (hne : fullRoot E leaves ≠ zeros 32) :
    t.isValidRoot (fullRoot E leaves) = true := by
  simp [CommitmentTree.isValidRoot, h.root, hne]

/-- The hash never gives the value that stands for an empty slot. -/
def PoseidonNonzero (E : Env) : Prop := ∀ a b, poseidon2Hash E a b ≠ .ok (zeros 32)

lemma fullRoot_ne_zero (hE : PoseidonTotal E) (hne : PoseidonNonzero E) (leaves : List Hash) :
    fullRoot E leaves ≠ zeros 32 := fun h =>
  hne _ _ ((poseidon2Hash_parent hE _ _).trans (congrArg Except.ok h))

end Utxopia.Pool
