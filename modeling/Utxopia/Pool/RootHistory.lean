import Utxopia.Lib.RingBuffer
import Utxopia.Pool.Incremental
import Utxopia.Pool.Program

/-!
Which roots are accepted, and batches against single leaves.

Every insertion puts the root that was current into a ring of 256, a batch only once. Apart from
the ring a batch does what its leaves do one by one.
-/

namespace Utxopia.Pool

open Utxopia.ByteString Utxopia.Check Utxopia.RingBuffer Utxopia.Run

variable {E : Env} {t t' u u' : CommitmentTree} {hs : List Hash} {x r : Hash}

/-! ### The window of roots -/

inductive Insertion where
  | leaf (commitment : Hash)
  | batch (commitments : List Hash)

def CommitmentTree.insert (E : Env) (t : CommitmentTree) : Insertion → Except ProgramError CommitmentTree
  | .leaf commitment => do
    let (t', _) ← t.insertLeaf E commitment
    return t'
  | .batch commitments => do
    let (t', _) ← t.insertLeavesBatch E commitments
    return t'

/-- The roots that were current before each insertion of a run, latest first. -/
def pastRoots (tr : List (Step CommitmentTree Insertion)) : List Hash :=
  (tr.map fun st => st.pre.currentRoot).reverse

/-- The append leaves the root and the ring to the caller. -/
lemma appendLeaf_ring {i : ℕ} (h : t.appendLeaf E x = .ok (t', r, i)) :
    t'.currentRoot = t.currentRoot ∧ t'.rootHistory = t.rootHistory ∧
      t'.rootHistoryIndex = t.rootHistoryIndex := by
  simp only [CommitmentTree.appendLeaf, bind_eq_ok, pure_eq_ok, Prod.mk.injEq] at h
  obtain ⟨-, -, acc, -, rfl, -, -⟩ := h
  exact ⟨rfl, rfl, rfl⟩

lemma appends_ring {acc acc' : CommitmentTree × Hash}
    (h : loop (CommitmentTree.appendNext E) acc hs = .ok acc') :
    acc'.1.currentRoot = acc.1.currentRoot ∧ acc'.1.rootHistory = acc.1.rootHistory ∧
      acc'.1.rootHistoryIndex = acc.1.rootHistoryIndex := by
  induction hs generalizing acc with
  | nil =>
    rw [loop_nil, Except.ok.injEq] at h
    rw [h]
    exact ⟨rfl, rfl, rfl⟩
  | cons x hs ih =>
    obtain ⟨mid, hnext, hrest⟩ := loop_cons_eq_ok.mp h
    simp only [CommitmentTree.appendNext, bind_eq_ok, pure_eq_ok, Prod.exists] at hnext
    obtain ⟨t₁, r, i, happend, rfl⟩ := hnext
    obtain ⟨hroot, hring, hindex⟩ := appendLeaf_ring happend
    obtain ⟨hroot', hring', hindex'⟩ := ih hrest
    exact ⟨hroot'.trans hroot, hring'.trans hring, hindex'.trans hindex⟩

/-- **One insertion** pushes the root that was current, however many leaves it places. -/
lemma insert_pushes {l : Insertion} (h : t.insert E l = .ok t') :
    t'.rootHistory = push t.rootHistory t.rootHistoryIndex t.currentRoot ∧
      t'.rootHistoryIndex = (t.rootHistoryIndex + 1) % 2 ^ 32 := by
  cases l with
  | leaf commitment =>
    simp only [CommitmentTree.insert, CommitmentTree.insertLeaf, bind_eq_ok, pure_eq_ok, Prod.exists,
      Prod.mk.injEq] at h
    obtain ⟨_, i, ⟨t₁, root, j, happend, rfl, -⟩, rfl⟩ := h
    obtain ⟨hroot, hring, hindex⟩ := appendLeaf_ring happend
    rw [CommitmentTree.updateRoot, hroot, hring, hindex]
    exact ⟨rfl, rfl⟩
  | batch commitments =>
    simp only [CommitmentTree.insert, CommitmentTree.insertLeavesBatch, bind_eq_ok, exists_unit,
      require_eq_ok, pure_eq_ok, Prod.exists, Prod.mk.injEq] at h
    obtain ⟨_, i, ⟨-, t₁, root, hloop, rfl, -⟩, rfl⟩ := h
    obtain ⟨hroot, hring, hindex⟩ := appends_ring hloop
    rw [CommitmentTree.updateRoot, hroot, hring, hindex]
    exact ⟨rfl, rfl⟩

/-- **The window of roots**: after any insertions a root is accepted exactly if it is not zero and it
is the current one or one of the last 256 that were current before. -/
theorem isValidRoot_iff {index : ℕ} {tr : List (Step CommitmentTree Insertion)}
    (run : Reaches (CommitmentTree.insert E) (fun _ _ => True) (.init index) tr t) :
    t.isValidRoot r = true ↔
      r ≠ zeros 32 ∧ (r = t.currentRoot ∨ r ∈ (pastRoots tr).take rootHistorySize) := by
  have hring : Remembers (zeros 32) t.rootHistory t.rootHistoryIndex (pastRoots tr) := by
    refine run.history (I := fun tr t => Remembers (zeros 32) t.rootHistory t.rootHistoryIndex
      (pastRoots tr)) remembers_replicate fun tr t l t' _ hring _ h => ?_
    obtain ⟨hhistory, hindex⟩ := insert_pushes h
    rw [hhistory, hindex, pastRoots, List.map_append, List.reverse_append]
    exact hring.push.wrap (by decide)
  rw [CommitmentTree.isValidRoot, decide_eq_true_eq, hring.mem_iff, eq_comm (a := t.currentRoot)]
  constructor
  · rintro ⟨hne, rfl | hmem | ⟨-, rfl⟩⟩
    · exact ⟨hne, .inl rfl⟩
    · exact ⟨hne, .inr hmem⟩
    · exact absurd rfl hne
  · rintro ⟨hne, rfl | hmem⟩
    · exact ⟨hne, .inl rfl⟩
    · exact ⟨hne, .inr (.inl hmem)⟩

namespace Regtest

/-- One leaf, and then two at once. -/
def insertions : List Insertion := [.leaf (toLe 32 1), .batch [toLe 32 2, toLe 32 3]]

lemma run_insertions :
    (exec (CommitmentTree.insert env) (fun _ _ => true) (.init 0) insertions).isSome = true := by
  decide +kernel

end Regtest

open Regtest in
/-- After a leaf and a batch. -/
theorem isValidRoot_iff_insertions : ∃ t tr, tr.map Step.call = insertions ∧
    ∀ r, CommitmentTree.isValidRoot t r = true ↔
      r ≠ zeros 32 ∧ (r = t.currentRoot ∨ r ∈ (pastRoots tr).take rootHistorySize) := by
  obtain ⟨t, ht⟩ := Option.isSome_iff_exists.mp run_insertions
  obtain ⟨tr, htr, run⟩ := reaches_of_exec (fun _ _ _ => trivial : ∀ _ _, _ → True) ht
  exact ⟨t, tr, htr, fun r => isValidRoot_iff run⟩

/-! ### A batch and its leaves one by one -/

def CommitmentTree.insertNext (E : Env) (acc : CommitmentTree × List ℕ) (commitment : Hash) :
    Except ProgramError (CommitmentTree × List ℕ) := do
  let (t, leafIndex) ← acc.1.insertLeaf E commitment
  return (t, acc.2 ++ [leafIndex])

/-- Insert leaf after leaf and list where they went. -/
def CommitmentTree.insertSequential (E : Env) (t : CommitmentTree) (commitments : List Hash) :
    Except ProgramError (CommitmentTree × List ℕ) :=
  loop (insertNext E) (t, []) commitments

/-- What an append works on: the frontier, the next index and the last root. -/
abbrev Front := Vector Hash treeDepth × ℕ × Hash

/-- An append, the ring apart. -/
def advance (E : Env) (v : Front) (commitment : Hash) : Except ProgramError Front := do
  require (v.2.1 < maxLeaves) UTXOpiaError.TreeFull
  let acc ← loop (CommitmentTree.climbLevel E) (v.1, commitment, v.2.1) (List.range treeDepth)
  return (acc.1, v.2.1 + 1, acc.2.1)

def frontOf (acc : CommitmentTree × Hash) : Front := (acc.1.frontier, acc.1.nextIndex, acc.2)

def treeFront (acc : CommitmentTree × List ℕ) : Front :=
  (acc.1.frontier, acc.1.nextIndex, acc.1.currentRoot)

lemma appends_advance (acc : CommitmentTree × Hash) :
    loop (advance E) (frontOf acc) hs = frontOf <$> loop (CommitmentTree.appendNext E) acc hs :=
  loop_map (fun acc x => by
    simp only [advance, frontOf, CommitmentTree.appendNext, CommitmentTree.appendLeaf, bind_assoc,
      pure_bind, map_bind, map_pure]
    rfl) acc hs

lemma sequential_advance (acc : CommitmentTree × List ℕ) :
    loop (advance E) (treeFront acc) hs = treeFront <$> loop (CommitmentTree.insertNext E) acc hs :=
  loop_map (fun acc x => by
    simp only [advance, treeFront, CommitmentTree.insertNext, CommitmentTree.insertLeaf,
      CommitmentTree.appendLeaf, CommitmentTree.updateRoot, bind_assoc, pure_bind, map_bind,
      map_pure]
    rfl) acc hs

/-- One by one the leaves get consecutive indices. -/
lemma sequential_indices {acc acc' : CommitmentTree × List ℕ}
    (h : loop (CommitmentTree.insertNext E) acc hs = .ok acc') :
    acc'.2 = acc.2 ++ List.range' acc.1.nextIndex hs.length := by
  induction hs generalizing acc with
  | nil =>
    rw [loop_nil, Except.ok.injEq] at h
    rw [h, List.length_nil, List.range'_zero, List.append_nil]
  | cons x hs ih =>
    obtain ⟨mid, hnext, hrest⟩ := loop_cons_eq_ok.mp h
    simp only [CommitmentTree.insertNext, CommitmentTree.insertLeaf, CommitmentTree.appendLeaf,
      bind_eq_ok, pure_eq_ok, Prod.exists, Prod.mk.injEq] at hnext
    obtain ⟨_, _, ⟨_, _, _, ⟨-, -, _, _, _, -, rfl, -, rfl⟩, rfl, rfl⟩, rfl⟩ := hnext
    rw [ih hrest, List.length_cons, List.range'_succ, List.append_assoc]
    rfl

/-- Appending fails for want of room only, and exactly then. -/
lemma advance_full (hE : PoseidonTotal E) (v : Front) (hne : hs ≠ []) :
    loop (advance E) v hs = .error UTXOpiaError.TreeFull ↔ maxLeaves < v.2.1 + hs.length := by
  induction hs generalizing v with
  | nil => exact absurd rfl hne
  | cons x hs ih =>
    rw [List.length_cons]
    change (advance E v x >>= (loop (advance E) · hs)) = _ ↔ _
    by_cases hroom : v.2.1 < maxLeaves
    · obtain ⟨acc, hacc⟩ := climb_total hE (List.range treeDepth) (v.1, x, v.2.1)
      have hnext : advance E v x = .ok (acc.1, v.2.1 + 1, acc.2.1) := by
        rw [advance, require, if_pos hroom, hacc]
        rfl
      rw [hnext]
      change loop (advance E) (acc.1, v.2.1 + 1, acc.2.1) hs = _ ↔ _
      rcases eq_or_ne hs [] with rfl | hmore
      · simp only [loop_nil, List.length_nil]
        constructor
        · exact fun h => absurd h ok_ne_error
        · omega
      · rw [ih _ hmore]
        dsimp only
        omega
    · have hfull : advance E v x = .error UTXOpiaError.TreeFull := by
        rw [advance, require, if_neg hroom]
        rfl
      rw [hfull]
      exact iff_of_true rfl (by omega)

/-- **A batch is its leaves one by one**: both go through or fail alike, with the same root,
frontier, next index and leaf indices, and for want of room exactly if the leaves exceed it. -/
theorem batch_eq_sequential (hne : hs ≠ []) :
    (fun b => (b.1.currentRoot, b.1.frontier, b.1.nextIndex, List.range' b.2 hs.length)) <$>
        t.insertLeavesBatch E hs =
      (fun q => (q.1.currentRoot, q.1.frontier, q.1.nextIndex, q.2)) <$> t.insertSequential E hs ∧
    (PoseidonTotal E → (t.insertLeavesBatch E hs = .error UTXOpiaError.TreeFull ↔
      maxLeaves < t.nextIndex + hs.length)) := by
  have hbatch : loop (advance E) (t.frontier, t.nextIndex, t.currentRoot) hs = _ :=
    appends_advance (t, t.currentRoot)
  have hsequential : loop (advance E) (t.frontier, t.nextIndex, t.currentRoot) hs = _ :=
    sequential_advance (t, [])
  have hview : (fun b => (b.1.currentRoot, b.1.frontier, b.1.nextIndex, List.range' b.2 hs.length)) <$>
      t.insertLeavesBatch E hs = (fun v => (v.2.2, v.1, v.2.1, List.range' t.nextIndex hs.length)) <$>
        loop (advance E) (t.frontier, t.nextIndex, t.currentRoot) hs := by
    rw [hbatch, CommitmentTree.insertLeavesBatch, require, if_pos hne]
    cases loop (CommitmentTree.appendNext E) (t, t.currentRoot) hs <;> rfl
  constructor
  · rw [hview, hsequential, CommitmentTree.insertSequential]
    cases hloop : loop (CommitmentTree.insertNext E) (t, []) hs with
    | error e => rfl
    | ok q =>
      have hindices := sequential_indices hloop
      rw [List.nil_append] at hindices
      rw [Functor.map_map]
      simp only [Except.map, hindices, Functor.map]
      rfl
  · intro hE
    rw [← advance_full hE (t.frontier, t.nextIndex, t.currentRoot) hne, hbatch,
      CommitmentTree.insertLeavesBatch, require, if_pos hne]
    cases loop (CommitmentTree.appendNext E) (t, t.currentRoot) hs with
    | error e =>
      change (.error e : Except ProgramError (CommitmentTree × ℕ)) = _ ↔
        (.error e : Except ProgramError Front) = _
      rw [Except.error.injEq, Except.error.injEq]
    | ok acc => exact iff_of_false ok_ne_error ok_ne_error

open Regtest in
/-- Two leaves at once in an empty tree. -/
theorem batch_eq_sequential_two :
    (fun b => (b.1.currentRoot, b.1.frontier, b.1.nextIndex, List.range' b.2 2)) <$>
        (CommitmentTree.init 0).insertLeavesBatch env [toLe 32 2, toLe 32 3] =
      (fun q => (q.1.currentRoot, q.1.frontier, q.1.nextIndex, q.2)) <$>
        (CommitmentTree.init 0).insertSequential env [toLe 32 2, toLe 32 3] ∧
    (PoseidonTotal env → ((CommitmentTree.init 0).insertLeavesBatch env [toLe 32 2, toLe 32 3] =
      .error UTXOpiaError.TreeFull ↔ maxLeaves < 0 + 2)) :=
  batch_eq_sequential (List.cons_ne_nil (toLe 32 2 : Hash) [toLe 32 3])

end Utxopia.Pool
