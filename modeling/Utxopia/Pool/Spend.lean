import Utxopia.Pool.Joinsplit
import Utxopia.Pool.Records

/-!
What the parts of a spend do to the books.

Burning nullifiers makes one record for each, none of which was there before. Placing leaves
rewrites the tree it is given. The tree a proof was checked against is in the books and
accepts the proof's root.
-/

namespace Utxopia.Pool

open Utxopia.ByteString Utxopia.Check Utxopia.Runtime

variable {E : Env} {s s' : State} {c : Call}

/-! ### Nullifiers -/

/-- The records that burning nullifiers makes. -/
def nullifierEntries (pool : Addr) (tree : ℕ) (nullifiers : List Hash) :
    List ((Addr × Option ℕ × Hash) × Option Marker) :=
  nullifiers.map fun nf => ((pool, nullifierSeed tree, nf), some ⟨⟩)

def spentEvents (pool : Addr) (tree : ℕ) (nullifiers : List Hash) : List Event :=
  nullifiers.map (.spent pool tree)

@[simp] lemma nullifierEntries_keys (pool : Addr) (tree : ℕ) (nfs : List Hash) :
    (nullifierEntries pool tree nfs).map Prod.fst =
      nfs.map fun nf => (pool, nullifierSeed tree, nf) := by
  simp [nullifierEntries, Function.comp_def]

lemma createNullifier_ok {pool : Addr} {tree : ℕ} {item : AccountInfo × Hash}
    (h : createNullifier E pool tree s item = .ok s') :
    s.records.nullifiers (pool, nullifierSeed tree, item.2) = none ∧
      s'.records = (s.records.updateNullifiers (nullifierEntries pool tree [item.2])).log
        (spentEvents pool tree [item.2]) := by
  simp only [createNullifier, bind_eq_ok, require_eq_ok, exists_unit, pure_eq_ok] at h
  obtain ⟨-, -, hnone, acc, hacc, rfl⟩ := h
  refine ⟨Account.rec?_eq_none_of_live? hnone, ?_⟩
  exact Records.ext rfl rfl rfl rfl rfl rfl rfl (recs_create (createOrClaim_owner hacc) _) rfl rfl
    rfl rfl rfl rfl rfl

/-- **Burning**: the nullifiers were all unspent and different, and each has its record now. -/
theorem createNullifiers_ok {pool : Addr} {tree : ℕ} {items : List (AccountInfo × Hash)}
    (h : loop (createNullifier E pool tree) s items = .ok s') :
    (items.map Prod.snd).Nodup ∧
      (∀ nf ∈ items.map Prod.snd, s.records.nullifiers (pool, nullifierSeed tree, nf) = none) ∧
      s'.records = (s.records.updateNullifiers
        (nullifierEntries pool tree (items.map Prod.snd))).log
          (spentEvents pool tree (items.map Prod.snd)) := by
  induction items generalizing s with
  | nil =>
    simp only [loop_nil, Except.ok.injEq] at h
    simp [← h, nullifierEntries, spentEvents, Records.updateNullifiers, Records.log]
  | cons item items ih =>
    obtain ⟨m, hm, hrest⟩ := loop_cons_eq_ok.mp h
    obtain ⟨hnone, hrec⟩ := createNullifier_ok hm
    obtain ⟨hnd, hfree, hfinal⟩ := ih hrest
    rw [hrec] at hfree hfinal
    have hnew : ∀ nf ∈ items.map Prod.snd, nf ≠ item.2 := by
      rintro nf hnf rfl
      exact absurd (hfree _ hnf) (by simp [Records.updateNullifiers, Records.log, nullifierEntries])
    refine ⟨?_, ?_, ?_⟩
    · rw [List.map_cons, List.nodup_cons]
      exact ⟨fun hmem => hnew _ hmem rfl, hnd⟩
    · intro nf hnf
      rw [List.map_cons, List.mem_cons] at hnf
      rcases hnf with rfl | hnf
      · exact hnone
      · have hfree := hfree nf hnf
        simp only [Records.updateNullifiers, Records.log] at hfree
        rwa [Store.updates_of_notMem (by simpa [nullifierEntries] using hnew nf hnf)] at hfree
    · rw [hfinal]
      simp [nullifierEntries, spentEvents, Records.updateNullifiers, Records.log]

/-- How the spend counts its nullifiers: at once, or when its leaves are merged. -/
def NullifierAccounting.count (n : ℕ) (p : PoolState) : NullifierAccounting → PoolState
  | .ApplyNow => p.addNullifiers n
  | .DeferToQueue => p

theorem createNullifierRecords_ok {pool : AccountInfo} {m : Addr} {p : PoolState} {start tree : ℕ}
    {nfs : List Hash} {accounting : NullifierAccounting} (hk : pool.key = .poolState m)
    (hp : s.records.pools m = some p)
    (h : createNullifierRecords E s c start nfs pool tree accounting = .ok s') :
    nfs.Nodup ∧
      (∀ nf ∈ nfs, s.records.nullifiers (.poolState m, nullifierSeed tree, nf) = none) ∧
      s'.records = ((s.records.updateNullifiers
        (nullifierEntries (.poolState m) tree nfs)).log (spentEvents (.poolState m) tree nfs)).putPool
          m (accounting.count nfs.length p) := by
  simp only [createNullifierRecords, bind_eq_ok, require_eq_ok, exists_unit] at h
  obtain ⟨hlen, s₁, hloop, h⟩ := h
  have hitems : ((c.accounts.drop start).zip nfs).map Prod.snd = nfs := by
    rw [List.map_snd_zip]
    rw [List.length_drop]
    omega
  obtain ⟨hnd, hfree, hrec⟩ := createNullifiers_ok hloop
  rw [hitems, hk] at hrec
  rw [hitems] at hnd
  rw [hitems, hk] at hfree
  refine ⟨hnd, hfree, ?_⟩
  have hp₁ : s₁.records.pools m = some p := by rw [hrec]; exact hp
  cases accounting with
  | ApplyNow =>
    simp only [bind_eq_ok, pure_eq_ok] at h
    obtain ⟨p', hread, rfl⟩ := h
    obtain rfl := readPool_of_records hk hp₁ hread
    rw [hk, records_putPool hp₁, hrec]
    rfl
  | DeferToQueue =>
    rw [pure_eq_ok] at h
    subst h
    rw [hrec]
    refine Records.ext ?_ rfl rfl rfl rfl rfl rfl rfl rfl rfl rfl rfl rfl rfl rfl
    exact (Function.update_eq_self_iff.mpr hp.symm).symm

/-- The books after a spend has burnt its nullifiers. -/
def Records.burn (r : Records) (m : Addr) (p : PoolState) (tree : ℕ) (nfs : List Hash)
    (accounting : NullifierAccounting) : Records :=
  ((r.updateNullifiers (nullifierEntries (.poolState m) tree nfs)).log
    (spentEvents (.poolState m) tree nfs)).putPool m (accounting.count nfs.length p)

/-- The nullifiers of a spend are new. -/
structure Burnable (r : Records) (m : Addr) (tree : ℕ) (nfs : List Hash) : Prop where
  nodup : nfs.Nodup
  fresh : ∀ nf ∈ nfs, r.nullifiers (.poolState m, nullifierSeed tree, nf) = none

lemma burn_ok {pool : AccountInfo} {m : Addr} {p : PoolState} {start tree : ℕ} {nfs : List Hash}
    {accounting : NullifierAccounting} (hk : pool.key = .poolState m)
    (hp : s.records.pools m = some p)
    (h : createNullifierRecords E s c start nfs pool tree accounting = .ok s') :
    Burnable s.records m tree nfs ∧ s'.records = s.records.burn m p tree nfs accounting := by
  obtain ⟨hnd, hfresh, hrec⟩ := createNullifierRecords_ok hk hp h
  exact ⟨⟨hnd, hfresh⟩, hrec⟩

/-! ### Leaves -/

/-- A single insert is a batch of one. -/
lemma insertLeaf_eq_batch (t : CommitmentTree) (h : Hash) :
    t.insertLeaf E h = t.insertLeavesBatch E [h] := by
  simp only [CommitmentTree.insertLeaf, CommitmentTree.insertLeavesBatch,
    CommitmentTree.appendNext, loop]
  cases happ : t.appendLeaf E h with
  | error e => rfl
  | ok r =>
    have hidx : r.2.2 = t.nextIndex := by
      simp only [CommitmentTree.appendLeaf, bind_eq_ok, require_eq_ok, exists_unit, pure_eq_ok]
        at happ
      obtain ⟨-, _, -, rfl⟩ := happ
      rfl
    simp [bind, Except.bind, pure, Except.pure, require, hidx]

lemma insertLeavesBatch_first {t t' : CommitmentTree} {hs : List Hash} {first : ℕ}
    (h : t.insertLeavesBatch E hs = .ok (t', first)) : first = t.nextIndex := by
  simp only [CommitmentTree.insertLeavesBatch, bind_eq_ok, require_eq_ok, exists_unit, pure_eq_ok,
    Prod.mk.injEq] at h
  obtain ⟨-, _, -, -, rfl⟩ := h
  rfl

/-- The tree after a batch that may be empty. -/
def CommitmentTree.Appended (E : Env) (t : CommitmentTree) (hs : List Hash)
    (t' : CommitmentTree) : Prop :=
  (hs = [] ∧ t' = t) ∨ t.insertLeavesBatch E hs = .ok (t', t.nextIndex)

@[simp] lemma insertedEvents_nil (pool : Addr) (tree first : ℕ) :
    insertedEvents pool tree first [] = [] := rfl

/-- The books after leaves were placed. -/
def Records.place (r : Records) (pool : Addr) (index : ℕ) (t t' : CommitmentTree)
    (hs : List Hash) : Records :=
  (r.putTree (pool, index) t').log (insertedEvents pool index t.nextIndex hs)

theorem insertOutputs_ok {pool tree : AccountInfo} {index : ℕ} {t : CommitmentTree}
    {hs : List Hash} (hk : tree.key = .commitmentTree pool.key index)
    (ht : s.records.trees (pool.key, index) = some t)
    (h : insertOutputs E s pool tree index hs = .ok s') :
    ∃ t', t.Appended E hs t' ∧ s'.records = s.records.place pool.key index t t' hs := by
  simp only [insertOutputs, bind_eq_ok] at h
  obtain ⟨t₀, hread, h⟩ := h
  obtain rfl := readTree_of_records hk ht hread
  split_ifs at h with hnil
  · rw [pure_eq_ok] at h
    subst h hnil
    refine ⟨t₀, .inl ⟨rfl, rfl⟩, ?_⟩
    refine Records.ext rfl ?_ rfl rfl rfl rfl rfl rfl rfl rfl rfl rfl (List.append_nil _).symm rfl rfl
    exact (Function.update_eq_self_iff.mpr ht.symm).symm
  · simp only [bind_eq_ok, pure_eq_ok] at h
    obtain ⟨⟨t', first⟩, hins, rfl⟩ := h
    obtain rfl := insertLeavesBatch_first hins
    refine ⟨t', .inr hins, ?_⟩
    rw [records_note, hk, records_putTree (k := (pool.key, index)) ht]
    rfl

theorem insertOne_ok {pool tree : AccountInfo} {index : ℕ} {t : CommitmentTree} {hash : Hash}
    (hk : tree.key = .commitmentTree pool.key index)
    (ht : s.records.trees (pool.key, index) = some t)
    (h : insertOne E s pool tree index hash = .ok s') :
    ∃ t', t.Appended E [hash] t' ∧ s'.records = s.records.place pool.key index t t' [hash] := by
  simp only [insertOne, bind_eq_ok, pure_eq_ok] at h
  obtain ⟨t₀, hread, ⟨t', first⟩, hins, rfl⟩ := h
  obtain rfl := readTree_of_records hk ht hread
  rw [insertLeaf_eq_batch] at hins
  obtain rfl := insertLeavesBatch_first hins
  refine ⟨t', .inr hins, ?_⟩
  rw [records_note, hk, records_putTree (k := (pool.key, index)) ht]
  simp [Records.place, insertedEvents]

/-! ### The pool and its trees -/

/-- The accounts of an instruction are a pool of the books and its active tree. -/
structure AtActiveTree (r : Records) (pool tree : AccountInfo) (m : Addr) (p : PoolState)
    (t : CommitmentTree) : Prop where
  pool_key : pool.key = .poolState m
  mint : p.zkbtcMint = m
  pool : r.pools m = some p
  tree_key : tree.key = .commitmentTree (.poolState m) p.activeTreeIndex
  tree : r.trees (.poolState m, p.activeTreeIndex) = some t

lemma validateActiveTreePda_ok {pool tree : AccountInfo} {index : ℕ} {u : Unit}
    (h : validateActiveTreePda E s c tree pool index = .ok u) :
    ∃ p, pool.key = .poolState p.zkbtcMint ∧ s.records.pools p.zkbtcMint = some p ∧
      tree.key = .commitmentTree pool.key index := by
  simp only [validateActiveTreePda, bind_eq_ok, require_eq_ok, exists_unit] at h
  obtain ⟨hpool, hk⟩ := h
  obtain ⟨p, hkey, hrec⟩ := validatePoolStatePda_ok hpool
  exact ⟨p, hkey, hrec, hk⟩

lemma tree_of_key {a : Addr} {pool : Addr} {index : ℕ} {t : CommitmentTree}
    (ho : s.ownerOf E c a = .program) (hk : a = .commitmentTree pool index)
    (h : s.treeAt a = some t) : s.records.trees (pool, index) = some t := by
  obtain ⟨pool', i', hk', hrec⟩ := tree_of_owned ho h
  obtain ⟨rfl, rfl⟩ : pool = pool' ∧ index = i' := by simpa [hk] using hk'
  exact hrec

/-- An owned tree at the active address and the pool that was read go together. -/
lemma atActiveTree {pool tree : AccountInfo} {p : PoolState} {t : CommitmentTree} {u : Unit}
    (ho : s.ownerOf E c tree.key = .program) (hread : readPool s pool = .ok p)
    (ht : readTree s tree = .ok t)
    (h : validateActiveTreePda E s c tree pool p.activeTreeIndex = .ok u) :
    ∃ m, AtActiveTree s.records pool tree m p t := by
  obtain ⟨p₀, hkey, hrec, htk⟩ := validateActiveTreePda_ok h
  obtain rfl := readPool_of_records hkey hrec hread
  rw [hkey] at htk
  rw [readTree, orElse_eq_ok] at ht
  exact ⟨_, hkey, rfl, hrec, htk, tree_of_key ho htk ht⟩

/-- The tree a proof was checked against. -/
structure SourceTree (r : Records) (pool : Addr) (activeIndex sourceIndex : ℕ) (root : Hash) :
    Prop where
  le : sourceIndex ≤ activeIndex
  accepts : ∃ t, r.trees (pool, sourceIndex) = some t ∧ t.isValidRoot root

lemma validateFrozenTree_ok {tree pool : AccountInfo} {activeIndex : ℕ} {root : Hash} {b : Bool}
    (h : validateFrozenTree E s c tree pool activeIndex root = .ok b) :
    ∃ t, s.treeAt tree.key = some t ∧ t.treeIndex < activeIndex ∧
      s.records.trees (pool.key, t.treeIndex) = some t ∧ b = t.isValidRoot root := by
  simp only [validateFrozenTree, readTree, bind_eq_ok, validateProgramOwner_ok, orElse_eq_ok,
    require_eq_ok, exists_unit, pure_eq_ok] at h
  obtain ⟨ho, t, ht, hlt, -, hk, rfl⟩ := h
  exact ⟨t, ht, hlt, tree_of_key ho hk ht, rfl⟩

lemma resolveSourceTree_ok {pool tree : AccountInfo} {m : Addr} {p : PoolState}
    {t : CommitmentTree} {src : Option AccountInfo} {root : Hash} {i : ℕ}
    (hat : AtActiveTree s.records pool tree m p t)
    (h : resolveSourceTree E s c pool tree p.activeTreeIndex src root = .ok i) :
    SourceTree s.records (.poolState m) p.activeTreeIndex i root := by
  simp only [resolveSourceTree, bind_eq_ok] at h
  obtain ⟨t₀, hread, h⟩ := h
  obtain rfl := readTree_of_records hat.tree_key hat.tree hread
  split_ifs at h with hvalid
  · rw [pure_eq_ok] at h
    subst h
    exact ⟨le_rfl, t₀, hat.tree, hvalid⟩
  · cases src with
    | none => exact absurd h (by simp [throw_ne_ok])
    | some a =>
      simp only [readTree, bind_eq_ok, require_eq_ok, exists_unit, orElse_eq_ok, pure_eq_ok] at h
      obtain ⟨b, hfrozen, hb, t₁, ht₁, rfl⟩ := h
      obtain ⟨t₂, ht₂, hlt, hrec, rfl⟩ := validateFrozenTree_ok hfrozen
      obtain rfl : t₂ = t₁ := by rw [ht₁] at ht₂; exact (Option.some_inj.mp ht₂).symm
      rw [hat.pool_key] at hrec
      exact ⟨hlt.le, t₂, hrec, hb⟩

lemma verifyVkMerkleAndProof_ok {pool vkRegistry tree : AccountInfo} {m : Addr} {p : PoolState}
    {t : CommitmentTree} {src : Option AccountInfo} {hd : JoinSplitHeader} {pre : JoinSplitPrefix}
    {i : ℕ} (hat : AtActiveTree s.records pool tree m p t)
    (h : verifyVkMerkleAndProof E s c pool vkRegistry tree p.activeTreeIndex src hd pre = .ok i) :
    SourceTree s.records (.poolState m) p.activeTreeIndex i pre.merkleRoot := by
  simp only [verifyVkMerkleAndProof, bind_eq_ok, require_eq_ok, exists_unit, pure_eq_ok] at h
  obtain ⟨_, hres, -, _, -, -, -, -, rfl⟩ := h
  exact resolveSourceTree_ok hat hres

/-- A proof was checked, so the active tree can be read. -/
lemma readTree_of_verify {pool vkRegistry tree : AccountInfo} {activeIndex : ℕ}
    {src : Option AccountInfo} {hd : JoinSplitHeader} {pre : JoinSplitPrefix} {i : ℕ}
    (h : verifyVkMerkleAndProof E s c pool vkRegistry tree activeIndex src hd pre = .ok i) :
    ∃ t, readTree s tree = .ok t := by
  simp only [verifyVkMerkleAndProof, resolveSourceTree, bind_eq_ok] at h
  obtain ⟨_, ⟨t, ht, -⟩, -⟩ := h
  exact ⟨t, ht⟩

end Utxopia.Pool
