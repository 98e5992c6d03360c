import Utxopia.Pool.Nullifiers

/-!
Whether the records of a spend can be committed from the rollup.

A spend puts its records under seeds that depend on the tree the notes came from: the first tree's
have no index in them. A commit looks for its records under the seeds of the first tree only.
-/

namespace Utxopia.Pool

open Utxopia.ByteString Utxopia.Check Utxopia.Run Utxopia.Runtime

variable {E : Env} {s s' : State} {c c' : Call}

lemma nullifierSeed_eq_none {tree : ℕ} : nullifierSeed tree = none ↔ tree = 0 := by
  unfold nullifierSeed
  split_ifs with h <;> simp [h]

/-- The accounts of a spend are at the addresses of its nullifiers, and are writable. -/
lemma createNullifiers_accounts {pool : Addr} {tree : ℕ} {items : List (AccountInfo × Hash)}
    (h : loop (createNullifier E pool tree) s items = .ok s') :
    ∀ item ∈ items, item.1.isWritable = true ∧
      item.1.key = .nullifier pool (nullifierSeed tree) item.2 := by
  induction items generalizing s with
  | nil => simp
  | cons item items ih =>
    obtain ⟨s₁, hs₁, hrest⟩ := loop_cons_eq_ok.mp h
    intro item' hitem
    rcases List.mem_cons.mp hitem with rfl | hitem
    · simp only [createNullifier, validateAccountWritable, bind_eq_ok, require_eq_ok,
        exists_unit] at hs₁
      exact ⟨hs₁.1, hs₁.2.1⟩
    · exact ih hrest item' hitem

lemma putPool_nullifiers (s : State) (p : PoolState) (a : Addr) :
    (s.putPool p a).nullifiers = s.nullifiers := by
  unfold State.putPool
  split <;> rfl

/-- What a spend lists is recorded. -/
lemma created_recorded {pool : AccountInfo} {start tree : ℕ} {ns : List Hash}
    {accounting : NullifierAccounting}
    (h : createNullifierRecords E s c start ns pool tree accounting = .ok s')
    {item : AccountInfo × Hash} (hitem : item ∈ (c.accounts.drop start).zip ns) :
    item.1.isWritable = true ∧ item.1.key = .nullifier pool.key (nullifierSeed tree) item.2 ∧
      s'.records.nullifiers (pool.key, nullifierSeed tree, item.2) = some ⟨⟩ := by
  simp only [createNullifierRecords, bind_eq_ok, require_eq_ok, exists_unit] at h
  obtain ⟨-, s₁, hloop, h⟩ := h
  obtain ⟨hwritable, hkey⟩ := createNullifiers_accounts hloop item hitem
  obtain ⟨hnodup, -, hrec⟩ := createNullifiers_ok hloop
  have hrecorded : s₁.records.nullifiers (pool.key, nullifierSeed tree, item.2) = some ⟨⟩ := by
    rw [hrec]
    refine Store.updates_of_mem_nodup ?_ (List.mem_map.mpr ⟨item.2, List.mem_map_of_mem hitem, rfl⟩)
    rw [nullifierEntries_keys]
    exact hnodup.map fun a b hab => by simpa using hab
  refine ⟨hwritable, hkey, ?_⟩
  cases accounting with
  | ApplyNow =>
    simp only [bind_eq_ok, pure_eq_ok] at h
    obtain ⟨p, -, rfl⟩ := h
    exact (congrFun (congrArg Store.recs (putPool_nullifiers ..)) _).trans hrecorded
  | DeferToQueue =>
    rw [pure_eq_ok] at h
    exact h ▸ hrecorded

/-- A commit takes a recorded nullifier at its address if the address has no tree in it. -/
lemma checkCommittedNullifier_recorded {pool : Addr} {seed : Option ℕ} {nf : Hash} {info : AccountInfo}
    (hwritable : info.isWritable = true) (hkey : info.key = .nullifier pool seed nf)
    (hrec : s.records.nullifiers (pool, seed, nf) = some ⟨⟩) :
    checkCommittedNullifier E s c pool (info, nf) = .ok () ↔ seed = none := by
  obtain ⟨hown, hlive⟩ := Account.rec?_eq_some.mp hrec
  simp only [checkCommittedNullifier, validateProgramOwner, validateAccountWritable, bind_eq_ok,
    require_eq_ok, exists_unit, hkey, Addr.nullifier.injEq]
  constructor
  · rintro ⟨-, -, ⟨-, hseed, -⟩, -⟩
    exact hseed
  · rintro rfl
    exact ⟨hown, hwritable, ⟨trivial, rfl, trivial⟩, by simp [hlive]⟩

/-- An accepted commit names records of the first tree only. -/
lemma commit_first_tree (h : processMagicblockCommit E s c = .ok s') :
    ∃ pool, c.account 4 = .ok pool ∧
      ∀ info ∈ c.accounts.drop 6, ∃ nf, info.key = .nullifier pool.key none nf := by
  simp only [processMagicblockCommit, bind_eq_ok, exists_unit, require_eq_ok, pure_eq_ok] at h
  obtain ⟨-, -, -, -, hlen, payer, -, authority, -, context, -, program, -, pool, hpool, h⟩ := h
  obtain ⟨tree, -, -, -, -, -, -, -, p, -, -, -, -, -, -, t, -, -, hloop, -⟩ := h
  refine ⟨pool, hpool, fun info hinfo => ?_⟩
  have hnamed := loop_forall (P := fun item => item.1.key = .nullifier pool.key none item.2)
    (fun _ item _ hitem => by
      simp only [checkCommittedNullifier, bind_eq_ok, exists_unit, require_eq_ok] at hitem
      exact hitem.2.2.1) hloop
  -- there are as many hashes as records, so every record is looked at
  obtain ⟨i, hi, rfl⟩ := List.mem_iff_getElem.mp hinfo
  rw [List.length_drop, hlen, Nat.add_sub_cancel_left] at hi
  exact ⟨_, hnamed (_, slice 32 c.data (3 + i * 32)) (List.mem_iff_getElem.mpr ⟨i, by simp [hlen, hi], by simp⟩)⟩

/-- **Committable records**: a commit accepts a record that a spend has created if and only if the
spend was from the first tree. If it was from another, no commit is accepted that names the record. -/
theorem created_committable_iff {pool : AccountInfo} {start tree : ℕ} {ns : List Hash}
    {accounting : NullifierAccounting}
    (h : createNullifierRecords E s c start ns pool tree accounting = .ok s')
    {item : AccountInfo × Hash} (hitem : item ∈ (c.accounts.drop start).zip ns) :
    (checkCommittedNullifier E s' c' pool.key item = .ok () ↔ tree = 0) ∧
      (tree ≠ 0 → ∀ s₁ c₁ s₂, processMagicblockCommit E s₁ c₁ = .ok s₂ →
        ∀ info ∈ c₁.accounts.drop 6, info.key ≠ item.1.key) := by
  obtain ⟨hwritable, hkey, hrec⟩ := created_recorded h hitem
  refine ⟨(checkCommittedNullifier_recorded hwritable hkey hrec).trans nullifierSeed_eq_none,
    fun hne s₁ c₁ s₂ hcommit info hinfo heq => ?_⟩
  obtain ⟨p, -, hfirst⟩ := commit_first_tree hcommit
  obtain ⟨nf, hnf⟩ := hfirst info hinfo
  rw [hnf, hkey, Addr.nullifier.injEq] at heq
  exact hne (nullifierSeed_eq_none.mp heq.2.1.symm)

/-! ### Runs -/

namespace Regtest

/-- A call with the record of a nullifier of a tree. -/
def spendCall (tree : ℕ) : Call where
  accounts := nullifierAccounts tree [note 1]
  data := []
  slot := 0
  unixTimestamp := 0
  foreign := fun _ => ⟨zeros 32, true, []⟩
  cpiSucceeds := true

/-- A commit of that record. -/
def commitCall (tree : ℕ) : Call :=
  { spendCall tree with
    accounts := [signer user, signer admin, writable (.key (toLe 32 80)),
      readonly (.key (toLe 32 81)), writable pool, writable (.commitmentTree pool 0)] ++
      nullifierAccounts tree [note 1]
    data := [1, 0, 1] ++ (note 1).toList }

/-- The record of a note of a tree is made in a pool, and committed. -/
def madeAndCommitted (tree : ℕ) (s : State) : Option Bool :=
  (createNullifierRecords env s (spendCall tree) 0 [note 1] (writable pool) tree .ApplyNow).toOption.map
    fun s' => (processMagicblockCommit env s' (commitCall tree)).toBool

lemma run_committed : (exec (step env) (fun _ _ => true) .genesis [openPool]).any
    (fun s => madeAndCommitted 0 s == some true && madeAndCommitted 1 s == some false) = true := by
  decide +kernel

lemma mem_spendCall (tree : ℕ) : (writable (.nullifier pool (nullifierSeed tree) (note 1)), note 1) ∈
    ((spendCall tree).accounts.drop 0).zip [note 1] :=
  List.mem_singleton.mpr rfl

end Regtest

open Regtest in
/-- **Not committable**: the record of a spend from the second tree is refused. -/
theorem second_tree_uncommittable : ∃ (s s' : State) (item : AccountInfo × Hash),
    createNullifierRecords env s (spendCall 1) 0 [note 1] (writable pool) 1 .ApplyNow = .ok s' ∧
      item ∈ ((spendCall 1).accounts.drop 0).zip [note 1] ∧
      checkCommittedNullifier env s' (commitCall 1) pool item ≠ .ok () ∧
      ∀ s'', processMagicblockCommit env s' (commitCall 1) ≠ .ok s'' := by
  obtain ⟨s, -, hrun⟩ := (Option.any_eq_true _ _).mp run_committed
  rw [Bool.and_eq_true, beq_iff_eq, beq_iff_eq, madeAndCommitted, madeAndCommitted,
    Option.map_eq_some_iff, Option.map_eq_some_iff] at hrun
  obtain ⟨-, s', hs', hcommit⟩ := hrun
  have hmade := toOption_eq_some.mp hs'
  obtain ⟨hwritable, hkey, hrec⟩ := created_recorded hmade (mem_spendCall 1)
  refine ⟨s, s', _, hmade, mem_spendCall 1, fun hcheck => ?_, fun s'' hok => ?_⟩
  · have hseed := (checkCommittedNullifier_recorded hwritable hkey hrec).mp hcheck
    exact absurd (nullifierSeed_eq_none.mp hseed) one_ne_zero
  · exact absurd hcommit (by simp [hok, Except.toBool])

open Regtest in
/-- A record of the first tree. -/
theorem created_committable_iff_first : ∃ (s s' : State) (item : AccountInfo × Hash),
    createNullifierRecords env s (spendCall 0) 0 [note 1] (writable pool) 0 .ApplyNow = .ok s' ∧
      checkCommittedNullifier env s' (commitCall 0) pool item = .ok () := by
  obtain ⟨s, -, hrun⟩ := (Option.any_eq_true _ _).mp run_committed
  rw [Bool.and_eq_true, beq_iff_eq, madeAndCommitted, Option.map_eq_some_iff] at hrun
  obtain ⟨⟨s', hs', -⟩, -⟩ := hrun
  have hmade := toOption_eq_some.mp hs'
  exact ⟨s, s', _, hmade, (created_committable_iff hmade (mem_spendCall 0)).1.mpr rfl⟩

end Utxopia.Pool
