import Utxopia.Pool.Notes
import Utxopia.Pool.Spend
import Utxopia.Pool.Tail

/-!
What transfers, merges and rotations do to the books.

A transfer burns its nullifiers and either places its outputs in the active tree or leaves
each in a queued leaf. A merge places queued leaves and closes them. A rotation opens the
tree after the active one.
-/

namespace Utxopia.Pool

open Utxopia.ByteString Utxopia.Check Utxopia.Runtime

variable {E : Env} {s s' : State} {c : Call}

/-! ### Reading the proof -/

lemma readFields_length {d : List UInt8} {off n : ℕ} {fs : List Hash}
    (h : readFields d off n = .ok fs) : fs.length = n := by
  simp only [readFields, bind_eq_ok, require_eq_ok, exists_unit, pure_eq_ok] at h
  obtain ⟨-, rfl⟩ := h
  simp

lemma parsePrefix_ok {hd : JoinSplitHeader} {n : ℕ} {pre : JoinSplitPrefix}
    (h : parsePrefix E c hd n = .ok pre) :
    pre.nullifiers.length = hd.nInputs ∧ pre.commitmentsOut.length = hd.nOutputs := by
  simp only [parsePrefix, bind_eq_ok, require_eq_ok, exists_unit, pure_eq_ok] at h
  obtain ⟨-, _, -, nfs, hn, outs, ho, rfl⟩ := h
  exact ⟨readFields_length hn, readFields_length ho⟩

lemma parseHeader_ok {d : List UInt8} {hd : JoinSplitHeader} (h : parseHeader d = .ok hd) :
    hd.nInputs ≠ 0 ∧ hd.nOutputs ≠ 0 := by
  simp only [parseHeader, bind_eq_ok, require_eq_ok, exists_unit, pure_eq_ok] at h
  obtain ⟨-, ⟨-, hi, ho, -⟩, rfl⟩ := h
  exact ⟨hi, ho⟩

/-- The queued leaves of a call have an account each. -/
lemma resolveJoinsplitTail_queued {hd : JoinSplitHeader} {start n count : ℕ} {policy : PolicyTail}
    {tail : JoinSplitTail} (h : resolveJoinsplitTail hd start policy n count = .ok tail)
    (hq : hd.has Jsflags.QUEUED_LEAVES = true) :
    n = 0 ∨ ∃ i, tail.queuedLeavesStart = some i ∧ i + n ≤ count := by
  obtain ⟨hcount, rfl⟩ := resolveJoinsplitTail_eq_ok.mp h
  have hleaves : flagCount hd Jsflags.QUEUED_LEAVES n = n := if_pos hq
  rcases Nat.eq_zero_or_pos n with hn | hn
  · exact .inl hn
  · refine .inr ⟨_, firstSlot_eq_some.mpr ⟨hleaves.trans_ne hn.ne', rfl⟩, ?_⟩
    simp only [groupSizes, List.sum_cons, List.sum_nil] at hcount
    omega

/-! ### Transfers -/

/-- What a plan has established. -/
structure TransactPlan.Sound (r : Records) (c : Call) (plan : TransactPlan) (m : Addr)
    (p : PoolState) (t : CommitmentTree) : Prop where
  at_tree : AtActiveTree r plan.pool plan.tree m p t
  active : plan.activeIndex = p.activeTreeIndex
  source : SourceTree r (.poolState m) p.activeTreeIndex plan.sourceTreeIndex plan.pre.merkleRoot
  room : plan.queued = true → ∃ i, plan.queuedLeavesStart = some i ∧
    i + plan.pre.commitmentsOut.length ≤ c.accounts.length
  running : p.paused = false
  inputs : plan.pre.nullifiers.length = plan.header.nInputs ∧ plan.header.nInputs ≠ 0
  outputs : plan.pre.commitmentsOut ≠ []

lemma planTransact_ok {plan : TransactPlan} (h : planTransact E s c = .ok plan) :
    ∃ m p t, plan.Sound s.records c m p t := by
  simp only [planTransact, bind_eq_ok, exists_unit, require_eq_ok, pure_eq_ok] at h
  obtain ⟨hd, hhd, -, -, pre, hpre, -, pool, -, tree, -, vk, -, user, -, sys, -, -, -, p, h⟩ := h
  obtain ⟨hp, pt, -, -, tail, htail, _, -, _, -, _, -, _, -, _, -, _, -, src, hsrc, rfl⟩ := h
  simp only [checkTransactPool, bind_eq_ok, exists_unit, require_eq_ok, pure_eq_ok,
    validateProgramOwner_ok] at hp
  obtain ⟨-, howner, -, p, hread, hpaused, -, hactive, _, -, -, rfl⟩ := hp
  obtain ⟨t, ht⟩ := readTree_of_verify hsrc
  obtain ⟨m, hat⟩ := atActiveTree howner hread ht hactive
  have hn := parsePrefix_ok hpre
  refine ⟨m, p, t, hat, rfl, verifyVkMerkleAndProof_ok hat hsrc, fun hq => ?_, by simpa using hpaused,
    ⟨hn.1, (parseHeader_ok hhd).1⟩, fun hnil => ?_⟩
  · rcases resolveJoinsplitTail_queued htail hq with hzero | hroom
    · exact absurd hzero (parseHeader_ok hhd).2
    · rwa [hn.2]
  · rw [hnil] at hn
    exact (parseHeader_ok hhd).2 hn.2.symm

/-- The records that queueing leaves makes. -/
def queueEntries (pool : Addr) (leaves : List QueuedLeaf) :
    List ((Addr × Hash) × Option QueuedLeaf) :=
  leaves.map fun l => ((pool, l.commitment), some l)

def queuedEvents (pool : Addr) (hs : List Hash) : List Event := hs.map (.queued pool)

@[simp] lemma queueEntries_keys (pool : Addr) (leaves : List QueuedLeaf) :
    (queueEntries pool leaves).map Prod.fst = leaves.map fun l => (pool, l.commitment) := by
  simp [queueEntries, Function.comp_def]

/-- The nullifiers that the leaf of output `i` still has to count. -/
def TransactPlan.debtOf (plan : TransactPlan) (i : ℕ) : ℕ := if i = 0 then plan.header.nInputs else 0

lemma queueOutput_ok {plan : TransactPlan} {item : ℕ × AccountInfo × Hash}
    (h : queueOutput E c plan s item = .ok s') :
    ∃ l : QueuedLeaf, l.commitment = item.2.2 ∧ l.treeIndex = plan.activeIndex ∧
      l.payer = plan.payer.key ∧ l.nullifierDebt = plan.debtOf item.1 ∧
      s'.records = (s.records.updateQueue (queueEntries plan.pool.key [l])).log
        (queuedEvents plan.pool.key [item.2.2]) := by
  simp only [queueOutput, bind_eq_ok, require_eq_ok, exists_unit, pure_eq_ok] at h
  obtain ⟨-, -, acc, hacc, rfl⟩ := h
  exact ⟨plan.leaf c item.1 item.2.2, rfl, rfl, rfl, rfl, Records.ext rfl rfl rfl rfl rfl rfl
    (recs_create (createOrClaim_owner hacc) _) rfl rfl rfl rfl rfl rfl rfl rfl⟩

/-- **Queueing**: one leaf for every output, stamped with the active tree. -/
theorem queueOutputs_ok {plan : TransactPlan} {items : List (ℕ × AccountInfo × Hash)}
    (h : loop (queueOutput E c plan) s items = .ok s') :
    ∃ leaves : List QueuedLeaf, leaves.map QueuedLeaf.commitment = items.map (fun i => i.2.2) ∧
      (∀ l ∈ leaves, l.treeIndex = plan.activeIndex ∧ l.payer = plan.payer.key) ∧
      leaves.map QueuedLeaf.nullifierDebt = items.map (fun i => plan.debtOf i.1) ∧
      s'.records = (s.records.updateQueue (queueEntries plan.pool.key leaves)).log
        (queuedEvents plan.pool.key (items.map fun i => i.2.2)) := by
  induction items generalizing s with
  | nil =>
    simp only [loop_nil, Except.ok.injEq] at h
    refine ⟨[], rfl, by simp, rfl, ?_⟩
    simp [← h, queueEntries, queuedEvents, Records.updateQueue, Records.log]
  | cons item items ih =>
    obtain ⟨m, hm, hrest⟩ := loop_cons_eq_ok.mp h
    obtain ⟨l, hl, htree, hpayer, hdebt, hrec⟩ := queueOutput_ok hm
    obtain ⟨ls, hls, hprop, hdebts, hfinal⟩ := ih hrest
    refine ⟨l :: ls, by simp [hl, hls], ?_, by simp [hdebt, hdebts], ?_⟩
    · intro x hx
      rcases List.mem_cons.mp hx with rfl | hx
      · exact ⟨htree, hpayer⟩
      · exact hprop x hx
    · rw [hfinal, hrec]
      simp [queueEntries, queuedEvents, Records.updateQueue, Records.log]

lemma queueItems_commitments {accounts : List AccountInfo} {start : ℕ} {hs : List Hash}
    (h : start + hs.length ≤ accounts.length) :
    (queueItems accounts start hs).map (fun i => i.2.2) = hs := by
  have hlen : hs.length ≤ (accounts.drop start).length := by rw [List.length_drop]; omega
  have hzip : ((accounts.drop start).zip hs).map Prod.snd = hs := List.map_snd_zip hlen
  change List.map (Prod.snd ∘ Prod.snd) (queueItems accounts start hs) = hs
  rw [queueItems, ← List.map_map, List.map_snd_zip, hzip]
  rw [List.length_zip, List.length_range]
  exact min_le_right _ _

lemma queueItems_places {accounts : List AccountInfo} {start : ℕ} {hs : List Hash}
    (h : start + hs.length ≤ accounts.length) :
    (queueItems accounts start hs).map Prod.fst = List.range hs.length := by
  refine List.map_fst_zip ?_
  rw [List.length_range, List.length_zip, List.length_drop]
  omega

/-- What a transfer does with its outputs. -/
inductive TransactOutputs (E : Env) (r : Records) (plan : TransactPlan) (m : Addr)
    (t : CommitmentTree) : Records → Prop where
  | inline {t' : CommitmentTree} (inline : plan.queued = false)
      (appended : t.Appended E plan.pre.commitmentsOut t') :
      TransactOutputs E r plan m t
        (r.place (.poolState m) plan.activeIndex t t' plan.pre.commitmentsOut)
  | queue {leaves : List QueuedLeaf} (queued : plan.queued = true)
      (commitments : leaves.map QueuedLeaf.commitment = plan.pre.commitmentsOut)
      (stamped : ∀ l ∈ leaves, l.treeIndex = plan.activeIndex)
      (debts : leaves.map QueuedLeaf.nullifierDebt =
        (List.range plan.pre.commitmentsOut.length).map plan.debtOf) :
      TransactOutputs E r plan m t
        ((r.updateQueue (queueEntries (.poolState m) leaves)).log
          (queuedEvents (.poolState m) plan.pre.commitmentsOut))

def TransactPlan.accounting (plan : TransactPlan) : NullifierAccounting :=
  if plan.queued then .DeferToQueue else .ApplyNow

/-- **A transfer** burns its nullifiers and places or queues its outputs. -/
theorem processTransact_ok (h : processTransact E s c = .ok s') :
    ∃ plan m p t, planTransact E s c = .ok plan ∧ plan.Sound s.records c m p t ∧
      Burnable s.records m plan.sourceTreeIndex plan.pre.nullifiers ∧
      TransactOutputs E (s.records.burn m p plan.sourceTreeIndex plan.pre.nullifiers
        plan.accounting) plan m t s'.records := by
  simp only [processTransact, bind_eq_ok] at h
  obtain ⟨plan, hplan, s₁, hburn, h⟩ := h
  obtain ⟨m, p, t, hs⟩ := planTransact_ok hplan
  obtain ⟨hburnable, hrec⟩ := burn_ok hs.at_tree.pool_key hs.at_tree.pool hburn
  refine ⟨plan, m, p, t, hplan, hs, hburnable, ?_⟩
  rw [TransactPlan.accounting, ← hrec]
  cases hq : plan.queued with
  | true =>
    simp only [hq, if_true, bind_eq_ok, orElse_eq_ok] at h
    obtain ⟨start, hstart, hloop⟩ := h
    obtain ⟨i, hi, hroom⟩ := hs.room hq
    obtain rfl : i = start := by rw [hstart] at hi; exact (Option.some_inj.mp hi).symm
    obtain ⟨leaves, hcomm, hprop, hdebts, hfinal⟩ := queueOutputs_ok hloop
    rw [queueItems_commitments hroom, hs.at_tree.pool_key] at hfinal
    rw [queueItems_commitments hroom] at hcomm
    rw [hfinal]
    refine .queue hq hcomm (fun l hl => (hprop l hl).1) ?_
    rw [hdebts, ← queueItems_places hroom, List.map_map]
    rfl
  | false =>
    simp only [hq, Bool.false_eq_true, if_false] at h
    have ht : s₁.records.trees (plan.pool.key, plan.activeIndex) = some t := by
      rw [hrec, hs.at_tree.pool_key, hs.active]
      exact hs.at_tree.tree
    have hk : plan.tree.key = .commitmentTree plan.pool.key plan.activeIndex := by
      rw [hs.at_tree.pool_key, hs.active]
      exact hs.at_tree.tree_key
    obtain ⟨t', happ, hfinal⟩ := insertOutputs_ok hk ht h
    rw [hfinal, hs.at_tree.pool_key]
    exact .inline hq happ

/-! ### Merges -/

/-- What the first pass over the leaves has seen. -/
structure Gathered.Sound (r : Records) (pool : Addr) (active : ℕ) (got : Gathered)
    (leaves : List QueuedLeaf) : Prop where
  seen : got.seen = leaves.map fun l => .queuedLeaf pool l.commitment
  commitments : got.commitments = leaves.map QueuedLeaf.commitment
  debt : got.nullifierDebt = (leaves.map QueuedLeaf.nullifierDebt).sum
  nodup : (leaves.map QueuedLeaf.commitment).Nodup
  queued : ∀ l ∈ leaves, r.queuedLeaves (pool, l.commitment) = some l ∧ l.treeIndex = active

lemma gatherLeaf_ok {pool : Addr} {active : ℕ} {got got' : Gathered} {leaves : List QueuedLeaf}
    {item : AccountInfo × AccountInfo} (hg : got.Sound s.records pool active leaves)
    (h : gatherLeaf E c s pool active got item = .ok got') :
    ∃ l : QueuedLeaf, item.1.key = .queuedLeaf pool l.commitment ∧
      got'.Sound s.records pool active (leaves ++ [l]) := by
  simp only [gatherLeaf, bind_eq_ok, require_eq_ok, exists_unit, orElse_eq_ok, pure_eq_ok,
    validateProgramOwner_ok] at h
  obtain ⟨ho, -, -, l, hl, htree, hk, -, hnew, rfl⟩ := h
  obtain ⟨pool', hash, hk', hrec⟩ := queuedLeaf_of_owned ho hl
  obtain ⟨rfl, rfl⟩ : pool = pool' ∧ l.commitment = hash := by simpa [hk] using hk'
  refine ⟨l, hk, ?_, ?_, ?_, ?_, ?_⟩
  · simp [hg.seen, hk]
  · simp [hg.commitments]
  · simp [hg.debt]
  · rw [List.map_append, List.nodup_append]
    refine ⟨hg.nodup, by simp, ?_⟩
    rintro a ha b hb rfl
    rw [List.map_singleton, List.mem_singleton] at hb
    subst hb
    obtain ⟨x, hx, hxc⟩ := List.mem_map.mp ha
    exact hnew (by rw [hg.seen, hk]; exact List.mem_map.mpr ⟨x, hx, by rw [hxc]⟩)
  · intro x hx
    rcases List.mem_append.mp hx with hx | hx
    · exact hg.queued x hx
    · obtain rfl := List.mem_singleton.mp hx
      exact ⟨hrec, htree⟩

lemma gatherLeaves_ok {pool : Addr} {active : ℕ} {got got' : Gathered} {leaves : List QueuedLeaf}
    {items : List (AccountInfo × AccountInfo)} (hg : got.Sound s.records pool active leaves)
    (h : loop (gatherLeaf E c s pool active) got items = .ok got') :
    ∃ ls : List QueuedLeaf,
      items.map (fun i => i.1.key) = ls.map (fun l => .queuedLeaf pool l.commitment) ∧
      got'.Sound s.records pool active (leaves ++ ls) := by
  induction items generalizing got leaves with
  | nil =>
    simp only [loop_nil, Except.ok.injEq] at h
    exact ⟨[], rfl, by simpa [← h] using hg⟩
  | cons item items ih =>
    obtain ⟨m, hm, hrest⟩ := loop_cons_eq_ok.mp h
    obtain ⟨l, hk, hl⟩ := gatherLeaf_ok hg hm
    obtain ⟨ls, hks, hls⟩ := ih hl hrest
    exact ⟨l :: ls, by simp [hk, hks], by simpa using hls⟩

/-- The queue after leaves were closed. -/
def closedEntries (pool : Addr) (leaves : List QueuedLeaf) :
    List ((Addr × Hash) × Option QueuedLeaf) :=
  leaves.map fun l => ((pool, l.commitment), none)

lemma closeLeaf_records {item : AccountInfo × AccountInfo} {pool : Addr} {hash : Hash}
    (hk : item.1.key = .queuedLeaf pool hash) :
    (closeLeaf s item).records = s.records.updateQueue [((pool, hash), none)] := by
  simp only [closeLeaf, hk, records_fund]
  refine Records.ext rfl rfl rfl rfl rfl rfl ?_ rfl rfl rfl rfl rfl rfl rfl rfl
  exact (Store.recs_set ..).trans (by rw [Account.rec?_close]; rfl)

lemma closeLeaves_records {items : List (AccountInfo × AccountInfo)} {pool : Addr}
    {leaves : List QueuedLeaf}
    (hk : items.map (fun i => i.1.key) = leaves.map (fun l => .queuedLeaf pool l.commitment)) :
    (items.foldl closeLeaf s).records = s.records.updateQueue (closedEntries pool leaves) := by
  induction items generalizing s leaves with
  | nil =>
    obtain rfl : leaves = [] := by simpa using hk.symm
    rfl
  | cons item items ih =>
    cases leaves with
    | nil => exact absurd hk (by simp)
    | cons l ls =>
      simp only [List.map_cons, List.cons.injEq] at hk
      rw [List.foldl_cons, ih hk.2, closeLeaf_records hk.1]
      rfl

/-- The books after a merge. -/
def Records.merge (r : Records) (m : Addr) (p : PoolState) (t t' : CommitmentTree)
    (leaves : List QueuedLeaf) : Records :=
  let hs := leaves.map QueuedLeaf.commitment
  ((((r.place (.poolState m) p.activeTreeIndex t t' hs).log
    (mergedEvents (.poolState m) p.activeTreeIndex t.nextIndex hs)).putPool m
      (if 0 < (leaves.map QueuedLeaf.nullifierDebt).sum
        then p.addNullifiers (leaves.map QueuedLeaf.nullifierDebt).sum else p)).updateQueue
          (closedEntries (.poolState m) leaves))

/-- **A merge** places different queued leaves of the active tree and closes each. -/
theorem processMergeQueuedLeaves_ok (h : processMergeQueuedLeaves E c s = .ok s') :
    ∃ pool tree m p t t', ∃ leaves : List QueuedLeaf, AtActiveTree s.records pool tree m p t ∧
      (leaves.map QueuedLeaf.commitment).Nodup ∧
      (∀ l ∈ leaves, s.records.queuedLeaves (.poolState m, l.commitment) = some l ∧
        l.treeIndex = p.activeTreeIndex) ∧
      t.insertLeavesBatch E (leaves.map QueuedLeaf.commitment) = .ok (t', t.nextIndex) ∧
      s'.records = s.records.merge m p t t' leaves := by
  simp only [processMergeQueuedLeaves, bind_eq_ok, exists_unit, require_eq_ok, pure_eq_ok,
    validateProgramOwner_ok] at h
  obtain ⟨-, -, -, caller, -, pool, -, tree, -, -, -, howner, -, -, p, hread, -, hactive, h⟩ := h
  obtain ⟨got, hgot, t, ht, ⟨t', first⟩, hins, rfl⟩ := h
  obtain ⟨m, hat⟩ := atActiveTree howner hread ht hactive
  have h0 : Gathered.Sound s.records pool.key p.activeTreeIndex ⟨[], [], 0⟩ [] :=
    ⟨rfl, rfl, rfl, by simp, by simp⟩
  obtain ⟨leaves, hkeys, hg⟩ := gatherLeaves_ok h0 hgot
  rw [List.nil_append] at hg
  rw [hat.pool_key] at hg hkeys
  rw [hg.commitments] at hins
  obtain rfl := insertLeavesBatch_first hins
  refine ⟨pool, tree, m, p, t, t', leaves, hat, hg.nodup, hg.queued, hins, ?_⟩
  rw [closeLeaves_records hkeys, Records.merge, hg.commitments, hg.debt, hat.pool_key]
  congr 1
  have htree : ((s.putTree t' tree.key).note
      (insertedEvents (.poolState m) p.activeTreeIndex t.nextIndex
          (leaves.map QueuedLeaf.commitment) ++
        mergedEvents (.poolState m) p.activeTreeIndex t.nextIndex
          (leaves.map QueuedLeaf.commitment))).records =
      (s.records.place (.poolState m) p.activeTreeIndex t t'
        (leaves.map QueuedLeaf.commitment)).log
          (mergedEvents (.poolState m) p.activeTreeIndex t.nextIndex
            (leaves.map QueuedLeaf.commitment)) := by
    rw [records_note, hat.tree_key,
      records_putTree (k := (.poolState m, p.activeTreeIndex)) hat.tree]
    simp [Records.place, Records.log]
  have hpool : ∀ {s₁ : State} {r : Records}, s₁.records = r → r.pools m = some p →
      s₁.records = r.putPool m p := fun h hp => by
    rw [h]
    exact Records.ext (Function.update_eq_self_iff.mpr hp.symm).symm rfl rfl rfl rfl rfl rfl rfl rfl
      rfl rfl rfl rfl rfl rfl
  split_ifs
  · rw [records_putPool (o := p) (by rw [htree]; exact hat.pool), htree]
  · exact hpool htree hat.pool

/-! ### Rotations -/

lemma createTree_ok {pool : Addr} {index : ℕ} (h : createTree E s pool index = .ok s') :
    s'.records = s.records.putTree (pool, index) (.init index) := by
  simp only [createTree, bind_eq_ok, pure_eq_ok] at h
  obtain ⟨acc, hacc, rfl⟩ := h
  exact Records.ext rfl (recs_create (createOrClaim_owner hacc) _) rfl rfl rfl rfl rfl rfl rfl rfl rfl
    rfl rfl rfl rfl

/-- The index of the tree after the active one, in 32 bits. -/
def PoolState.nextTreeIndex (p : PoolState) : ℕ := (p.activeTreeIndex + 1) % 2 ^ 32

/-- **A rotation** makes a new tree the active one once the old one is full. -/
theorem processRotateTree_ok (h : processRotateTree E s c = .ok s') :
    ∃ m p t, p.zkbtcMint = m ∧ s.records.pools m = some p ∧
      s.records.trees (.poolState m, p.activeTreeIndex) = some t ∧ maxLeaves ≤ t.nextIndex ∧
      s'.records = (s.records.putTree (.poolState m, p.nextTreeIndex)
        (.init p.nextTreeIndex)).putPool m { p with activeTreeIndex := p.nextTreeIndex } := by
  simp only [processRotateTree, readTree, bind_eq_ok, exists_unit, require_eq_ok, pure_eq_ok,
    orElse_eq_ok, validateProgramOwner_ok] at h
  obtain ⟨-, pool, -, tree, -, newTree, -, payer, -, sys, -, -, -, htree, -, -, -, hpda, p, h⟩ := h
  obtain ⟨hread, hk, t, ht, hfull, -, s₁, hs₁, rfl⟩ := h
  obtain ⟨p₀, hkey, hrec⟩ := validatePoolStatePda_ok hpda
  obtain rfl := readPool_of_records hkey hrec hread
  have h₁ := createTree_ok hs₁
  have hp₁ : s₁.records.pools p.zkbtcMint = some p := by rw [h₁]; exact hrec
  rw [hkey] at hk
  refine ⟨_, p, t, rfl, hrec, tree_of_key htree hk ht, not_lt.mp hfull, ?_⟩
  rw [hkey, records_putPool hp₁, h₁, hkey]
  rfl

end Utxopia.Pool
