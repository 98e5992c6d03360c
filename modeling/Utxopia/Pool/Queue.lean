import Utxopia.Pool.Nullifiers

/-!
Queued notes are delivered once.

A transfer may leave its outputs in queued leaves, one for every commitment. A merge places a
leaf and closes it. The account of a leaf is made by a helper that takes over whatever is
there, so a commitment that is queued while it is queued is lost.
-/

namespace Utxopia.Pool

open Utxopia.ByteString Utxopia.Check Utxopia.Run Utxopia.Runtime

variable {E : Env} {s s' : State} {c c' : Call} {l : Label} {r r' : Records}

/-! ### What is queued and what is merged -/

def TransactPlan.queuedKeys (plan : TransactPlan) : List (Addr × Hash) :=
  if plan.queued then plan.pre.commitmentsOut.map (plan.pool.key, ·) else []

/-- Pool and commitment of every output a call queues. -/
def Instruction.queues (E : Env) (s : State) (c : Call) : Instruction → List (Addr × Hash)
  | .Transact => ((planTransact E s c).toOption.map TransactPlan.queuedKeys).getD []
  | _ => []

def Label.queues (E : Env) (s : State) : Label → List (Addr × Hash)
  | .call c => ((c.decode E).map fun (i, c) => i.queues E s c).getD []
  | _ => []

def queuedBy (E : Env) (st : Step State Label) : List (Addr × Hash) := st.call.queues E st.pre

def Event.mergedKey : Event → Option (Addr × Hash)
  | .merged pool _ _ commitment => some (pool, commitment)
  | _ => none

/-- The outputs that merges have placed, one entry for every placement. -/
def Records.merges (r : Records) : List (Addr × Hash) := r.journal.filterMap Event.mergedKey

/-- Whether an output waits in its own live leaf. -/
def Records.waiting (r : Records) (k : Addr × Hash) : ℕ := if (r.queuedLeaves k).isSome then 1 else 0

/-- Every queued output waits in a leaf of its own or was placed once, where the tree has it. -/
structure Delivered (E : Env) (tr : List (Step State Label)) (r : Records) : Prop where
  counted : ∀ k, (tr.flatMap (queuedBy E)).count k = r.merges.count k + r.waiting k
  placed : ∀ pool tree index commitment, .merged pool tree index commitment ∈ r.journal →
    .inserted pool tree index commitment ∈ r.journal

/-- What a call queues is not queued yet, and not twice. -/
def FreshOutputs (E : Env) (st : Step State Label) : Prop :=
  (queuedBy E st).Nodup ∧ ∀ k ∈ queuedBy E st, st.pre.records.queuedLeaves k = none

/-- How many deliveries of an output a call makes impossible. -/
def lostBy (E : Env) (k : Addr × Hash) (st : Step State Label) : ℕ :=
  if k ∈ queuedBy E st then (queuedBy E st).count k - 1 + st.pre.records.waiting k else 0

lemma freshOutputs_iff (st : Step State Label) : FreshOutputs E st ↔ ∀ k, lostBy E k st = 0 := by
  unfold FreshOutputs lostBy Records.waiting
  constructor
  · rintro ⟨hnd, hnew⟩ k
    split_ifs with hk hlive
    · rw [hnew k hk] at hlive
      exact absurd hlive (by simp)
    · have := List.nodup_iff_count_le_one.mp hnd k
      omega
    · rfl
  · intro h
    refine ⟨List.nodup_iff_count_le_one.mpr fun k => ?_, fun k hk => ?_⟩
    · by_cases hk : k ∈ queuedBy E st
      · have := h k
        rw [if_pos hk] at this
        omega
      · rw [List.count_eq_zero_of_not_mem hk]
        omega
    · have hzero := h k
      rw [if_pos hk] at hzero
      by_contra hlive
      rw [if_pos (Option.isSome_iff_ne_none.mpr hlive)] at hzero
      omega

/-! ### One step -/

/-- Only what is no placement was logged. -/
def Unmerged (r r' : Records) : Prop :=
  ∃ events, r'.journal = r.journal ++ events ∧ ∀ e ∈ events, e.mergedKey = none

lemma unmerged_of_journal (h : r'.journal = r.journal) : Unmerged r r' :=
  ⟨[], by rw [h, List.append_nil], by simp⟩

lemma Unmerged.log {events : List Event} (h : Unmerged r r')
    (hnone : ∀ e ∈ events, e.mergedKey = none) : Unmerged r (r'.log events) := by
  obtain ⟨before, hj, hbefore⟩ := h
  refine ⟨before ++ events, ?_, fun e he => ?_⟩
  · change r'.journal ++ events = _
    rw [hj, List.append_assoc]
  · exact (List.mem_append.mp he).elim (hbefore e) (hnone e)

lemma Unmerged.place {pool : Addr} {index : ℕ} {t t' : CommitmentTree} {hs : List Hash}
    (h : Unmerged r r') : Unmerged r (r'.place pool index t t' hs) := by
  have hput : Unmerged r (r'.putTree (pool, index) t') := h
  refine hput.log fun e he => ?_
  obtain ⟨i, -, rfl⟩ := List.mem_mapIdx.mp he
  rfl

lemma unmerged_burn (r : Records) (m : Addr) (p : PoolState) (tree : ℕ) (nfs : List Hash)
    (accounting : NullifierAccounting) : Unmerged r (r.burn m p tree nfs accounting) := by
  refine Unmerged.log (unmerged_of_journal rfl) fun e he => ?_
  obtain ⟨nf, -, rfl⟩ := List.mem_map.mp he
  rfl

lemma Unmerged.credit (h : Unmerged r r') (pool : Addr) (o : Outpoint) (amount : ℕ)
    (leaf : Option Hash) : Unmerged r (r'.credit pool o amount leaf) :=
  Unmerged.log h fun e he => by
    rw [List.mem_singleton.mp he]
    rfl

lemma Unmerged.merges (h : Unmerged r r') : r'.merges = r.merges := by
  obtain ⟨events, hj, hnone⟩ := h
  rw [Records.merges, hj, List.filterMap_append, List.filterMap_eq_nil_iff.mpr hnone,
    List.append_nil]
  rfl

/-- Nothing was queued or merged. -/
structure Unqueued (r r' : Records) : Prop where
  journal : Unmerged r r'
  queue : r'.queuedLeaves = r.queuedLeaves

lemma Unqueued.putTotals {m : Addr} {p : PoolState} {tc : TokenConfig} {now : ℤ}
    (h : Unqueued r r') : Unqueued r (r'.putTotals m p tc now) := by
  unfold Records.putTotals
  split_ifs <;> exact ⟨h.journal, h.queue⟩

/-- Live leaves of a pool became leaves of its active tree. -/
structure Merging (r r' : Records) (m : Addr) (p : PoolState) (t t' : CommitmentTree)
    (leaves : List QueuedLeaf) : Prop where
  nodup : (leaves.map QueuedLeaf.commitment).Nodup
  live : ∀ l ∈ leaves, r.queuedLeaves (.poolState m, l.commitment) = some l
  merged : r' = r.merge m p t t' leaves

/-- Only transfers queue, and only merges take from the queue. -/
lemma Effect.queue (h : Effect E s l r') :
    Unqueued s.records r' ∨ (∃ m p t t' leaves, Merging s.records r' m p t t' leaves) ∨
      ∃ c c', l = .call c ∧ c.decode E = some (.Transact, c') := by
  cases h with
  | transacted decoded => exact .inr (.inr ⟨_, _, rfl, decoded⟩)
  | merged decoded at_tree nodup queued placed =>
    exact .inr (.inl ⟨_, _, _, _, _, nodup, fun l hl => (queued l hl).1, rfl⟩)
  | reconfigured h =>
    obtain ⟨m, p, p', -, -, rfl⟩ := h
    exact .inl ⟨unmerged_of_journal rfl, rfl⟩
  | shielded => exact .inl (.putTotals ⟨.place (unmerged_of_journal rfl), rfl⟩)
  | unshielded => exact .inl (.putTotals ⟨.place (unmerged_burn ..), rfl⟩)
  | redeemed => exact .inl ⟨.place (unmerged_burn ..), rfl⟩
  | cancelled => exact .inl ⟨.place (unmerged_of_journal rfl), rfl⟩
  | @completed c c' m p req tc us tx txid leaf T burn revenue now =>
    have hunqueued : ∀ change, Unqueued s.records
        (s.records.complete m p req tc us txid change leaf T burn revenue now) := fun change => by
      cases change with
      | none => exact ⟨unmerged_of_journal rfl, rfl⟩
      | some o =>
        have hsame : Unmerged s.records s.records := unmerged_of_journal rfl
        exact ⟨hsame.credit (.poolState m) o.1 o.2 leaf, rfl⟩
    exact .inl (hunqueued _)
  | deposited => exact .inl ⟨.credit (.place (unmerged_of_journal rfl)) .., rfl⟩
  | _ => exact .inl ⟨unmerged_of_journal rfl, rfl⟩

/-- What waits and what was placed stay as many. -/
def Balanced (r r' : Records) : Prop :=
  ∀ k, r'.merges.count k + r'.waiting k = r.merges.count k + r.waiting k

lemma Unqueued.balanced (h : Unqueued r r') : Balanced r r' := by
  intro k
  rw [Records.waiting, h.journal.merges, h.queue]
  rfl

/-- Placements are what a merge logs. -/
lemma merged_keys (pool : Addr) (tree first : ℕ) (hs : List Hash) :
    (mergedEvents pool tree first hs).filterMap Event.mergedKey = hs.map (pool, ·) := by
  unfold mergedEvents
  induction hs generalizing first with
  | nil => rfl
  | cons h hs ih =>
    rw [List.mapIdx_cons, List.filterMap_cons, List.map_cons]
    have := ih (first + 1)
    simp only [Nat.add_assoc, Nat.add_comm 1] at this
    simp [Event.mergedKey, this]

section Merging

variable {m : Addr} {p : PoolState} {t t' : CommitmentTree} {leaves : List QueuedLeaf}

/-- The leaves a merge closed were live, and each was placed. -/
lemma Merging.balanced (h : Merging r r' m p t t' leaves) : Balanced r r' := by
  have hkeys : (closedEntries (.poolState m) leaves).map Prod.fst =
      (leaves.map QueuedLeaf.commitment).map (Addr.poolState m, ·) := by
    simp [closedEntries, Function.comp_def]
  have hnd := h.nodup.map (f := (Addr.poolState m, ·)) fun _ _ heq => (Prod.mk.inj heq).2
  have hplace : Unmerged r (r.place (.poolState m) p.activeTreeIndex t t'
      (leaves.map QueuedLeaf.commitment)) := .place (unmerged_of_journal rfl)
  have hmerges : r'.merges =
      r.merges ++ (leaves.map QueuedLeaf.commitment).map (Addr.poolState m, ·) := by
    rw [h.merged, ← hplace.merges, ← merged_keys _ p.activeTreeIndex t.nextIndex]
    exact List.filterMap_append ..
  intro k
  rw [hmerges, List.count_append, h.merged]
  unfold Records.waiting
  change _ + (if (Store.updates r.queuedLeaves (closedEntries (.poolState m) leaves) k).isSome
    then 1 else 0) = _
  by_cases hk : k ∈ (leaves.map QueuedLeaf.commitment).map (Addr.poolState m, ·)
  · obtain ⟨hash, hh, rfl⟩ := List.mem_map.mp hk
    obtain ⟨l, hl, rfl⟩ := List.mem_map.mp hh
    obtain ⟨v, hv, hval⟩ := Store.updates_of_mem (m := r.queuedLeaves) (hkeys ▸ hk)
    obtain ⟨l', -, heq⟩ := List.mem_map.mp hv
    obtain rfl : v = none := (Prod.mk.inj heq).2.symm
    rw [hval, h.live l hl, List.count_eq_one_of_mem hnd hk]
    rfl
  · rw [Store.updates_of_notMem (hkeys ▸ hk), List.count_eq_zero_of_not_mem hk, Nat.add_zero]

end Merging

section Transfer

variable {plan : TransactPlan} {m : Addr} {p : PoolState} {t : CommitmentTree}

lemma transactOutputs_unmerged (hout : TransactOutputs E (s.records.burn m p plan.sourceTreeIndex
    plan.pre.nullifiers plan.accounting) plan m t r') : Unmerged s.records r' := by
  have hburn := unmerged_burn s.records m p plan.sourceTreeIndex plan.pre.nullifiers plan.accounting
  cases hout with
  | inline => exact hburn.place
  | queue =>
    refine Unmerged.log hburn fun e he => ?_
    obtain ⟨hash, -, rfl⟩ := List.mem_map.mp he
    rfl

/-- After a transfer every output it queued waits, and nothing else has changed in the queue. -/
lemma transactOutputs_waiting (hpool : plan.pool.key = .poolState m)
    (hout : TransactOutputs E (s.records.burn m p plan.sourceTreeIndex plan.pre.nullifiers
      plan.accounting) plan m t r') (k : Addr × Hash) :
    r'.waiting k = if k ∈ plan.queuedKeys then 1 else s.records.waiting k := by
  cases hout with
  | inline inline =>
    rw [if_neg (by simp [TransactPlan.queuedKeys, inline])]
    rfl
  | @queue leaves queued commitments =>
    have hkeys : (queueEntries (.poolState m) leaves).map Prod.fst = plan.queuedKeys := by
      simp [TransactPlan.queuedKeys, queued, ← commitments, hpool, Function.comp_def]
    change (if (Store.updates s.records.queuedLeaves (queueEntries (.poolState m) leaves) k).isSome
      then 1 else 0) = _
    by_cases hk : k ∈ plan.queuedKeys
    · obtain ⟨v, hv, hval⟩ := Store.updates_of_mem (m := s.records.queuedLeaves) (hkeys ▸ hk)
      obtain ⟨leaf, -, heq⟩ := List.mem_map.mp hv
      rw [hval, ← (Prod.mk.inj heq).2, if_pos hk]
      rfl
    · rw [Store.updates_of_notMem (hkeys ▸ hk), if_neg hk]
      rfl

end Transfer

lemma queuedBy_of_not_transact (h : ¬ ∃ c c', l = .call c ∧ c.decode E = some (.Transact, c')) :
    queuedBy E ⟨s, l, s'⟩ = [] := by
  cases l with
  | call c =>
    cases hd : c.decode E with
    | none => simp [queuedBy, Label.queues, hd]
    | some ic =>
      obtain ⟨i, c'⟩ := ic
      have hi : i ≠ .Transact := fun heq => h ⟨c, c', rfl, heq ▸ hd⟩
      cases i with
      | Transact => exact absurd rfl hi
      | _ => simp [queuedBy, Label.queues, hd, Instruction.queues]
  | _ => rfl

/-- A transfer, with its plan. -/
lemma step_transact (hd : c.decode E = some (.Transact, c')) (h : step E s (.call c) = .ok s') :
    ∃ plan m p t, queuedBy E ⟨s, .call c, s'⟩ = plan.queuedKeys ∧
      plan.Sound s.records c' m p t ∧
      TransactOutputs E (s.records.burn m p plan.sourceTreeIndex plan.pre.nullifiers
        plan.accounting) plan m t s'.records := by
  simp only [step, bind_eq_ok, exists_unit, require_eq_ok, processInstruction, hd] at h
  obtain ⟨plan, m, p, t, hplan, hsound, -, hout⟩ := processTransact_ok h.2
  refine ⟨plan, m, p, t, ?_, hsound, hout⟩
  simp [queuedBy, Label.queues, hd, Instruction.queues, hplan, Except.toOption]

/-- **What is queued** is waiting or placed after the step, or was lost in it. -/
theorem step_queues (h : step E s l = .ok s') (k : Addr × Hash) :
    (queuedBy E ⟨s, l, s'⟩).count k + s.records.merges.count k + s.records.waiting k =
      s'.records.merges.count k + s'.records.waiting k + lostBy E k ⟨s, l, s'⟩ := by
  unfold lostBy
  dsimp only
  by_cases htransact : ∃ c c', l = .call c ∧ c.decode E = some (.Transact, c')
  · obtain ⟨c, c', rfl, hd⟩ := htransact
    obtain ⟨plan, m, p, t, hq, hsound, hout⟩ := step_transact hd h
    rw [hq, (transactOutputs_unmerged hout).merges,
      transactOutputs_waiting hsound.at_tree.pool_key hout]
    split_ifs with hk
    · have := List.count_pos_iff.mpr hk
      omega
    · rw [List.count_eq_zero_of_not_mem hk]
      omega
  · have hbal : Balanced s.records s'.records := by
      rcases (step_effect h).queue with hsame | ⟨m, p, t, t', leaves, hmerge⟩ | htr
      · exact hsame.balanced
      · exact hmerge.balanced
      · exact absurd htr htransact
    have := hbal k
    rw [queuedBy_of_not_transact htransact, if_neg List.not_mem_nil, List.count_nil]
    omega

/-! ### Placements -/

/-- Every placement of a merge is an insertion. -/
def Placed (r : Records) : Prop :=
  ∀ pool tree index commitment, .merged pool tree index commitment ∈ r.journal →
    .inserted pool tree index commitment ∈ r.journal

lemma Placed.keep (h : Placed r) (hr : Unmerged r r') : Placed r' := by
  obtain ⟨events, hj, hnone⟩ := hr
  intro pool tree index commitment hm
  rw [hj] at hm ⊢
  rcases List.mem_append.mp hm with hm | hm
  · exact List.mem_append_left _ (h _ _ _ _ hm)
  · exact absurd (hnone _ hm) (by simp [Event.mergedKey])

lemma Placed.merge {m : Addr} {p : PoolState} {t t' : CommitmentTree} {leaves : List QueuedLeaf}
    (h : Placed r) : Placed (r.merge m p t t' leaves) := by
  intro pool tree index commitment hm
  have hplace : Placed (r.place (.poolState m) p.activeTreeIndex t t'
      (leaves.map QueuedLeaf.commitment)) := h.keep (.place (unmerged_of_journal rfl))
  rcases List.mem_append.mp hm with hm | hm
  · exact List.mem_append_left _ (hplace _ _ _ _ hm)
  · obtain ⟨i, hi, heq⟩ := List.mem_mapIdx.mp hm
    obtain ⟨rfl, rfl, rfl, rfl⟩ := Event.merged.inj heq
    exact List.mem_append_left _ (List.mem_append_right _ (List.mem_mapIdx.mpr ⟨i, hi, rfl⟩))

lemma placed_of_reaches {tr : List (Step State Label)} {guard : State → Label → Prop}
    (run : Reaches (step E) guard .genesis tr s) : Placed s.records := by
  refine run.inv (I := fun s => Placed s.records) (by simp [Placed]) fun s l s' hI _ h => ?_
  rcases (step_effect h).queue with hsame | ⟨m, p, t, t', leaves, hmerge⟩ | ⟨c, c', rfl, hd⟩
  · exact hI.keep hsame.journal
  · rw [hmerge.merged]
    exact hI.merge
  · obtain ⟨plan, m, p, t, -, -, hout⟩ := step_transact hd h
    exact hI.keep (transactOutputs_unmerged hout)

/-! ### Runs -/

/-- Everything queued in a run waits, was placed, or was lost on the way. -/
theorem queued_of_reaches {tr : List (Step State Label)} {guard : State → Label → Prop}
    (run : Reaches (step E) guard .genesis tr s) (k : Addr × Hash) :
    (tr.flatMap (queuedBy E)).count k =
      s.records.merges.count k + s.records.waiting k + (tr.map (lostBy E k)).sum := by
  refine run.history (I := fun tr s => (tr.flatMap (queuedBy E)).count k =
    s.records.merges.count k + s.records.waiting k + (tr.map (lostBy E k)).sum) rfl ?_
  intro tr s l s' _ hI _ h
  have := step_queues h k
  rw [List.flatMap_append, List.count_append, List.map_append, List.sum_append, hI]
  simp only [List.flatMap_cons, List.flatMap_nil, List.append_nil, List.map_cons, List.map_nil,
    List.sum_cons, List.sum_nil]
  omega

/-- **Delivered once exactly if fresh**: every queued output is waiting or placed once if and only
if no call queues what is queued already or the same output twice. -/
theorem delivered_iff {tr : List (Step State Label)}
    (run : Reaches (step E) (fun _ _ => True) .genesis tr s) :
    Delivered E tr s.records ↔ ∀ st ∈ tr, FreshOutputs E st := by
  have hrun := queued_of_reaches run
  simp only [freshOutputs_iff]
  constructor
  · intro h st hst k
    have hzero : (tr.map (lostBy E k)).sum = 0 := by
      have := h.counted k
      have := hrun k
      omega
    exact List.sum_eq_zero_iff.mp hzero _ (List.mem_map_of_mem hst)
  · intro h
    refine ⟨fun k => ?_, placed_of_reaches run⟩
    have hzero : (tr.map (lostBy E k)).sum = 0 := List.sum_eq_zero fun n hn => by
      obtain ⟨st, hst, rfl⟩ := List.mem_map.mp hn
      exact h st hst k
    rw [hrun k, hzero, Nat.add_zero]

instance (st : Step State Label) : Decidable (FreshOutputs E st) :=
  inferInstanceAs (Decidable (_ ∧ _))

namespace Regtest

/-- A transfer that leaves its outputs in queued leaves. -/
def transactQueued (tree : ℕ) (root : Hash) (nullifiers commitments : List Hash) : Label :=
  let stealth := List.replicate (commitments.length * stealthDataPerOutput) 0
  call 13 ([readonly pool, readonly (.commitmentTree pool tree),
      readonly (.vkRegistry nullifiers.length commitments.length), signer user, system] ++
      nullifierAccounts tree nullifiers ++ commitments.map fun h => writable (.queuedLeaf pool h))
    (spendData 0 Jsflags.QUEUED_LEAVES root
      (bound (computeBoundParamsHashPrivateTransfer env (env.sha256 stealth)))
      nullifiers commitments ++ stealth) [] 0

/-- A merge of leaves the user has paid for. -/
def mergeQueued (tree : ℕ) (commitments : List Hash) : Label :=
  call 40 ([signer user, writable pool, writable (.commitmentTree pool tree)] ++
    commitments.flatMap fun h => [writable (.queuedLeaf pool h), writable user]) [] [] 0

/-- Two outputs with one commitment are queued in one transfer. -/
def queueTwice : List Label :=
  [openPool, initVk 1 2, transactQueued 0 (zeroHash treeDepth) [note 1] [note 2, note 2]]

/-- Two outputs are queued and merged. -/
def queueAndMerge : List Label :=
  [openPool, initVk 1 2, transactQueued 0 (zeroHash treeDepth) [note 1] [note 2, note 3],
    mergeQueued 0 [note 3, note 2]]

lemma run_queueTwice : (trace (step env) (fun _ _ => true) .genesis queueTwice).any (fun tr =>
    decide ((tr.flatMap (queuedBy env)).count (pool, note 2) ≠
      (final .genesis tr).records.merges.count (pool, note 2) +
        (final .genesis tr).records.waiting (pool, note 2))) = true := by
  decide +kernel

lemma run_queueAndMerge : (trace (step env) (fun _ _ => true) .genesis queueAndMerge).any
    (fun tr => tr.all fun st => decide (FreshOutputs env st)) = true := by
  decide +kernel

end Regtest

open Regtest in
/-- **A queued note is lost**: two equal outputs of one transfer share one leaf. -/
theorem queued_twice_lost : ∃ (tr : List (Step State Label)) (s : State),
    Reaches (step env) (fun _ _ => True) .genesis tr s ∧ ¬ Delivered env tr s.records := by
  obtain ⟨tr, htr, hbad⟩ := (Option.any_eq_true _ _).mp run_queueTwice
  obtain ⟨-, hrun⟩ := reaches_of_trace (fun _ _ _ => trivial) htr
  exact ⟨tr, _, hrun, fun h => of_decide_eq_true hbad (h.counted _)⟩

open Regtest in
/-- Two notes are queued by a transfer and merged in the other order. -/
theorem delivered_iff_merged : ∃ (tr : List (Step State Label)) (s : State),
    tr.map Step.call = queueAndMerge ∧ Delivered env tr s.records := by
  obtain ⟨tr, htr, hfresh⟩ := (Option.any_eq_true _ _).mp run_queueAndMerge
  obtain ⟨hcalls, hrun⟩ := reaches_of_trace (fun _ _ _ => trivial) htr
  refine ⟨tr, _, hcalls, (delivered_iff hrun).mpr fun st hst => ?_⟩
  exact of_decide_eq_true (List.all_eq_true.mp hfresh st hst)

end Utxopia.Pool
