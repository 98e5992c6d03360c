import Utxopia.Pool.Queue
import Utxopia.Pool.Solvency

/-!
Whether every spent note is counted once.

A spend makes a record for every nullifier. If it places its outputs it counts them at once; if it
queues them, the first leaf keeps the number as a debt, and the merge that closes the leaf pays it.
A leaf that is written over takes its debt along.
-/

namespace Utxopia.Pool

open Utxopia.ByteString Utxopia.Check Utxopia.Run Utxopia.Runtime

variable {E : Env} {s s' : State} {c c' : Call} {l : Label} {r r' : Records} {m : Addr}

/-! ### What is counted -/

/-- The spent notes the pool has counted. -/
def Records.counted (r : Records) (m : Addr) : ℕ := (r.pools m).elim 0 PoolState.nullifierCount

def Event.spentIn (pool : Addr) : Event → Bool
  | .spent pool' _ _ => pool' = pool
  | _ => false

/-- The nullifier records that spends of the pool have made. -/
def Records.created (r : Records) (m : Addr) : ℕ := r.journal.countP (Event.spentIn (.poolState m))

/-- What the live leaves of the pool owe its counter. -/
def State.queuedDebt (s : State) (m : Addr) : ℕ :=
  s.queuedLeaves.total (ofPool (.poolState m) QueuedLeaf.nullifierDebt)

/-- Below saturation, what is counted and what is owed is what was spent. -/
def SpentExact (s : State) : Prop :=
  ∀ m, s.records.counted m < 2 ^ 32 - 1 →
    s.records.counted m + s.queuedDebt m = s.records.created m

/-- Unless its counter is saturated, the pool keeps all debts when a call queues: the first output
has a leaf that no other output of the call takes, and no leaf that is written over owes anything. -/
def DebtKept (E : Env) (st : Step State Label) : Prop :=
  ∀ m k ks, queuedBy E st = k :: ks → k.1 = .poolState m →
    st.pre.records.counted m < 2 ^ 32 - 1 →
      k ∉ ks ∧ ∀ k' ∈ k :: ks, ∀ leaf, st.pre.records.queuedLeaves k' = some leaf →
        leaf.nullifierDebt = 0

/-! ### Counters and records -/

/-- The spends of a step, and what was added to the counters as far as they go. -/
structure Counts (r r' : Records) (made paid : Addr → ℕ) : Prop where
  created : ∀ m, r'.created m = r.created m + made m
  counted : ∀ m, min (r'.counted m) (2 ^ 32 - 1) = min (r.counted m + paid m) (2 ^ 32 - 1)

/-- A number for one pool. -/
def forPool (m : Addr) (n : ℕ) (m' : Addr) : ℕ := if m' = m then n else 0

@[simp] lemma forPool_self (n : ℕ) : forPool m n m = n := if_pos rfl

lemma created_log (r : Records) (events : List Event) (m : Addr) :
    (r.log events).created m = r.created m + events.countP (Event.spentIn (.poolState m)) :=
  List.countP_append

lemma counted_putPool (r : Records) (p : PoolState) (m' : Addr) :
    (r.putPool m p).counted m' = if m' = m then p.nullifierCount else r.counted m' := by
  change (Function.update r.pools m (some p) m').elim 0 PoolState.nullifierCount = _
  rw [Function.update_apply]
  split_ifs <;> rfl

lemma counted_of_pool {p : PoolState} (hp : r.pools m = some p) : r.counted m = p.nullifierCount := by
  rw [Records.counted, hp]
  rfl

section Counts

variable {made paid : Addr → ℕ}

lemma counts_of_eq (hp : r'.pools = r.pools) (hj : r'.journal = r.journal) :
    Counts r r' (fun _ => 0) fun _ => 0 where
  created m := by rw [Records.created, hj]; rfl
  counted m := by rw [Records.counted, hp]; rfl

lemma Counts.congr {r'' : Records} (h : Counts r r' made paid) (hp : r''.pools = r'.pools)
    (hj : r''.journal = r'.journal) : Counts r r'' made paid where
  created m := by rw [Records.created, hj]; exact h.created m
  counted m := by rw [Records.counted, hp]; exact h.counted m

lemma Counts.log {events : List Event} (h : Counts r r' made paid)
    (hnone : ∀ e ∈ events, ∀ pool, e.spentIn pool = false) :
    Counts r (r'.log events) made paid where
  created m := by
    have hzero : events.countP (Event.spentIn (.poolState m)) = 0 :=
      List.countP_eq_zero.mpr fun e he => by simp [hnone e he]
    rw [created_log, h.created, hzero, Nat.add_zero]
  counted := h.counted

/-- A pool that counts what it counted. -/
lemma Counts.setPool {r'' : Records} {p : PoolState} (h : Counts r r' made paid)
    (hpools : r''.pools = Function.update r'.pools m (some p)) (hj : r''.journal = r'.journal)
    (hp : p.nullifierCount = r'.counted m) : Counts r r'' made paid where
  created m := by rw [Records.created, hj]; exact h.created m
  counted m' := by
    rw [← h.counted, Records.counted, hpools, Function.update_apply]
    split_ifs with heq
    · rw [heq, ← hp]
      rfl
    · rfl

lemma Counts.place {pool : Addr} {index : ℕ} {t t' : CommitmentTree} {hs : List Hash}
    (h : Counts r r' made paid) : Counts r (r'.place pool index t t' hs) made paid := by
  have hput : Counts r (r'.putTree (pool, index) t') made paid := h.congr rfl rfl
  refine hput.log fun e he _ => ?_
  obtain ⟨i, -, rfl⟩ := List.mem_mapIdx.mp he
  rfl

lemma Counts.credit (h : Counts r r' made paid) (pool : Addr) (o : Outpoint) (amount : ℕ)
    (leaf : Option Hash) : Counts r (r'.credit pool o amount leaf) made paid := by
  have hput : Counts r (r'.updateUtxos [((pool, o), some (newUtxo o amount leaf))]) made paid :=
    h.congr rfl rfl
  refine hput.log fun e he _ => ?_
  rw [List.mem_singleton.mp he]
  rfl

lemma Counts.putTotals {p : PoolState} {tc : TokenConfig} {now : ℤ} (h : Counts r r' made paid)
    (hp : p.nullifierCount = r'.counted m) : Counts r (r'.putTotals m p tc now) made paid := by
  have hput : Counts r (r'.putTokenConfig (.poolState m, tc.mint) tc) made paid :=
    h.congr rfl rfl
  unfold Records.putTotals
  split_ifs
  · exact hput.setPool rfl rfl hp
  · exact hput

end Counts

lemma countP_spentEvents (m m' : Addr) (tree : ℕ) (nfs : List Hash) :
    (spentEvents (.poolState m) tree nfs).countP (Event.spentIn (.poolState m')) =
      forPool m nfs.length m' := by
  unfold spentEvents forPool
  rw [List.countP_map]
  split_ifs with h
  · subst h
    exact List.countP_eq_length.mpr fun nf _ => by simp [Event.spentIn]
  · refine List.countP_eq_zero.mpr fun nf _ => ?_
    simpa [Event.spentIn, eq_comm] using h

/-- What a spend that burns its nullifiers does to the counter. -/
def NullifierAccounting.paid (n : ℕ) : NullifierAccounting → ℕ
  | .ApplyNow => n
  | .DeferToQueue => 0

lemma counts_burn {p : PoolState} (hp : r.pools m = some p) (tree : ℕ) (nfs : List Hash)
    (accounting : NullifierAccounting) : Counts r (r.burn m p tree nfs accounting)
      (forPool m nfs.length) (forPool m (accounting.paid nfs.length)) where
  created m' := by
    rw [← countP_spentEvents m m' tree]
    exact created_log (r.updateNullifiers (nullifierEntries (.poolState m) tree nfs)) _ m'
  counted m' := by
    have hput : (r.burn m p tree nfs accounting).counted m' =
        if m' = m then (accounting.count nfs.length p).nullifierCount else r.counted m' :=
      counted_putPool _ _ m'
    rw [hput]
    unfold forPool
    split_ifs with h
    · rw [h, counted_of_pool hp]
      cases accounting <;>
        simp only [NullifierAccounting.count, NullifierAccounting.paid, PoolState.addNullifiers,
          saturatingAdd] <;> omega
    · rfl

lemma counted_burn {p : PoolState} (tree : ℕ) (nfs : List Hash) (accounting : NullifierAccounting) :
    (accounting.count nfs.length p).nullifierCount = (r.burn m p tree nfs accounting).counted m := by
  refine Eq.symm ((counted_putPool _ _ m).trans ?_)
  rw [if_pos rfl]

/-! ### Steps -/

lemma putTotals_queuedLeaves (r : Records) (m : Addr) (p : PoolState) (tc : TokenConfig) (now : ℤ) :
    (r.putTotals m p tc now).queuedLeaves = r.queuedLeaves :=
  putTotals_view Records.queuedLeaves (fun _ _ _ => rfl) ..

/-- Except for transfers, a step counts what it spends, or merges. -/
lemma Effect.counts (h : Effect E s l r')
    (hnot : ¬ ∃ c c', l = .call c ∧ c.decode E = some (.Transact, c')) :
    (∃ made, Counts s.records r' made made ∧ r'.queuedLeaves = s.records.queuedLeaves) ∨
      ∃ m p t t' leaves, s.records.pools m = some p ∧ Merging s.records r' m p t t' leaves := by
  have hsame : Counts s.records s.records (fun _ => 0) fun _ => 0 := counts_of_eq rfl rfl
  cases h with
  | transacted decoded => exact absurd ⟨_, _, rfl, decoded⟩ hnot
  | merged decoded at_tree nodup queued placed =>
    exact .inr ⟨_, _, _, _, _, at_tree.pool, nodup, fun l hl => (queued l hl).1, rfl⟩
  | reconfigured h =>
    obtain ⟨m, p, p', hp, hbooks, rfl⟩ := h
    refine .inl ⟨_, hsame.setPool rfl rfl ?_, rfl⟩
    rw [hbooks.nullifierCount, counted_of_pool hp]
  | initialized fresh new =>
    refine .inl ⟨_, hsame.setPool rfl rfl ?_, rfl⟩
    rw [new.nullifierCount, Records.counted, fresh]
    rfl
  | shielded keys h =>
    have hcount := counted_of_pool h.pool
    exact .inl ⟨_, .putTotals (.place (counts_of_eq rfl rfl)) hcount.symm, putTotals_queuedLeaves ..⟩
  | @unshielded c c' plan m p tc t t' T amount fee now decoded planned h =>
    have hburn := counts_burn h.sound.at_tree.pool plan.sourceTreeIndex plan.pre.nullifiers .ApplyNow
    exact .inl ⟨_, .putTotals (hburn.place.congr rfl rfl) (counted_burn ..), putTotals_queuedLeaves ..⟩
  | @redeemed c c' plan m p tc t t' now decoded planned h =>
    have hburn := counts_burn h.sound.at_tree.pool plan.sourceTreeIndex plan.pre.nullifiers .ApplyNow
    exact .inl ⟨_, hburn.place.setPool rfl rfl (counted_burn ..), rfl⟩
  | marked decoded h =>
    exact .inl ⟨_, hsame.setPool rfl rfl (counted_of_pool h.pool).symm, rfl⟩
  | @cancelled c c' m p req tc t t' us commitment now decoded h =>
    have hplace : Counts s.records (s.records.place (.poolState m) p.activeTreeIndex t t'
      [commitment]) (fun _ => 0) fun _ => 0 := hsame.place
    exact .inl ⟨_, hplace.setPool rfl rfl (counted_of_pool h.pool).symm, rfl⟩
  | @completed c c' m p req tc us tx txid leaf T burn revenue now decoded h =>
    have hcount := (counted_of_pool h.pool).symm
    have hcomplete : ∀ change, Counts s.records
        (s.records.complete m p req tc us txid change leaf T burn revenue now)
          (fun _ => 0) (fun _ => 0) ∧
        (s.records.complete m p req tc us txid change leaf T burn revenue now).queuedLeaves =
          s.records.queuedLeaves := fun change => by
      cases change with
      | none => exact ⟨hsame.setPool rfl rfl hcount, rfl⟩
      | some o => exact ⟨(hsame.credit (.poolState m) o.1 o.2 leaf).setPool rfl rfl hcount, rfl⟩
    exact .inl ⟨_, hcomplete _⟩
  | @deposited c c' i tweaked ix binding m p tc t t' T credit leaf commitment amount fee now decoded
      kind input credited h =>
    have hplace : Counts s.records (s.records.place (.poolState m) p.activeTreeIndex t t'
      [commitment]) (fun _ => 0) fun _ => 0 := hsame.place
    have hcredit := hplace.credit (.poolState m) credit.outpoint credit.amountSats leaf
    exact .inl ⟨_, hcredit.setPool rfl rfl (counted_of_pool h.pool).symm, rfl⟩
  | rotated decoded mint pool =>
    exact .inl ⟨_, hsame.setPool rfl rfl (counted_of_pool pool).symm, rfl⟩
  | _ => exact .inl ⟨_, counts_of_eq rfl rfl, rfl⟩

/-! ### The sum that is kept -/

/-- What a step counts at once keeps the sum. -/
lemma SpentExact.count {made : Addr → ℕ} (h : SpentExact s)
    (hcounts : Counts s.records s'.records made made)
    (hq : s'.records.queuedLeaves = s.records.queuedLeaves) : SpentExact s' := by
  intro m hlt
  have hdebt : s'.queuedDebt m = s.queuedDebt m := Store.total_congr hq
  have hcounted := hcounts.counted m
  have hm := h m (by omega)
  rw [hcounts.created m, hdebt]
  omega

lemma counts_merge {p : PoolState} {t t' : CommitmentTree} {leaves : List QueuedLeaf}
    (hp : r.pools m = some p) :
    Counts r (r.merge m p t t' leaves) (fun _ => 0)
      (forPool m (leaves.map QueuedLeaf.nullifierDebt).sum) where
  created m' := by
    have hplace : Counts r (r.place (.poolState m) p.activeTreeIndex t t'
        (leaves.map QueuedLeaf.commitment)) (fun _ => 0) fun _ => 0 :=
      .place (counts_of_eq rfl rfl)
    refine (Counts.log hplace fun e he _ => ?_).created m'
    obtain ⟨i, -, rfl⟩ := List.mem_mapIdx.mp he
    rfl
  counted m' := by
    have hput : (r.merge m p t t' leaves).counted m' =
        if m' = m then (if 0 < (leaves.map QueuedLeaf.nullifierDebt).sum
          then p.addNullifiers (leaves.map QueuedLeaf.nullifierDebt).sum else p).nullifierCount
        else r.counted m' := counted_putPool _ _ m'
    rw [hput]
    unfold forPool
    split_ifs with h hpos
    · rw [h, counted_of_pool hp]
      simp only [PoolState.addNullifiers, saturatingAdd]
      omega
    · rw [h, counted_of_pool hp]
      omega
    · rfl

/-- A weight of another pool does not see the entry. -/
lemma value_ofPool {κ α : Type} (w : α → ℕ) (pool : Addr) (k : Addr × κ) (a : Option α) :
    Store.value (ofPool pool w) k a = if k.1 = pool then a.elim 0 w else 0 := by
  cases a <;> simp [Store.value, ofPool]

/-- The leaves a merge closes owed what the merge pays. -/
lemma Merging.debt {p : PoolState} {t t' : CommitmentTree} {leaves : List QueuedLeaf}
    (h : Merging s.records s'.records m p t t' leaves) (m' : Addr) :
    s'.queuedDebt m' + forPool m (leaves.map QueuedLeaf.nullifierDebt).sum m' = s.queuedDebt m' := by
  have hnd : ((closedEntries (.poolState m) leaves).map Prod.fst).Nodup := by
    have := h.nodup.map (f := (Addr.poolState m, ·)) fun _ _ heq => (Prod.mk.inj heq).2
    simpa [closedEntries, Function.comp_def] using this
  have hrecs : s'.queuedLeaves.recs =
      Store.updates s.queuedLeaves.recs (closedEntries (.poolState m) leaves) :=
    congrArg Records.queuedLeaves h.merged
  have hsum := Store.total_updates (f := ofPool (.poolState m') QueuedLeaf.nullifierDebt) hnd hrecs
  have hold : ((closedEntries (.poolState m) leaves).map fun e =>
      Store.value (ofPool (.poolState m') QueuedLeaf.nullifierDebt) e.1 (s.queuedLeaves.recs e.1)).sum =
        forPool m (leaves.map QueuedLeaf.nullifierDebt).sum m' := by
    have hlive : ∀ l ∈ leaves, s.queuedLeaves.recs (.poolState m, l.commitment) = some l := h.live
    unfold forPool
    rw [closedEntries, List.map_map]
    split_ifs with hm
    · refine congrArg List.sum (List.map_congr_left fun l hl => ?_)
      simp [value_ofPool, hlive l hl, hm]
    · refine List.sum_eq_zero fun n hn => ?_
      obtain ⟨l, -, rfl⟩ := List.mem_map.mp hn
      simp [value_ofPool, Ne.symm hm]
  have hnew : ((closedEntries (.poolState m) leaves).map fun e =>
      Store.value (ofPool (.poolState m') QueuedLeaf.nullifierDebt) e.1 e.2).sum = 0 := by
    refine List.sum_eq_zero fun n hn => ?_
    obtain ⟨e, he, rfl⟩ := List.mem_map.mp hn
    obtain ⟨l, -, rfl⟩ := List.mem_map.mp he
    rfl
  rw [hold, hnew] at hsum
  exact hsum

/-- A merge pays what the leaves it closes owe. -/
lemma SpentExact.merge {p : PoolState} {t t' : CommitmentTree} {leaves : List QueuedLeaf}
    (h : SpentExact s) (hp : s.records.pools m = some p)
    (hmerge : Merging s.records s'.records m p t t' leaves) : SpentExact s' := by
  intro m' hlt
  have hcounts : Counts s.records s'.records (fun _ => 0)
      (forPool m (leaves.map QueuedLeaf.nullifierDebt).sum) := hmerge.merged ▸ counts_merge hp
  have hcounted := hcounts.counted m'
  have hdebt := hmerge.debt m'
  have hm := h m' (by omega)
  rw [hcounts.created m']
  omega

section Queueing

variable {plan : TransactPlan} {p : PoolState} {t : CommitmentTree} {leaves : List QueuedLeaf}

/-- The first leaf has the debt. -/
lemma debts_queued (hs : plan.Sound s.records c m p t)
    (hdebts : leaves.map QueuedLeaf.nullifierDebt =
      (List.range plan.pre.commitmentsOut.length).map plan.debtOf) :
    ∃ leaf rest, leaves = leaf :: rest ∧ leaf.nullifierDebt = plan.pre.nullifiers.length ∧
      ∀ l ∈ rest, l.nullifierDebt = 0 := by
  obtain ⟨n, hn⟩ := Nat.exists_eq_succ_of_ne_zero
    fun hzero => hs.outputs (List.length_eq_zero_iff.mp hzero)
  rw [hn, List.range_succ_eq_map, List.map_cons, List.map_map] at hdebts
  cases leaves with
  | nil => exact absurd hdebts (by simp)
  | cons leaf rest =>
    obtain ⟨hfirst, hrest⟩ := List.cons.inj hdebts
    refine ⟨leaf, rest, rfl, ?_, fun l hl => ?_⟩
    · rw [hfirst, hs.inputs.1]
      rfl
    · have hmem := List.mem_map_of_mem (f := QueuedLeaf.nullifierDebt) hl
      rw [hrest] at hmem
      obtain ⟨i, -, hi⟩ := List.mem_map.mp hmem
      exact hi.symm

/-- What the leaves that queueing writes over owe, and the leaves of the same call among them. -/
def lostDebt (s : State) (m : Addr) (leaves : List QueuedLeaf) (m' : Addr) : ℕ :=
  Store.overwritten (ofPool (.poolState m') QueuedLeaf.nullifierDebt) s.queuedLeaves.recs
    (queueEntries (.poolState m) leaves)

/-- Queueing adds the number of nullifiers to what is owed, less what is lost. -/
lemma queuedDebt_queue {leaf : QueuedLeaf} {rest : List QueuedLeaf}
    (hleaves : leaves = leaf :: rest) (hrest : ∀ l ∈ rest, l.nullifierDebt = 0)
    (hrecs : s'.queuedLeaves.recs =
      Store.updates s.queuedLeaves.recs (queueEntries (.poolState m) leaves)) (m' : Addr) :
    s'.queuedDebt m' + lostDebt s m leaves m' =
      s.queuedDebt m' + forPool m leaf.nullifierDebt m' := by
  refine (Store.total_updates_overwritten hrecs).trans ?_
  congr 1
  have hzero : (rest.map fun l => Store.value (ofPool (.poolState m') QueuedLeaf.nullifierDebt)
      (.poolState m, l.commitment) (some l)).sum = 0 := List.sum_eq_zero fun n hn => by
    obtain ⟨l, hl, rfl⟩ := List.mem_map.mp hn
    simp [ofPool, hrest l hl]
  rw [hleaves, queueEntries, List.map_map, List.map_cons, List.sum_cons]
  change _ + (rest.map fun l => Store.value (ofPool (.poolState m') QueuedLeaf.nullifierDebt)
    (.poolState m, l.commitment) (some l)).sum = _
  rw [hzero, Nat.add_zero]
  simp [value_ofPool, forPool, eq_comm]

/-- Nothing of another pool is lost. -/
lemma lostDebt_of_ne {m' : Addr} (h : m' ≠ m) : lostDebt s m leaves m' = 0 := by
  have hother : ∀ e ∈ queueEntries (.poolState m) leaves, ∀ a : Option QueuedLeaf,
      Store.value (ofPool (.poolState m') QueuedLeaf.nullifierDebt) e.1 a = 0 := fun e he a => by
    obtain ⟨l, -, rfl⟩ := List.mem_map.mp he
    simp [value_ofPool, h.symm]
  exact (Store.overwritten_eq_zero fun e he => hother e he _).mpr fun e he => hother e he _

/-- Nothing is lost if the first leaf is written once and over no debt. -/
lemma lostDebt_eq_zero {leaf : QueuedLeaf} {rest : List QueuedLeaf}
    (hleaves : leaves = leaf :: rest) (hfirst : leaf.nullifierDebt ≠ 0)
    (hrest : ∀ l ∈ rest, l.nullifierDebt = 0) :
    lostDebt s m leaves m = 0 ↔
      (Addr.poolState m, leaf.commitment) ∉ (queueEntries (.poolState m) rest).map Prod.fst ∧
      ∀ k ∈ (queueEntries (.poolState m) leaves).map Prod.fst, ∀ l,
        s.records.queuedLeaves k = some l → l.nullifierDebt = 0 := by
  have hpay : Store.value (ofPool (.poolState m) QueuedLeaf.nullifierDebt)
      (.poolState m, leaf.commitment) (some leaf) ≠ 0 := by simpa [ofPool] using hfirst
  have hnone : ∀ e ∈ queueEntries (.poolState m) rest,
      Store.value (ofPool (.poolState m) QueuedLeaf.nullifierDebt) e.1 e.2 = 0 := fun e he => by
    obtain ⟨l, hl, rfl⟩ := List.mem_map.mp he
    simp [ofPool, hrest l hl]
  unfold lostDebt
  subst hleaves
  refine (Store.overwritten_cons_eq_zero hpay hnone).trans (and_congr_right fun _ => ?_)
  refine forall₂_congr fun k hk => ?_
  have hpool : k.1 = .poolState m := by
    have hkey : k ∈ (queueEntries (.poolState m) (leaf :: rest)).map Prod.fst := hk
    rw [queueEntries_keys] at hkey
    obtain ⟨l, -, rfl⟩ := List.mem_map.mp hkey
    rfl
  rw [value_ofPool, if_pos hpool]
  change (s.records.queuedLeaves k).elim 0 QueuedLeaf.nullifierDebt = 0 ↔ _
  cases s.records.queuedLeaves k <;> simp

/-- What a call that queues makes and what it leaves to be counted. -/
structure Queueing (s s' : State) (m : Addr) (leaf : QueuedLeaf) (rest : List QueuedLeaf) : Prop where
  owes : leaf.nullifierDebt ≠ 0
  free : ∀ l ∈ rest, l.nullifierDebt = 0
  created : ∀ m', s'.records.created m' = s.records.created m' + forPool m leaf.nullifierDebt m'
  counted : ∀ m', s'.records.counted m' = s.records.counted m'
  queue : s'.queuedLeaves.recs =
    Store.updates s.queuedLeaves.recs (queueEntries (.poolState m) (leaf :: rest))

/-- The sum is kept exactly if nothing of what the pool is owed is lost. -/
lemma Queueing.exact_iff {leaf : QueuedLeaf} {rest : List QueuedLeaf}
    (h : Queueing s s' m leaf rest) (hs : SpentExact s) :
    SpentExact s' ↔ (s.records.counted m < 2 ^ 32 - 1 → lostDebt s m (leaf :: rest) m = 0) := by
  have hdebt := queuedDebt_queue rfl h.free h.queue
  constructor
  · intro hs' hlt
    have hafter := hs' m (by rwa [h.counted])
    rw [h.created, h.counted, forPool_self] at hafter
    have hm := hdebt m
    rw [forPool_self] at hm
    have := hs m hlt
    omega
  · intro hlost m' hlt
    rw [h.counted] at hlt ⊢
    rw [h.created]
    have hm := hdebt m'
    have hbefore := hs m' hlt
    have hzero : lostDebt s m (leaf :: rest) m' = 0 := by
      rcases eq_or_ne m' m with rfl | hne
      · exact hlost hlt
      · exact lostDebt_of_ne hne
    omega

lemma queueing_of_outputs (hs : plan.Sound s.records c m p t) (hq : plan.queued = true)
    (hdebts : leaves.map QueuedLeaf.nullifierDebt =
      (List.range plan.pre.commitmentsOut.length).map plan.debtOf)
    (hrec : s'.records = ((s.records.burn m p plan.sourceTreeIndex plan.pre.nullifiers
      plan.accounting).updateQueue (queueEntries (.poolState m) leaves)).log
        (queuedEvents (.poolState m) plan.pre.commitmentsOut)) :
    ∃ leaf rest, leaves = leaf :: rest ∧ Queueing s s' m leaf rest := by
  obtain ⟨leaf, rest, hleaves, howes, hfree⟩ := debts_queued hs hdebts
  have hcounts := counts_burn hs.at_tree.pool plan.sourceTreeIndex plan.pre.nullifiers
    plan.accounting
  refine ⟨leaf, rest, hleaves, ?_, hfree, fun m' => ?_, fun m' => ?_, ?_⟩
  · rw [howes, hs.inputs.1]
    exact hs.inputs.2
  · have hput : Counts s.records ((s.records.burn m p plan.sourceTreeIndex plan.pre.nullifiers
        plan.accounting).updateQueue (queueEntries (.poolState m) leaves)) _ _ :=
      hcounts.congr rfl rfl
    have hnone : ∀ e ∈ queuedEvents (.poolState m) plan.pre.commitmentsOut, ∀ pool,
        e.spentIn pool = false := fun e he _ => by
      obtain ⟨hash, -, rfl⟩ := List.mem_map.mp he
      rfl
    rw [hrec, (hput.log hnone).created, howes]
  · have hcount : s'.records.counted m' = (s.records.burn m p plan.sourceTreeIndex
        plan.pre.nullifiers plan.accounting).counted m' := by rw [hrec]; rfl
    rw [hcount]
    refine (counted_putPool _ _ m').trans ?_
    rcases eq_or_ne m' m with rfl | hne
    · rw [if_pos rfl, TransactPlan.accounting, if_pos hq, counted_of_pool hs.at_tree.pool]
      rfl
    · rw [if_neg hne]
      rfl
  · rw [← hleaves]
    exact congrArg Records.queuedLeaves hrec

end Queueing

/-! ### Runs -/

/-- **One step** keeps the sum exactly if it keeps the debts. -/
theorem step_spentExact (hstep : step E s l = .ok s') (h : SpentExact s) :
    SpentExact s' ↔ DebtKept E ⟨s, l, s'⟩ := by
  have hkept : queuedBy E ⟨s, l, s'⟩ = [] → DebtKept E ⟨s, l, s'⟩ := fun hnil m k ks hq => by
    rw [hnil] at hq
    exact absurd hq (by simp)
  by_cases htransact : ∃ c c', l = .call c ∧ c.decode E = some (.Transact, c')
  · obtain ⟨c, c', rfl, hd⟩ := htransact
    obtain ⟨plan, m, p, t, hq, hs, hout⟩ := step_transact hd hstep
    generalize hr : s'.records = r' at hout
    cases hout with
    | @inline t' inline =>
      have hburn := counts_burn hs.at_tree.pool plan.sourceTreeIndex plan.pre.nullifiers
        plan.accounting
      have hnow : plan.accounting = .ApplyNow := by rw [TransactPlan.accounting, inline]; rfl
      have hcounts : Counts s.records s'.records (forPool m plan.pre.nullifiers.length)
          (forPool m plan.pre.nullifiers.length) := by
        rw [hnow] at hburn
        rw [hr, hnow]
        exact hburn.place
      refine iff_of_true (h.count hcounts (hr ▸ rfl)) (hkept ?_)
      rw [hq, TransactPlan.queuedKeys, inline]
      rfl
    | @queue leaves queued commitments stamped debts =>
      obtain ⟨leaf, rest, rfl, hqueue⟩ := queueing_of_outputs hs queued debts hr
      have hkeys : queuedBy E ⟨s, .call c, s'⟩ = (Addr.poolState m, leaf.commitment) ::
          (queueEntries (.poolState m) rest).map Prod.fst := by
        rw [hq, TransactPlan.queuedKeys, if_pos queued, ← commitments, hs.at_tree.pool_key]
        simp [Function.comp_def]
      refine (hqueue.exact_iff h).trans ?_
      rw [lostDebt_eq_zero rfl hqueue.owes hqueue.free]
      constructor
      · intro hlost m' k ks hlist hk hlt
        rw [hkeys] at hlist
        obtain ⟨rfl, rfl⟩ := List.cons.inj hlist
        obtain rfl := Addr.poolState.inj hk
        exact hlost hlt
      · intro hdebt hlt
        exact hdebt m _ _ hkeys rfl hlt
  · refine iff_of_true ?_ (hkept (queuedBy_of_not_transact htransact))
    rcases (step_effect hstep).counts htransact with ⟨made, hcounts, hqueue⟩ | ⟨m, p, t, t', leaves,
      hp, hmerge⟩
    · exact h.count hcounts hqueue
    · exact h.merge hp hmerge

/-- **Exactly if debts are kept**: in every state reached the counter and the queue together count
the spent notes, if and only if no call queues over a debt or gives its debt to a leaf it takes
twice. -/
theorem spent_exact_iff {tr : List (Step State Label)}
    (run : Reaches (step E) (fun _ _ => True) .genesis tr s) :
    (∀ st ∈ tr, SpentExact st.post) ↔ ∀ st ∈ tr, DebtKept E st := by
  have hgenesis : SpentExact State.genesis := fun m _ => rfl
  constructor
  · intro h
    refine (run.history (I := fun tr s => (∀ st ∈ tr, SpentExact st.post) →
      SpentExact s ∧ ∀ st ∈ tr, DebtKept E st) (fun _ => ⟨hgenesis, by simp⟩) ?_ h).2
    intro tr s l s' _ ih _ hstep hall
    obtain ⟨hs, hkept⟩ := ih fun st hst => hall st (List.mem_append_left _ hst)
    have hs' : SpentExact s' := hall ⟨s, l, s'⟩ (by simp)
    refine ⟨hs', fun st hst => ?_⟩
    rcases List.mem_append.mp hst with hst | hst
    · exact hkept st hst
    · rw [List.mem_singleton.mp hst]
      exact (step_spentExact hstep hs).mp hs'
  · intro h
    refine (run.history (I := fun tr s => (∀ st ∈ tr, DebtKept E st) →
      SpentExact s ∧ ∀ st ∈ tr, SpentExact st.post) (fun _ => ⟨hgenesis, by simp⟩) ?_ h).2
    intro tr s l s' _ ih _ hstep hall
    obtain ⟨hs, hexact⟩ := ih fun st hst => hall st (List.mem_append_left _ hst)
    have hs' := (step_spentExact hstep hs).mpr (hall ⟨s, l, s'⟩ (by simp))
    refine ⟨hs', fun st hst => ?_⟩
    rcases List.mem_append.mp hst with hst | hst
    · exact hexact st hst
    · rw [List.mem_singleton.mp hst]
      exact hs'

namespace Regtest

lemma run_queueTwice_uncounted : ((exec (step env) (fun _ _ => true) .genesis queueTwice).any
    fun s => decide (s.records.counted zkbtc < 2 ^ 32 - 1 ∧
      s.records.counted zkbtc + s.queuedDebt zkbtc ≠ s.records.created zkbtc)) = true := by
  decide +kernel

end Regtest

open Regtest in
/-- **A spent note is not counted**: two equal outputs of one transfer share one leaf, and the
second is written over the debt. -/
theorem spent_not_exact : ∃ (tr : List (Step State Label)) (s : State),
    Reaches (step env) (fun _ _ => True) .genesis tr s ∧ ¬ SpentExact s := by
  obtain ⟨s, hs, hbad⟩ := (Option.any_eq_true _ _).mp run_queueTwice_uncounted
  obtain ⟨hlt, hne⟩ := of_decide_eq_true hbad
  obtain ⟨tr, -, hrun⟩ := reaches_of_exec (fun _ _ _ => trivial) hs
  exact ⟨tr, s, hrun, fun hexact => hne (hexact _ hlt)⟩

open Regtest in
/-- A transfer that queues two notes, and a merge. -/
theorem spent_exact_iff_merged : ∃ tr : List (Step State Label),
    tr.map Step.call = queueAndMerge ∧
      ((∀ st ∈ tr, SpentExact st.post) ↔ ∀ st ∈ tr, DebtKept env st) := by
  obtain ⟨tr, htr, -⟩ := (Option.any_eq_true _ _).mp run_queueAndMerge
  obtain ⟨hcalls, hrun⟩ := reaches_of_trace (fun _ _ _ => trivial) htr
  exact ⟨tr, hcalls, spent_exact_iff hrun⟩

end Utxopia.Pool
