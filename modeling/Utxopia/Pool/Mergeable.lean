import Utxopia.Pool.Queue
import Utxopia.Pool.Shields

/-!
Queued leaves and the active tree.

A queued leaf is stamped with the tree that is active when it is queued, and only a merge into
that tree takes it. Anyone may merge, and anyone may rotate a full tree. A rotation does not ask
whether leaves of the old tree still wait.
-/

namespace Utxopia.Pool

open Utxopia.ByteString Utxopia.Check Utxopia.Run Utxopia.Runtime

variable {E : Env} {s s' : State} {c c' : Call} {l : Label} {r r' : Records}

/-! ### Pools and their active trees -/

def PoolState.place (p : PoolState) : Addr × ℕ := (p.zkbtcMint, p.activeTreeIndex)

def Records.places (r : Records) (m : Addr) : Option (Addr × ℕ) := (r.pools m).map PoolState.place

/-- Every live leaf of a pool names the pool's active tree. -/
structure QueueCurrent (r : Records) : Prop where
  mint : ∀ m q, r.places m = some q → q.1 = m
  leaf : ∀ m hash leaf, r.queuedLeaves (.poolState m, hash) = some leaf →
    leaf.commitment = hash ∧ r.places m = some (m, leaf.treeIndex)

/-- A pool at its place was rewritten. -/
lemma places_putPool {m : Addr} {p p' : PoolState} (hp : r.pools m = some p)
    (hr : r'.pools = Function.update r.pools m (some p')) (hplace : p'.place = p.place) :
    r'.places = r.places := by
  funext m'
  unfold Records.places
  rw [hr, Function.update_apply]
  split_ifs with heq
  · rw [heq, hp, Option.map_some, Option.map_some, hplace]
  · rfl

lemma QueueCurrent.congr (h : QueueCurrent r) (hplaces : r'.places = r.places)
    (hqueue : ∀ m hash leaf, r'.queuedLeaves (.poolState m, hash) = some leaf →
      leaf.commitment = hash ∧ r.places m = some (m, leaf.treeIndex)) : QueueCurrent r' := by
  constructor
  · rw [hplaces]
    exact h.mint
  · rw [hplaces]
    exact hqueue

lemma QueueCurrent.keep (h : QueueCurrent r) (hplaces : r'.places = r.places)
    (hqueue : r'.queuedLeaves = r.queuedLeaves) : QueueCurrent r' :=
  h.congr hplaces (by rw [hqueue]; exact h.leaf)

lemma QueueCurrent.putTotals {m : Addr} {p : PoolState} {tc : TokenConfig} {now : ℤ}
    (h : QueueCurrent r) (hp : ∃ p₀, r.pools m = some p₀ ∧ p.place = p₀.place) :
    QueueCurrent (r.putTotals m p tc now) := by
  obtain ⟨p₀, hp₀, hplace⟩ := hp
  unfold Records.putTotals
  split_ifs
  · exact h.keep (places_putPool hp₀ rfl hplace) rfl
  · exact h.keep rfl rfl

lemma place_count (accounting : NullifierAccounting) (n : ℕ) (p : PoolState) :
    (accounting.count n p).place = p.place := by
  cases accounting <;> rfl

lemma places_burn {m : Addr} {p : PoolState} {tree : ℕ} {nfs : List Hash}
    {accounting : NullifierAccounting} (hp : r.pools m = some p) :
    (r.burn m p tree nfs accounting).places = r.places :=
  places_putPool hp rfl (place_count accounting nfs.length p)

/-- The queue after some of its leaves were closed. -/
lemma QueueCurrent.close {m : Addr} {leaves : List QueuedLeaf} (h : QueueCurrent r)
    (hplaces : r'.places = r.places) (hqueue : r'.queuedLeaves =
      Store.updates r.queuedLeaves (closedEntries (.poolState m) leaves)) : QueueCurrent r' := by
  refine h.congr hplaces fun m' hash leaf hleaf => ?_
  rw [hqueue] at hleaf
  by_cases hk : (Addr.poolState m', hash) ∈ (closedEntries (.poolState m) leaves).map Prod.fst
  · obtain ⟨v, hv, hval⟩ := Store.updates_of_mem (m := r.queuedLeaves) hk
    obtain ⟨x, -, heq⟩ := List.mem_map.mp hv
    rw [hval, ← (Prod.mk.inj heq).2] at hleaf
    exact absurd hleaf (by simp)
  · rw [Store.updates_of_notMem hk] at hleaf
    exact h.leaf m' hash leaf hleaf

/-- The queue after leaves stamped with the active tree were added. -/
lemma QueueCurrent.queue {m : Addr} {p : PoolState} {leaves : List QueuedLeaf} (h : QueueCurrent r)
    (hp : r.pools m = some p) (hplaces : r'.places = r.places)
    (hqueue : r'.queuedLeaves = Store.updates r.queuedLeaves (queueEntries (.poolState m) leaves))
    (hstamp : ∀ leaf ∈ leaves, leaf.treeIndex = p.activeTreeIndex) : QueueCurrent r' := by
  refine h.congr hplaces fun m' hash leaf hleaf => ?_
  rw [hqueue] at hleaf
  by_cases hk : (Addr.poolState m', hash) ∈ (queueEntries (.poolState m) leaves).map Prod.fst
  · obtain ⟨v, hv, hval⟩ := Store.updates_of_mem (m := r.queuedLeaves) hk
    obtain ⟨x, hx, heq⟩ := List.mem_map.mp hv
    obtain ⟨hkey, hv'⟩ := Prod.mk.inj heq
    obtain ⟨hm, rfl⟩ := Prod.mk.inj hkey
    obtain rfl := Addr.poolState.inj hm
    rw [hval, ← hv'] at hleaf
    obtain rfl := Option.some_inj.mp hleaf
    have hplace : r.places m = some p.place := by rw [Records.places, hp, Option.map_some]
    refine ⟨rfl, hplace.trans (congrArg some (Prod.ext (h.mint m _ hplace) ?_))⟩
    exact (hstamp _ hx).symm
  · rw [Store.updates_of_notMem hk] at hleaf
    exact h.leaf m' hash leaf hleaf

/-- A pool without waiting leaves may get any place. -/
lemma QueueCurrent.replace {m : Addr} {p : PoolState} (h : QueueCurrent r)
    (hmint : p.zkbtcMint = m) (hempty : ∀ hash, r.queuedLeaves (.poolState m, hash) = none)
    (hqueue : r'.queuedLeaves = r.queuedLeaves)
    (hpools : r'.pools = Function.update r.pools m (some p)) : QueueCurrent r' := by
  have hplaces : ∀ m', r'.places m' = if m' = m then some p.place else r.places m' := fun m' => by
    unfold Records.places
    rw [hpools, Function.update_apply]
    split_ifs <;> rfl
  refine ⟨fun m' q hq => ?_, fun m' hash leaf hleaf => ?_⟩
  · rw [hplaces] at hq
    split_ifs at hq with heq
    · rw [heq, ← Option.some_inj.mp hq]
      exact hmint
    · exact h.mint m' q hq
  · rw [hqueue] at hleaf
    have hne : m' ≠ m := fun heq => by
      rw [heq, hempty] at hleaf
      exact absurd hleaf (by simp)
    rw [hplaces, if_neg hne]
    exact h.leaf m' hash leaf hleaf

/-- Every effect but a rotation keeps the queue current. -/
lemma Effect.queueCurrent (h : Effect E s l r')
    (hrotate : ¬ ∃ c c', l = .call c ∧ c.decode E = some (.RotateTree, c'))
    (hI : QueueCurrent s.records) : QueueCurrent r' := by
  cases h with
  | rotated decoded => exact absurd ⟨_, _, rfl, decoded⟩ hrotate
  | reconfigured h =>
    obtain ⟨m, p, p', hp, hsame, rfl⟩ := h
    exact hI.keep (places_putPool hp rfl (Prod.ext hsame.mint hsame.activeTreeIndex)) rfl
  | @initialized c m p fresh new =>
    refine hI.replace new.mint (fun hash => ?_) rfl rfl
    cases hleaf : s.records.queuedLeaves (.poolState m, hash) with
    | none => rfl
    | some leaf =>
      -- a waiting leaf has a pool
      have := (hI.leaf m hash leaf hleaf).2
      rw [Records.places, fresh] at this
      exact absurd this (by simp)
  | shielded keys h =>
    unfold Records.shield
    exact .putTotals (hI.keep rfl rfl) ⟨_, h.pool, rfl⟩
  | unshielded decoded planned h =>
    unfold Records.unshield
    exact .putTotals (hI.keep (places_burn h.sound.at_tree.pool) rfl)
      ⟨_, Function.update_self .., rfl⟩
  | @transacted c c' plan m p t r' decoded planned sound burnable outputs =>
    have hp := sound.at_tree.pool
    cases outputs with
    | inline => exact hI.keep (places_burn hp) rfl
    | queue queued commitments stamped =>
      exact hI.queue hp (places_burn hp) rfl fun leaf hleaf =>
        (stamped leaf hleaf).trans sound.active
  | @redeemed c c' plan m p tc t t' now decoded planned h =>
    refine hI.keep ?_ rfl
    have hburn : (s.records.burn m p plan.sourceTreeIndex plan.pre.nullifiers .ApplyNow).places =
        s.records.places := places_burn h.sound.at_tree.pool
    rw [← hburn]
    exact places_putPool (Function.update_self ..) rfl rfl
  | marked decoded h => exact hI.keep (places_putPool h.pool rfl rfl) rfl
  | cancelled decoded h => exact hI.keep (places_putPool h.pool rfl rfl) rfl
  | @completed c c' m p req tc us tx txid leaf T burn revenue now decoded h =>
    have hkeep : ∀ change, QueueCurrent
        (s.records.complete m p req tc us txid change leaf T burn revenue now) := fun change => by
      cases change <;> exact hI.keep (places_putPool h.pool rfl rfl) rfl
    exact hkeep _
  | deposited decoded kind input credited h => exact hI.keep (places_putPool h.pool rfl rfl) rfl
  | merged decoded at_tree =>
    refine hI.close (places_putPool at_tree.pool rfl ?_) rfl
    split_ifs <;> rfl
  | _ => exact hI.keep rfl rfl

/-! ### Rotations -/

/-- Only a pool without waiting leaves is rotated. -/
def RotatesEmpty (E : Env) (s : State) (l : Label) : Prop :=
  ∀ c c' pool, l = .call c → c.decode E = some (.RotateTree, c') → c'.account 0 = .ok pool →
    ∀ hash, s.records.queuedLeaves (pool.key, hash) = none

/-- The pool that a rotation names gets the tree at the index after its active one. -/
lemma rotate_ok (h : processRotateTree E s c = .ok s') :
    ∃ pool p, c.account 0 = .ok pool ∧ pool.key = .poolState p.zkbtcMint ∧
      s.records.pools p.zkbtcMint = some p ∧
      s'.records = (s.records.putTree (.poolState p.zkbtcMint, p.nextTreeIndex)
        (.init p.nextTreeIndex)).putPool p.zkbtcMint { p with activeTreeIndex := p.nextTreeIndex } := by
  simp only [processRotateTree, readTree, bind_eq_ok, exists_unit, require_eq_ok, pure_eq_ok] at h
  obtain ⟨-, pool, hpool, tree, -, newTree, -, payer, -, sys, -, -, -, -, -, -, -, hpda, p, h⟩ := h
  obtain ⟨hread, -, t, -, -, -, s₁, hs₁, rfl⟩ := h
  obtain ⟨p₀, hkey, hrec⟩ := validatePoolStatePda_ok hpda
  obtain rfl := readPool_of_records hkey hrec hread
  have h₁ := createTree_ok hs₁
  have hp₁ : s₁.records.pools p.zkbtcMint = some p := by rw [h₁]; exact hrec
  refine ⟨pool, p, hpool, hkey, hrec, ?_⟩
  rw [hkey, records_putPool hp₁, h₁, hkey]
  rfl

/-- A rotation changes the pool its first account names, and leaves the queue alone. -/
lemma rotated_pool (h : processRotateTree E s c = .ok s') :
    ∃ m p pool, c.account 0 = .ok pool ∧ pool.key = .poolState m ∧ p.zkbtcMint = m ∧
      s'.records.queuedLeaves = s.records.queuedLeaves ∧
      s'.records.pools = Function.update s.records.pools m (some p) := by
  obtain ⟨pool, p, hpool, hkey, -, hrec⟩ := rotate_ok h
  refine ⟨p.zkbtcMint, { p with activeTreeIndex := p.nextTreeIndex }, pool, hpool, hkey, rfl, ?_, ?_⟩
  all_goals
    rw [hrec]
    rfl

/-- **The queue stays current** as long as only pools without waiting leaves are rotated. -/
theorem queueCurrent_of_reaches {tr : List (Step State Label)}
    (run : Reaches (step E) (RotatesEmpty E) .genesis tr s) : QueueCurrent s.records := by
  refine run.inv (I := fun s => QueueCurrent s.records)
    ⟨by simp [Records.places], by simp⟩ fun s l s' hI hok hstep => ?_
  by_cases hrotate : ∃ c c', l = .call c ∧ c.decode E = some (.RotateTree, c')
  · obtain ⟨c, c', rfl, hd⟩ := hrotate
    simp only [step, bind_eq_ok, exists_unit, require_eq_ok, processInstruction, hd] at hstep
    obtain ⟨m, p, pool, hpool, hkey, hmint, hqueue, hpools⟩ := rotated_pool hstep.2
    exact hI.replace hmint (fun hash => hkey ▸ hok c c' pool rfl hd hpool hash) hqueue hpools
  · exact (step_effect hstep).queueCurrent hrotate hI

/-! ### Merging succeeds -/

/-- The accounts of a leaf in a merge: the leaf itself and who gets its rent. -/
structure Presents (r : Records) (m : Addr) (pair : AccountInfo × AccountInfo) (leaf : QueuedLeaf) :
    Prop where
  key : pair.1.key = .queuedLeaf (.poolState m) leaf.commitment
  payer : pair.2.key = leaf.payer
  writable : pair.1.isWritable = true ∧ pair.2.isWritable = true
  live : r.queuedLeaves (.poolState m, leaf.commitment) = some leaf

/-- A merge, by anyone, of different live leaves of a pool into its active tree. -/
structure MergeCall (r : Records) (c : Call) (m : Addr) (p : PoolState) (leaves : List QueuedLeaf) :
    Prop where
  accounts : ∃ caller pool tree pairs,
    c.accounts = caller :: pool :: tree :: pairs.flatMap (fun q => [q.1, q.2]) ∧
      caller.isSigner = true ∧ pool.key = .poolState m ∧ pool.isWritable = true ∧
      tree.key = .commitmentTree (.poolState m) p.activeTreeIndex ∧ tree.isWritable = true ∧
      List.Forall₂ (Presents r m) pairs leaves
  nodup : (leaves.map QueuedLeaf.commitment).Nodup
  nonempty : leaves ≠ []
  batch : leaves.length ≤ maxMergeLeaves

lemma leafPairs_flatMap (pairs : List (AccountInfo × AccountInfo)) :
    leafPairs (pairs.flatMap fun q => [q.1, q.2]) = pairs := by
  induction pairs with
  | nil => rfl
  | cons q pairs ih =>
    rw [List.flatMap_cons]
    exact congrArg (List.cons q) ih

lemma length_flatMap_pairs (pairs : List (AccountInfo × AccountInfo)) :
    (pairs.flatMap fun q => [q.1, q.2]).length = 2 * pairs.length := by
  induction pairs with
  | nil => rfl
  | cons q pairs ih =>
    rw [List.flatMap_cons, List.length_append, ih]
    simp only [List.length_cons, List.length_nil]
    omega

/-- The first pass takes every live leaf of the active tree that it has not seen. -/
lemma gatherLeaves_total {m : Addr} {active : ℕ} {pairs : List (AccountInfo × AccountInfo)}
    {leaves : List QueuedLeaf} (got : Gathered) (h : List.Forall₂ (Presents s.records m) pairs leaves)
    (hactive : ∀ leaf ∈ leaves, leaf.treeIndex = active)
    (hnd : (leaves.map QueuedLeaf.commitment).Nodup)
    (hnew : ∀ leaf ∈ leaves, Addr.queuedLeaf (.poolState m) leaf.commitment ∉ got.seen) :
    ∃ got', loop (gatherLeaf E c s (.poolState m) active) got pairs = .ok got' ∧
      got'.commitments = got.commitments ++ leaves.map QueuedLeaf.commitment := by
  induction h generalizing got with
  | nil => exact ⟨got, rfl, (List.append_nil _).symm⟩
  | @cons pair leaf pairs leaves hp hrest ih =>
    rw [List.map_cons, List.nodup_cons] at hnd
    have hone : gatherLeaf E c s (.poolState m) active got pair =
        .ok ⟨got.seen ++ [pair.1.key], got.commitments ++ [leaf.commitment],
          got.nullifierDebt + leaf.nullifierDebt⟩ := by
      obtain ⟨howner, -⟩ := Account.rec?_eq_some.mp
        (show (s.queuedLeaves.get (.poolState m, leaf.commitment)).rec? = some leaf from hp.live)
      simp only [gatherLeaf, bind_eq_ok, exists_unit, require_eq_ok, orElse_eq_ok, pure_eq_ok,
        validateProgramOwner_ok, validateAccountWritable]
      rw [hp.key]
      exact ⟨howner, hp.writable.1, hp.writable.2, leaf, queuedLeafAt_of_records hp.live,
        hactive leaf (by simp), rfl, hp.payer, hnew leaf (by simp), rfl⟩
    obtain ⟨got', hloop, hcommit⟩ := ih ⟨got.seen ++ [pair.1.key],
      got.commitments ++ [leaf.commitment], got.nullifierDebt + leaf.nullifierDebt⟩
      (fun l hl => hactive l (List.mem_cons_of_mem _ hl)) hnd.2 (fun l hl => by
        rw [List.mem_append, not_or, List.mem_singleton, hp.key]
        refine ⟨hnew l (List.mem_cons_of_mem _ hl), fun heq => hnd.1 ?_⟩
        rw [← (Addr.queuedLeaf.inj heq).2]
        exact List.mem_map_of_mem hl)
    refine ⟨got', loop_cons_eq_ok.mpr ⟨_, hone, hloop⟩, ?_⟩
    rw [hcommit, List.map_cons, List.append_assoc]
    rfl

lemma live_of_presents {m : Addr} {pairs : List (AccountInfo × AccountInfo)} {leaves : List QueuedLeaf}
    (h : List.Forall₂ (Presents r m) pairs leaves) :
    ∀ leaf ∈ leaves, r.queuedLeaves (.poolState m, leaf.commitment) = some leaf := by
  induction h with
  | nil => simp
  | cons hp _ ih => exact List.forall_mem_cons.mpr ⟨hp.live, ih⟩

/-- **A merge succeeds** for every caller while the queue is current and the tree has room. -/
theorem merge_succeeds (hE : PoseidonTotal E) (hcurrent : QueueCurrent s.records) {m : Addr}
    {p : PoolState} {t : CommitmentTree} {leaves : List QueuedLeaf}
    (hp : s.records.pools m = some p) (hpaused : p.paused = false)
    (ht : s.records.trees (.poolState m, p.activeTreeIndex) = some t)
    (hroom : t.nextIndex + leaves.length ≤ maxLeaves) (h : MergeCall s.records c m p leaves) :
    ∃ s', processMergeQueuedLeaves E c s = .ok s' := by
  obtain ⟨⟨caller, pool, tree, pairs, haccounts, hsigner, hpk, hpw, htk, htw, hpairs⟩, hnd, hne,
    hbatch⟩ := h
  have hplace : s.records.places m = some p.place := by rw [Records.places, hp, Option.map_some]
  have hmint : p.zkbtcMint = m := hcurrent.mint m _ hplace
  have hactive : ∀ leaf ∈ leaves, leaf.treeIndex = p.activeTreeIndex := fun leaf hleaf => by
    have hl := (hcurrent.leaf m _ leaf (live_of_presents hpairs leaf hleaf)).2
    rw [hplace] at hl
    exact (Prod.mk.inj (Option.some_inj.mp hl)).2.symm
  obtain ⟨got, hgot, hcommit⟩ := gatherLeaves_total (E := E) (c := c) ⟨[], [], 0⟩ hpairs
    hactive hnd (by simp)
  rw [List.nil_append] at hcommit
  obtain ⟨⟨t', first⟩, hinsert⟩ := insertLeavesBatch_total hE (t := t) got.commitments
    (by simpa [hcommit] using hne) (by rw [hcommit, List.length_map]; exact hroom)
  have hpool := Account.rec?_eq_some.mp (show (s.pools.get m).rec? = some p from hp)
  have htree := Account.rec?_eq_some.mp
    (show (s.trees.get (.poolState m, p.activeTreeIndex)).rec? = some t from ht)
  have hlen := length_flatMap_pairs pairs
  have hcount := hpairs.length_eq
  have hpos : leaves.length ≠ 0 := fun hzero => hne (List.length_eq_zero_iff.mp hzero)
  have hsize : c.accounts.length = 3 + 2 * leaves.length := by
    rw [haccounts]
    simp only [List.length_cons]
    omega
  simp only [processMergeQueuedLeaves, Call.atLeast, readPool, readTree, validateActiveTreePda,
    validatePoolStatePda, validateSigner, validateAccountWritable, bind_eq_ok, exists_unit,
    require_eq_ok, orElse_eq_ok, pure_eq_ok, validateProgramOwner_ok, account_ok]
  rw [hsize, haccounts]
  obtain ⟨pk, ps, pw⟩ := pool
  obtain ⟨tk, ts, tw⟩ := tree
  obtain rfl : pk = .poolState m := hpk
  obtain rfl : tk = .commitmentTree (.poolState m) p.activeTreeIndex := htk
  refine ⟨_, by omega, by omega, by omega, caller, rfl, _, rfl, _, rfl, hsigner, hpool.1, htree.1, hpw,
    htw, p, hpool.2, by simp [hpaused], ⟨⟨hpool.1, p, hpool.2, by rw [hmint]⟩, rfl⟩, got, ?_, t,
    htree.2, _, hinsert, rfl⟩
  rw [show List.drop 3 _ = pairs.flatMap fun q => [q.1, q.2] from rfl, leafPairs_flatMap]
  exact hgot

/-- **Never stranded**: as long as only pools without waiting leaves are rotated, every live leaf
names its pool's active tree, and whoever merges live leaves of a running pool into a tree with
room for them succeeds. -/
theorem never_stranded (hE : PoseidonTotal E) {tr : List (Step State Label)}
    (run : Reaches (step E) (RotatesEmpty E) .genesis tr s) :
    (∀ m p hash leaf, s.records.pools m = some p →
      s.records.queuedLeaves (.poolState m, hash) = some leaf → leaf.treeIndex = p.activeTreeIndex) ∧
    ∀ m p t leaves c c', s.records.pools m = some p → p.paused = false →
      s.records.trees (.poolState m, p.activeTreeIndex) = some t →
      t.nextIndex + leaves.length ≤ maxLeaves → c.signedByKeys = true →
      c.decode E = some (.MergeQueuedLeaves, c') → MergeCall s.records c' m p leaves →
      ∃ s', step E s (.call c) = .ok s' := by
  have hcurrent := queueCurrent_of_reaches run
  constructor
  · intro m p hash leaf hp hleaf
    have hplace := (hcurrent.leaf m hash leaf hleaf).2
    rw [Records.places, hp, Option.map_some] at hplace
    exact (Prod.mk.inj (Option.some_inj.mp hplace)).2.symm
  · intro m p t leaves c c' hp hpaused ht hroom hkeys hd hcall
    obtain ⟨s', hs'⟩ := merge_succeeds hE hcurrent hp hpaused ht hroom hcall
    refine ⟨s', ?_⟩
    simp only [step, bind_eq_ok, exists_unit, require_eq_ok, processInstruction, hd]
    exact ⟨hkeys, hs'⟩

/-! ### Runs -/

namespace Regtest

lemma poseidonTotal : PoseidonTotal env := fun _ _ => rfl

/-- A token account of the user. -/
def openPurse : Label := .tokenChange purse (some ⟨.Token2022, zkbtc, user, none, 2 ^ 20⟩)

/-- The pool takes deposits, its first tree has `n` leaves, and a leaf waits for it. -/
structure Filling (s : State) (n : ℕ) : Prop where
  running : ∃ p, s.records.pools zkbtc = some p ∧ p.paused = false ∧ p.permissioned = false ∧
    p.zkbtcMint = zkbtc ∧ p.activeTreeIndex = 0 ∧ p.depositFeeBps = 0
  registered : ∃ tc, s.records.tokenConfigs (pool, zkbtc) = some tc ∧ tc.mint = zkbtc ∧
    tc.vault = vault ∧ tc.enabled = true ∧ tc.minDeposit = 1 ∧ 1 ≤ tc.maxDeposit ∧
    tc.depositCap = 2 ^ 50 ∧ tc.totalShielded ≤ n ∧ tc.accumulatedFees = 0
  room : ∃ t, s.records.trees (pool, 0) = some t ∧ t.nextIndex = n
  waiting : ∃ leaf, s.records.queuedLeaves (pool, note 2) = some leaf ∧ leaf.treeIndex = 0
  next : s.trees.get (pool, 1) = .fresh

/-- There are tokens to fill the tree. -/
structure Funded (s : State) (n : ℕ) : Prop where
  source : ∃ a, s.tokens purse = some ⟨.Token2022, zkbtc, user, none, a⟩ ∧ maxLeaves ≤ a + n
  held : ∃ b, s.tokens vault = some ⟨.Token2022, zkbtc, pool, none, b⟩ ∧ b ≤ n

lemma Filling.working {s : State} {n : ℕ} (h : Filling s n) : Working s 0 n n :=
  ⟨h.running, h.registered, h.room⟩

/-- One more leaf, beside the one that waits. -/
lemma shield_fills {s : State} {n : ℕ} (h : Filling s n) (hfunded : Funded s n)
    (hn : n < maxLeaves) :
    ∃ s', step env s (.call (unitCall 0)) = .ok s' ∧ Filling s' (n + 1) ∧ Funded s' (n + 1) := by
  obtain ⟨s', hs', hworking, hsupplied, ⟨⟨t, htrees⟩, hqueue⟩⟩ :=
    shield_unit (f := env.poseidon) (fun _ => rfl) h.working ⟨hfunded.source, hfunded.held⟩ hn hn
      (by decide)
  refine ⟨s', (step_unit 0 s).trans hs', ⟨hworking.running, hworking.registered, hworking.room, ?_, ?_⟩,
    ⟨hsupplied.source, hsupplied.held⟩⟩
  · obtain ⟨leaf, hleaf, hstamp⟩ := h.waiting
    refine ⟨leaf, ?_, hstamp⟩
    change (s'.queuedLeaves.get (pool, note 2)).rec? = some leaf
    rw [hqueue]
    exact hleaf
  · rw [htrees, Store.get_set, if_neg (by decide)]
    exact h.next

/-- A pool with one queued leaf, and a purse. -/
def queueOne : List Label :=
  [openPool, openVault, openPurse, registerZkbtc, initVk 1 1,
    transactQueued 0 (zeroHash treeDepth) [note 1] [note 2]]

/-- What has to be seen of a state to start filling. -/
def startsFilling (s : State) (p : PoolState) (tc : TokenConfig) (t : CommitmentTree)
    (leaf : QueuedLeaf) : Prop :=
  s.records.pools zkbtc = some p ∧ p.paused = false ∧ p.permissioned = false ∧
    p.zkbtcMint = zkbtc ∧ p.activeTreeIndex = 0 ∧ p.depositFeeBps = 0 ∧
  s.records.tokenConfigs (pool, zkbtc) = some tc ∧ tc.mint = zkbtc ∧ tc.vault = vault ∧
    tc.enabled = true ∧ tc.minDeposit = 1 ∧ 1 ≤ tc.maxDeposit ∧ tc.depositCap = 2 ^ 50 ∧
    tc.totalShielded ≤ 0 ∧ tc.accumulatedFees = 0 ∧
  s.records.trees (pool, 0) = some t ∧ t.nextIndex = 0 ∧
  s.records.queuedLeaves (pool, note 2) = some leaf ∧ leaf.treeIndex = 0 ∧
  s.trees.get (pool, 1) = .fresh ∧
  s.tokens purse = some ⟨.Token2022, zkbtc, user, none, 2 ^ 20⟩ ∧
  s.tokens vault = some ⟨.Token2022, zkbtc, pool, none, 0⟩

instance (s : State) (p : PoolState) (tc : TokenConfig) (t : CommitmentTree) (leaf : QueuedLeaf) :
    Decidable (startsFilling s p tc t leaf) := inferInstanceAs (Decidable (_ ∧ _))

lemma run_queueOne : ((exec (step env) (fun _ _ => true) .genesis queueOne).any fun s =>
    (s.records.pools zkbtc).any fun p => (s.records.tokenConfigs (pool, zkbtc)).any fun tc =>
      (s.records.trees (pool, 0)).any fun t => (s.records.queuedLeaves (pool, note 2)).any fun leaf =>
        decide (startsFilling s p tc t leaf)) = true := by
  decide +kernel

lemma filling_start : ∃ (tr : List (Step State Label)) (s : State),
    Reaches (step env) (fun _ _ => True) .genesis tr s ∧ Filling s 0 ∧ Funded s 0 := by
  obtain ⟨s, hs, h⟩ := (Option.any_eq_true _ _).mp run_queueOne
  obtain ⟨p, -, h⟩ := (Option.any_eq_true _ _).mp h
  obtain ⟨tc, -, h⟩ := (Option.any_eq_true _ _).mp h
  obtain ⟨t, -, h⟩ := (Option.any_eq_true _ _).mp h
  obtain ⟨leaf, -, h⟩ := (Option.any_eq_true _ _).mp h
  obtain ⟨hp, hpaused, hperm, hmint, hactive, hbps, htc, hcm, hcv, hce, hmin, hmax, hcap, hshielded,
    hfees, ht, hnext, hleaf, hstamp, hfresh, hpurse, hvault⟩ := of_decide_eq_true h
  obtain ⟨tr, -, hrun⟩ := reaches_of_exec (fun _ _ _ => trivial) hs
  refine ⟨tr, s, hrun, ⟨⟨p, hp, hpaused, hperm, hmint, hactive, hbps⟩, ⟨tc, htc, hcm, hcv, hce, hmin,
    hmax, hcap, hshielded, hfees⟩, ⟨t, ht, hnext⟩, ⟨leaf, hleaf, hstamp⟩, hfresh⟩,
    ⟨_, hpurse, by decide⟩, ⟨_, hvault, le_rfl⟩⟩

/-- The tree is filled one note at a time. -/
lemma filling_run (n : ℕ) (hn : n ≤ maxLeaves) : ∃ (tr : List (Step State Label)) (s : State),
    Reaches (step env) (fun _ _ => True) .genesis tr s ∧ Filling s n ∧ Funded s n := by
  induction n with
  | zero => exact filling_start
  | succ n ih =>
    obtain ⟨tr, s, hrun, hfilling, hfunded⟩ := ih (by omega)
    obtain ⟨s', hs', hfilling', hfunded'⟩ := shield_fills hfilling hfunded (by omega)
    exact ⟨_, s', .call hrun trivial hs', hfilling', hfunded'⟩

/-- The full tree is left behind with the leaf that waits for it. -/
lemma rotate_strands {s : State} (h : Filling s maxLeaves) :
    ∃ s', step env s (.call (rotateInto 0 1)) = .ok s' ∧ ∃ p leaf,
      s'.records.pools zkbtc = some p ∧ s'.records.queuedLeaves (pool, note 2) = some leaf ∧
        leaf.treeIndex ≠ p.activeTreeIndex := by
  obtain ⟨acc, hacc⟩ : ∃ acc, createOrClaim (s.trees.get (pool, 1)) (env.minimumBalance 8816)
      ProgramError.Cpi = .ok acc := by
    rw [h.next]
    exact ⟨_, rfl⟩
  obtain ⟨s', hs', hworking, -, -, hqueue⟩ :=
    rotate_unit (f := env.poseidon) h.working (j := 1) rfl hacc
  obtain ⟨p, hp, -, -, -, hactive, -⟩ := hworking.running
  obtain ⟨leaf, hleaf, hstamp⟩ := h.waiting
  refine ⟨s', hs', p, leaf, hp, ?_, ?_⟩
  · change (s'.queuedLeaves.get (pool, note 2)).rec? = some leaf
    rw [hqueue]
    exact hleaf
  · rw [hstamp, hactive]
    exact zero_ne_one

/-- A call that is no rotation. -/
def noRotation : State → Label → Bool
  | _, .call c => (c.decode env).all fun ic => decide (ic.1 ≠ .RotateTree)
  | _, _ => true

lemma rotatesEmpty_of_noRotation (s : State) (l : Label) (h : noRotation s l = true) :
    RotatesEmpty env s l := by
  rintro c c' pool rfl hd -
  simp [noRotation, hd] at h

lemma run_noRotation : (exec (step env) noRotation .genesis queueOne).isSome = true := by
  decide +kernel

end Regtest

open Regtest in
/-- **Stranded**: a leaf is queued, the tree is filled by deposits, and anyone rotates it. -/
theorem queued_leaf_stranded : ∃ (tr : List (Step State Label)) (s : State) (m : Addr) (p : PoolState)
    (hash : Hash) (leaf : QueuedLeaf), Reaches (step env) (fun _ _ => True) .genesis tr s ∧
      s.records.pools m = some p ∧ s.records.queuedLeaves (.poolState m, hash) = some leaf ∧
      leaf.treeIndex ≠ p.activeTreeIndex := by
  obtain ⟨tr, s, hrun, hfilling, -⟩ := filling_run maxLeaves le_rfl
  obtain ⟨s', hs', p, leaf, hp, hleaf, hne⟩ := rotate_strands hfilling
  exact ⟨_, s', zkbtc, p, note 2, leaf, .call hrun trivial hs', hp, hleaf, hne⟩

open Regtest in
/-- A leaf that was queued and not rotated away. -/
theorem never_stranded_queueOne : ∃ (tr : List (Step State Label)) (s : State),
    tr.map Step.call = queueOne ∧
    (∀ m p hash leaf, s.records.pools m = some p →
      s.records.queuedLeaves (.poolState m, hash) = some leaf → leaf.treeIndex = p.activeTreeIndex) ∧
    ∀ m p t leaves c c', s.records.pools m = some p → p.paused = false →
      s.records.trees (.poolState m, p.activeTreeIndex) = some t →
      t.nextIndex + leaves.length ≤ maxLeaves → c.signedByKeys = true →
      c.decode env = some (.MergeQueuedLeaves, c') → MergeCall s.records c' m p leaves →
      ∃ s', step env s (.call c) = .ok s' := by
  obtain ⟨s, hs⟩ := Option.isSome_iff_exists.mp run_noRotation
  obtain ⟨tr, hcalls, hrun⟩ := reaches_of_exec rotatesEmpty_of_noRotation hs
  exact ⟨tr, s, hcalls, never_stranded poseidonTotal hrun⟩

end Utxopia.Pool
