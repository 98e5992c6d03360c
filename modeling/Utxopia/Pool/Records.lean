import Utxopia.Lib.Ledger
import Utxopia.Pool.Counters

/-!
What the program's books say: the records it owns, the tokens, and the history.

Lamports come and go without changing a record, so every instruction is described by what it
does to the books. The lemmas here say what reading an owned account finds in the books and
what writing one does to them.
-/

namespace Utxopia.Pool

open Utxopia.ByteString Utxopia.Check Utxopia.Runtime

@[ext]
structure Records where
  pools : Addr → Option PoolState
  trees : Addr × ℕ → Option CommitmentTree
  tokenConfigs : Addr × Addr → Option TokenConfig
  poolConfigs : Addr → Option PoolConfig
  utxos : Addr × Outpoint → Option UtxoRecord
  redemptions : Addr × Addr × ℕ → Option RedemptionRequest
  queuedLeaves : Addr × Hash → Option QueuedLeaf
  nullifiers : Addr × Option ℕ × Hash → Option Marker
  depositReceipts : Hash × Option ℕ → Option Marker
  completionReceipts : Hash → Option Marker
  tokens : Addr → Option TokenAccount
  approvedDigests : List Hash
  journal : List Event
  dwalletBindings : Hash → Option DwalletBinding
  exitDestinations : Addr × ℕ × Hash → Option ExitDestination

def State.records (s : State) : Records where
  pools := s.pools.recs
  trees := s.trees.recs
  tokenConfigs := s.tokenConfigs.recs
  poolConfigs := s.poolConfigs.recs
  utxos := s.utxos.recs
  redemptions := s.redemptions.recs
  queuedLeaves := s.queuedLeaves.recs
  nullifiers := s.nullifiers.recs
  depositReceipts := s.depositReceipts.recs
  completionReceipts := s.completionReceipts.recs
  tokens := s.tokens
  approvedDigests := s.approvedDigests
  journal := s.journal
  dwalletBindings := s.dwalletBindings.recs
  exitDestinations := s.exitDestinations.recs

/-! ### Changes of the books -/

namespace Records

variable (r : Records)

def putPool (m : Addr) (p : PoolState) : Records :=
  { r with pools := Function.update r.pools m (some p) }

def putTree (k : Addr × ℕ) (t : CommitmentTree) : Records :=
  { r with trees := Function.update r.trees k (some t) }

def putTokenConfig (k : Addr × Addr) (tc : TokenConfig) : Records :=
  { r with tokenConfigs := Function.update r.tokenConfigs k (some tc) }

def putPoolConfig (pool : Addr) (cfg : PoolConfig) : Records :=
  { r with poolConfigs := Function.update r.poolConfigs pool (some cfg) }

def bindDwallet (dwallet : Hash) (pool : Addr) : Records :=
  { r with dwalletBindings := Function.update r.dwalletBindings dwallet (some ⟨pool⟩) }

/-- The record of an exit is its kind and its key, which its address has too. -/
def putExitDestination (k : Addr × ℕ × Hash) : Records :=
  { r with exitDestinations := Function.update r.exitDestinations k (some ⟨k.2.1, k.2.2⟩) }

def updateUtxos (es : List ((Addr × Outpoint) × Option UtxoRecord)) : Records :=
  { r with utxos := Store.updates r.utxos es }

def updateRedemptions (es : List ((Addr × Addr × ℕ) × Option RedemptionRequest)) : Records :=
  { r with redemptions := Store.updates r.redemptions es }

def updateQueue (es : List ((Addr × Hash) × Option QueuedLeaf)) : Records :=
  { r with queuedLeaves := Store.updates r.queuedLeaves es }

def updateNullifiers (es : List ((Addr × Option ℕ × Hash) × Option Marker)) : Records :=
  { r with nullifiers := Store.updates r.nullifiers es }

def putDepositReceipt (k : Hash × Option ℕ) : Records :=
  { r with depositReceipts := Function.update r.depositReceipts k (some ⟨⟩) }

def putCompletionReceipt (txid : Hash) : Records :=
  { r with completionReceipts := Function.update r.completionReceipts txid (some ⟨⟩) }

def setTokens (tokens : Addr → Option TokenAccount) : Records := { r with tokens := tokens }

def approve (digest : Hash) : Records := { r with approvedDigests := r.approvedDigests ++ [digest] }

def log (events : List Event) : Records := { r with journal := r.journal ++ events }

end Records

@[simp] lemma records_genesis : State.genesis.records =
    ⟨fun _ => none, fun _ => none, fun _ => none, fun _ => none, fun _ => none, fun _ => none,
      fun _ => none, fun _ => none, fun _ => none, fun _ => none, fun _ => none, [], [],
      fun _ => none, fun _ => none⟩ := rfl

section

variable {E : Env} {s : State} {c : Call} {info : AccountInfo}

/-! ### Checks -/

lemma validateProgramOwner_ok {u : Unit} :
    validateProgramOwner E s c info = .ok u ↔ s.ownerOf E c info.key = .program := by
  rw [validateProgramOwner, require_eq_ok]

lemma account_ok {i : ℕ} : c.account i = .ok info ↔ c.accounts[i]? = some info := by
  rw [Call.account, orElse_eq_ok]

/-! ### Reading -/

/-- An owned account that spells a pool is the pool of a mint. -/
lemma pool_of_owned {a : Addr} {p : PoolState} (ho : s.ownerOf E c a = .program)
    (h : s.poolAt a = some p) : ∃ m, a = .poolState m ∧ s.records.pools m = some p := by
  cases a with
  | poolState m => exact ⟨m, rfl, Account.rec?_eq_some.mpr ⟨ho, h⟩⟩
  | _ => exact absurd h (by simp [State.poolAt])

lemma tree_of_owned {a : Addr} {t : CommitmentTree} (ho : s.ownerOf E c a = .program)
    (h : s.treeAt a = some t) :
    ∃ pool i, a = .commitmentTree pool i ∧ s.records.trees (pool, i) = some t := by
  cases a with
  | commitmentTree pool i => exact ⟨pool, i, rfl, Account.rec?_eq_some.mpr ⟨ho, h⟩⟩
  | _ => exact absurd h (by simp [State.treeAt])

lemma tokenConfig_of_owned {a : Addr} {tc : TokenConfig} (ho : s.ownerOf E c a = .program)
    (h : s.tokenConfigAt a = some tc) :
    ∃ pool m, a = .tokenConfig pool m ∧ s.records.tokenConfigs (pool, m) = some tc := by
  cases a with
  | tokenConfig pool m => exact ⟨pool, m, rfl, Account.rec?_eq_some.mpr ⟨ho, h⟩⟩
  | _ => exact absurd h (by simp [State.tokenConfigAt])

lemma poolConfig_of_owned {a : Addr} {cfg : PoolConfig} (ho : s.ownerOf E c a = .program)
    (h : s.poolConfigAt a = some cfg) :
    ∃ pool, a = .poolConfig pool ∧ s.records.poolConfigs pool = some cfg := by
  cases a with
  | poolConfig pool => exact ⟨pool, rfl, Account.rec?_eq_some.mpr ⟨ho, h⟩⟩
  | _ => exact absurd h (by simp [State.poolConfigAt])

lemma utxo_of_owned {a : Addr} {u : UtxoRecord} (ho : s.ownerOf E c a = .program)
    (h : s.utxoAt a = some u) :
    ∃ pool o, a = .utxo pool o ∧ s.records.utxos (pool, o) = some u := by
  cases a with
  | utxo pool o => exact ⟨pool, o, rfl, Account.rec?_eq_some.mpr ⟨ho, h⟩⟩
  | _ => exact absurd h (by simp [State.utxoAt])

lemma redemption_of_owned {a : Addr} {r : RedemptionRequest} (ho : s.ownerOf E c a = .program)
    (h : s.redemptionAt a = some r) :
    ∃ pool q n, a = .redemption pool q n ∧ s.records.redemptions (pool, q, n) = some r := by
  cases a with
  | redemption pool q n => exact ⟨pool, q, n, rfl, Account.rec?_eq_some.mpr ⟨ho, h⟩⟩
  | _ => exact absurd h (by simp [State.redemptionAt])

lemma queuedLeaf_of_owned {a : Addr} {l : QueuedLeaf} (ho : s.ownerOf E c a = .program)
    (h : s.queuedLeafAt a = some l) :
    ∃ pool hash, a = .queuedLeaf pool hash ∧ s.records.queuedLeaves (pool, hash) = some l := by
  cases a with
  | queuedLeaf pool hash => exact ⟨pool, hash, rfl, Account.rec?_eq_some.mpr ⟨ho, h⟩⟩
  | _ => exact absurd h (by simp [State.queuedLeafAt])

/-- The books are read back from the accounts. -/
lemma poolAt_of_records {m : Addr} {p : PoolState} (h : s.records.pools m = some p) :
    s.poolAt (.poolState m) = some p := (Account.rec?_eq_some.mp h).2

lemma treeAt_of_records {pool : Addr} {i : ℕ} {t : CommitmentTree}
    (h : s.records.trees (pool, i) = some t) : s.treeAt (.commitmentTree pool i) = some t :=
  (Account.rec?_eq_some.mp h).2

lemma tokenConfigAt_of_records {pool m : Addr} {tc : TokenConfig}
    (h : s.records.tokenConfigs (pool, m) = some tc) :
    s.tokenConfigAt (.tokenConfig pool m) = some tc := (Account.rec?_eq_some.mp h).2

lemma queuedLeafAt_of_records {pool : Addr} {hash : Hash} {l : QueuedLeaf}
    (h : s.records.queuedLeaves (pool, hash) = some l) :
    s.queuedLeafAt (.queuedLeaf pool hash) = some l := (Account.rec?_eq_some.mp h).2

/-- Reading a pool that the books have. -/
lemma readPool_of_records {m : Addr} {p p' : PoolState} (hk : info.key = .poolState m)
    (h : s.records.pools m = some p) (hr : readPool s info = .ok p') : p' = p := by
  rw [readPool, orElse_eq_ok, hk, poolAt_of_records h, Option.some_inj] at hr
  exact hr.symm

lemma readTree_of_records {pool : Addr} {i : ℕ} {t t' : CommitmentTree}
    (hk : info.key = .commitmentTree pool i) (h : s.records.trees (pool, i) = some t)
    (hr : readTree s info = .ok t') : t' = t := by
  rw [readTree, orElse_eq_ok, hk, treeAt_of_records h, Option.some_inj] at hr
  exact hr.symm

lemma readTokenConfig_of_records {pool m : Addr} {tc tc' : TokenConfig}
    (hk : info.key = .tokenConfig pool m) (h : s.records.tokenConfigs (pool, m) = some tc)
    (hr : readTokenConfig s info = .ok tc') : tc' = tc := by
  rw [readTokenConfig, orElse_eq_ok, hk, tokenConfigAt_of_records h, Option.some_inj] at hr
  exact hr.symm

/-- A pool that passes the address check is in the books under its own mint. -/
lemma validatePoolStatePda_ok (h : validatePoolStatePda E s c info = .ok ()) :
    ∃ p, info.key = .poolState p.zkbtcMint ∧ s.records.pools p.zkbtcMint = some p := by
  simp only [validatePoolStatePda, readPool, bind_eq_ok, validateProgramOwner_ok, orElse_eq_ok,
    require_eq_ok, exists_const] at h
  obtain ⟨ho, p, hp, hk⟩ := h
  obtain ⟨m, hm, hrec⟩ := pool_of_owned ho hp
  have : m = p.zkbtcMint := by simpa [hm] using hk
  exact ⟨p, hk, this ▸ hrec⟩

end

/-! ### Writing -/

section

variable {s : State}

lemma rec?_rewrite {α : Type} {acc : Account α} (a : α) (h : acc.owner = .program) :
    (rewrite acc a).rec? = some a := by
  simp [rewrite, Account.rec?, h]

/-- Writing over a record of a ledger. -/
lemma recs_rewrite {K α : Type} [DecidableEq K] {l : Store K (Account α)} {k : K} {old : α}
    (h : l.recs k = some old) (a : α) :
    (l.set k (rewrite (l.get k) a)).recs = Function.update l.recs k (some a) := by
  rw [Store.recs_set, rec?_rewrite a (Account.rec?_eq_some.mp h).1]

/-- Writing a new record into an account of the program. -/
lemma recs_create {K α : Type} [DecidableEq K] {l : Store K (Account α)} {k : K}
    {acc : Account α} (h : acc.owner = .program) (a : α) :
    (l.set k (rewrite acc a)).recs = Function.update l.recs k (some a) := by
  rw [Store.recs_set, rec?_rewrite a h]

lemma records_putPool {m : Addr} {o : PoolState} (h : s.records.pools m = some o)
    (p : PoolState) : (s.putPool p (.poolState m)).records = s.records.putPool m p :=
  Records.ext (recs_rewrite h p) rfl rfl rfl rfl rfl rfl rfl rfl rfl rfl rfl rfl rfl rfl

lemma records_putTree {k : Addr × ℕ} {o : CommitmentTree} (h : s.records.trees k = some o)
    (t : CommitmentTree) : (s.putTree t (.commitmentTree k.1 k.2)).records = s.records.putTree k t :=
  Records.ext rfl (recs_rewrite h t) rfl rfl rfl rfl rfl rfl rfl rfl rfl rfl rfl rfl rfl

lemma records_putTokenConfig {k : Addr × Addr} {o : TokenConfig}
    (h : s.records.tokenConfigs k = some o) (tc : TokenConfig) :
    (s.putTokenConfig tc (.tokenConfig k.1 k.2)).records = s.records.putTokenConfig k tc :=
  Records.ext rfl rfl (recs_rewrite h tc) rfl rfl rfl rfl rfl rfl rfl rfl rfl rfl rfl rfl

lemma records_putUtxo {k : Addr × Outpoint} {o : UtxoRecord} (h : s.records.utxos k = some o)
    (u : UtxoRecord) : (s.putUtxo u (.utxo k.1 k.2)).records = s.records.updateUtxos [(k, some u)] :=
  Records.ext rfl rfl rfl rfl (recs_rewrite h u) rfl rfl rfl rfl rfl rfl rfl rfl rfl rfl

lemma records_putRedemption {k : Addr × Addr × ℕ} {o : RedemptionRequest}
    (h : s.records.redemptions k = some o) (r : RedemptionRequest) :
    (s.putRedemption r (.redemption k.1 k.2.1 k.2.2)).records =
      s.records.updateRedemptions [(k, some r)] :=
  Records.ext rfl rfl rfl rfl rfl (recs_rewrite h r) rfl rfl rfl rfl rfl rfl rfl rfl rfl

@[simp] lemma records_putPolicyApproval (a : PolicyApproval) (addr : Addr) :
    (s.putPolicyApproval a addr).records = s.records := by
  cases addr <;> rfl

@[simp] lemma records_putVkRegistry (v : VkRegistry) (addr : Addr) :
    (s.putVkRegistry v addr).records = s.records := by
  cases addr <;> rfl

@[simp] lemma records_note (events : List Event) :
    (s.note events).records = s.records.log events := rfl

@[simp] lemma records_setToken (a : Addr) (t : TokenAccount) :
    (setToken s a t).records =
      s.records.setTokens (Function.update s.records.tokens a (some t)) := rfl

/-- **Lamports are not in the books.** -/
@[simp] theorem records_fund (n : ℕ) (a : Addr) : (s.fund n a).records = s.records := by
  have hadd : ∀ {K α : Type} [DecidableEq K] (l : Store K (Account α)) (k : K),
      (l.set k (addLamports n (l.get k))).recs = l.recs := fun l k => Store.recs_set_of_eq rfl
  cases a <;> simp only [State.fund, State.records, hadd]

end

end Utxopia.Pool
