import Utxopia.Pool.Admin
import Utxopia.Pool.Records

/-!
What setting up and running a pool does to the books.

A new pool starts with nothing on its books. Most other changes rewrite settings of the pool
and leave what it holds and owes alone, or do not touch the books at all.
-/

namespace Utxopia.Pool

open Utxopia.ByteString Utxopia.Check Utxopia.Runtime

variable {E : Env} {s s' : State} {c : Call}

/-! ### Setting up -/

lemma createIfEmpty_owner {α : Type} {acc acc' : Account α} {lamports : ℕ}
    (h : createIfEmpty acc lamports = .ok acc') : acc'.owner = .program := by
  unfold createIfEmpty at h
  split_ifs at h
  · exact createOrClaim_owner h
  · simp only [bind_eq_ok, require_eq_ok, exists_unit, pure_eq_ok] at h
    obtain ⟨ho, rfl⟩ := h
    exact ho

/-- Deposits are bounded by what there can ever be. -/
structure PoolState.Bounded (p : PoolState) : Prop where
  maxDeposit : p.maxDeposit ≤ maxSupplySats
  pendingMaxDeposit : p.pendingMaxDeposit ≤ maxSupplySats

/-- A pool with nothing on its books. -/
structure PoolState.New (p : PoolState) (m : Addr) : Prop where
  mint : p.zkbtcMint = m
  totalShielded : p.totalShielded = 0
  totalMinted : p.totalMinted = 0
  totalBurned : p.totalBurned = 0
  totalBtcHeld : p.totalBtcHeld = 0
  utxoCount : p.utxoCount = 0
  pendingRedemptions : p.pendingRedemptions = 0
  activeTreeIndex : p.activeTreeIndex = 0
  bounded : p.Bounded
  ordered : p.minDeposit ≤ p.maxDeposit
  pendingMinDeposit : p.pendingMinDeposit = 0
  noProposal : p.pendingExecuteAfter = 0
  nullifierCount : p.nullifierCount = 0

theorem initializePool_ok {setup : Option AuditorSetup} (h : initializePool E s c setup = .ok s') :
    ∃ m p, s.records.pools m = none ∧ p.New m ∧
      s'.records = (s.records.putTree (.poolState m, 0) (.init 0)).putPool m p := by
  simp only [initializePool, bind_eq_ok, exists_unit, require_eq_ok, pure_eq_ok] at h
  obtain ⟨pool, -, tree, -, mint, -, vault, -, depositVault, -, authority, -, sys, -, -, -, h⟩ := h
  obtain ⟨hk, -, htk, hnone, poolAcc, hpool, treeAcc, htree, -, rfl⟩ := h
  rw [hk] at htree ⊢
  refine ⟨mint.key, _, Account.rec?_eq_none_of_live? hnone, ?_, Records.ext
    (recs_create (createIfEmpty_owner hpool) _) (recs_create (createIfEmpty_owner htree) _) rfl rfl
    rfl rfl rfl rfl rfl rfl rfl rfl rfl rfl rfl⟩
  have hmax : maxDepositSats ≤ maxSupplySats := by decide
  have hmin : minDepositSats ≤ maxDepositSats := by decide
  exact ⟨rfl, rfl, rfl, rfl, rfl, rfl, rfl, rfl, ⟨hmax, Nat.zero_le _⟩, hmin, rfl, rfl, rfl⟩

lemma bindDwallet_ok {pool : Addr} {dwallet : Hash} (h : bindDwallet E s pool dwallet = .ok s') :
    (s.records.dwalletBindings dwallet = none ∨
        s.records.dwalletBindings dwallet = some ⟨pool⟩) ∧
      s'.records = s.records.bindDwallet dwallet pool ∧ s'.poolConfigs = s.poolConfigs := by
  simp only [bindDwallet] at h
  split_ifs at h with hempty
  · simp only [bind_eq_ok, pure_eq_ok] at h
    obtain ⟨acc, hacc, rfl⟩ := h
    refine ⟨.inl (Account.rec?_eq_none_of_live? ?_), Records.ext rfl rfl rfl rfl rfl rfl rfl rfl rfl
      rfl rfl rfl rfl (recs_create (createOrClaim_owner hacc) _) rfl, rfl⟩
    cases hd : (s.dwalletBindings.get dwallet).data with
    | empty => simp [Account.live?, hd]
    | _ => simp [hd, Data.isEmpty] at hempty
  · simp only [bind_eq_ok, exists_unit, pure_eq_ok, require_eq_ok, orElse_eq_ok] at h
    obtain ⟨ho, ⟨owner⟩, hb, hpool, rfl⟩ := h
    obtain rfl : owner = pool := hpool
    have hrec : s.records.dwalletBindings dwallet = some ⟨owner⟩ := Account.rec?_eq_some.mpr ⟨ho, hb⟩
    exact ⟨.inr hrec, Records.ext rfl rfl rfl rfl rfl rfl rfl rfl rfl rfl rfl rfl rfl
      (Function.update_eq_self_iff.mpr hrec.symm).symm rfl, rfl⟩

/-- The config a call spells. -/
def Call.poolConfig (c : Call) : PoolConfig where
  poolScript := (c.data.drop 1).take (byteAt c.data 0)
  ikaDwallet := slice 32 c.data (1 + byteAt c.data 0)
  ikaDwalletXonlyPubkey := slice 32 c.data (1 + byteAt c.data 0 + 32)
  cpiAuthorityBump := byteAt c.data (1 + byteAt c.data 0 + 64)

/-- The books after a pool was given its wallet. -/
def Records.configure (r : Records) (pool : Addr) (cfg : PoolConfig) : Records :=
  (r.bindDwallet cfg.ikaDwallet pool).putPoolConfig pool cfg

/-- A pool gets the first config it ever has; the script pays the wallet's key, and the wallet is
bound to no other pool. -/
structure Configuring (r : Records) (pool : Addr) (cfg : PoolConfig) : Prop where
  fresh : r.poolConfigs pool = none
  script : cfg.poolScript = taprootScript cfg.ikaDwalletXonlyPubkey
  bound : r.dwalletBindings cfg.ikaDwallet = none ∨ r.dwalletBindings cfg.ikaDwallet = some ⟨pool⟩

theorem processSetPoolConfig_ok (h : processSetPoolConfig E s c = .ok s') :
    ∃ pool, c.account 0 = .ok pool ∧ Configuring s.records pool.key c.poolConfig ∧
      s'.records = s.records.configure pool.key c.poolConfig := by
  simp only [processSetPoolConfig, createPoolConfig, bind_eq_ok, exists_unit, require_eq_ok,
    pure_eq_ok] at h
  obtain ⟨-, pool, hpool, poolConfig, -, authority, -, sys, -, binding, -, -, -, -, -, -, p, h⟩ := h
  obtain ⟨-, -, -, -, -, hscript, -, -, s₁, hs₁, hnone, acc, hacc, rfl⟩ := h
  obtain ⟨hbound, hrec, hsame⟩ := bindDwallet_ok hs₁
  refine ⟨pool, hpool, ⟨?_, hscript, hbound⟩, ?_⟩
  · rw [hsame] at hnone
    exact Account.rec?_eq_none_of_live? hnone
  · rw [Records.configure, ← show s₁.records = s.records.bindDwallet c.poolConfig.ikaDwallet pool.key
      from hrec]
    exact Records.ext rfl rfl rfl (recs_create (createIfEmpty_owner hacc) _) rfl rfl rfl rfl rfl rfl
      rfl rfl rfl rfl rfl

/-! ### Settings -/

/-- The settings of a pool changed, not what it holds and owes. -/
structure PoolState.SameBooks (p p' : PoolState) : Prop where
  mint : p'.zkbtcMint = p.zkbtcMint
  totalShielded : p'.totalShielded = p.totalShielded
  totalMinted : p'.totalMinted = p.totalMinted
  totalBurned : p'.totalBurned = p.totalBurned
  totalBtcHeld : p'.totalBtcHeld = p.totalBtcHeld
  utxoCount : p'.utxoCount = p.utxoCount
  pendingRedemptions : p'.pendingRedemptions = p.pendingRedemptions
  activeTreeIndex : p'.activeTreeIndex = p.activeTreeIndex
  nullifierCount : p'.nullifierCount = p.nullifierCount
  bounded : p.Bounded → p'.Bounded

/-- A pool got new settings. -/
def Records.Reconfigured (r r' : Records) : Prop :=
  ∃ m p p', r.pools m = some p ∧ p.SameBooks p' ∧ r' = r.putPool m p'

lemma updatePool_ok {role : PoolRole} {f : PoolState → Except ProgramError PoolState}
    (hf : ∀ p p', f p = .ok p' → p.SameBooks p') (h : updatePool E s c role f = .ok s') :
    s.records.Reconfigured s'.records := by
  simp only [updatePool, readPool, bind_eq_ok, exists_unit, require_eq_ok, pure_eq_ok, orElse_eq_ok,
    validateProgramOwner_ok] at h
  obtain ⟨-, pool, -, signer, -, -, ho, -, p, hp, -, p', hp', rfl⟩ := h
  obtain ⟨m, hk, hrec⟩ := pool_of_owned ho hp
  refine ⟨m, p, p', hrec, hf p p' hp', ?_⟩
  rw [hk, records_putPool hrec]

theorem processSetPaused_ok (h : processSetPaused E s c = .ok s') :
    s.records.Reconfigured s'.records := by
  refine updatePool_ok (fun p p' hp => ?_) h
  simp only [bind_eq_ok, exists_unit, pure_eq_ok] at hp
  obtain ⟨-, rfl⟩ := hp
  refine ⟨rfl, rfl, rfl, rfl, rfl, rfl, rfl, rfl, rfl, fun hb => ?_⟩
  exact ⟨hb.maxDeposit, hb.pendingMaxDeposit⟩

theorem processProposePoolUpdate_ok (h : processProposePoolUpdate E s c = .ok s') :
    s.records.Reconfigured s'.records := by
  refine updatePool_ok (fun p p' hp => ?_) h
  simp only [bind_eq_ok, exists_unit, require_eq_ok, pure_eq_ok] at hp
  obtain ⟨-, -, hmax, -, rfl⟩ := hp
  refine ⟨rfl, rfl, rfl, rfl, rfl, rfl, rfl, rfl, rfl, fun hb => ?_⟩
  exact ⟨hb.maxDeposit, hmax⟩

theorem processExecutePoolUpdate_ok (h : processExecutePoolUpdate E s c = .ok s') :
    s.records.Reconfigured s'.records := by
  refine updatePool_ok (fun p p' hp => ?_) h
  simp only [bind_eq_ok, exists_unit, pure_eq_ok] at hp
  obtain ⟨-, -, rfl⟩ := hp
  refine ⟨rfl, rfl, rfl, rfl, rfl, rfl, rfl, rfl, rfl, fun hb => ?_⟩
  exact ⟨hb.pendingMaxDeposit, Nat.zero_le _⟩

theorem processCancelPoolUpdate_ok (h : processCancelPoolUpdate E s c = .ok s') :
    s.records.Reconfigured s'.records := by
  refine updatePool_ok (fun p p' hp => ?_) h
  simp only [bind_eq_ok, exists_unit, pure_eq_ok] at hp
  obtain ⟨-, rfl⟩ := hp
  refine ⟨rfl, rfl, rfl, rfl, rfl, rfl, rfl, rfl, rfl, fun hb => ?_⟩
  exact ⟨hb.maxDeposit, Nat.zero_le _⟩

theorem processSetDepositFeeBps_ok (h : processSetDepositFeeBps E s c = .ok s') :
    s.records.Reconfigured s'.records := by
  refine updatePool_ok (fun p p' hp => ?_) h
  simp only [bind_eq_ok, exists_unit, pure_eq_ok] at hp
  obtain ⟨-, -, rfl⟩ := hp
  refine ⟨rfl, rfl, rfl, rfl, rfl, rfl, rfl, rfl, rfl, fun hb => ?_⟩
  exact ⟨hb.maxDeposit, hb.pendingMaxDeposit⟩

theorem processSetAuditorFrozen_ok (h : processSetAuditorFrozen E s c = .ok s') :
    s.records.Reconfigured s'.records := by
  refine updatePool_ok (fun p p' hp => ?_) h
  simp only [bind_eq_ok, exists_unit, pure_eq_ok] at hp
  obtain ⟨-, rfl⟩ := hp
  refine ⟨rfl, rfl, rfl, rfl, rfl, rfl, rfl, rfl, rfl, fun hb => ?_⟩
  exact ⟨hb.maxDeposit, hb.pendingMaxDeposit⟩

theorem processSetAuditorViewingPubkey_ok (h : processSetAuditorViewingPubkey E s c = .ok s') :
    s.records.Reconfigured s'.records := by
  refine updatePool_ok (fun p p' hp => ?_) h
  simp only [bind_eq_ok, exists_unit, pure_eq_ok] at hp
  obtain ⟨-, rfl⟩ := hp
  refine ⟨rfl, rfl, rfl, rfl, rfl, rfl, rfl, rfl, rfl, fun hb => ?_⟩
  exact ⟨hb.maxDeposit, hb.pendingMaxDeposit⟩

theorem processRotateAuditor_ok (h : processRotateAuditor E s c = .ok s') :
    s.records.Reconfigured s'.records := by
  refine updatePool_ok (fun p p' hp => ?_) h
  simp only [bind_eq_ok, exists_unit, pure_eq_ok] at hp
  obtain ⟨-, -, -, rfl⟩ := hp
  refine ⟨rfl, rfl, rfl, rfl, rfl, rfl, rfl, rfl, rfl, fun hb => ?_⟩
  exact ⟨hb.maxDeposit, hb.pendingMaxDeposit⟩

/-! ### Beside the books -/

lemma processInitVkRegistry_ok (h : processInitVkRegistry E s c = .ok s') :
    s'.records = s.records := by
  simp only [processInitVkRegistry, bind_eq_ok, exists_unit, pure_eq_ok] at h
  obtain ⟨-, _, -, _, -, _, -, _, -, _, -, -, -, -, -, _, -, _, -, rfl⟩ := h
  rfl

lemma processUpdateVkRegistry_ok (h : processUpdateVkRegistry E s c = .ok s') :
    s'.records = s.records := by
  simp only [processUpdateVkRegistry, bind_eq_ok, exists_unit, pure_eq_ok] at h
  obtain ⟨-, _, -, _, -, _, -, _, -, -, -, -, _, -, -, -, -, _, -, rfl⟩ := h
  exact records_putVkRegistry ..

lemma processFreezeVkRegistry_ok (h : processFreezeVkRegistry E s c = .ok s') :
    s'.records = s.records := by
  simp only [processFreezeVkRegistry, bind_eq_ok, exists_unit, pure_eq_ok] at h
  obtain ⟨-, _, -, _, -, _, -, -, -, -, _, -, -, -, rfl⟩ := h
  exact records_putVkRegistry ..

/-- A destination is registered once; registering it again does nothing. -/
lemma processRegisterExitDestination_ok (h : processRegisterExitDestination E s c = .ok s') :
    s'.records = s.records ∨ ∃ k, s.records.exitDestinations k = none ∧
      s'.records = s.records.putExitDestination k := by
  simp only [processRegisterExitDestination, bind_eq_ok, exists_unit] at h
  obtain ⟨-, -, _, -, pool, -, _, -, _, -, -, -, -, -, -, -, _, -, -, -, -, h⟩ := h
  split_ifs at h with hheld
  · simp only [bind_eq_ok, pure_eq_ok] at h
    obtain ⟨_, -, rfl⟩ := h
    exact .inl rfl
  · simp only [bind_eq_ok, pure_eq_ok] at h
    obtain ⟨acc, hacc, rfl⟩ := h
    refine .inr ⟨(pool.key, byteAt c.data 0, slice 32 c.data 1), ?_, Records.ext rfl rfl rfl rfl rfl
      rfl rfl rfl rfl rfl rfl rfl rfl rfl (recs_create (createOrClaim_owner hacc) _)⟩
    by_contra hsome
    obtain ⟨d, hd⟩ := Option.ne_none_iff_exists'.mp hsome
    obtain ⟨howner, hlive⟩ := Account.rec?_eq_some.mp hd
    refine hheld ⟨howner, ?_⟩
    rw [Data.live?_eq_some.mp hlive]
    rfl

lemma processInitializePolicyApproval_ok (h : processInitializePolicyApproval E s c = .ok s') :
    s'.records = s.records := by
  simp only [processInitializePolicyApproval, bind_eq_ok, exists_unit, pure_eq_ok] at h
  obtain ⟨-, -, _, -, _, -, _, -, _, -, -, -, -, -, -, -, -, _, -, -, -, -, _, -, rfl⟩ := h
  rfl

lemma processPolicyApprovalDecision_ok (h : processPolicyApprovalDecision E s c = .ok s') :
    s'.records = s.records := by
  simp only [processPolicyApprovalDecision, bind_eq_ok, exists_unit, pure_eq_ok] at h
  obtain ⟨-, -, _, -, _, -, -, -, -, _, -, -, -, -, rfl⟩ := h
  exact records_putPolicyApproval ..

lemma processPolicyApprovalCommit_ok (h : processPolicyApprovalCommit E s c = .ok s') :
    s'.records = s.records := by
  simp only [processPolicyApprovalCommit, bind_eq_ok, exists_unit, pure_eq_ok] at h
  obtain ⟨-, -, _, -, _, -, _, -, _, -, -, -, -, -, -, _, -, -, -, rfl⟩ := h
  rfl

lemma processMagicblockDelegate_ok (h : processMagicblockDelegate E s c = .ok s') :
    s'.records = s.records := by
  simp only [processMagicblockDelegate, bind_eq_ok, exists_unit, pure_eq_ok] at h
  obtain ⟨-, -, _, -, _, -, _, -, _, -, _, -, _, -, -, -, -, -, -, -, -, -, _, -, -, rfl⟩ := h
  rfl

lemma processMagicblockUndelegateCallback_ok
    (h : processMagicblockUndelegateCallback s c = .ok s') : s'.records = s.records := by
  simp only [processMagicblockUndelegateCallback, bind_eq_ok, exists_unit] at h
  obtain ⟨-, delegated, -, _, -, -, -, h⟩ := h
  split at h
  · simp only [bind_eq_ok, exists_unit, pure_eq_ok] at h
    obtain ⟨-, rfl⟩ := h
    rfl
  · exact absurd h (by simp [throw_ne_ok])

lemma processMagicblockCommit_ok (h : processMagicblockCommit E s c = .ok s') :
    s'.records = s.records := by
  simp only [processMagicblockCommit, bind_eq_ok, exists_unit, pure_eq_ok] at h
  obtain ⟨-, -, -, -, -, _, -, _, -, _, -, _, -, _, -, _, -, -, -, -, -, -, -, _, -, -, -, h⟩ := h
  obtain ⟨-, -, -, _, -, -, -, -, rfl⟩ := h
  rfl

lemma processMagicblockPerPermission_ok (h : processMagicblockPerPermission E s c = .ok s') :
    s'.records = s.records := by
  simp only [processMagicblockPerPermission, bind_eq_ok, exists_unit, pure_eq_ok] at h
  obtain ⟨-, _, -, _, -, _, -, -, -, _, -, -, -, -, _, -, -, rfl⟩ := h
  rfl

end Utxopia.Pool
