import Utxopia.Pool.AdminBooks
import Utxopia.Pool.ApproveBooks
import Utxopia.Pool.NotesBooks
import Utxopia.Pool.Program
import Utxopia.Pool.SettleBooks

/-!
What a step of the program can do to the books, all of it.

Every claim about runs is proved from this list: an invariant of the books is kept by a step
because it is kept by each of these effects.
-/

namespace Utxopia.Pool

open Utxopia.ByteString Utxopia.Check Utxopia.Runtime

variable {E : Env} {s s' : State} {c c' : Call}

/-- Tokens changed hands outside the program. -/
structure TokensServed (T T' : Addr → Option TokenAccount) : Prop where
  kept : ∀ a t, T a = some t → t.owner.isKey = false →
    ∃ t', T' a = some t' ∧ t.Like t' ∧ t.amount ≤ t'.amount
  handed : ∀ a t', T' a = some t' → T a = some t' ∨ (t'.owner.isKey = false → t'.delegate = none)
  bounded : (∀ a, balanceIn T a < 2 ^ 64) → ∀ a, balanceIn T' a < 2 ^ 64

/-- The deposits, and whether they are tweaked. -/
def Instruction.tweaked : Instruction → Option Bool
  | .CompleteDeposit | .CompleteDepositPermissioned => some false
  | .VerifyDeposit | .VerifyDepositPermissioned => some true
  | _ => none

/-- The instructions that rewrite settings of the pool. -/
def Instruction.setsPool : Instruction → Bool
  | .SetPaused | .ProposePoolUpdate | .ExecutePoolUpdate | .CancelPoolUpdate | .SetDepositFeeBps
  | .SetAuditorFrozen | .SetAuditorViewingPubkey | .RotateAuditor => true
  | _ => false

inductive Effect (E : Env) (s : State) : Label → Records → Prop where
  | quiet {l : Label} : Effect E s l s.records
  | reconfigured {c c' : Call} {i : Instruction} {r' : Records} (h : s.records.Reconfigured r')
      (decoded : c.decode E = some (i, c')) (setting : i.setsPool = true) : Effect E s (.call c) r'
  | tokensServed {a : Addr} {t : Option TokenAccount} {T : Addr → Option TokenAccount}
      (h : TokensServed s.records.tokens T) : Effect E s (.tokenChange a t) (s.records.setTokens T)
  | initialized {c : Call} {m : Addr} {p : PoolState} (fresh : s.records.pools m = none)
      (new : p.New m) :
      Effect E s (.call c) ((s.records.putTree (.poolState m, 0) (.init 0)).putPool m p)
  | configured {c c' : Call} {pool : AccountInfo} (decoded : c.decode E = some (.SetPoolConfig, c'))
      (account : c'.account 0 = .ok pool) (h : Configuring s.records pool.key c'.poolConfig) :
      Effect E s (.call c) (s.records.configure pool.key c'.poolConfig)
  | registered {c : Call} {pool mint : Addr} {tc : TokenConfig}
      (h : Registration E s.records pool mint tc) :
      Effect E s (.call c) (s.records.putTokenConfig (pool, mint) tc)
  | relimited {c : Call} {k : Addr × Addr} {tc tc' : TokenConfig}
      (config : s.records.tokenConfigs k = some tc) (same : tc.SameBooks tc') {c' : Call}
      (decoded : c.decode E = some (.UpdateTokenConfig, c')) :
      Effect E s (.call c) (s.records.putTokenConfig k tc')
  | claimed {c : Call} {m : Addr} {tc : TokenConfig} {T : Addr → Option TokenAccount} {amount : ℕ}
      (config : s.records.tokenConfigs (.poolState m, tc.mint) = some tc)
      (covered : amount ≤ tc.accumulatedFees) (paid : Outflow tc.vault amount s.records.tokens T)
      {c' : Call} (decoded : c.decode E = some (.ClaimFees, c'))
      (token : c'.configAt 2 = some (.poolState m, tc.mint)) :
      Effect E s (.call c)
        ((s.records.setTokens T).putTokenConfig (.poolState m, tc.mint) (tc.claim amount))
  | exitRegistered {c : Call} {k : Addr × ℕ × Hash} (free : s.records.exitDestinations k = none) :
      Effect E s (.call c) (s.records.putExitDestination k)
  | shielded {c c' : Call} {m : Addr} {p : PoolState} {tc : TokenConfig} {t t' : CommitmentTree}
      {T : Addr → Option TokenAccount} {commitment : Hash} {amount fee : ℕ} {now : ℤ}
      (keys : c'.signedByKeys = true)
      (h : Shielding E s.records c' m p tc t t' T commitment amount fee) {i : Instruction}
      (decoded : c.decode E = some (i, c')) (entry : i = .Shield ∨ i = .ShieldPermissioned) :
      Effect E s (.call c) (s.records.shield m p tc t t' T commitment amount fee now)
  | transacted {c c' : Call} {plan : TransactPlan} {m : Addr} {p : PoolState} {t : CommitmentTree}
      {r' : Records} (decoded : c.decode E = some (.Transact, c'))
      (planned : planTransact E s c' = .ok plan) (sound : plan.Sound s.records c' m p t)
      (burnable : Burnable s.records m plan.sourceTreeIndex plan.pre.nullifiers)
      (outputs : TransactOutputs E (s.records.burn m p plan.sourceTreeIndex plan.pre.nullifiers
        plan.accounting) plan m t r') : Effect E s (.call c) r'
  | unshielded {c c' : Call} {plan : UnshieldPlan} {m : Addr} {p : PoolState} {tc : TokenConfig}
      {t t' : CommitmentTree} {T : Addr → Option TokenAccount} {amount fee : ℕ} {now : ℤ}
      (decoded : c.decode E = some (.Unshield, c')) (planned : planUnshield E s c' = .ok plan)
      (h : Unshielding E s.records plan m p tc t t' T amount fee) :
      Effect E s (.call c) (s.records.unshield plan m p tc t t' T amount fee now)
  | redeemed {c c' : Call} {plan : RedeemPlan} {m : Addr} {p : PoolState} {tc : TokenConfig}
      {t t' : CommitmentTree} {now : ℤ} (decoded : c.decode E = some (.Redeem, c'))
      (planned : planRedeem E s c' = .ok plan) (h : Redeeming E s.records c' plan m p tc t t') :
      Effect E s (.call c) (s.records.redeem plan m p tc t t' now)
  | marked {c c' : Call} {m : Addr} {p : PoolState} {req : RedemptionRequest}
      {us : List UtxoEntry} {slot : ℕ} (decoded : c.decode E = some (.MarkProcessing, c'))
      (h : Marking s.records m p req us) (named : Names c' m req 0 3 (byteAt c'.data 0) us) :
      Effect E s (.call c) (s.records.mark E m p req us slot)
  | approved {c c' : Call} {m : Addr} {req req' : RedemptionRequest} {cfg : PoolConfig}
      {us : List UtxoEntry} {tx : RedemptionTx} {fee inputIndex : ℕ}
      (decoded : c.decode E = some (.ApproveRedemptionSigning, c'))
      (digest : tx.digest E inputIndex = slice 32 c'.data 32)
      (index : inputIndex = u32At c'.data 72)
      (h : Approving E s.records m req req' cfg us tx fee inputIndex) :
      Effect E s (.call c) ((s.records.updateRedemptions [(req.storeKey m, some req')]).approve
        (tx.digest E inputIndex))
  | cancelled {c c' : Call} {m : Addr} {p : PoolState} {req : RedemptionRequest} {tc : TokenConfig}
      {t t' : CommitmentTree} {us : List UtxoEntry} {commitment : Hash} {now : ℤ}
      (decoded : c.decode E = some (.CancelRedemption, c'))
      (h : Cancelling E s.records m p req tc t t' us commitment)
      (named : Names c' m req 1 6 (byteAt c'.data 32) us)
      (token : c'.configAt 5 = some (.poolState m, tc.mint)) :
      Effect E s (.call c) (s.records.cancel m p req tc t t' us commitment now)
  | completed {c c' : Call} {m : Addr} {p : PoolState} {req : RedemptionRequest}
      {tc : TokenConfig} {us : List UtxoEntry} {tx : ParsedTransaction} {txid : Hash}
      {leaf : Option Hash} {T : Addr → Option TokenAccount} {burn revenue : ℕ} {now : ℤ}
      (decoded : c.decode E = some (.CompleteRedemption, c'))
      (h : Completing E s.records m p req tc us tx txid c'.changeOutput leaf T burn revenue)
      (named : Names c' m req 0 c'.consumedRange.1 c'.consumedRange.2 us)
      (token : c'.configAt (c'.consumedRange.1 + c'.consumedRange.2) = some (.poolState m, m)) :
      Effect E s (.call c)
        (s.records.complete m p req tc us txid c'.changeOutput leaf T burn revenue now)
  | deposited {c c' : Call} {i : Instruction} {tweaked : Bool} {ix : CompleteDepositData}
      {binding : DepositBinding} {m : Addr} {p : PoolState} {tc : TokenConfig}
      {t t' : CommitmentTree} {T : Addr → Option TokenAccount} {credit : Credit}
      {leaf : Option Hash} {commitment : Hash} {amount fee : ℕ} {now : ℤ}
      (decoded : c.decode E = some (i, c')) (kind : i.tweaked = some tweaked)
      (input : depositInput tweaked c'.data = .ok (ix, binding))
      (credited : creditOf E s c' ix binding = .ok (.poolState m, credit))
      (h : Depositing E s.records m p tc t t' T (ix.depositTxid, binding.depositVout) credit
        commitment amount fee) (token : c'.configAt 13 = some (.poolState m, m)) :
      Effect E s (.call c) (s.records.deposit m p tc t t' T (ix.depositTxid, binding.depositVout)
        credit leaf commitment amount fee now)
  | merged {c c' : Call} {pool tree : AccountInfo} {m : Addr} {p : PoolState}
      {t t' : CommitmentTree} {leaves : List QueuedLeaf}
      (decoded : c.decode E = some (.MergeQueuedLeaves, c'))
      (at_tree : AtActiveTree s.records pool tree m p t)
      (nodup : (leaves.map QueuedLeaf.commitment).Nodup)
      (queued : ∀ l ∈ leaves, s.records.queuedLeaves (.poolState m, l.commitment) = some l ∧
        l.treeIndex = p.activeTreeIndex)
      (placed : t.insertLeavesBatch E (leaves.map QueuedLeaf.commitment) = .ok (t', t.nextIndex)) :
      Effect E s (.call c) (s.records.merge m p t t' leaves)
  | rotated {c c' : Call} {m : Addr} {p : PoolState} {t : CommitmentTree}
      (decoded : c.decode E = some (.RotateTree, c')) (mint : p.zkbtcMint = m)
      (pool : s.records.pools m = some p)
      (tree : s.records.trees (.poolState m, p.activeTreeIndex) = some t)
      (full : maxLeaves ≤ t.nextIndex) :
      Effect E s (.call c) ((s.records.putTree (.poolState m, p.nextTreeIndex)
        (.init p.nextTreeIndex)).putPool m { p with activeTreeIndex := p.nextTreeIndex })

/-! ### Every step has one of the effects -/

lemma records_reap (a : Addr) : (s.reap a).records = s.records := by
  have hreap : ∀ {K α : Type} [DecidableEq K] (l : Store K (Account α)) (k : K),
      (reapStore l k).recs = l.recs := fun l k => by
    refine Store.recs_set_of_eq ?_
    unfold reapAccount
    split_ifs with h
    · exact (Account.rec?_eq_none_of_live? (Option.isNone_iff_eq_none.mp h.2)).symm
    · rfl
  cases a <;> simp only [State.reap, State.records, hreap]

lemma signedByKeys_decode {i : Instruction} (h : c.signedByKeys = true)
    (hd : c.decode E = some (i, c')) : c'.signedByKeys = true := by
  unfold Call.decode at hd
  split_ifs at hd
  · obtain ⟨rfl, rfl⟩ := Prod.mk.inj (Option.some_inj.mp hd)
    exact h
  · split at hd
    · obtain ⟨i', -, hi⟩ := Option.map_eq_some_iff.mp hd
      obtain ⟨rfl, rfl⟩ := Prod.mk.inj hi
      exact h
    · exact absurd hd (by simp)

lemma tokenChange_served {T : Addr → Option TokenAccount} {a : Addr} {t : Option TokenAccount}
    (h : tokenChangeAllowed (T a) t = true) : TokensServed T (Function.update T a t) := by
  simp only [tokenChangeAllowed, Bool.and_eq_true] at h
  obtain ⟨hold, hnew⟩ := h
  have hnew' : ∀ t', t = some t' → t'.amount < 2 ^ 64 ∧ (t'.owner.isKey = false → t'.delegate = none) := by
    rintro t' rfl
    simpa [imp_iff_not_or, Bool.not_eq_false] using hnew
  refine ⟨fun b u hu hkey => ?_, fun b u hu => ?_, fun hb b => ?_⟩
  · rcases eq_or_ne b a with rfl | hne
    · rw [hu] at hold
      simp only [hkey, Bool.false_or] at hold
      cases t with
      | none => exact absurd hold (by simp)
      | some t' =>
        simp only [Option.any_some, decide_eq_true_eq] at hold
        obtain ⟨h1, h2, h3, h4, h5⟩ := hold
        exact ⟨t', Function.update_self .., ⟨h1, h2, h3, h4⟩, h5⟩
    · exact ⟨u, by rwa [Function.update_of_ne hne], .refl u, le_rfl⟩
  · rcases eq_or_ne b a with rfl | hne
    · rw [Function.update_self] at hu
      exact .inr (hnew' u hu).2
    · rw [Function.update_of_ne hne] at hu
      exact .inl hu
  · rcases eq_or_ne b a with rfl | hne
    · unfold balanceIn
      rw [Function.update_self]
      cases t with
      | none => simp
      | some t' => exact (hnew' t' rfl).1
    · unfold balanceIn
      rw [Function.update_of_ne hne]
      exact hb b

lemma deposit_effect {i : Instruction} {tweaked : Bool} {ix : CompleteDepositData}
    {binding : DepositBinding} (hd : c.decode E = some (i, c')) (hi : i.tweaked = some tweaked)
    (hin : depositInput tweaked c'.data = .ok (ix, binding))
    (h : completeDepositInner E s c' ix binding = .ok s') : Effect E s (.call c) s'.records := by
  obtain ⟨m, p, tc, t, t', T, credit, leaf, commitment, amount, fee, hcr, hdep, hnamed, hrec⟩ :=
    completeDepositInner_ok h
  exact hrec ▸ .deposited hd hi hin hcr hdep hnamed

/-- An instruction has one of the effects. -/
theorem run_effect {i : Instruction} (hkeys : c'.signedByKeys = true)
    (hd : c.decode E = some (i, c')) (h : i.run E s c' = .ok s') :
    Effect E s (.call c) s'.records := by
  cases i with
  | Initialize =>
    simp only [Instruction.run, processInitialize, bind_eq_ok, exists_unit] at h
    obtain ⟨m, p, hfresh, hnew, hrec⟩ := initializePool_ok h.2.2
    exact hrec ▸ .initialized hfresh hnew
  | InitializePermissioned =>
    simp only [Instruction.run, processInitializePermissioned, bind_eq_ok, exists_unit] at h
    obtain ⟨m, p, hfresh, hnew, hrec⟩ := initializePool_ok h.2.2.2
    exact hrec ▸ .initialized hfresh hnew
  | SetPoolConfig =>
    obtain ⟨pool, hpool, hcfg, hrec⟩ := processSetPoolConfig_ok h
    exact hrec ▸ .configured hd hpool hcfg
  | SetPaused => exact .reconfigured (processSetPaused_ok h) hd rfl
  | ProposePoolUpdate => exact .reconfigured (processProposePoolUpdate_ok h) hd rfl
  | ExecutePoolUpdate => exact .reconfigured (processExecutePoolUpdate_ok h) hd rfl
  | CancelPoolUpdate => exact .reconfigured (processCancelPoolUpdate_ok h) hd rfl
  | SetDepositFeeBps => exact .reconfigured (processSetDepositFeeBps_ok h) hd rfl
  | SetAuditorFrozen => exact .reconfigured (processSetAuditorFrozen_ok h) hd rfl
  | SetAuditorViewingPubkey => exact .reconfigured (processSetAuditorViewingPubkey_ok h) hd rfl
  | RotateAuditor => exact .reconfigured (processRotateAuditor_ok h) hd rfl
  | InitVkRegistry => exact processInitVkRegistry_ok h ▸ .quiet
  | UpdateVkRegistry => exact processUpdateVkRegistry_ok h ▸ .quiet
  | FreezeVkRegistry => exact processFreezeVkRegistry_ok h ▸ .quiet
  | RegisterExitDestination =>
    rcases processRegisterExitDestination_ok h with hrec | ⟨k, hfree, hrec⟩
    · exact hrec ▸ .quiet
    · exact hrec ▸ .exitRegistered hfree
  | InitializePolicyApproval => exact processInitializePolicyApproval_ok h ▸ .quiet
  | PolicyApprovalDecision => exact processPolicyApprovalDecision_ok h ▸ .quiet
  | PolicyApprovalCommit => exact processPolicyApprovalCommit_ok h ▸ .quiet
  | MagicblockDelegate => exact processMagicblockDelegate_ok h ▸ .quiet
  | MagicblockCommit => exact processMagicblockCommit_ok h ▸ .quiet
  | MagicblockPerPermission => exact processMagicblockPerPermission_ok h ▸ .quiet
  | MagicblockUndelegateCallback => exact processMagicblockUndelegateCallback_ok h ▸ .quiet
  | RegisterToken =>
    obtain ⟨pool, mint, tc, hreg, hrec⟩ := processRegisterToken_ok h
    exact hrec ▸ .registered hreg
  | UpdateTokenConfig =>
    obtain ⟨k, tc, tc', hcfg, hsame, hrec⟩ := processUpdateTokenConfig_ok h
    exact hrec ▸ .relimited hcfg hsame hd
  | ClaimFees =>
    obtain ⟨m, tc, T, amount, hcfg, hle, hpaid, hnamed, hrec⟩ := processClaimFees_ok h
    exact hrec ▸ .claimed hcfg hle hpaid hd hnamed
  | Shield =>
    obtain ⟨m, p, tc, t, t', T, commitment, amount, fee, hsh, hrec⟩ := processShield_ok h
    exact hrec ▸ .shielded hkeys hsh hd (.inl rfl)
  | ShieldPermissioned =>
    obtain ⟨m, p, tc, t, t', T, commitment, amount, fee, hsh, hrec⟩ := processShieldPermissioned_ok h
    exact hrec ▸ .shielded hkeys hsh hd (.inr rfl)
  | Transact =>
    obtain ⟨plan, m, p, t, hplan, hsound, hburn, hout⟩ := processTransact_ok h
    exact .transacted hd hplan hsound hburn hout
  | Unshield =>
    obtain ⟨plan, m, p, tc, t, t', T, amount, fee, hplan, hun, hrec⟩ := processUnshield_ok h
    exact hrec ▸ .unshielded hd hplan hun
  | Redeem =>
    obtain ⟨plan, m, p, tc, t, t', hplan, hre, hrec⟩ := processRedeem_ok h
    exact hrec ▸ .redeemed hd hplan hre
  | MarkProcessing =>
    obtain ⟨m, p, req, us, slot, hmark, hnamed, hrec⟩ := processMarkProcessing_ok h
    exact hrec ▸ .marked hd hmark hnamed
  | ApproveRedemptionSigning =>
    obtain ⟨m, req, req', cfg, us, tx, fee, i, happ, hdig, hidx, hrec⟩ :=
      processApproveRedemptionSigning_ok h
    exact hrec ▸ .approved hd hdig hidx happ
  | CancelRedemption =>
    obtain ⟨m, p, req, tc, t, t', us, commitment, hcan, hnamed, htoken, hrec⟩ :=
      processCancelRedemption_ok h
    exact hrec ▸ .cancelled hd hcan hnamed htoken
  | CompleteRedemption =>
    obtain ⟨m, p, req, tc, us, tx, txid, leaf, T, burn, revenue, hcom, hnamed, hcfg, hrec⟩ :=
      processCompleteRedemption_ok h
    exact hrec ▸ .completed hd hcom hnamed hcfg
  | CompleteDeposit =>
    obtain ⟨ix, binding, hin, hdep⟩ := processCompleteDeposit_ok h
    exact deposit_effect hd rfl hin hdep
  | CompleteDepositPermissioned =>
    obtain ⟨ix, binding, hin, hdep⟩ := processCompleteDepositPermissioned_ok h
    exact deposit_effect hd rfl hin hdep
  | VerifyDeposit =>
    obtain ⟨ix, binding, hin, hdep⟩ := processVerifyDeposit_ok h
    exact deposit_effect hd rfl hin hdep
  | VerifyDepositPermissioned =>
    obtain ⟨ix, binding, hin, hdep⟩ := processVerifyDepositPermissioned_ok h
    exact deposit_effect hd rfl hin hdep
  | MergeQueuedLeaves =>
    obtain ⟨pool, tree, m, p, t, t', leaves, hat, hnd, hq, hins, hrec⟩ :=
      processMergeQueuedLeaves_ok h
    exact hrec ▸ .merged hd hat hnd hq hins
  | RotateTree =>
    obtain ⟨m, p, t, hm, hp, ht, hfull, hrec⟩ := processRotateTree_ok h
    exact hrec ▸ .rotated hd hm hp ht hfull

/-- **Effects**: every step of the program has one of them. -/
theorem step_effect {l : Label} (h : step E s l = .ok s') : Effect E s l s'.records := by
  cases l with
  | call c =>
    simp only [step, bind_eq_ok, exists_unit, require_eq_ok] at h
    obtain ⟨hkeys, h⟩ := h
    unfold processInstruction at h
    split at h
    · rename_i i c' hd
      exact run_effect (signedByKeys_decode hkeys hd) hd h
    · exact absurd h (by simp [throw_ne_ok])
  | fund n a =>
    obtain rfl := Except.ok.inj h
    exact records_fund (s := s) n a ▸ .quiet
  | reap a =>
    obtain rfl := Except.ok.inj h
    exact records_reap (s := s) a ▸ .quiet
  | tokenChange a t =>
    simp only [step, bind_eq_ok, exists_unit, require_eq_ok, pure_eq_ok] at h
    obtain ⟨hallowed, rfl⟩ := h
    exact .tokensServed (tokenChange_served hallowed)

end Utxopia.Pool
