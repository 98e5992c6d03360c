import Utxopia.Pool.Effect

/-!
Whether the auditor can keep anybody in.

The auditor of a permissioned pool can freeze it and decides approvals. Who leaves to a registered
destination needs neither. Blinding a state forgets all that is the auditor's; an exit runs
the same on what is left.
-/

namespace Utxopia.Pool

open Utxopia.ByteString Utxopia.Check Utxopia.Run Utxopia.Runtime

variable {E : Env} {s s' : State} {c c' : Call}

/-! ### What is the auditor's -/

/-- A pool without what its auditor sets. -/
def PoolState.blind (p : PoolState) : PoolState :=
  { p with auditorFrozen := false, auditor := zeros 32, auditorViewingPubkey := zeros 32 }

/-- A state without what auditors set and without what is in approvals. -/
def State.blind (s : State) : State :=
  { s with
    pools := s.pools.map (Account.map PoolState.blind) rfl
    policyApprovals := s.policyApprovals.map Account.forget rfl }

/-- A call that does not see into approvals of the policy program. -/
def Call.blind (E : Env) (c : Call) : Call :=
  { c with
    foreign := fun k =>
      if (c.foreign k).owner = E.policyProgramId then { c.foreign k with data := [] }
      else c.foreign k }

/-! ### What blinding does not change -/

lemma foreign_owner_blind (E : Env) (c : Call) (k : Hash) :
    ((c.blind E).foreign k).owner = (c.foreign k).owner := by
  simp only [Call.blind]
  split_ifs <;> rfl

@[simp] lemma account_blind (i : ℕ) : (c.blind E).account i = c.account i := rfl

@[simp] lemma accounts_blind : (c.blind E).accounts = c.accounts := rfl

@[simp] lemma data_blind : (c.blind E).data = c.data := rfl

@[simp] lemma unixTimestamp_blind : (c.blind E).unixTimestamp = c.unixTimestamp := rfl

@[simp] lemma ownerOf_blind (a : Addr) : s.blind.ownerOf E (c.blind E) a = s.ownerOf E c a := by
  cases a with
  | key k => simp only [State.ownerOf, foreign_owner_blind]
  | _ => rfl

@[simp] lemma ownedBy_blind (a : Addr) (id : Hash) : (c.blind E).ownedBy a id = c.ownedBy a id := by
  cases a with
  | key k => simp only [Call.ownedBy, foreign_owner_blind]
  | _ => rfl

@[simp] lemma tokenProgramOf_blind (a : Addr) :
    tokenProgramOf s.blind (c.blind E) a = tokenProgramOf s c a := by
  have htokens : s.blind.tokens = s.tokens := rfl
  unfold tokenProgramOf
  rw [htokens]
  cases s.tokens a with
  | some t => rfl
  | none =>
    cases a with
    | key k => simp only [foreign_owner_blind]
    | _ => rfl

lemma poolAt_blind (a : Addr) : s.blind.poolAt a = (s.poolAt a).map PoolState.blind := by
  cases a with
  | poolState m => exact Account.live?_map ..
  | _ => rfl

lemma readPool_blind (info : AccountInfo) :
    readPool s.blind info = PoolState.blind <$> readPool s info := by
  rw [readPool, readPool, poolAt_blind]
  cases s.poolAt info.key <;> rfl

section Reads

variable (info tree pool : AccountInfo)

@[simp] lemma readTree_blind : readTree s.blind info = readTree s info := rfl

@[simp] lemma readTokenConfig_blind : readTokenConfig s.blind info = readTokenConfig s info := rfl

@[simp] lemma validateProgramOwner_blind :
    validateProgramOwner E s.blind (c.blind E) info = validateProgramOwner E s c info := by
  simp only [validateProgramOwner, ownerOf_blind]

@[simp] lemma validateTokenOwner_blind :
    validateTokenOwner s.blind (c.blind E) info = validateTokenOwner s c info := by
  simp only [validateTokenOwner, tokenProgramOf_blind]

@[simp] lemma validatePoolStatePda_blind :
    validatePoolStatePda E s.blind (c.blind E) pool = validatePoolStatePda E s c pool := by
  simp only [validatePoolStatePda, validateProgramOwner_blind, readPool_blind, bind_map_left]
  rfl

@[simp] lemma validateTokenConfigPda_blind :
    validateTokenConfigPda E s.blind (c.blind E) info pool = validateTokenConfigPda E s c info pool := by
  simp only [validateTokenConfigPda, validateProgramOwner_blind, validatePoolStatePda_blind,
    readTokenConfig_blind]

@[simp] lemma validateActiveTreePda_blind (activeIndex : ℕ) :
    validateActiveTreePda E s.blind (c.blind E) tree pool activeIndex =
      validateActiveTreePda E s c tree pool activeIndex := by
  simp only [validateActiveTreePda, validatePoolStatePda_blind]

@[simp] lemma checkRecipient_blind (vault : Addr) (program : TokenProgram) (nativeSol : Bool) :
    checkRecipient s.blind (c.blind E) vault program nativeSol =
      checkRecipient s c vault program nativeSol := by
  funext u recipient
  simp only [checkRecipient, tokenProgramOf_blind]

@[simp] lemma payoutOwner_blind (nativeSol : Bool) :
    payoutOwner E s.blind nativeSol = payoutOwner E s nativeSol := rfl

@[simp] lemma looksLikeCommitmentTree_blind :
    looksLikeCommitmentTree E s.blind (c.blind E) info = looksLikeCommitmentTree E s c info := by
  have htree : s.blind.treeAt info.key = s.treeAt info.key := rfl
  simp only [looksLikeCommitmentTree, ownerOf_blind, htree]

@[simp] lemma readSourceTree_blind (i : Option ℕ) :
    readSourceTree E s.blind (c.blind E) tree i = readSourceTree E s c tree i := by
  have haccount : (c.blind E).account? i = c.account? i := rfl
  simp only [readSourceTree, haccount, looksLikeCommitmentTree_blind]

@[simp] lemma validateFrozenTree_blind (activeIndex : ℕ) (root : Hash) :
    validateFrozenTree E s.blind (c.blind E) tree pool activeIndex root =
      validateFrozenTree E s c tree pool activeIndex root := by
  simp only [validateFrozenTree, validateProgramOwner_blind, readTree_blind,
    validatePoolStatePda_blind]

@[simp] lemma resolveSourceTree_blind (activeIndex : ℕ) (sourceTree : Option AccountInfo)
    (root : Hash) : resolveSourceTree E s.blind (c.blind E) pool tree activeIndex sourceTree root =
      resolveSourceTree E s c pool tree activeIndex sourceTree root := by
  simp only [resolveSourceTree, readTree_blind, validateFrozenTree_blind]

@[simp] lemma verifyVkMerkleAndProof_blind (vk : AccountInfo) (activeIndex : ℕ)
    (sourceTree : Option AccountInfo) (h : JoinSplitHeader) (pre : JoinSplitPrefix) :
    verifyVkMerkleAndProof E s.blind (c.blind E) pool vk tree activeIndex sourceTree h pre =
      verifyVkMerkleAndProof E s c pool vk tree activeIndex sourceTree h pre := by
  have hvk : ∀ a, s.blind.vkRegistryAt a = s.vkRegistryAt a := fun a => rfl
  simp only [verifyVkMerkleAndProof, resolveSourceTree_blind, hvk]

@[simp] lemma assertExitDestinationRegistered_blind (a : Addr) (kind : ℕ) (key : Hash) :
    assertExitDestinationRegistered E s.blind (c.blind E) a info kind key =
      assertExitDestinationRegistered E s c a info kind key := by
  have hexit : s.blind.exitDestinationAt info.key = s.exitDestinationAt info.key := rfl
  simp only [assertExitDestinationRegistered, ownerOf_blind, hexit]

end Reads

/-- The proof comes from a buffer that is no approval. -/
lemma readProof_blind (hids : E.policyProgramId ≠ E.chadbufferId) (h : JoinSplitHeader) :
    readProof E (c.blind E) h = readProof E c h := by
  unfold readProof
  split_ifs
  · refine bind_congr_ok fun buf _ => ?_
    simp only [ownedBy_blind]
    refine bind_congr_ok fun u hu => ?_
    have howned : c.ownedBy buf.key E.chadbufferId = true := require_eq_ok.mp hu
    have hdata : (c.blind E).dataOf buf.key = c.dataOf buf.key := by
      cases hk : buf.key with
      | key k =>
        rw [hk] at howned
        have hne : (c.foreign k).owner ≠ E.policyProgramId := fun heq =>
          hids (heq.symm.trans (of_decide_eq_true howned))
        simp only [Call.dataOf, Call.blind, if_neg hne]
      | _ => rfl
    rw [hdata]
  · rfl

lemma parsePrefix_blind (hids : E.policyProgramId ≠ E.chadbufferId) (h : JoinSplitHeader) (n : ℕ) :
    parsePrefix E (c.blind E) h n = parsePrefix E c h n := by
  simp only [parsePrefix, readProof_blind hids, data_blind]
  rfl

/-! ### Leaving needs no auditor -/

/-- The call has the flag for leaving to registered destinations. -/
def Call.ragequits (c : Call) : Prop := byteAt c.data 3 &&& Jsflags.RAGEQUIT ≠ 0

instance (c : Call) : Decidable c.ragequits := inferInstanceAs (Decidable (_ ≠ _))

lemma Call.ragequits.header {h : JoinSplitHeader} (hflag : c.ragequits)
    (hh : parseHeader c.data = .ok h) : h.has Jsflags.RAGEQUIT = true := by
  simp only [parseHeader, bind_eq_ok, exists_unit, require_eq_ok, pure_eq_ok] at hh
  obtain ⟨-, -, rfl⟩ := hh
  exact decide_eq_true hflag

/-- With the flag there is no approval among the accounts. -/
lemma fromFlags_ragequit {h : JoinSplitHeader} {permissioned : Bool} {n : ℕ} {tail : PolicyTail}
    (hflag : h.has Jsflags.RAGEQUIT = true)
    (htail : PolicyTail.fromFlags h permissioned n = .ok tail) : tail ≠ .Verified := by
  rintro rfl
  unfold PolicyTail.fromFlags at htail
  rw [hflag] at htail
  cases permissioned <;> cases hp : h.has Jsflags.POLICY <;> rw [hp] at htail <;>
    exact absurd htail (by simp [throw_ne_ok])

lemma resolveSpendPath_unverified {permissioned : Bool} {policyTail : PolicyTail} {action : ℕ}
    {path : SpendPath} (h : policyTail ≠ .Verified)
    (hpath : resolveSpendPath permissioned (decide (policyTail = .Verified))
      (decide (policyTail = .Verified)) action = .ok path) : path ≠ .Verified := by
  rintro rfl
  simp only [h, decide_false, resolveSpendPath] at hpath
  split_ifs at hpath <;> simp at hpath

lemma authorizeSpend_blind {p : PoolState} {pool user : AccountInfo} {tail : JoinSplitTail}
    {policyTail : PolicyTail} {action kind : ℕ} {parts : List (List UInt8)} {keys : List Hash}
    (h : policyTail ≠ .Verified) :
    authorizeSpend E s.blind (c.blind E) p.blind pool user tail policyTail action kind parts keys =
      authorizeSpend E s c p pool user tail policyTail action kind parts keys := by
  unfold authorizeSpend
  refine bind_congr_ok fun path hp => ?_
  cases path with
  | Open => rfl
  | Verified => exact absurd rfl (resolveSpendPath_unverified h hp)
  | Ragequit => simp only [accounts_blind, assertExitDestinationRegistered_blind]

/-- **The plan of an exit** depends on nothing of the auditor's. -/
theorem planUnshield_blind (hids : E.policyProgramId ≠ E.chadbufferId) (hflag : c.ragequits) :
    planUnshield E s.blind (c.blind E) = planUnshield E s c := by
  unfold planUnshield
  refine bind_congr_ok fun h hh => ?_
  have hhas := hflag.header hh
  simp only [parsePrefix_blind hids, readPool_blind, bind_map_left, validateProgramOwner_blind,
    account_blind, validateTokenOwner_blind, validateTokenConfigPda_blind, checkRecipient_blind,
    payoutOwner_blind, validateActiveTreePda_blind, readSourceTree_blind, readTokenConfig_blind,
    verifyVkMerkleAndProof_blind, accounts_blind, data_blind]
  repeat refine bind_congr_ok fun _ _ => ?_
  have htail := fromFlags_ragequit hhas ‹PolicyTail.fromFlags h _ _ = .ok _›
  rw [authorizeSpend_blind htail]
  rfl

theorem planRedeem_blind (hids : E.policyProgramId ≠ E.chadbufferId) (hflag : c.ragequits) :
    planRedeem E s.blind (c.blind E) = planRedeem E s c := by
  have hconfig : ∀ (pool config : AccountInfo) (p : PoolState),
      readZkbtcConfig s.blind pool config p.blind = readZkbtcConfig s pool config p :=
    fun _ _ _ => rfl
  unfold planRedeem
  refine bind_congr_ok fun h hh => ?_
  have hhas := hflag.header hh
  simp only [parsePrefix_blind hids, readPool_blind, bind_map_left, validateProgramOwner_blind,
    account_blind, hconfig, validateActiveTreePda_blind, readSourceTree_blind,
    verifyVkMerkleAndProof_blind, accounts_blind, data_blind]
  repeat refine bind_congr_ok fun _ _ => ?_
  have htail := fromFlags_ragequit hhas ‹PolicyTail.fromFlags h _ _ = .ok _›
  rw [authorizeSpend_blind htail]
  rfl

/-! ### What an exit writes -/

lemma blind_setPool (s : State) (m : Addr) (acc : Account PoolState) :
    ({ s with pools := s.pools.set m acc } : State).blind =
      { s.blind with pools := s.blind.pools.set m (acc.map PoolState.blind) } :=
  congrArg (fun pools => { s.blind with pools := pools }) (Store.map_set s.pools m acc)

lemma blind_setApproval (s : State) (k : Addr × Hash × Hash) (acc : Account PolicyApproval) :
    ({ s with policyApprovals := s.policyApprovals.set k acc } : State).blind =
      { s.blind with policyApprovals := s.blind.policyApprovals.set k acc.forget } :=
  congrArg (fun approvals => { s.blind with policyApprovals := approvals })
    (Store.map_set s.policyApprovals k acc)

lemma blind_putPool (s : State) (p : PoolState) (a : Addr) :
    (s.putPool p a).blind = s.blind.putPool p.blind a := by
  cases a with
  | poolState m => exact blind_setPool ..
  | _ => rfl

lemma blind_putTree (s : State) (t : CommitmentTree) (a : Addr) :
    (s.putTree t a).blind = s.blind.putTree t a := by
  cases a <;> rfl

lemma blind_putTokenConfig (s : State) (tc : TokenConfig) (a : Addr) :
    (s.putTokenConfig tc a).blind = s.blind.putTokenConfig tc a := by
  cases a <;> rfl

lemma blind_note (s : State) (events : List Event) : (s.note events).blind = s.blind.note events :=
  rfl

lemma blind_setToken (s : State) (a : Addr) (t : TokenAccount) :
    (setToken s a t).blind = setToken s.blind a t := rfl

lemma blind_fund (s : State) (n : ℕ) (a : Addr) : (s.fund n a).blind = s.blind.fund n a := by
  cases a with
  | poolState m => exact blind_setPool ..
  | policyApproval pool h k => exact blind_setApproval ..
  | _ => rfl

lemma createNullifier_blind (pool : Addr) (index : ℕ) (s : State) (item : AccountInfo × Hash) :
    createNullifier E pool index s.blind item = State.blind <$> createNullifier E pool index s item := by
  simp only [createNullifier, map_bind, map_pure]
  rfl

lemma createNullifierRecords_blind (start index : ℕ) (nfs : List Hash) (pool : AccountInfo)
    (accounting : NullifierAccounting) :
    createNullifierRecords E s.blind (c.blind E) start nfs pool index accounting =
      State.blind <$> createNullifierRecords E s c start nfs pool index accounting := by
  simp only [createNullifierRecords, map_bind, loop_map (createNullifier_blind pool.key index),
    bind_map_left, accounts_blind]
  refine bind_congr fun _ => bind_congr fun s' => ?_
  cases accounting with
  | DeferToQueue => rfl
  | ApplyNow =>
    simp only [readPool_blind, bind_map_left, map_bind, map_pure, blind_putPool]
    rfl

lemma insertOutputs_blind (pool tree : AccountInfo) (index : ℕ) (hs : List Hash) :
    insertOutputs E s.blind pool tree index hs = State.blind <$> insertOutputs E s pool tree index hs := by
  simp only [insertOutputs, readTree_blind, map_bind]
  refine bind_congr fun t => ?_
  split_ifs
  · rfl
  · simp only [map_bind, map_pure, blind_note, blind_putTree]

lemma transferToken_blind (program : TokenProgram) (src dst authority : Addr) (amount : ℕ) :
    transferToken s.blind program src dst authority amount =
      State.blind <$> transferToken s program src dst authority amount := by
  have htokens : s.blind.tokens = s.tokens := rfl
  simp only [transferToken, htokens, map_bind]
  refine bind_congr fun t => bind_congr fun u => bind_congr fun _ => bind_congr fun _ =>
    bind_congr fun _ => ?_
  split_ifs
  · rfl
  · simp only [map_bind, map_pure, blind_setToken]

lemma unwrapLamports_blind (program : TokenProgram) (src dst authority : Addr) (amount : ℕ) :
    unwrapLamports s.blind program src dst authority amount =
      State.blind <$> unwrapLamports s program src dst authority amount := by
  have htokens : s.blind.tokens = s.tokens := rfl
  simp only [unwrapLamports, htokens, map_bind, map_pure, blind_fund, blind_setToken]

def Payouts.blind (acc : Payouts) : Payouts := { acc with state := acc.state.blind }

lemma payout_blind (plan : UnshieldPlan) (acc : Payouts) (item : AccountInfo × ℕ) :
    payout plan acc.blind item = Payouts.blind <$> payout plan acc item := by
  have hstate : acc.blind.state = acc.state.blind := rfl
  cases hsol : plan.nativeSol <;>
    simp only [payout, hsol, Bool.false_eq_true, if_true, if_false, hstate, transferToken_blind,
      unwrapLamports_blind, bind_map_left, map_bind, map_pure] <;> rfl

/-- **An unshield to registered destinations** writes the same. -/
theorem processUnshield_blind (hids : E.policyProgramId ≠ E.chadbufferId) (hflag : c.ragequits) :
    processUnshield E s.blind (c.blind E) = State.blind <$> processUnshield E s c := by
  simp only [processUnshield, planUnshield_blind hids hflag, map_bind]
  refine bind_congr fun plan => ?_
  simp only [createNullifierRecords_blind, bind_map_left, insertOutputs_blind]
  refine bind_congr fun s₁ => bind_congr fun s₂ => ?_
  have hloop : loop (payout plan) ⟨s₂.blind, 0, 0⟩ (plan.recipients.zip plan.amounts) =
      Payouts.blind <$> loop (payout plan) ⟨s₂, 0, 0⟩ (plan.recipients.zip plan.amounts) :=
    loop_map (payout_blind plan) ⟨s₂, 0, 0⟩ _
  rw [hloop, bind_map_left]
  refine bind_congr fun paid => ?_
  have hread : readTokenConfig paid.blind.state plan.tokenConfig =
      readTokenConfig paid.state plan.tokenConfig := rfl
  rw [hread]
  refine bind_congr fun tc => bind_congr fun tc₁ => bind_congr fun tc₂ => ?_
  have hput : paid.blind.state.putTokenConfig tc₂ plan.tokenConfig.key =
      (paid.state.putTokenConfig tc₂ plan.tokenConfig.key).blind :=
    (blind_putTokenConfig ..).symm
  rw [hput]
  split_ifs
  · simp only [readPool_blind, bind_map_left, map_bind, map_pure, blind_putPool]
    rfl
  · rfl

lemma createRedemption_blind (plan : RedeemPlan) (s : State) (entry : AccountInfo × RedeemItem) :
    createRedemption E plan s.blind entry = State.blind <$> createRedemption E plan s entry := by
  simp only [createRedemption, readPool_blind, bind_map_left, map_bind, map_pure]
  rfl

/-- **A redemption to registered destinations** writes the same. -/
theorem processRedeem_blind (hids : E.policyProgramId ≠ E.chadbufferId) (hflag : c.ragequits) :
    processRedeem E s.blind (c.blind E) = State.blind <$> processRedeem E s c := by
  simp only [processRedeem, planRedeem_blind hids hflag, map_bind]
  refine bind_congr fun plan => ?_
  simp only [createNullifierRecords_blind, bind_map_left, insertOutputs_blind,
    loop_map (createRedemption_blind plan), accounts_blind, readTokenConfig_blind]
  refine bind_congr fun s₁ => bind_congr fun s₂ => bind_congr fun s₃ => bind_congr fun tc =>
    bind_congr fun tc' => ?_
  rw [← blind_putTokenConfig]
  simp only [readPool_blind, bind_map_left, map_pure, blind_putPool]
  rfl

/-! ### The call as a whole -/

/-- An unshield or a redemption with the flag. -/
def Leaves (E : Env) (c : Call) : Prop :=
  ∃ i d, c.decode E = some (i, d) ∧ (i = .Unshield ∨ i = .Redeem) ∧ d.ragequits

/-- Decoding looks at the data only. -/
lemma decode_withForeign {i : Instruction} {d : Call} (f : Hash → Foreign)
    (h : c.decode E = some (i, d)) :
    ({ c with foreign := f } : Call).decode E = some (i, { d with foreign := f }) ∧
      d.foreign = c.foreign := by
  unfold Call.decode at h ⊢
  split_ifs at h ⊢
  · obtain ⟨rfl, rfl⟩ := Prod.mk.inj (Option.some_inj.mp h)
    exact ⟨rfl, rfl⟩
  · cases hdata : c.data with
    | nil =>
      rw [hdata] at h
      exact absurd h (by simp)
    | cons b rest =>
      simp only [hdata] at h ⊢
      obtain ⟨i', hi, heq⟩ := Option.map_eq_some_iff.mp h
      obtain ⟨rfl, rfl⟩ := Prod.mk.inj heq
      rw [hi]
      exact ⟨rfl, rfl⟩

/-- **An exit** runs the same on what is not the auditor's. -/
theorem step_blind (hids : E.policyProgramId ≠ E.chadbufferId) (h : Leaves E c) :
    step E s.blind (.call (c.blind E)) = State.blind <$> step E s (.call c) := by
  obtain ⟨i, d, hd, hi, hflag⟩ := h
  have hblind : (c.blind E).decode E = some (i, d.blind E) := by
    obtain ⟨hdecode, hforeign⟩ := decode_withForeign (c.blind E).foreign hd
    have hsame : d.blind E = { d with foreign := (c.blind E).foreign } := by
      rw [Call.blind, hforeign]
      rfl
    rw [hsame]
    exact hdecode
  have hkeys : (c.blind E).signedByKeys = c.signedByKeys := rfl
  simp only [step, processInstruction, hblind, hd, hkeys, map_bind]
  refine bind_congr fun _ => ?_
  rcases hi with rfl | rfl
  · exact processUnshield_blind hids hflag
  · exact processRedeem_blind hids hflag

/-- An exit consumes no approval. -/
lemma authorizeSpend_none {p : PoolState} {pool user : AccountInfo} {tail : JoinSplitTail}
    {policyTail : PolicyTail} {action kind : ℕ} {parts : List (List UInt8)} {keys : List Hash}
    {o : Option Consumption} (hne : policyTail ≠ .Verified)
    (h : authorizeSpend E s c p pool user tail policyTail action kind parts keys = .ok o) :
    o = none := by
  unfold authorizeSpend at h
  obtain ⟨path, hpath, h⟩ := bind_eq_ok.mp h
  cases path with
  | Open => exact (Except.ok.inj h).symm
  | Verified => exact absurd rfl (resolveSpendPath_unverified hne hpath)
  | Ragequit =>
    simp only [bind_eq_ok, exists_unit, pure_eq_ok] at h
    obtain ⟨-, -, -, rfl⟩ := h
    rfl

lemma planUnshield_consumed {plan : UnshieldPlan} (hflag : c.ragequits)
    (h : planUnshield E s c = .ok plan) : plan.consumed = none := by
  simp only [planUnshield, bind_eq_ok, exists_unit, pure_eq_ok] at h
  obtain ⟨hd, hhd, -, -, pre, -, amounts, -, pool, -, tree, -, vk, -, user, -, sys, -, h⟩ := h
  obtain ⟨tokenConfig, -, vault, -, tokenProgram, -, -, -, -, -, program, -, -, -, -, -, -, h⟩ := h
  obtain ⟨-, v, -, -, p, -, -, owners, -, -, -, -, policyTail, htail, tail, -, sourceTree, h⟩ := h
  obtain ⟨-, tc, -, -, -, o, ho, _, -, -, src, -, -, rfl⟩ := h
  exact authorizeSpend_none (fromFlags_ragequit (hflag.header hhd) htail) ho

lemma planRedeem_consumed {plan : RedeemPlan} (hflag : c.ragequits)
    (h : planRedeem E s c = .ok plan) : plan.consumed = none := by
  simp only [planRedeem, bind_eq_ok, exists_unit, pure_eq_ok, Prod.exists] at h
  obtain ⟨hd, hhd, -, -, pre, -, items, off, -, -, pool, -, tree, -, vk, -, user, -, sys, -, h⟩ := h
  obtain ⟨tokenConfig, -, -, -, -, -, -, -, -, -, -, p, -, tc, -, -, -, -, policyTail, h⟩ := h
  obtain ⟨htail, tail, -, sourceTree, -, o, ho, _, -, -, total, -, -, src, -, -, rfl⟩ := h
  exact authorizeSpend_none (fromFlags_ragequit (hflag.header hhd) htail) ho

/-! ### Registered destinations -/

lemma putTotals_exitDestinations (r : Records) (m : Addr) (p : PoolState) (tc : TokenConfig)
    (now : ℤ) : (r.putTotals m p tc now).exitDestinations = r.exitDestinations :=
  putTotals_view Records.exitDestinations (fun _ _ _ => rfl) ..

lemma creditChange_exitDestinations (r : Records) (pool : Addr) (change : Option (Outpoint × ℕ))
    (leaf : Option Hash) :
    (r.creditChange pool change leaf).exitDestinations = r.exitDestinations := by
  cases change <;> rfl

/-- **Registered for good**: no step removes or changes a destination. -/
theorem step_exitDestination {l : Label} (hstep : step E s l = .ok s') {k : Addr × ℕ × Hash}
    {d : ExitDestination} (hk : s.records.exitDestinations k = some d) :
    s'.records.exitDestinations k = some d := by
  have heffect := step_effect hstep
  generalize s'.records = r' at heffect
  cases heffect with
  | exitRegistered free =>
    refine (Function.update_of_ne ?_ _ _).trans hk
    rintro rfl
    exact absurd (free.symm.trans hk) (by simp)
  | reconfigured h =>
    obtain ⟨m, p, p', -, -, rfl⟩ := h
    exact hk
  | shielded =>
    rw [Records.shield, putTotals_exitDestinations]
    exact hk
  | unshielded =>
    rw [Records.unshield, putTotals_exitDestinations]
    exact hk
  | transacted decoded planned sound burnable outputs => cases outputs <;> exact hk
  | completed => exact (congrFun (creditChange_exitDestinations ..) k).trans hk
  | _ => exact hk

end Utxopia.Pool
