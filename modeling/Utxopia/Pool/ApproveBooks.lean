import Utxopia.Pool.Approve
import Utxopia.Pool.RedeemBooks

/-!
What an approval does to the books: it sets the bit of one input and leaves one more digest
approved. Once every bit is set the request counts as signed.
-/

namespace Utxopia.Pool

open Utxopia.ByteString Utxopia.Check Utxopia.Runtime

variable {E : Env} {s s' : State} {c : Call}

/-! ### The bits of a request -/

lemma and_mask_eq {x n : ℕ} : x &&& (2 ^ n - 1) = 2 ^ n - 1 ↔ ∀ i < n, x.testBit i = true := by
  constructor
  · intro h i hi
    have := congrArg (Nat.testBit · i) h
    simpa [hi] using this
  · intro h
    refine Nat.eq_of_testBit_eq fun i => ?_
    rw [Nat.testBit_and, Nat.testBit_two_pow_sub_one]
    by_cases hi : i < n
    · simp [hi, h i hi]
    · simp [hi]

lemma RedemptionRequest.allInputsSigningApproved_iff (req : RedemptionRequest) :
    req.allInputsSigningApproved = true ↔ req.reservedCount ≠ 0 ∧ req.reservedCount ≤ 32 ∧
      ∀ i < req.reservedCount, req.approvedInputs.testBit i = true := by
  simp only [RedemptionRequest.allInputsSigningApproved, decide_eq_true_eq, and_mask_eq]

/-- What an approval changes in a request. -/
structure RedemptionRequest.Approved (req req' : RedemptionRequest) (inputIndex : ℕ) : Prop where
  index_lt : inputIndex < req.reservedCount
  same : ∃ fee, req' = { req with
    approvedInputs := req.approvedInputs ||| 2 ^ inputIndex
    signingApproved := req'.signingApproved
    approvalMinerFee := fee }
  signed : req'.signingApproved = (req.signingApproved || req'.allInputsSigningApproved)

lemma recordApproval_ok {req req' : RedemptionRequest} {fee inputIndex : ℕ}
    (hpinned : ¬ (req.hasAnyInputApproved = true ∧ fee ≠ req.approvalMinerFee))
    (h : req.recordApproval fee inputIndex = .ok req') :
    req.Approved req' inputIndex ∧ req'.approvalMinerFee = fee := by
  have hmark : ∀ {r r' : RedemptionRequest} (fee' : ℕ),
      r = { req with approvalMinerFee := fee' } → fee' = fee →
      r.markInputSigningApproved inputIndex = .ok r' →
      req.Approved r' inputIndex ∧ r'.approvalMinerFee = fee := by
    rintro r r' fee' rfl hfee hr
    simp only [RedemptionRequest.markInputSigningApproved, bind_eq_ok, require_eq_ok, exists_unit,
      pure_eq_ok] at hr
    obtain ⟨⟨-, hlt⟩, rfl⟩ := hr
    exact ⟨⟨hlt, ⟨fee', rfl⟩, rfl⟩, hfee⟩
  unfold RedemptionRequest.recordApproval at h
  split_ifs at h with hany
  · have hfee : fee = req.approvalMinerFee := not_not.mp fun hne => hpinned ⟨hany, hne⟩
    exact hmark req.approvalMinerFee rfl hfee.symm h
  · simp only [RedemptionRequest.setApprovalMinerFeeSats, bind_eq_ok, require_eq_ok, exists_unit,
      pure_eq_ok] at h
    obtain ⟨_, ⟨-, rfl⟩, hr⟩ := h
    exact hmark _ rfl rfl hr

lemma RedemptionRequest.Approved.testBit {req req' : RedemptionRequest} {i : ℕ}
    (h : req.Approved req' i) (j : ℕ) :
    req'.approvedInputs.testBit j = true ↔ req.approvedInputs.testBit j = true ∨ j = i := by
  obtain ⟨fee, hreq⟩ := h.same
  rw [hreq]
  simp only [Nat.testBit_or, Nat.testBit_two_pow, Bool.or_eq_true, decide_eq_true_eq]
  exact or_congr_right eq_comm

/-! ### The instruction -/

/-- An input as it is signed: with its leaf. -/
def UtxoRecord.input (u : UtxoRecord) : ReservedInput := ⟨u.txid, u.vout, u.amountSats, u.leafCommitment⟩

lemma gatherReserved_ok {reservationKey : ℕ} {infos : List AccountInfo}
    {acc acc' : List ReservedInput × ℕ}
    (h : loop (gatherReserved E s c reservationKey) acc infos = .ok acc') :
    ∃ us : List UtxoEntry, us.map utxoAddr = infos.map AccountInfo.key ∧
      (∀ e ∈ us, s.records.utxos e.1 = some e.2 ∧ e.2.status = .Reserved ∧
        e.2.reservedForRequestId = reservationKey) ∧
      acc'.1 = acc.1 ++ (us.map fun e => e.2.input) ∧ acc'.2 = acc.2 + (amountsOf us).sum ∧
      (acc.2 < 2 ^ 64 → acc'.2 < 2 ^ 64) := by
  induction infos generalizing acc with
  | nil =>
    simp only [loop_nil, Except.ok.injEq] at h
    subst h
    exact ⟨[], rfl, by simp, by simp, by simp [amountsOf], id⟩
  | cons info infos ih =>
    obtain ⟨acc₁, hacc₁, hrest⟩ := loop_cons_eq_ok.mp h
    obtain ⟨us, hkeys, hus, hacc, hsum, hbound⟩ := ih hrest
    simp only [gatherReserved, bind_eq_ok, validateProgramOwner_ok, exists_unit, orElse_eq_ok,
      require_eq_ok, checkedAdd_eq_ok, pure_eq_ok] at hacc₁
    obtain ⟨ho, u, hu, hst, hkey, _, ⟨hlt, rfl⟩, rfl⟩ := hacc₁
    obtain ⟨pool, o, hk, hrec⟩ := utxo_of_owned ho hu
    refine ⟨((pool, o), u) :: us, ?_, ?_, by simp [hacc, UtxoRecord.input], ?_, fun _ => hbound hlt⟩
    · rw [List.map_cons, List.map_cons, hkeys, hk]
      rfl
    · rintro e he
      rcases List.mem_cons.mp he with rfl | he
      · exact ⟨hrec, hst, hkey⟩
      · exact hus e he
    · simp only [hsum, amountsOf, List.map_cons, List.sum_cons]
      omega

/-- One input of a request's transaction was approved for signing. -/
structure Approving (E : Env) (r : Records) (m : Addr) (req req' : RedemptionRequest)
    (cfg : PoolConfig) (us : List UtxoEntry) (tx : RedemptionTx) (fee inputIndex : ℕ) : Prop where
  request : r.redemptions (req.storeKey m) = some req
  processing : req.status = .Processing
  config : r.poolConfigs (.poolState m) = some cfg
  count : us.length = req.reservedCount
  reserved : ∀ e ∈ us, r.utxos e.1 = some e.2 ∧ e.2.status = .Reserved ∧
    e.2.reservedForRequestId = reservationKeyOf E (req.storeKey m)
  total : (amountsOf us).sum = req.totalInputSats
  bounded : req.totalInputSats < 2 ^ 64
  commitment : inputsCommitment E (canonicalSort (us.map fun e => e.2.input)) = req.inputsCommitment
  limited : req.amountSats ≤ maxRedemptionAmountSats
  tx : redemptionTx E cfg req (canonicalSort (us.map fun e => e.2.input)) fee = .ok tx
  pinned : req.approvedInputs ≠ 0 → fee = req.approvalMinerFee
  approved : req.Approved req' inputIndex
  fee : req'.approvalMinerFee = fee

/-- An approval with the accounts that it names. -/
theorem processApproveRedemptionSigning_named (h : processApproveRedemptionSigning E s c = .ok s') :
    ∃ m req req' cfg us tx fee inputIndex,
      Approving E s.records m req req' cfg us tx fee inputIndex ∧
      Names c m req 0 12 req.reservedCount us ∧
      tx.digest E inputIndex = slice 32 c.data 32 ∧ inputIndex = u32At c.data 72 ∧
      s'.records = (s.records.updateRedemptions [(req.storeKey m, some req')]).approve
        (tx.digest E inputIndex) := by
  simp only [processApproveRedemptionSigning, checkSignable, checkRedemptionSigning,
    readSigningConfig, Call.atLeast, bind_eq_ok, exists_unit, require_eq_ok, orElse_eq_ok, pure_eq_ok] at h
  obtain ⟨-, -, pool, hpool, redemption, hredemption, authority, -, poolConfig, -, ika, -, h⟩ := h
  obtain ⟨coord, -, approval, -, dwallet, -, caller, -, cpi, -, payer, -, sys, -, -, -, h⟩ := h
  obtain ⟨hpda, hcfgpda, -, p, hread, req, hreq, h⟩ := h
  obtain ⟨⟨-, hproc, -, -, ⟨-, hlimit, -⟩, hpinned, hlt, -⟩, cfg', h⟩ := h
  obtain ⟨⟨cfg, hcfg, -, -, -, rfl⟩, -, ordered, hord, tx, htx, ⟨-, hdig⟩, -, -, req', h⟩ := h
  obtain ⟨hreq', rfl⟩ := h
  have hat := validateRedemptionPda_ok hread hreq hpda
  simp only [validatePoolConfigPda, bind_eq_ok, validateProgramOwner_ok, exists_unit,
    require_eq_ok] at hcfgpda
  obtain ⟨hown, -, hck⟩ := hcfgpda
  obtain ⟨pool', hk', hrecc⟩ := poolConfig_of_owned hown hcfg
  obtain rfl : pool.key = pool' := by simpa [hck] using hk'
  simp only [reservedInOrder, Call.atLeast, bind_eq_ok, exists_unit, require_eq_ok, pure_eq_ok,
    Prod.exists] at hord
  obtain ⟨hroom, reserved, sum, hgot, htotal, hcommit, rfl⟩ := hord
  obtain ⟨us, hkeys, hus, hres, hsum, hbound⟩ := gatherReserved_ok hgot
  rw [List.nil_append] at hres
  dsimp only at hres hsum hbound
  subst hres
  obtain ⟨happroved, hfee⟩ := recordApproval_ok hpinned hreq'
  rw [hat.pool_key] at hrecc
  rw [hat.key] at hus
  refine ⟨p.zkbtcMint, req, req', cfg, us, tx, _, _, ⟨hat.request, hproc, hrecc, ?_, hus, ?_, ?_,
    hcommit, hlimit, htx, fun hany => ?_, happroved, hfee⟩, ⟨?_, ?_, hkeys⟩, hdig, rfl, ?_⟩
  · exact length_of_keysFrom hroom hkeys
  · omega
  · have := hbound (by decide)
    omega
  · exact not_not.mp fun hne => hpinned ⟨by simpa [RedemptionRequest.hasAnyInputApproved] using hany, hne⟩
  · rw [account_ok.mp hpool, Option.map_some, hat.pool_key]
  · rw [account_ok.mp hredemption, Option.map_some, hat.key]
    rfl
  · have hput : (s.putRedemption req' redemption.key).records =
        s.records.updateRedemptions [(req.storeKey p.zkbtcMint, some req')] := by
      rw [hat.key]
      exact records_putRedemption (k := req.storeKey p.zkbtcMint) hat.request _
    rw [← hput, hdig]
    rfl

/-- **An approval** is for the digest of an input of the rebuilt transaction. -/
theorem processApproveRedemptionSigning_ok (h : processApproveRedemptionSigning E s c = .ok s') :
    ∃ m req req' cfg us tx fee inputIndex,
      Approving E s.records m req req' cfg us tx fee inputIndex ∧
      tx.digest E inputIndex = slice 32 c.data 32 ∧ inputIndex = u32At c.data 72 ∧
      s'.records = (s.records.updateRedemptions [(req.storeKey m, some req')]).approve
        (tx.digest E inputIndex) := by
  obtain ⟨m, req, req', cfg, us, tx, fee, i, happroving, -, hrest⟩ :=
    processApproveRedemptionSigning_named h
  exact ⟨m, req, req', cfg, us, tx, fee, i, happroving, hrest⟩

end Utxopia.Pool
