import Utxopia.Pool.Credits
import Utxopia.Pool.Custody

/-!
Whether what was approved can be completed.

The transaction of a request is fixed when its inputs are signed. A completion looks at the
transaction only and has bounds of its own. They agree with those of the approval, but for a
request that is to be paid to the pool itself: the completion takes the change for a payment.
-/

namespace Utxopia.Pool

open Utxopia.ByteString Utxopia.Check Utxopia.Run Utxopia.Runtime

variable {E : Env} {s s' : State} {l : Label} {r r' : Records} {p : PoolState}
  {req : RedemptionRequest} {cfg : PoolConfig}

/-! ### Requests that were let in -/

/-- What is known of every request in the books. -/
structure Admitted (req : RedemptionRequest) : Prop where
  payable : Payable req.btcScript
  fee : req.serviceFee < req.amountSats
  pending : req.status = .Pending → req.approvedInputs = 0
  limited : req.approvedInputs ≠ 0 →
    req.amountSats ≤ maxRedemptionAmountSats ∧ req.totalInputSats < 2 ^ 64

lemma Approving.admitted {m : Addr} {req' : RedemptionRequest} {us : List UtxoEntry}
    {tx : RedemptionTx} {fee inputIndex : ℕ} (hreq : Admitted req)
    (h : Approving E r m req req' cfg us tx fee inputIndex) : Admitted req' := by
  obtain ⟨fee', hreq'⟩ := h.approved.same
  refine ⟨?_, ?_, fun hp => ?_, fun _ => ?_⟩ <;> rw [hreq'] at *
  · exact hreq.payable
  · exact hreq.fee
  · exact absurd (h.processing.symm.trans hp) (by simp)
  · exact ⟨h.limited, h.bounded⟩

/-- Every effect keeps the requests admitted. -/
lemma Effect.admitted (h : Effect E s l r')
    (hI : ∀ k req, s.records.redemptions k = some req → Admitted req) :
    ∀ k req, r'.redemptions k = some req → Admitted req := by
  have hclosed : ∀ {k : Addr × Addr × ℕ}, ∀ k' req, Store.updates s.records.redemptions
      [(k, none)] k' = some req → Admitted req := Store.forall_updates _ hI (by simp)
  cases h with
  | reconfigured h =>
    obtain ⟨m, p, p', -, -, rfl⟩ := h
    exact hI
  | shielded =>
    unfold Records.shield Records.putTotals
    split_ifs <;> exact hI
  | unshielded =>
    unfold Records.unshield Records.putTotals
    split_ifs <;> exact hI
  | transacted decoded planned sound burnable outputs => cases outputs <;> exact hI
  | @redeemed c c' plan m p tc t t' now decoded planned h =>
    refine Store.forall_updates (plan.entries m p plan.items) hI fun e he req hreq => ?_
    obtain ⟨item, hitem, rfl⟩ := List.mem_map.mp he
    obtain rfl := Option.some_inj.mp hreq
    exact ⟨h.sound.payable item hitem, (h.fresh item hitem).2, fun _ => rfl, fun hne => absurd rfl hne⟩
  | @marked c c' m p req us slot decoded h =>
    refine Store.forall_updates [(req.storeKey m, some (req.process E slot us))] hI
      fun e he req' hreq' => ?_
    obtain rfl := List.mem_singleton.mp he
    obtain rfl := Option.some_inj.mp hreq'
    have hold := hI _ _ h.request
    have hnone : req.approvedInputs = 0 := hold.pending h.pending
    exact ⟨hold.payable, hold.fee, fun hp => absurd hp (by simp [RedemptionRequest.process]),
      fun hne => absurd hnone hne⟩
  | @approved c c' m req req' cfg us tx fee inputIndex decoded digest index h =>
    refine Store.forall_updates [(req.storeKey m, some req')] hI fun e he req₁ hreq₁ => ?_
    obtain rfl := List.mem_singleton.mp he
    obtain rfl := Option.some_inj.mp hreq₁
    exact h.admitted (hI _ _ h.request)
  | cancelled => exact hclosed
  | @completed c c' => cases c'.changeOutput <;> exact hclosed
  | _ => exact hI

lemma admitted_of_reaches {tr : List (Step State Label)} {guard : State → Label → Prop}
    (run : Reaches (step E) guard .genesis tr s) :
    ∀ k req, s.records.redemptions k = some req → Admitted req :=
  run.inv (I := fun s => ∀ k req, s.records.redemptions k = some req → Admitted req) (by simp)
    fun _ _ _ hI _ h => (step_effect h).admitted hI

/-! ### The transaction of a request -/

/-- The transaction an approval rebuilds from these outputs, at the fee that was pinned. -/
structure Reconstructs (E : Env) (r : Records) (m : Addr) (req : RedemptionRequest)
    (cfg : PoolConfig) (us : List UtxoEntry) (tx : RedemptionTx) : Prop where
  config : r.poolConfigs (.poolState m) = some cfg
  count : us.length = req.reservedCount
  total : (amountsOf us).sum = req.totalInputSats
  commitment : inputsCommitment E (canonicalSort (us.map fun e => e.2.input)) = req.inputsCommitment
  tx : redemptionTx E cfg req (canonicalSort (us.map fun e => e.2.input)) req.approvalMinerFee = .ok tx

/-- A transaction on Bitcoin is the rebuilt one. -/
structure RedemptionTx.Broadcast (tx : RedemptionTx) (ptx : ParsedTransaction) : Prop where
  inputs : ptx.inputs = tx.inputs.map fun i => ⟨i.txid, i.vout⟩
  outputs : ptx.outputs = tx.outputs.map fun o => ⟨o.amountSats, o.scriptPubkey⟩

/-- The checks of a completion on the transaction, in its order: output and anti-skim checks, the
miner fee, the limits, and what is burnt and what is revenue. -/
def checkCompletion (p : PoolState) (req : RedemptionRequest) (tx : ParsedTransaction)
    (poolScript : List UInt8) : Except ProgramError (ℕ × ℕ) := do
  let received ← checkPayment tx req poolScript
  let minerFee ← checkMinerFee tx req
  checkRedemptionSigning p req.amountSats minerFee
  redemptionAccounting req.amountSats received minerFee

/-- A completion accepts the transaction as the payment of the request from these outputs. -/
structure Completable (p : PoolState) (req : RedemptionRequest) (tx : ParsedTransaction)
    (poolScript : List UInt8) (us : List UtxoEntry) : Prop where
  accepted : ∃ x, checkCompletion p req tx poolScript = .ok x
  spends : SpendsAll tx us
  inputs : tx.inputs.length = req.reservedCount

/-- An approved request, and its transaction as it is presented: the pool's script is named
whenever there is change. -/
structure Settling (E : Env) (r : Records) (m requester : Addr) (nonce : ℕ) (p : PoolState)
    (req : RedemptionRequest) (cfg : PoolConfig) (us : List UtxoEntry) (tx : RedemptionTx)
    (ptx : ParsedTransaction) (named : List UInt8) : Prop where
  request : r.redemptions (.poolState m, requester, nonce) = some req
  approved : req.allInputsSigningApproved = true
  unpaused : p.paused = false
  rebuilt : Reconstructs E r m req cfg us tx
  broadcast : tx.Broadcast ptx
  known : named = [] ∨ named = cfg.poolScript
  change : 2 ≤ ptx.outputs.length → named = cfg.poolScript

lemma mapM_forall₂ {α β ε : Type} {f : α → Except ε β} {as : List α} {bs : List β}
    (h : as.mapM f = .ok bs) : List.Forall₂ (fun a b => f a = .ok b) as bs := by
  induction as generalizing bs with
  | nil =>
    rw [List.mapM_nil, pure_eq_ok] at h
    exact h ▸ .nil
  | cons a as ih =>
    rw [List.mapM_cons] at h
    simp only [bind_eq_ok, pure_eq_ok] at h
    obtain ⟨b, hb, bs', hbs, rfl⟩ := h
    exact .cons hb (ih hbs)

/-- What the miner gets, with change that is too small to be paid. -/
def effectiveMinerFee (fee change : ℕ) : ℕ :=
  if change ≤ btcDustThresholdSats then fee + change else fee

lemma checkEffectiveMinerFee_ok {fee change serviceFee : ℕ} {u : Unit}
    (h : checkEffectiveMinerFee fee change serviceFee = .ok u) :
    effectiveMinerFee fee change ≤ maxMinerFeeSats ∧
      effectiveMinerFee fee change ≤ serviceFee := by
  unfold checkEffectiveMinerFee at h
  unfold effectiveMinerFee
  split_ifs at h ⊢ with hdust
  · simp only [bind_eq_ok, checkedAdd_eq_ok, exists_unit, require_eq_ok] at h
    obtain ⟨_, ⟨-, rfl⟩, hmax, hservice⟩ := h
    exact ⟨hmax, hservice⟩
  · simp only [bind_eq_ok, Except.ok.injEq, exists_unit, require_eq_ok] at h
    obtain ⟨_, rfl, hmax, hservice⟩ := h
    exact ⟨hmax, hservice⟩

/-- What the rebuilt transaction spends and pays. -/
lemma redemptionTx_ok {ordered : List ReservedInput} {fee : ℕ} {tx : RedemptionTx}
    (h : redemptionTx E cfg req ordered fee = .ok tx) :
    ∃ change, req.amountSats - req.serviceFee + fee + change = req.totalInputSats ∧
      effectiveMinerFee fee change ≤ maxMinerFeeSats ∧
      effectiveMinerFee fee change ≤ req.serviceFee ∧
      tx.outputs = redemptionOutputs cfg req.btcScript (req.amountSats - req.serviceFee) change ∧
      tx.inputs.map (fun i => (i.txid, i.vout)) = ordered.map fun i => (i.txid, i.vout) := by
  simp only [redemptionTx, sendAndChange, buildRedemptionTx, bind_eq_ok, exists_unit,
    require_eq_ok, pure_eq_ok, Prod.exists, Prod.mk.injEq] at h
  obtain ⟨_, _, ⟨-, hcover, rfl, rfl⟩, hfee, scripts, hscripts, rfl⟩ := h
  obtain ⟨hmax, hservice⟩ := checkEffectiveMinerFee_ok hfee
  refine ⟨_, by omega, hmax, hservice, rfl, ?_⟩
  have hboth := mapM_forall₂ hscripts
  clear hscripts hcover hfee hmax hservice
  induction hboth with
  | nil => rfl
  | cons _ _ ih => simpa using ih

section Completion

variable {tx : RedemptionTx} {ptx : ParsedTransaction} {us : List UtxoEntry} {m : Addr}

/-- The rebuilt transaction spends the outputs it was rebuilt from, and nothing else. -/
lemma Reconstructs.inputs (h : Reconstructs E r m req cfg us tx) (hb : tx.Broadcast ptx) :
    SpendsAll ptx us ∧ ptx.inputs.length = req.reservedCount := by
  obtain ⟨-, -, -, -, -, hin⟩ := redemptionTx_ok h.tx
  have hperm := List.perm_insertionSort ReservedInput.sortsBefore (us.map fun e => e.2.input)
  constructor
  · intro e he
    have hmem : (e.2.txid, e.2.vout) ∈ tx.inputs.map fun i => (i.txid, i.vout) := by
      rw [hin]
      exact List.mem_map.mpr ⟨e.2.input, hperm.mem_iff.mpr (List.mem_map_of_mem he), rfl⟩
    obtain ⟨i, hi, heq⟩ := List.mem_map.mp hmem
    refine List.any_eq_true.mpr ⟨⟨i.txid, i.vout⟩, ?_, ?_⟩
    · rw [hb.inputs]
      exact List.mem_map_of_mem hi
    · simpa using heq
  · have hlen := congrArg List.length hin
    rw [List.length_map, List.length_map] at hlen
    rw [hb.inputs, List.length_map, hlen, ← h.count, canonicalSort, hperm.length_eq,
      List.length_map]

/-- The pool is not what is paid, if it is named. -/
lemma checkPayment_recipient {named : List UInt8} {received : ℕ}
    (h : checkPayment ptx req named = .ok received) : ¬ (named ≠ [] ∧ req.btcScript = named) := by
  simp only [checkPayment, bind_eq_ok, exists_unit, require_eq_ok, pure_eq_ok] at h
  obtain ⟨-, _, -, -, hne, -⟩ := h
  exact hne

/-- The outputs of the rebuilt transaction: the payment and, above the dust limit, change. -/
def paidOutputs (cfg : PoolConfig) (req : RedemptionRequest) (change : ℕ) : List TxOutput :=
  ⟨req.amountSats - req.serviceFee, req.btcScript⟩ ::
    if btcDustThresholdSats < change then [⟨change, cfg.poolScript⟩] else []

lemma Reconstructs.outputs (h : Reconstructs E r m req cfg us tx) (hb : tx.Broadcast ptx) :
    ∃ change, req.amountSats - req.serviceFee + req.approvalMinerFee + change = req.totalInputSats ∧
      effectiveMinerFee req.approvalMinerFee change ≤ maxMinerFeeSats ∧
      effectiveMinerFee req.approvalMinerFee change ≤ req.serviceFee ∧
      ptx.outputs = paidOutputs cfg req change := by
  obtain ⟨change, hsum, hmax, hservice, hout, -⟩ := redemptionTx_ok h.tx
  refine ⟨change, hsum, hmax, hservice, ?_⟩
  rw [hb.outputs, hout]
  unfold redemptionOutputs paidOutputs
  split_ifs <;> rfl

section Paid

variable {named : List UInt8} {change : ℕ} (hout : ptx.outputs = paidOutputs cfg req change)

include hout

lemma outputValue_paid : outputValue ptx.outputs =
    req.amountSats - req.serviceFee + if btcDustThresholdSats < change then change else 0 := by
  rw [hout]
  unfold paidOutputs
  split_ifs <;> simp [outputValue]

/-- What the recipient gets is all that was to be sent. -/
lemma received_paid (hsend : req.amountSats < 2 ^ 64)
    (hother : btcDustThresholdSats < change → req.btcScript ≠ cfg.poolScript) :
    loop (addReceived req.btcScript) 0 ptx.outputs = .ok (req.amountSats - req.serviceFee) := by
  have hfirst : addReceived req.btcScript 0 ⟨req.amountSats - req.serviceFee, req.btcScript⟩ =
      .ok (req.amountSats - req.serviceFee) := by
    unfold addReceived
    rw [if_pos rfl, checkedAdd_eq_ok]
    dsimp only
    omega
  rw [hout]
  unfold paidOutputs
  rw [loop_cons_eq_ok]
  refine ⟨_, hfirst, ?_⟩
  split_ifs with hchange
  · rw [loop_cons_eq_ok]
    exact ⟨_, if_neg (hother hchange).symm, loop_nil ..⟩
  · exact loop_nil ..

/-- The payment and the change are within the policy when the change is known as such. -/
lemma withinPolicy_paid (hpay : Payable req.btcScript) (hpool : cfg.poolScript.head? = some 0x51)
    (hother : btcDustThresholdSats < change → req.btcScript ≠ cfg.poolScript)
    (hnamed : btcDustThresholdSats < change → named = cfg.poolScript) :
    redemptionOutputsWithinPolicy ptx req.btcScript named = true := by
  have hfirst : outputWithinPolicy req.btcScript named 0
      ⟨req.amountSats - req.serviceFee, req.btcScript⟩ = some 0 := by
    unfold outputWithinPolicy
    rw [if_neg (by simpa [TxOutput.isOpReturn] using hpay.2.2), if_pos rfl]
  unfold redemptionOutputsWithinPolicy
  rw [hout]
  unfold paidOutputs
  rw [List.foldlM_cons, hfirst]
  split_ifs with hchange
  · have hne : named ≠ [] := fun hnil => by
      rw [← hnamed hchange, hnil] at hpool
      exact absurd hpool (by simp)
    have hsecond : outputWithinPolicy req.btcScript named 0 ⟨change, cfg.poolScript⟩ = some 1 := by
      unfold outputWithinPolicy
      rw [if_neg (by simp [TxOutput.isOpReturn, hpool]), if_neg (hother hchange).symm,
        if_pos ⟨hne, (hnamed hchange).symm⟩, if_neg (by omega)]
    simp [hsecond]
  · rfl

end Paid

lemma approvedInputs_ne_zero (h : req.allInputsSigningApproved = true) : req.approvedInputs ≠ 0 := by
  obtain ⟨hcount, -, hbits⟩ := req.allInputsSigningApproved_iff.mp h
  intro hzero
  have := hbits 0 (by omega)
  rw [hzero] at this
  exact absurd this (by simp)

/-- The fee that is left is the one that was approved, and the service fee covers it. -/
lemma checkMinerFee_paid {change : ℕ} (hreq : Admitted req) (hbound : req.totalInputSats < 2 ^ 64)
    (hsum : req.amountSats - req.serviceFee + req.approvalMinerFee + change = req.totalInputSats)
    (hmax : effectiveMinerFee req.approvalMinerFee change ≤ maxMinerFeeSats)
    (hout : ptx.outputs = paidOutputs cfg req change) :
    checkMinerFee ptx req = .ok (effectiveMinerFee req.approvalMinerFee change) := by
  have hvalue := outputValue_paid hout
  have hpos := hreq.fee
  have hfee : req.totalInputSats - ptx.sumOutputs = effectiveMinerFee req.approvalMinerFee change := by
    rw [sumOutputs_eq, hvalue]
    unfold effectiveMinerFee
    split_ifs <;> omega
  have hle : ptx.sumOutputs ≤ req.totalInputSats := by
    rw [sumOutputs_eq, hvalue]
    split_ifs <;> omega
  simp only [checkMinerFee, bind_eq_ok, exists_unit, require_eq_ok, pure_eq_ok, hfee]
  exact ⟨by omega, hle, hmax, trivial⟩

/-- **Completable.** For every request whose inputs are all approved at the pinned fee, the
rebuilt transaction passes the checks of a completion if and only if the recipient is not the
pool itself under the name of its script. -/
theorem completable_iff {tr : List (Step State Label)} {guard : State → Label → Prop}
    (run : Reaches (step E) guard .genesis tr s) {requester : Addr} {nonce : ℕ}
    {named : List UInt8} (h : Settling E s.records m requester nonce p req cfg us tx ptx named) :
    Completable p req ptx named us ↔ ¬ (named ≠ [] ∧ req.btcScript = cfg.poolScript) := by
  obtain ⟨hreq, happroved, hpaused, htx, hb, hnamed, hchange⟩ := h
  constructor
  · rintro ⟨⟨x, hx⟩, -, -⟩ ⟨hne, heq⟩
    obtain ⟨received, hpay, -⟩ := bind_eq_ok.mp hx
    exact checkPayment_recipient hpay ⟨hne, heq.trans (hnamed.resolve_left hne).symm⟩
  intro hother
  have hadm := admitted_of_reaches run _ _ hreq
  obtain ⟨hlimit, hbound⟩ := hadm.limited (approvedInputs_ne_zero happroved)
  obtain ⟨change, hsum, hmax, hservice, hout⟩ := htx.outputs hb
  have hpool : cfg.poolScript.head? = some 0x51 := by
    rw [(configured_of_reaches run).script _ _ htx.config]
    rfl
  have hnamed' : btcDustThresholdSats < change → named = cfg.poolScript := fun hlt => hchange (by
    rw [hout, paidOutputs, if_pos hlt]
    rfl)
  have hother' : btcDustThresholdSats < change → req.btcScript ≠ cfg.poolScript := fun hlt heq => by
    refine hother ⟨fun hnil => ?_, heq⟩
    rw [← hnamed' hlt, hnil] at hpool
    exact absurd hpool (by simp)
  have hsmall : req.amountSats < 2 ^ 64 := hlimit.trans_lt (by decide)
  have hpay : checkPayment ptx req named = .ok (req.amountSats - req.serviceFee) := by
    have hrec := received_paid hout hsmall hother'
    have hpol := withinPolicy_paid hout hadm.payable hpool hother' hnamed'
    have hany : (ptx.outputs.any fun o => o.scriptPubkey = req.btcScript) = true := by
      rw [hout]
      simp [paidOutputs]
    simp only [checkPayment, bind_eq_ok, exists_unit, require_eq_ok, pure_eq_ok]
    refine ⟨hadm.fee.le, _, hrec, ⟨hany, by omega, le_rfl⟩, fun hself => hother ?_, hpol, rfl⟩
    exact ⟨hself.1, hself.2.trans (hnamed.resolve_left hself.1)⟩
  have hminer := checkMinerFee_paid hadm hbound hsum hmax hout
  have hsign : checkRedemptionSigning p req.amountSats
      (effectiveMinerFee req.approvalMinerFee change) = .ok () := by
    simp only [checkRedemptionSigning, bind_eq_ok, exists_unit, require_eq_ok]
    exact ⟨by simp [hpaused], hlimit, hmax⟩
  have hfee := hadm.fee
  obtain ⟨x, hburn⟩ : ∃ x, redemptionAccounting req.amountSats (req.amountSats - req.serviceFee)
      (effectiveMinerFee req.approvalMinerFee change) = .ok x := by
    simp only [redemptionAccounting, bind_eq_ok, checkedAdd_eq_ok, exists_unit, require_eq_ok,
      pure_eq_ok]
    exact ⟨_, _, ⟨by omega, rfl⟩, by omega, rfl⟩
  obtain ⟨hspends, hcount⟩ := htx.inputs hb
  refine ⟨⟨x, ?_⟩, hspends, hcount⟩
  simp only [checkCompletion, bind_eq_ok, exists_unit]
  exact ⟨_, hpay, _, hminer, hsign, hburn⟩

/-- A completion that succeeds has passed the checks. -/
theorem checkCompletion_of_completed {c : Call}
    (h : processCompleteRedemption E c s = .ok s') :
    ∃ p req ptx ix x, CompleteRedemptionData.fromBytes c.data = .ok ix ∧
      ptx.inputs.length = req.reservedCount ∧
      checkCompletion p req ptx ix.poolScript = .ok x := by
  simp only [processCompleteRedemption, bind_eq_ok, exists_unit, require_eq_ok] at h
  obtain ⟨-, pool, -, redemption, -, authority, -, rent, -, verified, -, light, -, buffer, h⟩ := h
  obtain ⟨-, mint, -, vault, -, tp, -, receipt, -, cfg, -, ix, hix, -, -, -, -, -, -, -, -, h⟩ := h
  obtain ⟨program, -, -, -, -, -, p, -, req, -, -, -, s₁, -, -, -, tx, -, received, hpay, h⟩ := h
  obtain ⟨minerFee, hfee, hsign, x, hacc, -, s₂, -, change, -, -, hcount, info, -, tc, -, h⟩ := h
  obtain ⟨s₃, -, hin, -⟩ := h
  refine ⟨p, req, tx, ix, x, hix, hin.trans hcount, ?_⟩
  simp only [checkCompletion, bind_eq_ok, exists_unit]
  exact ⟨_, hpay, _, hfee, hsign, hacc⟩

end Completion

/-! ### Runs -/

namespace Regtest

def ikaProgram : Hash := toLe 32 130
def coordinator : Hash := toLe 32 131

/-- What is paid from outputs under the pool's script. -/
def redemptionOf (spent : List (Outpoint × ℕ)) (outputs : List SighashOutput) : RedemptionTx where
  inputs := spent.map fun i => ⟨i.1.1, i.1.2, btcInputSequence, i.2, poolScript⟩
  outputs := outputs
  leafHashes := spent.map fun _ => none

def approve (nonce : ℕ) (tx : RedemptionTx) (fee inputIndex : ℕ) : Label :=
  let digest := tx.digest env inputIndex
  let ika := fun executable => Foreign.mk ikaProgram executable []
  call 27 ([writable pool, writable (.redemption pool user nonce), signer user,
    readonly (.poolConfig pool), readonly (.key ikaProgram), readonly (.key coordinator),
    writable (.key digest), readonly (.key wallet), readonly (.key env.programId),
    readonly .cpiAuthority, signer admin, system] ++
    tx.inputs.map fun i => writable (.utxo pool (i.txid, i.vout)))
    ((taprootKeyspendSighash env (tx.preimage env inputIndex)).toList ++ digest.toList ++
      leBytes 8 fee ++ leBytes 4 inputIndex)
    [(ikaProgram, ika true), (coordinator, ika false), (wallet, ika false),
      (env.programId, ika true)] 0

/-- Half of the swept output is redeemed to a script, up to the approval. -/
def halfRedeemed (script : List UInt8) : RedemptionTx :=
  redemptionOf [(sweptOutput, 100000)] [⟨48000, script⟩, ⟨51000, poolScript⟩]

def redeemHalf (script : List UInt8) : List Label :=
  sweptTwice.take 6 ++ [redeem 0 (zeroHash treeDepth) (note 1) script 50000 7,
    markProcessing 7 [sweptOutput] 0, approve 7 (halfRedeemed script) 1000 0]

/-- A transaction as the chain shows it. -/
def shown (tx : RedemptionTx) : ParsedTransaction where
  inputs := tx.inputs.map fun i => ⟨i.txid, i.vout⟩
  outputs := tx.outputs.map fun o => ⟨o.amountSats, o.scriptPubkey⟩

/-- The half that is redeemed is approved and its transaction can be rebuilt. -/
def approvedHalf (script : List UInt8) (s : State) (p : PoolState) (req : RedemptionRequest)
    (cfg : PoolConfig) (u : UtxoRecord) : Prop :=
  s.records.redemptions (pool, user, 7) = some req ∧ req.allInputsSigningApproved = true ∧
    s.records.pools zkbtc = some p ∧ p.paused = false ∧
    s.records.poolConfigs pool = some cfg ∧ cfg.poolScript = poolScript ∧
    1 = req.reservedCount ∧ (amountsOf [((pool, sweptOutput), u)]).sum = req.totalInputSats ∧
    inputsCommitment env (canonicalSort [u.input]) = req.inputsCommitment ∧
    (redemptionTx env cfg req (canonicalSort [u.input]) req.approvalMinerFee).toOption =
      some (halfRedeemed script) ∧ req.btcScript = script

instance (script : List UInt8) (s : State) (p : PoolState) (req : RedemptionRequest)
    (cfg : PoolConfig) (u : UtxoRecord) : Decidable (approvedHalf script s p req cfg u) :=
  inferInstanceAs (Decidable (_ ∧ _))

/-- Everything the books have on the half that is redeemed. -/
def halfApproved (script : List UInt8) (s : State) : Bool :=
  (s.records.pools zkbtc).any fun p => (s.records.redemptions (pool, user, 7)).any fun req =>
    (s.records.poolConfigs pool).any fun cfg => (s.records.utxos (pool, sweptOutput)).any fun u =>
      decide (approvedHalf script s p req cfg u)

lemma settling_of_halfApproved {script : List UInt8} {s : State} (h : halfApproved script s = true) :
    ∃ p req cfg us, Settling env s.records zkbtc user 7 p req cfg us (halfRedeemed script)
      (shown (halfRedeemed script)) poolScript ∧ req.btcScript = script ∧
      cfg.poolScript = poolScript := by
  obtain ⟨p, -, h⟩ := (Option.any_eq_true _ _).mp h
  obtain ⟨req, -, h⟩ := (Option.any_eq_true _ _).mp h
  obtain ⟨cfg, -, h⟩ := (Option.any_eq_true _ _).mp h
  obtain ⟨u, -, h⟩ := (Option.any_eq_true _ _).mp h
  obtain ⟨hreq, happroved, -, hpaused, hcfg, hscript, hcount, htotal, hcommit, htx, hrecipient⟩ :=
    of_decide_eq_true h
  refine ⟨p, req, cfg, [((pool, sweptOutput), u)], ⟨hreq, happroved, hpaused, ?_, ⟨rfl, rfl⟩,
    .inr hscript.symm, fun _ => hscript.symm⟩, hrecipient, hscript⟩
  refine ⟨hcfg, hcount, htotal, hcommit, ?_⟩
  cases hok : redemptionTx env cfg req (canonicalSort [u.input]) req.approvalMinerFee with
  | error e =>
    rw [hok] at htx
    exact absurd htx (by simp [Except.toOption])
  | ok tx =>
    rw [hok] at htx
    exact hok.trans (congrArg Except.ok (Option.some_inj.mp htx))

lemma run_redeemHalf :
    ((exec (step env) (fun _ _ => true) .genesis (redeemHalf recipientScript)).any
      (halfApproved recipientScript)) = true := by
  decide +kernel

lemma run_redeemToPool :
    ((exec (step env) (fun _ _ => true) .genesis (redeemHalf poolScript)).any
      (halfApproved poolScript)) = true := by
  decide +kernel

end Regtest

open Regtest in
/-- **Approved and never completed**: half of an output is redeemed to the pool's own script. -/
theorem approved_not_completable : ∃ (tr : List (Step State Label)) (s : State)
    (m requester : Addr) (nonce : ℕ) (p : PoolState) (req : RedemptionRequest) (cfg : PoolConfig)
    (us : List UtxoEntry) (tx : RedemptionTx) (ptx : ParsedTransaction) (named : List UInt8),
    Reaches (step env) (fun _ _ => True) .genesis tr s ∧
      Settling env s.records m requester nonce p req cfg us tx ptx named ∧
      ¬ Completable p req ptx named us := by
  obtain ⟨s, hs, hhalf⟩ := (Option.any_eq_true _ _).mp run_redeemToPool
  obtain ⟨p, req, cfg, us, hset, hscript, -⟩ := settling_of_halfApproved hhalf
  obtain ⟨tr, -, hrun⟩ := reaches_of_exec (fun _ _ _ => trivial) hs
  refine ⟨tr, s, _, _, _, p, req, cfg, us, _, _, _, hrun, hset, fun hc => ?_⟩
  obtain ⟨x, hx⟩ := hc.accepted
  obtain ⟨received, hpay, -⟩ := bind_eq_ok.mp hx
  exact checkPayment_recipient hpay ⟨by decide, hscript⟩

open Regtest in
/-- Half of an output is redeemed to a script of the user. -/
theorem completable_iff_redeemHalf : ∃ (p : PoolState) (req : RedemptionRequest)
    (us : List UtxoEntry), Completable p req (shown (halfRedeemed recipientScript)) poolScript us := by
  obtain ⟨s, hs, hhalf⟩ := (Option.any_eq_true _ _).mp run_redeemHalf
  obtain ⟨p, req, cfg, us, hset, hscript, hpool⟩ := settling_of_halfApproved hhalf
  obtain ⟨tr, -, hrun⟩ := reaches_of_exec (fun _ _ _ => trivial) hs
  refine ⟨p, req, us, (completable_iff hrun hset).mpr fun hself => ?_⟩
  rw [hscript, hpool] at hself
  exact absurd hself.2 (by decide)

end Utxopia.Pool
