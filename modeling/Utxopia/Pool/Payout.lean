import Utxopia.Pool.CompletionPause

/-!
What leaves the pool when a redemption completes.

The driver of a completion chooses the outputs of its transaction. They are sorted by script into
payout and change, anything else has to be worthless, and what the known inputs had beyond the
outputs is the miner fee. The total of the outputs saturates, so the accounts of a completion are
right as long as that total is in range.
-/

namespace Utxopia.Pool

open Utxopia.ByteString Utxopia.Check Utxopia.Run Utxopia.Runtime

variable {E : Env} {s s' : State} {c : Call}

/-! ### The payment of a completion -/

/-- A request, the transaction that is to have paid it, and the script of its change. -/
structure Payment where
  request : RedemptionRequest
  tx : ParsedTransaction
  /-- Empty when the transaction has no change. -/
  poolScript : List UInt8

/-- The payment a completion is about. -/
def Call.payment (c : Call) (s : State) : Option Payment := do
  let redemption ← c.accounts[1]?
  let buffer ← c.accounts[6]?
  let ix ← (CompleteRedemptionData.fromBytes c.data).toOption
  let request ← s.redemptionAt redemption.key
  let raw ← (readTransactionFromBuffer (c.dataOf buffer.key) ix.txSize).toOption
  let tx ← ParsedTransaction.parse raw
  return ⟨request, tx, ix.poolScript⟩

namespace Payment

variable (y : Payment)

def payout : ℕ := valueWhere (paysTo y.request.btcScript) y.tx.outputs

def isChange (o : TxOutput) : Bool := y.poolScript ≠ [] && paysTo y.poolScript o

def change : ℕ := valueWhere y.isChange y.tx.outputs

/-- What the known inputs had and the outputs do not, as the code takes it. -/
def minerFee : ℕ := y.request.totalInputSats - y.tx.sumOutputs

def expectedSend : ℕ := y.request.amountSats - y.request.serviceFee

/-- The least the recipient may get. -/
def minPayout : ℕ := max (y.expectedSend - maxFeeSats) (y.expectedSend - y.expectedSend / 100)

/-- Nothing is skimmed when this much is burnt: the known inputs are payout, change and miner fee,
each within its bounds. -/
structure Unskimmed (burn : ℕ) : Prop where
  inputs : y.request.totalInputSats = y.payout + y.change + y.minerFee
  fee : y.minerFee ≤ maxFeeSats
  least : y.minPayout ≤ y.payout
  most : y.payout + y.request.serviceFee ≤ y.request.amountSats
  rest : ∀ o ∈ y.tx.outputs, paysTo y.request.btcScript o = false → y.isChange o = false → o.value = 0
  burnt : burn + y.change = y.request.totalInputSats
  covered : burn ≤ y.request.amountSats

end Payment

/-- The tokens of the account fall by the amount, and no other account changes. -/
def BurntFrom (src : Addr) (amount : ℕ) (T T' : Addr → Option TokenAccount) : Prop :=
  ∃ t, T src = some t ∧ amount ≤ t.amount ∧
    T' = Function.update T src (some { t with amount := t.amount - amount })

lemma burnToken_burnt {program : TokenProgram} {mint src authority : Addr} {amount : ℕ}
    (h : burnToken s program mint src authority amount = .ok s') :
    BurntFrom src amount s.tokens s'.tokens := by
  simp only [burnToken, bind_eq_ok, orElse_eq_ok, require_eq_ok, exists_unit, pure_eq_ok] at h
  obtain ⟨t, ht, -, -, hle, rfl⟩ := h
  exact ⟨t, ht, hle, rfl⟩

/-! ### Sorting the outputs -/

lemma change_eq (y : Payment) : y.change = if y.poolScript = [] then 0 else
    valueWhere (paysTo y.poolScript) y.tx.outputs := by
  unfold Payment.change Payment.isChange valueWhere
  split_ifs with hp
  · simp [hp]
  · simp [hp]

section Policy

variable {recipient poolScript : List UInt8} {os : List TxOutput} {n k : ℕ}

/-- What neither pays the recipient nor is change is data without value. -/
lemma rest_worthless (h : os.foldlM (outputWithinPolicy recipient poolScript) n = some k)
    {o : TxOutput} (ho : o ∈ os) (hr : o.scriptPubkey ≠ recipient)
    (hp : ¬ (poolScript ≠ [] ∧ o.scriptPubkey = poolScript)) : o.value = 0 := by
  obtain ⟨_, _, hm⟩ := output_checked h ho
  rcases outputWithinPolicy_ok hm with ⟨-, hv, -⟩ | ⟨-, hs, -⟩ | ⟨-, hne, hs, -, -⟩
  · exact hv
  · exact absurd hs hr
  · exact absurd ⟨hne, hs⟩ hp

end Policy

/-- What the checks of a completion say of its payment, and what they say is to be burnt. -/
structure Payment.Checked (y : Payment) (burn : ℕ) : Prop where
  value : outputValue y.tx.outputs = y.payout + y.change
  least : y.minPayout ≤ y.payout
  most : y.payout + y.request.serviceFee ≤ y.request.amountSats
  rest : ∀ o ∈ y.tx.outputs, paysTo y.request.btcScript o = false → y.isChange o = false → o.value = 0
  sum : y.tx.sumOutputs ≤ y.request.totalInputSats
  fee : y.minerFee ≤ maxFeeSats
  burnt : burn = y.payout + y.minerFee
  covered : burn ≤ y.request.amountSats

lemma checked_of_ok {y : Payment} {received minerFee burn revenue : ℕ}
    (hpay : checkPayment y.tx y.request y.poolScript = .ok received)
    (hfee : checkMinerFee y.tx y.request = .ok minerFee)
    (hacc : redemptionAccounting y.request.amountSats received minerFee = .ok (burn, revenue)) :
    y.Checked burn := by
  simp only [checkPayment, bind_eq_ok, exists_unit, require_eq_ok, pure_eq_ok] at hpay
  obtain ⟨hservice, received', hrec, ⟨-, hmin, hmost⟩, hne, hpol, rfl⟩ := hpay
  simp only [checkMinerFee, bind_eq_ok, exists_unit, require_eq_ok, pure_eq_ok] at hfee
  obtain ⟨-, hsum, hcap, rfl⟩ := hfee
  simp only [redemptionAccounting, bind_eq_ok, exists_unit, require_eq_ok, checkedAdd_eq_ok,
    pure_eq_ok, Prod.mk.injEq] at hacc
  obtain ⟨_, ⟨-, rfl⟩, hle, rfl, -⟩ := hacc
  obtain rfl : received' = y.payout := by
    rw [addReceived_ok hrec, Nat.zero_add]
    rfl
  obtain ⟨k, hk⟩ := Option.isSome_iff_exists.mp hpol
  refine ⟨?_, hmin, by omega, fun o ho hr hc => ?_, hsum, hcap, rfl, hle⟩
  · rw [outputValue_of_policy hne hk, change_eq]
    rfl
  · refine rest_worthless hk ho (by simpa [paysTo] using hr) fun hp => ?_
    simp [Payment.isChange, paysTo, hp.1, hp.2] at hc

/-- The accounts of a checked payment are right unless the total of its outputs saturates. -/
lemma Payment.Checked.unskimmed_iff {y : Payment} {burn : ℕ} (h : y.Checked burn) :
    y.Unskimmed burn ↔ outputValue y.tx.outputs < 2 ^ 64 := by
  have hvalue := h.value
  have hsum := h.sum
  have hfee : y.minerFee = y.request.totalInputSats - y.tx.sumOutputs := rfl
  rw [sumOutputs_eq] at hsum hfee
  constructor
  · intro hu
    have := hu.inputs
    omega
  · intro hlt
    have hinputs : y.request.totalInputSats = y.payout + y.change + y.minerFee := by omega
    exact ⟨hinputs, h.fee, h.least, h.most, h.rest, by rw [h.burnt, hinputs]; omega, h.covered⟩

/-! ### Completions -/

lemma putPool_tokens (s : State) (p : PoolState) (a : Addr) : (s.putPool p a).tokens = s.tokens := by
  unfold State.putPool
  split <;> rfl

lemma putTokenConfig_tokens (s : State) (tc : TokenConfig) (a : Addr) :
    (s.putTokenConfig tc a).tokens = s.tokens := by
  unfold State.putTokenConfig
  split <;> rfl

lemma closeRedemption_tokens (s : State) (redemption recipient : Addr) :
    (closeRedemption s redemption recipient).tokens = s.tokens := by
  unfold closeRedemption
  split
  · exact congrArg Records.tokens (records_fund ..)
  · rfl

lemma createChange_tokens {pool : AccountInfo} {tx : ParsedTransaction} {txid : Hash}
    {poolScript : List UInt8} {change : Option ℕ}
    (h : createChange E c s pool tx txid poolScript = .ok (s', change)) : s'.tokens = s.tokens := by
  unfold createChange at h
  split_ifs at h
  · rw [← (Prod.mk.inj (Except.ok.inj h)).1]
  · split at h
    · simp only [bind_eq_ok, exists_unit, require_eq_ok, pure_eq_ok, Prod.mk.injEq] at h
      obtain ⟨info, -, -, -, s₁, hs₁, rfl, -⟩ := h
      obtain ⟨leaf, hrec⟩ := createUtxo_ok hs₁
      exact congrArg Records.tokens hrec
    · rw [← (Prod.mk.inj (Except.ok.inj h)).1]

/-- A completion burns from the vault what the checks of its payment say. -/
theorem completion_checked (h : processCompleteRedemption E c s = .ok s') :
    ∃ y vault burn, c.payment s = some y ∧ c.accounts[8]? = some vault ∧ y.Checked burn ∧
      BurntFrom vault.key burn s.tokens s'.tokens := by
  simp only [processCompleteRedemption, Call.atLeast, bind_eq_ok, exists_unit, require_eq_ok,
    pure_eq_ok, Prod.exists] at h
  obtain ⟨-, pool, -, redemption, hredemption, authority, -, rent, -, vt, -, lc, -, buffer, h⟩ := h
  obtain ⟨hbuffer, mint, -, vault, hvault, tp, -, receipt, -, poolConfig, -, ix, hix, -, -, h⟩ := h
  obtain ⟨-, -, -, -, -, -, program, -, -, -, -, -, p, -, req, hreq, -, -, s₁, hs₁, -, -, h⟩ := h
  obtain ⟨tx, htx, received, hreceived, minerFee, hfee, -, burn, revenue, hacc, -, s₂, hs₂, h⟩ := h
  obtain ⟨s₃, change, hs₃, -, -, tokenConfig, -, tc, -, s₄, hs₄, -, p', -, tc₁, -, rfl⟩ := h
  have hpayment : c.payment s = some ⟨req, tx, ix.poolScript⟩ := by
    simp only [readBufferedTx, bind_eq_ok, exists_unit, require_eq_ok, orElse_eq_ok] at htx
    obtain ⟨-, raw, hraw, -, hparse⟩ := htx
    rw [readRedemption, orElse_eq_ok] at hreq
    simp [Call.payment, account_ok.mp hredemption, account_ok.mp hbuffer, hix, hreq, hraw, hparse,
      Except.toOption]
  obtain ⟨-, hrec₁, -⟩ := completionReceipt_ok hs₁
  obtain ⟨us, -, -, -, hrec₄⟩ := consumeUtxos_ok hs₄
  have htokens : s₄.tokens = s₂.tokens :=
    (congrArg Records.tokens hrec₄).trans (createChange_tokens hs₃)
  refine ⟨_, vault, burn, hpayment, account_ok.mp hvault,
    checked_of_ok hreceived hfee hacc, ?_⟩
  rw [closeRedemption_tokens, putTokenConfig_tokens, putPool_tokens, htokens,
    ← show s₁.tokens = s.tokens from congrArg Records.tokens hrec₁]
  exact burnToken_burnt hs₂

namespace Regtest

/-- The same state with outputs and inputs of requests worth the largest number there is. -/
def rich (s : State) : State :=
  { s with
    utxos := s.utxos.map (Account.map fun u => { u with amountSats := 2 ^ 64 - 1 }) rfl
    redemptions := s.redemptions.map (Account.map fun r => { r with totalInputSats := 2 ^ 64 - 1 }) rfl }

def skimTx : List UInt8 :=
  rawTx [sweptOutput] [⟨98000, recipientScript⟩, ⟨2 ^ 64 - 1, poolScript⟩]

/-- A completion that has change in its second output. -/
def skimCall : Call :=
  let txid := txidOf skimTx
  handed (call 17 [writable pool, writable (.redemption pool user 7), signer user, writable user,
    readonly (.key (verifiedTx txid)), readonly (.key env.lightClientPda),
    readonly (.key sweepBuffer), writable zkbtc, writable vault, readonly (.key token2022ProgramId),
    writable (.completionReceipt txid), system, readonly (.poolConfig pool),
    writable (.utxo pool (txid, 1)), writable (.utxo pool sweptOutput),
    writable (.tokenConfig pool zkbtc), readonly (.key (env.heightIndexPda 100))]
    (txid.toList ++ leBytes 4 skimTx.length ++ UInt8.ofNat poolScript.length :: poolScript ++ [1])
    ((sweepBuffer, bufferOf skimTx) :: lightClientView txid) 0)

/-- Both payments are accepted; the outputs of one of them are worth more than a counter holds. -/
lemma run_reserved : (exec (step env) (fun _ _ => true) .genesis (sweptTwice.take 8)).any
    (fun s => (processCompleteRedemption env settlingCall s).toBool &&
      (processCompleteRedemption env skimCall (rich s)).toBool &&
      (skimCall.payment (rich s)).all fun y => !decide (outputValue y.tx.outputs < 2 ^ 64)) = true := by
  decide +kernel

end Regtest

end Utxopia.Pool
