import Utxopia.Pool.Complete
import Utxopia.Pool.Deposit
import Utxopia.Pool.RedeemBooks

/-!
What the instructions that settle with Bitcoin do to the books.

A deposit mints what the pool received and a completion burns what the pool paid. The outputs
of an accepted redemption are the payments to the recipient, the change and nothing else of
value, so what is burnt is what the inputs had and the change does not.
-/

namespace Utxopia.Pool

open Utxopia.ByteString Utxopia.Check Utxopia.Runtime

variable {E : Env} {s s' : State} {c : Call}

/-! ### Outputs of the pool -/

/-- The record of an output the pool has received. -/
def newUtxo (o : Outpoint) (amountSats : ℕ) (leaf : Option Hash) : UtxoRecord where
  status := .Unspent
  txid := o.1
  vout := o.2
  amountSats := amountSats
  reservedForRequestId := 0
  leafCommitment := leaf

/-- The books with one more output of the pool. -/
def Records.credit (r : Records) (pool : Addr) (o : Outpoint) (amountSats : ℕ)
    (leaf : Option Hash) : Records :=
  (r.updateUtxos [((pool, o), some (newUtxo o amountSats leaf))]).log [.credited pool o amountSats]

lemma createUtxo_ok {pool : Addr} {o : Outpoint} {amountSats : ℕ} {leaf : Option Hash}
    (h : createUtxo E s pool o amountSats leaf = .ok s') :
    ∃ leaf', s'.records = s.records.credit pool o amountSats leaf' := by
  simp only [createUtxo, bind_eq_ok, pure_eq_ok] at h
  obtain ⟨acc, hacc, rfl⟩ := h
  exact ⟨leaf <|> tailOf acc.data, Records.ext rfl rfl rfl rfl
    (recs_create (createOrClaimSized_owner hacc) _) rfl rfl rfl rfl rfl rfl rfl rfl rfl rfl⟩

/-! ### The outputs of a redemption -/

/-- What outputs that satisfy a test are worth. -/
def valueWhere (p : TxOutput → Bool) (outputs : List TxOutput) : ℕ :=
  ((outputs.filter p).map TxOutput.value).sum

def outputValue (outputs : List TxOutput) : ℕ := (outputs.map TxOutput.value).sum

def paysTo (script : List UInt8) (o : TxOutput) : Bool := o.scriptPubkey = script

@[simp] lemma valueWhere_nil (p : TxOutput → Bool) : valueWhere p [] = 0 := rfl

lemma valueWhere_cons (p : TxOutput → Bool) (o : TxOutput) (os : List TxOutput) :
    valueWhere p (o :: os) = (if p o then o.value else 0) + valueWhere p os := by
  unfold valueWhere
  rw [List.filter_cons]
  split_ifs <;> simp

@[simp] lemma outputValue_cons (o : TxOutput) (os : List TxOutput) :
    outputValue (o :: os) = o.value + outputValue os := by
  simp [outputValue]

/-- The sum does not leave the range unless it is the largest number. -/
lemma sumOutputs_eq (tx : ParsedTransaction) :
    tx.sumOutputs = min (outputValue tx.outputs) (2 ^ 64 - 1) := by
  have key : ∀ (os : List TxOutput) (n : ℕ),
      os.foldl (fun total o => saturatingAdd 64 total o.value) (min n (2 ^ 64 - 1)) =
        min (n + outputValue os) (2 ^ 64 - 1) := by
    intro os
    induction os with
    | nil => intro n; simp [outputValue]
    | cons o os ih =>
      intro n
      rw [List.foldl_cons, outputValue_cons,
        show saturatingAdd 64 (min n (2 ^ 64 - 1)) o.value = min (n + o.value) (2 ^ 64 - 1) by
          unfold saturatingAdd; omega, ih, Nat.add_assoc]
  have := key tx.outputs 0
  simpa [ParsedTransaction.sumOutputs] using this

lemma addReceived_ok {recipient : List UInt8} {os : List TxOutput} {n n' : ℕ}
    (h : loop (addReceived recipient) n os = .ok n') :
    n' = n + valueWhere (paysTo recipient) os := by
  induction os generalizing n with
  | nil =>
    simp only [loop_nil, Except.ok.injEq] at h
    simp [h]
  | cons o os ih =>
    obtain ⟨m, hm, hrest⟩ := loop_cons_eq_ok.mp h
    rw [ih hrest, valueWhere_cons]
    unfold addReceived at hm
    unfold paysTo
    split_ifs at hm with hs
    · rw [checkedAdd_eq_ok] at hm
      rw [if_pos (by simpa using hs), hm.2]
      omega
    · rw [if_neg (by simpa using hs), ← Except.ok.inj hm]
      omega

lemma outputWithinPolicy_ok {recipient poolScript : List UInt8} {n m : ℕ} {o : TxOutput}
    (h : outputWithinPolicy recipient poolScript n o = some m) :
    (o.isOpReturn = true ∧ o.value = 0 ∧ m = n) ∨
      (o.isOpReturn = false ∧ o.scriptPubkey = recipient ∧ m = n) ∨
      (o.isOpReturn = false ∧ poolScript ≠ [] ∧ o.scriptPubkey = poolScript ∧ n = 0 ∧ m = 1) := by
  unfold outputWithinPolicy at h
  split_ifs at h with hop hv hr hp hn
  · exact .inl ⟨hop, not_not.mp hv, (Option.some_inj.mp h).symm⟩
  · exact .inr (.inl ⟨by simpa using hop, hr, (Option.some_inj.mp h).symm⟩)
  · have hm := Option.some_inj.mp h
    exact .inr (.inr ⟨by simpa using hop, hp.1, hp.2, by omega, by omega⟩)

section Policy

variable {recipient poolScript : List UInt8} {os : List TxOutput} {n k : ℕ}

/-- Outputs within the policy pay the recipient or are change. -/
lemma outputValue_of_policy (hne : ¬ (poolScript ≠ [] ∧ recipient = poolScript))
    (h : os.foldlM (outputWithinPolicy recipient poolScript) n = some k) :
    outputValue os = valueWhere (paysTo recipient) os +
      if poolScript = [] then 0 else valueWhere (paysTo poolScript) os := by
  induction os generalizing n with
  | nil => simp [outputValue]
  | cons o os ih =>
    rw [List.foldlM_cons] at h
    obtain ⟨m, hm, hrest⟩ := Option.bind_eq_some_iff.mp h
    have hos := ih hrest
    simp only [outputValue_cons, valueWhere_cons, paysTo, decide_eq_true_eq] at hos ⊢
    rcases outputWithinPolicy_ok hm with ⟨-, hv, -⟩ | ⟨-, hs, -⟩ | ⟨-, hp, hs, -, -⟩
    · simp only [hv, ite_self, Nat.zero_add]
      exact hos
    · have hnp : poolScript ≠ [] → o.scriptPubkey ≠ poolScript :=
        fun hp heq => hne ⟨hp, hs.symm.trans heq⟩
      rw [if_pos hs]
      split_ifs at hos ⊢ with hp heq
      · omega
      · exact absurd heq (hnp hp)
      · omega
    · have hnr : o.scriptPubkey ≠ recipient := fun heq => hne ⟨hp, heq.symm.trans hs⟩
      rw [if_neg hnr]
      rw [if_neg hp] at hos
      rw [if_neg hp, if_pos hs]
      omega

/-- Every output of a payment within the policy was checked. -/
lemma output_checked (h : os.foldlM (outputWithinPolicy recipient poolScript) n = some k)
    {o : TxOutput} (ho : o ∈ os) : ∃ n k, outputWithinPolicy recipient poolScript n o = some k := by
  induction os generalizing n with
  | nil => exact absurd ho List.not_mem_nil
  | cons a os ih =>
    rw [List.foldlM_cons] at h
    obtain ⟨m, hm, hrest⟩ := Option.bind_eq_some_iff.mp h
    rcases List.mem_cons.mp ho with rfl | ho
    · exact ⟨n, m, hm⟩
    · exact ih hrest ho

lemma opReturn_worthless (h : os.foldlM (outputWithinPolicy recipient poolScript) n = some k)
    {o : TxOutput} (ho : o ∈ os) (hop : o.isOpReturn = true) : o.value = 0 := by
  obtain ⟨_, _, hm⟩ := output_checked h ho
  rcases outputWithinPolicy_ok hm with ⟨-, hv, -⟩ | ⟨hf, -⟩ | ⟨hf, -⟩
  · exact hv
  · exact absurd hop (by simp [hf])
  · exact absurd hop (by simp [hf])

/-- There is at most one output of value that is change. -/
lemma valueWhere_pool_eq_zero (hne : ¬ (poolScript ≠ [] ∧ recipient = poolScript))
    (hp : poolScript ≠ []) (h : os.foldlM (outputWithinPolicy recipient poolScript) 1 = some k) :
    valueWhere (paysTo poolScript) os = 0 := by
  induction os with
  | nil => rfl
  | cons o os ih =>
    rw [List.foldlM_cons] at h
    obtain ⟨m, hm, hrest⟩ := Option.bind_eq_some_iff.mp h
    rw [valueWhere_cons]
    simp only [paysTo, decide_eq_true_eq]
    rcases outputWithinPolicy_ok hm with ⟨-, hv, rfl⟩ | ⟨-, hs, rfl⟩ | ⟨-, -, -, h1, -⟩
    · rw [hv, ite_self, ih hrest]
    · rw [if_neg fun heq => hne ⟨hp, hs.symm.trans heq⟩, ih hrest]
    · omega

/-- The change that is found is all the change there is. -/
lemma find_change (hne : ¬ (poolScript ≠ [] ∧ recipient = poolScript)) (hp : poolScript ≠ [])
    (h : os.foldlM (outputWithinPolicy recipient poolScript) 0 = some k) :
    valueWhere (paysTo poolScript) os = ((os.find? (paysTo poolScript)).map TxOutput.value).getD 0 := by
  induction os with
  | nil => rfl
  | cons o os ih =>
    rw [List.foldlM_cons] at h
    obtain ⟨m, hm, hrest⟩ := Option.bind_eq_some_iff.mp h
    rw [valueWhere_cons, List.find?_cons]
    rcases outputWithinPolicy_ok hm with ⟨hop, hv, rfl⟩ | ⟨-, hs, rfl⟩ | ⟨-, -, hs, -, rfl⟩
    · by_cases hs : paysTo poolScript o = true
      · -- change that is data is worthless, and so is all other change
        have hall : ∀ o' ∈ os, paysTo poolScript o' = true → o'.isOpReturn = true := by
          intro o' _ ho'
          simp only [paysTo, decide_eq_true_eq] at hs ho'
          simpa [TxOutput.isOpReturn, ho', ← hs] using hop
        have hzero : valueWhere (paysTo poolScript) os = 0 := by
          rw [ih hrest]
          cases hf : os.find? (paysTo poolScript) with
          | none => rfl
          | some o' =>
            have hmem := List.mem_of_find?_eq_some hf
            simpa using opReturn_worthless hrest hmem (hall o' hmem (List.find?_some hf))
        rw [if_pos hs, hzero, hs]
        simp
      · rw [if_neg hs]
        simp only [hs]
        rw [ih hrest, Nat.zero_add]
    · have hs' : paysTo poolScript o = false := by
        simpa [paysTo] using fun heq => hne ⟨hp, hs.symm.trans heq⟩
      rw [hs', ih hrest]
      simp
    · have hs' : paysTo poolScript o = true := by simpa [paysTo] using hs
      rw [hs', valueWhere_pool_eq_zero hne hp hrest]
      simp

end Policy

lemma findOutput_eq (tx : ParsedTransaction) (p : TxOutput → Bool) :
    (tx.findOutput p).map Prod.fst = tx.outputs.find? p := by
  unfold ParsedTransaction.findOutput
  cases hi : tx.outputs.findIdx? p with
  | none =>
    rw [List.findIdx?_eq_none_iff] at hi
    exact (List.find?_eq_none.mpr fun o ho => by simp [hi o ho]).symm
  | some i =>
    obtain ⟨hlt, hp, hmin⟩ := List.findIdx?_eq_some_iff_getElem.mp hi
    have hfind : tx.outputs.find? p = some tx.outputs[i] :=
      List.find?_eq_some_iff_getElem.mpr ⟨hp, i, hlt, rfl, fun j hj => by simpa using hmin j hj⟩
    simp [hfind, List.getElem?_eq_getElem hlt]

/-- What the change of a transaction is worth. -/
def changeAmount (change : Option (Outpoint × ℕ)) : ℕ := (change.map Prod.snd).getD 0

/-- What a completion burns, what it keeps and what comes back make up its inputs. -/
structure Settlement (req : RedemptionRequest) (burn revenue change : ℕ) : Prop where
  amount : burn + revenue = req.amountSats
  inputs : req.totalInputSats < 2 ^ 64 - 1 → burn + change = req.totalInputSats
  small : req.amountSats ≤ maxRedemptionAmountSats

lemma settlement {tx : ParsedTransaction} {req : RedemptionRequest} {poolScript : List UInt8}
    {p : PoolState} {received minerFee burn revenue change : ℕ}
    (hpay : checkPayment tx req poolScript = .ok received) (hfee : checkMinerFee tx req = .ok minerFee)
    (hsign : checkRedemptionSigning p req.amountSats minerFee = .ok ())
    (hacc : redemptionAccounting req.amountSats received minerFee = .ok (burn, revenue))
    (hchange : change = if poolScript = [] then 0 else
      ((tx.outputs.find? (paysTo poolScript)).map TxOutput.value).getD 0) :
    Settlement req burn revenue change := by
  simp only [checkPayment, bind_eq_ok, exists_unit, require_eq_ok, pure_eq_ok] at hpay
  obtain ⟨-, received', hrec, -, hne, hpol, rfl⟩ := hpay
  simp only [checkMinerFee, bind_eq_ok, exists_unit, require_eq_ok, pure_eq_ok] at hfee
  obtain ⟨-, hsum, -, rfl⟩ := hfee
  simp only [checkRedemptionSigning, bind_eq_ok, exists_unit, require_eq_ok] at hsign
  simp only [redemptionAccounting, bind_eq_ok, exists_unit, require_eq_ok, checkedAdd_eq_ok,
    pure_eq_ok, Prod.mk.injEq] at hacc
  obtain ⟨_, ⟨-, rfl⟩, hle, rfl, rfl⟩ := hacc
  have hreceived : received' = valueWhere (paysTo req.btcScript) tx.outputs := by
    simpa using addReceived_ok hrec
  obtain ⟨k, hk⟩ := Option.isSome_iff_exists.mp hpol
  have hvalue : outputValue tx.outputs = received' + change := by
    rw [outputValue_of_policy hne hk, hreceived, hchange]
    split_ifs with hp
    · rfl
    · rw [find_change hne hp hk]
  refine ⟨by omega, fun hlt => ?_, hsign.2.1⟩
  rw [sumOutputs_eq] at hsum ⊢
  omega

/-! ### Completions -/

lemma completionReceipt_ok {receipt : AccountInfo} {txid : Hash}
    (h : createCompletionReceipt E s receipt txid = .ok s') :
    s.records.completionReceipts txid = none ∧ s'.records = s.records.putCompletionReceipt txid ∧
      s'.utxos = s.utxos ∧ s'.tokens = s.tokens := by
  simp only [createCompletionReceipt, bind_eq_ok, exists_unit, require_eq_ok, pure_eq_ok] at h
  obtain ⟨-, hnone, acc, hacc, rfl⟩ := h
  exact ⟨Account.rec?_eq_none_of_live? hnone, Records.ext rfl rfl rfl rfl rfl rfl rfl rfl rfl
    (recs_create (createOrClaim_owner hacc) _) rfl rfl rfl rfl rfl, rfl, rfl⟩

/-- The books with the change of a transaction, if there is some. -/
def Records.creditChange (r : Records) (pool : Addr) (change : Option (Outpoint × ℕ))
    (leaf : Option Hash) : Records :=
  match change with
  | some (o, amount) => r.credit pool o amount leaf
  | none => r

lemma creditChange_utxos {r r' : Records} (h : r.utxos = r'.utxos) (pool : Addr)
    (change : Option (Outpoint × ℕ)) (leaf : Option Hash) :
    (r.creditChange pool change leaf).utxos = (r'.creditChange pool change leaf).utxos := by
  cases change with
  | none => exact h
  | some o => exact congrArg (fun m => Store.updates m _) h

lemma creditChange_pools (r : Records) (pool : Addr) (change : Option (Outpoint × ℕ))
    (leaf : Option Hash) : (r.creditChange pool change leaf).pools = r.pools := by
  cases change <;> rfl

lemma creditChange_tokenConfigs (r : Records) (pool : Addr) (change : Option (Outpoint × ℕ))
    (leaf : Option Hash) : (r.creditChange pool change leaf).tokenConfigs = r.tokenConfigs := by
  cases change <;> rfl

/-- The outpoint of the change, with what it is worth. -/
def changeOutput (tx : ParsedTransaction) (txid : Hash) (poolScript : List UInt8) :
    Option (Outpoint × ℕ) :=
  if poolScript = [] then none
  else (tx.findOutputByScript poolScript).map fun o => ((txid, o.2), o.1.value)

lemma changeAmount_changeOutput (tx : ParsedTransaction) (txid : Hash) (poolScript : List UInt8) :
    changeAmount (changeOutput tx txid poolScript) = if poolScript = [] then 0 else
      ((tx.outputs.find? (paysTo poolScript)).map TxOutput.value).getD 0 := by
  unfold changeOutput
  split_ifs
  · rfl
  · rw [← findOutput_eq]
    cases h : tx.findOutputByScript poolScript with
    | none =>
      rw [show tx.findOutput (paysTo poolScript) = none from h]
      rfl
    | some o =>
      rw [show tx.findOutput (paysTo poolScript) = some o from h]
      rfl

lemma createChange_ok {pool : AccountInfo} {tx : ParsedTransaction} {txid : Hash}
    {poolScript : List UInt8} {change : Option ℕ} (hroom : poolScript ≠ [] → 14 ≤ c.accounts.length)
    (h : createChange E c s pool tx txid poolScript = .ok (s', change)) :
    change = (changeOutput tx txid poolScript).map Prod.snd ∧
      ∃ leaf, s'.records = s.records.creditChange pool.key (changeOutput tx txid poolScript) leaf := by
  unfold createChange at h
  unfold changeOutput
  by_cases hp : poolScript = []
  · rw [if_pos (.inl hp)] at h
    rw [if_pos hp]
    obtain ⟨rfl, rfl⟩ := Prod.mk.inj (Except.ok.inj h)
    exact ⟨rfl, none, rfl⟩
  · rw [if_neg (not_or.mpr ⟨hp, not_not.mpr (hroom hp)⟩)] at h
    rw [if_neg hp]
    cases hf : tx.findOutputByScript poolScript with
    | none =>
      rw [hf] at h
      obtain ⟨rfl, rfl⟩ := Prod.mk.inj (Except.ok.inj h)
      exact ⟨rfl, none, rfl⟩
    | some o =>
      rw [hf] at h
      simp only [bind_eq_ok, exists_unit, require_eq_ok, pure_eq_ok, Prod.mk.injEq] at h
      obtain ⟨info, -, -, -, s₁, hs₁, rfl, rfl⟩ := h
      obtain ⟨leaf, hrec⟩ := createUtxo_ok hs₁
      exact ⟨rfl, leaf, hrec⟩

lemma closeUtxo_records {k : Addr × Outpoint} {recipient : Addr} :
    (closeUtxo s (.utxo k.1 k.2) recipient).records = s.records.updateUtxos [(k, none)] := by
  simp only [closeUtxo, records_fund]
  refine Records.ext rfl rfl rfl rfl ?_ rfl rfl rfl rfl rfl rfl rfl rfl rfl rfl
  exact (Store.recs_set ..).trans (by rw [Account.rec?_close]; rfl)

/-- Every output that is consumed is an input of the transaction. -/
def SpendsAll (tx : ParsedTransaction) (us : List UtxoEntry) : Prop :=
  ∀ e ∈ us, tx.findInputWithPrevOutpoint (e.2.txid, e.2.vout) = true

lemma consumeUtxo_ok {reservationKey : ℕ} {tx : ParsedTransaction} {recipient : Addr}
    {us : List UtxoEntry} {info : AccountInfo} (hus : SpendsAll tx us)
    (h : consumeUtxo E c reservationKey tx recipient s info = .ok s') :
    ∃ e : UtxoEntry, info.key = utxoAddr e ∧ s.records.utxos e.1 = some e.2 ∧
      (e.2.status = .Reserved ∧ e.2.reservedForRequestId = reservationKey) ∧
      s'.records = s.records.updateUtxos (pickedEntries (fun _ => none) [e]) ∧
      SpendsAll tx (us ++ [e]) := by
  simp only [consumeUtxo, bind_eq_ok, validateProgramOwner_ok, exists_unit, orElse_eq_ok,
    require_eq_ok, pure_eq_ok] at h
  obtain ⟨ho, -, u, hu, hst, hkey, hin, rfl⟩ := h
  obtain ⟨pool, o, hk, hrec⟩ := utxo_of_owned ho hu
  refine ⟨((pool, o), u), hk, hrec, ⟨hst, hkey⟩, ?_, ?_⟩
  · rw [hk]
    exact closeUtxo_records (k := (pool, o))
  · intro e he
    rcases List.mem_append.mp he with he | he
    · exact hus e he
    · rw [List.mem_singleton.mp he]
      exact hin

lemma consumeUtxos_ok {reservationKey : ℕ} {tx : ParsedTransaction} {recipient : Addr}
    {infos : List AccountInfo}
    (h : loop (consumeUtxo E c reservationKey tx recipient) s infos = .ok s') :
    ∃ us : List UtxoEntry, us.map utxoAddr = infos.map AccountInfo.key ∧
      Held s.records reservationKey us ∧ SpendsAll tx us ∧
      s'.records = s.records.updateUtxos (pickedEntries (fun _ => none) us) := by
  obtain ⟨us, hkeys, hus, hP, hrec, hI⟩ := loop_picked (w := id) (f := fun _ => none)
    (P := fun u => u.status = .Reserved ∧ u.reservedForRequestId = reservationKey)
    (I := fun us (_ : State) => SpendsAll tx us)
    (fun us acc info acc' hI hg => consumeUtxo_ok hI hg) (by simp) (by simp [SpendsAll]) h
  exact ⟨us, hkeys, ⟨hus, hP⟩, hI, hrec⟩

/-- The pool's books after a completion. -/
def PoolState.settled (p : PoolState) (burn revenue : ℕ) (change : Option (Outpoint × ℕ))
    (now : ℤ) : PoolState :=
  { p with
    totalBurned := p.totalBurned + burn
    feePool := p.feePool + revenue
    totalBtcHeld := p.totalBtcHeld + changeAmount change
    utxoCount := p.utxoCount + if change.isSome then 1 else 0
    pendingRedemptions := p.pendingRedemptions - 1
    lastUpdate := now }

lemma settlePool_ok {p p' : PoolState} {burn revenue : ℕ} {change : Option (Outpoint × ℕ)} {now : ℤ}
    (h : settlePool p burn revenue (change.map Prod.snd) = .ok p') :
    { p' with pendingRedemptions := p'.pendingRedemptions - 1, lastUpdate := now } =
      p.settled burn revenue change now := by
  simp only [settlePool, bind_eq_ok] at h
  obtain ⟨p₁, hp₁, h⟩ := h
  obtain rfl := PoolState.addBurned_ok hp₁
  split_ifs at h with hrev
  · obtain ⟨p₂, hp₂, h⟩ := bind_eq_ok.mp h
    obtain rfl := PoolState.addFeePool_ok hp₂
    cases change with
    | none =>
      rw [← Except.ok.inj h]
      rfl
    | some o =>
      rw [PoolState.addUtxos_ok h]
      rfl
  · obtain ⟨p₂, hp₂, h⟩ := bind_eq_ok.mp h
    obtain rfl : revenue = 0 := by omega
    obtain rfl := Except.ok.inj hp₂
    cases change with
    | none =>
      rw [← Except.ok.inj h]
      rfl
    | some o =>
      rw [PoolState.addUtxos_ok h]
      rfl

lemma addRevenue_ok {tc tc' : TokenConfig} {revenue : ℕ} (h : addRevenue tc revenue = .ok tc') :
    tc' = tc.owe 0 revenue := by
  unfold addRevenue at h
  split_ifs at h with hrev
  · exact TokenConfig.addFees_ok h
  · obtain rfl : revenue = 0 := by omega
    rw [← Except.ok.inj h]
    rfl

/-- A request was paid on Bitcoin. -/
structure Completing (E : Env) (r : Records) (m : Addr) (p : PoolState) (req : RedemptionRequest)
    (tc : TokenConfig) (us : List UtxoEntry) (tx : ParsedTransaction) (txid : Hash)
    (change : Option (Outpoint × ℕ)) (leaf : Option Hash) (T : Addr → Option TokenAccount)
    (burn revenue : ℕ) : Prop where
  mint : p.zkbtcMint = m
  pool : r.pools m = some p
  request : r.redemptions (req.storeKey m) = some req
  processing : req.status = .Processing
  new : r.completionReceipts txid = none
  settlement : Settlement req burn revenue (changeAmount change)
  paid : Outflow tc.vault burn r.tokens T
  change_txid : ∀ o ∈ change, o.1.1 = txid
  held : Held (r.creditChange (.poolState m) change leaf) (reservationKeyOf E (req.storeKey m)) us
  count : us.length = req.reservedCount
  spends : SpendsAll tx us
  inputs : tx.inputs.length = us.length
  config : r.tokenConfigs (.poolState m, m) = some tc
  config_mint : tc.mint = m

/-- The books after a request was paid. -/
def Records.complete (r : Records) (m : Addr) (p : PoolState) (req : RedemptionRequest)
    (tc : TokenConfig) (us : List UtxoEntry) (txid : Hash) (change : Option (Outpoint × ℕ))
    (leaf : Option Hash) (T : Addr → Option TokenAccount) (burn revenue : ℕ) (now : ℤ) : Records :=
  ((((((r.putCompletionReceipt txid).setTokens T).creditChange (.poolState m) change leaf).updateUtxos
    (pickedEntries (fun _ => none) us)).putPool m (p.settled burn revenue change now)).putTokenConfig
      (.poolState m, m) (tc.owe 0 revenue)).updateRedemptions [(req.storeKey m, none)]

/-- The change outpoint a completion would credit. -/
def Call.changeOutput (c : Call) : Option (Outpoint × ℕ) :=
  match CompleteRedemptionData.fromBytes c.data, c.accounts[6]? with
  | .ok ix, some buffer =>
    match readTransactionFromBuffer (c.dataOf buffer.key) ix.txSize with
    | .ok raw => (ParsedTransaction.parse raw).bind fun tx =>
        Pool.changeOutput tx ix.btcTxid ix.poolScript
    | .error _ => none
  | _, _ => none

/-- Where the accounts of the outputs start that a completion consumes, and their number. -/
def Call.consumedRange (c : Call) : ℕ × ℕ :=
  match CompleteRedemptionData.fromBytes c.data with
  | .ok ix => (if ix.poolScript = [] then 13 else 14, ix.consumedUtxoCount)
  | .error _ => (0, 0)

/-- **Completing** burns what left the pool and replaces the reserved outputs by the change. -/
theorem processCompleteRedemption_ok (h : processCompleteRedemption E c s = .ok s') :
    ∃ m p req tc us tx txid leaf T burn revenue,
      Completing E s.records m p req tc us tx txid c.changeOutput leaf T burn revenue ∧
      Names c m req 0 c.consumedRange.1 c.consumedRange.2 us ∧
      c.configAt (c.consumedRange.1 + c.consumedRange.2) = some (.poolState m, m) ∧
      s'.records = s.records.complete m p req tc us txid c.changeOutput leaf T burn revenue
        c.unixTimestamp := by
  simp only [processCompleteRedemption, readRedemptionToken, Call.atLeast, bind_eq_ok, exists_unit,
    require_eq_ok, pure_eq_ok, validateProgramOwner_ok, Prod.exists] at h
  obtain ⟨-, pool, hpacct, redemption, hacct, authority, -, rent, -, vt, -, lc, -, buffer, h⟩ := h
  obtain ⟨hbuffer, mint, -, vault, -, tp, -, receipt, -, poolConfig, -, ix, hix, -, -, hpda, h⟩ := h
  obtain ⟨-, -, -, -, -, program, -, -, -, -, -, p, hread, req, hreq, -, -, s₁, hs₁, hproc, h⟩ := h
  obtain ⟨-, tx, htx, received, hreceived, minerFee, hfee, hsign, burn, revenue, hacc, h⟩ := h
  obtain ⟨hmint, s₂, hs₂, s₃, change, hs₃, -, hcount, tokenConfig, htca, tc', h⟩ := h
  obtain ⟨⟨hco, -, tc, htc, ⟨hck, hcm, hvault, -⟩, rfl⟩, s₄, hs₄, hins, p', hp', tc₁, htc₁, rfl⟩ := h
  have hat := validateRedemptionPda_ok hread hreq hpda
  have hm : mint.key = p.zkbtcMint := by simpa [hat.pool_key] using hmint.symm
  rw [hm] at hcm hck
  rw [hat.pool_key] at hck
  have hlen := (List.getElem?_eq_some_iff.mp (account_ok.mp htca)).1
  have htx' : c.changeOutput = changeOutput tx ix.btcTxid ix.poolScript := by
    simp only [readBufferedTx, bind_eq_ok, exists_unit, require_eq_ok, orElse_eq_ok] at htx
    obtain ⟨-, raw, hraw, -, hparse⟩ := htx
    simp only [Call.changeOutput, hix, account_ok.mp hbuffer, hraw, hparse]
    rfl
  obtain ⟨hnew, hrec₁, hutxos₁, -⟩ := completionReceipt_ok hs₁
  obtain ⟨T, hrec₂, hout⟩ := burnToken_ok hs₂
  obtain ⟨rfl, leaf, hrec₃⟩ := createChange_ok
    (fun hp => by rw [if_neg hp] at hlen; omega) hs₃
  rw [← htx', hat.pool_key, hrec₂, hrec₁] at hrec₃
  obtain ⟨us, hus, hheld, hspends, hrec₄⟩ := consumeUtxos_ok hs₄
  have hcount' : us.length = ix.consumedUtxoCount := length_of_keysFrom hlen.le hus
  have hcfg : s₃.records.tokenConfigs (.poolState p.zkbtcMint, p.zkbtcMint) = some tc := by
    rw [readTokenConfig, orElse_eq_ok] at htc
    exact tokenConfig_of_key hco hck htc
  have hcfg₀ : s.records.tokenConfigs (.poolState p.zkbtcMint, p.zkbtcMint) = some tc := by
    rwa [hrec₃, creditChange_tokenConfigs] at hcfg
  refine ⟨p.zkbtcMint, p, req, tc, us, tx, ix.btcTxid, leaf, T, burn, revenue, ⟨rfl, hat.pool,
    hat.request, hproc, hnew, ?_, ?_, ?_, ?_, ?_, hspends, ?_, hcfg₀, hcm⟩,
    ⟨?_, ?_, ?_⟩, ?_, ?_⟩
  · exact settlement hreceived hfee hsign hacc (by rw [htx', changeAmount_changeOutput])
  · rw [hrec₁] at hout
    rw [hvault]
    exact hout
  · intro o ho
    rw [htx', changeOutput] at ho
    split_ifs at ho
    · exact absurd ho (by simp)
    · obtain ⟨o', -, rfl⟩ := Option.map_eq_some_iff.mp ho
      rfl
  · rw [hat.key] at hheld
    refine ⟨⟨hheld.picked.nodup, fun e he => ?_⟩, hheld.reserved⟩
    rw [← hheld.picked.recorded e he, hrec₃]
    exact congrFun (creditChange_utxos (by rfl) _ _ _) _
  · exact hcount'.trans hcount
  · exact hins.trans hcount'.symm
  · rw [account_ok.mp hpacct, Option.map_some, hat.pool_key]
  · rw [account_ok.mp hacct, Option.map_some, hat.key]
    rfl
  · rw [Call.consumedRange, hix]
    exact hus
  · rw [Call.consumedRange, hix]
    exact configAt_of_account htca hck
  · have hpool₄ : s₄.records.pools p.zkbtcMint = some p := by
      rw [hrec₄, hrec₃]
      exact (congrFun (creditChange_pools ..) _).trans hat.pool
    have hset := @settlePool_ok _ _ _ _ _ c.unixTimestamp (htx' ▸ hp')
    rw [hset, hat.pool_key, hck, hat.key, addRevenue_ok htc₁]
    refine (closeRedemption_records (k := req.storeKey p.zkbtcMint)).trans ?_
    rw [records_putTokenConfig (k := (.poolState p.zkbtcMint, p.zkbtcMint)) (o := tc),
      records_putPool hpool₄, hrec₄, hrec₃]
    · rfl
    · rw [records_putPool hpool₄, hrec₄, hrec₃]
      exact (congrFun (creditChange_tokenConfigs ..) _).trans hcfg₀

/-! ### Deposits -/

/-- The pool's books after a deposit. -/
def PoolState.deposited (p : PoolState) (amount shielded : ℕ) (now : ℤ) : PoolState :=
  { p with
    totalBtcHeld := p.totalBtcHeld + amount
    utxoCount := p.utxoCount + 1
    depositCount := p.depositCount + 1
    totalMinted := p.totalMinted + amount
    totalShielded := shielded
    lastUpdate := now }

lemma countDeposit_ok {p p' : PoolState} {amount shielded : ℕ} {now : ℤ}
    (h : countDeposit p amount = .ok p') :
    { p' with totalShielded := shielded, lastUpdate := now } = p.deposited amount shielded now := by
  simp only [countDeposit, bind_eq_ok] at h
  obtain ⟨p₁, hp₁, p₂, hp₂, hp₃⟩ := h
  rw [PoolState.addMinted_ok hp₃, PoolState.incrementDepositCount_ok hp₂, PoolState.addUtxos_ok hp₁]
  rfl

/-- An output of the pool on Bitcoin that has no record became a note. -/
structure Depositing (E : Env) (r : Records) (m : Addr) (p : PoolState) (tc : TokenConfig)
    (t t' : CommitmentTree) (T : Addr → Option TokenAccount) (receipt : Hash × Option ℕ)
    (credit : Credit) (commitment : Hash) (shielded fee : ℕ) : Prop where
  mint : p.zkbtcMint = m
  pool : r.pools m = some p
  tree : r.trees (.poolState m, p.activeTreeIndex) = some t
  config : r.tokenConfigs (.poolState m, m) = some tc
  config_mint : tc.mint = m
  new : r.depositReceipts receipt = none
  unrecorded : r.utxos (.poolState m, credit.outpoint) = none
  appended : t.Appended E [commitment] t'
  amount : shielded + fee = credit.amountSats
  bounded : credit.amountSats ≤ p.maxDeposit
  minted : Outflow tc.vault 0 r.tokens T
  arrived : balanceIn T tc.vault = balanceIn r.tokens tc.vault + credit.amountSats
  vault_mint : ∃ v, r.tokens tc.vault = some v ∧ v.mint = tc.mint
  capped : tc.totalShielded + shielded ≤ tc.depositCap

/-- The books after a deposit. -/
def Records.deposit (r : Records) (m : Addr) (p : PoolState) (tc : TokenConfig)
    (t t' : CommitmentTree) (T : Addr → Option TokenAccount) (receipt : Hash × Option ℕ)
    (credit : Credit) (leaf : Option Hash) (commitment : Hash) (shielded fee : ℕ) (now : ℤ) :
    Records :=
  let tc' := tc.owe shielded fee
  (((((r.putDepositReceipt receipt).place (.poolState m) p.activeTreeIndex t t' [commitment]).credit
    (.poolState m) credit.outpoint credit.amountSats leaf).setTokens T).putTokenConfig
      (.poolState m, m) tc').putPool m (p.deposited credit.amountSats tc'.totalShielded now)

lemma createDepositReceipt_ok {receipt : AccountInfo} {txid : Hash} {vout : Option ℕ}
    (h : createDepositReceipt E s receipt txid vout = .ok s') :
    s.records.depositReceipts (txid, vout) = none ∧
      s'.records = s.records.putDepositReceipt (txid, vout) ∧ s'.trees = s.trees := by
  simp only [createDepositReceipt, bind_eq_ok, exists_unit, require_eq_ok, pure_eq_ok] at h
  obtain ⟨-, hnone, acc, hacc, rfl⟩ := h
  exact ⟨Account.rec?_eq_none_of_live? hnone, Records.ext rfl rfl rfl rfl rfl rfl rfl rfl
    (recs_create (createOrClaim_owner hacc) _) rfl rfl rfl rfl rfl rfl, rfl⟩

lemma validateBtcDeposit_ok {amount totalFee shielded : ℕ} {p : PoolState} {tc : TokenConfig}
    (h : validateBtcDepositAmountAndFee amount p tc = .ok (totalFee, shielded)) :
    shielded + totalFee = amount ∧ amount ≤ p.maxDeposit := by
  simp only [validateBtcDepositAmountAndFee, bind_eq_ok, exists_unit, require_eq_ok,
    checkedAdd_eq_ok, checkedSub_eq_ok, pure_eq_ok, Prod.mk.injEq] at h
  obtain ⟨-, hmax, -, _, ⟨-, rfl⟩, _, ⟨hle, rfl⟩, -, rfl, rfl⟩ := h
  exact ⟨Nat.sub_add_cancel hle, hmax⟩

/-- The output a deposit with this data and binding would credit. -/
def creditOf (E : Env) (s : State) (c : Call) (ix : CompleteDepositData)
    (binding : DepositBinding) : Except ProgramError (Addr × Credit) := do
  let a ← depositAccounts E s c
  let credit ← verifyCredit E s c a ix binding
  return (a.pool.key, credit)

lemma depositAccounts_ok {a : DepositAccounts} (h : depositAccounts E s c = .ok a) :
    s.ownerOf E c a.tree.key = .program ∧ s.ownerOf E c a.tokenConfig.key = .program ∧
      a.tokenConfig.key = .tokenConfig a.pool.key a.zkbtcMint.key ∧
      c.account 13 = .ok a.tokenConfig := by
  simp only [depositAccounts, bind_eq_ok, exists_unit, require_eq_ok, pure_eq_ok,
    validateProgramOwner_ok] at h
  obtain ⟨_, -, _, -, _, -, _, -, _, -, _, -, _, -, _, -, _, -, _, -, _, -, _, -, _, hca, _, h⟩ := h
  obtain ⟨-, -, -, htree, -, -, _, -, -, -, -, -, -, -, -, -, hconfig, -, hk, rfl⟩ := h
  exact ⟨htree, hconfig, hk, hca⟩

lemma depositRecords_ok {a : DepositAccounts} {p : PoolState} {tc : TokenConfig}
    (h : depositRecords E s c a = .ok (p, tc)) :
    readPool s a.pool = .ok p ∧ a.zkbtcMint.key = p.zkbtcMint ∧
      validateActiveTreePda E s c a.tree a.pool p.activeTreeIndex = .ok () ∧
      readTokenConfig s a.tokenConfig = .ok tc ∧ tc.mint = a.zkbtcMint.key ∧
      tc.vault = a.poolVault.key := by
  simp only [depositRecords, bind_eq_ok, exists_unit, require_eq_ok, pure_eq_ok,
    Prod.mk.injEq] at h
  obtain ⟨_, hread, ⟨hmint, -⟩, hactive, _, htc, -, ⟨hm, hv⟩, rfl, rfl⟩ := h
  exact ⟨hread, hmint, hactive, htc, hm, hv⟩

lemma recordUtxo_ok {a : DepositAccounts} {binding : DepositBinding} {credit : Credit}
    (h : recordUtxo E s a binding credit = .ok s') :
    s.records.utxos (a.pool.key, credit.outpoint) = none ∧ ∃ leaf,
      s'.records = s.records.credit a.pool.key credit.outpoint credit.amountSats leaf := by
  simp only [recordUtxo, bind_eq_ok, exists_unit, require_eq_ok] at h
  obtain ⟨-, hnone, h⟩ := h
  exact ⟨Account.rec?_eq_none_of_live? hnone, createUtxo_ok h⟩

/-- **A deposit** mints what an unrecorded output of the pool is worth. -/
theorem completeDepositInner_ok {ix : CompleteDepositData} {binding : DepositBinding}
    (h : completeDepositInner E s c ix binding = .ok s') :
    ∃ m p tc t t' T credit leaf commitment shielded fee,
      creditOf E s c ix binding = .ok (.poolState m, credit) ∧
      Depositing E s.records m p tc t t' T (ix.depositTxid, binding.depositVout) credit commitment
        shielded fee ∧
      c.configAt 13 = some (.poolState m, m) ∧
      s'.records = s.records.deposit m p tc t t' T (ix.depositTxid, binding.depositVout) credit leaf
        commitment shielded fee c.unixTimestamp := by
  simp only [completeDepositInner, bind_eq_ok, Prod.exists, pure_eq_ok] at h
  obtain ⟨a, ha, p, tc, hrecs, s₁, hs₁, credit, hcredit, fee, shielded, hfee, commitment, -, h⟩ := h
  obtain ⟨s₂, hs₂, s₃, hs₃, s₄, hs₄, tc', htc', p', hp', rfl⟩ := h
  obtain ⟨hto, hco, hck, hca⟩ := depositAccounts_ok ha
  obtain ⟨hread, hmint, hactive, htc, hm, hv⟩ := depositRecords_ok hrecs
  obtain ⟨p₁, hpk, hpool, htk⟩ := validateActiveTreePda_ok hactive
  obtain rfl := readPool_of_records hpk hpool hread
  rw [readTokenConfig, orElse_eq_ok] at htc
  rw [hpk, hmint] at hck
  have hcfg := tokenConfig_of_key hco hck htc
  obtain ⟨hnew, hrec₁, htrees⟩ := createDepositReceipt_ok hs₁
  obtain ⟨t, ht⟩ : ∃ t, s₁.treeAt a.tree.key = some t := by
    simp only [insertOne, readTree, bind_eq_ok, orElse_eq_ok] at hs₂
    obtain ⟨t, ht, -⟩ := hs₂
    exact ⟨t, ht⟩
  have htree : s.records.trees (a.pool.key, p.activeTreeIndex) = some t := by
    refine tree_of_key hto htk ?_
    rw [← ht, htk]
    simp only [State.treeAt, State.tree?, htrees]
  obtain ⟨t', happ, hrec₂⟩ := insertOne_ok htk (by rw [hrec₁]; exact htree) hs₂
  obtain ⟨hnone, leaf, hrec₃⟩ := recordUtxo_ok hs₃
  rw [hpk] at htree hrec₂ hnone hrec₃
  rw [hrec₂, hrec₁] at hnone hrec₃
  obtain ⟨T, hrec₄, hout, harrived⟩ := mintToken_ok hs₄
  obtain ⟨v, hvr, hvm⟩ := mintToken_mint hs₄
  rw [hrec₃] at hrec₄ hout harrived hvr
  rw [← hv] at hout harrived hvr
  obtain ⟨hamount, hbounded⟩ := validateBtcDeposit_ok hfee
  obtain ⟨htc'', hcap⟩ : tc' = tc.owe shielded fee ∧ tc.totalShielded + shielded ≤ tc.depositCap := by
    simp only [shieldDeposit, bind_eq_ok, exists_unit, require_eq_ok, checkedAdd_eq_ok] at htc'
    obtain ⟨_, ⟨-, rfl⟩, hcap, tc₁, htc₁, htc₂⟩ := htc'
    rw [TokenConfig.addFees_ok htc₂, TokenConfig.addShielded_ok htc₁]
    exact ⟨rfl, hcap⟩
  subst htc''
  refine ⟨p.zkbtcMint, p, tc, t, t', T, credit, leaf, commitment, shielded, fee, ?_, ⟨rfl, hpool, htree,
    hcfg, hm.trans hmint, hnew, hnone, happ, hamount, hbounded, hout, harrived, ⟨v, hvr, hvm.trans hm.symm⟩,
    hcap⟩, configAt_of_account hca hck, ?_⟩
  · simp only [creditOf, bind_eq_ok, pure_eq_ok, Prod.mk.injEq]
    exact ⟨a, ha, credit, hcredit, hpk, rfl⟩
  · have hcfg₄ : s₄.records.tokenConfigs (.poolState p.zkbtcMint, p.zkbtcMint) = some tc := by
      rw [hrec₄]
      exact hcfg
    have hrec₅ : (s₄.putTokenConfig (tc.owe shielded fee) a.tokenConfig.key).records =
        s₄.records.putTokenConfig (.poolState p.zkbtcMint, p.zkbtcMint) (tc.owe shielded fee) := by
      rw [hck]
      exact records_putTokenConfig (k := (.poolState p.zkbtcMint, p.zkbtcMint)) hcfg₄ _
    rw [countDeposit_ok hp', hpk, records_putPool (o := p), hrec₅, hrec₄]
    · rfl
    · rw [hrec₅, hrec₄]
      exact hpool

/-! ### The four entries -/

/-- What the data of a deposit says, with or without a tweak. -/
def depositInput (tweaked : Bool) (d : List UInt8) :
    Except ProgramError (CompleteDepositData × DepositBinding) :=
  if tweaked then verifyDepositData d
  else do
    let ix ← CompleteDepositData.fromBytes d
    return (ix, .OpReturn)

lemma processCompleteDeposit_ok (h : processCompleteDeposit E s c = .ok s') :
    ∃ ix binding, depositInput false c.data = .ok (ix, binding) ∧
      completeDepositInner E s c ix binding = .ok s' := by
  simp only [processCompleteDeposit, bind_eq_ok, exists_unit] at h
  obtain ⟨-, ix, hix, -, -, h⟩ := h
  exact ⟨ix, .OpReturn, by simp [depositInput, hix, bind, Except.bind, pure, Except.pure], h⟩

lemma processCompleteDepositPermissioned_ok (h : processCompleteDepositPermissioned E s c = .ok s') :
    ∃ ix binding, depositInput false c.data = .ok (ix, binding) ∧
      completeDepositInner E s c ix binding = .ok s' := by
  simp only [processCompleteDepositPermissioned, bind_eq_ok, exists_unit] at h
  obtain ⟨-, ix, hix, -, -, -, -, h⟩ := h
  exact ⟨ix, .OpReturn, by simp [depositInput, hix, bind, Except.bind, pure, Except.pure], h⟩

lemma processVerifyDeposit_ok (h : processVerifyDeposit E s c = .ok s') :
    ∃ ix binding, depositInput true c.data = .ok (ix, binding) ∧
      completeDepositInner E s c ix binding = .ok s' := by
  simp only [processVerifyDeposit, bind_eq_ok, exists_unit, Prod.exists] at h
  obtain ⟨-, -, ix, binding, hix, -, -, h⟩ := h
  exact ⟨ix, binding, hix, h⟩

lemma processVerifyDepositPermissioned_ok (h : processVerifyDepositPermissioned E s c = .ok s') :
    ∃ ix binding, depositInput true c.data = .ok (ix, binding) ∧
      completeDepositInner E s c ix binding = .ok s' := by
  simp only [processVerifyDepositPermissioned, bind_eq_ok, exists_unit, Prod.exists] at h
  obtain ⟨-, ix, binding, hix, -, -, -, -, h⟩ := h
  exact ⟨ix, binding, hix, h⟩

end Utxopia.Pool
