import Utxopia.Pool.Approvable
import Utxopia.Pool.Nullifiers
import Utxopia.Pool.Ragequit

/-!
Whether a pause holds up a completion.

A completion settles what was paid on Bitcoin already, so it is not to ask whether the pool is
paused. It checks everything else as if it were not, and then goes through the limits of the
signing policy, which ask.
-/

namespace Utxopia.Pool

open Utxopia.ByteString Utxopia.Check Utxopia.Run Utxopia.Runtime

variable {E : Env} {s s' : State} {c : Call}

/-! ### A completion in two parts -/

/-- What a completion has when it comes to the signing policy. -/
structure Vouched where
  pool : AccountInfo
  redemption : AccountInfo
  rentRecipient : AccountInfo
  zkbtcMint : AccountInfo
  poolVault : AccountInfo
  program : TokenProgram
  ix : CompleteRedemptionData
  p : PoolState
  r : RedemptionRequest
  state : State
  tx : ParsedTransaction
  actualReceived : ℕ
  minerFee : ℕ

/-- The checks before the signing policy: accounts, driver, pool script, receipt, light client,
payment and miner fee. -/
def vouch (E : Env) (c : Call) (s : State) : Except ProgramError Vouched := do
  c.atLeast 13
  let pool ← c.account 0
  let redemption ← c.account 1
  let authority ← c.account 2
  let rentRecipient ← c.account 3
  let verifiedTx ← c.account 4
  let lightClient ← c.account 5
  let txBuffer ← c.account 6
  let zkbtcMint ← c.account 7
  let poolVault ← c.account 8
  let tokenProgram ← c.account 9
  let receipt ← c.account 10
  let poolConfig ← c.account 12
  let ix ← CompleteRedemptionData.fromBytes c.data
  validateSigner authority
  validateProgramOwner E s c pool
  validateRedemptionPda E s c redemption pool
  validateAccountWritable receipt
  require (c.ownedBy verifiedTx.key E.btcLightClientId) UTXOpiaError.InvalidAccountOwner
  require (c.ownedBy lightClient.key E.btcLightClientId) UTXOpiaError.InvalidAccountOwner
  validateTokenOwner s c zkbtcMint
  validateTokenOwner s c poolVault
  let program ← validateAnyTokenProgramKey tokenProgram
  validateAccountWritable pool
  validateAccountWritable redemption
  validateAccountWritable zkbtcMint
  validateAccountWritable poolVault
  let p ← readPool s pool
  let r ← readRedemption s redemption
  redemptionDriverIsAllowed authority.key p.authority r.requester
  checkPoolScript E c s pool poolConfig ix.poolScript
  let s ← createCompletionReceipt E s receipt ix.btcTxid
  require (r.status = .Processing) UTXOpiaError.InvalidRedemptionState
  checkSpv E c verifiedTx lightClient ix.btcTxid none requiredConfirmations .RedemptionSpvFailed
  let tx ← readBufferedTx E c txBuffer ix.btcTxid ix.txSize .RedemptionSpvFailed
  let actualReceived ← checkPayment tx r ix.poolScript
  let minerFee ← checkMinerFee tx r
  return ⟨pool, redemption, rentRecipient, zkbtcMint, poolVault, program, ix, p, r, s, tx,
    actualReceived, minerFee⟩

/-- What follows the signing policy: burning, the change, the reserved outputs and the books. -/
def settle (E : Env) (c : Call) (v : Vouched) : Except ProgramError State := do
  let (burnAmount, protocolRevenue) ← redemptionAccounting v.r.amountSats v.actualReceived v.minerFee
  require (v.pool.key = .poolState v.zkbtcMint.key) .Cpi
  let s ← burnToken v.state v.program v.zkbtcMint.key v.poolVault.key v.pool.key burnAmount
  let (s, change) ← createChange E c s v.pool v.tx v.ix.btcTxid v.ix.poolScript
  require (v.ix.consumedUtxoCount ≤ maxConsumedUtxos) .InvalidInstructionData
  require (v.ix.consumedUtxoCount = v.r.reservedCount) UTXOpiaError.InvalidUtxo
  let consumedStart := if v.ix.poolScript = [] then 13 else 14
  let tokenConfig ← c.account (consumedStart + v.ix.consumedUtxoCount)
  let tc ← readRedemptionToken E c s v.pool v.zkbtcMint v.poolVault tokenConfig v.r.tokenId
  let s ← loop
    (consumeUtxo E c (redemptionReservationKey E v.redemption.key) v.tx v.rentRecipient.key) s
    ((c.accounts.drop consumedStart).take v.ix.consumedUtxoCount)
  require (v.tx.inputs.length = v.ix.consumedUtxoCount) UTXOpiaError.RedemptionOutputMismatch
  let p ← settlePool v.p burnAmount protocolRevenue change
  let s := s.putPool
    { p with
      pendingRedemptions := p.pendingRedemptions - 1
      lastUpdate := c.unixTimestamp }
    v.pool.key
  let tc ← addRevenue tc protocolRevenue
  let s := s.putTokenConfig tc tokenConfig.key
  return closeRedemption s v.redemption.key v.rentRecipient.key

/-- The policy and what follows it. -/
def gated (E : Env) (c : Call) (v : Vouched) : Except ProgramError State := do
  checkRedemptionSigning v.p v.r.amountSats v.minerFee
  settle E c v

/-- **Only the signing policy asks**: a completion is its two parts with the policy between. -/
theorem processCompleteRedemption_eq (E : Env) (c : Call) (s : State) :
    processCompleteRedemption E c s = vouch E c s >>= gated E c := by
  simp only [processCompleteRedemption, vouch, gated, settle, bind_assoc, pure_bind]

/-! ### Two states that differ in who is paused -/

def PoolState.unpaused (p : PoolState) : PoolState := { p with paused := false }

/-- A state without what says whether pools are paused. -/
def State.unpaused (s : State) : State :=
  { s with pools := s.pools.map (Account.map PoolState.unpaused) rfl }

/-- Both fail, for one reason, or both succeed and differ in who is paused only. -/
inductive SameButPause : Except ProgramError State → Except ProgramError State → Prop
  | failed (e : ProgramError) : SameButPause (.error e) (.error e)
  | succeeded {s₁ s₂ : State} (h : s₁.unpaused = s₂.unpaused) : SameButPause (.ok s₁) (.ok s₂)

lemma sameButPause_of_map {x y : Except ProgramError State}
    (h : State.unpaused <$> x = State.unpaused <$> y) : SameButPause x y := by
  cases x with
  | error e =>
    cases y with
    | error e' => exact Except.error.inj h ▸ .failed e
    | ok s₂ => exact absurd h (by simp [Functor.map, Except.map])
  | ok s₁ =>
    cases y with
    | error e' => exact absurd h (by simp [Functor.map, Except.map])
    | ok s₂ => exact .succeeded (Except.ok.inj h)

/-! ### What the checks do not see -/

lemma poolAt_unpaused (a : Addr) : s.unpaused.poolAt a = (s.poolAt a).map PoolState.unpaused := by
  cases a with
  | poolState m => exact Account.live?_map ..
  | _ => rfl

lemma readPool_unpaused (info : AccountInfo) :
    readPool s.unpaused info = PoolState.unpaused <$> readPool s info := by
  rw [readPool, readPool, poolAt_unpaused]
  cases s.poolAt info.key <;> rfl

section Reads

variable (info pool : AccountInfo)

@[simp] lemma ownerOf_unpaused (a : Addr) : s.unpaused.ownerOf E c a = s.ownerOf E c a := by
  cases a <;> rfl

@[simp] lemma validateProgramOwner_unpaused :
    validateProgramOwner E s.unpaused c info = validateProgramOwner E s c info := by
  simp only [validateProgramOwner, ownerOf_unpaused]

@[simp] lemma validateTokenOwner_unpaused :
    validateTokenOwner s.unpaused c info = validateTokenOwner s c info := rfl

@[simp] lemma validatePoolStatePda_unpaused :
    validatePoolStatePda E s.unpaused c pool = validatePoolStatePda E s c pool := by
  simp only [validatePoolStatePda, validateProgramOwner_unpaused, readPool_unpaused, bind_map_left]
  rfl

@[simp] lemma readRedemption_unpaused : readRedemption s.unpaused info = readRedemption s info := rfl

@[simp] lemma validateRedemptionPda_unpaused :
    validateRedemptionPda E s.unpaused c info pool = validateRedemptionPda E s c info pool := by
  simp only [validateRedemptionPda, validateProgramOwner_unpaused, validatePoolStatePda_unpaused,
    readRedemption_unpaused]

@[simp] lemma checkPoolScript_unpaused (poolScript : List UInt8) :
    checkPoolScript E c s.unpaused pool info poolScript = checkPoolScript E c s pool info poolScript := by
  have hconfig : s.unpaused.poolConfigAt info.key = s.poolConfigAt info.key := rfl
  simp only [checkPoolScript, validatePoolConfigPda, validateProgramOwner_unpaused,
    validatePoolStatePda_unpaused, hconfig]

lemma createCompletionReceipt_unpaused (txid : Hash) :
    createCompletionReceipt E s.unpaused info txid =
      State.unpaused <$> createCompletionReceipt E s info txid := by
  simp only [createCompletionReceipt, map_bind, map_pure]
  rfl

@[simp] lemma readRedemptionToken_unpaused (mint vault tokenConfig : AccountInfo) (tokenId : Hash) :
    readRedemptionToken E c s.unpaused pool mint vault tokenConfig tokenId =
      readRedemptionToken E c s pool mint vault tokenConfig tokenId := by
  have hread : readTokenConfig s.unpaused tokenConfig = readTokenConfig s tokenConfig := rfl
  simp only [readRedemptionToken, validateProgramOwner_unpaused, hread]

end Reads

def Vouched.unpaused (v : Vouched) : Vouched :=
  { v with p := v.p.unpaused, state := v.state.unpaused }

/-- **The checks** do not ask whether the pool is paused. -/
theorem vouch_unpaused : vouch E c s.unpaused = Vouched.unpaused <$> vouch E c s := by
  simp only [vouch, validateProgramOwner_unpaused, validateRedemptionPda_unpaused,
    validateTokenOwner_unpaused, readPool_unpaused, bind_map_left, readRedemption_unpaused,
    checkPoolScript_unpaused, createCompletionReceipt_unpaused, map_bind, map_pure]
  rfl

/-! ### What a completion writes -/

lemma unpaused_setPool (s : State) (m : Addr) (acc : Account PoolState) :
    ({ s with pools := s.pools.set m acc } : State).unpaused =
      { s.unpaused with pools := s.unpaused.pools.set m (acc.map PoolState.unpaused) } :=
  congrArg (fun pools => { s.unpaused with pools := pools }) (Store.map_set s.pools m acc)

lemma unpaused_putPool (s : State) (p : PoolState) (a : Addr) :
    (s.putPool p a).unpaused = s.unpaused.putPool p.unpaused a := by
  cases a with
  | poolState m => exact unpaused_setPool ..
  | _ => rfl

lemma unpaused_putTokenConfig (s : State) (tc : TokenConfig) (a : Addr) :
    (s.putTokenConfig tc a).unpaused = s.unpaused.putTokenConfig tc a := by
  cases a <;> rfl

lemma unpaused_fund (s : State) (n : ℕ) (a : Addr) :
    (s.fund n a).unpaused = s.unpaused.fund n a := by
  cases a with
  | poolState m => exact unpaused_setPool ..
  | _ => rfl

lemma burnToken_unpaused (program : TokenProgram) (mint src authority : Addr) (amount : ℕ) :
    burnToken s.unpaused program mint src authority amount =
      State.unpaused <$> burnToken s program mint src authority amount := by
  simp only [burnToken, map_bind, map_pure]
  rfl

lemma createChange_unpaused (pool : AccountInfo) (tx : ParsedTransaction) (txid : Hash)
    (poolScript : List UInt8) : createChange E c s.unpaused pool tx txid poolScript =
      (fun x => (x.1.unpaused, x.2)) <$> createChange E c s pool tx txid poolScript := by
  unfold createChange
  split_ifs
  · rfl
  · cases tx.findOutputByScript poolScript with
    | none => rfl
    | some o =>
      simp only [createUtxo, map_bind, map_pure, bind_assoc, pure_bind]
      rfl

lemma closeUtxo_unpaused (s : State) (utxo recipient : Addr) :
    closeUtxo s.unpaused utxo recipient = (closeUtxo s utxo recipient).unpaused := by
  cases utxo with
  | utxo pool o =>
    simp only [closeUtxo, unpaused_fund]
    rfl
  | _ => rfl

lemma closeRedemption_unpaused (s : State) (redemption recipient : Addr) :
    closeRedemption s.unpaused redemption recipient =
      (closeRedemption s redemption recipient).unpaused := by
  cases redemption with
  | redemption pool requester nonce =>
    simp only [closeRedemption, unpaused_fund]
    rfl
  | _ => rfl

lemma consumeUtxo_unpaused (key : ℕ) (tx : ParsedTransaction) (recipient : Addr) (s : State)
    (info : AccountInfo) : consumeUtxo E c key tx recipient s.unpaused info =
      State.unpaused <$> consumeUtxo E c key tx recipient s info := by
  have hread : s.unpaused.utxoAt info.key = s.utxoAt info.key := rfl
  simp only [consumeUtxo, validateProgramOwner_unpaused, hread, map_bind, map_pure, closeUtxo_unpaused]

lemma settlePool_unpaused (p : PoolState) (burnAmount protocolRevenue : ℕ) (change : Option ℕ) :
    settlePool p.unpaused burnAmount protocolRevenue change =
      PoolState.unpaused <$> settlePool p burnAmount protocolRevenue change := by
  have hburnt : p.unpaused.addBurned burnAmount = PoolState.unpaused <$> p.addBurned burnAmount := by
    simp only [PoolState.addBurned, map_bind, map_pure]
    rfl
  have hfee : ∀ q : PoolState, q.unpaused.addFeePool protocolRevenue =
      PoolState.unpaused <$> q.addFeePool protocolRevenue := fun q => by
    simp only [PoolState.addFeePool, map_bind, map_pure]
    rfl
  have hutxo : ∀ (q : PoolState) (amount : ℕ), q.unpaused.addUtxo amount =
      PoolState.unpaused <$> q.addUtxo amount := fun q amount => by
    simp only [PoolState.addUtxo, PoolState.addUtxos, map_bind, map_pure]
    rfl
  simp only [settlePool, hburnt, bind_map_left, map_bind]
  refine bind_congr fun q => ?_
  split_ifs
  · cases change with
    | none => simp only [hfee, bind_map_left, map_bind, map_pure]
    | some amount => simp only [hfee, hutxo, bind_map_left, map_bind]
  · cases change with
    | none => rfl
    | some amount => exact hutxo q amount

/-- **The books** of a completion do not depend on who is paused. -/
theorem settle_unpaused (v : Vouched) :
    settle E c v.unpaused = State.unpaused <$> settle E c v := by
  obtain ⟨pool, redemption, rent, mint, vault, program, ix, p, r, s, tx, received, fee⟩ := v
  simp only [Vouched.unpaused, settle, map_bind]
  refine bind_congr fun amounts => ?_
  simp only [burnToken_unpaused, createChange_unpaused, readRedemptionToken_unpaused,
    loop_map (consumeUtxo_unpaused _ tx rent.key), settlePool_unpaused, bind_map_left,
    map_pure, ← closeRedemption_unpaused, unpaused_putTokenConfig, unpaused_putPool]
  rfl

/-! ### Who asks -/

/-- The flag of the pool that the call names. -/
def pausedFor (c : Call) (s : State) : Option Bool :=
  c.accounts[0]?.bind fun pool => (s.poolAt pool.key).map PoolState.paused

/-- The call gets as far as the signing policy. -/
def ComesToPolicy (E : Env) (c : Call) (s : State) : Prop := ∃ v, vouch E c s = .ok v

lemma pausedFor_of_vouch {v : Vouched} (h : vouch E c s = .ok v) :
    pausedFor c s = some v.p.paused := by
  simp only [vouch, bind_eq_ok, exists_unit, pure_eq_ok] at h
  obtain ⟨-, pool, hpool, redemption, -, authority, -, rent, -, vt, -, lc, -, buffer, -, h⟩ := h
  obtain ⟨mint, -, vault, -, tp, -, receipt, -, config, -, ix, -, -, -, -, -, -, -, -, -, h⟩ := h
  obtain ⟨program, -, -, -, -, -, p, hp, r, -, -, -, s', -, -, -, tx, -, received, -, fee, h⟩ := h
  obtain ⟨-, rfl⟩ := h
  rw [readPool, orElse_eq_ok] at hp
  simp only [pausedFor, account_ok.mp hpool, Option.bind_some, hp, Option.map_some]

/-- The policy lets nothing through while the pool is paused. -/
lemma checkRedemptionSigning_paused {p : PoolState} (h : p.paused = true) (amount fee : ℕ) :
    checkRedemptionSigning p amount fee = .error (.Custom .PoolPaused) := by
  simp [checkRedemptionSigning, require, h, bind, Except.bind]

/-- A pool that is not paused is not refused as paused. -/
lemma checkRedemptionSigning_unpaused {p : PoolState} (h : p.paused = false) (amount fee : ℕ) :
    checkRedemptionSigning p amount fee ≠ .error (.Custom .PoolPaused) := by
  intro hp
  simp [checkRedemptionSigning, bind_eq_error, require_eq_error, h] at hp

/-! After the policy every refusal has another reason. -/

lemma account_ne_paused (i : ℕ) : c.account i ≠ .error (.Custom .PoolPaused) :=
  orElse_ne_error (by decide)

lemma writable_ne_paused (info : AccountInfo) :
    validateAccountWritable info ≠ .error (.Custom .PoolPaused) := require_ne_error (by decide)

lemma owner_ne_paused (info : AccountInfo) :
    validateProgramOwner E s c info ≠ .error (.Custom .PoolPaused) := require_ne_error (by decide)

lemma createOrClaimSized_ne_error {α : Type} {fits : α → Bool} {acc : Account α} {lamports : ℕ}
    {e e' : ProgramError} (he : e ≠ e') : createOrClaimSized fits acc lamports e ≠ .error e' := by
  have hfresh : createAccount acc lamports e ≠ .error e' :=
    bind_ne_error (require_ne_error he) fun _ =>
      bind_ne_error (require_ne_error he) fun _ => ok_ne_error
  have hempty : ∀ acc : Account α, allocateIfEmpty acc e ≠ .error e' := fun acc => by
    unfold allocateIfEmpty
    split_ifs
    · exact bind_ne_error (require_ne_error he) fun _ => ok_ne_error
    · exact ok_ne_error
  have hforeign : ∀ acc : Account α, assignIfForeign acc e ≠ .error e' := fun acc => by
    unfold assignIfForeign
    split_ifs
    · exact bind_ne_error (require_ne_error he) fun _ => ok_ne_error
    · exact ok_ne_error
  have hclaim : createOrClaim acc lamports e ≠ .error e' := by
    unfold createOrClaim
    split_ifs
    · exact hfresh
    · exact bind_ne_error (hempty _) hforeign
  unfold createOrClaimSized
  cases acc.data with
  | empty | blank => exact hclaim
  | live a | closed a => exact bind_ne_error (require_ne_error he) fun _ => hclaim

lemma createChange_ne_paused {pool : AccountInfo} {tx : ParsedTransaction} {txid : Hash}
    {poolScript : List UInt8} :
    createChange E c s pool tx txid poolScript ≠ .error (.Custom .PoolPaused) := by
  unfold createChange
  split_ifs
  · exact ok_ne_error
  · cases tx.findOutputByScript poolScript with
    | none => exact ok_ne_error
    | some o =>
      exact bind_ne_error (account_ne_paused 13) fun info =>
        bind_ne_error (require_ne_error (by decide)) fun _ =>
        bind_ne_error (writable_ne_paused info) fun _ =>
        bind_ne_error (bind_ne_error (createOrClaimSized_ne_error (by decide)) fun _ => ok_ne_error)
          fun _ => ok_ne_error

lemma readRedemptionToken_ne_paused {pool mint vault tokenConfig : AccountInfo} {tokenId : Hash} :
    readRedemptionToken E c s pool mint vault tokenConfig tokenId ≠ .error (.Custom .PoolPaused) :=
  bind_ne_error (owner_ne_paused _) fun _ => bind_ne_error (writable_ne_paused _) fun _ =>
    bind_ne_error (orElse_ne_error (by decide)) fun _ =>
    bind_ne_error (require_ne_error (by decide)) fun _ => ok_ne_error

lemma consumeUtxo_ne_paused (key : ℕ) (tx : ParsedTransaction) (recipient : Addr) (s : State)
    (info : AccountInfo) : consumeUtxo E c key tx recipient s info ≠ .error (.Custom .PoolPaused) :=
  bind_ne_error (owner_ne_paused _) fun _ => bind_ne_error (writable_ne_paused _) fun _ =>
    bind_ne_error (orElse_ne_error (by decide)) fun _ =>
    bind_ne_error (require_ne_error (by decide)) fun _ =>
    bind_ne_error (require_ne_error (by decide)) fun _ =>
    bind_ne_error (require_ne_error (by decide)) fun _ => ok_ne_error

lemma burnToken_ne_paused {program : TokenProgram} {mint src authority : Addr} {amount : ℕ} :
    burnToken s program mint src authority amount ≠ .error (.Custom .PoolPaused) :=
  bind_ne_error (orElse_ne_error (by decide)) fun _ =>
    bind_ne_error (require_ne_error (by decide)) fun _ =>
    bind_ne_error (require_ne_error (by decide)) fun _ =>
    bind_ne_error (require_ne_error (by decide)) fun _ => ok_ne_error

lemma settlePool_ne_paused {p : PoolState} {burn revenue : ℕ} {change : Option ℕ} :
    settlePool p burn revenue change ≠ .error (.Custom .PoolPaused) := by
  refine bind_ne_error (bind_ne_error checkedAdd_ne_custom fun _ => ok_ne_error) fun q => ?_
  cases change with
  | none =>
    split_ifs
    · exact bind_ne_error (bind_ne_error checkedAdd_ne_custom fun _ => ok_ne_error)
        fun _ => ok_ne_error
    · exact ok_ne_error
  | some amount =>
    have hadd : ∀ q : PoolState, q.addUtxo amount ≠ .error (.Custom .PoolPaused) := fun _ =>
      bind_ne_error checkedAdd_ne_custom fun _ => bind_ne_error checkedAdd_ne_custom fun _ => ok_ne_error
    split_ifs
    · exact bind_ne_error (bind_ne_error checkedAdd_ne_custom fun _ => ok_ne_error) hadd
    · exact hadd q

/-- **After the policy** no call is refused as paused. -/
theorem settle_ne_paused (v : Vouched) : settle E c v ≠ .error (.Custom .PoolPaused) := by
  have hrevenue : ∀ (tc : TokenConfig) (revenue : ℕ),
      addRevenue tc revenue ≠ .error (.Custom .PoolPaused) := fun tc revenue => by
    unfold addRevenue
    split_ifs
    · exact bind_ne_error checkedAdd_ne_custom fun _ => ok_ne_error
    · exact ok_ne_error
  refine bind_ne_error (bind_ne_error checkedAdd_ne_custom fun _ =>
    bind_ne_error (require_ne_error (by decide)) fun _ => ok_ne_error) fun amounts => ?_
  refine bind_ne_error (require_ne_error (by decide)) fun _ => ?_
  refine bind_ne_error burnToken_ne_paused fun s₁ => ?_
  refine bind_ne_error createChange_ne_paused fun x => ?_
  refine bind_ne_error (require_ne_error (by decide)) fun _ => ?_
  refine bind_ne_error (require_ne_error (by decide)) fun _ => ?_
  refine bind_ne_error (account_ne_paused _) fun tokenConfig => ?_
  refine bind_ne_error readRedemptionToken_ne_paused fun tc => ?_
  refine bind_ne_error (loop_ne_error (consumeUtxo_ne_paused _ _ _) _ _) fun s₂ => ?_
  refine bind_ne_error (require_ne_error (by decide)) fun _ => ?_
  exact bind_ne_error settlePool_ne_paused fun p => bind_ne_error (hrevenue tc _) fun _ => ok_ne_error

/-! ### The claim of the comment -/

lemma unpaused_inj {p q : PoolState} (h : p.unpaused = q.unpaused) (hpaused : p.paused = q.paused) :
    p = q := by
  have hrestore : ∀ p : PoolState, p = { p.unpaused with paused := p.paused } := fun _ => rfl
  rw [hrestore p, h, hpaused, ← hrestore q]

lemma gated_paused {v : Vouched} (h : v.p.paused = true) :
    gated E c v = .error (.Custom .PoolPaused) := by
  rw [gated, checkRedemptionSigning_paused h]
  rfl

lemma gated_unpaused {v : Vouched} (h : v.p.paused = false) :
    gated E c v ≠ .error (.Custom .PoolPaused) :=
  bind_ne_error (checkRedemptionSigning_unpaused h _ _) fun _ => settle_ne_paused v

lemma SameButPause.error_left {x y : Except ProgramError State} {e : ProgramError}
    (h : SameButPause x y) (hx : x = .error e) : y = .error e := by
  cases h with
  | failed e' => exact hx
  | succeeded hs => exact absurd hx (by simp)

lemma SameButPause.error_right {x y : Except ProgramError State} {e : ProgramError}
    (h : SameButPause x y) (hy : y = .error e) : x = .error e := by
  cases h with
  | failed e' => exact hy
  | succeeded hs => exact absurd hy (by simp)

/-- **Completions and pauses**: of two states that differ only in which pools are paused, a
completion does the same in both if and only if its pool is paused in both or in neither, or one of the
checks before the signing policy refuses it. -/
theorem completion_unpaused_iff (h : s.unpaused = s'.unpaused) :
    SameButPause (processCompleteRedemption E c s) (processCompleteRedemption E c s') ↔
      pausedFor c s = pausedFor c s' ∨ ¬ ComesToPolicy E c s := by
  have hvouch : Vouched.unpaused <$> vouch E c s = Vouched.unpaused <$> vouch E c s' := by
    rw [← vouch_unpaused, h, vouch_unpaused]
  rw [processCompleteRedemption_eq, processCompleteRedemption_eq]
  cases hs : vouch E c s with
  | error e =>
    rw [hs] at hvouch
    cases hs' : vouch E c s' with
    | error e' =>
      rw [hs'] at hvouch
      obtain rfl : e = e' := Except.error.inj hvouch
      exact iff_of_true (.failed e) (.inr fun ⟨v, hv⟩ => by simp [hs] at hv)
    | ok v' =>
      rw [hs'] at hvouch
      exact absurd hvouch (by simp [Functor.map, Except.map])
  | ok v =>
    rw [hs] at hvouch
    cases hs' : vouch E c s' with
    | error e' =>
      rw [hs'] at hvouch
      exact absurd hvouch (by simp [Functor.map, Except.map])
    | ok v' =>
      rw [hs'] at hvouch
      have hv : v.unpaused = v'.unpaused := Except.ok.inj hvouch
      have hp : v.p.unpaused = v'.p.unpaused := congrArg Vouched.p hv
      have hstate : settle E c v.unpaused = settle E c v'.unpaused := congrArg (settle E c) hv
      obtain ⟨hr, hfee⟩ : v.r = v'.r ∧ v.minerFee = v'.minerFee := by
        obtain ⟨⟩ := v
        obtain ⟨⟩ := v'
        simp only [Vouched.unpaused, Vouched.mk.injEq] at hv
        exact ⟨hv.2.2.2.2.2.2.2.2.1, hv.2.2.2.2.2.2.2.2.2.2.2.2⟩
      have hcomes : ComesToPolicy E c s := ⟨v, hs⟩
      rw [pausedFor_of_vouch hs, pausedFor_of_vouch hs', Option.some_inj]
      refine ⟨fun hsame => .inl ?_, fun hor => ?_⟩
      · -- the paused one is refused as paused, the other one is not
        cases hpaused : v.p.paused <;> cases hpaused' : v'.p.paused
        · rfl
        · exact absurd (hsame.error_right (gated_paused hpaused')) (gated_unpaused hpaused)
        · exact absurd (hsame.error_left (gated_paused hpaused)) (gated_unpaused hpaused')
        · rfl
      · have hp' : v.p = v'.p := unpaused_inj hp (hor.resolve_right (not_not.mpr hcomes))
        refine sameButPause_of_map ?_
        change State.unpaused <$> gated E c v = State.unpaused <$> gated E c v'
        simp only [gated, map_bind, ← settle_unpaused, hp', hr, hfee, hstate]

/-! ### Runs -/

namespace Regtest

/-- The same state with every pool paused. -/
def allPaused (s : State) : State :=
  { s with pools := s.pools.map (Account.map fun p => { p with paused := true }) rfl }

lemma unpaused_allPaused (s : State) : (allPaused s).unpaused = s.unpaused := by
  have hpools : (allPaused s).pools.map (Account.map PoolState.unpaused) rfl =
      s.pools.map (Account.map PoolState.unpaused) rfl := by
    refine Store.ext (fun m => ?_) rfl
    change ((s.pools.get m).map _).map PoolState.unpaused = (s.pools.get m).map _
    unfold Account.map
    congr 1
    cases (s.pools.get m).data <;> rfl
  exact congrArg (fun pools => { s.unpaused with pools := pools }) hpools

/-- A call as the handler of its instruction gets it. -/
def handed : Label → Call
  | .call c => { c with data := c.data.tail }
  | _ => ⟨[], [], 0, 0, fun _ => ⟨zeros 32, false, []⟩, false⟩

/-- The completion of a payment without change. -/
def settlingCall : Call := handed (completeRedemption 7 paymentTx [sweptOutput])

/-- Refused while the request waits for its outputs; then it goes through, unless paused. -/
lemma run_settling : (exec (step env) (fun _ _ => true) .genesis (sweptTwice.take 7)).any
    (fun s => !(vouch env settlingCall s).toBool &&
      (step env s (markProcessing 7 [sweptOutput] 0)).toOption.any fun s' =>
        (processCompleteRedemption env settlingCall s').toBool &&
          !(processCompleteRedemption env settlingCall (allPaused s')).toBool) = true := by
  decide +kernel

end Regtest

open Regtest in
/-- **A pause holds up a completion**: a payment that settles while the pool is open is refused once
it is paused. -/
theorem paused_completion_refused : ∃ (tr : List (Step State Label)) (s s' : State) (c : Call),
    Reaches (step env) (fun _ _ => True) .genesis tr s ∧ s.unpaused = s'.unpaused ∧
      ¬ SameButPause (processCompleteRedemption env c s) (processCompleteRedemption env c s') := by
  obtain ⟨s₀, hs₀, hrun⟩ := (Option.any_eq_true _ _).mp run_settling
  obtain ⟨tr, -, run⟩ := reaches_of_exec (fun _ _ _ => trivial) hs₀
  obtain ⟨s, hs, hrun⟩ := (Option.any_eq_true _ _).mp (Bool.and_eq_true .. ▸ hrun).2
  rw [Bool.and_eq_true, Bool.not_eq_true'] at hrun
  refine ⟨_, s, allPaused s, settlingCall, run.call trivial (toOption_eq_some.mp hs),
    (unpaused_allPaused s).symm, fun hsame => ?_⟩
  obtain ⟨hopen, hpaused⟩ := hrun
  cases hx : processCompleteRedemption env settlingCall s with
  | error e => exact absurd hopen (by simp [hx, Except.toBool])
  | ok t =>
    rw [hx] at hsame
    cases hy : processCompleteRedemption env settlingCall (allPaused s) with
    | error e =>
      rw [hy] at hsame
      exact absurd (hsame.error_right rfl) (by simp)
    | ok t' => exact absurd hpaused (by simp [hy, Except.toBool])

open Regtest in
/-- A completion before its outputs are reserved: refused for one reason, paused or not. -/
theorem completion_unpaused_iff_pending : ∃ s, SameButPause
    (processCompleteRedemption env settlingCall s)
    (processCompleteRedemption env settlingCall (allPaused s)) := by
  obtain ⟨s, -, hrun⟩ := (Option.any_eq_true _ _).mp run_settling
  refine ⟨s, (completion_unpaused_iff (unpaused_allPaused s).symm).mpr (.inr ?_)⟩
  rintro ⟨v, hv⟩
  exact absurd (Bool.and_eq_true .. ▸ hrun).1 (by simp [hv, Except.toBool])

end Utxopia.Pool
