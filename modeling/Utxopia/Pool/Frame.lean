import Utxopia.Lib.Ensures
import Utxopia.Pool.Effect

/-!
What most instructions leave alone.

Only deposits, markings, cancellations and completions write the accounts of the pool's outputs, and
only three instructions write verifying keys. A closed account keeps its bytes until it is removed, so
the frame speaks of the bytes of the outputs and not of their records only.
-/

namespace Utxopia.Pool

open Utxopia.Check Utxopia.Runtime

/-- The registry at an address, if it is initialized. -/
def State.vkRegistryAt? (s : State) (k : ℕ × ℕ) : Option VkRegistry := (s.vkRegistries.get k).live?

/-- The bytes of the outputs' accounts and the verifying keys. -/
structure Untouched where
  outputs : Addr × Outpoint → Data UtxoRecord
  keys : ℕ × ℕ → Option VkRegistry

def State.untouched (s : State) : Untouched := ⟨fun k => (s.utxos.get k).data, s.vkRegistryAt?⟩

/-- The computation, if it succeeds, leaves these. -/
abbrev LeavesAlone (b : Untouched) (x : Except ProgramError State) : Prop :=
  Ensures (fun s => s.untouched = b) x

variable {E : Env} {s s' : State} {c : Call} {b : Untouched} {pool tree : AccountInfo}

/-! ### Writes -/

lemma untouched_putPool (p : PoolState) (a : Addr) : (s.putPool p a).untouched = s.untouched := by
  cases a <;> rfl

lemma untouched_putTree (t : CommitmentTree) (a : Addr) : (s.putTree t a).untouched = s.untouched := by
  cases a <;> rfl

lemma untouched_putTokenConfig (tc : TokenConfig) (a : Addr) :
    (s.putTokenConfig tc a).untouched = s.untouched := by
  cases a <;> rfl

lemma untouched_putRedemption (r : RedemptionRequest) (a : Addr) :
    (s.putRedemption r a).untouched = s.untouched := by
  cases a <;> rfl

lemma untouched_putPolicyApproval (p : PolicyApproval) (a : Addr) :
    (s.putPolicyApproval p a).untouched = s.untouched := by
  cases a <;> rfl

lemma untouched_note (events : List Event) : (s.note events).untouched = s.untouched := rfl

/-- Lamports are not bytes. -/
lemma untouched_fund (n : ℕ) (a : Addr) : (s.fund n a).untouched = s.untouched := by
  cases a with
  | utxo pool o =>
    refine congrArg (Untouched.mk · _) (funext fun k => ?_)
    change ((s.utxos.set (pool, o) (addLamports n (s.utxos.get (pool, o)))).get k).data = _
    rw [Store.get_set]
    split_ifs with h
    · rw [h]
      rfl
    · rfl
  | vkRegistry n' m =>
    refine congrArg (Untouched.mk _) (funext fun k => ?_)
    change ((s.vkRegistries.set (n', m) (addLamports n (s.vkRegistries.get (n', m)))).get k).live? = _
    rw [Store.get_set]
    split_ifs with h
    · rw [h]
      rfl
    · rfl
  | _ => rfl

/-! ### Parts of instructions -/

lemma insertOne_leaves {i : ℕ} {commitment : Hash} (h : s.untouched = b) :
    LeavesAlone b (insertOne E s pool tree i commitment) := by
  unfold insertOne
  exact .bind fun t _ => .bind fun x _ => .pure ((untouched_putTree ..).trans h)

lemma insertOutputs_leaves {i : ℕ} {commitments : List Hash} (h : s.untouched = b) :
    LeavesAlone b (insertOutputs E s pool tree i commitments) := by
  unfold insertOutputs
  refine .bind fun t _ => .ite (fun _ => .pure h) fun _ => ?_
  exact .bind fun x _ => .pure ((untouched_putTree ..).trans h)

lemma createNullifier_leaves {a : Addr} {i : ℕ} {item : AccountInfo × Hash} (h : s.untouched = b) :
    LeavesAlone b (createNullifier E a i s item) := by
  unfold createNullifier
  repeat refine .bind fun _ _ => ?_
  exact .pure h

lemma createNullifierRecords_leaves {start i : ℕ} {nullifiers : List Hash}
    {accounting : NullifierAccounting} (h : s.untouched = b) :
    LeavesAlone b (createNullifierRecords E s c start nullifiers pool i accounting) := by
  unfold createNullifierRecords
  refine .bind fun _ _ => .seq (.loop (fun s a hs => createNullifier_leaves hs) h) fun s₁ h₁ => ?_
  cases accounting with
  | ApplyNow => exact .bind fun p _ => .pure ((untouched_putPool ..).trans h₁)
  | DeferToQueue => exact .pure h₁

lemma transferToken_leaves {program : TokenProgram} {src dst authority : Addr} {amount : ℕ}
    (h : s.untouched = b) : LeavesAlone b (transferToken s program src dst authority amount) := by
  unfold transferToken
  repeat refine .bind fun _ _ => ?_
  exact .ite (fun _ => .pure h) fun _ => .bind fun _ _ => .pure h

lemma mintToken_leaves {program : TokenProgram} {mint dst : Addr} {amount : ℕ} (h : s.untouched = b) :
    LeavesAlone b (mintToken s program mint dst amount) := by
  unfold mintToken
  repeat refine .bind fun _ _ => ?_
  exact .pure h

lemma burnToken_leaves {program : TokenProgram} {mint src authority : Addr} {amount : ℕ}
    (h : s.untouched = b) : LeavesAlone b (burnToken s program mint src authority amount) := by
  unfold burnToken
  repeat refine .bind fun _ _ => ?_
  exact .pure h

lemma unwrapLamports_leaves {program : TokenProgram} {src dst authority : Addr} {amount : ℕ}
    (h : s.untouched = b) : LeavesAlone b (unwrapLamports s program src dst authority amount) := by
  unfold unwrapLamports
  repeat refine .bind fun _ _ => ?_
  exact .pure ((untouched_fund ..).trans h)

lemma createTree_leaves {a : Addr} {i : ℕ} (h : s.untouched = b) : LeavesAlone b (createTree E s a i) := by
  unfold createTree
  exact .bind fun acc _ => .pure h

/-! ### Pools and their settings -/

lemma initializePool_leaves {setup : Option AuditorSetup} :
    LeavesAlone s.untouched (initializePool E s c setup) := by
  unfold initializePool
  repeat refine .bind fun _ _ => ?_
  exact .pure rfl

lemma updatePool_leaves {role : PoolRole} {f : PoolState → Except ProgramError PoolState} :
    LeavesAlone s.untouched (updatePool E s c role f) := by
  unfold updatePool
  repeat refine .bind fun _ _ => ?_
  exact .pure (untouched_putPool ..)

lemma bindDwallet_leaves {a : Addr} {dwallet : Hash} (h : s.untouched = b) :
    LeavesAlone b (bindDwallet E s a dwallet) := by
  unfold bindDwallet
  refine .ite (fun _ => .bind fun acc _ => .pure h) fun _ => ?_
  repeat refine .bind fun _ _ => ?_
  exact .pure h

lemma createPoolConfig_leaves {a : Addr} {cfg : PoolConfig} (h : s.untouched = b) :
    LeavesAlone b (createPoolConfig E s a cfg) := by
  unfold createPoolConfig
  repeat refine .bind fun _ _ => ?_
  exact .pure h

lemma processSetPoolConfig_leaves : LeavesAlone s.untouched (processSetPoolConfig E s c) := by
  unfold processSetPoolConfig
  repeat first
    | refine .seq (bindDwallet_leaves rfl) fun s₁ h₁ => createPoolConfig_leaves h₁
    | refine .bind fun _ _ => ?_

lemma processRotateTree_leaves : LeavesAlone s.untouched (processRotateTree E s c) := by
  unfold processRotateTree
  repeat first
    | refine .seq (createTree_leaves rfl) fun s₁ h₁ => ?_
    | refine .bind fun _ _ => ?_
  exact .pure ((untouched_putPool ..).trans h₁)

lemma processRegisterExitDestination_leaves :
    LeavesAlone s.untouched (processRegisterExitDestination E s c) := by
  unfold processRegisterExitDestination
  repeat refine .bind fun _ _ => ?_
  exact .ite (fun _ => .bind fun _ _ => .pure rfl) fun _ => .bind fun _ _ => .pure rfl

lemma processInitializePolicyApproval_leaves :
    LeavesAlone s.untouched (processInitializePolicyApproval E s c) := by
  unfold processInitializePolicyApproval
  repeat refine .bind fun _ _ => ?_
  exact .pure rfl

lemma processPolicyApprovalDecision_leaves :
    LeavesAlone s.untouched (processPolicyApprovalDecision E s c) := by
  unfold processPolicyApprovalDecision
  repeat refine .bind fun _ _ => ?_
  exact .pure (untouched_putPolicyApproval ..)

/-- Instructions whose effect is outside the program. -/
lemma processPolicyApprovalCommit_leaves : LeavesAlone s.untouched (processPolicyApprovalCommit E s c) := by
  unfold processPolicyApprovalCommit
  repeat refine .bind fun _ _ => ?_
  exact .pure rfl

lemma processMagicblockCommit_leaves : LeavesAlone s.untouched (processMagicblockCommit E s c) := by
  unfold processMagicblockCommit
  repeat refine .bind fun _ _ => ?_
  exact .pure rfl

lemma processMagicblockPerPermission_leaves :
    LeavesAlone s.untouched (processMagicblockPerPermission E s c) := by
  unfold processMagicblockPerPermission
  repeat refine .bind fun _ _ => ?_
  exact .pure rfl

lemma processMagicblockDelegate_leaves : LeavesAlone s.untouched (processMagicblockDelegate E s c) := by
  unfold processMagicblockDelegate
  repeat refine .bind fun _ _ => ?_
  exact .pure rfl

lemma processMagicblockUndelegateCallback_leaves :
    LeavesAlone s.untouched (processMagicblockUndelegateCallback s c) := by
  unfold processMagicblockUndelegateCallback
  repeat refine .bind fun _ _ => ?_
  split
  · exact .bind fun _ _ => .pure rfl
  · exact .throw _

/-! ### Tokens and notes -/

lemma processRegisterToken_leaves : LeavesAlone s.untouched (processRegisterToken E s c) := by
  unfold processRegisterToken
  repeat refine .bind fun _ _ => ?_
  exact .pure rfl

lemma processUpdateTokenConfig_leaves : LeavesAlone s.untouched (processUpdateTokenConfig E s c) := by
  unfold processUpdateTokenConfig
  repeat refine .bind fun _ _ => ?_
  exact .pure (untouched_putTokenConfig ..)

lemma processClaimFees_leaves : LeavesAlone s.untouched (processClaimFees E s c) := by
  unfold processClaimFees
  repeat first
    | refine .seq (transferToken_leaves rfl) fun s₁ h₁ => ?_
    | refine .bind fun _ _ => ?_
  exact .pure ((untouched_putTokenConfig ..).trans h₁)

lemma recordShield_leaves {tokenConfig : AccountInfo} {npk : Hash} {depositCap received : ℕ}
    {isPoolZkbtc : Bool} (h : s.untouched = b) :
    LeavesAlone b (recordShield E s c pool tree tokenConfig npk depositCap received isPoolZkbtc) := by
  unfold recordShield
  repeat first
    | refine .seq (insertOne_leaves h) fun s₁ h₁ => ?_
    | refine .bind fun _ _ => ?_
  have hconfig := fun tc => (untouched_putTokenConfig (s := s₁) tc tokenConfig.key).trans h₁
  exact .ite (fun _ => .pure ((untouched_putPool ..).trans (hconfig _))) fun _ => .pure (hconfig _)

lemma shieldInner_leaves : LeavesAlone s.untouched (shieldInner E s c) := by
  unfold shieldInner
  repeat first
    | refine .seq (transferToken_leaves rfl) fun s₁ h₁ => .bind fun _ _ => recordShield_leaves h₁
    | refine .bind fun _ _ => ?_

lemma processShield_leaves : LeavesAlone s.untouched (processShield E s c) := by
  unfold processShield
  repeat first
    | exact shieldInner_leaves
    | refine .bind fun _ _ => ?_

lemma processShieldPermissioned_leaves : LeavesAlone s.untouched (processShieldPermissioned E s c) := by
  unfold processShieldPermissioned
  exact .bind fun _ _ => shieldInner_leaves

lemma queueOutput_leaves {plan : TransactPlan} {item : ℕ × AccountInfo × Hash} (h : s.untouched = b) :
    LeavesAlone b (queueOutput E c plan s item) := by
  unfold queueOutput
  repeat refine .bind fun _ _ => ?_
  exact .pure h

lemma processTransact_leaves : LeavesAlone s.untouched (processTransact E s c) := by
  unfold processTransact
  refine .bind fun plan _ => .seq (createNullifierRecords_leaves rfl) fun s₁ h₁ => .ite (fun _ => ?_)
    fun _ => insertOutputs_leaves h₁
  exact .bind fun start _ => .loop (fun s a hs => queueOutput_leaves hs) h₁

lemma payout_leaves {plan : UnshieldPlan} {acc : Payouts} {item : AccountInfo × ℕ}
    (h : acc.state.untouched = b) : Ensures (fun p => p.state.untouched = b) (payout plan acc item) := by
  unfold payout
  iterate 3 refine .bind fun _ _ => ?_
  exact .ite (fun _ => .seq (unwrapLamports_leaves h) fun s' hs => .pure hs) fun _ =>
    .seq (transferToken_leaves h) fun s' hs => .pure hs

lemma processUnshield_leaves : LeavesAlone s.untouched (processUnshield E s c) := by
  unfold processUnshield
  refine .bind fun plan _ => .seq (createNullifierRecords_leaves rfl) fun s₁ h₁ =>
    .seq (insertOutputs_leaves h₁) fun s₂ h₂ => .seq (.loop (I := fun p => p.state.untouched = s.untouched)
      (fun p a hp => payout_leaves hp) h₂) fun paid hpaid => ?_
  iterate 3 refine .bind fun _ _ => ?_
  have hconfig := fun tc => (untouched_putTokenConfig (s := paid.state) tc plan.tokenConfig.key).trans hpaid
  exact .ite (fun _ => .bind fun _ _ => .pure ((untouched_putPool ..).trans (hconfig _))) fun _ =>
    .pure (hconfig _)

lemma createRedemption_leaves {plan : RedeemPlan} {entry : AccountInfo × RedeemItem}
    (h : s.untouched = b) : LeavesAlone b (createRedemption E plan s entry) := by
  unfold createRedemption
  repeat refine .bind fun _ _ => ?_
  exact .pure h

lemma processRedeem_leaves : LeavesAlone s.untouched (processRedeem E s c) := by
  unfold processRedeem
  refine .bind fun plan _ => .seq (createNullifierRecords_leaves rfl) fun s₁ h₁ =>
    .seq (insertOutputs_leaves h₁) fun s₂ h₂ =>
      .seq (.loop (fun s a hs => createRedemption_leaves hs) h₂) fun s₃ h₃ => ?_
  iterate 3 refine .bind fun _ _ => ?_
  exact .pure ((untouched_putPool ..).trans ((untouched_putTokenConfig ..).trans h₃))

lemma closeLeaf_untouched (item : AccountInfo × AccountInfo) :
    (closeLeaf s item).untouched = s.untouched := by
  unfold closeLeaf
  split
  · exact untouched_fund ..
  · rfl

lemma processMergeQueuedLeaves_leaves : LeavesAlone s.untouched (processMergeQueuedLeaves E c s) := by
  unfold processMergeQueuedLeaves
  repeat refine .bind fun _ _ => ?_
  refine .pure ?_
  have hclosed : ∀ (items : List (AccountInfo × AccountInfo)) (s : State),
      (items.foldl closeLeaf s).untouched = s.untouched := by
    intro items
    induction items with
    | nil => exact fun s => rfl
    | cons item items ih => exact fun s => (ih _).trans (closeLeaf_untouched item)
  rw [hclosed]
  split_ifs
  · exact (untouched_putPool ..).trans (untouched_putTree ..)
  · exact untouched_putTree ..

lemma processApproveRedemptionSigning_leaves :
    LeavesAlone s.untouched (processApproveRedemptionSigning E s c) := by
  unfold processApproveRedemptionSigning
  repeat refine .bind fun _ _ => ?_
  exact .pure (untouched_putRedemption ..)

/-! ### Verifying keys -/

/-- The instructions that write verifying keys. -/
def Instruction.writesKeys : Instruction → Bool
  | .InitVkRegistry | .UpdateVkRegistry | .FreezeVkRegistry => true
  | _ => false

lemma outputs_putVkRegistry (v : VkRegistry) (a : Addr) :
    (s.putVkRegistry v a).untouched.outputs = s.untouched.outputs := by
  cases a <;> rfl

/-- The instructions about verifying keys leave the outputs. -/
lemma run_leaves_outputs {i : Instruction} (hi : i.writesKeys = true) :
    Ensures (fun s' => s'.untouched.outputs = s.untouched.outputs) (i.run E s c) := by
  cases i with
  | InitVkRegistry =>
    simp only [Instruction.run, processInitVkRegistry]
    repeat refine .bind fun _ _ => ?_
    exact .pure rfl
  | UpdateVkRegistry =>
    simp only [Instruction.run, processUpdateVkRegistry]
    repeat refine .bind fun _ _ => ?_
    exact .pure (outputs_putVkRegistry ..)
  | FreezeVkRegistry =>
    simp only [Instruction.run, processFreezeVkRegistry]
    repeat refine .bind fun _ _ => ?_
    exact .pure (outputs_putVkRegistry ..)
  | _ => exact absurd hi (by simp [Instruction.writesKeys])

/-! ### Outputs

What is asked of a property that the instructions about outputs keep is that it speaks of the part of a
record that is about its output, and that a credit keeps it. -/

/-- The record that the bytes spell or spelled before the account was closed. -/
def Data.record? {α : Type} : Data α → Option α
  | .live a | .closed a => some a
  | .empty | .blank => none

/-- What a record says about its output. -/
def UtxoRecord.output (u : UtxoRecord) : Hash × ℕ × ℕ × Option Hash :=
  (u.txid, u.vout, u.amountSats, u.leafCommitment)

def Untouched.record? (b : Untouched) (k : Addr × Outpoint) : Option UtxoRecord := Data.record? (b.outputs k)

def Untouched.write (b : Untouched) (k : Addr × Outpoint) (d : Data UtxoRecord) : Untouched :=
  { b with outputs := Function.update b.outputs k d }

/-- The property is about what the records say about their outputs. -/
def AboutOutputs (I : Untouched → Prop) : Prop :=
  ∀ b k d, I b →
    (∀ u, Data.record? d = some u → ∃ u₀, b.record? k = some u₀ ∧ u.output = u₀.output) →
      I (b.write k d)

/-- The property is kept when the output is recorded, with a tail only where there was one. -/
def Credits (I : Untouched → Prop) (k : Addr × Outpoint) (amount : ℕ) (leaf : Option Hash) : Prop :=
  ∀ b tail, I b → (tail.isSome → ∃ u, b.record? k = some u ∧ u.leafCommitment.isSome) →
    I (b.write k (.live (newUtxo k.2 amount (leaf <|> tail))))

variable {I : Untouched → Prop}

lemma untouched_record? (s : State) (k : Addr × Outpoint) :
    s.untouched.record? k = Data.record? (s.utxos.get k).data := rfl

lemma untouched_setUtxo (s : State) (k : Addr × Outpoint) (acc : Account UtxoRecord) :
    ({ s with utxos := s.utxos.set k acc } : State).untouched = s.untouched.write k acc.data := by
  refine congrArg (Untouched.mk · _) (funext fun j => ?_)
  rcases eq_or_ne j k with rfl | hne
  · rw [Function.update_self, Store.get_set_self]
  · rw [Function.update_of_ne hne, Store.get_set_of_ne _ _ hne]
    rfl

lemma AboutOutputs.putUtxo (hI : AboutOutputs I) (h : I s.untouched) {u u' : UtxoRecord} {a : Addr}
    (hu : s.utxoAt a = some u) (hsame : u'.output = u.output) : I (s.putUtxo u' a).untouched := by
  cases a with
  | utxo pool o =>
    unfold State.putUtxo
    rw [untouched_setUtxo]
    refine hI _ _ _ h fun v hv => ?_
    obtain rfl := Option.some_inj.mp hv
    refine ⟨u, ?_, hsame⟩
    rw [State.utxoAt, State.utxo?, Account.live?, Data.live?_eq_some] at hu
    rw [untouched_record?, hu]
    rfl
  | _ => exact absurd hu (by simp [State.utxoAt])

lemma AboutOutputs.closeUtxo (hI : AboutOutputs I) (h : I s.untouched) (a recipient : Addr) :
    I (closeUtxo s a recipient).untouched := by
  cases a with
  | utxo pool o =>
    unfold Pool.closeUtxo
    rw [untouched_fund, untouched_setUtxo]
    refine hI _ _ _ h fun v hv => ⟨v, ?_, rfl⟩
    rw [untouched_record?]
    cases hd : (s.utxos.get (pool, o)).data with
    | live u | closed u =>
      simp only [close, hd] at hv
      exact hv
    | empty | blank => exact absurd hv (by simp [close, hd, Data.record?])
  | _ => exact h

lemma createUtxo_ensures {pool : Addr} {o : Outpoint} {amount : ℕ} {leaf : Option Hash}
    (h : I s.untouched) (hnew : Credits I (pool, o) amount leaf) :
    Ensures (fun s' => I s'.untouched) (createUtxo E s pool o amount leaf) := by
  unfold createUtxo
  refine .bind fun acc hacc => .pure ?_
  rw [untouched_note, untouched_setUtxo]
  refine hnew _ (tailOf acc.data) h fun htail => ?_
  rw [createOrClaimSized_ok hacc] at htail
  rw [untouched_record?]
  cases hd : (s.utxos.get (pool, o)).data with
  | live u => exact ⟨u, rfl, by simpa [hd, tailOf] using htail⟩
  | closed u => exact ⟨u, rfl, by simpa [hd, tailOf, Data.isEmpty] using htail⟩
  | empty => exact absurd htail (by simp [hd, tailOf, Data.isEmpty])
  | blank => exact absurd htail (by simp [hd, tailOf, Data.isEmpty])

lemma reserveUtxo_ensures (hI : AboutOutputs I) {pool : Addr} {reservationKey : ℕ} {acc : Reserving}
    {info : AccountInfo} (h : I acc.state.untouched) :
    Ensures (fun acc' => I acc'.state.untouched) (reserveUtxo E c pool reservationKey acc info) := by
  unfold reserveUtxo
  refine .bind fun _ _ => .bind fun _ _ => .bind fun u hu => ?_
  repeat refine .bind fun _ _ => ?_
  exact .pure (hI.putUtxo h (orElse_eq_ok.mp hu) rfl)

lemma processMarkProcessing_ensures (hI : AboutOutputs I) (h : I s.untouched) :
    Ensures (fun s' => I s'.untouched) (processMarkProcessing E c s) := by
  unfold processMarkProcessing
  repeat first
    | refine .seq (.loop (I := fun acc : Reserving => I acc.state.untouched)
        (fun acc a hacc => reserveUtxo_ensures hI hacc) h) fun got hgot => ?_
    | refine .bind fun _ _ => ?_
  refine .pure ?_
  rwa [untouched_putRedemption, untouched_putPool]

lemma releaseUtxo_ensures (hI : AboutOutputs I) {reservationKey : ℕ} {acc : State × ℕ}
    {info : AccountInfo} (h : I acc.1.untouched) :
    Ensures (fun acc' => I acc'.1.untouched) (releaseUtxo E c reservationKey acc info) := by
  unfold releaseUtxo
  refine .bind fun _ _ => .bind fun _ _ => .bind fun u hu => ?_
  repeat refine .bind fun _ _ => ?_
  exact .pure (hI.putUtxo h (orElse_eq_ok.mp hu) rfl)

lemma releaseReserved_ensures (hI : AboutOutputs I) (h : I s.untouched) {wasProcessing : Bool}
    {reservationKey utxoCount : ℕ} : Ensures (fun acc => I acc.1.untouched)
      (releaseReserved E c s wasProcessing reservationKey utxoCount) := by
  unfold releaseReserved
  refine .ite (fun _ => ?_) fun _ => .bind fun _ _ => .pure h
  exact .loop (I := fun acc : State × ℕ => I acc.1.untouched)
    (fun acc a hacc => releaseUtxo_ensures hI hacc) h

lemma closeRedemption_untouched (a recipient : Addr) :
    (closeRedemption s a recipient).untouched = s.untouched := by
  cases a with
  | redemption pool requester nonce => exact untouched_fund ..
  | _ => rfl

lemma processCancelRedemption_ensures (hI : AboutOutputs I) (h : I s.untouched) :
    Ensures (fun s' => I s'.untouched) (processCancelRedemption E c s) := by
  unfold processCancelRedemption
  repeat first
    | refine .seq (releaseReserved_ensures hI h) fun got hgot => ?_
    | refine .seq (insertOne_leaves rfl) fun s₁ h₁ => ?_
    | refine .bind fun _ _ => ?_
  refine .pure ?_
  rw [closeRedemption_untouched, untouched_putPool, untouched_putTokenConfig, h₁]
  exact hgot

lemma createCompletionReceipt_leaves {receipt : AccountInfo} {txid : Hash} (h : s.untouched = b) :
    LeavesAlone b (createCompletionReceipt E s receipt txid) := by
  unfold createCompletionReceipt
  repeat refine .bind fun _ _ => ?_
  exact .pure h

lemma createChange_ensures {tx : ParsedTransaction} {txid : Hash} {poolScript : List UInt8}
    (h : I s.untouched) (hnew : ∀ o vout, poolScript ≠ [] →
      tx.findOutputByScript poolScript = some (o, vout) →
        Credits I (pool.key, (txid, vout)) o.value none) :
    Ensures (fun x => I x.1.untouched) (createChange E c s pool tx txid poolScript) := by
  unfold createChange
  refine .ite (fun _ => .ok h) fun hwhere => ?_
  have hscript : poolScript ≠ [] := fun heq => hwhere (.inl heq)
  split
  · rename_i o vout hfind
    refine .bind fun _ _ => .bind fun _ _ => .bind fun _ _ => ?_
    exact .seq (createUtxo_ensures h (hnew o vout hscript hfind)) fun s' hs' => .pure hs'
  · exact .ok h

lemma consumeUtxo_ensures (hI : AboutOutputs I) {reservationKey : ℕ} {tx : ParsedTransaction}
    {recipient : Addr} {info : AccountInfo} (h : I s.untouched) :
    Ensures (fun s' => I s'.untouched) (consumeUtxo E c reservationKey tx recipient s info) := by
  unfold consumeUtxo
  repeat refine .bind fun _ _ => ?_
  exact .pure (hI.closeUtxo h ..)

/-- What a completion reads of the change that it records. -/
structure ChangeFound (E : Env) (s : State) (c : Call) (pool : Addr) (ix : CompleteRedemptionData)
    (tx : ParsedTransaction) (o : TxOutput) (vout : ℕ) : Prop where
  config : ∃ cfg, s.records.poolConfigs pool = some cfg ∧ ix.poolScript = cfg.poolScript
  data : CompleteRedemptionData.fromBytes c.data = .ok ix
  read : ∃ buffer err, c.account 6 = .ok buffer ∧
    readBufferedTx E c buffer ix.btcTxid ix.txSize err = .ok tx
  found : tx.findOutputByScript ix.poolScript = some (o, vout)

lemma checkPoolScript_ok {poolConfig : AccountInfo} {poolScript : List UInt8} (hne : poolScript ≠ [])
    (h : checkPoolScript E c s pool poolConfig poolScript = .ok ()) :
    ∃ cfg, s.records.poolConfigs pool.key = some cfg ∧ poolScript = cfg.poolScript := by
  rw [checkPoolScript, if_neg hne] at h
  simp only [validatePoolConfigPda, bind_eq_ok, exists_unit, require_eq_ok, orElse_eq_ok,
    validateProgramOwner_ok] at h
  obtain ⟨⟨howner, -, hkey⟩, cfg, hcfg, -, hscript⟩ := h
  obtain ⟨pool', hk, hrec⟩ := poolConfig_of_owned howner hcfg
  obtain rfl : pool.key = pool' := by simpa [hkey] using hk
  exact ⟨cfg, hrec, hscript⟩

lemma processCompleteRedemption_ensures (hI : AboutOutputs I) (h : I s.untouched)
    (hnew : ∀ pool ix tx o vout, ChangeFound E s c pool ix tx o vout →
      Credits I (pool, (ix.btcTxid, vout)) o.value none) :
    Ensures (fun s' => I s'.untouched) (processCompleteRedemption E c s) := by
  intro s' hs'
  simp only [processCompleteRedemption, bind_eq_ok, exists_unit, require_eq_ok, pure_eq_ok] at hs'
  obtain ⟨-, pool, -, redemption, -, authority, -, rent, -, verified, -, light, -, buffer, hs'⟩ := hs'
  obtain ⟨hbuffer, mint, -, vault, -, tp, -, receipt, -, poolConfig, -, ix, hix, -, -, -, -, hs'⟩ := hs'
  obtain ⟨-, -, -, -, program, -, -, -, -, -, p, -, req, -, -, hscript, s₁, hs₁, -, -, tx, hs'⟩ := hs'
  obtain ⟨htx, received, -, minerFee, -, -, x, -, -, s₂, hs₂, change, hchange, -, -, info, hs'⟩ := hs'
  obtain ⟨-, tc, -, s₃, hs₃, -, p', -, tc', -, rfl⟩ := hs'
  have hburnt : s₂.untouched = s.untouched :=
    burnToken_leaves (createCompletionReceipt_leaves rfl s₁ hs₁) s₂ hs₂
  have hchanged : I change.1.untouched := by
    refine createChange_ensures (hburnt ▸ h) (fun o vout hne hfind => hnew _ _ tx o vout ?_) _ hchange
    exact ⟨checkPoolScript_ok hne hscript, hix, ⟨buffer, _, hbuffer, htx⟩, hfind⟩
  rw [closeRedemption_untouched, untouched_putTokenConfig, untouched_putPool]
  exact Ensures.loop (fun s a hs => consumeUtxo_ensures hI hs) hchanged s₃ hs₃

lemma createDepositReceipt_leaves {receipt : AccountInfo} {txid : Hash} {vout : Option ℕ}
    (h : s.untouched = b) : LeavesAlone b (createDepositReceipt E s receipt txid vout) := by
  unfold createDepositReceipt
  repeat refine .bind fun _ _ => ?_
  exact .pure h

lemma completeDepositInner_ensures {ix : CompleteDepositData} {binding : DepositBinding}
    (h : I s.untouched) (hnew : ∀ a credit, depositAccounts E s c = .ok a →
      verifyCredit E s c a ix binding = .ok credit →
        Credits I (a.pool.key, credit.outpoint) credit.amountSats (binding.leaf E)) :
    Ensures (fun s' => I s'.untouched) (completeDepositInner E s c ix binding) := by
  intro s' hs'
  simp only [completeDepositInner, bind_eq_ok, Prod.exists, pure_eq_ok] at hs'
  obtain ⟨a, ha, p, tc, -, s₁, hs₁, credit, hcredit, fee, shielded, -, commitment, -, hs'⟩ := hs'
  obtain ⟨s₂, hs₂, s₃, hs₃, s₄, hs₄, tc', -, p', -, rfl⟩ := hs'
  have hplaced : s₂.untouched = s.untouched :=
    insertOne_leaves (createDepositReceipt_leaves rfl s₁ hs₁) s₂ hs₂
  have hrecorded : I s₃.untouched := by
    simp only [recordUtxo, bind_eq_ok, exists_unit] at hs₃
    exact createUtxo_ensures (hplaced ▸ h) (hnew a credit ha hcredit) s₃ hs₃.2.2
  rw [untouched_putPool, untouched_putTokenConfig, mintToken_leaves rfl s₄ hs₄]
  exact hrecorded

/-! ### The whole program -/

/-- The instructions that leave the outputs and the keys. -/
def Instruction.leaves (i : Instruction) : Bool :=
  !i.writesKeys && i.tweaked.isNone && i ∉ [.MarkProcessing, .CancelRedemption, .CompleteRedemption]

lemma run_leaves {i : Instruction} (hi : i.leaves = true) : LeavesAlone s.untouched (i.run E s c) := by
  cases i with
  | Initialize =>
    simp only [Instruction.run, processInitialize]
    exact .bind fun _ _ => .bind fun _ _ => initializePool_leaves
  | InitializePermissioned =>
    simp only [Instruction.run, processInitializePermissioned]
    exact .bind fun _ _ => .bind fun _ _ => .bind fun _ _ => initializePool_leaves
  | SetPoolConfig => exact processSetPoolConfig_leaves
  | SetPaused | ProposePoolUpdate | ExecutePoolUpdate | CancelPoolUpdate | SetDepositFeeBps
  | SetAuditorFrozen | SetAuditorViewingPubkey | RotateAuditor => exact updatePool_leaves
  | RegisterToken => exact processRegisterToken_leaves
  | UpdateTokenConfig => exact processUpdateTokenConfig_leaves
  | ClaimFees => exact processClaimFees_leaves
  | Shield => exact processShield_leaves
  | ShieldPermissioned => exact processShieldPermissioned_leaves
  | Transact => exact processTransact_leaves
  | Unshield => exact processUnshield_leaves
  | Redeem => exact processRedeem_leaves
  | RotateTree => exact processRotateTree_leaves
  | ApproveRedemptionSigning => exact processApproveRedemptionSigning_leaves
  | MagicblockDelegate => exact processMagicblockDelegate_leaves
  | MagicblockCommit => exact processMagicblockCommit_leaves
  | MagicblockPerPermission => exact processMagicblockPerPermission_leaves
  | MagicblockUndelegateCallback => exact processMagicblockUndelegateCallback_leaves
  | InitializePolicyApproval => exact processInitializePolicyApproval_leaves
  | PolicyApprovalDecision => exact processPolicyApprovalDecision_leaves
  | PolicyApprovalCommit => exact processPolicyApprovalCommit_leaves
  | RegisterExitDestination => exact processRegisterExitDestination_leaves
  | MergeQueuedLeaves => exact processMergeQueuedLeaves_leaves
  | _ => exact absurd hi (by simp [Instruction.leaves, Instruction.writesKeys, Instruction.tweaked])

/-- What an instruction would record: the output, its worth and its leaf. -/
inductive Crediting (E : Env) (s : State) (c : Call) :
    Instruction → Addr × Outpoint → ℕ → Option Hash → Prop
  | deposit {i : Instruction} {tweaked : Bool} {ix : CompleteDepositData} {binding : DepositBinding}
      {a : DepositAccounts} {credit : Credit} (kind : i.tweaked = some tweaked)
      (input : depositInput tweaked c.data = .ok (ix, binding))
      (accounts : depositAccounts E s c = .ok a)
      (verified : verifyCredit E s c a ix binding = .ok credit) :
      Crediting E s c i (a.pool.key, credit.outpoint) credit.amountSats (binding.leaf E)
  | change {pool : Addr} {ix : CompleteRedemptionData} {tx : ParsedTransaction} {o : TxOutput}
      {vout : ℕ} (found : ChangeFound E s c pool ix tx o vout) :
      Crediting E s c .CompleteRedemption (pool, (ix.btcTxid, vout)) o.value none

/-- A deposit, whichever of the four. -/
lemma run_deposit {i : Instruction} {tweaked : Bool} (hi : i.tweaked = some tweaked)
    (h : i.run E s c = .ok s') : ∃ ix binding, depositInput tweaked c.data = .ok (ix, binding) ∧
      completeDepositInner E s c ix binding = .ok s' := by
  cases i with
  | CompleteDeposit =>
    obtain rfl := Option.some_inj.mp hi
    exact processCompleteDeposit_ok h
  | CompleteDepositPermissioned =>
    obtain rfl := Option.some_inj.mp hi
    exact processCompleteDepositPermissioned_ok h
  | VerifyDeposit =>
    obtain rfl := Option.some_inj.mp hi
    exact processVerifyDeposit_ok h
  | VerifyDepositPermissioned =>
    obtain rfl := Option.some_inj.mp hi
    exact processVerifyDepositPermissioned_ok h
  | _ => exact absurd hi (by simp [Instruction.tweaked])

/-- An instruction that writes no keys keeps what is about outputs, if what it records does. -/
lemma run_ensures (hI : AboutOutputs I) (h : I s.untouched) {i : Instruction} (hw : i.writesKeys = false)
    (hcredit : ∀ k amount leaf, Crediting E s c i k amount leaf → Credits I k amount leaf) :
    Ensures (fun s' => I s'.untouched) (i.run E s c) := by
  intro s' hs'
  cases htweaked : i.tweaked with
  | some tweaked =>
    obtain ⟨ix, binding, hinput, hinner⟩ := run_deposit htweaked hs'
    exact completeDepositInner_ensures h (fun a credit ha hv =>
      hcredit _ _ _ (.deposit htweaked hinput ha hv)) s' hinner
  | none =>
    by_cases hother : i ∈ [.MarkProcessing, .CancelRedemption, .CompleteRedemption]
    · simp only [List.mem_cons, List.not_mem_nil, or_false] at hother
      rcases hother with rfl | rfl | rfl
      · exact processMarkProcessing_ensures hI h s' hs'
      · exact processCancelRedemption_ensures hI h s' hs'
      · exact processCompleteRedemption_ensures hI h (fun _ _ _ _ _ hfound =>
          hcredit _ _ _ (.change hfound)) s' hs'
    · have hi : i.leaves = true := by
        simp only [Instruction.leaves, hw, htweaked, decide_eq_true hother]
        rfl
      rwa [run_leaves hi s' hs']

lemma untouched_reap (hI : AboutOutputs I) (h : I s.untouched) (a : Addr) : I (s.reap a).untouched := by
  cases a with
  | utxo pool o =>
    unfold State.reap reapStore
    rw [untouched_setUtxo]
    refine hI _ _ _ h fun u hu => ⟨u, ?_, rfl⟩
    rw [untouched_record?]
    unfold reapAccount at hu
    split_ifs at hu
    · exact absurd hu (by simp [Account.fresh, Data.record?])
    · exact hu
  | vkRegistry n m =>
    have hkeys : (s.reap (.vkRegistry n m)).vkRegistryAt? = s.vkRegistryAt? := by
      funext k
      unfold State.reap reapStore State.vkRegistryAt?
      rw [Store.get_set]
      split_ifs with hk
      · unfold reapAccount
        split_ifs with hnone
        · rw [hk]
          exact (Option.isNone_iff_eq_none.mp hnone.2).symm
        · rw [hk]
      · rfl
    have hsame : (s.reap (.vkRegistry n m)).untouched = s.untouched := by
      rw [State.untouched, hkeys]
      rfl
    rwa [hsame]
  | _ => exact h

/-- **The frame**: a step that writes no keys keeps what is about outputs, if what it records does. -/
theorem step_ensures {l : Label} (hI : AboutOutputs I) (h : I s.untouched) (hstep : step E s l = .ok s')
    (hw : ∀ c c' i, l = .call c → c.decode E = some (i, c') → i.writesKeys = false)
    (hcredit : ∀ c c' i k amount leaf, l = .call c → c.decode E = some (i, c') →
      Crediting E s c' i k amount leaf → Credits I k amount leaf) : I s'.untouched := by
  cases l with
  | call c =>
    simp only [step, bind_eq_ok, exists_unit] at hstep
    obtain ⟨-, hrun⟩ := hstep
    unfold processInstruction at hrun
    cases hd : c.decode E with
    | none =>
      rw [hd] at hrun
      exact (throw_ne_ok.mp hrun).elim
    | some x =>
      rw [hd] at hrun
      exact run_ensures hI h (hw c x.2 x.1 rfl hd) (fun k amount leaf =>
        hcredit c x.2 x.1 k amount leaf rfl hd) s' hrun
  | fund n a =>
    obtain rfl := Except.ok.inj hstep
    rwa [untouched_fund]
  | reap a =>
    obtain rfl := Except.ok.inj hstep
    exact untouched_reap hI h a
  | tokenChange a t =>
    simp only [step, bind_eq_ok, exists_unit, require_eq_ok, pure_eq_ok] at hstep
    obtain ⟨-, rfl⟩ := hstep
    exact h

end Utxopia.Pool
