import Utxopia.Policy.System

/-!
The two programs judge an approval by the same rule.

The pool program checks an approval before it asks for its consumption, and the policy program
checks it once more. Each reads the bytes at offsets of its own. What both ask of an approval is
stated once here, and each of the two checks comes down to it.
-/

namespace Utxopia.Policy

open Utxopia.ByteString Utxopia.Check Utxopia.Run Utxopia.Runtime Utxopia.Pool

variable {E : Env} {S : System} {s : State} {A A' : Approvals} {c : Call} {p : PoolState}

/-- The approval at an address may be consumed for an action and a hash of a pool. -/
structure Consumable (E : Env) (auditor : Hash) (pool address : Addr) (slot action : ℕ) (hash : Hash)
    (a : ApprovalBytes) : Prop where
  forAction : a.action = action
  forPool : a.pool = E.bytesOf pool
  byAuditor : a.policyAuthority = auditor
  forRequest : a.requestHash = hash
  allowed : Pool.spendIsAllowed a.status slot a.expiresAtSlot = .ok ()
  canonical : address = .key (E.policyApprovalPda pool a.requestHash a.nonce).1
  withBump : a.bump = (E.policyApprovalPda pool a.requestHash a.nonce).2

/-- The pool program's check: of the accounts, of the approval, and of the actor, which the policy
program leaves to it. -/
theorem consumePolicyApproval_iff {approval policyProgram pool : AccountInfo} {actor : Addr}
    {auditor : Hash} {action : ℕ} {parts : List (List UInt8)} {q : Consumption} :
    consumePolicyApproval E s c approval policyProgram pool actor auditor action parts = .ok q ↔
      (policyProgram.key = .key E.policyProgramId ∧ c.executable policyProgram.key = true) ∧
      c.ownedBy approval.key E.policyProgramId = true ∧ approval.isWritable = true ∧
      (∃ p, s.ownerOf E c pool.key = .program ∧ s.poolAt pool.key = some p ∧
        pool.key = .poolState p.zkbtcMint) ∧
      (∃ hash a, computePolicyRequestHash E pool.key actor action parts = .ok hash ∧
        ApprovalBytes.parse (c.dataOf approval.key) = some a ∧
        Consumable E auditor pool.key approval.key c.slot action hash a ∧
        a.actor = E.bytesOf actor ∧ q = ⟨approval.key, pool.key, action, hash⟩) ∧
      c.cpiSucceeds = true := by
  simp only [consumePolicyApproval, validateAccountWritable, validateProgramOwner, validatePoolStatePda,
    readPool, bind_eq_ok, exists_unit, require_eq_ok, orElse_eq_ok, pure_eq_ok]
  constructor
  · rintro ⟨hprog, howned, hw, ho, ⟨-, p, hp, hkey⟩, hash, hhash, a, ha, ⟨hact, hpool, hactor, hauth, hreq⟩,
      hallowed, ⟨haddr, hbump⟩, hcpi, rfl⟩
    exact ⟨hprog, howned, hw, ⟨p, ho, hp, hkey⟩,
      ⟨hash, a, hhash, ha, ⟨hact, hpool, hauth, hreq, hallowed, haddr, hbump⟩, hactor, rfl⟩, hcpi⟩
  · rintro ⟨hprog, howned, hw, ⟨p, ho, hp, hkey⟩, ⟨hash, a, hhash, ha, hok, hactor, rfl⟩, hcpi⟩
    exact ⟨hprog, howned, hw, ho, ⟨ho, p, hp, hkey⟩, hash, hhash, a, ha,
      ⟨hok.forAction, hok.forPool, hactor, hok.byAuditor, hok.forRequest⟩, hok.allowed,
      ⟨hok.canonical, hok.withBump⟩, hcpi, rfl⟩

/-- The two programs number the approved status alike and let the slot of expiry itself pass. -/
lemma spendIsAllowed_iff {d : List UInt8} {slot expiresAt : ℕ} :
    Policy.spendIsAllowed (d.getD 2 0) slot expiresAt = true ↔
      Pool.spendIsAllowed (byteAt d 2) slot expiresAt = .ok () := by
  have hbyte : d.getD 2 0 = statusApproved ↔ byteAt d 2 = policyStatusApproved :=
    UInt8.toNat_inj.symm
  simp only [Policy.spendIsAllowed, Pool.spendIsAllowed, decide_eq_true_eq, bind_eq_ok, exists_unit,
    require_eq_ok, hbyte]

/-- What the policy program reads of an approval is what the pool program reads. -/
lemma parse_iff {d : List UInt8} {a : ApprovalBytes} : ApprovalBytes.parse d = some a ↔
    (d.length = policyLen ∧ byteAt d 0 = 0x0c ∧ byteAt d 1 = 1) ∧ a = ⟨byteAt d 2, byteAt d 3, byteAt d 4,
      u64At d 8, slice 32 d 16, slice 32 d 48, slice 32 d 80, slice 32 d 112, slice 32 d 144⟩ := by
  constructor
  · intro h
    unfold ApprovalBytes.parse at h
    split_ifs at h with hform
    exact ⟨hform, (Option.some_inj.mp h).symm⟩
  · rintro ⟨⟨hlen, h0, h1⟩, rfl⟩
    exact parse_eq_some hlen h0 h1

/-- The policy program's check: of the accounts, of the pool, and of the approval. -/
theorem consume_iff {pool approval : AccountInfo} {k : Hash} (hlen : c.accounts.length = 2)
    (hdata : c.data.length = 33) (hpool : c.account 0 = .ok pool) (happ : c.account 1 = .ok approval)
    (hk : approval.key = .key k) : (∃ A', consume E s A c = .ok A') ↔
      (pool.isSigner = true ∧ (A k).owner = .program ∧ approval.isWritable = true) ∧
      ∃ p, (s.ownerOf E c pool.key = .program ∧ E.programId = assetProgramId) ∧
        s.poolAt pool.key = some p ∧ (p.permissioned = true ∧ ¬ p.auditorFrozen = true) ∧
        pool.key = .poolState p.zkbtcMint ∧
        ∃ a, ApprovalBytes.parse (A k).data = some a ∧
          Consumable E p.auditor pool.key approval.key c.slot (byteAt c.data 0) (slice 32 c.data 1) a := by
  have hacc : approvalAccount A approval = .ok (k, A k) := by rw [approvalAccount, hk]
  simp only [consume, validatePool, approvalSeeds, bind_eq_ok, exists_unit, require_eq_ok, orElse_eq_ok,
    pure_eq_ok, hpool, happ, hacc, Except.ok.injEq, exists_eq_left', Prod.exists, Prod.mk.injEq]
  constructor
  · rintro ⟨A', -, _, _, ⟨rfl, rfl⟩, hsigner, _, _, ⟨hown, p, hp, hperm, hkey, rfl, rfl⟩,
      ⟨⟨hl, h0, h1, hpl⟩, haddr, hbump⟩, ⟨hallowed, hact, hauth, hreq⟩, -⟩
    refine ⟨hsigner, p, hown, hp, hperm, hkey, _, parse_iff.mpr ⟨⟨hl, h0, h1⟩, rfl⟩, ?_⟩
    exact ⟨hact, hpl, hauth, hreq, spendIsAllowed_iff.mp hallowed, hk.trans (congrArg Addr.key haddr), hbump⟩
  · rintro ⟨hsigner, p, hown, hp, hperm, hkey, a, ha, hok⟩
    obtain ⟨⟨hl, h0, h1⟩, rfl⟩ := parse_iff.mp ha
    have haddr := Addr.key.inj (hk.symm.trans hok.canonical)
    exact ⟨_, ⟨hlen, hdata⟩, k, A k, ⟨rfl, rfl⟩, hsigner, p.authority, p.auditor,
      ⟨hown, p, hp, hperm, hkey, rfl, rfl⟩, ⟨⟨hl, h0, h1, hok.forPool⟩, haddr, hok.withBump⟩,
      ⟨spendIsAllowed_iff.mpr hok.allowed, hok.forAction, hok.byAuditor, hok.forRequest⟩, rfl⟩

/-! ### What the pool program sees of the policy program -/

lemma ownedBy_view {a : Addr} (h : (S.view E c).ownedBy a E.policyProgramId = true) :
    ∃ k, a = .key k ∧ (S.approvals k).owner = .program ∧ (S.view E c).dataOf a = (S.approvals k).data := by
  cases a with
  | key k =>
    obtain ⟨howner, hdata⟩ := view_owner (decide_eq_true_eq.mp h)
    exact ⟨k, rfl, howner, hdata⟩
  | _ => exact absurd h Bool.false_ne_true

/-- The call that consumes, as the policy program gets it. -/
def consumeInstruction (q : Consumption) (c : Call) : Call :=
  { consumeCall q c with data := 39 :: (consumeCall q c).data }

lemma processInstruction_consume (q : Consumption) :
    processInstruction E s A (consumeInstruction q c) = consume E s A (consumeCall q c) := rfl

/-- The call carries the action and the hash. -/
lemma consumeCall_data {q : Consumption} (haction : q.action < 256) :
    (consumeCall q c).data.length = 33 ∧ byteAt (consumeCall q c).data 0 = q.action ∧
      (slice 32 (consumeCall q c).data 1 : Hash) = q.requestHash := by
  refine ⟨by simp [consumeCall], ?_, ?_⟩
  · change (UInt8.ofNat q.action).toNat = q.action
    rw [UInt8.toNat_ofNat']
    omega
  · have hread := slice_append 32 [UInt8.ofNat q.action] q.requestHash.toList 0
    have hhash := slice_toList_append q.requestHash []
    rw [List.append_nil] at hhash
    exact hread.trans hhash

/-- **The pool program's check is enough**: what it lets pass, the policy program consumes. -/
lemma consume_of_checked {approval policyProgram pool : AccountInfo} {actor : Addr} {action : ℕ}
    {parts : List (List UInt8)} {q : Consumption} (hid : E.programId = assetProgramId)
    (hp : S.chain.poolAt pool.key = some p) (hperm : p.permissioned = true)
    (hfrozen : p.auditorFrozen = false)
    (h : consumePolicyApproval E S.chain { S.view E c with cpiSucceeds := true } approval policyProgram pool
      actor p.auditor action parts = .ok q) :
    ∃ A', processInstruction E S.chain S.approvals (consumeInstruction q (S.view E c)) = .ok A' := by
  obtain ⟨-, howned, hw, ⟨p', ho, hp', hkey⟩, ⟨hash, a, -, ha, hok, -, rfl⟩, -⟩ :=
    consumePolicyApproval_iff.mp h
  obtain rfl := Option.some_inj.mp (hp.symm.trans hp')
  obtain ⟨k, hk, howner, hdata⟩ := ownedBy_view (S := S) (c := c) howned
  have hbytes : ApprovalBytes.parse (S.approvals k).data = some a := hdata ▸ ha
  have haction : action < 256 := by
    obtain ⟨-, rfl⟩ := parse_iff.mp hbytes
    exact hok.forAction ▸ UInt8.toNat_lt _
  obtain ⟨hlen, hact, hhash⟩ := consumeCall_data (c := S.view E c)
    (q := ⟨approval.key, pool.key, action, hash⟩) haction
  rw [processInstruction_consume]
  refine (consume_iff rfl hlen rfl rfl hk).mpr ⟨⟨rfl, howner, rfl⟩, p, ⟨ho, hid⟩, hp,
    ⟨hperm, by simp [hfrozen]⟩, hkey, a, hbytes, ?_⟩
  rw [hact, hhash]
  exact hok

/-- **The policy program's check is enough**: what it consumes, the pool program's conditions hold of. -/
lemma consumable_of_consumed (h : consume E s A c = .ok A') :
    ∃ pool approval k p a, c.account 0 = .ok pool ∧ c.account 1 = .ok approval ∧ approval.key = .key k ∧
      s.poolAt pool.key = some p ∧ ApprovalBytes.parse (A k).data = some a ∧
      Consumable E p.auditor pool.key approval.key c.slot (byteAt c.data 0) (slice 32 c.data 1) a := by
  have h' := h
  simp only [consume, bind_eq_ok, exists_unit, require_eq_ok, Prod.exists] at h'
  obtain ⟨⟨hlen, hdata⟩, pool, hpool, approval, happ, k, acc, hacc, -⟩ := h'
  obtain ⟨hk, -⟩ := approvalAccount_ok hacc
  obtain ⟨-, p, -, hp, -, -, a, ha, hok⟩ := (consume_iff hlen hdata hpool happ hk).mp ⟨A', h⟩
  exact ⟨pool, approval, k, p, a, hpool, happ, hk, hp, ha, hok⟩

/-- **The checks agree**: a consumption that goes through would have passed the pool program's check,
for the actor of the approval and an intent with the hash. -/
theorem checked_of_consumed {approval policyProgram pool : AccountInfo} {actor : Addr} {action : ℕ}
    {hash : Hash} {parts : List (List UInt8)} (haction : action < 256)
    (hprog : policyProgram.key = .key E.policyProgramId ∧ (S.view E c).executable policyProgram.key = true)
    (hw : approval.isWritable = true)
    (hhash : computePolicyRequestHash E pool.key actor action parts = .ok hash)
    (hactor : ∀ k a, approval.key = .key k → ApprovalBytes.parse (S.approvals k).data = some a →
      a.actor = E.bytesOf actor)
    (h : consume E S.chain S.approvals (consumeCall ⟨approval.key, pool.key, action, hash⟩ (S.view E c)) =
      .ok A') :
    ∃ p, S.chain.poolAt pool.key = some p ∧
      consumePolicyApproval E S.chain { S.view E c with cpiSucceeds := true } approval policyProgram pool actor
        p.auditor action parts = .ok ⟨approval.key, pool.key, action, hash⟩ := by
  obtain ⟨hlen, hact, hread⟩ := consumeCall_data (c := S.view E c)
    (q := ⟨approval.key, pool.key, action, hash⟩) haction
  obtain ⟨k, hk⟩ : ∃ k, approval.key = .key k := by
    obtain ⟨_, _, k, _, _, -, happ, hk, -⟩ := consumable_of_consumed h
    exact ⟨k, (congrArg AccountInfo.key (Except.ok.inj happ)).trans hk⟩
  obtain ⟨⟨-, howner, -⟩, p, ⟨ho, -⟩, hp, -, hkey, a, ha, hok⟩ :=
    (consume_iff rfl hlen rfl rfl hk).mp ⟨A', h⟩
  rw [hact, hread] at hok
  have hview : Policy.view E S.approvals c.foreign k = ⟨E.policyProgramId, false, (S.approvals k).data⟩ :=
    if_pos howner
  refine ⟨p, hp, consumePolicyApproval_iff.mpr ⟨hprog, ?_, hw, ⟨p, ho, hp, hkey⟩,
    ⟨hash, a, hhash, ?_, hok, hactor k a hk ha, rfl⟩, rfl⟩⟩
  · rw [hk]
    exact decide_eq_true (congrArg Foreign.owner hview)
  · rw [hk]
    exact (congrArg (fun f => ApprovalBytes.parse f.data) hview).trans ha

/-- **Lock-step**: for a permissioned pool that is not frozen, what the pool program has checked the policy
program consumes; and what the policy program consumes meets the pool program's conditions. -/
theorem lock_step (hid : E.programId = assetProgramId) :
    (∀ (S : System) (c : Call) (approval policyProgram pool : AccountInfo) (actor : Addr) (p : PoolState)
      (action : ℕ) (parts : List (List UInt8)) (q : Consumption), S.chain.poolAt pool.key = some p →
      p.permissioned = true → p.auditorFrozen = false →
      consumePolicyApproval E S.chain { S.view E c with cpiSucceeds := true } approval policyProgram pool
        actor p.auditor action parts = .ok q →
      ∃ A', processInstruction E S.chain S.approvals (consumeInstruction q (S.view E c)) = .ok A') ∧
    ∀ (s : State) (A A' : Approvals) (c : Call), consume E s A c = .ok A' →
      ∃ pool approval k p a, c.account 0 = .ok pool ∧ c.account 1 = .ok approval ∧ approval.key = .key k ∧
        s.poolAt pool.key = some p ∧ ApprovalBytes.parse (A k).data = some a ∧
        Consumable E p.auditor pool.key approval.key c.slot (byteAt c.data 0) (slice 32 c.data 1) a :=
  ⟨fun _ _ _ _ _ _ _ _ _ _ hp hperm hfrozen h => consume_of_checked hid hp hperm hfrozen h,
    fun _ _ _ _ h => consumable_of_consumed h⟩

/-! ### A run -/

namespace Regtest

open Pool.Regtest

/-- A call that sees the policy program. -/
def spendingCall : Call where
  accounts := []
  data := []
  slot := 0
  unixTimestamp := 0
  foreign := fun k => if k = policyEnv.policyProgramId then ⟨loader, true, []⟩ else ⟨zeros 32, false, []⟩
  cpiSucceeds := true

/-- The pool program's check of the approved transfer. -/
def transferChecked (S : System) (p : PoolState) : Except ProgramError Consumption :=
  consumePolicyApproval policyEnv S.chain { S.view policyEnv spendingCall with cpiSucceeds := true }
    (writable (.key approvalKey)) (readonly (.key policyEnv.policyProgramId)) (readonly pool) user p.auditor
    transactCode [(note 1).toList]

lemma run_transferChecked : (exec (step policyEnv) (fun _ _ => true) .genesis (approvedTransfer.take 4)).any
    (fun S => (S.chain.poolAt pool).any fun p => p.permissioned && !p.auditorFrozen &&
      (transferChecked S p).toBool) = true := by
  decide +kernel

end Regtest

open Regtest Pool.Regtest in
/-- An approved transfer, before it is made. -/
theorem lock_step_transfer : ∃ (S : System) (p : PoolState) (q : Consumption) (A' : Approvals),
    transferChecked S p = .ok q ∧
      processInstruction policyEnv S.chain S.approvals (consumeInstruction q (S.view policyEnv spendingCall)) =
        .ok A' := by
  obtain ⟨S, -, hrun⟩ := (Option.any_eq_true _ _).mp run_transferChecked
  obtain ⟨p, hp, hok⟩ := (Option.any_eq_true _ _).mp hrun
  simp only [Bool.and_eq_true, Bool.not_eq_true'] at hok
  obtain ⟨⟨hperm, hfrozen⟩, hchecked⟩ := hok
  cases hq : transferChecked S p with
  | error e => exact absurd hchecked (by simp [hq, Except.toBool])
  | ok q =>
    obtain ⟨A', hA'⟩ := (lock_step rfl).1 S spendingCall _ _ _ _ p _ _ q hp hperm hfrozen hq
    exact ⟨S, p, q, A', hq, hA'⟩

end Utxopia.Policy
