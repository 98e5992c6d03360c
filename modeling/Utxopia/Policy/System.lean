import Utxopia.Policy.Program
import Utxopia.Pool.Effect

/-!
The pool program and the policy program together.

A permissioned call of the pool asks the policy program to consume an approval and goes
through only if it does. The pool reads the approval's bytes as the policy program wrote them.
-/

namespace Utxopia.Policy

open Utxopia.ByteString Utxopia.Check Utxopia.Run Utxopia.Runtime Utxopia.Pool

structure System where
  chain : State
  approvals : Approvals

def System.genesis : System := ⟨.genesis, noApprovals⟩

/-- Some owner that is not the given one. -/
def otherOwner (id : Hash) : Hash := if id = zeros 32 then toLe 32 1 else zeros 32

lemma otherOwner_ne (id : Hash) : otherOwner id ≠ id := by
  unfold otherOwner
  split_ifs with h
  · rw [h]
    decide
  · exact fun h' => h h'.symm

/-- Other programs see the policy program's accounts as they are, and nothing else as its. -/
def view (E : Env) (A : Approvals) (foreign : Hash → Foreign) (k : Hash) : Foreign :=
  if (A k).owner = .program then ⟨E.policyProgramId, false, (A k).data⟩
  else if (foreign k).owner = E.policyProgramId then
    { foreign k with owner := otherOwner E.policyProgramId }
  else foreign k

lemma view_owner {E : Env} {A : Approvals} {foreign : Hash → Foreign} {k : Hash}
    (h : (view E A foreign k).owner = E.policyProgramId) :
    (A k).owner = .program ∧ (view E A foreign k).data = (A k).data := by
  unfold view at h ⊢
  split_ifs at h ⊢ with h₁ h₂
  · exact ⟨h₁, rfl⟩
  · exact absurd h (otherOwner_ne _)
  · exact absurd h h₂

def System.view (E : Env) (S : System) (c : Call) : Call :=
  { c with foreign := Policy.view E S.approvals c.foreign }

/-- The approval an instruction of the pool has checked and wants consumed. -/
def consumption (E : Env) (s : State) (c : Call) : Instruction → Option Consumption
  | .Transact => (planTransact E s c).toOption.bind TransactPlan.consumed
  | .Unshield => (planUnshield E s c).toOption.bind UnshieldPlan.consumed
  | .Redeem => (planRedeem E s c).toOption.bind RedeemPlan.consumed
  | .ShieldPermissioned => (authorizeShield E s c).toOption
  | .CompleteDepositPermissioned =>
    (checkDepositPool E s c true).toOption.bind fun p =>
      (approveDeposit E s c p completeDepositPermissionedCode).toOption
  | .VerifyDepositPermissioned =>
    (checkDepositPool E s c true).toOption.bind fun p =>
      (approveDeposit E s c p verifyDepositPermissionedCode).toOption
  | _ => none

/-- The call of the policy program the pool makes: it signs for itself. -/
def consumeCall (q : Consumption) (c : Call) : Call :=
  { c with
    accounts := [⟨q.pool, true, false⟩, ⟨q.approval, false, true⟩]
    data := UInt8.ofNat q.action :: q.requestHash.toList }

inductive Action where
  | pool (l : Label)
  | policy (c : Call)
  | rollupDecision (c : Call)
  | undelegate (address : Hash)
  | pay (lamports : ℕ) (address : Hash)

/-- An account comes back from the rollup with the bytes it has there. -/
def Approvals.returned (A : Approvals) (k : Hash) : Approvals :=
  Function.update A k { A k with owner := .program }

def Approvals.paid (A : Approvals) (n : ℕ) (k : Hash) : Approvals :=
  Function.update A k { A k with lamports := (A k).lamports + n }

/-- The approval an action of the system consumes. -/
def consumedBy (E : Env) (S : System) : Action → Option Consumption
  | .pool (.call c) =>
    ((S.view E c).decode E).bind fun (i, d) => consumption E S.chain d i
  | _ => none

def step (E : Env) (S : System) : Action → Except ProgramError System
  | .pool (.call c) =>
    match consumedBy E S (.pool (.call c)) with
    | some q => do
      let approvals ← consume E S.chain S.approvals (consumeCall q (S.view E c))
      let chain ← Pool.step E S.chain (.call (S.view E c))
      return ⟨chain, approvals⟩
    | none => do
      let chain ← Pool.step E S.chain (.call (S.view E c))
      return ⟨chain, S.approvals⟩
  | .pool l => do
    let chain ← Pool.step E S.chain l
    return ⟨chain, S.approvals⟩
  | .policy c => do
    require c.signedByKeys .MissingRequiredSignature
    let approvals ← processInstruction E S.chain S.approvals c
    return ⟨S.chain, approvals⟩
  | .rollupDecision c => do
    let approvals ← decision E S.approvals c .other
    return ⟨S.chain, approvals⟩
  | .undelegate k => do
    require ((S.approvals k).owner = .other) .Cpi
    return ⟨S.chain, S.approvals.returned k⟩
  | .pay n k => return ⟨S.chain, S.approvals.paid n k⟩

/-! ### The life of an approval -/

/-- The approval at an address, here or in the rollup. -/
def approvalAt (A : Approvals) (k : Hash) : Option ApprovalBytes :=
  if (A k).owner = .system then none else ApprovalBytes.parse (A k).data

/-- How an approval may change. -/
inductive Advances : Option ApprovalBytes → Option ApprovalBytes → Prop
  | same {a : Option ApprovalBytes} : Advances a a
  | opened {a : ApprovalBytes} (pending : a.status = 0) : Advances none (some a)
  | approved {a : ApprovalBytes} (pending : a.status = 0) :
      Advances (some a) (some { a with status := 1 })
  | rejected {a : ApprovalBytes} (pending : a.status = 0) :
      Advances (some a) (some { a with status := 2 })
  | consumed {a : ApprovalBytes} (approved : a.status = 1) :
      Advances (some a) (some { a with status := 3 })

/-- A consumed approval stays as it is. -/
lemma Advances.of_consumed {a : ApprovalBytes} {o : Option ApprovalBytes} (h : Advances (some a) o)
    (ha : a.status = 3) : o = some a := by
  cases h with
  | same => rfl
  | approved hp => omega
  | rejected hp => omega
  | consumed hp => omega

section Steps

variable {E : Env} {s : State} {S S' : System} {A A' : Approvals} {c : Call}

/-- Nothing but the account at one address changes. -/
lemma advances_update {k : Hash} {acc : PolicyAccount} (h : Advances (approvalAt A k)
    (if acc.owner = .system then none else ApprovalBytes.parse acc.data)) (j : Hash) :
    Advances (approvalAt A j) (approvalAt (Function.update A k acc) j) := by
  rcases eq_or_ne j k with rfl | hne
  · simpa [approvalAt] using h
  · have hsame : approvalAt (Function.update A k acc) j = approvalAt A j := by
      simp [approvalAt, hne]
    rw [hsame]
    exact .same

lemma approvalAccount_ok {info : AccountInfo} {k : Hash} {acc : PolicyAccount}
    (h : approvalAccount A info = .ok (k, acc)) : info.key = .key k ∧ acc = A k := by
  unfold approvalAccount at h
  split at h
  · rename_i k' hk
    simp only [Except.ok.injEq, Prod.mk.injEq] at h
    obtain ⟨rfl, rfl⟩ := h
    exact ⟨hk, rfl⟩
  · exact absurd h (by simp [throw_ne_ok])

/-- A new approval is pending. -/
lemma openApproval_ok (h : openApproval E s A c = .ok A') (j : Hash) :
    Advances (approvalAt A j) (approvalAt A' j) := by
  simp only [openApproval, bind_eq_ok, exists_unit, require_eq_ok, pure_eq_ok, Prod.exists] at h
  obtain ⟨-, payer, -, pool, -, approval, -, system, -, -, _, auditor, -, -, -, address, acc, hacc,
    -, ⟨ho, hd⟩, rfl⟩ := h
  obtain ⟨-, rfl⟩ := approvalAccount_ok hacc
  refine advances_update ?_ j
  have hnone : approvalAt A address = none := by simp [approvalAt, ho]
  rw [hnone, if_neg (by simp), parse_approvalBytes]
  exact .opened rfl

lemma parse_setStatus_none {d : List UInt8} {status : UInt8} (h : ApprovalBytes.parse d = none) :
    ApprovalBytes.parse (setStatus d status) = none := by
  cases h' : ApprovalBytes.parse (setStatus d status) with
  | none => rfl
  | some a =>
    -- writing the old status back gives the old bytes
    have hback := parse_setStatus (d.getD 2 0) h'
    have hd : setStatus (setStatus d status) (d.getD 2 0) = d := by
      rw [setStatus, setStatus, List.set_set]
      rcases lt_or_ge 2 d.length with hlt | hge
      · rw [← List.getElem_eq_getD (h := hlt), List.set_getElem_self]
      · rw [List.set_eq_of_length_le hge]
    rw [hd, h] at hback
    exact absurd hback (by simp)

lemma parse_status {d : List UInt8} {a : ApprovalBytes} (h : ApprovalBytes.parse d = some a) :
    a.status = byteAt d 2 := by
  unfold ApprovalBytes.parse at h
  split_ifs at h
  obtain rfl := Option.some_inj.mp h
  rfl

/-- A decision approves or rejects what was pending. -/
lemma decision_ok {owner : Owner} (ho : owner ≠ .system) (h : decision E A c owner = .ok A')
    (j : Hash) : Advances (approvalAt A j) (approvalAt A' j) := by
  simp only [decision, bind_eq_ok, exists_unit, require_eq_ok, pure_eq_ok, Prod.exists] at h
  obtain ⟨-, authority, -, approval, -, address, acc, hacc, ⟨-, rfl, -⟩, ⟨-, -, hpending, -⟩, rfl⟩ := h
  obtain ⟨-, rfl⟩ := approvalAccount_ok hacc
  refine advances_update ?_ j
  rw [if_neg ho, approvalAt, if_neg ho]
  cases ha : ApprovalBytes.parse (A address).data with
  | none =>
    rw [parse_setStatus_none ha]
    exact .same
  | some a =>
    rw [parse_setStatus _ ha]
    have hstatus : a.status = 0 := (parse_status ha).trans hpending
    split_ifs
    · exact .approved hstatus
    · exact .rejected hstatus

/-- What a consumption found and left. -/
structure Consumed (E : Env) (s : State) (A A' : Approvals) (c : Call) (k : Hash)
    (a : ApprovalBytes) : Prop where
  program : (A k).owner = .program
  recorded : ApprovalBytes.parse (A k).data = some a
  approved : a.status = 1
  unexpired : c.slot ≤ a.expiresAtSlot
  now : approvalAt A' k = some { a with status := 3 }
  only : ∀ j, j ≠ k → A' j = A j

lemma consume_ok (h : consume E s A c = .ok A') :
    ∃ approval k a, c.account 1 = .ok approval ∧ approval.key = .key k ∧
      Consumed E s A A' c k a := by
  simp only [consume, approvalSeeds, bind_eq_ok, exists_unit, require_eq_ok, pure_eq_ok,
    Prod.exists] at h
  obtain ⟨-, pool, -, approval, happ, k, acc, hacc, ⟨-, ho, -⟩, _, auditor, -,
    ⟨⟨hlen, h0, h1, -⟩, -⟩, ⟨hallowed, -⟩, rfl⟩ := h
  obtain ⟨hk, rfl⟩ := approvalAccount_ok hacc
  have ha := parse_eq_some hlen h0 h1
  simp only [spendIsAllowed, decide_eq_true_eq] at hallowed
  have hstatus : byteAt (A k).data 2 = 1 := by rw [byteAt, hallowed.1]; rfl
  refine ⟨approval, k, _, happ, hk, ho, ha, hstatus, hallowed.2, ?_, fun j hj => ?_⟩
  · rw [approvalAt, Function.update_self, if_neg (by simp [ho])]
    exact parse_setStatus _ ha
  · exact Function.update_of_ne hj _ _

lemma Consumed.advances {k : Hash} {a : ApprovalBytes} (h : Consumed E s A A' c k a) (j : Hash) :
    Advances (approvalAt A j) (approvalAt A' j) := by
  rcases eq_or_ne j k with rfl | hne
  · rw [h.now, approvalAt, if_neg (by simp [h.program]), h.recorded]
    exact .consumed h.approved
  · rw [approvalAt, approvalAt, h.only j hne]
    exact .same

/-- Every instruction of the policy program advances approvals only. -/
lemma processInstruction_ok (h : processInstruction E s A c = .ok A') (j : Hash) :
    Advances (approvalAt A j) (approvalAt A' j) := by
  unfold processInstruction at h
  split at h
  · exact absurd h (by simp [throw_ne_ok])
  · dsimp only at h
    split at h
    · simp only [delegate, bind_eq_ok, exists_unit, require_eq_ok, pure_eq_ok, Prod.exists] at h
      obtain ⟨-, _, -, _, -, _, -, _, -, -, _, _, -, -, address, acc, hacc, -, ⟨ho, -⟩, rfl⟩ := h
      obtain ⟨-, rfl⟩ := approvalAccount_ok hacc
      refine advances_update ?_ j
      rw [if_neg (by simp), approvalAt, if_neg (by simp [ho])]
      exact .same
    · simp only [permission, bind_eq_ok, exists_unit, require_eq_ok, pure_eq_ok, Prod.exists] at h
      obtain ⟨-, _, -, _, -, _, -, -, _, _, -, -, _, _, -, -, -, rfl⟩ := h
      exact .same
    · exact openApproval_ok h j
    · exact decision_ok (by simp) h j
    · simp only [commit, bind_eq_ok, exists_unit, require_eq_ok, pure_eq_ok, Prod.exists] at h
      obtain ⟨-, _, -, _, -, _, _, -, -, -, -, rfl⟩ := h
      exact .same
    · obtain ⟨_, _, _, -, -, hc⟩ := consume_ok h
      exact hc.advances j
    · exact absurd h (by simp [throw_ne_ok])

/-- What a step of the system does to the approvals: it consumes the one it names and no
other, or it advances them. -/
theorem step_approvals {a : Action} (h : step E S a = .ok S') :
    (∀ j, Advances (approvalAt S.approvals j) (approvalAt S'.approvals j)) ∧
      ∀ q, consumedBy E S a = some q → ∃ c k x, a = .pool (.call c) ∧ q.approval = .key k ∧
        Consumed E S.chain S.approvals S'.approvals c k x := by
  cases a with
  | pool l =>
    cases l with
    | call c =>
      simp only [step] at h
      split at h
      · rename_i q hq
        simp only [bind_eq_ok, pure_eq_ok] at h
        obtain ⟨A', hA', chain, -, rfl⟩ := h
        obtain ⟨approval, k, x, happ, hk, hc⟩ := consume_ok hA'
        refine ⟨hc.advances, fun q' hq' => ⟨c, k, x, rfl, ?_, ⟨hc.program, hc.recorded, hc.approved,
          hc.unexpired, hc.now, hc.only⟩⟩⟩
        rw [hq, Option.some.injEq] at hq'
        obtain rfl : ⟨q.approval, false, true⟩ = approval := Except.ok.inj happ
        exact hq' ▸ hk
      · rename_i hq
        simp only [bind_eq_ok, pure_eq_ok] at h
        obtain ⟨chain, -, rfl⟩ := h
        exact ⟨fun j => .same, fun q' hq' => absurd (hq.symm.trans hq') (by simp)⟩
    | _ =>
      simp only [step, bind_eq_ok, pure_eq_ok] at h
      obtain ⟨chain, -, rfl⟩ := h
      exact ⟨fun j => .same, fun q' hq' => absurd hq' (by simp [consumedBy])⟩
  | policy c =>
    simp only [step, bind_eq_ok, exists_unit, pure_eq_ok] at h
    obtain ⟨-, A', hA', rfl⟩ := h
    exact ⟨processInstruction_ok hA', fun q' hq' => absurd hq' (by simp [consumedBy])⟩
  | rollupDecision c =>
    simp only [step, bind_eq_ok, pure_eq_ok] at h
    obtain ⟨A', hA', rfl⟩ := h
    exact ⟨decision_ok (by simp) hA', fun q' hq' => absurd hq' (by simp [consumedBy])⟩
  | undelegate k =>
    simp only [step, bind_eq_ok, exists_unit, require_eq_ok, pure_eq_ok] at h
    obtain ⟨ho, rfl⟩ := h
    refine ⟨fun j => advances_update ?_ j, fun q' hq' => absurd hq' (by simp [consumedBy])⟩
    rw [if_neg (by simp), approvalAt, if_neg (by simp [ho])]
    exact .same
  | pay n k =>
    obtain rfl := Except.ok.inj h
    refine ⟨fun j => advances_update (k := k) ?_ j, fun q' hq' => absurd hq' (by simp [consumedBy])⟩
    exact .same

/-- The approvals consumed in a run, in order. -/
def consumedIn (E : Env) (tr : List (Step System Action)) : List Addr :=
  tr.filterMap fun st => (consumedBy E st.pre st.call).map Consumption.approval

/-- Everything consumed so far is marked, and nothing was consumed twice. -/
structure ConsumedOnce (E : Env) (tr : List (Step System Action)) (S : System) : Prop where
  nodup : (consumedIn E tr).Nodup
  marked : ∀ x ∈ consumedIn E tr, ∃ k a, x = .key k ∧ approvalAt S.approvals k = some a ∧ a.status = 3

theorem consumedOnce_step {tr : List (Step System Action)} {a : Action}
    (hI : ConsumedOnce E tr S) (h : step E S a = .ok S') :
    ConsumedOnce E (tr ++ [⟨S, a, S'⟩]) S' := by
  obtain ⟨hadv, hcons⟩ := step_approvals h
  have hkept : ∀ x ∈ consumedIn E tr, ∃ k a, x = .key k ∧
      approvalAt S'.approvals k = some a ∧ a.status = 3 := fun x hx => by
    obtain ⟨k, a, rfl, hk, ha⟩ := hI.marked x hx
    have := hadv k
    rw [hk] at this
    exact ⟨k, a, rfl, this.of_consumed ha, ha⟩
  have hsplit : consumedIn E (tr ++ [(⟨S, a, S'⟩ : Step System Action)]) =
      consumedIn E tr ++ ((consumedBy E S a).map Consumption.approval).toList := by
    rw [consumedIn, consumedIn, List.filterMap_append]
    congr 1
  cases hq : consumedBy E S a with
  | none =>
    rw [hq, Option.map_none, Option.toList_none, List.append_nil] at hsplit
    exact ⟨hsplit ▸ hI.nodup, hsplit ▸ hkept⟩
  | some q =>
    obtain ⟨c, k, x, -, hk, hc⟩ := hcons q hq
    rw [hq, Option.map_some, Option.toList_some] at hsplit
    refine ⟨?_, ?_⟩
    · rw [hsplit, List.nodup_append]
      refine ⟨hI.nodup, by simp, ?_⟩
      -- a consumed approval has status 3, the one consumed now had status 1
      rintro y hy z hz rfl
      rw [List.mem_singleton] at hz
      obtain ⟨k', a', hk', hat, ha'⟩ := hI.marked y hy
      rw [hz, hk, Addr.key.injEq] at hk'
      subst hk'
      rw [approvalAt, if_neg (by simp [hc.program]), hc.recorded, Option.some.injEq] at hat
      subst hat
      have := hc.approved
      omega
    · rw [hsplit]
      intro y hy
      rcases List.mem_append.mp hy with hy | hy
      · exact hkept y hy
      · rw [List.mem_singleton] at hy
        exact ⟨k, _, hy.trans hk, hc.now, rfl⟩

/-- **The life of an approval**: over a whole run an approval goes from pending to approved or
rejected and from approved to consumed, with everything else in it unchanged; each is consumed
by one call at most; and the one a call consumes was approved and had not expired. -/
theorem approval_life {tr : List (Step System Action)}
    (run : Reaches (step E) (fun _ _ => True) .genesis tr S) :
    (∀ st ∈ tr, ∀ k, Advances (approvalAt st.pre.approvals k) (approvalAt st.post.approvals k)) ∧
      (consumedIn E tr).Nodup ∧
      ∀ st ∈ tr, ∀ q, consumedBy E st.pre st.call = some q → ∃ c k a, st.call = .pool (.call c) ∧
        q.approval = .key k ∧ Consumed E st.pre.chain st.pre.approvals st.post.approvals c k a := by
  refine ⟨fun st hst => (step_approvals (run.step_of_mem hst)).1, ?_,
    fun st hst => (step_approvals (run.step_of_mem hst)).2⟩
  have hI : ConsumedOnce E tr S := run.history
    ⟨List.nodup_nil, by simp [consumedIn]⟩ fun _ _ _ _ _ hI _ h => consumedOnce_step hI h
  exact hI.nodup

end Steps

/-! ### A run -/

namespace Regtest

open Pool.Regtest

def approvalKey : Hash := toLe 32 80

def policyEnv : Env :=
  { env with programId := assetProgramId, policyApprovalPda := fun _ _ _ => (approvalKey, 255) }

/-- A permissioned pool whose auditor is the admin. -/
def openPermissionedPool : Label :=
  call 21 [writable pool, writable (.commitmentTree pool 0), readonly zkbtc,
    readonly (.key (toLe 32 70)), readonly (.key (toLe 32 71)), signer admin, system]
    ((zeros 6).toList ++ (env.bytesOf admin).toList ++ (note 1).toList) [] 0

def policyCall (b : UInt8) (accounts : List AccountInfo) (data : List UInt8) : Action :=
  .policy {
    accounts := accounts
    data := b :: data
    slot := 0
    unixTimestamp := 0
    foreign := fun _ => ⟨zeros 32, false, []⟩
    cpiSucceeds := true }

def transferHash : Hash :=
  match computePolicyRequestHash policyEnv pool user transactCode [(note 1).toList] with
  | .ok h => h
  | .error _ => zeros 32

/-- The user asks for a transfer of one note. -/
def ask : Action :=
  policyCall 36 [signer user, readonly pool, writable (.key approvalKey), system]
    (13 :: leBytes 8 100 ++ (env.bytesOf user).toList ++ transferHash.toList ++ (note 5).toList)

def approve : Action := policyCall 37 [signer admin, writable (.key approvalKey)] [1]

/-- A transfer with an approval. -/
def transactApproved (nullifier commitment : Hash) : Label :=
  let stealth := List.replicate stealthDataPerOutput 0
  let bound := match bindBoundParamsToDomain policyEnv (computeBoundParamsHashPrivateTransfer
      policyEnv (policyEnv.sha256 stealth)) pool true with
    | .ok h => h
    | .error _ => zeros 32
  call 13 ([writable pool, writable (.commitmentTree pool 0), readonly (.vkRegistry 1 1), signer user,
      system] ++ nullifierAccounts 0 [nullifier] ++
      [writable (.key approvalKey), readonly (.key policyEnv.policyProgramId)])
    (spendData 0 Jsflags.POLICY (zeroHash treeDepth) bound [nullifier] [commitment] ++ stealth)
    [(policyEnv.policyProgramId, ⟨loader, true, []⟩)] 0

/-- A transfer is asked for, approved and made. -/
def approvedTransfer : List Action :=
  [.pool openPermissionedPool, .pool (initVk 1 1), ask, approve, .pool (transactApproved (note 1) (note 2))]

lemma run_approvedTransfer : (trace (step policyEnv) (fun _ _ => true) .genesis approvedTransfer).any
    (fun tr => consumedIn policyEnv tr = [.key approvalKey]) = true := by
  decide +kernel

end Regtest

open Regtest in
/-- A transfer consumes its approval. -/
theorem approval_life_transfer : ∃ tr S,
    Reaches (step policyEnv) (fun _ _ => True) .genesis tr S ∧
      consumedIn policyEnv tr = [.key approvalKey] ∧ (consumedIn policyEnv tr).Nodup := by
  obtain ⟨tr, htr, hconsumed⟩ := (Option.any_eq_true _ _).mp run_approvedTransfer
  have run := (reaches_of_trace (fun _ _ _ => trivial) htr).2
  exact ⟨tr, _, run, by simpa using hconsumed, (approval_life run).2.1⟩

end Utxopia.Policy
