import Utxopia.Policy.System
import Utxopia.Pool.Nullifiers
import Utxopia.Pool.Tail

/-!
A permissioned pool spends by approval, or leaves to registered destinations.

The flags of a spend say which of the two it claims, and with that how many accounts follow the
fixed ones and where. Whatever they say, an approval is checked against the pool's auditor, the
instruction, the account of the user and the hash of the instruction's own data.
-/

namespace Utxopia.Policy

open Utxopia.ByteString Utxopia.Check Utxopia.Run Utxopia.Runtime Utxopia.Pool

variable {E : Env} {s : State} {S S' : System} {c d : Call} {i : Instruction} {p : PoolState}

/-! ### What a spend has to have allowed -/

/-- The code of the instruction, the parts of its data a request covers, and where the value
leaves the pool to: the kind of the destinations and their keys. -/
structure Terms where
  action : ℕ
  parts : List (List UInt8)
  exits : Option (ℕ × List Hash)

def transactTerms (plan : TransactPlan) : Terms :=
  ⟨transactCode, [nullifiersConcat plan.pre], none⟩

/-- The keys an unshield pays to. -/
def unshieldOwners (E : Env) (s : State) (plan : UnshieldPlan) : List Hash :=
  (plan.recipients.mapM (payoutOwner E s plan.nativeSol)).toOption.getD []

def unshieldTerms (E : Env) (s : State) (c : Call) (plan : UnshieldPlan) : Terms :=
  let owners := unshieldOwners E s plan
  ⟨unshieldCode, [nullifiersConcat plan.pre, c.data.drop plan.pre.stealthDataEnd,
    owners.flatMap Vector.toList], some (exitKindSolanaOwner, owners)⟩

def redeemTerms (E : Env) (c : Call) (plan : RedeemPlan) : Terms :=
  ⟨redeemCode, [nullifiersConcat plan.pre, c.data.drop plan.pre.stealthDataEnd],
    some (exitKindBtcScript, plan.items.map fun i => E.sha256 i.script)⟩

/-- The terms of an instruction, if it is a spend. -/
def spendTerms (E : Env) (s : State) (c : Call) : Instruction → Option Terms
  | .Transact => (planTransact E s c).toOption.map transactTerms
  | .Unshield => (planUnshield E s c).toOption.map (unshieldTerms E s c)
  | .Redeem => (planRedeem E s c).toOption.map (redeemTerms E c)
  | _ => none

/-! ### What the pool checks -/

/-- The bytes at the approval's account allow the terms. -/
structure Granted (E : Env) (c : Call) (pool user : Addr) (p : PoolState) (t : Terms)
    (q : Consumption) (a : ApprovalBytes) : Prop where
  owned : c.ownedBy q.approval E.policyProgramId
  recorded : ApprovalBytes.parse (c.dataOf q.approval) = some a
  approved : a.status = policyStatusApproved
  unexpired : c.slot ≤ a.expiresAtSlot
  pool_eq : a.pool = E.bytesOf pool
  actor_eq : a.actor = E.bytesOf user
  auditor : a.policyAuthority = p.auditor
  action_eq : a.action = t.action
  request : computePolicyRequestHash E pool user t.action t.parts = .ok a.requestHash

/-- All destinations outside the pool are registered for it. -/
def ExitsRegistered (s : State) (pool : Addr) (t : Terms) : Prop :=
  ∃ kind keys, t.exits = some (kind, keys) ∧
    ∀ key ∈ keys, s.exitDestinations.recs (pool, kind, key) = some ⟨kind, key⟩

/-- A spend of a permissioned pool consumes an approval or leaves. -/
inductive Permitted (E : Env) (s : State) (c : Call) (pool user : Addr) (p : PoolState) (t : Terms) :
    Option Consumption → Prop
  | approved {q : Consumption} {a : ApprovalBytes} (h : Granted E c pool user p t q a) :
      Permitted E s c pool user p t (some q)
  | registered (h : ExitsRegistered s pool t) : Permitted E s c pool user p t none

lemma consumePolicyApproval_ok {approval policyProgram pool : AccountInfo} {user : Addr}
    {q : Consumption} {t : Terms} (h : consumePolicyApproval E s c approval policyProgram pool user
      p.auditor t.action t.parts = .ok q) : ∃ a, Granted E c pool.key user p t q a := by
  simp only [consumePolicyApproval, bind_eq_ok, exists_unit, require_eq_ok, orElse_eq_ok, pure_eq_ok,
    Pool.spendIsAllowed] at h
  obtain ⟨-, howned, -, -, -, hash, hhash, a, ha, ⟨haction, hpool, hactor, hauditor, hreq⟩,
    ⟨hstatus, hslot⟩, -, -, rfl⟩ := h
  exact ⟨a, howned, ha, hstatus, hslot, hpool, hactor, hauditor, haction, hreq ▸ hhash⟩

lemma assertExitDestinationRegistered_ok {pool : Addr} {destination : AccountInfo} {kind : ℕ}
    {key : Hash} {u : Unit}
    (h : assertExitDestinationRegistered E s c pool destination kind key = .ok u) :
    s.exitDestinations.recs (pool, kind, key) = some ⟨kind, key⟩ := by
  simp only [assertExitDestinationRegistered, bind_eq_ok, exists_unit, require_eq_ok,
    orElse_eq_ok] at h
  obtain ⟨⟨hk, ho⟩, ⟨kind', key'⟩, hd, rfl, rfl⟩ := h
  rw [hk] at ho hd
  exact Account.rec?_eq_some.mpr ⟨ho, hd⟩

/-! ### The accounts after the fixed ones -/

/-- The accounts of the policy tail are there. -/
lemma policyStart_le {hd : JoinSplitHeader} {tailStart nOutputs accountCount start : ℕ}
    {policy : PolicyTail} {tail : JoinSplitTail}
    (h : resolveJoinsplitTail hd tailStart policy nOutputs accountCount = .ok tail)
    (hs : tail.policyStart = some start) : start + policy.accountCount ≤ accountCount := by
  obtain ⟨hcount, rfl⟩ := resolveJoinsplitTail_eq_ok.mp h
  obtain ⟨-, rfl⟩ := firstSlot_eq_some.mp hs
  simp only [groupSizes, List.sum_cons, List.sum_nil] at hcount
  omega

/-- A permissioned pool wants one of the two tails. -/
lemma fromFlags_permissioned {hd : JoinSplitHeader} {n : ℕ} {tail : PolicyTail}
    (h : PolicyTail.fromFlags hd true n = .ok tail) : tail = .Verified ∨ tail = .Ragequit n := by
  unfold PolicyTail.fromFlags at h
  cases hp : hd.has Jsflags.POLICY <;> cases hr : hd.has Jsflags.RAGEQUIT <;> rw [hp, hr] at h
  · exact absurd h (by simp [throw_ne_ok])
  · exact .inr (Except.ok.inj h).symm
  · exact .inl (Except.ok.inj h).symm
  · exact absurd h (by simp [throw_ne_ok])

lemma authorizeTransact_ok {pre : JoinSplitPrefix} {pool user : AccountInfo}
    {approval policyProgram : Option AccountInfo} {o : Option Consumption} (hp : p.permissioned = true)
    (h : authorizeTransact E s c p pre pool user approval policyProgram = .ok o) :
    Permitted E s c pool.key user.key p ⟨transactCode, [nullifiersConcat pre], none⟩ o := by
  unfold authorizeTransact at h
  obtain ⟨path, hpath, h⟩ := bind_eq_ok.mp h
  rw [hp] at hpath
  split at h
  · simp only [bind_eq_ok, pure_eq_ok] at h
    obtain ⟨q, hq, rfl⟩ := h
    obtain ⟨a, ha⟩ := consumePolicyApproval_ok
      (t := ⟨transactCode, [nullifiersConcat pre], none⟩) hq
    exact .approved ha
  · rename_i hnot
    -- without both accounts a transfer is refused
    cases approval with
    | none =>
      cases policyProgram <;> exact absurd hpath (by simp [resolveSpendPath, throw_ne_ok, allowsRagequit,
        transactCode, unshieldCode, redeemCode])
    | some a =>
      cases policyProgram with
      | none => exact absurd hpath (by simp [resolveSpendPath, throw_ne_ok])
      | some b => exact absurd rfl (hnot a b rfl)

lemma authorizeSpend_ok {pool user : AccountInfo} {tail : JoinSplitTail} {policyTail : PolicyTail}
    {kind n : ℕ} {t : Terms} {keys : List Hash} {o : Option Consumption}
    (hp : p.permissioned = true) (hexits : t.exits = some (kind, keys)) (hkeys : keys.length ≤ n)
    (htail : policyTail = .Verified ∨ policyTail = .Ragequit n)
    (hlen : ∀ start, tail.policyStart = some start →
      start + policyTail.accountCount ≤ c.accounts.length)
    (h : authorizeSpend E s c p pool user tail policyTail t.action kind t.parts keys = .ok o) :
    Permitted E s c pool.key user.key p t o := by
  unfold authorizeSpend at h
  simp only [bind_eq_ok] at h
  obtain ⟨path, hpath, h⟩ := h
  rcases htail with rfl | rfl
  · simp only [resolveSpendPath, hp, not_true_eq_false, if_false, decide_true,
      Except.ok.injEq] at hpath
    subst hpath
    simp only [bind_eq_ok, exists_unit, require_eq_ok, orElse_eq_ok, pure_eq_ok, Prod.exists] at h
    obtain ⟨-, -, -, approval, -, policyProgram, -, -, q, hq, rfl⟩ := h
    obtain ⟨a, ha⟩ := consumePolicyApproval_ok hq
    exact .approved ha
  · simp only [resolveSpendPath, hp, not_true_eq_false, if_false, reduceCtorEq,
      decide_false] at hpath
    split_ifs at hpath with hrage
    · obtain rfl := Except.ok.inj hpath
      simp only [bind_eq_ok, exists_unit, orElse_eq_ok, pure_eq_ok] at h
      obtain ⟨start, hstart, hall, rfl⟩ := h
      have hle := hlen start hstart
      refine .registered ⟨kind, keys, hexits, fun key hkey => ?_⟩
      have hreg : ∀ item ∈ (c.accounts.drop start).zip keys,
          s.exitDestinations.recs (pool.key, kind, item.2) = some ⟨kind, item.2⟩ :=
        loop_forall (fun _ _ _ h => assertExitDestinationRegistered_ok h) hall
      -- every destination meets an account
      obtain ⟨j, hj, rfl⟩ := List.mem_iff_getElem.mp hkey
      have hj' : j < (c.accounts.drop start).length := by
        rw [List.length_drop]
        change start + n ≤ _ at hle
        omega
      have hmem : ((c.accounts.drop start)[j], keys[j]) ∈ (c.accounts.drop start).zip keys :=
        List.mem_iff_getElem.mpr ⟨j, by rw [List.length_zip]; omega, List.getElem_zip⟩
      exact hreg _ hmem

/-! ### The three spends -/

lemma mapM_length {α β : Type} {f : α → Except ProgramError β} {as : List α} {bs : List β}
    (h : as.mapM f = .ok bs) : bs.length = as.length := by
  induction as generalizing bs with
  | nil =>
    rw [List.mapM_nil, pure_eq_ok] at h
    subst h
    rfl
  | cons a as ih =>
    simp only [List.mapM_cons, bind_eq_ok, pure_eq_ok] at h
    obtain ⟨b, -, bs, hbs, rfl⟩ := h
    rw [List.length_cons, List.length_cons, ih hbs]

/-- What a successful check of a spend says about its pool. -/
structure SpendChecked (E : Env) (s : State) (c : Call) (pool : AccountInfo) (t : Terms)
    (o : Option Consumption) : Prop where
  account : c.account 0 = .ok pool
  permitted : ∃ user p, c.account 3 = .ok user ∧ readPool s pool = .ok p ∧
    (p.permissioned = true → Permitted E s c pool.key user.key p t o)

lemma planTransact_permitted {plan : TransactPlan} (h : planTransact E s c = .ok plan) :
    SpendChecked E s c plan.pool (transactTerms plan) plan.consumed := by
  simp only [planTransact, checkTransactPool, bind_eq_ok, exists_unit, require_eq_ok,
    pure_eq_ok] at h
  obtain ⟨hd, -, -, -, pre, -, -, pool, hpool, tree, -, vk, -, user, huser, sys, -, -, -, p, h⟩ := h
  obtain ⟨⟨-, -, -, p, hp, -, -, -, _, -, -, rfl⟩, pt, -, -, tail, -, approval, -, h⟩ := h
  obtain ⟨policyProgram, -, _, -, _, -, _, -, o, ho, src, -, rfl⟩ := h
  exact ⟨hpool, user, p, huser, hp, fun hperm => authorizeTransact_ok hperm ho⟩

lemma unshieldTerms_eq {plan : UnshieldPlan} {owners : List Hash}
    (h : plan.recipients.mapM (payoutOwner E s plan.nativeSol) = .ok owners) :
    unshieldTerms E s c plan = ⟨unshieldCode, [nullifiersConcat plan.pre,
      c.data.drop plan.pre.stealthDataEnd, owners.flatMap Vector.toList],
      some (exitKindSolanaOwner, owners)⟩ := by
  have howners : unshieldOwners E s plan = owners := by
    rw [unshieldOwners, h]
    rfl
  rw [unshieldTerms, howners]

lemma planUnshield_permitted {plan : UnshieldPlan} (h : planUnshield E s c = .ok plan) :
    SpendChecked E s c plan.pool (unshieldTerms E s c plan) plan.consumed := by
  simp only [planUnshield, bind_eq_ok, exists_unit, require_eq_ok, pure_eq_ok, orElse_eq_ok,
    validateProgramOwner_ok] at h
  obtain ⟨hd, -, -, -, pre, -, amounts, -, pool, hpool, tree, -, vk, -, user, huser, sys, -, h⟩ := h
  obtain ⟨tokenConfig, -, vault, -, tokenProgram, -, -, -, -, -, program, -, -, -, -, -, -, h⟩ := h
  obtain ⟨-, v, -, -, p, hp, -, owners, howners, -, -, -, policyTail, htail, tail, hresolve, h⟩ := h
  obtain ⟨sourceTree, -, tc, -, -, -, o, ho, _, -, -, src, -, -, rfl⟩ := h
  refine ⟨hpool, user, p, huser, hp, fun hperm => ?_⟩
  rw [hperm] at htail
  rw [@unshieldTerms_eq E s c _ owners howners]
  have hlen : owners.length ≤ hd.nPublicOutputs := by
    rw [mapM_length howners]
    exact List.length_take_le ..
  exact authorizeSpend_ok (t := ⟨unshieldCode, _, _⟩) hperm rfl hlen (fromFlags_permissioned htail)
    (fun start hs => policyStart_le hresolve hs) ho

lemma planRedeem_permitted {plan : RedeemPlan} (h : planRedeem E s c = .ok plan) :
    SpendChecked E s c plan.pool (redeemTerms E c plan) plan.consumed := by
  simp only [planRedeem, bind_eq_ok, exists_unit, require_eq_ok, pure_eq_ok,
    validateProgramOwner_ok, Prod.exists] at h
  obtain ⟨hd, -, -, -, pre, -, items, off, hitems, -, pool, hpool, tree, -, vk, -, user, h⟩ := h
  obtain ⟨huser, sys, -, tokenConfig, -, -, -, -, -, -, -, -, -, -, p, hp, tc, -, -, -, -, h⟩ := h
  obtain ⟨policyTail, htail, tail, hresolve, sourceTree, -, o, ho, _, -, -, total, -, -, h⟩ := h
  obtain ⟨src, -, -, rfl⟩ := h
  refine ⟨hpool, user, p, huser, hp, fun hperm => ?_⟩
  rw [hperm] at htail
  have hlen : (items.map fun i => E.sha256 i.script).length ≤ hd.nPublicOutputs := by
    rw [List.length_map, readRedeemItems_length hitems]
  exact authorizeSpend_ok (t := ⟨redeemCode, _, _⟩) hperm rfl hlen (fromFlags_permissioned htail)
    (fun start hs => policyStart_le hresolve hs) ho

/-- Every spend is checked against its own terms. -/
lemma spendTerms_permitted {t : Terms} (ht : spendTerms E s c i = some t) :
    ∃ pool, SpendChecked E s c pool t (consumption E s c i) := by
  cases i with
  | Transact =>
    obtain ⟨plan, hplan, rfl⟩ := Option.map_eq_some_iff.mp ht
    have hcons : consumption E s c .Transact = plan.consumed := by
      rw [consumption, hplan]
      rfl
    exact ⟨plan.pool, hcons ▸ planTransact_permitted (toOption_eq_some.mp hplan)⟩
  | Unshield =>
    obtain ⟨plan, hplan, rfl⟩ := Option.map_eq_some_iff.mp ht
    have hcons : consumption E s c .Unshield = plan.consumed := by
      rw [consumption, hplan]
      rfl
    exact ⟨plan.pool, hcons ▸ planUnshield_permitted (toOption_eq_some.mp hplan)⟩
  | Redeem =>
    obtain ⟨plan, hplan, rfl⟩ := Option.map_eq_some_iff.mp ht
    have hcons : consumption E s c .Redeem = plan.consumed := by
      rw [consumption, hplan]
      rfl
    exact ⟨plan.pool, hcons ▸ planRedeem_permitted (toOption_eq_some.mp hplan)⟩
  | _ => exact absurd ht (by simp [spendTerms])

/-- A spend lists nullifiers of the pool it names first. -/
lemma spendTerms_of_spend {sp : Spend} (h : i.spend E s c = some sp) :
    ∃ t pool, spendTerms E s c i = some t ∧ c.account 0 = .ok pool ∧ sp.pool = pool.key := by
  cases i with
  | Transact =>
    obtain ⟨plan, hplan, rfl⟩ := Option.map_eq_some_iff.mp h
    exact ⟨_, plan.pool, Option.map_eq_some_iff.mpr ⟨plan, hplan, rfl⟩,
      (planTransact_permitted (toOption_eq_some.mp hplan)).account, rfl⟩
  | Unshield =>
    obtain ⟨plan, hplan, rfl⟩ := Option.map_eq_some_iff.mp h
    exact ⟨_, plan.pool, Option.map_eq_some_iff.mpr ⟨plan, hplan, rfl⟩,
      (planUnshield_permitted (toOption_eq_some.mp hplan)).account, rfl⟩
  | Redeem =>
    obtain ⟨plan, hplan, rfl⟩ := Option.map_eq_some_iff.mp h
    exact ⟨_, plan.pool, Option.map_eq_some_iff.mpr ⟨plan, hplan, rfl⟩,
      (planRedeem_permitted (toOption_eq_some.mp hplan)).account, rfl⟩
  | _ => exact absurd h (by simp [Instruction.spend])

/-! ### Whole runs -/

/-- A spend consumed one approval, which was good for it, and left all others alone. -/
structure SpentByApproval (E : Env) (S S' : System) (c : Call) (pool user : Addr) (p : PoolState)
    (t : Terms) (k : Hash) (a : ApprovalBytes) : Prop where
  consumed : Consumed E S.chain S.approvals S'.approvals c k a
  pool_eq : a.pool = E.bytesOf pool
  actor_eq : a.actor = E.bytesOf user
  auditor : a.policyAuthority = p.auditor
  action_eq : a.action = t.action
  request : computePolicyRequestHash E pool user t.action t.parts = .ok a.requestHash

/-- A spend left to registered destinations, and no approval changed. -/
structure SpentByLeaving (S S' : System) (pool : Addr) (t : Terms) : Prop where
  registered : ExitsRegistered S.chain pool t
  untouched : S'.approvals = S.approvals

lemma decode_foreign (h : c.decode E = some (i, d)) : d.foreign = c.foreign := by
  unfold Call.decode at h
  split_ifs at h
  · simp only [Option.some.injEq, Prod.mk.injEq] at h
    rw [h.2]
  · split at h
    · obtain ⟨_, -, heq⟩ := Option.map_eq_some_iff.mp h
      rw [Prod.mk.injEq] at heq
      rw [← heq.2]
    · exact absurd h (by simp)

/-- One spend of a permissioned pool. -/
theorem step_authorized {t : Terms} {pool user : AccountInfo} {m : Addr}
    (h : step E S (.pool (.call c)) = .ok S') (hd : (S.view E c).decode E = some (i, d))
    (ht : spendTerms E S.chain d i = some t) (hpool : d.account 0 = .ok pool)
    (huser : d.account 3 = .ok user) (hk : pool.key = .poolState m)
    (hp : S.chain.records.pools m = some p) (hperm : p.permissioned = true) :
    (∃ k a, SpentByApproval E S S' c pool.key user.key p t k a) ∨
      SpentByLeaving S S' pool.key t := by
  obtain ⟨pool', hpool', user', p', huser', hp', hall⟩ := spendTerms_permitted ht
  obtain rfl := Except.ok.inj (hpool.symm.trans hpool')
  obtain rfl := Except.ok.inj (huser.symm.trans huser')
  obtain rfl := readPool_of_records hk hp hp'
  have hconsumed : consumedBy E S (.pool (.call c)) = consumption E S.chain d i := by
    rw [consumedBy, hd]
    rfl
  have hcase := hall hperm
  rw [← hconsumed] at hcase
  cases hq : consumedBy E S (.pool (.call c)) with
  | some q =>
    rw [hq] at hcase
    obtain ⟨c', k, x, hc', hkey, hcons⟩ := (step_approvals h).2 q hq
    obtain rfl : c = c' := by simpa using hc'
    cases hcase with
    | @approved _ a hgrant =>
      have howned := hgrant.owned
      have hrec := hgrant.recorded
      rw [hkey, Call.ownedBy, decide_eq_true_eq, decode_foreign hd] at howned
      rw [hkey, Call.dataOf, decode_foreign hd] at hrec
      -- the bytes the pool read are those the policy program consumed
      obtain ⟨-, hdata⟩ := view_owner howned
      change ApprovalBytes.parse (view E S.approvals c.foreign k).data = some a at hrec
      rw [hdata, hcons.recorded, Option.some.injEq] at hrec
      subst hrec
      exact .inl ⟨k, x, hcons, hgrant.pool_eq, hgrant.actor_eq, hgrant.auditor, hgrant.action_eq,
        hgrant.request⟩
  | none =>
    rw [hq] at hcase
    cases hcase with
    | registered hreg =>
      refine .inr ⟨hreg, ?_⟩
      simp only [step, hq, bind_eq_ok, pure_eq_ok] at h
      obtain ⟨chain, -, rfl⟩ := h
      rfl

/-- The chain under a step of the system takes at most one step, a call as the system sees it. -/
lemma step_chain {a : Action} (h : step E S a = .ok S') : S'.chain = S.chain ∨
    ∃ l, Pool.step E S.chain l = .ok S'.chain ∧
      ∀ c, l = .call c → ∃ c', a = .pool (.call c') ∧ c = S.view E c' := by
  cases a with
  | pool l =>
    cases l with
    | call c =>
      simp only [step] at h
      split at h
      · simp only [bind_eq_ok, pure_eq_ok] at h
        obtain ⟨A', -, chain, hchain, rfl⟩ := h
        exact .inr ⟨_, hchain, fun c' hc' => ⟨c, rfl, (Label.call.inj hc').symm⟩⟩
      · simp only [bind_eq_ok, pure_eq_ok] at h
        obtain ⟨chain, hchain, rfl⟩ := h
        exact .inr ⟨_, hchain, fun c' hc' => ⟨c, rfl, (Label.call.inj hc').symm⟩⟩
    | _ =>
      simp only [step, bind_eq_ok, pure_eq_ok] at h
      obtain ⟨chain, hchain, rfl⟩ := h
      exact .inr ⟨_, hchain, fun c' hc' => absurd hc' (by simp)⟩
  | policy c =>
    simp only [step, bind_eq_ok, exists_unit, pure_eq_ok] at h
    obtain ⟨-, A', -, rfl⟩ := h
    exact .inl rfl
  | rollupDecision c =>
    simp only [step, bind_eq_ok, pure_eq_ok] at h
    obtain ⟨A', -, rfl⟩ := h
    exact .inl rfl
  | undelegate k =>
    simp only [step, bind_eq_ok, exists_unit, pure_eq_ok] at h
    obtain ⟨-, rfl⟩ := h
    exact .inl rfl
  | pay n k =>
    obtain rfl := Except.ok.inj h
    exact .inl rfl

/-- Only spends make records of nullifiers. -/
lemma step_spends {a : Action} (h : step E S a = .ok S') {k : Addr × Option ℕ × Hash}
    (hnone : S.chain.records.nullifiers k = none) (hnew : S'.chain.records.nullifiers k ≠ none) :
    ∃ c i d t pool, a = .pool (.call c) ∧ (S.view E c).decode E = some (i, d) ∧
      spendTerms E S.chain d i = some t ∧ d.account 0 = .ok pool ∧ k.1 = pool.key := by
  rcases step_chain h with hsame | ⟨l, hl, hcall⟩
  · exact absurd hnone (hsame ▸ hnew)
  · rcases step_nullifiers hl k with ⟨hsame, -⟩ | ⟨-, -, hmem⟩
    · exact absurd hnone (hsame ▸ hnew)
    · obtain ⟨⟨pool, tree, nf⟩, hlist, rfl⟩ := List.mem_map.mp hmem
      cases hsp : l.spend E S.chain with
      | none => exact absurd hlist (by simp [listed, hsp])
      | some sp =>
        rw [listed, hsp] at hlist
        obtain ⟨_, -, heq⟩ := List.mem_map.mp hlist
        cases l with
        | call c =>
          obtain ⟨c', rfl, rfl⟩ := hcall c rfl
          obtain ⟨⟨i, d⟩, hd, hsp⟩ := Option.bind_eq_some_iff.mp hsp
          obtain ⟨t, info, ht, hinfo, hpool⟩ := spendTerms_of_spend hsp
          exact ⟨c', i, d, t, info, rfl, hd, ht, hinfo, (Prod.mk.inj heq).1.symm.trans hpool⟩
        | _ => exact absurd hsp (by simp [Label.spend])

/-- **Spends of a permissioned pool are authorized**: over a whole run every transfer, unshield
and redemption of a permissioned pool consumes exactly one approval, which was approved, had not
expired, came from the current auditor and was bound to this very call, or it leaves to
destinations registered for the pool; and no other step makes the record of a nullifier. -/
theorem spend_authorized {tr : List (Step System Action)}
    (run : Reaches (step E) (fun _ _ => True) .genesis tr S) :
    (∀ st ∈ tr, ∀ c i d t pool user m p, st.call = .pool (.call c) →
      (st.pre.view E c).decode E = some (i, d) → spendTerms E st.pre.chain d i = some t →
      d.account 0 = .ok pool → d.account 3 = .ok user → pool.key = .poolState m →
      st.pre.chain.records.pools m = some p → p.permissioned = true →
        (∃ k a, SpentByApproval E st.pre st.post c pool.key user.key p t k a) ∨
          SpentByLeaving st.pre st.post pool.key t) ∧
      ∀ st ∈ tr, ∀ k, st.pre.chain.records.nullifiers k = none →
        st.post.chain.records.nullifiers k ≠ none → ∃ c i d t pool, st.call = .pool (.call c) ∧
          (st.pre.view E c).decode E = some (i, d) ∧ spendTerms E st.pre.chain d i = some t ∧
          d.account 0 = .ok pool ∧ k.1 = pool.key := by
  refine ⟨fun st hst c i d t pool user m p hc hd ht hpool huser hk hp hperm => ?_,
    fun st hst k hnone hnew => step_spends (run.step_of_mem hst) hnone hnew⟩
  have h := run.step_of_mem hst
  rw [hc] at h
  exact step_authorized h hd ht hpool huser hk hp hperm

open Regtest in
/-- The transfer of a run that asks for it first. -/
theorem spend_authorized_transfer : ∃ tr S,
    Reaches (step policyEnv) (fun _ _ => True) .genesis tr S ∧
      ∀ st ∈ tr, ∀ k, st.pre.chain.records.nullifiers k = none →
        st.post.chain.records.nullifiers k ≠ none → ∃ c, st.call = .pool (.call c) := by
  obtain ⟨tr, htr, -⟩ := (Option.any_eq_true _ _).mp run_approvedTransfer
  have run := (reaches_of_trace (fun _ _ _ => trivial) htr).2
  refine ⟨tr, _, run, fun st hst k hnone hnew => ?_⟩
  obtain ⟨c, -, -, -, -, hc, -⟩ := (spend_authorized run).2 st hst k hnone hnew
  exact ⟨c, hc⟩

end Utxopia.Policy
