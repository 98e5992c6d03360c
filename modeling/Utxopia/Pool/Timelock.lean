import Utxopia.Pool.Approvable
import Utxopia.Pool.Fixed

/-!
How the limits and the fees of a pool change.

The pool has one place for a proposal. New limits wait there for two days; a new proposal takes
the place of the old one, and cancelling empties it. Fees are set with the pool: the one for
deposits can be lowered, the others stay.
-/

namespace Utxopia.Pool

open Utxopia.ByteString Utxopia.Check Utxopia.Run Utxopia.Runtime

variable {E : Env} {s s' : State} {l : Label} {r r' r'' : Records} {m : Addr} {p p' : PoolState}

/-! ### What is governed -/

/-- The limits of a deposit and the base fee. -/
structure Limits where
  minDeposit : ℕ
  maxDeposit : ℕ
  serviceFeeBase : ℕ
  deriving DecidableEq

/-- In order, and at most what there can ever be. -/
structure Limits.Proper (x : Limits) : Prop where
  ordered : x.minDeposit ≤ x.maxDeposit
  bounded : x.maxDeposit ≤ maxSupplySats

namespace PoolState

def limits (p : PoolState) : Limits := ⟨p.minDeposit, p.maxDeposit, p.serviceFeeBase⟩

/-- What waits to become the limits. -/
def pendingLimits (p : PoolState) : Limits :=
  ⟨p.pendingMinDeposit, p.pendingMaxDeposit, p.pendingServiceFee⟩

/-- Everything about limits and fees. -/
def terms (p : PoolState) : Limits × Limits × ℤ × ℕ × ℕ :=
  (p.limits, p.pendingLimits, p.pendingExecuteAfter, p.depositFeeBps, p.withdrawalFeeBps)

/-- The pool with a proposal in the waiting place. -/
def propose (p : PoolState) (x : Limits) (executeAfter : ℤ) : PoolState :=
  { p with
    pendingMinDeposit := x.minDeposit
    pendingMaxDeposit := x.maxDeposit
    pendingServiceFee := x.serviceFeeBase
    pendingExecuteAfter := executeAfter }

/-- The pool after what waited became its limits. -/
def install (p : PoolState) (now : ℤ) : PoolState :=
  clearPendingProposal { p with
    minDeposit := p.pendingMinDeposit
    maxDeposit := p.pendingMaxDeposit
    serviceFeeBase := p.pendingServiceFee
    lastUpdate := now }

end PoolState

/-- The limits a proposal spells. -/
def Call.limits (c : Call) : Limits := ⟨u64At c.data 0, u64At c.data 8, u64At c.data 16⟩

/-- The instructions that use the waiting place. -/
def Instruction.usesProposal : Instruction → Bool
  | .ProposePoolUpdate | .ExecutePoolUpdate | .CancelPoolUpdate => true
  | _ => false

/-- The label is the instruction, on the pool, with this call. -/
structure Asks (E : Env) (l : Label) (i : Instruction) (m : Addr) (c : Call) : Prop where
  decoded : ∃ c₀, l = .call c₀ ∧ c₀.decode E = some (i, c)
  pool : c.accounts[0]?.map AccountInfo.key = some (.poolState m)

/-- The label uses the waiting place of the pool. -/
def UsesProposal (E : Env) (m : Addr) (l : Label) : Prop :=
  ∃ i c, Asks E l i m c ∧ i.usesProposal = true

/-! ### What a step keeps -/

/-- Every pool keeps its terms. -/
def SameTerms (r r' : Records) : Prop := SameFeature PoolState.terms r.pools r'.pools

lemma SameTerms.putTotals {tc : TokenConfig} {now : ℤ} (hp : r.pools m = some p) :
    SameTerms r (r.putTotals m p tc now) := by
  unfold Records.putTotals
  split_ifs
  · exact .update hp rfl rfl
  · exact .of_eq rfl

lemma SameTerms.burn {tree : ℕ} {nfs : List Hash} {accounting : NullifierAccounting}
    (hp : r.pools m = some p) : SameTerms r (r.burn m p tree nfs accounting) :=
  .update hp rfl (by cases accounting <;> rfl)

lemma complete_pools (r : Records) (m : Addr) (p : PoolState) (req : RedemptionRequest)
    (tc : TokenConfig) (us : List UtxoEntry) (txid : Hash) (change : Option (Outpoint × ℕ))
    (leaf : Option Hash) (T : Addr → Option TokenAccount) (burn revenue : ℕ) (now : ℤ) :
    (r.complete m p req tc us txid change leaf T burn revenue now).pools =
      Function.update r.pools m (some (p.settled burn revenue change now)) := by
  cases change <;> rfl

/-- Only the instructions that rewrite settings touch the terms of a pool. -/
theorem Effect.sameTerms (h : Effect E s l r')
    (hset : ∀ c i c', l = .call c → c.decode E = some (i, c') → i.setsPool = false) :
    SameTerms s.records r' ∨ OneNew (fun m p => p.New m) s.records.pools r'.pools := by
  cases h with
  | @reconfigured c c' i r' h decoded setting =>
    exact absurd setting (by rw [hset c i c' rfl decoded]; exact Bool.false_ne_true)
  | @initialized c m p fresh new => exact .inr ⟨m, p, fresh, new, rfl⟩
  | shielded keys h => exact .inl (SameTerms.putTotals h.pool)
  | @transacted c c' plan m p t r' decoded planned sound burnable outputs =>
    have hburn : SameTerms s.records (s.records.burn m p plan.sourceTreeIndex plan.pre.nullifiers
      plan.accounting) := .burn sound.at_tree.pool
    refine .inl (SameFeature.trans hburn ?_)
    cases outputs <;> exact .of_eq rfl
  | @unshielded c c' plan m p tc t t' T amount fee now decoded planned h =>
    have hburn : SameTerms s.records (s.records.burn m p plan.sourceTreeIndex plan.pre.nullifiers
      .ApplyNow) := .burn h.sound.at_tree.pool
    exact .inl (SameFeature.trans hburn (SameTerms.putTotals (Function.update_self ..)))
  | @redeemed c c' plan m p tc t t' now decoded planned h =>
    have hburn : SameTerms s.records (s.records.burn m p plan.sourceTreeIndex plan.pre.nullifiers
      .ApplyNow) := .burn h.sound.at_tree.pool
    exact .inl (SameFeature.trans hburn (.update (Function.update_self ..) rfl rfl))
  | marked decoded h => exact .inl (.update h.pool rfl rfl)
  | cancelled decoded h => exact .inl (.update h.pool rfl rfl)
  | @completed c c' m p req tc us tx txid leaf T burn revenue now decoded h =>
    have hpools := complete_pools s.records m p req tc us txid c'.changeOutput leaf T burn revenue now
    exact .inl (.update h.pool hpools rfl)
  | deposited decoded kind input credited h => exact .inl (.update h.pool rfl rfl)
  | merged decoded at_tree => exact .inl (.update at_tree.pool rfl (by split_ifs <;> rfl))
  | rotated decoded mint pool => exact .inl (.update pool rfl rfl)
  | _ => exact .inl (.of_eq rfl)

/-! ### What a step does to a proposal -/

/-- What a step does to the terms of the pool. -/
inductive Revision (E : Env) (l : Label) (m : Addr) (p : PoolState) : PoolState → Prop
  | kept {p' : PoolState} (idle : ¬ UsesProposal E m l) (limits : p'.limits = p.limits)
      (pending : p'.pendingLimits = p.pendingLimits)
      (executeAfter : p'.pendingExecuteAfter = p.pendingExecuteAfter)
      (deposit : p'.depositFeeBps ≤ p.depositFeeBps)
      (withdrawal : p'.withdrawalFeeBps = p.withdrawalFeeBps) : Revision E l m p p'
  | proposed {c : Call} (asks : Asks E l .ProposePoolUpdate m c) (proper : c.limits.Proper) :
      Revision E l m p (p.propose c.limits (c.unixTimestamp + timelockDelaySecs))
  | installed {c : Call} (asks : Asks E l .ExecutePoolUpdate m c)
      (pending : p.hasPendingProposal = true) (elapsed : p.pendingExecuteAfter ≤ c.unixTimestamp) :
      Revision E l m p (p.install c.unixTimestamp)
  | withdrawn {c : Call} (asks : Asks E l .CancelPoolUpdate m c) :
      Revision E l m p p.clearPendingProposal

lemma idle_of_decode {c c' : Call} {i : Instruction} (hd : c.decode E = some (i, c'))
    (h : i.usesProposal = true → c'.accounts[0]?.map AccountInfo.key ≠ some (.poolState m)) :
    ¬ UsesProposal E m (.call c) := by
  rintro ⟨i₁, c₁, ⟨⟨c₀, hc, hd₁⟩, hpool⟩, huses⟩
  obtain rfl : c = c₀ := Label.call.inj hc
  obtain ⟨rfl, rfl⟩ := Prod.mk.inj (Option.some_inj.mp (hd.symm.trans hd₁))
  exact h huses hpool

lemma updatePool_change {c : Call} {role : PoolRole} {f : PoolState → Except ProgramError PoolState}
    (h : updatePool E s c role f = .ok s') :
    ∃ m p p', c.accounts[0]?.map AccountInfo.key = some (.poolState m) ∧
      s.records.pools m = some p ∧ f p = .ok p' ∧ s'.records = s.records.putPool m p' := by
  simp only [updatePool, readPool, bind_eq_ok, exists_unit, require_eq_ok, pure_eq_ok, orElse_eq_ok,
    validateProgramOwner_ok] at h
  obtain ⟨-, pool, hpool, signer, -, -, ho, -, p, hp, -, p', hp', rfl⟩ := h
  obtain ⟨m, hk, hrec⟩ := pool_of_owned ho hp
  exact ⟨m, p, p', by rw [account_ok.mp hpool, Option.map_some, hk], hrec, hp',
    by rw [hk, records_putPool hrec]⟩

/-- An instruction that rewrites settings revises the one pool it is given. -/
theorem run_revision {c c' : Call} {i : Instruction} (hd : c.decode E = some (i, c'))
    (hi : i.setsPool = true) (h : i.run E s c' = .ok s') :
    ∃ m p p', c'.accounts[0]?.map AccountInfo.key = some (.poolState m) ∧
      s.records.pools m = some p ∧ Revision E (.call c) m p p' ∧
      s'.records = s.records.putPool m p' := by
  have hidle : i.usesProposal = false → ∀ m, ¬ UsesProposal E m (.call c) := fun hu m =>
    idle_of_decode hd fun huses => absurd huses (by rw [hu]; exact Bool.false_ne_true)
  cases i with
  | SetPaused =>
    obtain ⟨m, p, p', hkey, hp, hf, hrec⟩ := updatePool_change h
    simp only [bind_eq_ok, exists_unit, pure_eq_ok] at hf
    obtain ⟨-, rfl⟩ := hf
    refine ⟨m, p, _, hkey, hp, ?_, hrec⟩
    exact .kept (hidle rfl m) rfl rfl rfl le_rfl rfl
  | ProposePoolUpdate =>
    obtain ⟨m, p, p', hkey, hp, hf, hrec⟩ := updatePool_change h
    simp only [bind_eq_ok, exists_unit, require_eq_ok, pure_eq_ok] at hf
    obtain ⟨-, hle, hmax, -, rfl⟩ := hf
    exact ⟨m, p, _, hkey, hp, .proposed ⟨⟨c, rfl, hd⟩, hkey⟩ ⟨hle, hmax⟩, hrec⟩
  | ExecutePoolUpdate =>
    obtain ⟨m, p, p', hkey, hp, hf, hrec⟩ := updatePool_change h
    simp only [bind_eq_ok, exists_unit, require_eq_ok, pure_eq_ok] at hf
    obtain ⟨hpending, helapsed, rfl⟩ := hf
    exact ⟨m, p, _, hkey, hp, .installed ⟨⟨c, rfl, hd⟩, hkey⟩ hpending helapsed, hrec⟩
  | CancelPoolUpdate =>
    obtain ⟨m, p, p', hkey, hp, hf, hrec⟩ := updatePool_change h
    simp only [bind_eq_ok, exists_unit, pure_eq_ok] at hf
    obtain ⟨-, rfl⟩ := hf
    exact ⟨m, p, _, hkey, hp, .withdrawn ⟨⟨c, rfl, hd⟩, hkey⟩, hrec⟩
  | SetDepositFeeBps =>
    obtain ⟨m, p, p', hkey, hp, hf, hrec⟩ := updatePool_change h
    simp only [bind_eq_ok, exists_unit, require_eq_ok, pure_eq_ok] at hf
    obtain ⟨-, hle, rfl⟩ := hf
    refine ⟨m, p, _, hkey, hp, ?_, hrec⟩
    exact .kept (hidle rfl m) rfl rfl rfl hle rfl
  | SetAuditorFrozen =>
    obtain ⟨m, p, p', hkey, hp, hf, hrec⟩ := updatePool_change h
    simp only [bind_eq_ok, exists_unit, pure_eq_ok] at hf
    obtain ⟨-, rfl⟩ := hf
    refine ⟨m, p, _, hkey, hp, ?_, hrec⟩
    exact .kept (hidle rfl m) rfl rfl rfl le_rfl rfl
  | SetAuditorViewingPubkey =>
    obtain ⟨m, p, p', hkey, hp, hf, hrec⟩ := updatePool_change h
    simp only [bind_eq_ok, exists_unit, pure_eq_ok] at hf
    obtain ⟨-, rfl⟩ := hf
    refine ⟨m, p, _, hkey, hp, ?_, hrec⟩
    exact .kept (hidle rfl m) rfl rfl rfl le_rfl rfl
  | RotateAuditor =>
    obtain ⟨m, p, p', hkey, hp, hf, hrec⟩ := updatePool_change h
    simp only [bind_eq_ok, exists_unit, pure_eq_ok] at hf
    obtain ⟨-, -, -, rfl⟩ := hf
    refine ⟨m, p, _, hkey, hp, ?_, hrec⟩
    exact .kept (hidle rfl m) rfl rfl rfl le_rfl rfl
  | _ => exact absurd hi (by decide)

lemma run_of_step {c c' : Call} {i : Instruction} (h : step E s (.call c) = .ok s')
    (hd : c.decode E = some (i, c')) : i.run E s c' = .ok s' := by
  simp only [step, bind_eq_ok, exists_unit, require_eq_ok, processInstruction, hd] at h
  exact h.2

/-- A pool stays, and a step revises its terms in one of four ways. -/
theorem step_revision (hstep : step E s l = .ok s') (hp : s.records.pools m = some p) :
    ∃ p', s'.records.pools m = some p' ∧ Revision E l m p p' := by
  by_cases hset : ∃ c i c', l = .call c ∧ c.decode E = some (i, c') ∧ i.setsPool = true
  · obtain ⟨c, i, c', rfl, hd, hi⟩ := hset
    obtain ⟨m₁, p₁, p', hkey, hp₁, hrev, hrec⟩ := run_revision hd hi (run_of_step hstep hd)
    rw [hrec]
    rcases eq_or_ne m m₁ with rfl | hne
    · obtain rfl : p₁ = p := Option.some_inj.mp (hp₁.symm.trans hp)
      exact ⟨p', Function.update_self .., hrev⟩
    · refine ⟨p, (Function.update_of_ne hne ..).trans hp, .kept ?_ rfl rfl rfl le_rfl rfl⟩
      refine idle_of_decode hd fun _ heq => hne ?_
      simpa using heq.symm.trans hkey
  · have hnot : ∀ c i c', l = .call c → c.decode E = some (i, c') → i.setsPool = false :=
      fun c i c' hl hd => Bool.eq_false_iff.mpr fun hi => hset ⟨c, i, c', hl, hd, hi⟩
    have hidle : ¬ UsesProposal E m l := by
      rintro ⟨i, c', ⟨⟨c, rfl, hd⟩, -⟩, huses⟩
      have := hnot c i c' rfl hd
      cases i <;> simp [Instruction.usesProposal, Instruction.setsPool] at huses this
    rcases (step_effect hstep).sameTerms hnot with hsame | ⟨m₁, p₁, hnone, -, hpools⟩
    · obtain ⟨p', hp', ht⟩ := hsame.keeps hp
      simp only [PoolState.terms, Prod.mk.injEq] at ht
      obtain ⟨hlimits, hpending, hafter, hdeposit, hwithdrawal⟩ := ht
      exact ⟨p', hp', .kept hidle hlimits hpending hafter hdeposit.le hwithdrawal⟩
    · refine ⟨p, ?_, .kept hidle rfl rfl rfl le_rfl rfl⟩
      rw [hpools, Function.update_of_ne, hp]
      rintro rfl
      exact absurd (hnone.symm.trans hp) (by simp)

/-- A pool that was not there before is new. -/
lemma step_fresh (hstep : step E s l = .ok s') (hnone : s.records.pools m = none)
    (hp : s'.records.pools m = some p) :
    p.New m := by
  by_cases hset : ∃ c i c', l = .call c ∧ c.decode E = some (i, c') ∧ i.setsPool = true
  · obtain ⟨c, i, c', rfl, hd, hi⟩ := hset
    obtain ⟨m₁, p₁, p', -, hp₁, -, hrec⟩ := run_revision hd hi (run_of_step hstep hd)
    have hne : m ≠ m₁ := by
      rintro rfl
      exact absurd (hnone.symm.trans hp₁) (by simp)
    rw [hrec] at hp
    exact absurd (hnone.symm.trans ((Function.update_of_ne hne ..).symm.trans hp)) (by simp)
  · have hnot : ∀ c i c', l = .call c → c.decode E = some (i, c') → i.setsPool = false :=
      fun c i c' hl hd => Bool.eq_false_iff.mpr fun hi => hset ⟨c, i, c', hl, hd, hi⟩
    rcases (step_effect hstep).sameTerms hnot with hsame | ⟨m₁, p₁, -, hnew, hpools⟩
    · have hm := hsame m
      rw [hp, hnone] at hm
      exact absurd hm (by simp)
    · rw [hpools] at hp
      rcases update_eq_some.mp hp with ⟨rfl, rfl⟩ | ⟨-, hold⟩
      · exact hnew
      · exact absurd hold (by simp [hnone])

/-! ### Runs -/

/-- The proposal that waits in the pool is the last one made, and the place was not used since. -/
def Waiting (E : Env) (m : Addr) (p : PoolState) (tr : List (Step State Label)) : Prop :=
  p.hasPendingProposal = true → ∃ before st after c, tr = before ++ st :: after ∧
    Asks E st.call .ProposePoolUpdate m c ∧ c.limits = p.pendingLimits ∧
    c.unixTimestamp + timelockDelaySecs = p.pendingExecuteAfter ∧
    ∀ x ∈ after, ¬ UsesProposal E m x.call

/-- What the run so far says about the terms of a pool. -/
structure Governed (E : Env) (m : Addr) (p : PoolState) (tr : List (Step State Label)) : Prop where
  limits : p.limits.Proper
  pending : p.pendingLimits.Proper
  waiting : Waiting E m p tr

lemma Waiting.later {st : Step State Label} {tr : List (Step State Label)} (h : Waiting E m p tr)
    (hidle : ¬ UsesProposal E m st.call) (hpending : p'.pendingLimits = p.pendingLimits)
    (hafter : p'.pendingExecuteAfter = p.pendingExecuteAfter) : Waiting E m p' (tr ++ [st]) := by
  intro hp'
  have hp : p.hasPendingProposal = true := by
    rw [PoolState.hasPendingProposal, hafter] at hp'
    exact hp'
  obtain ⟨before, prop, after, c, rfl, hasks, hlimits, htime, hquiet⟩ := h hp
  refine ⟨before, prop, after ++ [st], c, by simp, hasks, hlimits.trans hpending.symm,
    htime.trans hafter.symm, fun x hx => ?_⟩
  rcases List.mem_append.mp hx with hx | hx
  · exact hquiet x hx
  · rw [List.mem_singleton.mp hx]
    exact hidle

lemma Governed.revise {st : Step State Label} {tr : List (Step State Label)}
    (h : Governed E m p tr) (hrev : Revision E st.call m p p') : Governed E m p' (tr ++ [st]) := by
  have hzero : (⟨0, 0, 0⟩ : Limits).Proper := ⟨le_rfl, Nat.zero_le _⟩
  cases hrev with
  | kept idle limits pending executeAfter =>
    exact ⟨by rw [limits]; exact h.limits, by rw [pending]; exact h.pending,
      h.waiting.later idle pending executeAfter⟩
  | @proposed c asks proper =>
    refine ⟨h.limits, proper, fun _ => ⟨tr, st, [], c, rfl, asks, rfl, rfl, by simp⟩⟩
  | installed asks => exact ⟨h.pending, hzero, fun hp => absurd hp (by simp [PoolState.hasPendingProposal,
      PoolState.install, PoolState.clearPendingProposal])⟩
  | withdrawn asks => exact ⟨h.limits, hzero, fun hp => absurd hp (by simp
      [PoolState.hasPendingProposal, PoolState.clearPendingProposal])⟩

theorem governed_of_reaches {guard : State → Label → Prop} {tr : List (Step State Label)}
    (run : Reaches (step E) guard .genesis tr s) (hp : s.records.pools m = some p) :
    Governed E m p tr := by
  refine run.history (I := fun tr s => ∀ p, s.records.pools m = some p → Governed E m p tr)
    (fun p hp => absurd hp (by simp)) ?_ p hp
  intro tr s l s' _ hI _ hstep p' hp'
  cases hp : s.records.pools m with
  | none =>
    have hnew := step_fresh hstep hp hp'
    refine ⟨⟨hnew.ordered, hnew.bounded.maxDeposit⟩, ⟨?_, hnew.bounded.pendingMaxDeposit⟩, fun h => ?_⟩
    · exact hnew.pendingMinDeposit.le.trans (Nat.zero_le _)
    · exact absurd h (by simp [PoolState.hasPendingProposal, hnew.noProposal])
  | some p =>
    obtain ⟨p₁, hp₁, hrev⟩ := step_revision hstep hp
    obtain rfl : p₁ = p' := Option.some_inj.mp (hp₁.symm.trans hp')
    exact Governed.revise (hI p hp) hrev

/-- The limits of the pool change only when they are installed, and what is installed was proposed
two days before; since then there was no other proposal, and it was not withdrawn or installed. -/
structure Timelocked (E : Env) (m : Addr) (before : List (Step State Label))
    (st : Step State Label) (p p' : PoolState) : Prop where
  only : p'.limits ≠ p.limits → ∃ c, Asks E st.call .ExecutePoolUpdate m c
  proposed : ∀ c, Asks E st.call .ExecutePoolUpdate m c → ∃ earlier prop between cp,
    before = earlier ++ prop :: between ∧ Asks E prop.call .ProposePoolUpdate m cp ∧
    cp.limits = p'.limits ∧ cp.unixTimestamp + timelockDelaySecs ≤ c.unixTimestamp ∧
    ∀ x ∈ between, ¬ UsesProposal E m x.call

/-- The fees of a pool and of its tokens after a step. -/
structure FeesKept (r r' : Records) : Prop where
  pool : ∀ m p, r.pools m = some p → ∃ p', r'.pools m = some p' ∧
    p'.depositFeeBps ≤ p.depositFeeBps ∧ p'.withdrawalFeeBps = p.withdrawalFeeBps
  token : ∀ k tc, r.tokenConfigs k = some tc → ∃ tc', r'.tokenConfigs k = some tc' ∧
    tc'.serviceFee = tc.serviceFee

lemma Revision.fees (h : Revision E l m p p') :
    p'.depositFeeBps ≤ p.depositFeeBps ∧ p'.withdrawalFeeBps = p.withdrawalFeeBps := by
  cases h with
  | kept idle limits pending executeAfter deposit withdrawal => exact ⟨deposit, withdrawal⟩
  | proposed => exact ⟨le_rfl, rfl⟩
  | installed => exact ⟨le_rfl, rfl⟩
  | withdrawn => exact ⟨le_rfl, rfl⟩

lemma Asks.usesProposal {i : Instruction} {c : Call} (h : Asks E l i m c)
    (hi : i.usesProposal = true) : UsesProposal E m l := ⟨i, c, h, hi⟩

lemma Asks.unique {i i' : Instruction} {c c' : Call} (h : Asks E l i m c) (h' : Asks E l i' m c') :
    i = i' ∧ c = c' := by
  obtain ⟨⟨c₀, rfl, hd⟩, -⟩ := h
  obtain ⟨⟨c₁, hc, hd'⟩, -⟩ := h'
  obtain rfl : c₀ = c₁ := Label.call.inj hc
  exact Prod.mk.inj (Option.some_inj.mp (hd.symm.trans hd'))

lemma Governed.timelocked {st : Step State Label} {before : List (Step State Label)}
    (h : Governed E m p before) (hrev : Revision E st.call m p p') :
    Timelocked E m before st p p' := by
  cases hrev with
  | kept idle limits =>
    exact ⟨fun hne => absurd limits hne, fun c hasks => absurd (hasks.usesProposal rfl) idle⟩
  | proposed asks =>
    exact ⟨fun hne => absurd rfl hne, fun c hasks => absurd (asks.unique hasks).1 (by decide)⟩
  | withdrawn asks =>
    exact ⟨fun hne => absurd rfl hne, fun c hasks => absurd (asks.unique hasks).1 (by decide)⟩
  | @installed c asks pending elapsed =>
    refine ⟨fun _ => ⟨c, asks⟩, fun c' hasks => ?_⟩
    obtain ⟨-, rfl⟩ := asks.unique hasks
    obtain ⟨earlier, prop, between, cp, rfl, hprop, hlimits, htime, hquiet⟩ := h.waiting pending
    exact ⟨earlier, prop, between, cp, rfl, hprop, hlimits, htime.trans_le elapsed, hquiet⟩

/-- The limits and fees over a run. -/
structure TermsGoverned (E : Env) (tr : List (Step State Label)) (s : State) : Prop where
  timelocked : ∀ m before st after p p', tr = before ++ st :: after →
    st.pre.records.pools m = some p → st.post.records.pools m = some p' →
    Timelocked E m before st p p'
  proper : ∀ m p, s.records.pools m = some p → p.limits.Proper
  fees : ∀ st ∈ tr, FeesKept st.pre.records st.post.records

/-- **Limits wait and fees do not rise**: over every run, the limits of a pool change only when a
proposal of exactly these is executed that is two days old and was the last use of the waiting
place; they are always in order and at most the supply; the fee for deposits never rises, and the
fee for withdrawals and the fee of a token stay. -/
theorem terms_governed {tr : List (Step State Label)}
    (run : Reaches (step E) (fun _ _ => True) .genesis tr s) : TermsGoverned E tr s := by
  refine ⟨fun m before st after p p' htr hp hp' => ?_,
    fun m p hp => (governed_of_reaches run hp).limits, fun st hst => ⟨fun m p hp => ?_, ?_⟩⟩
  · obtain ⟨hbefore, hstep⟩ := run.split htr
    obtain ⟨p₁, hp₁, hrev⟩ := step_revision hstep hp
    obtain rfl : p₁ = p' := Option.some_inj.mp (hp₁.symm.trans hp')
    exact (governed_of_reaches hbefore hp).timelocked hrev
  · obtain ⟨p', hp', hrev⟩ := step_revision (run.step_of_mem hst) hp
    exact ⟨p', hp', hrev.fees⟩
  · intro k tc htc
    obtain ⟨tc', htc', hfixed⟩ := step_fixed (run.step_of_mem hst) htc
    exact ⟨tc', htc', (congrArg (fun x => x.2.2.2) hfixed :)⟩

namespace Regtest

/-- New limits are proposed, and executed two days later. -/
def raisedLimits : List Label :=
  [openPool, proposePoolUpdate 5000 (2 ^ 30) 100, later 172800 executePoolUpdate]

lemma run_raisedLimits : ((exec (step env) (fun _ _ => true) .genesis raisedLimits).any fun s =>
    (s.records.pools zkbtc).any fun p => p.limits = ⟨5000, 2 ^ 30, 100⟩) = true := by
  decide +kernel

end Regtest

open Regtest in
/-- A proposal that was executed after two days. -/
theorem terms_governed_raisedLimits : ∃ (tr : List (Step State Label)) (s : State) (p : PoolState),
    tr.map Step.call = raisedLimits ∧ s.records.pools zkbtc = some p ∧
      p.limits = ⟨5000, 2 ^ 30, 100⟩ ∧ TermsGoverned env tr s := by
  obtain ⟨s, hs, hlimits⟩ := (Option.any_eq_true _ _).mp run_raisedLimits
  obtain ⟨p, hp, hlimits⟩ := (Option.any_eq_true _ _).mp hlimits
  obtain ⟨tr, hcalls, hrun⟩ := reaches_of_exec (fun _ _ _ => trivial) hs
  exact ⟨tr, s, p, hcalls, hp, of_decide_eq_true hlimits, terms_governed hrun⟩

end Utxopia.Pool
