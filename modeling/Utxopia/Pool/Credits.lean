import Utxopia.Pool.Effect

/-!
How often an output is credited.

A deposit is credited under a receipt, a change output under the receipt of its completion. The
receipt of a swept deposit is named by the deposit and not by the sweep whose output is credited,
and a receipt of one kind does not stop a credit of another. What an output was presented as is
its role; receipts stop a second credit in the same role.
-/

namespace Utxopia.Pool

open Utxopia.ByteString Utxopia.Check Utxopia.Run Utxopia.Runtime

variable {E : Env} {s s' : State} {c c' : Call} {l : Label} {r r' : Records}

/-! ### What a call presents -/

/-- What the transaction of a credited output is presented as. -/
inductive Role where
  | direct
  | swept (depositTxid : Hash)
  | tweaked
  | completion
  deriving DecidableEq

def CompleteDepositData.role (ix : CompleteDepositData) : DepositBinding → Role
  | .Tweak .. => .tweaked
  | .OpReturn => if ix.depositTxSize = 0 then .direct else .swept ix.depositTxid

/-- The output an instruction would credit to a pool, with its role. -/
def Instruction.presented (E : Env) (s : State) (c : Call) :
    Instruction → Option ((Addr × Outpoint) × Role)
  | .CompleteRedemption => do
    let pool ← c.accounts[0]?
    let change ← c.changeOutput
    return ((pool.key, change.1), .completion)
  | i => do
    let tweaked ← i.tweaked
    let (ix, binding) ← (depositInput tweaked c.data).toOption
    let (pool, credit) ← (creditOf E s c ix binding).toOption
    return ((pool, credit.outpoint), ix.role binding)

def Label.presented (E : Env) (s : State) : Label → Option ((Addr × Outpoint) × Role)
  | .call c => (c.decode E).bind fun (i, c) => i.presented E s c
  | _ => none

/-- Everything the calls of a run presented. -/
def presentations (E : Env) (tr : List (Step State Label)) : List ((Addr × Outpoint) × Role) :=
  tr.filterMap fun st => st.call.presented E st.pre

/-- **One role for each output.** -/
def OneRole (ps : List ((Addr × Outpoint) × Role)) : Prop :=
  ∀ a ∈ ps, ∀ b ∈ ps, a.1 = b.1 → a.2 = b.2

lemma presented_of_tweaked {i : Instruction} {tweaked : Bool} (h : i.tweaked = some tweaked) :
    i.presented E s c = do
      let (ix, binding) ← (depositInput tweaked c.data).toOption
      let (pool, credit) ← (creditOf E s c ix binding).toOption
      return ((pool, credit.outpoint), ix.role binding) := by
  cases i with
  | CompleteDeposit | CompleteDepositPermissioned | VerifyDeposit | VerifyDepositPermissioned =>
    obtain rfl := Option.some_inj.mp h
    rfl
  | _ => exact absurd h (by simp [Instruction.tweaked])

/-! ### Receipts and credits -/

def Role.Receipted (r : Records) (o : Outpoint) : Role → Prop
  | .direct => r.depositReceipts (o.1, none) ≠ none
  | .swept depositTxid => r.depositReceipts (depositTxid, none) ≠ none
  | .tweaked => r.depositReceipts (o.1, some o.2) ≠ none
  | .completion => r.completionReceipts o.1 ≠ none

def Event.credited? : Event → Option (Addr × Outpoint)
  | .credited pool o _ => some (pool, o)
  | _ => none

/-- The outputs credited so far, one entry for each time. -/
def Records.credits (r : Records) : List (Addr × Outpoint) := r.journal.filterMap Event.credited?

/-- No output was credited twice. -/
def CreditedOnce (r : Records) : Prop := r.credits.Nodup

/-- No receipt is lost. -/
structure KeepsReceipts (r r' : Records) : Prop where
  deposits : ∀ k, r.depositReceipts k ≠ none → r'.depositReceipts k ≠ none
  completions : ∀ k, r.completionReceipts k ≠ none → r'.completionReceipts k ≠ none

lemma KeepsReceipts.of_eq (hd : r'.depositReceipts = r.depositReceipts)
    (hc : r'.completionReceipts = r.completionReceipts) : KeepsReceipts r r' :=
  ⟨fun k h => by rwa [hd], fun k h => by rwa [hc]⟩

lemma Role.Receipted.keep {role : Role} {o : Outpoint} (h : role.Receipted r o)
    (hk : KeepsReceipts r r') : role.Receipted r' o := by
  cases role with
  | completion => exact hk.completions _ h
  | _ => exact hk.deposits _ h

/-- A step credited an output and left the receipt that was missing. -/
structure Presented (r r' : Records) (k : Addr × Outpoint) (role : Role) : Prop where
  new : ¬ role.Receipted r k.2
  receipted : role.Receipted r' k.2
  credits : r'.credits = r.credits ++ [k]

/-- The parts of a deposit's receipt and outpoint that its data names. -/
lemma creditOf_names {ix : CompleteDepositData} {binding : DepositBinding} {pool : Addr}
    {credit : Credit} (h : creditOf E s c ix binding = .ok (pool, credit)) :
    credit.outpoint.1 = ix.sweepTxid ∧ (ix.depositTxSize = 0 → ix.depositTxid = ix.sweepTxid) ∧
      ∀ v ∈ binding.depositVout, credit.outpoint.2 = v := by
  simp only [creditOf, verifyCredit, bind_eq_ok, exists_unit, pure_eq_ok, Prod.mk.injEq,
    Prod.exists] at h
  obtain ⟨a, -, credit', ⟨-, sweep, -, deposit, hdep, npk, -, cfg, -, amount, vout, hout, rfl⟩, rfl,
    rfl⟩ := h
  refine ⟨rfl, fun hsize => ?_, fun v hv => ?_⟩
  · simp only [readDepositTx, if_pos hsize, bind_eq_ok, exists_unit, require_eq_ok] at hdep
    exact hdep.1
  · cases binding with
    | OpReturn => exact absurd hv (by simp [DepositBinding.depositVout])
    | Tweak ephemeral note v' =>
      obtain rfl : v' = v := by simpa [DepositBinding.depositVout] using hv
      simp only [creditedOutput, tweakedOutput, bind_eq_ok, exists_unit, pure_eq_ok,
        Prod.mk.injEq] at hout
      obtain ⟨-, -, -, -, -, -, -, rfl⟩ := hout
      rfl

lemma depositInput_tweak {tweaked : Bool} {d : List UInt8} {ix : CompleteDepositData}
    {binding : DepositBinding} (h : depositInput tweaked d = .ok (ix, binding)) :
    binding.depositVout ≠ none → ix.depositTxSize = 0 := by
  unfold depositInput at h
  split_ifs at h
  · simp only [verifyDepositData, bind_eq_ok, exists_unit, require_eq_ok, pure_eq_ok,
      Prod.mk.injEq] at h
    obtain ⟨-, base, -, ⟨hsize, -⟩, rfl, rfl⟩ := h
    exact fun _ => hsize
  · simp only [bind_eq_ok, pure_eq_ok, Prod.mk.injEq] at h
    obtain ⟨ix', -, rfl, rfl⟩ := h
    exact fun hne => absurd rfl hne

/-- The receipt of a deposit is that of its role. -/
lemma receipted_iff {ix : CompleteDepositData} {binding : DepositBinding} {pool : Addr}
    {credit : Credit} {tweaked : Bool} {d : List UInt8}
    (hin : depositInput tweaked d = .ok (ix, binding))
    (h : creditOf E s c ix binding = .ok (pool, credit)) :
    (ix.role binding).Receipted r credit.outpoint ↔
      r.depositReceipts (ix.depositTxid, binding.depositVout) ≠ none := by
  obtain ⟨hsweep, hdirect, hvout⟩ := creditOf_names h
  have htweak := depositInput_tweak hin
  cases binding with
  | OpReturn =>
    unfold CompleteDepositData.role
    split_ifs with hsize
    · rw [Role.Receipted, hsweep, ← hdirect hsize]
      rfl
    · exact Iff.rfl
  | Tweak ephemeral note v =>
    have hv : credit.outpoint.2 = v := hvout v rfl
    have hsize := htweak (by simp [DepositBinding.depositVout])
    rw [CompleteDepositData.role, Role.Receipted, hv, hsweep, ← hdirect hsize]
    rfl

/-! ### One step -/

lemma credits_log (r : Records) (es : List Event) :
    (r.log es).credits = r.credits ++ es.filterMap Event.credited? := List.filterMap_append

/-- Events of other kinds are no credits. -/
lemma credits_log_of_none {r' : Records} {es : List Event} (hr : r'.credits = r.credits)
    (h : ∀ e ∈ es, e.credited? = none) : (r'.log es).credits = r.credits := by
  rw [credits_log, List.filterMap_eq_nil_iff.mpr h, List.append_nil, hr]

lemma credits_place (r : Records) (pool : Addr) (index : ℕ) (t t' : CommitmentTree)
    (hs : List Hash) : (r.place pool index t t' hs).credits = r.credits := by
  refine credits_log_of_none rfl fun e he => ?_
  obtain ⟨i, hi, rfl⟩ := List.mem_mapIdx.mp he
  rfl

lemma credits_burn (r : Records) (m : Addr) (p : PoolState) (tree : ℕ) (nfs : List Hash)
    (accounting : NullifierAccounting) :
    (r.burn m p tree nfs accounting).credits = r.credits := by
  change ((r.updateNullifiers _).log _).credits = _
  refine credits_log_of_none rfl fun e he => ?_
  obtain ⟨nf, -, rfl⟩ := List.mem_map.mp he
  rfl

lemma credits_credit (r : Records) (pool : Addr) (o : Outpoint) (amount : ℕ) (leaf : Option Hash) :
    (r.credit pool o amount leaf).credits = r.credits ++ [(pool, o)] := credits_log ..

/-- A change of the books without credits and receipts. -/
structure Uncredited (r r' : Records) : Prop where
  credits : r'.credits = r.credits
  deposits : r'.depositReceipts = r.depositReceipts
  completions : r'.completionReceipts = r.completionReceipts

lemma Uncredited.keeps (h : Uncredited r r') : KeepsReceipts r r' := .of_eq h.deposits h.completions

lemma Uncredited.putTotals {m : Addr} {p : PoolState} {tc : TokenConfig} {now : ℤ}
    (h : Uncredited r r') : Uncredited r (r'.putTotals m p tc now) := by
  unfold Records.putTotals
  split_ifs <;> exact ⟨h.credits, h.deposits, h.completions⟩

/-- Only deposits and completions credit. -/
lemma Effect.uncredited (h : Effect E s l r') :
    Uncredited s.records r' ∨ KeepsReceipts s.records r' ∧ ∃ c i c', l = .call c ∧
      c.decode E = some (i, c') ∧ (i = .CompleteRedemption ∨ i.tweaked ≠ none) := by
  cases h with
  | reconfigured h =>
    obtain ⟨m, p, p', -, -, rfl⟩ := h
    exact .inl ⟨rfl, rfl, rfl⟩
  | shielded => exact .inl (.putTotals ⟨credits_place .., rfl, rfl⟩)
  | @transacted c c' plan m p t r' decoded planned sound burnable outputs =>
    refine .inl ?_
    cases outputs with
    | inline => exact ⟨(credits_place ..).trans (credits_burn ..), rfl, rfl⟩
    | queue =>
      refine ⟨credits_log_of_none (credits_burn s.records m p plan.sourceTreeIndex
        plan.pre.nullifiers plan.accounting) fun e he => ?_, rfl, rfl⟩
      obtain ⟨hash, -, rfl⟩ := List.mem_map.mp he
      rfl
  | unshielded => exact .inl (.putTotals ⟨(credits_place ..).trans (credits_burn ..), rfl, rfl⟩)
  | redeemed => exact .inl ⟨(credits_place ..).trans (credits_burn ..), rfl, rfl⟩
  | cancelled => exact .inl ⟨credits_place .., rfl, rfl⟩
  | merged =>
    refine .inl ⟨credits_log_of_none (credits_place s.records _ _ _ _ _) fun e he => ?_, rfl, rfl⟩
    obtain ⟨i, hi, rfl⟩ := List.mem_mapIdx.mp he
    rfl
  | @completed c c' m p req tc us tx txid leaf T burn revenue now decoded =>
    refine .inr ⟨⟨fun k hk => ?_, fun k hk => ?_⟩, c, _, c', rfl, decoded, .inl rfl⟩
    · cases hchange : c'.changeOutput <;> exact hk
    · have hput : ∀ change, (s.records.complete m p req tc us txid change leaf T burn revenue
          now).completionReceipts = Function.update s.records.completionReceipts txid (some ⟨⟩) :=
        fun change => by cases change <;> rfl
      rw [hput, Function.update_apply]
      split_ifs
      · exact Option.some_ne_none _
      · exact hk
  | @deposited c c' i tweaked ix binding m p tc t t' T credit leaf commitment amount fee now decoded
      kind =>
    refine .inr ⟨⟨fun k hk => ?_, fun k hk => hk⟩, c, i, c', rfl, decoded, .inr ?_⟩
    · change Function.update s.records.depositReceipts _ _ k ≠ none
      rw [Function.update_apply]
      split_ifs
      · exact Option.some_ne_none _
      · exact hk
    · rw [kind]
      exact Option.some_ne_none _
  | _ => exact .inl ⟨rfl, rfl, rfl⟩

lemma Effect.keepsReceipts (h : Effect E s l r') : KeepsReceipts s.records r' :=
  h.uncredited.elim Uncredited.keeps And.left

/-- A deposit credits what it presents, against a receipt that was not there. -/
lemma deposit_presented {i : Instruction} {ix : CompleteDepositData} {binding : DepositBinding}
    {tweaked : Bool} (hkind : i.tweaked = some tweaked)
    (hin : depositInput tweaked c.data = .ok (ix, binding))
    (h : completeDepositInner E s c ix binding = .ok s') :
    ∃ k role, i.presented E s c = some (k, role) ∧ Presented s.records s'.records k role := by
  obtain ⟨m, p, tc, t, t', T, credit, leaf, commitment, amount, fee, hcr, hdep, -, hrec⟩ :=
    completeDepositInner_ok h
  refine ⟨(.poolState m, credit.outpoint), ix.role binding, ?_, ?_, ?_, ?_⟩
  · rw [presented_of_tweaked hkind, hin]
    simp only [Except.toOption, hcr, Option.bind_eq_bind, Option.bind_some, pure]
  · rw [receipted_iff hin hcr, hdep.new]
    exact not_not.mpr rfl
  · rw [receipted_iff hin hcr, hrec]
    change Function.update s.records.depositReceipts _ _ _ ≠ none
    rw [Function.update_self]
    exact Option.some_ne_none _
  · rw [hrec]
    exact (credits_credit ..).trans (by rw [credits_place]; rfl)

/-- A completion credits its change, if it presents some. -/
lemma completion_presented (h : processCompleteRedemption E c s = .ok s') :
    (Instruction.CompleteRedemption.presented E s c = none ∧
        s'.records.credits = s.records.credits) ∨
      ∃ k role, Instruction.CompleteRedemption.presented E s c = some (k, role) ∧
        Presented s.records s'.records k role := by
  obtain ⟨m, p, req, tc, us, tx, txid, leaf, T, burn, revenue, hcom, hnamed, -, hrec⟩ :=
    processCompleteRedemption_ok h
  obtain ⟨pool, hpool, hkey⟩ := Option.map_eq_some_iff.mp hnamed.pool
  cases hchange : c.changeOutput with
  | none =>
    refine .inl ⟨by simp [Instruction.presented, hchange], ?_⟩
    rw [hrec, hchange]
    rfl
  | some change =>
    have htxid : change.1.1 = txid := hcom.change_txid change hchange
    refine .inr ⟨(pool.key, change.1), .completion, ?_, ?_, ?_, ?_⟩
    · simp only [Instruction.presented, hpool, hchange, Option.bind_eq_bind, Option.bind_some, pure]
    · rw [Role.Receipted, htxid, hcom.new]
      exact not_not.mpr rfl
    · rw [Role.Receipted, htxid, hrec, hchange]
      change Function.update s.records.completionReceipts _ _ _ ≠ none
      rw [Function.update_self]
      exact Option.some_ne_none _
    · rw [hrec, hchange, hkey]
      exact credits_credit ..

lemma run_credits {i : Instruction} (hi : i = .CompleteRedemption ∨ i.tweaked ≠ none)
    (h : i.run E s c = .ok s') :
    (i.presented E s c = none ∧ s'.records.credits = s.records.credits) ∨
      ∃ k role, i.presented E s c = some (k, role) ∧ Presented s.records s'.records k role := by
  cases i with
  | CompleteDeposit =>
    obtain ⟨ix, binding, hin, hdep⟩ := processCompleteDeposit_ok h
    exact .inr (deposit_presented rfl hin hdep)
  | CompleteDepositPermissioned =>
    obtain ⟨ix, binding, hin, hdep⟩ := processCompleteDepositPermissioned_ok h
    exact .inr (deposit_presented rfl hin hdep)
  | VerifyDeposit =>
    obtain ⟨ix, binding, hin, hdep⟩ := processVerifyDeposit_ok h
    exact .inr (deposit_presented rfl hin hdep)
  | VerifyDepositPermissioned =>
    obtain ⟨ix, binding, hin, hdep⟩ := processVerifyDepositPermissioned_ok h
    exact .inr (deposit_presented rfl hin hdep)
  | CompleteRedemption => exact completion_presented h
  | _ => exact absurd hi (by simp [Instruction.tweaked])

/-- **Credits**: a step credits what it presents. -/
theorem step_credits (h : step E s l = .ok s') :
    (l.presented E s = none ∧ s'.records.credits = s.records.credits) ∨
      ∃ k role, l.presented E s = some (k, role) ∧ Presented s.records s'.records k role := by
  have heffect := step_effect h
  rcases heffect.uncredited with hnone | ⟨-, c, i, c', rfl, hd, hi⟩
  · cases hp : l.presented E s with
    | none => exact .inl ⟨rfl, hnone.credits⟩
    | some q =>
      -- what is presented comes from a deposit or a completion
      cases l with
      | call c =>
        obtain ⟨⟨i, c'⟩, hd, hq⟩ := Option.bind_eq_some_iff.mp hp
        simp only [step, bind_eq_ok, exists_unit, require_eq_ok, processInstruction, hd] at h
        have hi : i = .CompleteRedemption ∨ i.tweaked ≠ none := by
          cases i <;> simp_all [Instruction.presented, Instruction.tweaked]
        rcases run_credits hi h.2 with ⟨hq', -⟩ | ⟨k, role, hq', hpres⟩
        · exact absurd (hq.symm.trans hq') (Option.some_ne_none _)
        · exact .inr ⟨k, role, hq.symm.trans hq', hpres⟩
      | _ => exact absurd hp (by simp [Label.presented])
  · simp only [step, bind_eq_ok, exists_unit, require_eq_ok, processInstruction, hd] at h
    rw [Label.presented, hd]
    exact run_credits hi h.2

/-- What has a record now had one before or was credited. -/
lemma Effect.recorded (h : Effect E s l r') {k : Addr × Outpoint} (hk : r'.utxos k ≠ none) :
    s.records.utxos k ≠ none ∨ k ∈ r'.credits := by
  have hpicked : ∀ {r : Records} {us : List UtxoEntry} {f : UtxoRecord → Option UtxoRecord},
      Picked r us → Store.updates r.utxos (pickedEntries f us) k ≠ none → r.utxos k ≠ none := by
    intro r us f hus hk
    by_cases hmem : k ∈ (pickedEntries f us).map Prod.fst
    · rw [pickedEntries_keys] at hmem
      obtain ⟨e, he, rfl⟩ := List.mem_map.mp hmem
      rw [hus.recorded e he]
      exact Option.some_ne_none _
    · rwa [Store.updates_of_notMem hmem] at hk
  have hcredit : ∀ {r : Records} {pool : Addr} {o : Outpoint} {amount : ℕ} {leaf : Option Hash},
      (r.credit pool o amount leaf).utxos k ≠ none → r.utxos k ≠ none ∨ k = (pool, o) := by
    intro r pool o amount leaf hk
    by_cases heq : k = (pool, o)
    · exact .inr heq
    · refine .inl ?_
      change Function.update r.utxos (pool, o) _ k ≠ none at hk
      rwa [Function.update_of_ne heq] at hk
  cases h with
  | reconfigured h =>
    obtain ⟨m, p, p', -, -, rfl⟩ := h
    exact .inl hk
  | @shielded c c' m p tc =>
    refine .inl ?_
    simp only [Records.shield, Records.putTotals] at hk
    split_ifs at hk <;> exact hk
  | unshielded =>
    refine .inl ?_
    simp only [Records.unshield, Records.putTotals] at hk
    split_ifs at hk <;> exact hk
  | transacted decoded planned sound burnable outputs => cases outputs <;> exact .inl hk
  | marked decoded h => exact .inl (hpicked h.reservation.picked hk)
  | cancelled decoded h => exact .inl (hpicked h.held.picked hk)
  | @completed c c' m p req tc us tx txid leaf T burn revenue now decoded h =>
    have hold := hpicked (f := fun _ => none) h.held.picked (by
      cases hchange : c'.changeOutput <;> rw [hchange] at hk <;> exact hk)
    cases hchange : c'.changeOutput with
    | none =>
      rw [hchange] at hold
      exact .inl hold
    | some o =>
      rw [hchange] at hold
      refine (hcredit hold).imp_right fun heq => ?_
      rw [heq]
      refine List.mem_filterMap.mpr ⟨.credited (.poolState m) o.1 o.2, ?_, rfl⟩
      exact List.mem_append_right _ (List.mem_singleton_self _)
  | @deposited c c' i tweaked ix binding m p tc t t' T credit =>
    refine (hcredit (r := s.records) (o := credit.outpoint) hk).imp_right fun heq => ?_
    rw [heq]
    refine List.mem_filterMap.mpr ⟨.credited (.poolState m) credit.outpoint credit.amountSats, ?_, rfl⟩
    exact List.mem_append_right _ (List.mem_singleton_self _)
  | _ => exact .inl hk

/-! ### Runs -/

/-- The receipts of everything presented are there, and every presentation was credited. -/
structure Accounted (ps : List ((Addr × Outpoint) × Role)) (r : Records) : Prop where
  receipted : ∀ q ∈ ps, q.2.Receipted r q.1.2
  credits : r.credits = ps.map Prod.fst

lemma presentations_concat (tr : List (Step State Label)) (st : Step State Label) :
    presentations E (tr ++ [st]) = presentations E tr ++ (st.call.presented E st.pre).toList := by
  rw [presentations, List.filterMap_append, List.filterMap_cons, List.filterMap_nil]
  cases st.call.presented E st.pre <;> rfl

theorem accounted_of_reaches {tr : List (Step State Label)} {guard : State → Label → Prop}
    (run : Reaches (step E) guard .genesis tr s) : Accounted (presentations E tr) s.records := by
  refine run.history (I := fun tr s => Accounted (presentations E tr) s.records)
    ⟨by simp [presentations], rfl⟩ ?_
  intro tr s l s' _ hI _ h
  have hkeep := (step_effect h).keepsReceipts
  rw [presentations_concat]
  rcases step_credits h with ⟨hp, hcr⟩ | ⟨k, role, hp, hpres⟩
  · rw [hp]
    refine ⟨fun q hq => ?_, ?_⟩
    · exact (hI.receipted q (by simpa using hq)).keep hkeep
    · rw [hcr, hI.credits]
      simp
  · rw [hp]
    refine ⟨fun q hq => ?_, ?_⟩
    · rcases List.mem_append.mp hq with hq | hq
      · exact (hI.receipted q hq).keep hkeep
      · obtain rfl : q = (k, role) := by simpa using hq
        exact hpres.receipted
    · rw [hpres.credits, hI.credits]
      simp

/-- What has a record was credited. -/
lemma credited_of_recorded {tr : List (Step State Label)} {guard : State → Label → Prop}
    (run : Reaches (step E) guard .genesis tr s) {k : Addr × Outpoint}
    (hk : s.records.utxos k ≠ none) : k ∈ s.records.credits := by
  refine run.inv (I := fun s => ∀ k, s.records.utxos k ≠ none → k ∈ s.records.credits)
    (fun k hk => absurd rfl hk) ?_ k hk
  intro s l s' hI _ h k hk
  rcases (step_effect h).recorded hk with hold | hnew
  · rcases step_credits h with ⟨-, hcr⟩ | ⟨q, role, -, hpres⟩
    · exact hcr ▸ hI k hold
    · exact hpres.credits ▸ List.mem_append_left _ (hI k hold)
  · exact hnew

/-- **One credit exactly if one role**: no output is credited twice if and only if none is
presented in two roles. -/
theorem credited_once_iff {tr : List (Step State Label)}
    (run : Reaches (step E) (fun _ _ => True) .genesis tr s) :
    CreditedOnce s.records ↔ OneRole (presentations E tr) := by
  have hfinal := accounted_of_reaches run
  constructor
  · intro honce a ha b hb heq
    rw [CreditedOnce, hfinal.credits] at honce
    rw [List.inj_on_of_nodup_map honce ha hb heq]
  · intro hone
    -- by induction on the run: a second credit would be in the role of the first
    refine run.history (I := fun tr s => OneRole (presentations E tr) → CreditedOnce s.records)
      (fun _ => List.nodup_nil) ?_ hone
    intro tr s l s' hrun hI _ h hone
    have hacc := accounted_of_reaches hrun
    rw [presentations_concat] at hone
    have honce := hI fun a ha b hb => hone a (List.mem_append_left _ ha) b (List.mem_append_left _ hb)
    rcases step_credits h with ⟨-, hcr⟩ | ⟨k, role, hp, hpres⟩
    · rwa [CreditedOnce, hcr]
    · rw [CreditedOnce, hpres.credits, List.nodup_append]
      refine ⟨honce, by simp, ?_⟩
      rintro a ha b hb rfl
      obtain rfl := List.mem_singleton.mp hb
      rw [hacc.credits] at ha
      obtain ⟨q, hq, rfl⟩ := List.mem_map.mp ha
      have hrole : q.2 = role :=
        hone q (List.mem_append_left _ hq) (q.1, role) (by simp [hp]) rfl
      exact hpres.new (hrole ▸ hacc.receipted q hq)

/-! ### Runs -/

namespace Regtest

def wallet : Hash := toLe 32 80
def walletKey : Hash := toLe 32 90
def vault : Addr := .key (toLe 32 70)
def poolScript : List UInt8 := taprootScript walletKey

/-- The vault of the pool's tokens. -/
def openVault : Label := .tokenChange vault (some ⟨.Token2022, zkbtc, pool, none, 0⟩)

/-- The pool's own token, without fees and limits. -/
def registerZkbtc : Label :=
  call 8 [signer admin, readonly pool, readonly zkbtc, writable (.tokenConfig pool zkbtc),
    readonly vault, system]
    (leBytes 8 0 ++ leBytes 8 1 ++ leBytes 8 (2 ^ 40) ++ leBytes 8 (2 ^ 50)) [] 0

/-- The bytes of Bitcoin transactions without witness. -/
def txInput (o : Outpoint) : List UInt8 := o.1.toList ++ leBytes 4 o.2 ++ [0] ++ leBytes 4 0

def txOutput (o : TxOutput) : List UInt8 :=
  leBytes 8 o.value ++ UInt8.ofNat o.scriptPubkey.length :: o.scriptPubkey

def rawTx (inputs : List Outpoint) (outputs : List TxOutput) : List UInt8 :=
  leBytes 4 2 ++ UInt8.ofNat inputs.length :: inputs.flatMap txInput ++
    UInt8.ofNat outputs.length :: outputs.flatMap txOutput ++ leBytes 4 0

def txidOf (raw : List UInt8) : Hash := computeTxHash env raw

/-- The light client has the transaction in block 100. -/
def blockHash : Hash := toLe 32 99

def verifiedTx (txid : Hash) : Hash := env.verifiedTxPda blockHash txid

def lightClientView (txid : Hash) : List (Hash × Foreign) :=
  [(verifiedTx txid, ⟨env.btcLightClientId, false, [8, 0, 0, 0] ++ leBytes 4 100 ++
      blockHash.toList ++ txid.toList ++ (zeros 48).toList⟩),
    (env.lightClientPda, ⟨env.btcLightClientId, false, 6 :: List.replicate 135 0 ++ leBytes 8 200 ++
      List.replicate 40 0⟩),
    (env.heightIndexPda 100, ⟨env.btcLightClientId, false, 9 :: List.replicate 7 0 ++
      blockHash.toList ++ leBytes 8 100⟩)]

def bufferOf (raw : List UInt8) : Foreign := ⟨env.chadbufferId, false, (zeros 32).toList ++ raw⟩

def sweepBuffer : Hash := toLe 32 120
def depositBuffer : Hash := toLe 32 121

/-- The note a deposit names for the pool. -/
def depositNote (npk : Hash) : TxOutput :=
  ⟨0, [0x6a, 73, 0x53] ++ expectedPoolTag env pool zkbtc ++ (zeros 32).toList ++ npk.toList⟩

/-- A deposit of a transaction's output, swept or direct. -/
def completeDeposit (tree : ℕ) (sweep deposit : List UInt8) (vout : ℕ) : Label :=
  let direct : Bool := sweep = deposit
  let txid := txidOf sweep
  call 11 [writable pool, readonly (.key (verifiedTx txid)), readonly (.key env.lightClientPda),
    writable (.commitmentTree pool tree), readonly (.key sweepBuffer), signer admin, system,
    writable zkbtc, writable vault, readonly (.key token2022ProgramId), readonly (.key depositBuffer),
    writable (.depositReceipt (txidOf deposit) none), writable (.utxo pool (txid, vout)),
    writable (.tokenConfig pool zkbtc), readonly (.poolConfig pool),
    readonly (.key (env.heightIndexPda 100))]
    (txid.toList ++ leBytes 8 100 ++ leBytes 4 sweep.length ++
      leBytes 4 (if direct then 0 else deposit.length) ++ (txidOf deposit).toList)
    ((sweepBuffer, bufferOf sweep) :: (depositBuffer, bufferOf deposit) :: lightClientView txid) 0

/-- A redemption of one note for one payment. -/
def redeem (tree : ℕ) (root nullifier : Hash) (script : List UInt8) (amount nonce : ℕ) : Label :=
  let tokenId := (computeTokenId env zkbtc).toOption.getD (zeros 32)
  let commitment := (computeCommitment env (zeros 32) tokenId amount).toOption.getD (zeros 32)
  call 15 [writable pool, writable (.commitmentTree pool tree), readonly (.vkRegistry 1 1), signer user,
    system, writable (.tokenConfig pool zkbtc),
    writable (.nullifier pool (nullifierSeed tree) nullifier),
    writable (.redemption pool user nonce)]
    (spendData 1 0 root (bound (computeBoundParamsHashRedeem env [script] (env.sha256 [])
      (env.bytesOf user))) [nullifier] [commitment] ++ leBytes 8 amount ++
      UInt8.ofNat script.length :: script ++ leBytes 8 nonce) [] 0

def markProcessing (nonce : ℕ) (outputs : List Outpoint) (slot : ℕ) : Label :=
  call 18 ([writable pool, writable (.redemption pool user nonce), signer user] ++
    outputs.map fun o => writable (.utxo pool o)) [UInt8.ofNat outputs.length] [] slot

/-- A request is taken back into the first tree, as a note of a token. -/
def cancelRedemption (mint : Addr) (nonce : ℕ) (outputs : List Outpoint) (slot : ℕ) : Label :=
  call 19 ([signer user, writable pool, writable (.redemption pool user nonce),
    writable (.commitmentTree pool 0), system, writable (.tokenConfig pool mint)] ++
    outputs.map fun o => writable (.utxo pool o))
    ((zeros 32).toList ++ [UInt8.ofNat outputs.length]) [] slot

/-- A completion without change. -/
def completeRedemption (nonce : ℕ) (payment : List UInt8) (outputs : List Outpoint) : Label :=
  let txid := txidOf payment
  call 17 ([writable pool, writable (.redemption pool user nonce), signer user, writable user,
    readonly (.key (verifiedTx txid)), readonly (.key env.lightClientPda),
    readonly (.key sweepBuffer), writable zkbtc, writable vault, readonly (.key token2022ProgramId),
    writable (.completionReceipt txid), system, readonly (.poolConfig pool)] ++
    outputs.map (fun o => writable (.utxo pool o)) ++
    [writable (.tokenConfig pool zkbtc), readonly (.key (env.heightIndexPda 100))])
    (txid.toList ++ leBytes 4 payment.length ++ [0, UInt8.ofNat outputs.length])
    ((sweepBuffer, bufferOf payment) :: lightClientView txid) 0

def npk : Hash := toLe 32 5
def recipientScript : List UInt8 := taprootScript (toLe 32 77)

/-- A payment to an address of the wallet, and the sweep of it into the pool. -/
def depositTx : List UInt8 :=
  rawTx [(toLe 32 1, 0)] [⟨100000, taprootScript ((env.taprootOutputKey walletKey npk).getD walletKey)⟩,
    depositNote npk]

def sweepTx : List UInt8 := rawTx [(txidOf depositTx, 0)] [⟨100000, poolScript⟩, depositNote npk]

def sweptOutput : Outpoint := (txidOf sweepTx, 0)

def paymentTx : List UInt8 := rawTx [sweptOutput] [⟨98000, recipientScript⟩]

/-- A payment to the pool's script. -/
def directTx (n amount : ℕ) : List UInt8 :=
  rawTx [(toLe 32 n, 0)] [⟨amount, poolScript⟩, depositNote npk]

def outputOf (n amount : ℕ) : Outpoint := (txidOf (directTx n amount), 0)

def openBook : List Label :=
  [openPool, setPoolConfig zkbtc wallet walletKey, openVault, registerZkbtc, initVk 1 1]

/-- The output of a sweep is spent, and the sweep is then deposited as if it were a deposit. -/
def sweptTwice : List Label :=
  openBook ++ [completeDeposit 0 sweepTx depositTx 0,
    redeem 0 (zeroHash treeDepth) (note 1) recipientScript 100000 7,
    markProcessing 7 [sweptOutput] 0,
    completeRedemption 7 paymentTx [sweptOutput], .reap (.utxo pool sweptOutput),
    completeDeposit 0 sweepTx sweepTx 0]

lemma run_sweptTwice : ((exec (step env) (fun _ _ => true) .genesis sweptTwice).any fun s =>
    !decide s.records.credits.Nodup) = true := by
  decide +kernel

lemma run_sweptOnce :
    (exec (step env) (fun _ _ => true) .genesis (sweptTwice.take 6)).isSome = true := by
  decide +kernel

end Regtest

open Regtest in
/-- **Credited twice**: once the output of a sweep is spent, the sweep passes as a deposit of its
own. -/
theorem swept_output_credited_twice : ∃ (tr : List (Step State Label)) (s : State),
    Reaches (step env) (fun _ _ => True) .genesis tr s ∧ ¬ CreditedOnce s.records := by
  obtain ⟨s, hs, hbad⟩ := (Option.any_eq_true _ _).mp run_sweptTwice
  obtain ⟨tr, -, hrun⟩ := reaches_of_exec (fun _ _ _ => trivial) hs
  exact ⟨tr, s, hrun, by simpa [CreditedOnce] using hbad⟩

open Regtest in
/-- One swept deposit. -/
theorem credited_once_iff_swept : ∃ (tr : List (Step State Label)) (s : State),
    tr.map Step.call = sweptTwice.take 6 ∧
      (CreditedOnce s.records ↔ OneRole (presentations env tr)) := by
  obtain ⟨s, hs⟩ := Option.isSome_iff_exists.mp run_sweptOnce
  obtain ⟨tr, hcalls, hrun⟩ := reaches_of_exec (fun _ _ _ => trivial) hs
  exact ⟨tr, s, hcalls, credited_once_iff hrun⟩

end Utxopia.Pool
