import Utxopia.Pool.Effect

/-!
A nullifier is listed by one spend.

Three instructions spend. Each lists its nullifiers in its data, finds the tree that has the
proof's root and makes a record for every nullifier under the seeds of that tree. The record
is the guard: a spend wants it absent, and no instruction takes it away.
-/

namespace Utxopia.Pool

open Utxopia.ByteString Utxopia.Check Utxopia.Run Utxopia.Runtime

variable {E : Env} {s s' : State} {c c' : Call} {l : Label}

/-! ### What a spend lists -/

structure Spend where
  pool : Addr
  sourceTreeIndex : ℕ
  merkleRoot : Hash
  nullifiers : List Hash

def TransactPlan.spend (plan : TransactPlan) : Spend :=
  ⟨plan.pool.key, plan.sourceTreeIndex, plan.pre.merkleRoot, plan.pre.nullifiers⟩

def UnshieldPlan.spend (plan : UnshieldPlan) : Spend :=
  ⟨plan.pool.key, plan.sourceTreeIndex, plan.pre.merkleRoot, plan.pre.nullifiers⟩

def RedeemPlan.spend (plan : RedeemPlan) : Spend :=
  ⟨plan.pool.key, plan.sourceTreeIndex, plan.pre.merkleRoot, plan.pre.nullifiers⟩

/-- The spend of an instruction, if it is one of the three. -/
def Instruction.spend (E : Env) (s : State) (c : Call) : Instruction → Option Spend
  | .Transact => (planTransact E s c).toOption.map TransactPlan.spend
  | .Unshield => (planUnshield E s c).toOption.map UnshieldPlan.spend
  | .Redeem => (planRedeem E s c).toOption.map RedeemPlan.spend
  | _ => none

def Label.spend (E : Env) (s : State) : Label → Option Spend
  | .call c => (c.decode E).bind fun (i, c) => i.spend E s c
  | _ => none

/-- Pool, source tree and nullifier, for every nullifier a call lists. -/
def Spend.listed (sp : Spend) : List (Addr × ℕ × Hash) :=
  sp.nullifiers.map fun nf => (sp.pool, sp.sourceTreeIndex, nf)

def listed (E : Env) (st : Step State Label) : List (Addr × ℕ × Hash) :=
  (st.call.spend E st.pre).elim [] Spend.listed

/-- Where the record of a nullifier is kept. -/
def nullifierKey (k : Addr × ℕ × Hash) : Addr × Option ℕ × Hash := (k.1, nullifierSeed k.2.1, k.2.2)

/-! ### One step -/

/-- A spend made a record for each nullifier it lists, under the tree of its root. -/
structure Spend.Recorded (sp : Spend) (r r' : Records) : Prop where
  nodup : sp.nullifiers.Nodup
  fresh : ∀ k ∈ sp.listed, r.nullifiers (nullifierKey k) = none
  recorded : r'.nullifiers = Store.updates r.nullifiers
    (nullifierEntries sp.pool sp.sourceTreeIndex sp.nullifiers)
  source : ∃ t, r.trees (sp.pool, sp.sourceTreeIndex) = some t ∧ t.isValidRoot sp.merkleRoot

lemma Spend.Recorded.of_burnable {sp : Spend} {r r' : Records} {m : Addr} {activeIndex : ℕ}
    (hpool : sp.pool = .poolState m) (hb : Burnable r m sp.sourceTreeIndex sp.nullifiers)
    (hs : SourceTree r (.poolState m) activeIndex sp.sourceTreeIndex sp.merkleRoot)
    (hr : r'.nullifiers = Store.updates r.nullifiers
      (nullifierEntries (.poolState m) sp.sourceTreeIndex sp.nullifiers)) : sp.Recorded r r' := by
  refine ⟨hb.nodup, fun k hk => ?_, hpool ▸ hr, hpool ▸ hs.accepts⟩
  obtain ⟨nf, hnf, rfl⟩ := List.mem_map.mp hk
  rw [hpool]
  exact hb.fresh nf hnf

lemma transactOutputs_nullifiers {r r' : Records} {plan : TransactPlan} {m : Addr}
    {t : CommitmentTree} (h : TransactOutputs E r plan m t r') : r'.nullifiers = r.nullifiers := by
  cases h <;> rfl

lemma putTotals_nullifiers (r : Records) (m : Addr) (p : PoolState) (tc : TokenConfig) (now : ℤ) :
    (r.putTotals m p tc now).nullifiers = r.nullifiers :=
  putTotals_view Records.nullifiers (fun _ _ _ => rfl) ..

/-- A successful spend records what it lists. -/
lemma run_recorded {i : Instruction} {sp : Spend} (hsp : i.spend E s c = some sp)
    (h : i.run E s c = .ok s') : sp.Recorded s.records s'.records := by
  cases i with
  | Transact =>
    obtain ⟨plan₀, hplan₀, rfl⟩ := Option.map_eq_some_iff.mp hsp
    obtain ⟨plan, m, p, t, hplan, hs, hb, hout⟩ := processTransact_ok h
    rw [toOption_eq_some, hplan, Except.ok.injEq] at hplan₀
    subst hplan₀
    exact .of_burnable hs.at_tree.pool_key hb hs.source (transactOutputs_nullifiers hout)
  | Unshield =>
    obtain ⟨plan₀, hplan₀, rfl⟩ := Option.map_eq_some_iff.mp hsp
    obtain ⟨plan, m, p, tc, t, t', T, amount, fee, hplan, hun, hrec⟩ := processUnshield_ok h
    rw [toOption_eq_some, hplan, Except.ok.injEq] at hplan₀
    subst hplan₀
    refine .of_burnable hun.sound.at_tree.pool_key hun.burnable hun.sound.source ?_
    rw [hrec, Records.unshield, putTotals_nullifiers]
    rfl
  | Redeem =>
    obtain ⟨plan₀, hplan₀, rfl⟩ := Option.map_eq_some_iff.mp hsp
    obtain ⟨plan, m, p, tc, t, t', hplan, hre, hrec⟩ := processRedeem_ok h
    rw [toOption_eq_some, hplan, Except.ok.injEq] at hplan₀
    subst hplan₀
    refine .of_burnable hre.sound.at_tree.pool_key hre.burnable hre.sound.source ?_
    rw [hrec]
    rfl
  | _ => exact absurd hsp (by simp [Instruction.spend])

theorem step_recorded {sp : Spend} (hsp : l.spend E s = some sp) (h : step E s l = .ok s') :
    sp.Recorded s.records s'.records := by
  cases l with
  | call c =>
    obtain ⟨⟨i, c'⟩, hd, hsp⟩ := Option.bind_eq_some_iff.mp hsp
    simp only [step, bind_eq_ok, exists_unit, require_eq_ok, processInstruction, hd] at h
    exact run_recorded hsp h.2
  | fund n a => exact absurd hsp (by simp [Label.spend])
  | reap a => exact absurd hsp (by simp [Label.spend])
  | tokenChange a t => exact absurd hsp (by simp [Label.spend])

lemma complete_nullifiers (r : Records) (m : Addr) (p : PoolState) (req : RedemptionRequest)
    (tc : TokenConfig) (us : List UtxoEntry) (txid : Hash) (change : Option (Outpoint × ℕ))
    (leaf : Option Hash) (T : Addr → Option TokenAccount) (burn revenue : ℕ) (now : ℤ) :
    (r.complete m p req tc us txid change leaf T burn revenue now).nullifiers = r.nullifiers := by
  cases change <;> rfl

/-- Whatever else happens, the records of nullifiers stay as they are. -/
theorem Effect.unlisted {r' : Records} (h : Effect E s l r') (hsp : l.spend E s = none) :
    r'.nullifiers = s.records.nullifiers := by
  have hplan : ∀ {c c' : Call} {i : Instruction}, Label.spend E s (.call c) = none →
      c.decode E = some (i, c') → i.spend E s c' = none := fun hsp hd => by
    rwa [Label.spend, hd, Option.bind_some] at hsp
  cases h with
  | reconfigured h =>
    obtain ⟨m, p, p', -, -, rfl⟩ := h
    rfl
  | transacted decoded planned =>
    exact absurd (hplan hsp decoded) (by simp [Instruction.spend, planned, Except.toOption])
  | unshielded decoded planned =>
    exact absurd (hplan hsp decoded) (by simp [Instruction.spend, planned, Except.toOption])
  | redeemed decoded planned =>
    exact absurd (hplan hsp decoded) (by simp [Instruction.spend, planned, Except.toOption])
  | shielded => exact putTotals_nullifiers ..
  | completed => exact complete_nullifiers ..
  | _ => rfl

/-! ### Runs -/

/-- The records a step makes are those of the nullifiers it lists. -/
theorem step_nullifiers (h : step E s l = .ok s') (k : Addr × Option ℕ × Hash) :
    s'.records.nullifiers k = s.records.nullifiers k ∧
        k ∉ (listed E ⟨s, l, s'⟩).map nullifierKey ∨
      s.records.nullifiers k = none ∧ s'.records.nullifiers k = some ⟨⟩ ∧
        k ∈ (listed E ⟨s, l, s'⟩).map nullifierKey := by
  cases hsp : l.spend E s with
  | none =>
    refine .inl ⟨congrFun ((step_effect h).unlisted hsp) k, ?_⟩
    simp [listed, hsp]
  | some sp =>
    have hrec := step_recorded hsp h
    have hlisted : listed E ⟨s, l, s'⟩ = sp.listed := by rw [listed, hsp, Option.elim_some]
    rw [hlisted]
    have hkeys : (nullifierEntries sp.pool sp.sourceTreeIndex sp.nullifiers).map Prod.fst =
        sp.listed.map nullifierKey := by
      rw [nullifierEntries_keys, Spend.listed, List.map_map]
      rfl
    by_cases hk : k ∈ sp.listed.map nullifierKey
    · obtain ⟨x, hx, rfl⟩ := List.mem_map.mp hk
      refine .inr ⟨hrec.fresh x hx, ?_, hk⟩
      rw [hrec.recorded]
      obtain ⟨o, ho, heq⟩ := Store.updates_of_mem (m := s.records.nullifiers) (hkeys ▸ hk)
      obtain ⟨nf, -, hnf⟩ := List.mem_map.mp ho
      rw [heq, ← (Prod.mk.inj hnf).2]
    · refine .inl ⟨?_, hk⟩
      rw [hrec.recorded, Store.updates_of_notMem (hkeys ▸ hk)]

lemma listed_nodup (h : step E s l = .ok s') : (listed E ⟨s, l, s'⟩).Nodup := by
  cases hsp : l.spend E s with
  | none => simp [listed, hsp]
  | some sp =>
    rw [listed, hsp, Option.elim_some]
    exact (step_recorded hsp h).nodup.map fun a b hab => by simpa using hab

/-- Everything listed so far has its record, and nothing was listed twice. -/
structure SpentOnce (E : Env) (tr : List (Step State Label)) (s : State) : Prop where
  nodup : (tr.flatMap (listed E)).Nodup
  recorded : ∀ k ∈ tr.flatMap (listed E), s.records.nullifiers (nullifierKey k) ≠ none

theorem spentOnce_step {tr : List (Step State Label)} (hI : SpentOnce E tr s)
    (h : step E s l = .ok s') : SpentOnce E (tr ++ [⟨s, l, s'⟩]) s' := by
  have hstep := step_nullifiers h
  have hsplit : (tr ++ [(⟨s, l, s'⟩ : Step State Label)]).flatMap (listed E) =
      tr.flatMap (listed E) ++ listed E ⟨s, l, s'⟩ := by simp
  constructor
  · rw [hsplit, List.nodup_append]
    refine ⟨hI.nodup, listed_nodup h, ?_⟩
    -- a nullifier listed before has a record, one listed now had none
    rintro a ha b hb rfl
    rcases hstep (nullifierKey a) with ⟨-, hnot⟩ | ⟨hnone, -⟩
    · exact hnot (List.mem_map_of_mem hb)
    · exact hI.recorded a ha hnone
  · rw [hsplit]
    intro k hk
    rcases hstep (nullifierKey k) with ⟨hsame, hnot⟩ | ⟨-, hnew, -⟩
    · rw [hsame]
      rcases List.mem_append.mp hk with hk | hk
      · exact hI.recorded k hk
      · exact absurd (List.mem_map_of_mem hk) hnot
    · rw [hnew]
      exact Option.some_ne_none _

theorem spentOnce_of_reaches {tr : List (Step State Label)} {guard : State → Label → Prop}
    (run : Reaches (step E) guard .genesis tr s) : SpentOnce E tr s :=
  run.history ⟨List.nodup_nil, by simp⟩ fun _ _ _ _ _ hI _ h => spentOnce_step hI h

/-- **Nullifiers are single use**: over a whole run no nullifier is listed twice for its pool
and tree, a record once made is there for good, and a step makes exactly the records of the
nullifiers its proof lists, under the tree that accepts the proof's root. -/
theorem nullifier_single_use {tr : List (Step State Label)}
    (run : Reaches (step E) (fun _ _ => True) .genesis tr s) :
    (tr.flatMap (listed E)).Nodup ∧
      (∀ st ∈ tr, ∀ k, st.pre.records.nullifiers k ≠ none →
        st.post.records.nullifiers k = st.pre.records.nullifiers k) ∧
      (∀ st ∈ tr, ∀ k, (st.pre.records.nullifiers k = none ∧ st.post.records.nullifiers k ≠ none) ↔
        k ∈ (listed E st).map nullifierKey) ∧
      ∀ st ∈ tr, ∀ sp, st.call.spend E st.pre = some sp →
        ∃ t, st.pre.records.trees (sp.pool, sp.sourceTreeIndex) = some t ∧
          t.isValidRoot sp.merkleRoot := by
  refine ⟨(spentOnce_of_reaches run).nodup, fun st hst k hk => ?_, fun st hst k => ?_,
    fun st hst sp hsp => (step_recorded hsp (run.step_of_mem hst)).source⟩
  · rcases step_nullifiers (run.step_of_mem hst) k with ⟨hsame, -⟩ | ⟨hnone, -⟩
    · exact hsame
    · exact absurd hnone hk
  · rcases step_nullifiers (run.step_of_mem hst) k with ⟨hsame, hnot⟩ | ⟨hnone, hnew, hmem⟩
    · rw [hsame]
      exact ⟨fun h => absurd h.1 h.2, fun h => absurd h hnot⟩
    · rw [hnone, hnew]
      exact ⟨fun _ => hmem, fun _ => ⟨rfl, Option.some_ne_none _⟩⟩

/-! ### A run -/

namespace Regtest

def spendOnce : List Label :=
  [openPool, initVk 1 1, transact 0 (zeroHash treeDepth) [note 1] [note 2]]

def record : Addr := .nullifier pool none (note 1)

/-- A nullifier is spent, its record closed, and it is spent again. -/
def spendAgain : List Label :=
  spendOnce ++ [devnetClose [record], .reap record,
    transact 0 (zeroHash treeDepth) [note 1] [note 3]]

def closesRecord (st : Step State Label) : Bool :=
  (st.pre.records.nullifiers (pool, none, note 1)).isSome &&
    (st.post.records.nullifiers (pool, none, note 1)).isNone

lemma run_spendAgain : (trace (stepDevnetRegtest env) (fun _ _ => true) .genesis spendAgain).any
    (fun tr => tr.any closesRecord && !decide (tr.flatMap (listed env)).Nodup) = true := by
  decide +kernel

lemma run_spendOnce : (exec (step env) (fun _ _ => true) .genesis spendOnce).isSome = true := by
  decide +kernel

end Regtest

open Regtest in
/-- **A build with `devnet-regtest` can reset a nullifier**: its upgrade authority closes the
record, and a later spend lists the nullifier again. -/
theorem nullifier_reset_devnet : ∃ tr s,
    Reaches (stepDevnetRegtest env) (fun _ _ => True) .genesis tr s ∧
      (∃ st ∈ tr, ∃ k, st.pre.records.nullifiers k ≠ none ∧ st.post.records.nullifiers k = none) ∧
      ¬ (tr.flatMap (listed env)).Nodup := by
  obtain ⟨tr, htr, hbad⟩ := (Option.any_eq_true _ _).mp run_spendAgain
  rw [Bool.and_eq_true, List.any_eq_true] at hbad
  obtain ⟨⟨st, hst, hcl⟩, hdup⟩ := hbad
  rw [closesRecord, Bool.and_eq_true, Option.isSome_iff_ne_none, Option.isNone_iff_eq_none] at hcl
  exact ⟨tr, _, (reaches_of_trace (fun _ _ _ => trivial) htr).2, ⟨st, hst, _, hcl⟩,
    by simpa using hdup⟩

open Regtest in
/-- One transfer. -/
theorem nullifier_single_use_transfer : ∃ tr : List (Step State Label), tr.map Step.call = spendOnce ∧
    (tr.flatMap (listed env)).Nodup := by
  obtain ⟨s, hs⟩ := Option.isSome_iff_exists.mp run_spendOnce
  obtain ⟨tr, hcalls, hrun⟩ := reaches_of_exec (fun _ _ _ => trivial) hs
  exact ⟨tr, hcalls, (nullifier_single_use hrun).1⟩

end Utxopia.Pool
