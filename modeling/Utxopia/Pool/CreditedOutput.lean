import Utxopia.Pool.Credits

/-!
Which output of a transaction a deposit credits.

A deposit that pays the pool's script is accepted if one output of value does. The lookup that
follows takes the first output with the script, of value or not, so an output that is worth nothing
hides the payment behind it.
-/

namespace Utxopia.Pool

open Utxopia.ByteString Utxopia.Check Utxopia.Run Utxopia.Runtime

variable {E : Env} {s s' : State} {c : Call} {cfg : PoolConfig} {tx : ParsedTransaction}

/-- The test of the count: an output of value that pays the script. -/
def paysValueTo (script : List UInt8) (o : TxOutput) : Bool := 0 < o.value && paysTo script o

/-- No output before this one pays the script. -/
def FirstTo (script : List UInt8) (tx : ParsedTransaction) (i : ℕ) : Prop :=
  ∀ j < i, ∀ o, tx.outputs[j]? = some o → paysTo script o = false

instance (script : List UInt8) (tx : ParsedTransaction) (i : ℕ) : Decidable (FirstTo script tx i) :=
  decidable_of_iff (∀ j < i, ∀ o ∈ tx.outputs[j]?, paysTo script o = false) (by
    simp [FirstTo, Option.mem_def])

lemma positiveOutputCount_eq (tx : ParsedTransaction) (script : List UInt8) :
    tx.positiveOutputCountByScript script = tx.outputs.countP (paysValueTo script) := rfl

/-- An output is found by its script exactly if it is the first with the script. -/
lemma findOutputByScript_iff {script : List UInt8} {o : TxOutput} {i : ℕ} :
    tx.findOutputByScript script = some (o, i) ↔
      tx.outputs[i]? = some o ∧ paysTo script o = true ∧ FirstTo script tx i := by
  change tx.findOutput (paysTo script) = _ ↔ _
  unfold ParsedTransaction.findOutput
  constructor
  · intro h
    split at h
    · rename_i j hj
      obtain ⟨o', ho', heq⟩ := Option.map_eq_some_iff.mp h
      obtain ⟨rfl, rfl⟩ := Prod.mk.inj heq
      obtain ⟨hlt, hp, hmin⟩ := List.findIdx?_eq_some_iff_getElem.mp hj
      rw [List.getElem?_eq_getElem hlt, Option.some_inj] at ho'
      refine ⟨by rw [List.getElem?_eq_getElem hlt, ho'], ho' ▸ hp, fun k hk o'' ho'' => ?_⟩
      obtain ⟨hk', rfl⟩ := List.getElem?_eq_some_iff.mp ho''
      simpa using hmin k hk
    · exact absurd h (by simp)
  · rintro ⟨ho, hpays, hfirst⟩
    obtain ⟨hlt, rfl⟩ := List.getElem?_eq_some_iff.mp ho
    have hidx : tx.outputs.findIdx? (paysTo script) = some i :=
      List.findIdx?_eq_some_iff_getElem.mpr ⟨hlt, hpays, fun j hj => by
        simpa using hfirst j hj _ (List.getElem?_eq_getElem (hj.trans hlt))⟩
    simp [hidx, List.getElem?_eq_getElem hlt]

lemma poolOutput_ok {x : ℕ × ℕ} : poolOutput cfg tx = .ok x ↔
    tx.positiveOutputCountByScript cfg.poolScript = 1 ∧
      ∃ o, tx.findOutputByScript cfg.poolScript = some (o, x.2) ∧ o.value = x.1 := by
  obtain ⟨v, i⟩ := x
  simp only [poolOutput, bind_eq_ok, exists_unit, require_eq_ok, orElse_eq_ok, pure_eq_ok, Prod.exists,
    Prod.mk.injEq]
  constructor
  · rintro ⟨hcount, o, j, hfind, rfl, rfl⟩
    exact ⟨hcount, o, hfind, rfl⟩
  · rintro ⟨hcount, o, hfind, rfl⟩
    exact ⟨hcount, o, i, hfind, rfl, rfl⟩

/-- Two places of a list where a test holds count twice. -/
lemma two_le_countP {α : Type} {p : α → Bool} {l : List α} {i j : ℕ} {a b : α} (hij : i < j)
    (hi : l[i]? = some a) (hj : l[j]? = some b) (ha : p a = true) (hb : p b = true) :
    2 ≤ l.countP p := by
  induction l generalizing i j with
  | nil => exact absurd hi (by simp)
  | cons x l ih =>
    obtain ⟨j, rfl⟩ : ∃ k, j = k + 1 := ⟨j - 1, by omega⟩
    rw [List.getElem?_cons_succ] at hj
    have hmem : 0 < l.countP p := List.countP_pos_iff.mpr ⟨b, List.mem_of_getElem? hj, hb⟩
    cases i with
    | zero =>
      obtain rfl := Option.some_inj.mp hi
      rw [List.countP_cons_of_pos ha]
      omega
    | succ i =>
      rw [List.getElem?_cons_succ] at hi
      exact (ih (by omega) hi hj).trans (List.countP_cons ▸ Nat.le_add_right _ _)

/-- A hidden payment is taken for an output that is worth nothing. -/
lemma hidden_credited {o : TxOutput} {i : ℕ}
    (hone : tx.positiveOutputCountByScript cfg.poolScript = 1) (ho : tx.outputs[i]? = some o)
    (hpays : o.scriptPubkey = cfg.poolScript) (hvalue : 0 < o.value)
    (hhidden : ¬ FirstTo cfg.poolScript tx i) :
    ∃ j < i, poolOutput cfg tx = .ok (0, j) := by
  obtain ⟨j, hj, o', ho', hpays'⟩ : ∃ j < i, ∃ o', tx.outputs[j]? = some o' ∧
      paysTo cfg.poolScript o' = true := by simpa [FirstTo] using hhidden
  obtain ⟨j₀, hj₀⟩ : ∃ j₀, tx.outputs.findIdx? (paysTo cfg.poolScript) = some j₀ :=
    Option.isSome_iff_exists.mp (List.findIdx?_isSome.trans
      (List.any_eq_true.mpr ⟨o', List.mem_of_getElem? ho', hpays'⟩))
  obtain ⟨hlt, hp₀, hmin⟩ := List.findIdx?_eq_some_iff_getElem.mp hj₀
  have hle : j₀ ≤ j := by
    by_contra hgt
    obtain ⟨hj', rfl⟩ := List.getElem?_eq_some_iff.mp ho'
    exact hmin j (by omega) hpays'
  have hget := List.getElem?_eq_getElem hlt
  have hfind : tx.findOutputByScript cfg.poolScript = some (tx.outputs[j₀], j₀) :=
    findOutputByScript_iff.mpr ⟨hget, hp₀, fun k hk o'' ho'' => by
      obtain ⟨hk', rfl⟩ := List.getElem?_eq_some_iff.mp ho''
      simpa using hmin k hk⟩
  -- a second output of value would have been counted
  have hzero : tx.outputs[j₀].value = 0 := by
    by_contra hne
    have htwo : 2 ≤ tx.outputs.countP (paysValueTo cfg.poolScript) :=
      two_le_countP (hle.trans_lt hj) hget ho (by simp [paysValueTo, hp₀]; omega)
        (by simp [paysValueTo, paysTo, hpays, hvalue])
    rw [← positiveOutputCount_eq, hone] at htwo
    omega
  exact ⟨j₀, hle.trans_lt hj, poolOutput_ok.mpr ⟨hone, _, hfind, hzero⟩⟩

/-- A deposit of nothing is refused, whatever the limits and the fees. -/
lemma nothing_refused (p : PoolState) (tc : TokenConfig) {x : ℕ × ℕ} :
    validateBtcDepositAmountAndFee 0 p tc ≠ .ok x := by
  intro h
  simp only [validateBtcDepositAmountAndFee, bind_eq_ok, exists_unit, require_eq_ok,
    checkedAdd_eq_ok, checkedSub_eq_ok, pure_eq_ok] at h
  obtain ⟨-, -, -, _, ⟨-, rfl⟩, _, ⟨-, rfl⟩, hne, -⟩ := h
  omega

/-- A deposit of nothing does not go through, swept or not. -/
lemma deposit_of_nothing_refused {a : DepositAccounts} {ix : CompleteDepositData}
    {binding : DepositBinding} {credit : Credit} (ha : depositAccounts E s c = .ok a)
    (hcredit : verifyCredit E s c a ix binding = .ok credit) (hzero : credit.amountSats = 0) :
    completeDepositInner E s c ix binding ≠ .ok s' := by
  intro h
  simp only [completeDepositInner, bind_eq_ok, Prod.exists] at h
  obtain ⟨a', ha', p, tc, -, s₁, -, credit', hcredit', fee, shielded, hfee, -⟩ := h
  obtain rfl := Except.ok.inj (ha.symm.trans ha')
  obtain rfl := Except.ok.inj (hcredit.symm.trans hcredit')
  exact nothing_refused p tc (hzero ▸ hfee)

/-- **The credited output**: if one output of value pays the pool's script, the deposit credits its
value at its index if and only if no output before it has the script. If one has, the deposit is one
of nothing, at another index. -/
theorem poolOutput_credits_iff {o : TxOutput} {i : ℕ}
    (hone : tx.positiveOutputCountByScript cfg.poolScript = 1) (ho : tx.outputs[i]? = some o)
    (hpays : o.scriptPubkey = cfg.poolScript) (hvalue : 0 < o.value) :
    (poolOutput cfg tx = .ok (o.value, i) ↔ FirstTo cfg.poolScript tx i) ∧
      (¬ FirstTo cfg.poolScript tx i → ∃ j < i, poolOutput cfg tx = .ok (0, j)) := by
  refine ⟨?_, hidden_credited hone ho hpays hvalue⟩
  rw [poolOutput_ok]
  constructor
  · rintro ⟨-, o', hfind, -⟩
    exact (findOutputByScript_iff.mp hfind).2.2
  · intro hfirst
    exact ⟨hone, o, findOutputByScript_iff.mpr ⟨ho, by simpa [paysTo] using hpays, hfirst⟩, rfl⟩

/-! ### Runs -/

namespace Regtest

/-- An output of nothing and a payment, both with the pool's script. -/
def hiddenTx : List UInt8 :=
  rawTx [(toLe 32 1, 0)] [⟨0, poolScript⟩, ⟨100000, poolScript⟩, depositNote npk]

/-- The configuration of the pool. -/
def poolCfg : PoolConfig := ⟨poolScript, wallet, walletKey, 255⟩

/-- The payment is refused under either index, and accepted without the output before it. -/
lemma run_hidden : (exec (step env) (fun _ _ => true) .genesis openBook).any
    (fun s => !(step env s (completeDeposit 0 hiddenTx hiddenTx 0)).toBool &&
      !(step env s (completeDeposit 0 hiddenTx hiddenTx 1)).toBool &&
      (step env s (completeDeposit 0 (directTx 1 100000) (directTx 1 100000) 0)).toBool) = true := by
  decide +kernel

lemma parse_hiddenTx : (ParsedTransaction.parse hiddenTx).any (fun tx =>
    tx.positiveOutputCountByScript poolScript == 1 && tx.outputs[1]? == some ⟨100000, poolScript⟩ &&
      !decide (FirstTo poolScript tx 1)) = true := by
  decide +kernel

lemma parse_directTx : (ParsedTransaction.parse (directTx 1 100000)).any (fun tx =>
    tx.positiveOutputCountByScript poolScript == 1 && tx.outputs[0]? == some ⟨100000, poolScript⟩) =
      true := by
  decide +kernel

end Regtest

open Regtest in
/-- **A hidden payment**: an output of nothing before it hides the one payment of a transaction, and
the deposit is refused. -/
theorem hidden_payment_refused : ∃ (s : State) (tx : ParsedTransaction),
    ParsedTransaction.parse hiddenTx = some tx ∧
      tx.positiveOutputCountByScript poolScript = 1 ∧ tx.outputs[1]? = some ⟨100000, poolScript⟩ ∧
      poolOutput poolCfg tx ≠ .ok (100000, 1) ∧
      (∃ tr, Reaches (step env) (fun _ _ => True) .genesis tr s) ∧
      ∀ s', step env s (completeDeposit 0 hiddenTx hiddenTx 0) ≠ .ok s' ∧
        step env s (completeDeposit 0 hiddenTx hiddenTx 1) ≠ .ok s' := by
  obtain ⟨s, hs, hrun⟩ := (Option.any_eq_true _ _).mp run_hidden
  obtain ⟨tx, htx, hparsed⟩ := (Option.any_eq_true _ _).mp parse_hiddenTx
  simp only [Bool.and_eq_true, beq_iff_eq, Bool.not_eq_true', decide_eq_false_iff_not] at hrun hparsed
  obtain ⟨tr, -, run⟩ := reaches_of_exec (fun _ _ _ => trivial) hs
  obtain ⟨⟨hone, hget⟩, hhidden⟩ := hparsed
  refine ⟨s, tx, htx, hone, hget, fun hcredit => ?_, ⟨tr, run⟩, fun s' => ⟨fun h => ?_, fun h => ?_⟩⟩
  · obtain ⟨-, o, hfind, -⟩ := poolOutput_ok.mp hcredit
    exact hhidden (findOutputByScript_iff.mp hfind).2.2
  · exact absurd hrun.1.1 (by simp [h, Except.toBool])
  · exact absurd hrun.1.2 (by simp [h, Except.toBool])

open Regtest in
/-- A payment in the first place. -/
theorem poolOutput_credits_iff_direct : ∃ tx,
    ParsedTransaction.parse (directTx 1 100000) = some tx ∧
      poolOutput poolCfg tx = .ok (100000, 0) := by
  obtain ⟨tx, htx, hparsed⟩ := (Option.any_eq_true _ _).mp parse_directTx
  simp only [Bool.and_eq_true, beq_iff_eq] at hparsed
  have hone : tx.positiveOutputCountByScript poolCfg.poolScript = 1 := hparsed.1
  have hpays : (⟨100000, poolScript⟩ : TxOutput).scriptPubkey = poolCfg.poolScript := rfl
  have hiff := (poolOutput_credits_iff hone hparsed.2 hpays (by decide)).1
  exact ⟨tx, htx, hiff.mpr fun j hj => absurd hj (by omega)⟩

end Utxopia.Pool
