import Utxopia.Pool.Effect

/-!
Where a record lies and what it says about its output.

A record is filed under the output it names. The index of the output comes from a transaction
that fits into a buffer, so it has four bytes.
-/

namespace Utxopia.Pool

open Utxopia.ByteString Utxopia.Check Utxopia.Run Utxopia.Runtime

variable {E : Env} {s s' : State} {c c' : Call} {l : Label} {r r' : Records} {d : List UInt8}
  {tx : ParsedTransaction} {off e : ℕ}

/-! ### Outputs of a transaction -/

lemma readOutput_moves {o : TxOutput} (h : readOutput d off = some (o, e)) :
    off < e ∧ e ≤ d.length := by
  simp only [readOutput, Option.bind_eq_bind, Option.bind_eq_some_iff, Option.guard_eq_some',
    Option.pure_def, Option.some_inj, Prod.exists, Prod.mk.injEq, exists_const] at h
  obtain ⟨-, len, size, -, hfit, -, rfl⟩ := h
  exact ⟨by omega, hfit⟩

lemma readMany_length {α : Type} {item : ℕ → Option (α × ℕ)} {n bound : ℕ} {as : List α}
    (hitem : ∀ {off a e}, item off = some (a, e) → off < e ∧ e ≤ bound)
    (h : readMany item n off = some (as, e)) : as.length ≤ bound - off := by
  induction n generalizing off e as with
  | zero =>
    obtain ⟨rfl, -⟩ := Prod.mk.inj (Option.some_inj.mp h)
    exact Nat.zero_le _
  | succ n ih =>
    simp only [readMany, Option.bind_eq_bind, Option.bind_eq_some_iff, Option.pure_def,
      Option.some_inj, Prod.exists, Prod.mk.injEq] at h
    obtain ⟨a, next, hone, rest, last, hmany, rfl, -⟩ := h
    obtain ⟨hlt, hle⟩ := hitem hone
    have := ih hmany
    rw [List.length_cons]
    omega

/-- A transaction has no more outputs than bytes. -/
lemma outputs_length_le (h : ParsedTransaction.parse d = some tx) : tx.outputs.length ≤ d.length := by
  simp only [ParsedTransaction.parse, readBody, Option.bind_eq_bind, Option.bind_eq_some_iff,
    Option.guard_eq_some', Option.pure_def, Option.some_inj, Prod.exists, Prod.mk.injEq,
    exists_const] at h
  obtain ⟨-, tx', _, ⟨_, _, -, -, ins, _, -, _, _, -, outs, _, houts, rfl, -⟩, rfl⟩ := h
  exact (readMany_length readOutput_moves houts).trans (Nat.sub_le _ _)

lemma findOutput_lt {p : TxOutput → Bool} {o : TxOutput} {i : ℕ} (h : tx.findOutput p = some (o, i)) :
    i < tx.outputs.length := by
  unfold ParsedTransaction.findOutput at h
  split at h
  · obtain ⟨o', ho', heq⟩ := Option.map_eq_some_iff.mp h
    obtain ⟨-, rfl⟩ := Prod.mk.inj heq
    exact (List.getElem?_eq_some_iff.mp ho').1
  · exact absurd h (by simp)

lemma readTransactionFromBuffer_length {size : ℕ} {raw : List UInt8}
    (h : readTransactionFromBuffer d size = .ok raw) : raw.length = size := by
  simp only [readTransactionFromBuffer, bind_eq_ok, exists_unit, require_eq_ok, pure_eq_ok] at h
  obtain ⟨-, hfit, rfl⟩ := h
  rw [List.length_drop, List.length_take]
  omega

lemma readBufferedTx_outputs {buffer : AccountInfo} {txid : Hash} {size : ℕ} {err : UTXOpiaError}
    (h : readBufferedTx E c buffer txid size err = .ok tx) : tx.outputs.length ≤ size := by
  simp only [readBufferedTx, bind_eq_ok, exists_unit, require_eq_ok, orElse_eq_ok] at h
  obtain ⟨-, raw, hraw, -, hparse⟩ := h
  exact readTransactionFromBuffer_length hraw ▸ outputs_length_le hparse

/-! ### Credited outputs -/

lemma creditedOutput_lt {cfg : PoolConfig} {binding : DepositBinding} {direct : Bool}
    {sweep deposit : ParsedTransaction} {depositTxid notePublicKey : Hash} {amount vout : ℕ}
    (h : creditedOutput E cfg binding direct sweep deposit depositTxid notePublicKey =
      .ok (amount, vout)) : vout < sweep.outputs.length := by
  have hpool : ∀ {x : ℕ × ℕ}, poolOutput cfg sweep = .ok x → x.2 < sweep.outputs.length := by
    intro x hx
    simp only [poolOutput, bind_eq_ok, exists_unit, require_eq_ok, orElse_eq_ok, pure_eq_ok,
      Prod.exists] at hx
    obtain ⟨-, o, i, hfind, rfl⟩ := hx
    exact findOutput_lt hfind
  cases binding with
  | Tweak ephemeral note v =>
    simp only [creditedOutput, tweakedOutput, bind_eq_ok, exists_unit, require_eq_ok, orElse_eq_ok,
      pure_eq_ok, Prod.mk.injEq] at h
    obtain ⟨-, o, ho, -, -, -, -, rfl⟩ := h
    exact (List.getElem?_eq_some_iff.mp ho).1
  | OpReturn =>
    simp only [creditedOutput] at h
    split_ifs at h
    · exact hpool h
    · simp only [bind_eq_ok, exists_unit] at h
      exact hpool h.2

lemma depositInput_size {tweaked : Bool} {ix : CompleteDepositData} {binding : DepositBinding}
    (h : depositInput tweaked d = .ok (ix, binding)) : ix.sweepTxSize < 2 ^ 32 := by
  have hdata : ∀ {ix}, CompleteDepositData.fromBytes d = .ok ix → ix.sweepTxSize < 2 ^ 32 := by
    intro ix h
    simp only [CompleteDepositData.fromBytes, bind_eq_ok, exists_unit, pure_eq_ok] at h
    obtain ⟨-, rfl⟩ := h
    exact u32At_lt ..
  unfold depositInput at h
  split_ifs at h
  · simp only [verifyDepositData, bind_eq_ok, exists_unit, require_eq_ok, pure_eq_ok,
      Prod.mk.injEq] at h
    obtain ⟨-, base, hbase, -, rfl, -⟩ := h
    exact hdata hbase
  · simp only [bind_eq_ok, pure_eq_ok, Prod.mk.injEq] at h
    obtain ⟨base, hbase, rfl, -⟩ := h
    exact hdata hbase

/-- The index of a credited output has four bytes. -/
lemma creditOf_vout {tweaked : Bool} {ix : CompleteDepositData} {binding : DepositBinding}
    {pool : Addr} {credit : Credit} (hin : depositInput tweaked d = .ok (ix, binding))
    (h : creditOf E s c ix binding = .ok (pool, credit)) : credit.outpoint.2 < 2 ^ 32 := by
  simp only [creditOf, verifyCredit, bind_eq_ok, exists_unit, pure_eq_ok, Prod.mk.injEq,
    Prod.exists] at h
  obtain ⟨a, -, credit', ⟨-, sweep, hsweep, deposit, -, npk, -, cfg, -, amount, vout, hout, rfl⟩, -,
    rfl⟩ := h
  have hlt := creditedOutput_lt hout
  have hle := readBufferedTx_outputs hsweep
  have hsize := depositInput_size hin
  dsimp only
  omega

/-- So has the index of a change output. -/
lemma changeOutput_vout {o : Outpoint × ℕ} (h : c.changeOutput = some o) : o.1.2 < 2 ^ 32 := by
  unfold Call.changeOutput at h
  split at h
  · rename_i ix buffer hix _
    split at h
    · rename_i raw hraw
      obtain ⟨tx, htx, ho⟩ := Option.bind_eq_some_iff.mp h
      unfold changeOutput at ho
      split_ifs at ho
      obtain ⟨found, hfound, rfl⟩ := Option.map_eq_some_iff.mp ho
      have hlt := findOutput_lt hfound
      have hle := outputs_length_le htx
      have hlen := readTransactionFromBuffer_length hraw
      have hsize : ix.txSize < 2 ^ 32 := by
        simp only [CompleteRedemptionData.fromBytes, bind_eq_ok, exists_unit, pure_eq_ok] at hix
        obtain ⟨-, -, -, rfl⟩ := hix
        exact u32At_lt ..
      dsimp only
      omega
    · exact absurd h (by simp)
  · exact absurd h (by simp)

/-! ### Records -/

/-- A record names the output it is filed under, by an index of four bytes. -/
def Filed (r : Records) : Prop :=
  ∀ k u, r.utxos k = some u → (u.txid, u.vout) = k.2 ∧ u.vout < 2 ^ 32

lemma filed_updates {es : List ((Addr × Outpoint) × Option UtxoRecord)} (h : Filed r)
    (hes : ∀ e ∈ es, ∀ u, e.2 = some u → (u.txid, u.vout) = e.1.2 ∧ u.vout < 2 ^ 32) :
    Filed (r.updateUtxos es) := Store.forall_updates es h hes

lemma Filed.credit (h : Filed r) {pool : Addr} {o : Outpoint} (ho : o.2 < 2 ^ 32) (amount : ℕ)
    (leaf : Option Hash) : Filed (r.credit pool o amount leaf) := by
  refine filed_updates h fun e he u hu => ?_
  obtain rfl := List.mem_singleton.mp he
  obtain rfl := Option.some_inj.mp hu
  exact ⟨rfl, ho⟩

/-- A pass that leaves the names of the outputs alone. -/
lemma Filed.picked {f : UtxoRecord → Option UtxoRecord} {us : List UtxoEntry} (h : Filed r)
    (hus : ∀ e ∈ us, r.utxos e.1 = some e.2)
    (hf : ∀ u u', f u = some u' → u'.txid = u.txid ∧ u'.vout = u.vout) :
    Filed (r.updateUtxos (pickedEntries f us)) := by
  refine filed_updates h fun e he u hu => ?_
  obtain ⟨d, hd, rfl⟩ := List.mem_map.mp he
  obtain ⟨htxid, hvout⟩ := hf d.2 u hu
  rw [htxid, hvout]
  exact h _ _ (hus d hd)

lemma Effect.filed (h : Effect E s l r') (hI : Filed s.records) : Filed r' := by
  cases h with
  | reconfigured h =>
    obtain ⟨m, p, p', -, -, rfl⟩ := h
    exact hI
  | shielded => exact (putTotals_view Filed (fun _ _ _ => rfl) ..).mpr hI
  | unshielded => exact (putTotals_view Filed (fun _ _ _ => rfl) ..).mpr hI
  | transacted decoded planned sound burnable outputs => cases outputs <;> exact hI
  | marked decoded h =>
    refine Filed.picked hI h.reservation.picked.recorded fun u u' hu => ?_
    obtain rfl := Option.some_inj.mp hu
    exact ⟨rfl, rfl⟩
  | cancelled decoded h =>
    refine Filed.picked hI h.held.picked.recorded fun u u' hu => ?_
    obtain rfl := Option.some_inj.mp hu
    exact ⟨rfl, rfl⟩
  | @completed c c' m p req tc us tx txid leaf T burn revenue now decoded h =>
    have hchange : Filed (s.records.creditChange (.poolState m) c'.changeOutput leaf) := by
      cases hc : c'.changeOutput with
      | none => exact hI
      | some o => exact hI.credit (changeOutput_vout hc) o.2 leaf
    have hpicked := hchange.picked (f := fun _ => none) h.held.picked.recorded (by simp)
    cases hc : c'.changeOutput <;> rw [hc] at hpicked <;> exact hpicked
  | deposited decoded kind input credited => exact hI.credit (creditOf_vout input credited) _ _
  | _ => exact hI

lemma filed_of_reaches {tr : List (Step State Label)} {guard : State → Label → Prop}
    (run : Reaches (step E) guard .genesis tr s) : Filed s.records :=
  run.inv (fun k u hu => absurd hu (by simp)) fun _ _ _ hI _ h => (step_effect h).filed hI

end Utxopia.Pool
