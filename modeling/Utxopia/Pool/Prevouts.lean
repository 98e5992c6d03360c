import Utxopia.Lib.Positional
import Utxopia.Pool.Completable
import Utxopia.Pool.CreditedOutput
import Utxopia.Pool.Frame
import Utxopia.Pool.OneTransaction
import Utxopia.Pool.TxScanner

/-!
What a record says about its output.

The script of an output is never stored. An approval rebuilds it from the leaf that the record has, or
from the pool's config if it has none. A record has the tail of a record that was closed at its address,
so the frame of the closed accounts is needed, and that no output is both kinds of output.
-/

namespace Utxopia.Pool

open Utxopia.ByteString Utxopia.Check Utxopia.Positional Utxopia.Run Utxopia.Runtime

variable {E : Env} {s s' : State} {c : Call} {l : Label} {cfg : PoolConfig} {o : Outpoint}
  {out out' : TxOutput} {u u' : UtxoRecord} {S : Set (List UInt8)} {k : Addr × Outpoint}
  {L : Set Hash} {cfgs : Addr → Option PoolConfig} {leaf : Option Hash} {script : List UInt8}

/-! ### Outputs of the transactions that were read -/

/-- A transaction with these bytes has the output. -/
def PaidIn (E : Env) (S : Set (List UInt8)) (o : Outpoint) (out : TxOutput) : Prop :=
  ∃ raw ∈ S, ∃ tx, computeTxHash E raw = o.1 ∧ ParsedTransaction.parse raw = some tx ∧
    tx.outputs[o.2]? = some out

/-- The bytes that are hashed for the ids of transactions. -/
def hashedFor (S : Set (List UInt8)) : Set (List UInt8) :=
  {m | ∃ raw ∈ S, Scanner.hashedBytes raw = .ok m}

/-- The bytes that are hashed and what is scanned in them. -/
lemma scanned_of_parse {raw : List UInt8} {tx : ParsedTransaction} (hlen : raw.length < 2 ^ 63)
    (h : ParsedTransaction.parse raw = some tx) : ∃ m x, Scanner.hashedBytes raw = .ok m ∧
      doubleSha256 E m = computeTxHash E raw ∧ Scanner.parse m = .ok x ∧
      Scanner.Yields Scanner.nextOutput x.outputs tx.outputs := by
  obtain ⟨x, hx, -, houts⟩ := (Scanner.parse_refines hlen tx).mp h
  have hhash := Scanner.computeTxHash_refines E hlen
  simp only [Scanner.computeTxHash, bind_eq_ok, pure_eq_ok] at hhash
  obtain ⟨m, hm, heq⟩ := hhash
  exact ⟨m, x, hm, heq, Scanner.parse_hashedBytes hlen hx hm, houts⟩

/-- **An outpoint has one output**, unless the hash collides. -/
theorem PaidIn.unique (hlen : ∀ raw ∈ S, raw.length < 2 ^ 63)
    (hinj : Set.InjOn (doubleSha256 E) (hashedFor S)) (h : PaidIn E S o out) (h' : PaidIn E S o out') :
    out' = out := by
  obtain ⟨raw, hraw, tx, hid, hparse, hout⟩ := h
  obtain ⟨raw', hraw', tx', hid', hparse', hout'⟩ := h'
  obtain ⟨m, x, hm, hhash, hx, houts⟩ := scanned_of_parse (E := E) (hlen raw hraw) hparse
  obtain ⟨m', x', hm', hhash', hx', houts'⟩ := scanned_of_parse (E := E) (hlen raw' hraw') hparse'
  have hsame : doubleSha256 E m' = doubleSha256 E m := by rw [hhash, hhash', hid, hid']
  obtain rfl : m' = m := hinj ⟨raw', hraw', hm'⟩ ⟨raw, hraw, hm⟩ hsame
  obtain rfl := Except.ok.inj (hx'.symm.trans hx)
  rw [houts'.unique houts] at hout'
  exact Option.some_inj.mp (hout'.symm.trans hout)

/-! ### The script that an approval rebuilds -/

/-- The script of an output whose record has the leaf or lacks one. -/
def ScriptFor (E : Env) (cfg : PoolConfig) : Option Hash → List UInt8 → Prop
  | some commitment, script => ∃ key, E.taprootOutputKey depositNumsInternalKey
      (depositLeafHash E commitment cfg.ikaDwalletXonlyPubkey) = some key ∧ script = taprootScript key
  | none, script => script = cfg.poolScript

/-- The wallet's key is not what one of the leaves tweaks the other key to: a leaf has the wallet's key
in it, so one that does would be a fixed point of the hash. -/
def NoSelfTweak (E : Env) (L : Set Hash) (cfg : PoolConfig) : Prop := ∀ commitment ∈ L,
  E.taprootOutputKey depositNumsInternalKey
    (depositLeafHash E commitment cfg.ikaDwalletXonlyPubkey) ≠ some cfg.ikaDwalletXonlyPubkey

lemma inputScript_iff (hcfg : cfg.poolScript = taprootScript cfg.ikaDwalletXonlyPubkey)
    {r : ReservedInput} : (∃ leafHash, inputScript E cfg r = .ok (script, leafHash)) ↔
      ScriptFor E cfg r.leafCommitment script := by
  obtain ⟨txid, vout, amount, leaf⟩ := r
  cases leaf with
  | some commitment =>
    simp only [inputScript, deriveTaprootOutputKey, ScriptFor, bind_eq_ok, orElse_eq_ok, pure_eq_ok,
      Prod.mk.injEq]
    constructor
    · rintro ⟨leafHash, key, hkey, rfl, -⟩
      exact ⟨key, hkey, rfl⟩
    · rintro ⟨key, hkey, rfl⟩
      exact ⟨_, key, hkey, rfl, rfl⟩
  | none =>
    have hlen : cfg.poolScript.length = 34 := by simp [hcfg, taprootScript]
    simp only [inputScript, ScriptFor, bind_eq_ok, exists_unit, require_eq_ok, pure_eq_ok, hlen,
      Prod.mk.injEq, true_and]
    constructor
    · rintro ⟨_, hscript, -⟩
      exact hscript.symm
    · intro hscript
      exact ⟨none, hscript.symm, rfl⟩

/-- An output of one kind is not one of the other. -/
lemma NoSelfTweak.apart (h : NoSelfTweak E L cfg)
    (hcfg : cfg.poolScript = taprootScript cfg.ikaDwalletXonlyPubkey) {commitment : Hash}
    (hmem : commitment ∈ L) (hleaf : ScriptFor E cfg (some commitment) script) :
    ¬ ScriptFor E cfg none script := by
  obtain ⟨key, hkey, rfl⟩ := hleaf
  intro hpool
  obtain rfl := taprootScript_injective (hpool.trans hcfg)
  exact h commitment hmem hkey

/-! ### Records -/

/-- The record says what the output is: its outpoint, its value, and the script that an approval
rebuilds. -/
structure UtxoRecord.Describes (E : Env) (cfg : PoolConfig) (u : UtxoRecord) (o : Outpoint)
    (out : TxOutput) : Prop where
  txid : u.txid = o.1
  vout : u.vout = o.2
  amount : u.amountSats = out.value
  script : ∃ leafHash, inputScript E cfg u.input = .ok (out.scriptPubkey, leafHash)

/-- The record is of an output that a transaction has, and its leaf, if it has one, is one of these. -/
def UtxoRecord.Faithful (E : Env) (S : Set (List UInt8)) (L : Set Hash) (cfgs : Addr → Option PoolConfig)
    (k : Addr × Outpoint) (u : UtxoRecord) : Prop :=
  ∃ cfg out, cfgs k.1 = some cfg ∧ PaidIn E S k.2 out ∧
    (NoSelfTweak E L cfg → u.Describes E cfg k.2 out ∧ ∀ leaf ∈ u.leafCommitment, leaf ∈ L)

/-- Every record is, also if its account is closed. -/
def AllFaithful (E : Env) (S : Set (List UInt8)) (L : Set Hash) (cfgs : Addr → Option PoolConfig)
    (b : Untouched) : Prop :=
  ∀ k u, b.record? k = some u → u.Faithful E S L cfgs k

lemma UtxoRecord.input_eq (h : u'.output = u.output) : u'.input = u.input := by
  obtain ⟨htxid, hvout, hamount, hleaf⟩ : u'.txid = u.txid ∧ u'.vout = u.vout ∧
      u'.amountSats = u.amountSats ∧ u'.leafCommitment = u.leafCommitment := by
    simpa [UtxoRecord.output] using h
  rw [UtxoRecord.input, UtxoRecord.input, htxid, hvout, hamount, hleaf]

lemma UtxoRecord.Describes.congr (h : u.Describes E cfg o out) (hsame : u'.output = u.output) :
    u'.Describes E cfg o out := by
  have hinput := UtxoRecord.input_eq hsame
  have htxid : u'.txid = u.txid := congrArg ReservedInput.txid hinput
  have hvout : u'.vout = u.vout := congrArg ReservedInput.vout hinput
  have hamount : u'.amountSats = u.amountSats := congrArg ReservedInput.amountSats hinput
  exact ⟨htxid.trans h.txid, hvout.trans h.vout, hamount.trans h.amount, hinput ▸ h.script⟩

lemma record?_write (b : Untouched) (j k : Addr × Outpoint) (d : Data UtxoRecord) :
    (b.write k d).record? j = if j = k then Data.record? d else b.record? j := by
  rcases eq_or_ne j k with rfl | hne
  · rw [if_pos rfl]
    exact congrArg Data.record? (Function.update_self ..)
  · rw [if_neg hne]
    exact congrArg Data.record? (Function.update_of_ne hne ..)

lemma allFaithful_about : AboutOutputs (AllFaithful E S L cfgs) := by
  intro b k d h hd j u hu
  rw [record?_write] at hu
  split_ifs at hu with hj
  · obtain ⟨u₀, hu₀, hsame⟩ := hd u hu
    obtain ⟨cfg, out, hcfg, hpaid, hdesc⟩ := h k u₀ hu₀
    have hleaf : u.leafCommitment = u₀.leafCommitment :=
      congrArg ReservedInput.leafCommitment (UtxoRecord.input_eq hsame)
    subst hj
    exact ⟨cfg, out, hcfg, hpaid, fun hno => ⟨(hdesc hno).1.congr hsame, hleaf ▸ (hdesc hno).2⟩⟩
  · exact h j u hu

/-- **A credit is faithful**: the tail that a record takes over is one that its output has not. -/
lemma allFaithful_credits (hlen : ∀ raw ∈ S, raw.length < 2 ^ 63)
    (hinj : Set.InjOn (doubleSha256 E) (hashedFor S)) (hcfg : cfgs k.1 = some cfg)
    (hpool : cfg.poolScript = taprootScript cfg.ikaDwalletXonlyPubkey) (hpaid : PaidIn E S k.2 out)
    (hscript : ScriptFor E cfg leaf out.scriptPubkey) (hleaf : ∀ l ∈ leaf, l ∈ L) :
    Credits (AllFaithful E S L cfgs) k out.value leaf := by
  intro b tail h htail j u hu
  rw [record?_write] at hu
  split_ifs at hu with hj
  · subst hj
    obtain rfl := Option.some_inj.mp hu
    refine ⟨cfg, out, hcfg, hpaid, fun hno => ?_⟩
    have hkept : (leaf <|> tail) = leaf := by
      cases leaf with
      | some commitment => rfl
      | none =>
        -- a tail is left by a record of the same output, which then is of both kinds
        by_contra hsome
        obtain ⟨u₀, hu₀, hisSome⟩ := htail (Option.isSome_iff_ne_none.mpr hsome)
        obtain ⟨cfg', out', hcfg', hpaid', hdesc⟩ := h j u₀ hu₀
        obtain rfl := Option.some_inj.mp (hcfg'.symm.trans hcfg)
        obtain rfl := hpaid.unique hlen hinj hpaid'
        obtain ⟨commitment, hcommitment⟩ := Option.isSome_iff_exists.mp hisSome
        have hold := (inputScript_iff hpool).mp (hdesc hno).1.script
        rw [UtxoRecord.input, hcommitment] at hold
        exact hno.apart hpool ((hdesc hno).2 commitment hcommitment) hold hscript
    rw [hkept]
    exact ⟨⟨rfl, rfl, rfl, (inputScript_iff hpool).mpr hscript⟩, hleaf⟩
  · exact h j u hu

/-! ### What instructions record -/

/-- The transaction whose output a deposit would record. -/
def Call.sweepTx (c : Call) (tweaked : Bool) : Option (List UInt8) := do
  let (ix, _) ← (depositInput tweaked c.data).toOption
  let buffer ← (c.account 4).toOption
  (readTransactionFromBuffer (c.dataOf buffer.key) ix.sweepTxSize).toOption

/-- The transaction whose change a completion would record. -/
def Call.redemptionTx (c : Call) : Option (List UInt8) := do
  let ix ← (CompleteRedemptionData.fromBytes c.data).toOption
  let buffer ← (c.account 6).toOption
  (readTransactionFromBuffer (c.dataOf buffer.key) ix.txSize).toOption

def Instruction.creditedTx (c : Call) : Instruction → Option (List UInt8)
  | .CompleteRedemption => c.redemptionTx
  | i => i.tweaked.bind c.sweepTx

def Label.creditedTx (E : Env) : Label → Option (List UInt8)
  | .call c => (c.decode E).bind fun (i, c) => i.creditedTx c
  | _ => none

/-- The transactions whose outputs a run recorded. -/
def creditedTxs (E : Env) (tr : List (Step State Label)) : List (List UInt8) :=
  tr.filterMap fun st => st.call.creditedTx E

/-- The leaf of the output a deposit would record. -/
def Label.creditedLeaf (E : Env) : Label → Option Hash
  | .call c => do
    let (i, c) ← c.decode E
    let tweaked ← i.tweaked
    let (_, binding) ← (depositInput tweaked c.data).toOption
    binding.leaf E
  | _ => none

def creditedLeaves (E : Env) (tr : List (Step State Label)) : List Hash :=
  tr.filterMap fun st => st.call.creditedLeaf E

lemma creditedTx_of_tweaked {i : Instruction} {tweaked : Bool} (h : i.tweaked = some tweaked) :
    i.creditedTx c = c.sweepTx tweaked := by
  cases i with
  | CompleteDeposit | CompleteDepositPermissioned | VerifyDeposit | VerifyDepositPermissioned =>
    obtain rfl := Option.some_inj.mp h
    rfl
  | _ => exact absurd h (by simp [Instruction.tweaked])

lemma completionData_txSize {d : List UInt8} {ix : CompleteRedemptionData}
    (h : CompleteRedemptionData.fromBytes d = .ok ix) : ix.txSize < 2 ^ 32 := by
  simp only [CompleteRedemptionData.fromBytes, bind_eq_ok, exists_unit, pure_eq_ok] at h
  obtain ⟨-, -, -, rfl⟩ := h
  exact u32At_lt ..

lemma readTransactionFromBuffer_short {size : ℕ} {d raw : List UInt8} (hsize : size < 2 ^ 32)
    (h : readTransactionFromBuffer d size = .ok raw) : raw.length < 2 ^ 63 := by
  rw [readTransactionFromBuffer_length h]
  omega

/-- What fits into a buffer can be scanned. -/
lemma creditedTx_length {raw : List UInt8} (h : l.creditedTx E = some raw) : raw.length < 2 ^ 63 := by
  cases l with
  | call c =>
    obtain ⟨⟨i, c'⟩, hd, hraw⟩ := Option.bind_eq_some_iff.mp h
    change i.creditedTx c' = some raw at hraw
    cases htweaked : i.tweaked with
    | some tweaked =>
      rw [creditedTx_of_tweaked htweaked] at hraw
      simp only [Call.sweepTx, Option.bind_eq_bind, Option.bind_eq_some_iff, toOption_eq_some,
        Prod.exists] at hraw
      obtain ⟨ix, binding, hinput, buffer, -, hread⟩ := hraw
      exact readTransactionFromBuffer_short (depositInput_size hinput) hread
    | none =>
      cases i with
      | CompleteRedemption =>
        simp only [Instruction.creditedTx, Call.redemptionTx, Option.bind_eq_bind,
          Option.bind_eq_some_iff, toOption_eq_some] at hraw
        obtain ⟨ix, hix, buffer, -, hread⟩ := hraw
        exact readTransactionFromBuffer_short (completionData_txSize hix) hread
      | CompleteDeposit | CompleteDepositPermissioned | VerifyDeposit | VerifyDepositPermissioned =>
        exact absurd htweaked (by simp [Instruction.tweaked])
      | _ => exact absurd hraw (by simp [Instruction.creditedTx, Instruction.tweaked])
  | _ => exact absurd h (by simp [Label.creditedTx])

lemma depositAccounts_txBuffer :
    Ensures (fun a => c.account 4 = .ok a.txBuffer) (depositAccounts E s c) := by
  unfold depositAccounts
  refine .bind fun _ _ => .bind fun _ _ => .bind fun _ _ => .bind fun _ _ => .bind fun txBuffer hbuffer => ?_
  repeat refine .bind fun _ _ => ?_
  exact .pure hbuffer

lemma readDepositConfig_ok {a : DepositAccounts} (h : readDepositConfig E s c a = .ok cfg) :
    s.records.poolConfigs a.pool.key = some cfg := by
  simp only [readDepositConfig, validatePoolConfigPda, bind_eq_ok, exists_unit, require_eq_ok,
    orElse_eq_ok, validateProgramOwner_ok, pure_eq_ok] at h
  obtain ⟨⟨howner, -, hkey⟩, _, hcfg, -, rfl⟩ := h
  obtain ⟨pool, hk, hrec⟩ := poolConfig_of_owned howner hcfg
  obtain rfl : a.pool.key = pool := by simpa [hkey] using hk
  exact hrec

/-- The script of a taproot output is that of its key. -/
lemma script_of_outputKey {key : Hash} (h : taprootOutputKeyOf out = some key) :
    out.scriptPubkey = taprootScript key := by
  unfold taprootOutputKeyOf at h
  split_ifs at h with hscript
  obtain ⟨-, hlen, hhead⟩ := hscript
  obtain rfl := Option.some_inj.mp h
  have hkey : (slice 32 out.scriptPubkey 2 : Hash).toList = out.scriptPubkey.drop 2 := by
    rw [toList_slice (by omega), List.take_of_length_le (by rw [List.length_drop]; omega)]
  have hsplit : out.scriptPubkey = [0x51, 0x20] ++ (slice 32 out.scriptPubkey 2 : Hash).toList := by
    rw [hkey, ← hhead, List.take_append_drop]
  exact hsplit

/-- **The credited output** has the script that the record's leaf stands for. -/
theorem creditedOutput_script {binding : DepositBinding} {direct : Bool}
    {sweep deposit : ParsedTransaction} {depositTxid npk : Hash} {amount vout : ℕ}
    (h : creditedOutput E cfg binding direct sweep deposit depositTxid npk = .ok (amount, vout)) :
    ∃ out, sweep.outputs[vout]? = some out ∧ out.value = amount ∧
      ScriptFor E cfg (binding.leaf E) out.scriptPubkey := by
  have hpool : poolOutput cfg sweep = .ok (amount, vout) → ∃ out, sweep.outputs[vout]? = some out ∧
      out.value = amount ∧ ScriptFor E cfg none out.scriptPubkey := by
    intro hout
    obtain ⟨-, out, hfind, hvalue⟩ := poolOutput_ok.mp hout
    obtain ⟨hget, hpays, -⟩ := findOutputByScript_iff.mp hfind
    have hscript : out.scriptPubkey = cfg.poolScript := of_decide_eq_true hpays
    exact ⟨out, hget, hvalue, hscript⟩
  cases binding with
  | OpReturn =>
    simp only [creditedOutput] at h
    split_ifs at h
    · exact hpool h
    · simp only [bind_eq_ok, exists_unit] at h
      exact hpool h.2
  | Tweak ephemeralPubkey notePublicKey v =>
    simp only [creditedOutput, tweakedOutput, bind_eq_ok, exists_unit, require_eq_ok, orElse_eq_ok,
      pure_eq_ok, Prod.mk.injEq] at h
    obtain ⟨-, out, hget, key, hkey, htweak, rfl, rfl⟩ := h
    exact ⟨out, hget, rfl, key, of_decide_eq_true htweak, script_of_outputKey hkey⟩

lemma paidIn_of_read {buffer : AccountInfo} {txid : Hash} {size vout : ℕ} {err : UTXOpiaError}
    {tx : ParsedTransaction} (h : readBufferedTx E c buffer txid size err = .ok tx)
    (hS : ∀ raw, readTransactionFromBuffer (c.dataOf buffer.key) size = .ok raw → raw ∈ S)
    (hout : tx.outputs[vout]? = some out) : PaidIn E S (txid, vout) out := by
  simp only [readBufferedTx, bind_eq_ok, exists_unit, require_eq_ok, orElse_eq_ok] at h
  obtain ⟨-, raw, hraw, hid, hparse⟩ := h
  exact ⟨raw, hS raw hraw, tx, hid, hparse, hout⟩

/-- What an instruction records is an output of the transaction it reads, of the kind that the record
will say. -/
theorem crediting_paid {c' : Call} {i : Instruction} {amount : ℕ} (hd : c.decode E = some (i, c'))
    (h : Crediting E s c' i k amount leaf) (hS : ∀ raw ∈ (Label.call c).creditedTx E, raw ∈ S)
    (hL : ∀ l ∈ (Label.call c).creditedLeaf E, l ∈ L) : ∃ cfg out,
      s.records.poolConfigs k.1 = some cfg ∧ PaidIn E S k.2 out ∧ out.value = amount ∧
        ScriptFor E cfg leaf out.scriptPubkey ∧ ∀ l ∈ leaf, l ∈ L := by
  have hS' : ∀ raw, i.creditedTx c' = some raw → raw ∈ S := fun raw hraw =>
    hS raw (Option.bind_eq_some_iff.mpr ⟨_, hd, hraw⟩)
  cases h with
  | @deposit _ tweaked ix binding a credit kind input accounts verified =>
    simp only [verifyCredit, bind_eq_ok, exists_unit, pure_eq_ok, Prod.exists] at verified
    obtain ⟨-, sweep, hsweep, deposit, -, npk, -, cfg, hcfg, amount, vout, hcredited, rfl⟩ := verified
    obtain ⟨out, hget, hvalue, hscript⟩ := creditedOutput_script hcredited
    refine ⟨cfg, out, readDepositConfig_ok hcfg, paidIn_of_read hsweep (fun raw hraw => hS' raw ?_)
      hget, hvalue, hscript, fun l hl => hL l ?_⟩
    · rw [creditedTx_of_tweaked kind]
      simp only [Call.sweepTx, Option.bind_eq_bind, Option.bind_eq_some_iff, toOption_eq_some,
        Prod.exists]
      exact ⟨ix, binding, input, a.txBuffer, depositAccounts_txBuffer a accounts, hraw⟩
    · simp only [Label.creditedLeaf, Option.bind_eq_bind, Option.mem_def, Option.bind_eq_some_iff,
        toOption_eq_some, Prod.exists]
      exact ⟨i, c', hd, tweaked, kind, ix, binding, input, hl⟩
  | @change pool ix tx out vout found =>
    obtain ⟨⟨cfg, hcfg, hscript⟩, hix, ⟨buffer, err, hbuffer, hread⟩, hfind⟩ := found
    obtain ⟨hget, hpays, -⟩ := findOutputByScript_iff.mp hfind
    refine ⟨cfg, out, hcfg, paidIn_of_read hread (fun raw hraw => hS' raw ?_) hget, rfl,
      (of_decide_eq_true hpays).trans hscript, by simp⟩
    simp only [Instruction.creditedTx, Call.redemptionTx, Option.bind_eq_bind, Option.bind_eq_some_iff,
      toOption_eq_some]
    exact ⟨ix, hix, buffer, hbuffer, hraw⟩

/-! ### Runs -/

lemma AllFaithful.configs {cfgs' : Addr → Option PoolConfig} {b : Untouched}
    (h : AllFaithful E S L cfgs b) (hcfgs : ∀ a cfg, cfgs a = some cfg → cfgs' a = some cfg) :
    AllFaithful E S L cfgs' b := by
  intro k u hu
  obtain ⟨cfg, out, hcfg, hrest⟩ := h k u hu
  exact ⟨cfg, out, hcfgs _ _ hcfg, hrest⟩

/-- **A step keeps records faithful.** -/
theorem step_faithful (hlen : ∀ raw ∈ S, raw.length < 2 ^ 63)
    (hinj : Set.InjOn (doubleSha256 E) (hashedFor S))
    (hpool : ∀ a cfg, s.records.poolConfigs a = some cfg →
      cfg.poolScript = taprootScript cfg.ikaDwalletXonlyPubkey)
    (h : AllFaithful E S L s.records.poolConfigs s.untouched) (hstep : step E s l = .ok s')
    (hS : ∀ raw ∈ l.creditedTx E, raw ∈ S) (hL : ∀ leaf ∈ l.creditedLeaf E, leaf ∈ L) :
    AllFaithful E S L s'.records.poolConfigs s'.untouched := by
  have hkept : AllFaithful E S L s.records.poolConfigs s'.untouched := by
    by_cases hw : ∃ c c' i, l = .call c ∧ c.decode E = some (i, c') ∧ i.writesKeys = true
    · obtain ⟨c, c', i, rfl, hd, hi⟩ := hw
      simp only [step, bind_eq_ok, exists_unit, processInstruction, hd] at hstep
      have hsame := run_leaves_outputs hi s' hstep.2
      intro k u hu
      rw [Untouched.record?, hsame] at hu
      exact h k u hu
    · refine step_ensures allFaithful_about h hstep (fun c c' i hl hd => ?_) ?_
      · exact Bool.eq_false_iff.mpr fun hi => hw ⟨c, c', i, hl, hd, hi⟩
      · rintro c c' i k amount leaf rfl hd hcrediting
        obtain ⟨cfg, out, hcfg, hpaid, rfl, hscript, hleaf⟩ := crediting_paid hd hcrediting hS hL
        exact allFaithful_credits hlen hinj hcfg (hpool _ _ hcfg) hpaid hscript hleaf
  exact hkept.configs fun a cfg hcfg => step_config hstep hcfg

/-- Every record is faithful in every state. -/
theorem faithful_of_reaches {tr : List (Step State Label)} {guard : State → Label → Prop}
    (run : Reaches (step E) guard .genesis tr s) (hlen : ∀ raw ∈ S, raw.length < 2 ^ 63)
    (hinj : Set.InjOn (doubleSha256 E) (hashedFor S)) (hS : ∀ raw ∈ creditedTxs E tr, raw ∈ S)
    (hL : ∀ leaf ∈ creditedLeaves E tr, leaf ∈ L) :
    AllFaithful E S L s.records.poolConfigs s.untouched := by
  have hread : Reaches (step E) (fun _ l => (∀ raw ∈ l.creditedTx E, raw ∈ S) ∧
      ∀ leaf ∈ l.creditedLeaf E, leaf ∈ L) .genesis tr s :=
    run.strengthen fun st hst _ => ⟨fun raw hraw => hS raw (List.mem_filterMap.mpr ⟨st, hst, hraw⟩),
      fun leaf hleaf => hL leaf (List.mem_filterMap.mpr ⟨st, hst, hleaf⟩)⟩
  refine hread.history (I := fun _ s => AllFaithful E S L s.records.poolConfigs s.untouched) ?_ ?_
  · exact fun k u hu => absurd (show none = some u from hu) (by simp)
  · intro tr' s l s' run' hI hg hstep
    exact step_faithful hlen hinj (configured_of_reaches run').script hI hstep hg.1 hg.2

lemma creditedTxs_length {tr : List (Step State Label)} {raw : List UInt8}
    (h : raw ∈ creditedTxs E tr) : raw.length < 2 ^ 63 := by
  obtain ⟨st, -, hst⟩ := List.mem_filterMap.mp h
  exact creditedTx_length hst

/-- The inputs of the transaction that is signed and what they were made of. -/
lemma redemptionTx_inputs {req : RedemptionRequest} {ordered : List ReservedInput} {fee : ℕ}
    {tx : RedemptionTx} (h : redemptionTx E cfg req ordered fee = .ok tx) {input : SighashInput}
    (hinput : input ∈ tx.inputs) : ∃ r ∈ ordered, ∃ leafHash,
      inputScript E cfg r = .ok (input.scriptPubkey, leafHash) ∧ input.txid = r.txid ∧
        input.vout = r.vout ∧ input.amountSats = r.amountSats := by
  simp only [redemptionTx, buildRedemptionTx, bind_eq_ok, exists_unit, pure_eq_ok, Prod.exists] at h
  obtain ⟨_, _, -, -, scripts, hscripts, rfl⟩ := h
  have hboth := mapM_forall₂ hscripts
  clear hscripts
  induction hboth with
  | nil => exact absurd hinput (by simp)
  | @cons r x rs xs hr _ ih =>
    rcases List.mem_cons.mp hinput with rfl | hrest
    · exact ⟨r, List.mem_cons_self, x.2, hr, rfl, rfl, rfl⟩
    · obtain ⟨r', hr', hspec⟩ := ih hrest
      exact ⟨r', List.mem_cons_of_mem _ hr', hspec⟩

/-- An approval takes outputs of its own pool: a marking put them aside. -/
lemma Approving.own {tr : List (Step State Label)} {m : Addr} {req req' : RedemptionRequest}
    {us : List UtxoEntry} {tx : RedemptionTx} {fee i : ℕ}
    (h : Approving E s.records m req req' cfg us tx fee i)
    (hcovered : Covered E tr s.records.processing s.records.reserved) :
    ∀ e ∈ us, e.1.1 = .poolState m := by
  obtain ⟨us₀, horigin⟩ := hcovered.origin h.request h.processing
  intro e he
  obtain ⟨hrec, hst, hkey⟩ := h.reserved e he
  have hmem := horigin.held e (reserved_eq_some.mpr ⟨hrec, hst⟩) hkey
  exact congrArg Prod.fst (horigin.filed_reserved hmem)

/-- **Records are true to their outputs**: after any run the record of an output has the value of the
one output that the transaction of its id has at its index, and an approval rebuilds the script of that
output. As long as no reservation keys collide, the inputs that an approval hashes therefore have the
amounts and the scripts of the outputs that they spend. -/
theorem utxos_faithful {tr : List (Step State Label)}
    (run : Reaches (step E) (fun _ _ => True) .genesis tr s)
    (hinj : Set.InjOn (doubleSha256 E) (hashedFor {raw | raw ∈ creditedTxs E tr}))
    (hno : ∀ pool cfg, s.records.poolConfigs pool = some cfg →
      NoSelfTweak E {leaf | leaf ∈ creditedLeaves E tr} cfg) :
    (∀ pool o u, s.records.utxos (pool, o) = some u → ∃ cfg out,
      s.records.poolConfigs pool = some cfg ∧
        (∀ out', PaidIn E {raw | raw ∈ creditedTxs E tr} o out' ↔ out' = out) ∧
        u.Describes E cfg o out) ∧
    (KeysApart E (markedKeys E tr) → ∀ m req req' cfg us tx fee i,
      Approving E s.records m req req' cfg us tx fee i → ∀ input ∈ tx.inputs, ∃ out,
        PaidIn E {raw | raw ∈ creditedTxs E tr} (input.txid, input.vout) out ∧
          input.amountSats = out.value ∧ input.scriptPubkey = out.scriptPubkey) := by
  have hlen : ∀ raw ∈ {raw | raw ∈ creditedTxs E tr}, raw.length < 2 ^ 63 :=
    fun raw hraw => creditedTxs_length hraw
  have hall := faithful_of_reaches run hlen hinj (fun _ h => h) (L := {leaf | leaf ∈ creditedLeaves E tr})
    fun _ h => h
  have hrecord : ∀ pool o u, s.records.utxos (pool, o) = some u → ∃ cfg out,
      s.records.poolConfigs pool = some cfg ∧ PaidIn E {raw | raw ∈ creditedTxs E tr} o out ∧
        u.Describes E cfg o out := by
    intro pool o u hu
    have hlive := Data.live?_eq_some.mp (Account.rec?_eq_some.mp hu).2
    obtain ⟨cfg, out, hcfg, hpaid, hdesc⟩ := hall (pool, o) u (by rw [untouched_record?, hlive]; rfl)
    exact ⟨cfg, out, hcfg, hpaid, (hdesc (hno pool cfg hcfg)).1⟩
  refine ⟨fun pool o u hu => ?_, fun hkeys m req req' cfg us tx fee i happroving input hinput => ?_⟩
  · obtain ⟨cfg, out, hcfg, hpaid, hdesc⟩ := hrecord pool o u hu
    refine ⟨cfg, out, hcfg, fun out' => ⟨fun h => hpaid.unique hlen hinj h, ?_⟩, hdesc⟩
    rintro rfl
    exact hpaid
  · obtain ⟨r, hr, leafHash, hscript, htxid, hvout, hamount⟩ := redemptionTx_inputs happroving.tx hinput
    obtain ⟨e, he, rfl⟩ := List.mem_map.mp ((canonicalSort_perm _).mem_iff.mp hr)
    obtain ⟨⟨pool, o⟩, u⟩ := e
    obtain rfl : pool = .poolState m := happroving.own (covered_of_reaches run hkeys) _ he
    obtain ⟨cfg', out, hcfg', hpaid, hdesc⟩ := hrecord _ o u (happroving.reserved _ he).1
    obtain rfl := Option.some_inj.mp (hcfg'.symm.trans happroving.config)
    obtain ⟨leafHash', hscript'⟩ := hdesc.script
    obtain ⟨hsame, -⟩ := Prod.mk.inj (Except.ok.inj (hscript.symm.trans hscript'))
    refine ⟨out, ?_, hamount.trans hdesc.amount, hsame⟩
    rw [htxid, hvout]
    change PaidIn E _ (u.txid, u.vout) out
    rwa [hdesc.txid, hdesc.vout]

/-! ### Two deposits -/

namespace Regtest

def ephemeralKey : Hash := toLe 32 6

/-- A payment to the key that nobody knows, tweaked by a leaf of the wallet. -/
def tweakTx : List UInt8 :=
  let leafHash := depositLeafHash env (tweakCommitment env npk ephemeralKey) walletKey
  rawTx [(toLe 32 3, 0)]
    [⟨70000, taprootScript ((env.taprootOutputKey depositNumsInternalKey leafHash).getD walletKey)⟩]

/-- A deposit of a tweaked output. -/
def verifyDeposit (tree : ℕ) (raw : List UInt8) (ephemeralPubkey notePublicKey : Hash) (vout : ℕ) :
    Label :=
  let txid := txidOf raw
  call 25 [writable pool, readonly (.key (verifiedTx txid)), readonly (.key env.lightClientPda),
    writable (.commitmentTree pool tree), readonly (.key sweepBuffer), signer admin, system,
    writable zkbtc, writable vault, readonly (.key token2022ProgramId), readonly (.key depositBuffer),
    writable (.depositReceipt txid (some vout)), writable (.utxo pool (txid, vout)),
    writable (.tokenConfig pool zkbtc), readonly (.poolConfig pool),
    readonly (.key (env.heightIndexPda 100))]
    (txid.toList ++ leBytes 8 100 ++ leBytes 4 raw.length ++ leBytes 4 0 ++ txid.toList ++
      ephemeralPubkey.toList ++ notePublicKey.toList ++ leBytes 4 vout)
    ((sweepBuffer, bufferOf raw) :: lightClientView txid) 0

def twoDeposits : List Label :=
  openBook ++ [completeDeposit 0 (directTx 1 100000) (directTx 1 100000) 0,
    verifyDeposit 0 tweakTx ephemeralKey npk 0]

lemma run_twoDeposits : ((exec (step env) (fun _ _ => true) .genesis twoDeposits).any fun s =>
    (s.records.utxos (pool, outputOf 1 100000)).isSome &&
      (s.records.utxos (pool, (txidOf tweakTx, 0))).isSome) = true := by
  decide +kernel

lemma twoDeposits_txs : twoDeposits.filterMap (fun l => l.creditedTx env) =
    [directTx 1 100000, tweakTx] := by
  decide +kernel

lemma twoDeposits_leaves : twoDeposits.filterMap (fun l => l.creditedLeaf env) =
    [tweakCommitment env npk ephemeralKey] := by
  decide +kernel

lemma twoDeposits_keys :
    (twoDeposits.filterMap fun l => l.custody env).map Custody.xonly = [walletKey] := by
  decide +kernel

/-- The ids of the two transactions are taken of all their bytes and differ. -/
lemma twoDeposits_apart : (∀ a ∈ [directTx 1 100000, tweakTx], Scanner.hashedBytes a = .ok a) ∧
    ∀ a ∈ [directTx 1 100000, tweakTx], ∀ b ∈ [directTx 1 100000, tweakTx],
      doubleSha256 env a = doubleSha256 env b → a = b := by
  decide +kernel

lemma walletKey_apart : env.taprootOutputKey depositNumsInternalKey (depositLeafHash env
    (tweakCommitment env npk ephemeralKey) walletKey) ≠ some walletKey := by
  decide +kernel

end Regtest

open Regtest in
/-- An output of the pool's script and a tweaked one. -/
theorem utxos_faithful_two : ∃ (tr : List (Step State Label)) (s : State),
    tr.map Step.call = twoDeposits ∧
    s.records.utxos (pool, outputOf 1 100000) ≠ none ∧
    s.records.utxos (pool, (txidOf tweakTx, 0)) ≠ none ∧
    ∀ pool o u, s.records.utxos (pool, o) = some u → ∃ cfg out,
      s.records.poolConfigs pool = some cfg ∧
        (∀ out', PaidIn env {raw | raw ∈ creditedTxs env tr} o out' ↔ out' = out) ∧
        u.Describes env cfg o out := by
  obtain ⟨s, hs, hboth⟩ := (Option.any_eq_true _ _).mp run_twoDeposits
  obtain ⟨tr, hcalls, hrun⟩ := reaches_of_exec (fun _ _ _ => trivial : ∀ _ _, _ → True) hs
  have hview : ∀ {β : Type} (f : Label → Option β),
      tr.filterMap (fun st => f st.call) = twoDeposits.filterMap f := by
    intro β f
    rw [← hcalls, List.filterMap_map]
    rfl
  have htxs : creditedTxs env tr = [directTx 1 100000, tweakTx] :=
    (hview fun l => l.creditedTx env).trans twoDeposits_txs
  have hleaves : creditedLeaves env tr = [tweakCommitment env npk ephemeralKey] :=
    (hview fun l => l.creditedLeaf env).trans twoDeposits_leaves
  have hkeys : (custodies env tr).map Custody.xonly = [walletKey] :=
    (congrArg (List.map Custody.xonly) (hview fun l => l.custody env)).trans twoDeposits_keys
  obtain ⟨hhashed, hapart⟩ := twoDeposits_apart
  simp only [Bool.and_eq_true, Option.isSome_iff_ne_none] at hboth
  refine ⟨tr, s, hcalls, hboth.1, hboth.2, (utxos_faithful hrun ?_ ?_).1⟩
  · rintro a ⟨raw, hraw, ha⟩ b ⟨raw', hraw', hb⟩ heq
    rw [Set.mem_ofPred_eq, htxs] at hraw hraw'
    obtain rfl := Except.ok.inj ((hhashed raw hraw).symm.trans ha)
    obtain rfl := Except.ok.inj ((hhashed raw' hraw').symm.trans hb)
    exact hapart _ hraw _ hraw' heq
  · intro pool' cfg hcfg commitment hcommitment
    have hlisted := List.mem_map_of_mem (f := Custody.xonly)
      ((configured_of_reaches hrun).listed pool' cfg hcfg)
    rw [hkeys] at hlisted
    have hkey : cfg.ikaDwalletXonlyPubkey = walletKey := List.mem_singleton.mp hlisted
    rw [Set.mem_ofPred_eq, hleaves] at hcommitment
    rw [List.mem_singleton.mp hcommitment, hkey]
    exact walletKey_apart

end Utxopia.Pool
