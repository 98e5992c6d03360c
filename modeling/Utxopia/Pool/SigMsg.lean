import Utxopia.Pool.Program
import Utxopia.Pool.TxFormat

/-!
What a taproot signature commits to.

The message is the one of the Bitcoin rules for the hash type that a redemption uses, under its tag.
Lists are hashed piece after piece, and every piece ends by itself, so equal messages are about one
transaction, one input and one leaf.
-/

namespace Utxopia.Pool

open Utxopia.ByteString Utxopia.Check Utxopia.Encoding

/-! ### The message of the rules -/

/-- An input with the output it spends. -/
structure SpendingInput where
  outpoint : TxInput
  sequence : ℕ
  spent : TxOutput

structure SpendingTx where
  version : ℕ
  lockTime : ℕ
  inputs : List SpendingInput
  outputs : List TxOutput

/-- The form that takes no more bytes than it needs. -/
def CompactForm.shortest (n : ℕ) : CompactForm :=
  if n ≤ 0xfc then one else if n < 2 ^ 16 then three else if n < 2 ^ 32 then five else nine

def sizedBytes (d : List UInt8) : List UInt8 :=
  (CompactForm.shortest d.length).encode d.length ++ d

def TxInput.bytes (i : TxInput) : List UInt8 := i.prevTxid.toList ++ leBytes 4 i.prevVout

def TxOutput.bytes (o : TxOutput) : List UInt8 := leBytes 8 o.value ++ sizedBytes o.scriptPubkey

section Message

variable (sha256 : List UInt8 → Hash) (tx : SpendingTx) (hashType : UInt8)
  (annex : Option (List UInt8)) (inputIndex : ℕ)

/-- The bit of the hash type that leaves out the other inputs, and its two bits about outputs. -/
def anyoneCanPay : Prop := hashType &&& 0x80 ≠ 0

def outputType : UInt8 := hashType &&& 3

instance : Decidable (anyoneCanPay hashType) := inferInstanceAs (Decidable (_ ≠ _))

/-- `SigMsg(hash_type, ext_flag)`. -/
def sigMsg (extFlag : UInt8) : List UInt8 :=
  [hashType] ++ leBytes 4 tx.version ++ leBytes 4 tx.lockTime ++
    (if anyoneCanPay hashType then [] else
      (sha256 (tx.inputs.flatMap fun i => i.outpoint.bytes)).toList ++
      (sha256 (tx.inputs.flatMap fun i => leBytes 8 i.spent.value)).toList ++
      (sha256 (tx.inputs.flatMap fun i => sizedBytes i.spent.scriptPubkey)).toList ++
      (sha256 (tx.inputs.flatMap fun i => leBytes 4 i.sequence)).toList) ++
    -- neither none nor single
    (if outputType hashType = 2 ∨ outputType hashType = 3 then [] else
      (sha256 (tx.outputs.flatMap TxOutput.bytes)).toList) ++
    [2 * extFlag + if annex.isSome then 1 else 0] ++
    (if anyoneCanPay hashType then
      tx.inputs[inputIndex]?.elim [] fun i =>
        i.outpoint.bytes ++ i.spent.bytes ++ leBytes 4 i.sequence
      else leBytes 4 inputIndex) ++
    (annex.elim [] fun a => (sha256 (sizedBytes a)).toList) ++
    (if outputType hashType = 3 then
      tx.outputs[inputIndex]?.elim [] fun o => (sha256 o.bytes).toList else [])

/-- What is hashed under a tag. -/
def tagged (tag message : List UInt8) : List UInt8 :=
  (sha256 tag).toList ++ (sha256 tag).toList ++ message

/-- The message of a key spend: the epoch and the message without an extension. -/
def keySpendMessage : List UInt8 :=
  tagged sha256 tapSighashTag (0 :: sigMsg sha256 tx hashType annex inputIndex 0)

/-- The message of a script spend: the extension is the leaf, the version of its keys and the position
of the last code separator. -/
def scriptSpendMessage (leafHash : Hash) (keyVersion : UInt8) (codeSeparator : ℕ) : List UInt8 :=
  tagged sha256 tapSighashTag (0 :: sigMsg sha256 tx hashType annex inputIndex 1 ++
    leafHash.toList ++ [keyVersion] ++ leBytes 4 codeSeparator)

end Message

/-! ### The program's preimages -/

/-- A transaction as the program hands it over. -/
@[ext]
structure SighashTx where
  version : ℕ
  locktime : ℕ
  inputs : List SighashInput
  outputs : List SighashOutput

namespace SighashTx

def spending (tx : SighashTx) : SpendingTx where
  version := tx.version
  lockTime := tx.locktime
  inputs := tx.inputs.map fun i => ⟨⟨i.txid, i.vout⟩, i.sequence, ⟨i.amountSats, i.scriptPubkey⟩⟩
  outputs := tx.outputs.map fun o => ⟨o.amountSats, o.scriptPubkey⟩

def keyPreimage (E : Env) (tx : SighashTx) (inputIndex : ℕ) : List UInt8 :=
  taprootKeyspendPreimage E tx.version tx.locktime tx.inputs tx.outputs inputIndex

def scriptPreimage (E : Env) (tx : SighashTx) (inputIndex : ℕ) (leafHash : Hash) : List UInt8 :=
  taprootScriptspendPreimage E tx.version tx.locktime tx.inputs tx.outputs inputIndex leafHash

end SighashTx

variable {E : Env} {S : Set (List UInt8)} {tx tx' : SighashTx} {i j : ℕ}

lemma compactSize_eq (n : ℕ) : compactSize n = (CompactForm.shortest n).encode n := by
  unfold compactSize CompactForm.shortest
  split_ifs <;> first | omega | rfl | skip
  have hmod : n % 256 = n := Nat.mod_eq_of_lt (by omega)
  rw [CompactForm.encode, leBytes, leBytes, hmod]

lemma scriptBytes_eq (script : List UInt8) : scriptBytes script = sizedBytes script := by
  rw [scriptBytes, sizedBytes, compactSize_eq]

lemma midstate_eq : sighashMidstate E tx.version tx.locktime tx.inputs tx.outputs =
    (E.sha256 tapSighashTag).toList ++ (E.sha256 tapSighashTag).toList ++ [0x00, 0x00] ++
      leBytes 4 tx.version ++ leBytes 4 tx.locktime ++
      ((E.sha256 (tx.spending.inputs.flatMap fun i => i.outpoint.bytes)).toList ++
      (E.sha256 (tx.spending.inputs.flatMap fun i => leBytes 8 i.spent.value)).toList ++
      (E.sha256 (tx.spending.inputs.flatMap fun i => sizedBytes i.spent.scriptPubkey)).toList ++
      (E.sha256 (tx.spending.inputs.flatMap fun i => leBytes 4 i.sequence)).toList) ++
      (E.sha256 (tx.spending.outputs.flatMap TxOutput.bytes)).toList := by
  simp only [sighashMidstate, SighashTx.spending, List.flatMap_map, TxInput.bytes, TxOutput.bytes,
    scriptBytes_eq, List.append_assoc]

/-- The default hash type: all inputs and outputs. -/
lemma sigMsg_default (sha256 : List UInt8 → Hash) (tx : SpendingTx) (i : ℕ) (extFlag : UInt8) :
    sigMsg sha256 tx 0 none i extFlag =
      [0] ++ leBytes 4 tx.version ++ leBytes 4 tx.lockTime ++
      ((sha256 (tx.inputs.flatMap fun i => i.outpoint.bytes)).toList ++
      (sha256 (tx.inputs.flatMap fun i => leBytes 8 i.spent.value)).toList ++
      (sha256 (tx.inputs.flatMap fun i => sizedBytes i.spent.scriptPubkey)).toList ++
      (sha256 (tx.inputs.flatMap fun i => leBytes 4 i.sequence)).toList) ++
      (sha256 (tx.outputs.flatMap TxOutput.bytes)).toList ++
      [2 * extFlag] ++ leBytes 4 i := by
  have hall : ¬ anyoneCanPay 0 := by decide
  have hnone : ¬ (outputType 0 = 2 ∨ outputType 0 = 3) := by decide
  have hsingle : ¬ outputType 0 = 3 := by decide
  rw [sigMsg, if_neg hall, if_neg hall, if_neg hnone, if_neg hsingle]
  simp

/-- **The key spend's preimage is the message of the rules** for the default hash type. -/
theorem keyPreimage_eq : tx.keyPreimage E i = keySpendMessage E.sha256 tx.spending 0 none i := by
  rw [SighashTx.keyPreimage, taprootKeyspendPreimage, midstate_eq, keySpendMessage, tagged,
    sigMsg_default]
  simp [SighashTx.spending]

/-- **The script spend's preimage** is the message with the leaf, version 0 of its keys and no code
separator. -/
theorem scriptPreimage_eq {leafHash : Hash} : tx.scriptPreimage E i leafHash =
    scriptSpendMessage E.sha256 tx.spending 0 none i leafHash 0 0xFFFFFFFF := by
  rw [SighashTx.scriptPreimage, taprootScriptspendPreimage, midstate_eq, scriptSpendMessage, tagged,
    sigMsg_default]
  simp [SighashTx.spending]

/-! ### What a preimage stands for -/

lemma shortest_fits {n : ℕ} (h : n < 2 ^ 64) : (CompactForm.shortest n).Fits n := by
  unfold CompactForm.shortest
  split_ifs with h1 h2 h3
  · exact h1
  · exact h2
  · exact h3
  · exact h

/-- **Compact sizes end**: what is read back is the size and where it ends. -/
lemma delimited_compactSize : Delimited (fun n => n < 2 ^ 64) compactSize := by
  intro n m a b hn hm heq
  rw [compactSize_eq, compactSize_eq] at heq
  have hleft := readVarint_encode (shortest_fits hn) (List.prefix_append _ a)
  have hright := readVarint_encode (shortest_fits hm) (List.prefix_append _ b)
  rw [heq, hright, Option.some_inj, Prod.mk.injEq] at hleft
  obtain ⟨rfl, -⟩ := hleft
  exact ⟨rfl, List.append_cancel_left heq⟩

lemma delimited_scriptBytes :
    Delimited (fun script : List UInt8 => script.length < 2 ^ 64) scriptBytes :=
  delimited_compactSize.sized

lemma compactSize_ne_nil (n : ℕ) : compactSize n ≠ [] := by
  rw [compactSize_eq]
  exact encode_ne_nil _ n

/-- The numbers and lengths fit their types. -/
structure SighashInput.Fits (i : SighashInput) : Prop where
  vout : i.vout < 2 ^ 32
  sequence : i.sequence < 2 ^ 32
  amount : i.amountSats < 2 ^ 64
  script : i.scriptPubkey.length < 2 ^ 64

structure SighashOutput.Fits (o : SighashOutput) : Prop where
  amount : o.amountSats < 2 ^ 64
  script : o.scriptPubkey.length < 2 ^ 64

structure SighashTx.Fits (tx : SighashTx) : Prop where
  version : tx.version < 2 ^ 32
  locktime : tx.locktime < 2 ^ 32
  inputs : ∀ i ∈ tx.inputs, i.Fits
  outputs : ∀ o ∈ tx.outputs, o.Fits

/-- The strings whose hashes are in a preimage. -/
def SighashTx.hashed (tx : SighashTx) : List (List UInt8) :=
  [tx.inputs.flatMap fun i => i.txid.toList ++ leBytes 4 i.vout,
    tx.inputs.flatMap fun i => leBytes 8 i.amountSats,
    tx.inputs.flatMap fun i => scriptBytes i.scriptPubkey,
    tx.inputs.flatMap fun i => leBytes 4 i.sequence,
    tx.outputs.flatMap fun o => leBytes 8 o.amountSats ++ scriptBytes o.scriptPubkey]

/-- Equal pieces of two lists of things are pieces of equal parts of the things. -/
lemma map_eq_of_flatMap {A B : Type} {P : B → Prop} {enc : B → List UInt8} (h : Delimited P enc)
    (hne : ∀ b, enc b ≠ []) {f : A → B} {xs ys : List A} (hxs : ∀ x ∈ xs, P (f x))
    (hys : ∀ y ∈ ys, P (f y)) (heq : (xs.flatMap fun x => enc (f x)) = ys.flatMap fun y => enc (f y)) :
    xs.map f = ys.map f := by
  refine h.flatMap_inj hne (List.forall_mem_map.mpr hxs) (List.forall_mem_map.mpr hys) ?_
  rwa [List.flatMap_map, List.flatMap_map]

lemma leBytes_ne_nil {n : ℕ} (hn : 0 < n) (v : ℕ) : leBytes n v ≠ [] :=
  List.length_pos_iff.mp (by rwa [length_leBytes])

lemma delimited_outpoint : Delimited (fun o : Hash × ℕ => o.2 < 256 ^ 4)
    fun o => o.1.toList ++ leBytes 4 o.2 := by
  rintro ⟨t, v⟩ ⟨t', v'⟩ a b hv hv' heq
  rw [List.append_assoc, List.append_assoc] at heq
  obtain ⟨rfl, hrest⟩ := toList_append_inj heq
  obtain ⟨rfl, hab⟩ := delimited_leBytes 4 hv hv' hrest
  exact ⟨rfl, hab⟩

lemma delimited_output : Delimited SighashOutput.Fits
    fun o => leBytes 8 o.amountSats ++ scriptBytes o.scriptPubkey := by
  rintro ⟨v, script⟩ ⟨v', script'⟩ a b hv hv' heq
  rw [List.append_assoc, List.append_assoc] at heq
  obtain ⟨rfl, hrest⟩ := delimited_leBytes 8 (lt_of_lt_of_eq hv.amount (by norm_num))
    (lt_of_lt_of_eq hv'.amount (by norm_num)) heq
  obtain ⟨rfl, hab⟩ := delimited_scriptBytes hv.script hv'.script hrest
  exact ⟨rfl, hab⟩

/-- Inputs are their four parts. -/
lemma inputs_ext {xs ys : List SighashInput}
    (houtpoint : xs.map (fun i => (i.txid, i.vout)) = ys.map fun i => (i.txid, i.vout))
    (hamount : xs.map SighashInput.amountSats = ys.map SighashInput.amountSats)
    (hscript : xs.map SighashInput.scriptPubkey = ys.map SighashInput.scriptPubkey)
    (hsequence : xs.map SighashInput.sequence = ys.map SighashInput.sequence) : xs = ys := by
  induction xs generalizing ys with
  | nil => exact (List.map_eq_nil_iff.mp houtpoint.symm).symm
  | cons x xs ih =>
    cases ys with
    | nil => exact absurd houtpoint (by simp)
    | cons y ys =>
      simp only [List.map_cons, List.cons.injEq, Prod.mk.injEq] at houtpoint hamount hscript hsequence
      obtain ⟨txid, vout, sequence, amountSats, scriptPubkey⟩ := x
      obtain ⟨⟨rfl, rfl⟩, houtpoint⟩ := houtpoint
      obtain ⟨rfl, hamount⟩ := hamount
      obtain ⟨rfl, hscript⟩ := hscript
      obtain ⟨rfl, hsequence⟩ := hsequence
      rw [ih houtpoint hamount hscript hsequence]

/-- **The common part is read back**: the transaction, and what follows. -/
theorem midstate_append_inj (hinj : Set.InjOn E.sha256 S) (htx : tx.Fits) (htx' : tx'.Fits)
    (hS : ∀ d ∈ tx.hashed, d ∈ S) (hS' : ∀ d ∈ tx'.hashed, d ∈ S) {a b : List UInt8}
    (h : sighashMidstate E tx.version tx.locktime tx.inputs tx.outputs ++ a =
      sighashMidstate E tx'.version tx'.locktime tx'.inputs tx'.outputs ++ b) : tx = tx' ∧ a = b := by
  simp only [SighashTx.hashed, List.forall_mem_cons] at hS hS'
  obtain ⟨hprevouts, hamounts, hscripts, hsequences, houtputs, -⟩ := hS
  obtain ⟨hprevouts', hamounts', hscripts', hsequences', houtputs', -⟩ := hS'
  simp only [sighashMidstate, List.append_assoc] at h
  have h := List.append_cancel_left (List.append_cancel_left (List.append_cancel_left h))
  obtain ⟨hversion, h⟩ := delimited_leBytes 4 (lt_of_lt_of_eq htx.version (by norm_num))
    (lt_of_lt_of_eq htx'.version (by norm_num)) h
  obtain ⟨hlocktime, h⟩ := delimited_leBytes 4 (lt_of_lt_of_eq htx.locktime (by norm_num))
    (lt_of_lt_of_eq htx'.locktime (by norm_num)) h
  obtain ⟨h1, h⟩ := toList_append_inj h
  obtain ⟨h2, h⟩ := toList_append_inj h
  obtain ⟨h3, h⟩ := toList_append_inj h
  obtain ⟨h4, h⟩ := toList_append_inj h
  obtain ⟨h5, h⟩ := toList_append_inj h
  have hinputs : tx.inputs = tx'.inputs := inputs_ext
    (map_eq_of_flatMap delimited_outpoint (fun o => by simp)
      (fun i hi => lt_of_lt_of_eq (htx.inputs i hi).vout (by norm_num))
      (fun i hi => lt_of_lt_of_eq (htx'.inputs i hi).vout (by norm_num))
      (hinj hprevouts hprevouts' h1))
    (map_eq_of_flatMap (delimited_leBytes 8) (leBytes_ne_nil (by decide))
      (fun i hi => lt_of_lt_of_eq (htx.inputs i hi).amount (by norm_num))
      (fun i hi => lt_of_lt_of_eq (htx'.inputs i hi).amount (by norm_num))
      (hinj hamounts hamounts' h2))
    (map_eq_of_flatMap delimited_scriptBytes (fun script => by simp [scriptBytes, compactSize_ne_nil])
      (fun i hi => (htx.inputs i hi).script) (fun i hi => (htx'.inputs i hi).script)
      (hinj hscripts hscripts' h3))
    (map_eq_of_flatMap (delimited_leBytes 4) (leBytes_ne_nil (by decide))
      (fun i hi => lt_of_lt_of_eq (htx.inputs i hi).sequence (by norm_num))
      (fun i hi => lt_of_lt_of_eq (htx'.inputs i hi).sequence (by norm_num))
      (hinj hsequences hsequences' h4))
  have houts : tx.outputs = tx'.outputs := delimited_output.flatMap_inj
    (fun o => by simp [leBytes_ne_nil]) htx.outputs htx'.outputs (hinj houtputs houtputs' h5)
  exact ⟨SighashTx.ext hversion hlocktime hinputs houts, h⟩

section Inj

variable (hinj : Set.InjOn E.sha256 S) (htx : tx.Fits) (htx' : tx'.Fits)
  (hS : ∀ d ∈ tx.hashed, d ∈ S) (hS' : ∀ d ∈ tx'.hashed, d ∈ S) (hi : i < 2 ^ 32) (hj : j < 2 ^ 32)
include hinj htx htx' hS hS' hi hj

lemma keyPreimage_inj (h : tx.keyPreimage E i = tx'.keyPreimage E j) : tx = tx' ∧ i = j := by
  simp only [SighashTx.keyPreimage, taprootKeyspendPreimage, List.append_assoc] at h
  obtain ⟨rfl, hrest⟩ := midstate_append_inj hinj htx htx' hS hS' h
  have hindex : leBytes 4 i = leBytes 4 j := List.append_cancel_left hrest
  exact ⟨rfl, leBytes_inj (lt_of_lt_of_eq hi (by norm_num)) (lt_of_lt_of_eq hj (by norm_num)) hindex⟩

lemma scriptPreimage_inj {leafHash leafHash' : Hash}
    (h : tx.scriptPreimage E i leafHash = tx'.scriptPreimage E j leafHash') :
    tx = tx' ∧ i = j ∧ leafHash = leafHash' := by
  simp only [SighashTx.scriptPreimage, taprootScriptspendPreimage, List.append_assoc] at h
  obtain ⟨rfl, hrest⟩ := midstate_append_inj hinj htx htx' hS hS' h
  obtain ⟨rfl, hleaf⟩ := delimited_leBytes 4 (lt_of_lt_of_eq hi (by norm_num))
    (lt_of_lt_of_eq hj (by norm_num)) (List.append_cancel_left hrest)
  exact ⟨rfl, rfl, (toList_append_inj hleaf).1⟩

end Inj

lemma length_midstate : (sighashMidstate E tx.version tx.locktime tx.inputs tx.outputs).length = 234 := by
  simp [sighashMidstate]

/-- The two kinds have different lengths. -/
lemma keyPreimage_ne_scriptPreimage {leafHash : Hash} :
    tx.keyPreimage E i ≠ tx'.scriptPreimage E j leafHash := by
  intro h
  have hlen := congrArg List.length h
  simp [SighashTx.keyPreimage, SighashTx.scriptPreimage, taprootKeyspendPreimage,
    taprootScriptspendPreimage, length_midstate] at hlen

/-- **A signature is for one payment**: the preimages are the messages of the rules, equal ones are
about the same transaction, input and leaf, and a key spend's is never a script spend's. -/
theorem preimages_bound :
    (∀ (tx : SighashTx) (i : ℕ), tx.keyPreimage E i = keySpendMessage E.sha256 tx.spending 0 none i) ∧
    (∀ (tx : SighashTx) (i : ℕ) (leafHash : Hash), tx.scriptPreimage E i leafHash =
      scriptSpendMessage E.sha256 tx.spending 0 none i leafHash 0 0xFFFFFFFF) ∧
    (∀ S : Set (List UInt8), Set.InjOn E.sha256 S → ∀ (tx tx' : SighashTx) (i j : ℕ),
      tx.Fits → tx'.Fits → i < 2 ^ 32 → j < 2 ^ 32 → (∀ d ∈ tx.hashed, d ∈ S) →
      (∀ d ∈ tx'.hashed, d ∈ S) →
      (tx.keyPreimage E i = tx'.keyPreimage E j → tx = tx' ∧ i = j) ∧
      ∀ leafHash leafHash', tx.scriptPreimage E i leafHash = tx'.scriptPreimage E j leafHash' →
        tx = tx' ∧ i = j ∧ leafHash = leafHash') ∧
    ∀ (tx tx' : SighashTx) (i j : ℕ) (leafHash : Hash),
      tx.keyPreimage E i ≠ tx'.scriptPreimage E j leafHash :=
  ⟨fun _ _ => keyPreimage_eq, fun _ _ _ => scriptPreimage_eq,
    fun _ hinj _ _ _ _ htx htx' hi hj hS hS' => ⟨keyPreimage_inj hinj htx htx' hS hS' hi hj,
      fun _ _ => scriptPreimage_inj hinj htx htx' hS hS' hi hj⟩,
    fun _ _ _ _ _ => keyPreimage_ne_scriptPreimage⟩

namespace Regtest

/-- One input pays a script. -/
def paymentTo (script : List UInt8) : SighashTx :=
  ⟨2, 0, [⟨zeros 32, 0, btcInputSequence, 1000, [0x51]⟩], [⟨900, script⟩]⟩

lemma paymentTo_fits {script : List UInt8} (h : script.length < 2 ^ 64) : (paymentTo script).Fits where
  version := show 2 < 2 ^ 32 by decide
  locktime := show 0 < 2 ^ 32 by decide
  inputs := by
    intro i hi
    rw [List.mem_singleton.mp hi]
    exact ⟨by decide, by decide, by decide, by decide⟩
  outputs := by
    intro o ho
    rw [List.mem_singleton.mp ho]
    exact ⟨by simp, h⟩

/-- What is hashed for payments to two scripts. -/
def paymentStrings : List (List UInt8) := (paymentTo [1]).hashed ++ (paymentTo [2]).hashed

lemma paymentStrings_apart : ∀ d ∈ paymentStrings, ∀ d' ∈ paymentStrings,
    env.sha256 d = env.sha256 d' → d = d' := by
  decide +kernel

end Regtest

open Regtest in
/-- Payments to two scripts have two preimages. -/
theorem preimages_bound_two :
    (paymentTo [1]).keyPreimage env 0 ≠ (paymentTo [2]).keyPreimage env 0 := by
  obtain ⟨-, -, hinj, -⟩ := preimages_bound (E := env)
  intro heq
  have h := (hinj {d | d ∈ paymentStrings} (fun _ hd _ hd' h => paymentStrings_apart _ hd _ hd' h)
    (paymentTo [1]) (paymentTo [2]) 0 0 (paymentTo_fits (by decide)) (paymentTo_fits (by decide))
    (by decide) (by decide) (fun d hd => by simp [paymentStrings, hd])
    (fun d hd => by simp [paymentStrings, hd])).1 heq
  exact absurd (congrArg SighashTx.outputs h.1) (by decide)

end Utxopia.Pool
