import Utxopia.LightClient.Buried
import Utxopia.LightClient.Layout
import Utxopia.Pool.Covered
import Utxopia.Pool.Payout
import Utxopia.Pool.Prevouts

/-!
The pool and the light client together.

They are two programs with accounts of their own, called in any order. The pool reads the client's
accounts as bytes, at addresses that it derives itself. What it relies on when it credits a deposit or
completes a redemption is a chain of headers, and that is what the client's checks leave behind. The
record of an output comes from bytes that the pool read itself; the two meet in the transaction's id.
-/

namespace Utxopia.Bridge

open Utxopia.ByteString Utxopia.Check Utxopia.Run Utxopia.Runtime
open Utxopia.LightClient.Accounts (BitcoinLightClient HeightIndex VerifiedTransaction)
open Utxopia.LightClient.Buried (Confirmed Orderly RecordsFinal Settled)
open Utxopia.LightClient.Extend (RawHeader)
open Utxopia.LightClient.Layout

abbrev Client := LightClient.Accounts.State

/-! ### The client's accounts as the pool sees them -/

/-- The bytes of an account that holds a record, whatever its bump, or that holds none. -/
def Shows {α : Type} (tag : UInt8) (bytes : UInt8 → α → List UInt8) (record : Option α)
    (d : List UInt8) : Prop :=
  match record with
  | some a => ∃ bump, d = bytes bump a
  | none => d.getD 0 0 ≠ tag

/-- A discriminator tells that there is a record. -/
lemma Shows.record {α : Type} {tag : UInt8} {bytes : UInt8 → α → List UInt8} {record : Option α}
    {d : List UInt8} (h : Shows tag bytes record d) (htag : d.getD 0 0 = tag) :
    ∃ a bump, record = some a ∧ d = bytes bump a := by
  cases record with
  | none => exact absurd htag h
  | some a =>
    obtain ⟨bump, hd⟩ := h
    exact ⟨a, bump, rfl, hd⟩

/-- The call brings the client's accounts with the bytes that the client left in them. -/
structure Sees (E : Pool.Env) (keyOf : LightClient.Accounts.Addr → Bytes 32) (s : Client) (c : Pool.Call) :
    Prop where
  lightClient : Shows 0x06 (lightClientBytes keyOf) s.lc? (c.foreign E.lightClientPda).data
  heightIndex : ∀ n, n < 2 ^ 64 →
    Shows 0x09 heightIndexBytes (s.index? n) (c.foreign (E.heightIndexPda n)).data
  verified : ∀ b t,
    Shows 0x08 verifiedTransactionBytes (s.verified? (b, t)) (c.foreign (E.verifiedTxPda b t)).data

variable {E : Pool.Env} {keyOf : LightClient.Accounts.Addr → Bytes 32} {s : Client} {c : Pool.Call}

/-! ### Two readings of one record -/

section Layout

variable (bump : UInt8) (lc : BitcoinLightClient) (hi : HeightIndex) (vt : VerifiedTransaction)

lemma start_lightClientBytes : ∃ rest, lightClientBytes keyOf bump lc =
    0x06 :: bump :: 0 :: UInt8.ofNat lc.network :: rest := by
  simp only [lightClientBytes, List.append_assoc, List.cons_append, List.nil_append]
  exact ⟨_, rfl⟩

lemma isLightClient_lightClientBytes {len : ℕ} (h : len ≤ LightClient.Accounts.bitcoinLightClientLen) :
    Pool.isLightClient (lightClientBytes keyOf bump lc) len = .ok () := by
  obtain ⟨rest, hrest⟩ := @start_lightClientBytes keyOf bump lc
  rw [Pool.isLightClient, require_eq_ok, length_lightClientBytes]
  exact ⟨h, by rw [hrest, List.getD_cons_zero]⟩

lemma tipHeight_lightClientBytes :
    Pool.lightClientTipHeight (lightClientBytes keyOf bump lc) = .ok (lc.tipHeight % 2 ^ 64) := by
  have hread : u64At (lightClientBytes keyOf bump lc) 136 = lc.tipHeight % 2 ^ 64 := by
    simp (disch := simp) only [lightClientBytes, List.append_assoc, u64At_past, List.length_cons,
      List.length_nil, Vector.length_toList, Nat.reduceAdd, Nat.reduceSub, u64At_leBytes]
  simp only [Pool.lightClientTipHeight, bind_eq_ok, exists_unit, pure_eq_ok]
  exact ⟨isLightClient_lightClientBytes bump lc (by decide), hread⟩

lemma reinitEpoch_lightClientBytes :
    Pool.lightClientReinitEpoch (lightClientBytes keyOf bump lc) = .ok (lc.reinitEpoch % 2 ^ 32) := by
  have hread : u32At (lightClientBytes keyOf bump lc) 176 = lc.reinitEpoch % 2 ^ 32 := by
    simp (disch := simp) only [lightClientBytes, List.append_assoc, u32At_past, List.length_cons,
      List.length_nil, Vector.length_toList, length_leBytes, length_i64Bytes, Nat.reduceAdd,
      Nat.reduceSub, u32At_leBytes]
  simp only [Pool.lightClientReinitEpoch, bind_eq_ok, exists_unit, pure_eq_ok]
  exact ⟨isLightClient_lightClientBytes bump lc (by decide), hread⟩

lemma network_lightClientBytes {bump : UInt8} {lc : BitcoinLightClient} (h : lc.network < 2 ^ 8) :
    Pool.assertLightClientNetwork E (lightClientBytes keyOf bump lc) = .ok () ↔
      E.expectedNetwork.all (· = lc.network) := by
  have hread : ((lightClientBytes keyOf bump lc).getD 3 0).toNat = lc.network := by
    obtain ⟨rest, hrest⟩ := @start_lightClientBytes keyOf bump lc
    rw [hrest]
    simp only [List.getD_cons_succ, List.getD_cons_zero, UInt8.toNat_ofNat']
    exact Nat.mod_eq_of_lt h
  have hclient : Pool.isLightClient (lightClientBytes keyOf bump lc) 144 = .ok () :=
    isLightClient_lightClientBytes bump lc (by decide)
  simp only [Pool.assertLightClientNetwork, bind_eq_ok, exists_unit, hclient, true_and, hread]
  cases E.expectedNetwork with
  | none => exact ⟨fun _ => rfl, fun _ => rfl⟩
  | some n => rw [require_eq_ok, Option.all_some, decide_eq_true_iff, eq_comm]

lemma blockHash_heightIndexBytes : slice 32 (heightIndexBytes bump hi) 8 = hi.blockHash := by
  simp (disch := simp) only [heightIndexBytes, List.append_assoc, slice_past, List.length_cons,
    List.length_nil, Vector.length_toList, Nat.reduceAdd, Nat.reduceSub, slice_toList_append]

lemma height_heightIndexBytes : u64At (heightIndexBytes bump hi) 40 = hi.height % 2 ^ 64 := by
  have h := u64At_leBytes hi.height []
  rw [List.append_nil] at h
  simp (disch := simp) only [heightIndexBytes, List.append_assoc, u64At_past, List.length_cons,
    List.length_nil, Vector.length_toList, Nat.reduceAdd, Nat.reduceSub, h]

lemma view_verifiedTransactionBytes :
    Pool.VerifiedTransactionView.fromBytes (verifiedTransactionBytes bump vt) =
      .ok ⟨vt.blockHeight % 2 ^ 32, vt.blockHash, vt.txid, vt.reinitEpoch % 2 ^ 32⟩ := by
  have hheight : u32At (verifiedTransactionBytes bump vt) 4 = vt.blockHeight % 2 ^ 32 := by
    simp (disch := simp) only [verifiedTransactionBytes, List.append_assoc, u32At_past, List.length_cons,
      List.length_nil, Vector.length_toList, Nat.reduceAdd, Nat.reduceSub, u32At_leBytes]
  have hblock : slice 32 (verifiedTransactionBytes bump vt) 8 = vt.blockHash := by
    simp (disch := simp) only [verifiedTransactionBytes, List.append_assoc, slice_past, List.length_cons,
      List.length_nil, Vector.length_toList, length_leBytes, Nat.reduceAdd, Nat.reduceSub,
      slice_toList_append]
  have htxid : slice 32 (verifiedTransactionBytes bump vt) 40 = vt.txid := by
    simp (disch := simp) only [verifiedTransactionBytes, List.append_assoc, slice_past, List.length_cons,
      List.length_nil, Vector.length_toList, length_leBytes, Nat.reduceAdd, Nat.reduceSub,
      slice_toList_append]
  have hepoch : u32At (verifiedTransactionBytes bump vt) 84 = vt.reinitEpoch % 2 ^ 32 := by
    simp (disch := simp) only [verifiedTransactionBytes, List.append_assoc, u32At_past, List.length_cons,
      List.length_nil, Vector.length_toList, length_leBytes, length_i64Bytes, Nat.reduceAdd,
      Nat.reduceSub, u32At_leBytes]
  simp only [Pool.VerifiedTransactionView.fromBytes, bind_eq_ok, exists_unit, require_eq_ok, pure_eq_ok]
  exact ⟨⟨by rw [length_verifiedTransactionBytes]; decide, rfl⟩, by rw [hheight, hblock, htxid, hepoch]⟩

end Layout

/-! ### One check -/

lemma mapError_eq_ok {α : Type} {x : Except Pool.ProgramError α} {e : Pool.ProgramError} {a : α} :
    Pool.mapError x e = .ok a ↔ x = .ok a := by
  cases x <;> simp [Pool.mapError]

/-- The client's record at its address. -/
lemma Sees.tip (h : Sees E keyOf s c) {tip : ℕ}
    (hread : Pool.lightClientTipHeight (c.dataOf (.key E.lightClientPda)) = .ok tip) :
    ∃ lc, s.lc? = some lc ∧ tip = lc.tipHeight % 2 ^ 64 := by
  have htag := hread
  simp only [Pool.lightClientTipHeight, Pool.isLightClient, bind_eq_ok, exists_unit, require_eq_ok] at htag
  obtain ⟨lc, bump, hlc, hbytes⟩ := h.lightClient.record htag.1.2
  rw [Pool.Call.dataOf, hbytes, tipHeight_lightClientBytes, Except.ok.injEq] at hread
  exact ⟨lc, hlc, hread.symm⟩

/-- The record of a transaction at the address it names. -/
lemma Sees.view (h : Sees E keyOf s c) {b t : Bytes 32} {view : Pool.VerifiedTransactionView}
    (hread : Pool.VerifiedTransactionView.fromBytes (c.dataOf (.key (E.verifiedTxPda b t))) = .ok view) :
    ∃ vt, s.verified? (b, t) = some vt ∧ view.blockHeight = vt.blockHeight % 2 ^ 32 ∧
      view.blockHash = vt.blockHash ∧ view.txid = vt.txid := by
  have htag := hread
  simp only [Pool.VerifiedTransactionView.fromBytes, bind_eq_ok, exists_unit, require_eq_ok] at htag
  obtain ⟨vt, bump, hvt, hbytes⟩ := (h.verified b t).record htag.1.2
  rw [Pool.Call.dataOf, hbytes, view_verifiedTransactionBytes, Except.ok.injEq] at hread
  exact ⟨vt, hvt, hread ▸ rfl, hread ▸ rfl, hread ▸ rfl⟩

/-- The index entry of a height names the block. -/
lemma Sees.canonical (h : Sees E keyOf s c) {height : ℕ} {b : Bytes 32} (hheight : height < 2 ^ 64)
    (hread : Pool.assertBlockStillCanonical E c height b = .ok ()) :
    ∃ hi, s.index? height = some hi ∧ hi.blockHash = b := by
  simp only [Pool.assertBlockStillCanonical, bind_eq_ok, exists_unit, require_eq_ok, orElse_eq_ok] at hread
  obtain ⟨info, hfind, -, ⟨-, htag⟩, -, hname⟩ := hread
  have hkey : info.key = .key (E.heightIndexPda height) := by simpa using List.find?_some hfind
  rw [hkey, Pool.Call.dataOf] at htag hname
  obtain ⟨hi, bump, hhi, hbytes⟩ := (h.heightIndex height hheight).record htag
  rw [hbytes, blockHash_heightIndexBytes] at hname
  exact ⟨hi, hhi, hname⟩

variable {F : LightClient.Accounts.Env} {U : RawHeader → Prop} {genesis : Bytes 32} {start : ℕ}

/-- **What the check says**: the transaction is confirmed as often as the pool requires. -/
theorem checkSpv_confirmed (hinv : LightClient.Buried.Inv F U genesis start s) (hsees : Sees E keyOf s c)
    {verifiedTx lightClient : Pool.AccountInfo} {txid : Bytes 32} {height : Option ℕ} {required : ℕ}
    {e : Pool.UTXOpiaError}
    (h : Pool.checkSpv E c verifiedTx lightClient txid height required e = .ok ()) :
    Confirmed F U genesis txid required := by
  simp only [Pool.checkSpv, Pool.assertCanonicalVerifiedTx, Pool.assertCanonicalLightClient, bind_eq_ok,
    exists_unit, require_eq_ok, mapError_eq_ok] at h
  obtain ⟨view, hview, rfl, -, hvtKey, hlcKey, hcanon, -, _, -, -, tip, htip, hdeep⟩ := h
  rw [hvtKey] at hview
  rw [hlcKey] at htip
  obtain ⟨lc, hlc, rfl⟩ := hsees.tip htip
  obtain ⟨vt, hvt, hheight, hblock, htxid⟩ := hsees.view hview
  have hattests := hinv.records _ vt hvt
  rw [Nat.mod_eq_of_lt hattests.height] at hheight
  have hsmall := hattests.height
  obtain ⟨hi, hhi, hname⟩ := hsees.canonical (by omega) hcanon
  rw [hheight] at hhi hdeep
  have hle : lc.tipHeight % 2 ^ 64 ≤ lc.tipHeight := Nat.mod_le ..
  unfold Pool.confirmationsOf at hdeep
  split_ifs at hdeep with hgt
  · -- nothing is required of a block above the tip
    obtain ⟨root, d, raw, hroot, hinc, hid⟩ := hattests.included
    exact ⟨_, root, d, raw, [], hroot, hinc, hid, trivial, by omega⟩
  · exact (hinv.confirmed hlc hvt hhi hname (by omega)).mono (by omega)

/-- And its block is one that the client does not give up any more. -/
theorem checkSpv_settled (hinv : LightClient.Buried.Inv F U genesis start s) (hfinal : RecordsFinal s)
    (hsees : Sees E keyOf s c) {verifiedTx lightClient : Pool.AccountInfo} {txid : Bytes 32}
    {height : Option ℕ} {required : ℕ} {e : Pool.UTXOpiaError}
    (h : Pool.checkSpv E c verifiedTx lightClient txid height required e = .ok ()) :
    Settled F U genesis s txid := by
  simp only [Pool.checkSpv, Pool.assertCanonicalVerifiedTx, bind_eq_ok, exists_unit, require_eq_ok,
    mapError_eq_ok] at h
  obtain ⟨view, hview, rfl, -, hvtKey, -⟩ := h
  rw [hvtKey] at hview
  obtain ⟨vt, hvt, -⟩ := hsees.view hview
  obtain ⟨root, d, raw, hroot, hinc, hid⟩ := (hinv.records _ vt hvt).included
  obtain ⟨n, hn⟩ := hfinal _ (by rw [hvt]; exact Option.some_ne_none vt)
  exact ⟨_, n, root, d, raw, hn, hroot, hinc, hid⟩

/-! ### The check on records -/

/-- Every field fits the width it is written with. -/
structure Fits (s : Client) : Prop where
  lightClient : ∀ lc, s.lc? = some lc → lc.network < 2 ^ 8 ∧ lc.tipHeight < 2 ^ 64 ∧ lc.reinitEpoch < 2 ^ 32
  heightIndex : ∀ n hi, s.index? n = some hi → hi.height < 2 ^ 64
  verified : ∀ k vt, s.verified? k = some vt → vt.blockHeight < 2 ^ 32 ∧ vt.reinitEpoch < 2 ^ 32

/-- The entries of the client's index are accounts of the client. -/
def Owned (E : Pool.Env) (s : Client) (c : Pool.Call) : Prop :=
  ∀ n, (s.index? n).isSome → c.ownedBy (.key (E.heightIndexPda n)) E.btcLightClientId = true

lemma Sees.view_iff (h : Sees E keyOf s c) (hfits : Fits s) {b t : Bytes 32}
    {view : Pool.VerifiedTransactionView} :
    Pool.VerifiedTransactionView.fromBytes (c.dataOf (.key (E.verifiedTxPda b t))) = .ok view ↔
      ∃ vt, s.verified? (b, t) = some vt ∧
        view = ⟨vt.blockHeight, vt.blockHash, vt.txid, vt.reinitEpoch⟩ := by
  have hread : ∀ vt, s.verified? (b, t) = some vt →
      Pool.VerifiedTransactionView.fromBytes (c.dataOf (.key (E.verifiedTxPda b t))) =
        .ok ⟨vt.blockHeight, vt.blockHash, vt.txid, vt.reinitEpoch⟩ := by
    intro vt hvt
    have hshows := h.verified b t
    rw [hvt] at hshows
    obtain ⟨bump, hbytes⟩ := hshows
    obtain ⟨hheight, hepoch⟩ := hfits.verified _ vt hvt
    rw [Pool.Call.dataOf, hbytes, view_verifiedTransactionBytes, Nat.mod_eq_of_lt hheight,
      Nat.mod_eq_of_lt hepoch]
  constructor
  · intro hview
    obtain ⟨vt, hvt, -⟩ := h.view hview
    exact ⟨vt, hvt, Except.ok.inj (hview.symm.trans (hread vt hvt))⟩
  · rintro ⟨vt, hvt, rfl⟩
    exact hread vt hvt

lemma Sees.lightClient_bytes (h : Sees E keyOf s c) {lc : BitcoinLightClient} (hlc : s.lc? = some lc) :
    ∃ bump, c.dataOf (.key E.lightClientPda) = lightClientBytes keyOf bump lc := by
  have hshows := h.lightClient
  rwa [hlc] at hshows

lemma Sees.canonical_iff (h : Sees E keyOf s c) (hfits : Fits s) (howned : Owned E s c) {n : ℕ}
    {b : Bytes 32} (hn : n < 2 ^ 64) :
    Pool.assertBlockStillCanonical E c n b = .ok () ↔
      (∃ info ∈ c.accounts, info.key = .key (E.heightIndexPda n)) ∧
        ∃ hi, s.index? n = some hi ∧ hi.height = n ∧ hi.blockHash = b := by
  have hshows := h.heightIndex n hn
  simp only [Pool.assertBlockStillCanonical, bind_eq_ok, exists_unit, require_eq_ok, orElse_eq_ok]
  constructor
  · rintro ⟨info, hfind, -, ⟨-, htag⟩, hheight, hname⟩
    have hkey : info.key = .key (E.heightIndexPda n) := by simpa using List.find?_some hfind
    rw [hkey, Pool.Call.dataOf] at htag hheight hname
    obtain ⟨hi, bump, hhi, hbytes⟩ := hshows.record htag
    rw [hbytes, height_heightIndexBytes, Nat.mod_eq_of_lt (hfits.heightIndex n hi hhi)] at hheight
    rw [hbytes, blockHash_heightIndexBytes] at hname
    exact ⟨⟨info, List.mem_of_find?_eq_some hfind, hkey⟩, hi, hhi, hheight, hname⟩
  · rintro ⟨⟨info, hmem, hkey⟩, hi, hhi, hheight, hname⟩
    have hsome : (c.accounts.find? fun a => a.key = .key (E.heightIndexPda n)).isSome :=
      List.find?_isSome.mpr ⟨info, hmem, decide_eq_true hkey⟩
    obtain ⟨found, hfind⟩ := Option.isSome_iff_exists.mp hsome
    have hfound : found.key = .key (E.heightIndexPda n) := by simpa using List.find?_some hfind
    rw [hhi] at hshows
    obtain ⟨bump, hbytes⟩ := hshows
    refine ⟨found, hfind, ?_, ?_⟩
    · rw [hfound]
      exact howned n (by rw [hhi]; rfl)
    · rw [hfound, Pool.Call.dataOf, hbytes, length_heightIndexBytes, height_heightIndexBytes,
        blockHash_heightIndexBytes, Nat.mod_eq_of_lt (hfits.heightIndex n hi hhi)]
      exact ⟨⟨by decide, rfl⟩, hheight, hname⟩

/-- What the check wants of the client's records: the transaction was verified in the block that the
index still names at its height, by the client of this epoch and network, and is deep enough. -/
structure Accepts (E : Pool.Env) (s : Client) (c : Pool.Call) (verifiedTx lightClient : Pool.AccountInfo)
    (txid : Bytes 32) (height : Option ℕ) (required : ℕ) (vt : VerifiedTransaction)
    (lc : BitcoinLightClient) (hi : HeightIndex) : Prop where
  verifiedKey : verifiedTx.key = .key (E.verifiedTxPda vt.blockHash txid)
  lightClientKey : lightClient.key = .key E.lightClientPda
  listed : ∃ info ∈ c.accounts, info.key = .key (E.heightIndexPda vt.blockHeight)
  verified : s.verified? (vt.blockHash, txid) = some vt
  client : s.lc? = some lc
  index : s.index? vt.blockHeight = some hi
  txid : vt.txid = txid
  named : height.all (· = vt.blockHeight)
  indexHeight : hi.height = vt.blockHeight
  canonical : hi.blockHash = vt.blockHash
  network : E.expectedNetwork.all (· = lc.network)
  epoch : vt.reinitEpoch = lc.reinitEpoch
  deep : required ≤ Pool.confirmationsOf lc.tipHeight vt.blockHeight

/-- **The bytes say what the records say**: the check, which reads the accounts of another program at
fixed offsets, passes for just what the client has on record. -/
theorem checkSpv_iff (hsees : Sees E keyOf s c) (hfits : Fits s) (howned : Owned E s c)
    {verifiedTx lightClient : Pool.AccountInfo} {txid : Bytes 32} {height : Option ℕ} {required : ℕ}
    {e : Pool.UTXOpiaError} :
    Pool.checkSpv E c verifiedTx lightClient txid height required e = .ok () ↔
      ∃ vt lc hi, Accepts E s c verifiedTx lightClient txid height required vt lc hi := by
  simp only [Pool.checkSpv, Pool.assertCanonicalVerifiedTx, Pool.assertCanonicalLightClient, bind_eq_ok,
    exists_unit, require_eq_ok, mapError_eq_ok]
  constructor
  · rintro ⟨view, hview, rfl, hnamed, hvtKey, hlcKey, hcanon, hnet, epoch, hepoch, heq, tip, htip, hdeep⟩
    rw [hvtKey] at hview
    rw [hlcKey] at hnet hepoch htip
    obtain ⟨vt, hvt, rfl⟩ := (hsees.view_iff hfits).mp hview
    obtain ⟨lc, hlc, -⟩ := hsees.tip htip
    obtain ⟨bump, hbytes⟩ := hsees.lightClient_bytes hlc
    obtain ⟨hnetwork, htipHeight, hreinit⟩ := hfits.lightClient lc hlc
    have hsmall := (hfits.verified _ vt hvt).1
    obtain ⟨hlisted, hi, hhi, hheight, hname⟩ :=
      (hsees.canonical_iff hfits howned (hsmall.trans (by decide))).mp hcanon
    rw [hbytes, tipHeight_lightClientBytes, Except.ok.injEq, Nat.mod_eq_of_lt htipHeight] at htip
    rw [hbytes, reinitEpoch_lightClientBytes, Except.ok.injEq, Nat.mod_eq_of_lt hreinit] at hepoch
    rw [hbytes, network_lightClientBytes hnetwork] at hnet
    subst htip hepoch
    exact ⟨vt, lc, hi, hvtKey, hlcKey, hlisted, hvt, hlc, hhi, rfl, hnamed, hheight, hname, hnet, heq, hdeep⟩
  · rintro ⟨vt, lc, hi, h⟩
    obtain ⟨bump, hbytes⟩ := hsees.lightClient_bytes h.client
    obtain ⟨hnetwork, htipHeight, hreinit⟩ := hfits.lightClient lc h.client
    have hsmall := (hfits.verified _ vt h.verified).1
    refine ⟨⟨vt.blockHeight, vt.blockHash, vt.txid, vt.reinitEpoch⟩, ?_, h.txid, h.named,
      h.txid.symm ▸ h.verifiedKey, h.lightClientKey, ?_, ?_, lc.reinitEpoch, ?_, h.epoch, lc.tipHeight, ?_,
      h.deep⟩
    · rw [h.verifiedKey]
      exact (hsees.view_iff hfits).mpr ⟨vt, h.verified, rfl⟩
    · exact (hsees.canonical_iff hfits howned (hsmall.trans (by decide))).mpr
        ⟨h.listed, hi, h.index, h.indexHeight, h.canonical⟩
    · rw [h.lightClientKey, hbytes, network_lightClientBytes hnetwork]
      exact h.network
    · rw [h.lightClientKey, hbytes, reinitEpoch_lightClientBytes, Nat.mod_eq_of_lt hreinit]
    · rw [h.lightClientKey, hbytes, tipHeight_lightClientBytes, Nat.mod_eq_of_lt htipHeight]

/-! ### Both programs -/

structure State where
  client : Client
  pool : Pool.State

inductive Call where
  | client (c : LightClient.Program.Call)
  | pool (l : Pool.Label)

abbrev Failure := LightClient.Accounts.ProgramError ⊕ Pool.ProgramError

/-- One of the programs makes a step, the other's accounts stay as they are. -/
def step (F : LightClient.Accounts.Env) (E : Pool.Env) (x : State) : Call → Except Failure State
  | .client c => ((LightClient.Program.step F x.client c).mapError .inl).map fun s => { x with client := s }
  | .pool l => ((Pool.step E x.pool l).mapError .inr).map fun s => { x with pool := s }

/-- The client's calls are orderly, and a call of the pool sees the client's accounts. -/
def Allowed (E : Pool.Env) (keyOf : LightClient.Accounts.Addr → Bytes 32) (x : State) : Call → Prop
  | .client c => Orderly x.client c
  | .pool (.call c) => Sees E keyOf x.client c
  | .pool _ => True

/-- The headers submitted in a run. -/
def Submitted (tr : List (Step State Call)) (raw : RawHeader) : Prop :=
  ∃ st ∈ tr, ∃ c, st.call = .client c ∧ raw ∈ LightClient.Buried.submits c

variable {x x' : State} {l : Pool.Label}

lemma lift_eq_ok {ε α : Type} {f : ε → Failure} {g : α → State} {y : Except ε α} :
    (y.mapError f).map g = .ok x' ↔ ∃ a, y = .ok a ∧ g a = x' := by
  cases y <;> simp [Except.mapError, Except.map]

lemma step_client {c : LightClient.Program.Call} (h : step F E x (.client c) = .ok x') :
    LightClient.Program.step F x.client c = .ok x'.client ∧ x'.pool = x.pool := by
  simp only [step, lift_eq_ok] at h
  obtain ⟨s, hs, rfl⟩ := h
  exact ⟨hs, rfl⟩

lemma step_pool (h : step F E x (.pool l) = .ok x') :
    Pool.step E x.pool l = .ok x'.pool ∧ x'.client = x.client := by
  simp only [step, lift_eq_ok] at h
  obtain ⟨p, hp, rfl⟩ := h
  exact ⟨hp, rfl⟩

/-- A step of the pool in a step of both. -/
def poolStep (st : Step State Call) : Option (Step Pool.State Pool.Label) :=
  match st.call with
  | .pool l => some ⟨st.pre.pool, l, st.post.pool⟩
  | .client _ => none

def poolSteps (tr : List (Step State Call)) : List (Step Pool.State Pool.Label) := tr.filterMap poolStep

/-- **A run of both is a run of the pool**: the client's steps leave the pool's accounts alone. -/
theorem reaches_poolSteps {guard : State → Call → Prop} {tr : List (Step State Call)}
    (run : Reaches (step F E) guard x tr x') :
    Reaches (Pool.step E) (fun _ _ => True) x.pool (poolSteps tr) x'.pool := by
  induction run with
  | start => exact .start
  | @call tr z z' y run ok eq ih =>
    rw [poolSteps, List.filterMap_append]
    cases y with
    | client c =>
      rw [(step_client eq).2]
      exact (List.append_nil (poolSteps tr)).symm ▸ ih
    | pool l => exact .call ih trivial (step_pool eq).1

/-! ### What the pool relies on -/

/-- The sweep that a deposit relies on, and how many confirmations it wants. -/
def sweepTx (E : Pool.Env) (c : Pool.Call) (tweaked : Bool) : Option (Bytes 32 × ℕ) :=
  (Pool.depositInput tweaked c.data).toOption.map fun input =>
    (input.1.sweepTxid, E.demoRequiredConfirmations)

/-- The Bitcoin transaction that an instruction relies on, and how many confirmations it wants. -/
def bitcoinTx (E : Pool.Env) (c : Pool.Call) : Pool.Instruction → Option (Bytes 32 × ℕ)
  | .CompleteRedemption => (Pool.CompleteRedemptionData.fromBytes c.data).toOption.map fun ix =>
      (ix.btcTxid, Pool.requiredConfirmations)
  | i => i.tweaked.bind (sweepTx E c)

lemma bitcoinTx_of_tweaked {i : Pool.Instruction} {tweaked : Bool} (h : i.tweaked = some tweaked) :
    bitcoinTx E c i = sweepTx E c tweaked := by
  cases i with
  | CompleteRedemption => cases h
  | _ => exact congrArg (Option.bind · (sweepTx E c)) h

/-- The same for a label. -/
def Call.bitcoinTx (E : Pool.Env) : Call → Option (Bytes 32 × ℕ)
  | .pool (.call c) => (c.decode E).bind fun d => Bridge.bitcoinTx E d.2 d.1
  | _ => none

/-- The check of a transaction in some accounts. -/
def Checked (E : Pool.Env) (c : Pool.Call) (tx : Bytes 32 × ℕ) : Prop :=
  ∃ verifiedTx lightClient height e, Pool.checkSpv E c verifiedTx lightClient tx.1 height tx.2 e = .ok ()

lemma completeDepositInner_checked {p p' : Pool.State} {ix : Pool.CompleteDepositData}
    {binding : Pool.DepositBinding} (h : Pool.completeDepositInner E p c ix binding = .ok p') :
    Checked E c (ix.sweepTxid, E.demoRequiredConfirmations) := by
  obtain ⟨m, q, tc, t, t', T, credit, leaf, commitment, amount, fee, hcredit, -⟩ :=
    Pool.completeDepositInner_ok h
  simp only [Pool.creditOf, Pool.verifyCredit, bind_eq_ok, exists_unit, pure_eq_ok, Prod.mk.injEq] at hcredit
  obtain ⟨a, -, -, ⟨hspv, -⟩, -⟩ := hcredit
  exact ⟨_, _, _, _, hspv⟩

lemma processCompleteRedemption_checked {p p' : Pool.State}
    (h : Pool.processCompleteRedemption E c p = .ok p') : ∃ ix,
      Pool.CompleteRedemptionData.fromBytes c.data = .ok ix ∧
        Checked E c (ix.btcTxid, Pool.requiredConfirmations) := by
  simp only [Pool.processCompleteRedemption, bind_eq_ok, exists_unit, require_eq_ok] at h
  obtain ⟨-, pool, -, redemption, -, authority, -, rent, -, verifiedTx, -, lightClient, -, h⟩ := h
  obtain ⟨txBuffer, -, mint, -, vault, -, program, -, receipt, -, config, -, ix, hix, h⟩ := h
  obtain ⟨-, -, -, -, -, -, -, -, _, -, -, -, -, -, q, -, r, -, -, -, _, -, -, hspv, -⟩ := h
  exact ⟨ix, hix, _, _, _, _, hspv⟩

/-- Whatever an instruction relies on has been checked. -/
lemma run_checked {p p' : Pool.State} {i : Pool.Instruction} (h : i.run E p c = .ok p')
    {tx : Bytes 32 × ℕ} (htx : bitcoinTx E c i = some tx) : Checked E c tx := by
  have hdeposit : ∀ {tweaked : Bool}, bitcoinTx E c i = sweepTx E c tweaked → (∃ ix binding,
      Pool.depositInput tweaked c.data = .ok (ix, binding) ∧
        Pool.completeDepositInner E p c ix binding = .ok p') → Checked E c tx := by
    rintro tweaked hi ⟨ix, binding, hinput, hdep⟩
    rw [hi, sweepTx, hinput] at htx
    obtain rfl := Option.some_inj.mp htx
    exact completeDepositInner_checked hdep
  cases i with
  | CompleteDeposit => exact hdeposit rfl (Pool.processCompleteDeposit_ok h)
  | CompleteDepositPermissioned => exact hdeposit rfl (Pool.processCompleteDepositPermissioned_ok h)
  | VerifyDeposit => exact hdeposit rfl (Pool.processVerifyDeposit_ok h)
  | VerifyDepositPermissioned => exact hdeposit rfl (Pool.processVerifyDepositPermissioned_ok h)
  | CompleteRedemption =>
    obtain ⟨ix, hix, hchecked⟩ := processCompleteRedemption_checked h
    rw [bitcoinTx, hix] at htx
    obtain rfl := Option.some_inj.mp htx
    exact hchecked
  | _ => exact absurd htx (by simp [bitcoinTx, Pool.Instruction.tweaked])

/-! ### Outputs of the books -/

/-- The transactions of the recorded outputs. -/
def Held (P : Bytes 32 → Prop) (r : Pool.Records) : Prop := ∀ k u, r.utxos k = some u → P k.2.1

variable {P : Bytes 32 → Prop} {r r' : Pool.Records}

lemma held_updates {es : List ((Pool.Addr × Pool.Outpoint) × Option Pool.UtxoRecord)} (h : Held P r)
    (hes : ∀ e ∈ es, ∀ u, e.2 = some u → P e.1.2.1) : Held P (r.updateUtxos es) :=
  Store.forall_updates (P := fun (k : Pool.Addr × Pool.Outpoint) _ => P k.2.1) es h hes

lemma Held.credit (h : Held P r) {pool : Pool.Addr} {o : Pool.Outpoint} (ho : P o.1) (amount : ℕ)
    (leaf : Option (Bytes 32)) : Held P (r.credit pool o amount leaf) := by
  refine held_updates h fun e he u _ => ?_
  obtain rfl := List.mem_singleton.mp he
  exact ho

lemma Held.picked {f : Pool.UtxoRecord → Option Pool.UtxoRecord} {us : List Pool.UtxoEntry}
    (h : Held P r) (hus : ∀ e ∈ us, r.utxos e.1 = some e.2) :
    Held P (r.updateUtxos (Pool.pickedEntries f us)) := by
  refine held_updates h fun e he u _ => ?_
  obtain ⟨d, hd, rfl⟩ := List.mem_map.mp he
  exact h _ _ (hus d hd)

lemma changeOutput_txid {o : Pool.Outpoint × ℕ} (h : c.changeOutput = some o) :
    ∃ ix, Pool.CompleteRedemptionData.fromBytes c.data = .ok ix ∧ o.1.1 = ix.btcTxid := by
  unfold Pool.Call.changeOutput at h
  split at h
  · rename_i ix buffer hix _
    split at h
    · obtain ⟨tx, -, ho⟩ := Option.bind_eq_some_iff.mp h
      unfold Pool.changeOutput at ho
      split_ifs at ho
      obtain ⟨found, -, rfl⟩ := Option.map_eq_some_iff.mp ho
      exact ⟨ix, hix, rfl⟩
    · exact absurd h (by simp)
  · exact absurd h (by simp)

lemma creditOf_txid {p : Pool.State} {ix : Pool.CompleteDepositData} {binding : Pool.DepositBinding}
    {pool : Pool.Addr} {credit : Pool.Credit} (h : Pool.creditOf E p c ix binding = .ok (pool, credit)) :
    credit.outpoint.1 = ix.sweepTxid := by
  simp only [Pool.creditOf, Pool.verifyCredit, bind_eq_ok, exists_unit, pure_eq_ok, Prod.mk.injEq,
    Prod.exists] at h
  obtain ⟨a, -, credit', ⟨-, sweep, -, deposit, -, npk, -, cfg, -, amount, vout, -, rfl⟩, -, rfl⟩ := h
  rfl

/-- **A new output is one of the transaction that its instruction relies on.** -/
lemma effect_held {p : Pool.State} (h : Pool.Effect E p l r') (hI : Held P p.records)
    (hnew : ∀ tx, (Call.pool l).bitcoinTx E = some tx → P tx.1) : Held P r' := by
  cases h with
  | reconfigured h =>
    obtain ⟨m, q, q', -, -, rfl⟩ := h
    exact hI
  | shielded => exact (Pool.putTotals_view (Held P) (fun _ _ _ => rfl) ..).mpr hI
  | unshielded => exact (Pool.putTotals_view (Held P) (fun _ _ _ => rfl) ..).mpr hI
  | transacted decoded planned sound burnable outputs => cases outputs <;> exact hI
  | marked decoded h => exact Held.picked hI h.reservation.picked.recorded
  | cancelled decoded h => exact Held.picked hI h.held.picked.recorded
  | @completed c c' m q req tc us tx txid leaf T burn revenue now decoded h =>
    have hchange : Held P (p.records.creditChange (.poolState m) c'.changeOutput leaf) := by
      cases hc : c'.changeOutput with
      | none => exact hI
      | some o =>
        obtain ⟨ix, hix, ho⟩ := changeOutput_txid hc
        refine hI.credit (ho ▸ hnew (ix.btcTxid, Pool.requiredConfirmations) ?_) o.2 leaf
        rw [Call.bitcoinTx, decoded, Option.bind_some, Bridge.bitcoinTx, hix]
        rfl
    have hpicked := hchange.picked (f := fun _ => none) h.held.picked.recorded
    cases hc : c'.changeOutput <;> rw [hc] at hpicked <;> exact hpicked
  | @deposited c c' i tweaked ix binding m q tc t t' T credit leaf commitment amount fee now decoded kind
      input credited =>
    refine Held.credit hI ((creditOf_txid credited).symm ▸
      hnew (ix.sweepTxid, E.demoRequiredConfirmations) ?_) _ _
    rw [Call.bitcoinTx, decoded, Option.bind_some, bitcoinTx_of_tweaked kind, sweepTx, input]
    rfl
  | _ => exact hI

/-! ### Runs -/

/-- What holds of both programs after the steps of `tr`. -/
structure Inv (F : LightClient.Accounts.Env) (E : Pool.Env) (U : RawHeader → Prop) (genesis : Bytes 32)
    (start : ℕ) (tr : List (Step State Call)) (x : State) : Prop where
  client : LightClient.Buried.Inv F U genesis start x.client
  final : RecordsFinal x.client
  relied : ∀ st ∈ tr, ∀ tx, st.call.bitcoinTx E = some tx →
    Confirmed F U genesis tx.1 tx.2 ∧ Settled F U genesis x.client tx.1
  outputs : Held (fun txid => Confirmed F U genesis txid
    (min E.demoRequiredConfirmations Pool.requiredConfirmations) ∧
      Settled F U genesis x.client txid) x.pool.records

lemma bitcoinTx_confirmations {y : Call} {tx : Bytes 32 × ℕ} (h : y.bitcoinTx E = some tx) :
    tx.2 = E.demoRequiredConfirmations ∨ tx.2 = Pool.requiredConfirmations := by
  cases y with
  | client c => exact absurd h (by simp [Call.bitcoinTx])
  | pool l =>
    cases l with
    | call c =>
      obtain ⟨⟨i, c'⟩, -, h⟩ := Option.bind_eq_some_iff.mp h
      cases hi : i.tweaked with
      | some tweaked =>
        rw [bitcoinTx_of_tweaked hi] at h
        obtain ⟨_, -, rfl⟩ := Option.map_eq_some_iff.mp h
        exact .inl rfl
      | none =>
        cases i with
        | CompleteRedemption =>
          obtain ⟨_, -, rfl⟩ := Option.map_eq_some_iff.mp h
          exact .inr rfl
        | _ => exact absurd h (by simp [bitcoinTx, hi])
    | fund n a => exact absurd h (by simp [Call.bitcoinTx])
    | reap a => exact absurd h (by simp [Call.bitcoinTx])
    | tokenChange a t => exact absurd h (by simp [Call.bitcoinTx])

/-- A call of the pool relies on transactions that are confirmed and settled. -/
lemma pool_confirmed (hinv : LightClient.Buried.Inv F U genesis start x.client)
    (hfinal : RecordsFinal x.client) (hall : Allowed E keyOf x (.pool l))
    (h : Pool.step E x.pool l = .ok x'.pool) {tx : Bytes 32 × ℕ}
    (htx : (Call.pool l).bitcoinTx E = some tx) :
    Confirmed F U genesis tx.1 tx.2 ∧ Settled F U genesis x.client tx.1 := by
  cases l with
  | call c =>
    obtain ⟨⟨i, c'⟩, hd, htx⟩ := Option.bind_eq_some_iff.mp htx
    simp only [Pool.step, bind_eq_ok, exists_unit, require_eq_ok, Pool.processInstruction, hd] at h
    obtain ⟨verifiedTx, lightClient, height, e, hspv⟩ := run_checked h.2 htx
    -- the instruction sees the accounts of the call
    have hforeign : c'.foreign = c.foreign := by
      unfold Pool.Call.decode at hd
      split_ifs at hd
      · exact (Prod.mk.inj (Option.some_inj.mp hd)).2 ▸ rfl
      · split at hd
        · obtain ⟨_, -, hi⟩ := Option.map_eq_some_iff.mp hd
          exact (Prod.mk.inj hi).2 ▸ rfl
        · exact absurd hd (by simp)
    have hsees : Sees E keyOf x.client c' :=
      ⟨hforeign ▸ hall.lightClient, hforeign ▸ hall.heightIndex, hforeign ▸ hall.verified⟩
    exact ⟨checkSpv_confirmed hinv hsees hspv, checkSpv_settled hinv hfinal hsees hspv⟩
  | fund n a => exact absurd htx (by simp [Call.bitcoinTx])
  | reap a => exact absurd htx (by simp [Call.bitcoinTx])
  | tokenChange a t => exact absurd htx (by simp [Call.bitcoinTx])

/-- **One step of either program.** -/
theorem step_inv {tr : List (Step State Call)} {y : Call}
    (hcol : LightClient.Chain.NoCollision F U) (hcyc : LightClient.Chain.NoCycle F U)
    (hinv : Inv F E U genesis start tr x) (hall : Allowed E keyOf x y)
    (mem : ∀ c, y = .client c → ∀ raw ∈ LightClient.Buried.submits c, U raw)
    (h : step F E x y = .ok x') : Inv F E U genesis start (tr ++ [⟨x, y, x'⟩]) x' := by
  cases y with
  | client c =>
    obtain ⟨hs, hpool⟩ := step_client h
    have hlater := LightClient.Finality.step_later hall.1 hs
    refine ⟨LightClient.Buried.step_inv hcol hcyc hinv.client (mem c rfl) hall hs,
      LightClient.Buried.step_recordsFinal hinv.final hall.1 hs, fun st hst tx htx => ?_,
      fun k u hu => (hinv.outputs k u (hpool ▸ hu)).imp_right (·.later hlater)⟩
    rcases List.mem_append.mp hst with hst | hst
    · exact (hinv.relied st hst tx htx).imp_right (·.later hlater)
    · obtain rfl := List.mem_singleton.mp hst
      exact absurd htx (by simp [Call.bitcoinTx])
  | pool l =>
    obtain ⟨hp, hclient⟩ := step_pool h
    have hconf : ∀ tx, (Call.pool l).bitcoinTx E = some tx →
        Confirmed F U genesis tx.1 tx.2 ∧ Settled F U genesis x.client tx.1 :=
      fun tx htx => pool_confirmed hinv.client hinv.final hall hp htx
    rw [← hclient] at hconf
    refine ⟨hclient ▸ hinv.client, hclient ▸ hinv.final, fun st hst tx htx => ?_,
      effect_held (Pool.step_effect hp) (hclient ▸ hinv.outputs) fun tx htx =>
        (hconf tx htx).imp_left (·.mono ?_)⟩
    · rcases List.mem_append.mp hst with hst | hst
      · exact hclient ▸ hinv.relied st hst tx htx
      · obtain rfl := List.mem_singleton.mp hst
        exact hconf tx htx
    · rcases bitcoinTx_confirmations htx with hn | hn <;> rw [hn]
      · exact Nat.min_le_left ..
      · exact Nat.min_le_right ..

/-- A new client has no records. -/
lemma recordsFinal_of_initialize {s₀ s₁ : Client} {accounts : List LightClient.Accounts.AccountInfo}
    {data : List UInt8} {now : ℤ} (hs : LightClient.Accounts.Untouched s₀)
    (hinit : LightClient.Initialize.processInitialize F s₀ accounts data now = .ok s₁) :
    RecordsFinal s₁ := by
  intro k hk
  rw [LightClient.Program.initialize_verified hinit] at hk
  exact absurd (hs.2.2.2 k) hk

/-- Both programs keep the invariant in every order of their calls. -/
theorem inv_of_reaches {s₀ s₁ : Client} {accounts : List LightClient.Accounts.AccountInfo}
    {data : List UInt8} {now : ℤ} {tr : List (Step State Call)}
    (hs : LightClient.Accounts.Untouched s₀)
    (hinit : LightClient.Initialize.processInitialize F s₀ accounts data now = .ok s₁)
    (run : Reaches (step F E) (Allowed E keyOf) ⟨s₁, .genesis⟩ tr x)
    (hcol : LightClient.Chain.NoCollision F (Submitted tr))
    (hcyc : LightClient.Chain.NoCycle F (Submitted tr)) :
    Inv F E (Submitted tr) (LightClient.Initialize.parseData data).startBlockHash
      (LightClient.Initialize.parseData data).startHeight tr x := by
  have run' : Reaches (step F E) (fun x y => Allowed E keyOf x y ∧
      ∀ c, y = .client c → ∀ raw ∈ LightClient.Buried.submits c, Submitted tr raw) ⟨s₁, .genesis⟩ tr x :=
    run.strengthen fun st hst hg => ⟨hg, fun c hc raw hraw => ⟨st, hst, c, hc, hraw⟩⟩
  exact run'.history (I := Inv F E (Submitted tr)
    (LightClient.Initialize.parseData data).startBlockHash
    (LightClient.Initialize.parseData data).startHeight)
    ⟨LightClient.Buried.initialize_inv hs hinit, recordsFinal_of_initialize hs hinit, by simp,
      fun k u hu => absurd hu (by simp)⟩
    fun _ _ _ _ _ hI hg h => step_inv hcol hcyc hI hg.1 hg.2 h

/-- An output of a confirmed transaction: the pool read the bytes of the transaction, and the record has
the output's value and stands for its script. -/
structure Backed (E : Pool.Env) (F : LightClient.Accounts.Env) (tr : List (Step State Call))
    (genesis : Bytes 32) (x : State) (pool : Pool.Addr) (o : Pool.Outpoint) (u : Pool.UtxoRecord) :
    Prop where
  confirmed : Confirmed F (Submitted tr) genesis o.1
    (min E.demoRequiredConfirmations Pool.requiredConfirmations)
  output : ∃ cfg out, x.pool.records.poolConfigs pool = some cfg ∧
    Pool.PaidIn E {raw | raw ∈ Pool.creditedTxs E (poolSteps tr)} o out ∧ u.Describes E cfg o out

/-- A request is closed for a payment: the transaction with these bytes spends the outputs that were
reserved for the request, and only those, and pays the recipient; what it takes from the wallet is
burnt. -/
structure Redeems (E : Pool.Env) (c : Pool.Call) (p p' : Pool.State) (raw : List UInt8)
    (y : Pool.Payment) (us : List Pool.UtxoEntry) (vault : Pool.Addr) (burn : ℕ) : Prop where
  payment : c.payment p = some y
  read : Pool.ParsedTransaction.parse raw = some y.tx
  spends : Pool.SpendsAll y.tx us
  distinct : (us.map Prod.fst).Nodup
  reserved : ∀ e ∈ us, p.records.reserved e.1 = some e.2
  held : ∀ info, c.accounts[1]? = some info →
    ∀ e ∈ us, e.2.reservedForRequestId = Pool.redemptionReservationKey E info.key
  only : y.tx.inputs.length = us.length
  count : us.length = y.request.reservedCount
  paid : y.minPayout ≤ y.payout
  burnt : Pool.BurntFrom vault burn p.tokens p'.tokens
  cost : burn = y.payout + y.minerFee
  covered : burn ≤ y.request.amountSats

lemma processCompleteRedemption_redeems {p p' : Pool.State}
    (h : Pool.processCompleteRedemption E c p = .ok p') : ∃ ix raw y us vault burn,
      Pool.CompleteRedemptionData.fromBytes c.data = .ok ix ∧ Pool.computeTxHash E raw = ix.btcTxid ∧
        Redeems E c p p' raw y us vault burn := by
  obtain ⟨y, vault, burn, hpayment, -, hchecked, hburnt⟩ := Pool.completion_checked h
  simp only [Pool.processCompleteRedemption, Pool.Call.atLeast, bind_eq_ok, exists_unit, require_eq_ok,
    pure_eq_ok, Prod.exists] at h
  obtain ⟨-, pool, -, redemption, hredemption, authority, -, rent, -, vt, -, lc, -, buffer, h⟩ := h
  obtain ⟨hbuffer, mint, -, vault', -, tp, -, receipt, -, poolConfig, -, ix, hix, -, -, h⟩ := h
  obtain ⟨-, -, -, -, -, -, program, -, -, -, -, -, q, -, req, hreq, -, -, s₁, hs₁, -, -, h⟩ := h
  obtain ⟨tx, htx, received, -, minerFee, -, -, b, revenue, -, -, s₂, hs₂, h⟩ := h
  obtain ⟨s₃, change, hs₃, -, hcount, tokenConfig, hconfig, tc, -, s₄, hs₄, hinputs, -⟩ := h
  simp only [Pool.readBufferedTx, bind_eq_ok, exists_unit, require_eq_ok, orElse_eq_ok] at htx
  obtain ⟨-, raw, hraw, hid, hparse⟩ := htx
  have hpayment' : c.payment p = some ⟨req, tx, ix.poolScript⟩ := by
    rw [Pool.readRedemption, orElse_eq_ok] at hreq
    simp [Pool.Call.payment, Pool.account_ok.mp hredemption, Pool.account_ok.mp hbuffer, hix, hreq, hraw,
      hparse, Except.toOption]
  obtain rfl := Option.some_inj.mp (hpayment'.symm.trans hpayment)
  obtain ⟨us, hkeys, hheld, hspends, -⟩ := Pool.consumeUtxos_ok hs₄
  have haccounts := (List.getElem?_eq_some_iff.mp (Pool.account_ok.mp hconfig)).1
  have hlen : us.length = ix.consumedUtxoCount := Pool.length_of_keysFrom haccounts.le hkeys
  -- the change that was created meanwhile is not reserved
  have hreserved : Pool.Fewer p.records.reserved s₃.records.reserved := by
    obtain ⟨-, hrec₁, -⟩ := Pool.completionReceipt_ok hs₁
    obtain ⟨T, hrec₂, -⟩ := Pool.burnToken_ok hs₂
    obtain ⟨-, leaf, hrec₃⟩ := Pool.createChange_ok
      (fun hp => by rw [if_neg hp] at haccounts; omega) hs₃
    rw [hrec₃, hrec₂, hrec₁]
    exact Pool.fewer_creditChange ((p.records.putCompletionReceipt _).setTokens T) _ _ _
  exact ⟨ix, raw, _, us, vault.key, burn, hix, hid,
    { payment := hpayment
      read := hparse
      spends := hspends
      distinct := hheld.picked.nodup
      reserved := fun e he => hreserved _ _
        (Pool.reserved_eq_some.mpr ⟨hheld.picked.recorded e he, (hheld.reserved e he).1⟩)
      held := fun info hinfo e he => by
        obtain rfl := Option.some_inj.mp ((Pool.account_ok.mp hredemption).symm.trans hinfo)
        exact (hheld.reserved e he).2
      only := hinputs.trans hlen.symm
      count := hlen.trans hcount
      paid := hchecked.least
      burnt := hburnt
      cost := hchecked.burnt
      covered := hchecked.covered }⟩

/-- A run of the client alone. -/
lemma reaches_client {p : Pool.State} {s s' : Client} {tr : List (Step Client LightClient.Program.Call)}
    (run : Reaches (LightClient.Program.step F) Orderly s tr s') :
    Reaches (step F E) (Allowed E keyOf) ⟨s, p⟩
      (tr.map fun st => ⟨⟨st.pre, p⟩, .client st.call, ⟨st.post, p⟩⟩) ⟨s', p⟩ := by
  induction run with
  | start => exact .start
  | call run ok eq ih =>
    rw [List.map_append, List.map_singleton]
    exact .call ih ok (by rw [step, lift_eq_ok]; exact ⟨_, eq, rfl⟩)

/-- A run of the pool alone. -/
lemma reaches_pool {s : Client} {p p' : Pool.State} {tr : List (Step Pool.State Pool.Label)}
    (run : Reaches (Pool.step E) (fun p l => Allowed E keyOf ⟨s, p⟩ (.pool l)) p tr p') :
    Reaches (step F E) (Allowed E keyOf) ⟨s, p⟩
      (tr.map fun st => ⟨⟨s, st.pre⟩, .pool st.call, ⟨s, st.post⟩⟩) ⟨s, p'⟩ := by
  induction run with
  | start => exact .start
  | call run ok eq ih =>
    rw [List.map_append, List.map_singleton]
    exact .call ih ok (by rw [step, lift_eq_ok]; exact ⟨_, eq, rfl⟩)

/-- The client first and then the pool: the client alone submits headers. -/
lemma reaches_both {s s' : Client} {p p' : Pool.State}
    {tr₁ : List (Step Client LightClient.Program.Call)} {tr₂ : List (Step Pool.State Pool.Label)}
    (run₁ : Reaches (LightClient.Program.step F) Orderly s tr₁ s')
    (run₂ : Reaches (Pool.step E) (fun p l => Allowed E keyOf ⟨s', p⟩ (.pool l)) p tr₂ p') :
    ∃ tr, Reaches (step F E) (Allowed E keyOf) ⟨s, p⟩ tr ⟨s', p'⟩ ∧ poolSteps tr = tr₂ ∧
      ∀ raw, Submitted tr raw → ∃ st ∈ tr₁, raw ∈ LightClient.Buried.submits st.call := by
  refine ⟨_, (reaches_client run₁).trans (reaches_pool run₂), ?_, ?_⟩
  · rw [poolSteps, List.filterMap_append, List.filterMap_map, List.filterMap_map]
    exact congrArg₂ (· ++ ·) (List.filterMap_eq_nil_iff.mpr fun _ _ => rfl) List.filterMap_some
  rintro raw ⟨st, hst, c, hc, hraw⟩
  rcases List.mem_append.mp hst with hst | hst
  · obtain ⟨st₁, hst₁, rfl⟩ := List.mem_map.mp hst
    obtain rfl := Call.client.inj hc
    exact ⟨st₁, hst₁, hraw⟩
  · obtain ⟨st₂, -, rfl⟩ := List.mem_map.mp hst
    exact absurd hc (by simp)

namespace Regtest

open LightClient.Chain.Regtest (genesisHash info wallet initAccounts initData)
open LightClient.Accounts (emptyState)

/-- A deposit of 100000 satoshis. -/
def paid : List UInt8 := Pool.Regtest.directTx 1 100000
def txid : Bytes 32 := Pool.Regtest.txidOf paid

/-- It is redeemed, but for 1500 satoshis of change. -/
def payment : List UInt8 :=
  Pool.Regtest.rawTx [(txid, 0)] [⟨98000, Pool.Regtest.recipientScript⟩, ⟨1500, Pool.Regtest.poolScript⟩]

def paymentTxid : Bytes 32 := Pool.Regtest.txidOf payment

/-- Both programs hash with the same function. -/
def clientEnv : LightClient.Accounts.Env where
  sha256 := Pool.Regtest.env.sha256
  minimumBalance := Pool.Regtest.env.minimumBalance
  mainnet := false

def mined (prev root : Bytes 32) : RawHeader :=
  ofList 80 ((toLe 4 1).toList ++ prev.toList ++ root.toList ++ (toLe 4 1000).toList ++
    (toLe 4 0x207fffff).toList ++ (zeros 4).toList)

/-- The hashes of the block of the deposit, of the block of its redemption and of five more. -/
def hashes : List (Bytes 32) :=
  [toLe 32 109084014495627251640843566139242409863651248983848156070472113921054125866,
    toLe 32 198601357047619062191145032289725229158258985402516104733022741628240832768,
    toLe 32 222595631295887122730561776610443554240736287864611435999674980449549084617,
    toLe 32 359902279623530914533598154043368183283722837458343103962293200793446790776,
    toLe 32 342430491527241796855434925400642346518565390446975024826565089267790376316,
    toLe 32 54873911793951412498016470831713314195711806514962745942893500480885417779,
    toLe 32 187359914435408474370366273224852645283911258626691665565437085997622474481]

def block : Bytes 32 := hashes.headD (zeros 32)
def paymentBlock : Bytes 32 := hashes.getD 1 (zeros 32)

/-- The transactions of the last five blocks do not matter. -/
def headers : List RawHeader :=
  mined genesisHash txid :: mined block paymentTxid ::
    ((hashes.drop 1).take 5).map fun prev => mined prev (zeros 32)

lemma headers_hashes : headers.map (LightClient.Extend.blockHashOf clientEnv) = hashes := by
  decide +kernel

/-- What is proven to the client: block and id, height and bytes. -/
def proofs : List ((Bytes 32 × Bytes 32) × ℕ × List UInt8) :=
  [((block, txid), 101, paid), ((paymentBlock, paymentTxid), 102, payment)]

def proven : List (Bytes 32 × Bytes 32) := proofs.map Prod.fst

def poolEnv : Pool.Env :=
  { Pool.Regtest.env with
    verifiedTxPda := fun b t => toLe 32 (900 + proven.idxOf (b, t))
    heightIndexPda := fun n => toLe 32 (2 ^ 200 + n)
    demoRequiredConfirmations := 6 }

def extend : LightClient.Program.Call :=
  .extend ([info .lightClient, wallet, info (.other (zeros 32)), info (.block genesisHash)] ++
    hashes.map (fun hash => info (.block hash)) ++
    (List.range 7).map (fun i => info (.heightIndex (101 + i))) ++ [info (.heightIndex 100)])
    (7 :: headers.flatMap Vector.toList) 0

def proofData (q : (Bytes 32 × Bytes 32) × ℕ × List UInt8) : List UInt8 :=
  q.1.2.toList ++ q.1.1.toList ++ leBytes 4 q.2.2.length ++ q.1.2.toList ++ (zeros 9).toList

def verify (q : (Bytes 32 × Bytes 32) × ℕ × List UInt8) : LightClient.Program.Call :=
  .verify [info (.verifiedTx q.1.1 q.1.2), info .lightClient, info (.block q.1.1),
    info (.heightIndex q.2.1), info (.other (zeros 32)), wallet, info (.other (zeros 32))]
    (proofData q) ((zeros 32).toList ++ q.2.2) 0

def clientCalls : List LightClient.Program.Call := extend :: proofs.map verify

/-- The client after both blocks are final and both transactions verified. -/
def clientRun : Option Client :=
  match LightClient.Initialize.processInitialize clientEnv emptyState initAccounts initData 0 with
  | .ok s => exec (LightClient.Program.step clientEnv) (fun s c => Orderly s c) s clientCalls
  | .error _ => none

/-- The bytes of a record. -/
def shown {α : Type} (bytes : UInt8 → α → List UInt8) (record : Option α) : List UInt8 :=
  record.elim [] (bytes 255)

/-- The client's accounts, and those of the call. -/
def accountsWith (s : Client) (foreign : Bytes 32 → Pool.Foreign) (k : Bytes 32) : Pool.Foreign :=
  let account (d : List UInt8) : Pool.Foreign := ⟨poolEnv.btcLightClientId, false, d⟩
  if k = poolEnv.lightClientPda then account (shown (lightClientBytes fun _ => zeros 32) s.lc?)
  else if (2 ^ 200 ≤ leNat k.toList) then
    account (shown heightIndexBytes (s.index? (leNat k.toList - 2 ^ 200)))
  else if 900 ≤ leNat k.toList ∧ leNat k.toList ≤ 902 then
    account ((proven[leNat k.toList - 900]?).elim [] fun bt =>
      shown verifiedTransactionBytes (s.verified? bt))
  else foreign k

def withClient (s : Client) : Pool.Label → Pool.Label
  | .call c => .call { c with foreign := accountsWith s c.foreign }
  | l => l

def deposit : Pool.Label :=
  Pool.Regtest.call 11 [Pool.Regtest.writable Pool.Regtest.pool,
      Pool.Regtest.readonly (.key (poolEnv.verifiedTxPda block txid)),
      Pool.Regtest.readonly (.key poolEnv.lightClientPda),
      Pool.Regtest.writable (.commitmentTree Pool.Regtest.pool 0),
      Pool.Regtest.readonly (.key Pool.Regtest.sweepBuffer), Pool.Regtest.signer Pool.Regtest.admin,
      Pool.Regtest.system, Pool.Regtest.writable Pool.Regtest.zkbtc,
      Pool.Regtest.writable Pool.Regtest.vault, Pool.Regtest.readonly (.key Pool.token2022ProgramId),
      Pool.Regtest.readonly (.key Pool.Regtest.depositBuffer),
      Pool.Regtest.writable (.depositReceipt txid none),
      Pool.Regtest.writable (.utxo Pool.Regtest.pool (txid, 0)),
      Pool.Regtest.writable (.tokenConfig Pool.Regtest.pool Pool.Regtest.zkbtc),
      Pool.Regtest.readonly (.poolConfig Pool.Regtest.pool),
      Pool.Regtest.readonly (.key (poolEnv.heightIndexPda 101))]
    (txid.toList ++ leBytes 8 101 ++ leBytes 4 paid.length ++ leBytes 4 0 ++ txid.toList)
    [(Pool.Regtest.sweepBuffer, Pool.Regtest.bufferOf paid)] 0

/-- The change of the payment is in its second output. -/
def complete : Pool.Label :=
  Pool.Regtest.call 17 [Pool.Regtest.writable Pool.Regtest.pool,
      Pool.Regtest.writable (.redemption Pool.Regtest.pool Pool.Regtest.user 7),
      Pool.Regtest.signer Pool.Regtest.user, Pool.Regtest.writable Pool.Regtest.user,
      Pool.Regtest.readonly (.key (poolEnv.verifiedTxPda paymentBlock paymentTxid)),
      Pool.Regtest.readonly (.key poolEnv.lightClientPda),
      Pool.Regtest.readonly (.key Pool.Regtest.sweepBuffer), Pool.Regtest.writable Pool.Regtest.zkbtc,
      Pool.Regtest.writable Pool.Regtest.vault, Pool.Regtest.readonly (.key Pool.token2022ProgramId),
      Pool.Regtest.writable (.completionReceipt paymentTxid), Pool.Regtest.system,
      Pool.Regtest.readonly (.poolConfig Pool.Regtest.pool),
      Pool.Regtest.writable (.utxo Pool.Regtest.pool (paymentTxid, 1)),
      Pool.Regtest.writable (.utxo Pool.Regtest.pool (txid, 0)),
      Pool.Regtest.writable (.tokenConfig Pool.Regtest.pool Pool.Regtest.zkbtc),
      Pool.Regtest.readonly (.key (poolEnv.heightIndexPda 102))]
    (paymentTxid.toList ++ leBytes 4 payment.length ++
      UInt8.ofNat Pool.Regtest.poolScript.length :: Pool.Regtest.poolScript ++ [1])
    [(Pool.Regtest.sweepBuffer, Pool.Regtest.bufferOf payment)] 0

def poolCalls (s : Client) : List Pool.Label :=
  (Pool.Regtest.openBook ++ [deposit,
    Pool.Regtest.redeem 0 (Pool.zeroHash Pool.treeDepth) (Pool.Regtest.note 1)
      Pool.Regtest.recipientScript 100000 7,
    Pool.Regtest.markProcessing 7 [(txid, 0)] 0, complete]).map (withClient s)

def poolRun (s : Client) : Option Pool.State :=
  exec (Pool.step poolEnv) (fun _ _ => true) .genesis (poolCalls s)

/-- The change is on record. -/
def recorded (p : Pool.State) : Bool := (p.records.utxos (Pool.Regtest.pool, (paymentTxid, 1))).isSome

def completes : Pool.Label → Bool
  | .call c => (c.decode poolEnv).any fun d => d.1 = .CompleteRedemption
  | _ => false

/-- The pool reads the deposit and its redemption, and no leaf. -/
def reads (s : Client) : Bool :=
  (poolCalls s).filterMap (fun l => l.creditedTx poolEnv) = [paid, payment] &&
    (poolCalls s).filterMap (fun l => l.creditedLeaf poolEnv) = [] && (poolCalls s).any completes

lemma run_both : clientRun.any (fun s => (poolRun s).any recorded && reads s) = true := by
  decide +kernel

/-- A run in which a deposit is redeemed. -/
structure Redeemed (s₁ : Client) (tr : List (Step State Call)) (x : State) : Prop where
  init : LightClient.Initialize.processInitialize clientEnv emptyState initAccounts initData 0 = .ok s₁
  run : Reaches (step clientEnv poolEnv) (Allowed poolEnv fun _ => zeros 32) ⟨s₁, .genesis⟩ tr x
  apart : LightClient.Chain.NoCollision clientEnv (Submitted tr)
  acyclic : LightClient.Chain.NoCycle clientEnv (Submitted tr)
  recorded : recorded x.pool = true
  txs : Pool.creditedTxs poolEnv (poolSteps tr) = [paid, payment]
  leaves : Pool.creditedLeaves poolEnv (poolSteps tr) = []
  completed : ∃ st ∈ tr, ∃ c c', st.call = .pool (.call c) ∧
    c.decode poolEnv = some (.CompleteRedemption, c')

lemma shown_shows {α : Type} {tag : UInt8} (htag : tag ≠ 0) (bytes : UInt8 → α → List UInt8)
    (record : Option α) : Shows tag bytes record (shown bytes record) := by
  cases record with
  | none => exact htag.symm
  | some a => exact ⟨255, rfl⟩

lemma toNat_lightClientPda : leNat poolEnv.lightClientPda.toList = 32 :=
  (leNat_toLe 32 32).trans (Nat.mod_eq_of_lt (by norm_num))

/-- A call with the client's accounts in it sees them. -/
lemma sees_withClient {s : Client} (hver : ∀ k, k ∉ proven → s.verified? k = none)
    (c : Pool.Call) : Sees poolEnv (fun _ => zeros 32) s { c with foreign := accountsWith s c.foreign } := by
  refine ⟨?_, fun n hn => ?_, fun b t => ?_⟩
  · dsimp only [accountsWith]
    rw [if_pos rfl]
    exact shown_shows (by decide) _ _
  · have hk : leNat (poolEnv.heightIndexPda n).toList = 2 ^ 200 + n :=
      (leNat_toLe 32 _).trans (Nat.mod_eq_of_lt (by omega))
    have hne : poolEnv.heightIndexPda n ≠ poolEnv.lightClientPda := by
      intro h
      rw [h, toNat_lightClientPda] at hk
      omega
    dsimp only [accountsWith]
    rw [if_neg hne, if_pos (by omega), hk, Nat.add_sub_cancel_left]
    exact shown_shows (by decide) _ _
  · have hidx : proven.idxOf (b, t) ≤ 2 := List.idxOf_le_length
    have hk : leNat (poolEnv.verifiedTxPda b t).toList = 900 + proven.idxOf (b, t) :=
      (leNat_toLe 32 _).trans (Nat.mod_eq_of_lt (by omega))
    have hne : poolEnv.verifiedTxPda b t ≠ poolEnv.lightClientPda := by
      intro h
      rw [h, toNat_lightClientPda] at hk
      omega
    dsimp only [accountsWith]
    rw [if_neg hne, if_neg (by omega), if_pos (by omega), hk, Nat.add_sub_cancel_left]
    by_cases hmem : (b, t) ∈ proven
    · rw [List.getElem?_idxOf hmem]
      exact shown_shows (by decide) _ _
    · rw [hver _ hmem, List.getElem?_eq_none (List.idxOf_eq_length hmem).ge]
      exact shown_shows (by decide) verifiedTransactionBytes none

lemma allowed_withClient {s : Client} (hver : ∀ k, k ∉ proven → s.verified? k = none)
    (l : Pool.Label) (p : Pool.State) :
    Allowed poolEnv (fun _ => zeros 32) ⟨s, p⟩ (.pool (withClient s l)) := by
  cases l with
  | call c =>
    have h := sees_withClient hver c
    exact h
  | fund n a => trivial
  | reap a => trivial
  | tokenChange a t => trivial

/-- The client's record when its tip is at height 106. -/
def tipRecord (b : Bytes 32) : BitcoinLightClient :=
  ⟨3, .other (zeros 32), b, b, zeros 32, 106, 101, 6, 0, 0x207fffff, 0, 0⟩

/-- A client that has verified a transaction in the block at height 101. -/
def sixDeep (b t : Bytes 32) : Client where
  lightClient := ⟨0, .program, .live (tipRecord b)⟩
  block _ := .fresh
  heightIndex n := if n = 101 then ⟨0, .program, .live ⟨b, 101⟩⟩ else .fresh
  verified k := if k = (b, t) then ⟨0, .program, .live ⟨101, b, t, 0, 0, 0⟩⟩ else .fresh

lemma index_sixDeep (b t : Bytes 32) (n : ℕ) :
    (sixDeep b t).index? n = if n = 101 then some ⟨b, 101⟩ else none := by
  unfold LightClient.Accounts.State.index? sixDeep
  dsimp only
  split_ifs <;> rfl

lemma verified_sixDeep (b t : Bytes 32) (k : Bytes 32 × Bytes 32) :
    (sixDeep b t).verified? k = if k = (b, t) then some ⟨101, b, t, 0, 0, 0⟩ else none := by
  unfold LightClient.Accounts.State.verified? sixDeep
  dsimp only
  split_ifs <;> rfl

lemma fits_sixDeep (b t : Bytes 32) : Fits (sixDeep b t) where
  lightClient lc hlc := by
    obtain rfl := Option.some_inj.mp hlc
    simp [tipRecord]
  heightIndex n hi hhi := by
    rw [index_sixDeep] at hhi
    split_ifs at hhi
    obtain rfl := Option.some_inj.mp hhi
    simp
  verified k vt hvt := by
    rw [verified_sixDeep] at hvt
    split_ifs at hvt
    obtain rfl := Option.some_inj.mp hvt
    simp

lemma accepts_sixDeep (b t : Bytes 32) {c : Pool.Call}
    (hlisted : ∃ info ∈ c.accounts, info.key = .key (poolEnv.heightIndexPda 101)) :
    Accepts poolEnv (sixDeep b t) c (Pool.Regtest.readonly (.key (poolEnv.verifiedTxPda b t)))
      (Pool.Regtest.readonly (.key poolEnv.lightClientPda)) t (some 101) 6 ⟨101, b, t, 0, 0, 0⟩ (tipRecord b)
      ⟨b, 101⟩ where
  verifiedKey := rfl
  lightClientKey := rfl
  listed := hlisted
  verified := by rw [verified_sixDeep, if_pos rfl]
  client := rfl
  index := by rw [index_sixDeep, if_pos rfl]
  txid := rfl
  named := rfl
  indexHeight := rfl
  canonical := rfl
  network := rfl
  epoch := rfl
  deep := by
    dsimp only [tipRecord]
    decide

/-- The accounts that the check reads. -/
def spvAccounts : Pool.Call where
  accounts := [Pool.Regtest.readonly (.key (poolEnv.heightIndexPda 101))]
  data := []
  slot := 0
  unixTimestamp := 0
  foreign _ := ⟨zeros 32, false, []⟩
  cpiSucceeds := true

def spvCall : Pool.Call :=
  { spvAccounts with foreign := accountsWith (sixDeep block txid) spvAccounts.foreign }

lemma sees_spvCall : Sees poolEnv (fun _ => zeros 32) (sixDeep block txid) spvCall := by
  refine sees_withClient (fun k hk => ?_) spvAccounts
  rw [verified_sixDeep, if_neg]
  rintro rfl
  exact hk List.mem_cons_self

lemma owned_spvCall : Owned poolEnv (sixDeep block txid) spvCall := by
  intro n hn
  rw [index_sixDeep] at hn
  split_ifs at hn with h
  · subst h
    decide +kernel
  · exact absurd hn (by simp)

lemma submits_calls : clientCalls.flatMap LightClient.Buried.submits = headers := by
  decide +kernel

lemma headers_apart : (headers.map (LightClient.Extend.blockHashOf clientEnv)).Nodup := by
  rw [headers_hashes]
  decide +kernel

lemma headers_down : ∀ a ∈ headers, (genesisHash :: hashes).idxOf a.prevBlockHash <
    (genesisHash :: hashes).idxOf (LightClient.Extend.blockHashOf clientEnv a) := by
  have h : ∀ i < 7, (genesisHash :: hashes).idxOf (headers.getD i (zeros 80)).prevBlockHash <
      (genesisHash :: hashes).idxOf
        ((headers.map (LightClient.Extend.blockHashOf clientEnv)).getD i (zeros 32)) := by
    rw [headers_hashes]
    decide +kernel
  intro a ha
  obtain ⟨i, hi, rfl⟩ := List.mem_iff_getElem.mp ha
  have hlt := h i hi
  rwa [List.getD_eq_getElem _ _ hi, List.getD_eq_getElem _ _ (by simpa using hi),
    List.getElem_map] at hlt

lemma proofs_keys : ∀ q ∈ proofs, (LightClient.VerifyTransaction.parseProof (proofData q)).toOption.map
    (fun d => (d.blockHash, d.txid)) = some q.1 := by
  decide +kernel

/-- The bytes that are hashed for the two ids are told apart by their hashes. -/
lemma hashed_apart : Set.InjOn (Pool.doubleSha256 poolEnv)
    (Pool.hashedFor {raw | raw ∈ [paid, payment]}) := by
  have hids : ∀ raw ∈ [paid, payment], ∀ raw' ∈ [paid, payment],
      (Pool.Scanner.hashedBytes raw).toOption.map (Pool.doubleSha256 poolEnv) =
        (Pool.Scanner.hashedBytes raw').toOption.map (Pool.doubleSha256 poolEnv) → raw = raw' := by
    decide +kernel
  rintro a ⟨raw, hraw, ha⟩ b ⟨raw', hraw', hb⟩ heq
  obtain rfl := hids raw hraw raw' hraw' (by rw [ha, hb]; exact congrArg some heq)
  exact Except.ok.inj (ha.symm.trans hb)

lemma completes_call {l : Pool.Label} (h : completes l = true) : ∃ c c', l = .call c ∧
    c.decode poolEnv = some (.CompleteRedemption, c') := by
  cases l with
  | call c =>
    obtain ⟨⟨i, c'⟩, hd, hi⟩ := (Option.any_eq_true _ _).mp h
    obtain rfl : i = .CompleteRedemption := of_decide_eq_true hi
    exact ⟨c, c', rfl, hd⟩
  | fund n a => exact absurd h (by simp [completes])
  | reap a => exact absurd h (by simp [completes])
  | tokenChange a t => exact absurd h (by simp [completes])

lemma call_of_poolStep {st : Step State Call} {st₂ : Step Pool.State Pool.Label}
    (h : poolStep st = some st₂) : st.call = .pool st₂.call := by
  unfold poolStep at h
  split at h
  · rename_i l hl
    obtain rfl := Option.some_inj.mp h
    exact hl
  · exact absurd h (by simp)

lemma redeemed : ∃ s₁ tr x, Redeemed s₁ tr x := by
  obtain ⟨s, hs, hboth⟩ := (Option.any_eq_true _ _).mp run_both
  rw [Bool.and_eq_true] at hboth
  obtain ⟨p, hp, hrec⟩ := (Option.any_eq_true _ _).mp hboth.1
  simp only [reads, Bool.and_eq_true, decide_eq_true_eq] at hboth
  obtain ⟨-, ⟨htxs, hleaves⟩, hcompletes⟩ := hboth
  unfold clientRun at hs
  split at hs
  · rename_i s₁ hinit
    obtain ⟨tr₁, hcalls₁, run₁⟩ := reaches_of_exec (fun _ _ h => of_decide_eq_true h) hs
    have hfresh : ∀ k, s₁.verified? k = none := fun k =>
      congrFun (LightClient.Program.initialize_verified hinit) k
    have hver : ∀ k, k ∉ proven → s.verified? k = none := by
      intro k hk
      by_contra hsome
      obtain ⟨st, hst, accounts, data, buffer, now, d, hcall, hd, rfl⟩ :=
        LightClient.Buried.verified_of_reaches run₁ hfresh hsome
      have hmem := List.mem_map_of_mem (f := Step.call) hst
      rw [hcalls₁, hcall, clientCalls, List.mem_cons] at hmem
      obtain ⟨q, hq, heq⟩ := List.mem_map.mp (hmem.resolve_left (by simp [extend]))
      obtain ⟨-, rfl, -, -⟩ := LightClient.Program.Call.verify.inj heq
      have hkey := proofs_keys q hq
      rw [hd] at hkey
      exact hk (List.mem_map.mpr ⟨q, hq, (Option.some_inj.mp hkey).symm⟩)
    have hany : ∀ p l, (fun _ _ => true : Pool.State → Pool.Label → Bool) p l = true → True :=
      fun _ _ _ => trivial
    obtain ⟨tr₂, hcalls₂, run₂⟩ := reaches_of_exec hany hp
    have hsees : Reaches (Pool.step poolEnv)
        (fun p l => Allowed poolEnv (fun _ => zeros 32) ⟨s, p⟩ (.pool l)) .genesis tr₂ p := by
      refine run₂.strengthen fun st hst _ => ?_
      have hmem := List.mem_map_of_mem (f := Step.call) hst
      rw [hcalls₂] at hmem
      obtain ⟨l, -, hl⟩ := List.mem_map.mp hmem
      rw [← hl]
      exact allowed_withClient hver l st.pre
    have hview : ∀ {β : Type} (f : Pool.Label → Option β),
        tr₂.filterMap (fun st => f st.call) = (poolCalls s).filterMap f := by
      intro β f
      rw [← hcalls₂, List.filterMap_map]
      rfl
    obtain ⟨tr, run, hpool, hsubmitted⟩ := reaches_both run₁ hsees
    have hheaders : ∀ raw, Submitted tr raw → raw ∈ headers := by
      intro raw hraw
      obtain ⟨st, hst, hmem⟩ := hsubmitted raw hraw
      have hcall := List.mem_map_of_mem (f := Step.call) hst
      rw [hcalls₁] at hcall
      exact submits_calls ▸ List.mem_flatMap.mpr ⟨_, hcall, hmem⟩
    refine ⟨s₁, tr, ⟨s, p⟩, hinit, run, LightClient.Chain.noCollision_of hheaders
      fun a ha b hb h => List.inj_on_of_nodup_map headers_apart ha hb h,
      LightClient.Chain.noCycle_of _ hheaders headers_down, hrec, ?_, ?_, ?_⟩
    · rw [hpool]
      exact (hview fun l => l.creditedTx poolEnv).trans htxs
    · rw [hpool]
      exact (hview fun l => l.creditedLeaf poolEnv).trans hleaves
    · obtain ⟨l, hl, hcompletes⟩ := List.any_eq_true.mp hcompletes
      rw [← hcalls₂, ← hpool] at hl
      obtain ⟨st₂, hst₂, rfl⟩ := List.mem_map.mp hl
      obtain ⟨st, hst, hpoolStep⟩ := List.mem_filterMap.mp hst₂
      obtain ⟨c, c', hcall, hd⟩ := completes_call hcompletes
      exact ⟨st, hst, c, c', hcall ▸ call_of_poolStep hpoolStep, hd⟩
  · exact absurd hs (by simp)

end Regtest

open Regtest in
/-- A transaction six blocks deep. -/
theorem checkSpv_iff_sixDeep : Pool.checkSpv poolEnv spvCall
    (Pool.Regtest.readonly (.key (poolEnv.verifiedTxPda block txid)))
    (Pool.Regtest.readonly (.key poolEnv.lightClientPda)) txid (some 101) 6 .InvalidSpvProof = .ok () :=
  (checkSpv_iff sees_spvCall (fits_sixDeep block txid) owned_spvCall).mpr
    ⟨_, _, _, accepts_sixDeep block txid ⟨_, List.mem_singleton_self _, rfl⟩⟩

end Utxopia.Bridge
