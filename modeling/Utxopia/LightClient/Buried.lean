import Utxopia.LightClient.Finality

/-!
What a record of a verified transaction stands for.

Its transaction hashes up to the Merkle root of a block, and from that block a chain of submitted
headers, each of which meets its target, leads up to the tip. This is so in every run of one
instance of the client that never hangs a heavier batch on a block above the tip.
-/

namespace Utxopia.LightClient.Buried

open Utxopia.ByteString Utxopia.Check Utxopia.Run Utxopia.Runtime
open Utxopia.LightClient.Accounts Utxopia.LightClient.Initialize Utxopia.LightClient.Extend
open Utxopia.LightClient.Prune Utxopia.LightClient.Pow Utxopia.LightClient.VerifyTransaction
open Utxopia.LightClient.Program Utxopia.LightClient.Finality
open Utxopia.LightClient.Chain (Depth NoCollision NoCycle)

variable (E : Env) (U : RawHeader → Prop) (genesis : Hash)

/-! ### Chains of headers -/

def merkleRootOf (raw : RawHeader) : Hash := slice 32 raw.toList 36

/-- A header that was submitted and meets the target it declares. -/
structure Mined (raw : RawHeader) : Prop where
  submitted : U raw
  work : hashMeetsTarget (blockHashOf E raw) (targetFromBits raw.bits) = true

/-- Headers one on top of the other, the first on `b`. -/
def OnTop : Hash → List RawHeader → Prop
  | _, [] => True
  | b, raw :: raws => Mined E U raw ∧ raw.prevBlockHash = b ∧ OnTop (blockHashOf E raw) raws

/-- The Merkle root of a block. That of the start block is not known and reads as zero. -/
def HasRoot (b root : Hash) : Prop :=
  (b = genesis ∧ root = zeros 32) ∨
    ∃ raw, Mined E U raw ∧ blockHashOf E raw = b ∧ merkleRootOf raw = root

/-- **A confirmed transaction**: its id hashes up to the Merkle root of a block on which headers lie,
`n` blocks with that one. -/
def Confirmed (txid : Hash) (n : ℕ) : Prop :=
  ∃ b root d raw above, HasRoot E U genesis b root ∧ Included E d raw root ∧ d.txid = txid ∧
    OnTop E U b above ∧ n ≤ above.length + 1

/-- **A settled transaction**: its id hashes up to the Merkle root of a block that is final in the
client. -/
def Settled (s : State) (txid : Hash) : Prop :=
  ∃ b height root d raw, FinalAt s b height ∧ HasRoot E U genesis b root ∧ Included E d raw root ∧
    d.txid = txid

variable {E U genesis} {s s' : State} {start : ℕ} {now : ℤ}

lemma Settled.later {txid : Hash} (h : Settled E U genesis s txid) (hl : Later s s') :
    Settled E U genesis s' txid := by
  obtain ⟨b, height, root, d, raw, hfinal, hrest⟩ := h
  exact ⟨b, height, root, d, raw, hfinal.later hl, hrest⟩

lemma Confirmed.mono {txid : Hash} {m n : ℕ} (h : Confirmed E U genesis txid n) (hle : m ≤ n) :
    Confirmed E U genesis txid m := by
  obtain ⟨b, root, d, raw, above, hroot, hinc, hid, htop, hn⟩ := h
  exact ⟨b, root, d, raw, above, hroot, hinc, hid, htop, hle.trans hn⟩

/-! ### The invariant -/

/-- A stored header is the start block's or a mined one. -/
def Sound (E : Env) (U : RawHeader → Prop) (genesis : Hash) (start : ℕ) (b : Hash)
    (hdr : BlockHeader) : Prop :=
  (b = genesis ∧ hdr.height = start ∧ hdr.merkleRoot = zeros 32) ∨
    ∃ raw, Mined E U raw ∧ blockHashOf E raw = b ∧ hdr.prevBlockHash = raw.prevBlockHash ∧
      hdr.merkleRoot = merkleRootOf raw

lemma Sound.hasRoot {b : Hash} {hdr : BlockHeader} (h : Sound E U genesis start b hdr) :
    HasRoot E U genesis b hdr.merkleRoot := by
  rcases h with ⟨hb, -, hroot⟩ | ⟨raw, hmined, hb, -, hroot⟩
  · exact .inl ⟨hb, hroot⟩
  · exact .inr ⟨raw, hmined, hb, hroot.symm⟩

/-- What a record stands for. -/
structure Attests (E : Env) (U : RawHeader → Prop) (genesis : Hash) (k : Hash × Hash)
    (vt : VerifiedTransaction) : Prop where
  block : vt.blockHash = k.1
  txid : vt.txid = k.2
  height : vt.blockHeight < 2 ^ 32
  included : ∃ root d raw, HasRoot E U genesis k.1 root ∧ Included E d raw root ∧ d.txid = k.2

structure Inv (E : Env) (U : RawHeader → Prop) (genesis : Hash) (start : ℕ) (s : State) : Prop where
  chain : Chain.Inv E U genesis start s
  headers : ∀ b hdr, s.header? b = some hdr → Sound E U genesis start b hdr
  records : ∀ k vt, s.verified? k = some vt → Attests E U genesis k vt

/-- The call as one of the chain's, if it is one. -/
def chainCall : Call → Option Chain.Call
  | .extend accounts data now => some (.extend accounts data now)
  | .prune accounts data => some (.prune accounts data)
  | .fund a lamports => some (.fund a lamports)
  | .reap a => some (.reap a)
  | .verify .. | .restart .. => none

/-- The headers a call submits. -/
def submits (c : Call) : List RawHeader := (chainCall c).elim [] Chain.Call.headers

/-- One instance of the client, and no heavier batch on a block above the tip. -/
def Orderly (s : State) (c : Call) : Prop :=
  OneInstance s c ∧ ∀ c' ∈ chainCall c, ¬ Chain.OffTip s c'

instance (s : State) (c : Call) : Decidable (Orderly s c) := by
  unfold Orderly OneInstance
  infer_instance

lemma initialize_inv {accounts : List AccountInfo} {data : List UInt8} (hs : Untouched s)
    (h : processInitialize E s accounts data now = .ok s') :
    Inv E U (parseData data).startBlockHash (parseData data).startHeight s' := by
  obtain ⟨-, hheader, -⟩ := processInitialize_ok h
  refine ⟨Chain.initialize_inv hs h, fun b hdr hb => ?_, fun k vt hk => ?_⟩
  · rw [hheader] at hb
    rcases update_eq_some.mp hb with ⟨rfl, rfl⟩ | ⟨-, hold⟩
    · exact .inl ⟨rfl, rfl, rfl⟩
    · exact absurd ((hs.2.1 b).symm.trans hold) (by simp)
  · rw [initialize_verified h] at hk
    exact absurd ((hs.2.2.2 k).symm.trans hk) (by simp)

/-- A batch stores mined headers. -/
lemma extend_sound {accounts : List AccountInfo} {data : List UInt8}
    (hinv : Inv E U genesis start s) (mem : ∀ raw ∈ rawHeaders data, U raw)
    (h : processExtendBlockchain E s accounts data now = .ok s') {b : Hash} {hdr : BlockHeader}
    (hb : s'.header? b = some hdr) : Sound E U genesis start b hdr := by
  obtain ⟨lc, lc', parent, window, hx, -⟩ := extend_ok h
  obtain ⟨hall, -⟩ := hx.headers (fun _ => True) trivial fun _ _ _ _ _ => trivial
  rcases hall b hdr hb with hold | ⟨r, raw, hraw, -, -, hcheck, rfl, rfl⟩
  · exact hinv.headers b hdr hold
  · simp only [checkHeader, bind_eq_ok, require_eq_ok, exists_const] at hcheck
    obtain ⟨-, -, -, -, hwork, -⟩ := hcheck
    exact .inr ⟨raw, ⟨mem raw hraw, hwork⟩, rfl, rfl, rfl⟩

/-- A verification attests what it records. -/
lemma verify_attests {accounts : List AccountInfo} {data buffer : List UInt8}
    (hinv : Inv E U genesis start s) (h : processVerifyTransaction E s accounts data buffer now = .ok s')
    {k : Hash × Hash} {vt : VerifiedTransaction} (hk : s'.verified? k = some vt) :
    Attests E U genesis k vt := by
  obtain ⟨d, lc, header, hd, hatt, hlc, hheader, hindex, hver⟩ := processVerifyTransaction_ok h
  rcases hver with ⟨-, -, rfl⟩ | ⟨-, hver⟩
  · exact hinv.records k vt hk
  rw [hver] at hk
  rcases update_eq_some.mp hk with ⟨rfl, rfl⟩ | ⟨-, hold⟩
  · exact ⟨rfl, rfl, Nat.mod_lt _ (by decide), header.merkleRoot, d, _,
      (hinv.headers _ _ hatt.stored).hasRoot, hatt.included, rfl⟩
  · exact hinv.records k vt hold

/-- **One call** of an orderly run. -/
theorem step_inv (hcol : NoCollision E U) (hcyc : NoCycle E U) {c : Call}
    (hinv : Inv E U genesis start s) (mem : ∀ raw ∈ submits c, U raw) (hc : Orderly s c)
    (h : step E s c = .ok s') : Inv E U genesis start s' := by
  have hold : s'.verified? = s.verified? → ∀ k vt, s'.verified? k = some vt →
      Attests E U genesis k vt := fun hver k vt hk => hinv.records k vt (hver ▸ hk)
  cases c with
  | extend accounts data now =>
    obtain ⟨lc, lc', parent, window, hx, -⟩ := extend_ok h
    exact ⟨Chain.extend_inv hcol hcyc hinv.chain mem (hc.2 _ rfl) h,
      fun b hdr hb => extend_sound hinv mem h hb, hold hx.verified⟩
  | prune accounts data =>
    obtain ⟨b, -, -, -, -, -, -, -, -, -, hheader, -, -⟩ := processPruneObsoleteBlocks_ok h
    refine ⟨Chain.prune_inv hinv.chain h, fun b' hdr hb => hinv.headers b' hdr ?_,
      hold (prune_verified h)⟩
    rw [hheader] at hb
    rcases eq_or_ne b' b with rfl | hne
    · exact absurd hb (by simp)
    · rwa [Function.update_of_ne hne] at hb
  | verify accounts data buffer now =>
    obtain ⟨-, -, -, -, -, hlc, hheader, hindex, -⟩ := processVerifyTransaction_ok h
    exact ⟨hinv.chain.of_same hheader hindex hlc, fun b hdr hb => hinv.headers b hdr (hheader ▸ hb),
      fun k vt hk => verify_attests hinv h hk⟩
  | restart accounts data now => exact absurd hc.1 (by simp [OneInstance, Call.restarts])
  | fund a lamports =>
    obtain rfl := Except.ok.inj h
    exact ⟨hinv.chain.of_same (credit_header? ..) (credit_index? ..) (credit_lc? ..),
      fun b hdr hb => hinv.headers b hdr (credit_header? s lamports a ▸ hb), hold (credit_verified? ..)⟩
  | reap a =>
    obtain rfl := Except.ok.inj h
    exact ⟨hinv.chain.of_same (reap_header? ..) (reap_index? ..) (reap_lc? ..),
      fun b hdr hb => hinv.headers b hdr (reap_header? s a ▸ hb), hold (reap_verified? ..)⟩

/-! ### Up to the tip -/

/-- From an indexed block the index leads up to the tip along mined headers. -/
theorem Inv.onTop (hinv : Inv E U genesis start s) {lc : BitcoinLightClient}
    (hlc : s.lc? = some lc) {n height : ℕ} {hi : HeightIndex} (hhi : s.index? height = some hi)
    (hn : height + n = lc.tipHeight) : ∃ above, OnTop E U hi.blockHash above ∧ above.length = n := by
  induction n generalizing height hi with
  | zero => exact ⟨[], trivial, rfl⟩
  | succ n ih =>
    obtain ⟨lc', hlc', -, hlink⟩ := hinv.chain.chained
    obtain rfl := Option.some_inj.mp (hlc.symm.trans hlc')
    have hstart := (hinv.chain.index height hi hhi).start_le
    obtain ⟨next, prev, hdr, hnext, hprev, hhdr, hheight, hback⟩ :=
      hlink (height + 1) (by omega) (by omega)
    rw [Nat.add_sub_cancel, hhi] at hprev
    obtain rfl := Option.some_inj.mp hprev
    obtain ⟨above, htop, hlen⟩ := ih hnext (by omega)
    rcases hinv.headers _ _ hhdr with ⟨-, hlow, -⟩ | ⟨raw, hmined, hraw, hrawPrev, -⟩
    · -- the start block is not above itself
      omega
    · exact ⟨raw :: above, ⟨hmined, hrawPrev.symm.trans hback, hraw ▸ htop⟩, by rw [List.length_cons, hlen]⟩

/-- **A record whose block the index still names** stands for a confirmed transaction: as many blocks
as lie between the block and the tip, both counted. -/
theorem Inv.confirmed (hinv : Inv E U genesis start s) {lc : BitcoinLightClient}
    (hlc : s.lc? = some lc) {k : Hash × Hash} {vt : VerifiedTransaction}
    (hvt : s.verified? k = some vt) {hi : HeightIndex} (hhi : s.index? vt.blockHeight = some hi)
    (hname : hi.blockHash = k.1) (htip : vt.blockHeight ≤ lc.tipHeight) :
    Confirmed E U genesis k.2 (lc.tipHeight - vt.blockHeight + 1) := by
  obtain ⟨root, d, raw, hroot, hinc, hid⟩ := (hinv.records k vt hvt).included
  obtain ⟨above, htop, hlen⟩ := hinv.onTop hlc hhi (Nat.add_sub_cancel' htip)
  exact ⟨k.1, root, d, raw, above, hroot, hinc, hid, hname ▸ htop, by omega⟩

/-! ### Where records come from -/

/-- One call makes no record but that of the transaction it verifies. -/
lemma step_verified {c : Call} (h : step E s c = .ok s') {k : Hash × Hash} (hold : s.verified? k = none)
    (hk : s'.verified? k ≠ none) : ∃ accounts data buffer now d,
      c = .verify accounts data buffer now ∧ parseProof data = .ok d ∧ k = (d.blockHash, d.txid) := by
  have hsame : s'.verified? = s.verified? → False := fun hver => hk ((congrFun hver k).trans hold)
  cases c with
  | extend accounts data now =>
    obtain ⟨lc, lc', parent, window, hx, -⟩ := extend_ok h
    exact (hsame hx.verified).elim
  | prune accounts data => exact (hsame (prune_verified h)).elim
  | verify accounts data buffer now =>
    obtain ⟨d, lc, header, hd, -, -, -, -, hver⟩ := processVerifyTransaction_ok h
    rcases hver with ⟨-, -, rfl⟩ | ⟨-, hver⟩
    · exact (hsame rfl).elim
    · refine ⟨accounts, data, buffer, now, d, rfl, hd, ?_⟩
      by_contra hne
      rw [hver, Function.update_of_ne hne] at hk
      exact hk hold
  | restart accounts data now =>
    simp only [step, bind_eq_ok, exists_unit] at h
    obtain ⟨-, -, -, -, -, hver⟩ := Reinitialize.processReinitialize_ok h.2
    exact (hsame hver).elim
  | fund a lamports =>
    obtain rfl := Except.ok.inj h
    exact (hsame (credit_verified? ..)).elim
  | reap a =>
    obtain rfl := Except.ok.inj h
    exact (hsame (reap_verified? ..)).elim

/-- The block of every record is final. -/
def RecordsFinal (s : State) : Prop := ∀ k, s.verified? k ≠ none → ∃ height, FinalAt s k.1 height

/-- One call makes records of final blocks only, and a final block stays final. -/
lemma step_recordsFinal {c : Call} (hI : RecordsFinal s) (hc : OneInstance s c) (h : step E s c = .ok s') :
    RecordsFinal s' := by
  have hlater := step_later hc h
  intro k hk
  by_cases hold : s.verified? k = none
  · obtain ⟨accounts, data, buffer, now, d, rfl, hd, rfl⟩ := step_verified h hold hk
    obtain ⟨height, hfinal⟩ := verify_final h
    rw [← (parseProof_ok hd).1] at hfinal
    exact ⟨height, hfinal.later hlater⟩
  · obtain ⟨height, hfinal⟩ := hI k hold
    exact ⟨height, hfinal.later hlater⟩

/-- A record was made by a verification of its transaction. -/
lemma verified_of_reaches {guard : State → Call → Prop} {tr : List (Step State Call)}
    (run : Reaches (step E) guard s tr s') (h0 : ∀ k, s.verified? k = none) {k : Hash × Hash}
    (hk : s'.verified? k ≠ none) : ∃ st ∈ tr, ∃ accounts data buffer now d,
      st.call = .verify accounts data buffer now ∧ parseProof data = .ok d ∧
        k = (d.blockHash, d.txid) := by
  induction run with
  | start => exact absurd (h0 k) hk
  | @call tr s s' c run ok eq ih =>
    by_cases hold : s.verified? k = none
    · exact ⟨_, List.mem_append_right _ (List.mem_singleton_self _), step_verified eq hold hk⟩
    · obtain ⟨st, hst, hrest⟩ := ih hold
      exact ⟨st, List.mem_append_left _ hst, hrest⟩

end Utxopia.LightClient.Buried
