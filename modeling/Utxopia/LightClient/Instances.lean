import Utxopia.Lib.Store
import Utxopia.LightClient.Program

/-!
Restarts and the records they leave behind.

A restart begins another instance of the client under the next epoch, over the headers and index
entries of the instances before. A batch asks its parent for the current epoch. A verification
does not ask the header it is given, and stamps the record with the client's epoch.
-/

namespace Utxopia.LightClient.Instances

open Utxopia.ByteString Utxopia.Check Utxopia.Run Utxopia.Runtime
open Utxopia.LightClient.Accounts Utxopia.LightClient.Initialize Utxopia.LightClient.Extend
open Utxopia.LightClient.Prune Utxopia.LightClient.Reinitialize
open Utxopia.LightClient.VerifyTransaction Utxopia.LightClient.Program

variable {E : Env} {s s' s₀ s₁ : State} {lc lc' : BitcoinLightClient} {c : Call} {now : ℤ}
  {accounts : List AccountInfo} {data : List UInt8}

/-- A block is the genesis block or hangs below it by the hashes of headers. -/
def Descends (E : Env) (genesis b : Hash) : Prop :=
  ∃ start n, Chain.Depth E (fun _ => True) genesis start b n

lemma descends_genesis (genesis : Hash) : Descends E genesis genesis := ⟨0, 0, .genesis⟩

lemma Descends.link {genesis : Hash} {raw : RawHeader} (h : Descends E genesis raw.prevBlockHash) :
    Descends E genesis (blockHashOf E raw) := by
  obtain ⟨start, n, hd⟩ := h
  exact ⟨start, n + 1, .link trivial hd⟩

/-- **Records of the current epoch are of the current instance**: the block of a record stamped
with the client's epoch descends from the client's genesis block, and its header has the epoch. -/
def EpochSound (E : Env) (s : State) : Prop :=
  ∀ lc k vt, s.lc? = some lc → s.verified? k = some vt → vt.reinitEpoch = lc.reinitEpoch →
    vt.blockHash = k.1 ∧ Descends E lc.genesisHash k.1 ∧
      ∀ hdr, s.header? k.1 = some hdr → hdr.reinitEpoch = lc.reinitEpoch

def clientEpoch (s : State) : Option ℕ := s.lc?.map BitcoinLightClient.reinitEpoch

/-- The call keeps to the current epoch: a batch hangs on a header that has it, a verification
is about one, and a restart does not wrap the counter around. -/
def CurrentEpoch (s : State) : Call → Prop
  | .extend accounts _ _ =>
    (accounts[3]?.bind fun info => s.headerAt info.key).map BlockHeader.reinitEpoch = clientEpoch s
  | .verify _ data _ _ =>
    (s.header? (slice 32 data 32)).map BlockHeader.reinitEpoch = clientEpoch s
  | .restart _ _ _ => ∀ e ∈ clientEpoch s, e + 1 < 2 ^ 32
  | _ => True

instance (s : State) (c : Call) : Decidable (CurrentEpoch s c) := by
  unfold CurrentEpoch
  cases c <;> infer_instance

/-! ### The invariant -/

/-- Headers and records by their epoch. -/
structure Epochs (E : Env) (s : State) (lc : BitcoinLightClient) : Prop where
  named : ∀ b hdr, s.header? b = some hdr → hdr.blockHash = b
  header_le : ∀ b hdr, s.header? b = some hdr → hdr.reinitEpoch ≤ lc.reinitEpoch
  header : ∀ b hdr, s.header? b = some hdr → hdr.reinitEpoch = lc.reinitEpoch →
    Descends E lc.genesisHash b
  record_le : ∀ k vt, s.verified? k = some vt → vt.reinitEpoch ≤ lc.reinitEpoch
  record_named : ∀ k vt, s.verified? k = some vt → vt.blockHash = k.1
  record : ∀ k vt, s.verified? k = some vt → vt.reinitEpoch = lc.reinitEpoch →
    Descends E lc.genesisHash k.1 ∧
      ∀ hdr, s.header? k.1 = some hdr → hdr.reinitEpoch = lc.reinitEpoch

def Inv (E : Env) (s : State) : Prop := ∃ lc, s.lc? = some lc ∧ Epochs E s lc

lemma Inv.sound (h : Inv E s) : EpochSound E s := by
  obtain ⟨lc, hlc, hep⟩ := h
  intro lc' k vt hlc' hvt hepoch
  obtain rfl := Option.some_inj.mp (hlc.symm.trans hlc')
  exact ⟨hep.record_named k vt hvt, hep.record k vt hvt hepoch⟩

/-- Fewer headers, the same records. -/
lemma Inv.of_fewer (h : Inv E s) (hlc : s'.lc? = s.lc?)
    (hhdr : ∀ b hdr, s'.header? b = some hdr → s.header? b = some hdr)
    (hver : s'.verified? = s.verified?) : Inv E s' := by
  obtain ⟨lc, hlc₀, hep⟩ := h
  refine ⟨lc, hlc ▸ hlc₀, fun b hdr hb => hep.named b hdr (hhdr b hdr hb),
    fun b hdr hb => hep.header_le b hdr (hhdr b hdr hb),
    fun b hdr hb => hep.header b hdr (hhdr b hdr hb), fun k vt hk => hep.record_le k vt (hver ▸ hk),
    fun k vt hk => hep.record_named k vt (hver ▸ hk), fun k vt hk he => ?_⟩
  obtain ⟨hd, hall⟩ := hep.record k vt (hver ▸ hk) he
  exact ⟨hd, fun hdr hb => hall hdr (hhdr _ hdr hb)⟩

lemma initialize_inv (hs : Untouched s₀) (h : processInitialize E s₀ accounts data now = .ok s₁) :
    Inv E s₁ := by
  obtain ⟨⟨payer, hlc⟩, hheader, -⟩ := processInitialize_ok h
  have hver : ∀ k, s₁.verified? k = none := fun k => (congrFun (initialize_verified h) k).trans (hs.2.2.2 k)
  have hone : ∀ b hdr, s₁.header? b = some hdr → b = (parseData data).startBlockHash ∧
      hdr = genesisHeader (parseData data) now := fun b hdr hb => by
    rw [hheader] at hb
    rcases update_eq_some.mp hb with hone | ⟨-, hold⟩
    · exact hone
    · exact absurd hold (by simp [hs.2.1 b])
  refine ⟨_, hlc, fun b hdr hb => ?_, fun b hdr hb => ?_, fun b hdr hb _ => ?_,
    fun k vt hk => absurd hk (by simp [hver k]), fun k vt hk => absurd hk (by simp [hver k]),
    fun k vt hk => absurd hk (by simp [hver k])⟩
  · obtain ⟨rfl, rfl⟩ := hone b hdr hb
    rfl
  · obtain ⟨rfl, rfl⟩ := hone b hdr hb
    exact le_rfl
  · obtain ⟨rfl, rfl⟩ := hone b hdr hb
    exact descends_genesis _

/-- A batch on a header of the current epoch stores descendants of the genesis block. -/
lemma extend_inv (hinv : Inv E s) (hcur : CurrentEpoch s (.extend accounts data now))
    (h : processExtendBlockchain E s accounts data now = .ok s') : Inv E s' := by
  obtain ⟨lc, hlc, hep⟩ := hinv
  obtain ⟨lc₀, lc', parent, window, hx, info, hinfo, hkey⟩ := extend_ok h
  obtain rfl := Option.some_inj.mp (hx.client.symm.trans hlc)
  have hparent : parent.reinitEpoch = lc₀.reinitEpoch := by
    have hat : s.headerAt (.block parent.blockHash) = some parent := hx.parent_stored
    simpa [CurrentEpoch, clientEpoch, hinfo, hkey, hat, hlc] using hcur
  have hstored := (hx.headers (fun r => Descends E lc₀.genesisHash r.prevHash)
    (hep.header _ _ hx.parent_stored hparent) fun r raw _ hr hcheck => by
      rw [next_prevHash]
      exact Descends.link ((checkHeader_ok hcheck).1 ▸ hr)).1
  -- a header is an old one or one of the batch
  have hnew : ∀ b hdr, s'.header? b = some hdr → s.header? b = some hdr ∨
      (hdr.blockHash = b ∧ hdr.reinitEpoch = lc₀.reinitEpoch ∧ Descends E lc₀.genesisHash b) :=
    fun b hdr hb => by
      rcases hstored b hdr hb with hb | ⟨r, raw, -, -, hd, -, rfl, rfl⟩
      · exact .inl hb
      · exact .inr ⟨rfl, rfl, hd⟩
  refine ⟨lc', hx.client', ?_⟩
  have hver := hx.verified
  constructor
  · intro b hdr hb
    rcases hnew b hdr hb with hb | ⟨hn, -⟩
    · exact hep.named b hdr hb
    · exact hn
  · intro b hdr hb
    rw [hx.reinitEpoch]
    rcases hnew b hdr hb with hb | ⟨-, he, -⟩
    · exact hep.header_le b hdr hb
    · exact he.le
  · intro b hdr hb he
    rw [hx.reinitEpoch] at he
    rw [hx.genesis]
    rcases hnew b hdr hb with hb | ⟨-, -, hd⟩
    · exact hep.header b hdr hb he
    · exact hd
  · intro k vt hk
    rw [hx.reinitEpoch]
    exact hep.record_le k vt (hver ▸ hk)
  · exact fun k vt hk => hep.record_named k vt (hver ▸ hk)
  · intro k vt hk he
    rw [hx.reinitEpoch] at he ⊢
    rw [hx.genesis]
    obtain ⟨hd, hall⟩ := hep.record k vt (hver ▸ hk) he
    refine ⟨hd, fun hdr hb => ?_⟩
    rcases hnew _ hdr hb with hb | ⟨-, he, -⟩
    · exact hall hdr hb
    · exact he

/-- A verification about a header of the current epoch. -/
lemma verify_inv {buffer : List UInt8} (hinv : Inv E s)
    (hcur : CurrentEpoch s (.verify accounts data buffer now))
    (h : processVerifyTransaction E s accounts data buffer now = .ok s') : Inv E s' := by
  obtain ⟨d, lc₀, header, hd, hatt, hlc', hhdr', -, hend⟩ := processVerifyTransaction_ok h
  rcases hend with ⟨-, -, rfl⟩ | ⟨-, hver⟩
  · exact hinv
  obtain ⟨lc, hlc, hep⟩ := hinv
  obtain rfl := Option.some_inj.mp (hatt.client.symm.trans hlc)
  have hheader : header.reinitEpoch = lc₀.reinitEpoch := by
    have hat : s.header? (slice 32 data 32) = some header := by
      rw [← (parseProof_ok hd).1]
      exact hatt.stored
    simpa [CurrentEpoch, clientEpoch, hat, hlc] using hcur
  -- a record is an old one or the new one
  have hnew : ∀ k vt, s'.verified? k = some vt → s.verified? k = some vt ∨
      (k = (d.blockHash, d.txid) ∧ vt = d.record lc₀ header now) := fun k vt hk => by
    rw [hver] at hk
    rcases update_eq_some.mp hk with hnew | ⟨-, hold⟩
    · exact .inr hnew
    · exact .inl hold
  refine ⟨lc₀, hlc' ▸ hlc, fun b hdr hb => hep.named b hdr (hhdr' ▸ hb),
    fun b hdr hb => hep.header_le b hdr (hhdr' ▸ hb), fun b hdr hb => hep.header b hdr (hhdr' ▸ hb),
    fun k vt hk => ?_, fun k vt hk => ?_, fun k vt hk he => ?_⟩
  · rcases hnew k vt hk with hk | ⟨-, rfl⟩
    · exact hep.record_le k vt hk
    · exact le_rfl
  · rcases hnew k vt hk with hk | ⟨rfl, rfl⟩
    · exact hep.record_named k vt hk
    · rfl
  · rw [hhdr']
    rcases hnew k vt hk with hk | ⟨rfl, rfl⟩
    · exact hep.record k vt hk he
    · refine ⟨hep.header _ _ hatt.stored hheader, fun hdr hb => ?_⟩
      obtain rfl := Option.some_inj.mp (hatt.stored.symm.trans hb)
      exact hheader

/-- A restart: nothing has the new epoch but its genesis header. -/
lemma reinitialize_inv (hinv : Inv E s) (hcur : CurrentEpoch s (.restart accounts data now))
    (h : processReinitialize E s accounts data now = .ok s') : Inv E s' := by
  obtain ⟨lc, hlc, hep⟩ := hinv
  obtain ⟨lc₀, hlc₀, hlc', hheader, -, hver⟩ := processReinitialize_ok h
  obtain rfl := Option.some_inj.mp (hlc₀.symm.trans hlc)
  have hnext : nextEpoch lc₀ = lc₀.reinitEpoch + 1 :=
    Nat.mod_eq_of_lt (hcur _ (by simp [clientEpoch, hlc₀]))
  have hnew : ∀ b hdr, s'.header? b = some hdr → s.header? b = some hdr ∨
      (b = (parseData data).startBlockHash ∧
        hdr = restartHeader lc₀ (parseData data) (parsePrev data) now) := fun b hdr hb => by
    rw [hheader] at hb
    rcases update_eq_some.mp hb with hnew | ⟨-, hold⟩
    · exact .inr hnew
    · exact .inl hold
  have hepoch : (restartedClient lc₀ (parseData data) now).reinitEpoch = lc₀.reinitEpoch + 1 := hnext
  refine ⟨_, hlc', fun b hdr hb => ?_, fun b hdr hb => ?_, fun b hdr hb he => ?_, fun k vt hk => ?_,
    fun k vt hk => ?_, fun k vt hk he => ?_⟩
  · rcases hnew b hdr hb with hb | ⟨rfl, rfl⟩
    · exact hep.named b hdr hb
    · rfl
  · rcases hnew b hdr hb with hb | ⟨-, rfl⟩
    · have := hep.header_le b hdr hb
      omega
    · exact le_rfl
  · rcases hnew b hdr hb with hb | ⟨rfl, -⟩
    · have := hep.header_le b hdr hb
      omega
    · exact descends_genesis _
  · have := hep.record_le k vt (hver ▸ hk)
    omega
  · exact hep.record_named k vt (hver ▸ hk)
  · have := hep.record_le k vt (hver ▸ hk)
    omega

/-- **One call** that keeps to the current epoch keeps the invariant. -/
theorem step_inv (hinv : Inv E s) (hcur : CurrentEpoch s c) (h : step E s c = .ok s') : Inv E s' := by
  cases c with
  | extend accounts data now => exact extend_inv hinv hcur h
  | prune accounts data =>
    obtain ⟨b, -, -, -, -, -, -, -, -, -, hheader, -, hlc⟩ := processPruneObsoleteBlocks_ok h
    refine hinv.of_fewer hlc (fun b' hdr hb => ?_) (prune_verified h)
    rw [hheader] at hb
    rcases eq_or_ne b' b with rfl | hne
    · exact absurd hb (by simp)
    · rwa [Function.update_of_ne hne] at hb
  | verify accounts data buffer now => exact verify_inv hinv hcur h
  | restart accounts data now =>
    simp only [step, bind_eq_ok, exists_unit] at h
    exact reinitialize_inv hinv hcur h.2
  | fund a lamports =>
    obtain rfl := Except.ok.inj h
    exact hinv.of_fewer (credit_lc? ..) (fun b hdr hb => credit_header? s lamports a ▸ hb)
      (credit_verified? ..)
  | reap a =>
    obtain rfl := Except.ok.inj h
    exact hinv.of_fewer (reap_lc? ..) (fun b hdr hb => reap_header? s a ▸ hb) (reap_verified? ..)

namespace Regtest

open Chain.Regtest

def startDataAt (height : ℕ) (hash : Hash) : List UInt8 := (toLe 8 height).toList ++ hash.toList ++ [3]

def startAccountsAt (height : ℕ) (hash : Hash) : List AccountInfo :=
  [info .lightClient, wallet, info (.other (zeros 32)), info (.heightIndex height), info (.block hash)]

def restart (height : ℕ) (hash : Hash) : Call :=
  .restart (startAccountsAt height hash) (startDataAt height hash) 0

/-- A transaction with the id zero, alone in its block. -/
def verifyAt (height : ℕ) (hash : Hash) : Call :=
  .verify [info (.verifiedTx hash (zeros 32)), info .lightClient, info (.block hash),
    info (.heightIndex height), info (.other (zeros 32)), wallet, info (.other (zeros 32))]
    ((zeros 32).toList ++ hash.toList ++ (toLe 4 10).toList ++ (zeros 41).toList)
    (zeros 42).toList 0

def runFrom (height : ℕ) (allowed : State → Call → Bool) (calls : List Call) : Option State :=
  match processInitialize env emptyState (startAccountsAt height genesisHash)
      (startDataAt height genesisHash) 0 with
  | .ok s => exec (step env) allowed s calls
  | .error _ => none

lemma reaches_of_runFrom {height : ℕ} {allowed : State → Call → Bool} {guard : State → Call → Prop}
    {calls : List Call} {s : State} (hg : ∀ s c, allowed s c = true → guard s c)
    (h : runFrom height allowed calls = some s) :
    ∃ s₁ tr, processInitialize env emptyState (startAccountsAt height genesisHash)
      (startDataAt height genesisHash) 0 = .ok s₁ ∧ tr.map Step.call = calls ∧
      Reaches (step env) guard s₁ tr s := by
  unfold runFrom at h
  split at h
  · rename_i s₁ hinit
    obtain ⟨tr, htr, run⟩ := reaches_of_exec hg h
    exact ⟨s₁, tr, hinit, htr, run⟩
  · exact absurd h (by simp)

def extendA1 : Call :=
  match batch genesisHash 100 [a1] with
  | .extend accounts data now => .extend accounts data now
  | _ => .fund .lightClient 0

/-- The old chain has a block at 101; the client restarts at 200 and verifies in that block. -/
def leftover : List Call := [extendA1, restart 200 hashA2, verifyAt 101 hashA1]

/-- A record with the client's epoch about a block whose header has another. -/
def stampedAcross (s : State) (k : Hash × Hash) : Bool :=
  match s.lc?, s.verified? k, s.header? k.1 with
  | some lc, some vt, some hdr => vt.reinitEpoch = lc.reinitEpoch && hdr.reinitEpoch != lc.reinitEpoch
  | _, _, _ => false

lemma run_leftover : (runFrom 100 (fun _ _ => true) leftover).map
    (stampedAcross · (hashA1, zeros 32)) = some true := by
  decide +kernel

lemma not_epochSound {s : State} {k : Hash × Hash} (h : stampedAcross s k = true) :
    ¬ EpochSound E s := by
  intro hsound
  unfold stampedAcross at h
  split at h
  · rename_i lc vt hdr hlc hvt hhdr
    rw [Bool.and_eq_true, decide_eq_true_eq, bne_iff_ne] at h
    exact h.2 ((hsound lc k vt hlc hvt h.1).2.2 hdr hhdr)
  · exact absurd h (by simp)

/-- Verifications in both instances, each about its own genesis block. -/
def restarted : List Call := [verifyAt 0 genesisHash, restart 0 hashA1, verifyAt 0 hashA1]

lemma run_restarted : (runFrom 0 (fun s c => CurrentEpoch s c) restarted).map
    (fun s => (s.verified? (hashA1, zeros 32)).map VerifiedTransaction.reinitEpoch) =
      some (some 1) := by
  decide +kernel

end Regtest

end Utxopia.LightClient.Instances
