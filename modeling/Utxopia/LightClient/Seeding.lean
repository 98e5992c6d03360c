import Utxopia.LightClient.Instances

/-!
The difficulty parameters of a chain that checks them.

Every header carries the bits and the start time of its epoch for its children, and the client
carries them for headers that have none. Initialize insists on both for mainnet and testnet4. A
restart takes whatever it is given.
-/

namespace Utxopia.LightClient.Seeding

open Utxopia.ByteString Utxopia.Check Utxopia.Run Utxopia.Runtime
open Utxopia.LightClient.Accounts Utxopia.LightClient.Initialize Utxopia.LightClient.Extend
open Utxopia.LightClient.Prune Utxopia.LightClient.Reinitialize Utxopia.LightClient.Difficulty
open Utxopia.LightClient.VerifyTransaction Utxopia.LightClient.Program Utxopia.LightClient.Instances

variable {E : Env} {s s' s₀ s₁ : State} {lc lc' : BitcoinLightClient} {c : Call} {now : ℤ}
  {accounts : List AccountInfo} {data : List UInt8}

/-- The client and the headers of its epoch have bits and a start time. -/
structure Seeded (s : State) (lc : BitcoinLightClient) : Prop where
  bits : lc.expectedBits ≠ 0
  start : lc.epochStartTime ≠ 0
  header : ∀ b hdr, s.header? b = some hdr → hdr.reinitEpoch = lc.reinitEpoch →
    hdr.epochBits ≠ 0 ∧ hdr.epochStartTime ≠ 0

/-- **Seeded where it counts**: on mainnet and testnet4. -/
def DifficultySeeded (s : State) : Prop :=
  ∀ lc, s.lc? = some lc → enforced lc.network → Seeded s lc

/-- A batch that starts on a header with parameters has them. -/
def Running.seeded (r : Running) : Prop := r.expectedBits ≠ 0 ∧ r.epochStart ≠ 0

lemma Seeded.startRunning (h : Seeded s lc) (parent : BlockHeader) (window : List ℕ) :
    Running.seeded (startRunning lc parent window) := by
  refine ⟨?_, ?_⟩
  · change (if parent.epochBits ≠ 0 then parent.epochBits else lc.expectedBits) ≠ 0
    split_ifs with hp
    · exact hp
    · exact h.bits
  · change (if parent.epochStartTime ≠ 0 then parent.epochStartTime else lc.epochStartTime) ≠ 0
    split_ifs with hp
    · exact hp
    · exact h.start

/-- The call brings parameters where they are needed: a restart on mainnet or testnet4 has both,
and is under a new epoch; a header of a batch there has bits. -/
def Supplied (s : State) : Call → Prop
  | .extend _ data _ => ∀ lc ∈ s.lc?, enforced lc.network → ∀ raw ∈ rawHeaders data, raw.bits ≠ 0
  | .restart _ data _ =>
    (enforced (parseData data).network →
      (parseData data).initialBits ≠ 0 ∧ (parseData data).epochStart ≠ 0) ∧
    ∀ e ∈ clientEpoch s, e + 1 < 2 ^ 32
  | _ => True

instance (s : State) : DecidablePred (Supplied s)
  | .extend _ data _ => inferInstanceAs (Decidable (∀ lc ∈ s.lc?, enforced lc.network →
      ∀ raw ∈ rawHeaders data, raw.bits ≠ 0))
  | .restart _ data _ => inferInstanceAs (Decidable ((enforced (parseData data).network →
      (parseData data).initialBits ≠ 0 ∧ (parseData data).epochStart ≠ 0) ∧
        ∀ e ∈ clientEpoch s, e + 1 < 2 ^ 32))
  | .prune .. | .verify .. | .fund .. | .reap .. => inferInstanceAs (Decidable True)

/-! ### The invariant -/

structure Inv (s : State) : Prop where
  client : ∃ lc, s.lc? = some lc ∧ (∀ b hdr, s.header? b = some hdr → hdr.reinitEpoch ≤ lc.reinitEpoch) ∧
    (enforced lc.network → Seeded s lc)

lemma Inv.seeded (h : Inv s) : DifficultySeeded s := by
  obtain ⟨lc, hlc, -, hseed⟩ := h.client
  intro lc' hlc' he
  obtain rfl := Option.some_inj.mp (hlc.symm.trans hlc')
  exact hseed he

lemma Inv.of_fewer (h : Inv s) (hlc : s'.lc? = s.lc?)
    (hhdr : ∀ b hdr, s'.header? b = some hdr → s.header? b = some hdr) : Inv s' := by
  obtain ⟨lc, hlc₀, hle, hseed⟩ := h.client
  refine ⟨lc, hlc ▸ hlc₀, fun b hdr hb => hle b hdr (hhdr b hdr hb), fun he => ?_⟩
  obtain ⟨hbits, hstart, hall⟩ := hseed he
  exact ⟨hbits, hstart, fun b hdr hb => hall b hdr (hhdr b hdr hb)⟩

/-- A client at a start block, whose header is the only one of its epoch. -/
lemma Inv.of_start {d : InitializeData} {genesis : BlockHeader} (hlc : s'.lc? = some lc)
    (hold : ∀ b hdr, s.header? b = some hdr → hdr.reinitEpoch < lc.reinitEpoch)
    (hheader : s'.header? = Function.update s.header? d.startBlockHash (some genesis))
    (hepoch : genesis.reinitEpoch = lc.reinitEpoch)
    (hseed : enforced lc.network → (lc.expectedBits ≠ 0 ∧ lc.epochStartTime ≠ 0) ∧
      genesis.epochBits ≠ 0 ∧ genesis.epochStartTime ≠ 0) : Inv s' := by
  have hnew : ∀ b hdr, s'.header? b = some hdr → s.header? b = some hdr ∨ hdr = genesis :=
    fun b hdr hb => by
      rw [hheader] at hb
      rcases update_eq_some.mp hb with ⟨-, rfl⟩ | ⟨-, hold⟩
      · exact .inr rfl
      · exact .inl hold
  refine ⟨lc, hlc, fun b hdr hb => ?_, fun he => ?_⟩
  · rcases hnew b hdr hb with hb | rfl
    · exact (hold b hdr hb).le
    · exact hepoch.le
  · obtain ⟨⟨hbits, hstart⟩, hgen⟩ := hseed he
    refine ⟨hbits, hstart, fun b hdr hb hcur => ?_⟩
    rcases hnew b hdr hb with hb | rfl
    · exact absurd hcur (hold b hdr hb).ne
    · exact hgen

lemma initialize_inv (hs : Untouched s₀) (h : processInitialize E s₀ accounts data now = .ok s₁) :
    Inv s₁ := by
  obtain ⟨⟨payer, hlc⟩, hheader, -⟩ := processInitialize_ok h
  have hseed := initialize_enforced h
  refine Inv.of_start hlc (fun b hdr hb => absurd hb (by simp [hs.2.1 b])) hheader rfl fun he => ?_
  exact ⟨hseed he, hseed he⟩

lemma reinitialize_inv (hinv : Inv s) (hsup : Supplied s (.restart accounts data now))
    (h : processReinitialize E s accounts data now = .ok s') : Inv s' := by
  obtain ⟨lc, hlc, hle, -⟩ := hinv.client
  obtain ⟨lc₀, hlc₀, hlc', hheader, -⟩ := processReinitialize_ok h
  obtain rfl := Option.some_inj.mp (hlc₀.symm.trans hlc)
  obtain ⟨hseed, hwrap⟩ := hsup
  have hnext : nextEpoch lc₀ = lc₀.reinitEpoch + 1 :=
    Nat.mod_eq_of_lt (hwrap _ (by simp [clientEpoch, hlc₀]))
  have hepoch : (restartedClient lc₀ (parseData data) now).reinitEpoch = lc₀.reinitEpoch + 1 := hnext
  refine Inv.of_start hlc' (fun b hdr hb => ?_) hheader rfl fun he => ?_
  · have := hle b hdr hb
    omega
  · exact ⟨hseed he, hseed he⟩

/-- A header that passes its checks hands parameters on. -/
lemma next_seeded {r : Running} {raw : RawHeader} (he : enforced lc.network) (hbits : raw.bits ≠ 0)
    (hr : Running.seeded r) (hcheck : checkHeader E lc now r raw = .ok ()) :
    Running.seeded (r.next E lc raw) := by
  -- its time is later than the median
  have htime : raw.timestamp ≠ 0 := by
    have := ((checkHeader_ok hcheck).2.2.1 he).1
    omega
  refine ⟨?_, ?_⟩
  · change (if opensEpoch lc.network (r.height + 1) then raw.bits else r.expectedBits) ≠ 0
    split_ifs
    · exact hbits
    · exact hr.1
  · change (if opensEpoch lc.network (r.height + 1) then raw.timestamp else r.epochStart) ≠ 0
    split_ifs
    · exact htime
    · exact hr.2

lemma extend_inv (hinv : Inv s) (hsup : Supplied s (.extend accounts data now))
    (h : processExtendBlockchain E s accounts data now = .ok s') : Inv s' := by
  obtain ⟨lc, hlc, hle, hseed⟩ := hinv.client
  obtain ⟨lc₀, lc', parent, window, hx, -⟩ := extend_ok h
  obtain rfl := Option.some_inj.mp (hx.client.symm.trans hlc)
  have hstored := (hx.headers (fun _ => True) trivial fun _ _ _ _ _ => trivial).1
  refine ⟨lc', hx.client', fun b hdr hb => ?_, fun he => ?_⟩
  · rw [hx.reinitEpoch]
    rcases hstored b hdr hb with hb | ⟨r, raw, -, -, -, -, -, rfl⟩
    · exact hle b hdr hb
    · exact le_rfl
  · rw [hx.network] at he
    have hs := hseed he
    obtain ⟨hheaders, hclient⟩ := hx.headers Running.seeded (hs.startRunning parent window)
      fun r raw hraw hr hcheck =>
        next_seeded he (hsup _ (by simp [hlc]) he raw hraw) hr hcheck
    have hlc' : lc'.expectedBits ≠ 0 ∧ lc'.epochStartTime ≠ 0 := by
      rcases hclient with ⟨hb, ht⟩ | ⟨r, hr, hb, ht⟩
      · rw [hb, ht]
        exact ⟨hs.bits, hs.start⟩
      · rw [hb, ht]
        exact hr
    refine ⟨hlc'.1, hlc'.2, fun b hdr hb hcur => ?_⟩
    rw [hx.reinitEpoch] at hcur
    rcases hheaders b hdr hb with hb | ⟨r, raw, -, -, hr, -, -, rfl⟩
    · exact hs.header b hdr hb hcur
    · exact hr

/-- **One call** that brings its parameters keeps the invariant. -/
theorem step_inv (hinv : Inv s) (hsup : Supplied s c) (h : step E s c = .ok s') : Inv s' := by
  cases c with
  | extend accounts data now => exact extend_inv hinv hsup h
  | prune accounts data =>
    obtain ⟨b, -, -, -, -, -, -, -, -, -, hheader, -, hlc⟩ := processPruneObsoleteBlocks_ok h
    refine hinv.of_fewer hlc fun b' hdr hb => ?_
    rw [hheader] at hb
    rcases eq_or_ne b' b with rfl | hne
    · exact absurd hb (by simp)
    · rwa [Function.update_of_ne hne] at hb
  | verify accounts data buffer now =>
    obtain ⟨-, -, -, -, -, hlc, hhdr, -, -⟩ := processVerifyTransaction_ok h
    exact hinv.of_fewer hlc fun b hdr hb => hhdr ▸ hb
  | restart accounts data now =>
    simp only [step, bind_eq_ok, exists_unit] at h
    exact reinitialize_inv hinv hsup h.2
  | fund a lamports =>
    obtain rfl := Except.ok.inj h
    exact hinv.of_fewer (credit_lc? ..) fun b hdr hb => credit_header? s lamports a ▸ hb
  | reap a =>
    obtain rfl := Except.ok.inj h
    exact hinv.of_fewer (reap_lc? ..) fun b hdr hb => reap_header? s a ▸ hb

/-- **Difficulty parameters stay seeded**, in every run whose restarts supply them; so a batch on
a header of the client's epoch starts with bits and with the time its epoch began. -/
theorem difficulty_seeded {tr : List (Step State Call)} (hs : Untouched s₀)
    (hinit : processInitialize E s₀ accounts data now = .ok s₁)
    (run : Reaches (step E) Supplied s₁ tr s) :
    DifficultySeeded s ∧ ∀ lc parent window, s.lc? = some lc → enforced lc.network →
      Running.seeded (startRunning lc parent window) := by
  have hseed := (run.inv (initialize_inv hs hinit) fun _ _ _ hI hg h => step_inv hI hg h).seeded
  exact ⟨hseed, fun lc parent window hlc he => (hseed lc hlc he).startRunning parent window⟩

/-! ### A restart without parameters -/

namespace Regtest

open Chain.Regtest Instances.Regtest

/-- A restart on testnet4 with the shortest data, or with bits and a start time behind it. -/
def restartTestnet4 (parameters : List UInt8) : Call :=
  .restart (startAccountsAt 200 hashA1)
    ((toLe 8 200).toList ++ hashA1.toList ++ [2] ++ parameters) 0

lemma run_unseeded : (runFrom 100 (fun _ _ => true) [restartTestnet4 []]).map
    (fun s => s.lc?.map fun lc => (lc.network, lc.expectedBits)) = some (some (2, 0)) := by
  decide +kernel

def parameters : List UInt8 := (toLe 4 maxTargetBits).toList ++ (toLe 4 1000).toList

lemma run_seeded : (runFrom 100 (fun s c => Supplied s c) [restartTestnet4 parameters]).map
    (fun s => s.lc?.map fun lc => (lc.network, lc.expectedBits)) = some (some (2, maxTargetBits)) := by
  decide +kernel

end Regtest

open Chain.Regtest Instances.Regtest Regtest in
/-- **A restart may leave testnet4 without bits**: its data may stop before the parameters. -/
theorem restart_unseeded : ∃ s₁ tr s,
    processInitialize env emptyState (startAccountsAt 100 genesisHash) (startDataAt 100 genesisHash) 0 =
      .ok s₁ ∧
    Reaches (step env) (fun _ _ => True) s₁ tr s ∧ tr.map Step.call = [restartTestnet4 []] ∧
      ¬ DifficultySeeded s := by
  obtain ⟨s, hs, hbad⟩ := Option.map_eq_some_iff.mp run_unseeded
  obtain ⟨lc, hlc, hbits⟩ := Option.map_eq_some_iff.mp hbad
  obtain ⟨s₁, tr, hinit, htr, run⟩ := reaches_of_runFrom (fun _ _ _ => trivial) hs
  rw [Prod.mk.injEq] at hbits
  exact ⟨s₁, tr, s, hinit, run, htr, fun h => (h lc hlc (.inr hbits.1)).bits hbits.2⟩

open Chain.Regtest Instances.Regtest Regtest in
/-- A restart on testnet4 that says where its epoch began. -/
theorem difficulty_seeded_restart : ∃ s lc, s.lc? = some lc ∧ lc.network = networkTestnet4 ∧
    Seeded s lc := by
  obtain ⟨s, hs, hgood⟩ := Option.map_eq_some_iff.mp run_seeded
  obtain ⟨lc, hlc, hbits⟩ := Option.map_eq_some_iff.mp hgood
  obtain ⟨s₁, tr, hinit, -, run⟩ := reaches_of_runFrom (fun s c h => of_decide_eq_true h) hs
  rw [Prod.mk.injEq] at hbits
  exact ⟨s, lc, hlc, hbits.1,
    (difficulty_seeded untouched_emptyState hinit run).1 lc hlc (.inr hbits.1)⟩

end Utxopia.LightClient.Seeding
