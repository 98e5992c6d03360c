import Utxopia.LightClient.Program

/-!
What is final stays final.

A batch that moves the tip hangs on a block that is not below the finalized height, and writes
index entries above that block only. The finalized height follows the tip at a distance and
never goes back, also when a heavier branch is shorter.
-/

namespace Utxopia.LightClient.Finality

open Utxopia.ByteString Utxopia.Check Utxopia.Run Utxopia.Runtime
open Utxopia.LightClient.Accounts Utxopia.LightClient.Initialize Utxopia.LightClient.Extend
open Utxopia.LightClient.Prune Utxopia.LightClient.VerifyTransaction Utxopia.LightClient.Program

variable {E : Env} {s s' s₀ s₁ : State} {lc lc' : BitcoinLightClient} {c : Call} {now : ℤ}

/-- One instance of the client: no restart. -/
def OneInstance (_ : State) (c : Call) : Prop := c.restarts = false

/-- What changes between two states of one instance. -/
structure Later (s s' : State) : Prop where
  client : ∀ lc, s.lc? = some lc → ∃ lc', s'.lc? = some lc' ∧
    lc.finalizedHeight ≤ lc'.finalizedHeight ∧
    (lc.finalizedHeight ≤ lc.tipHeight → lc'.finalizedHeight ≤ lc'.tipHeight) ∧
    ∀ h, h ≤ lc.finalizedHeight → s'.index? h = s.index? h

lemma Later.of_same (hlc : s'.lc? = s.lc?) (hidx : s'.index? = s.index?) : Later s s' :=
  ⟨fun lc h => ⟨lc, hlc ▸ h, le_rfl, id, fun k _ => congrFun hidx k⟩⟩

lemma Later.refl (s : State) : Later s s := .of_same rfl rfl

lemma Later.trans (h : Later s s₁) (h' : Later s₁ s') : Later s s' := by
  refine ⟨fun lc hlc => ?_⟩
  obtain ⟨lc₁, hlc₁, hle, htip, hidx⟩ := h.client lc hlc
  obtain ⟨lc', hlc', hle', htip', hidx'⟩ := h'.client lc₁ hlc₁
  exact ⟨lc', hlc', hle.trans hle', fun hfin => htip' (htip hfin),
    fun k hk => (hidx' k (hk.trans hle)).trans (hidx k hk)⟩

/-- One call. -/
theorem step_later (hc : OneInstance s c) (h : step E s c = .ok s') : Later s s' := by
  cases c with
  | extend accounts data now =>
    obtain ⟨lc, lc', parent, window, hx, -⟩ := extend_ok h
    refine ⟨fun lc₀ hlc => ?_⟩
    obtain rfl := Option.some_inj.mp (hx.client.symm.trans hlc)
    exact ⟨lc', hx.client', hx.finalized_le, hx.finalized_tip, hx.index_final⟩
  | prune accounts data =>
    obtain ⟨-, -, -, -, -, -, -, -, -, -, -, hidx, hlc⟩ := processPruneObsoleteBlocks_ok h
    exact .of_same hlc hidx
  | verify accounts data buffer now =>
    obtain ⟨-, -, -, -, -, hlc, -, hidx, -⟩ := processVerifyTransaction_ok h
    exact .of_same hlc hidx
  | restart accounts data now => exact absurd hc (by simp [OneInstance, Call.restarts])
  | fund a lamports =>
    obtain rfl := Except.ok.inj h
    exact .of_same (credit_lc? ..) (credit_index? ..)
  | reap a =>
    obtain rfl := Except.ok.inj h
    exact .of_same (reap_lc? ..) (reap_index? ..)

theorem run_later {tr : List (Step State Call)} (run : Reaches (step E) OneInstance s tr s') :
    Later s s' :=
  run.inv (.refl s) fun _ _ _ hI hg h => hI.trans (step_later hg h)

/-- The finalized height of a new client is not above its tip. -/
lemma initialize_finalized {accounts : List AccountInfo} {data : List UInt8}
    (h : processInitialize E s₀ accounts data now = .ok s₁) :
    ∃ lc, s₁.lc? = some lc ∧ lc.finalizedHeight ≤ lc.tipHeight := by
  obtain ⟨⟨payer, hlc⟩, -⟩ := processInitialize_ok h
  exact ⟨_, hlc, Nat.sub_le ..⟩

/-- The index names a block at or below the finalized height. -/
def FinalAt (s : State) (b : Hash) (h : ℕ) : Prop :=
  s.index? h = some ⟨b, h⟩ ∧ ∃ lc, s.lc? = some lc ∧ h ≤ lc.finalizedHeight

lemma FinalAt.later {b : Hash} {h : ℕ} (hf : FinalAt s b h) (hl : Later s s') : FinalAt s' b h := by
  obtain ⟨hidx, lc, hlc, hle⟩ := hf
  obtain ⟨lc', hlc', hle', -, hsame⟩ := hl.client lc hlc
  exact ⟨(hsame h hle).trans hidx, lc', hlc', hle.trans hle'⟩

/-- What verify attests is final. -/
lemma verify_final {accounts : List AccountInfo} {data buffer : List UInt8}
    (h : step E s (.verify accounts data buffer now) = .ok s') :
    ∃ height, FinalAt s (slice 32 data 32) height := by
  obtain ⟨d, lc, header, hd, hatt, -⟩ := processVerifyTransaction_ok h
  rw [← (parseProof_ok hd).1]
  exact ⟨header.height, hatt.indexed, lc, hatt.client, hatt.final⟩

/-- The blocks attested so far are final. -/
lemma verified_final {tr : List (Step State Call)} (run : Reaches (step E) OneInstance s₁ tr s)
    {st : Step State Call} (hst : st ∈ tr) {accounts : List AccountInfo} {data buffer : List UInt8}
    (hc : st.call = .verify accounts data buffer now) :
    ∃ height, FinalAt st.pre (slice 32 data 32) height ∧ FinalAt s (slice 32 data 32) height := by
  induction run with
  | start => exact absurd hst List.not_mem_nil
  | call run ok eq ih =>
    have hlater := step_later ok eq
    rcases List.mem_append.mp hst with hst | hst
    · obtain ⟨height, hpre, hnow⟩ := ih hst
      exact ⟨height, hpre, hnow.later hlater⟩
    · obtain rfl := List.mem_singleton.mp hst
      subst hc
      obtain ⟨height, hpre⟩ := verify_final eq
      exact ⟨height, hpre, hpre.later hlater⟩

/-- **The finalized prefix is immutable**: from any state of a run on, the finalized height does
not go down and stays at or below the tip, the index keeps its entries at and below it, and a
block once attested stays the indexed block at its height. -/
theorem finalized_prefix_immutable {accounts : List AccountInfo} {data : List UInt8}
    {tr tr' : List (Step State Call)} (hinit : processInitialize E s₀ accounts data now = .ok s₁)
    (run : Reaches (step E) OneInstance s₁ tr s) (run' : Reaches (step E) OneInstance s tr' s') :
    (∃ lc lc', s.lc? = some lc ∧ s'.lc? = some lc' ∧ lc.finalizedHeight ≤ lc'.finalizedHeight ∧
      lc.finalizedHeight ≤ lc.tipHeight ∧ lc'.finalizedHeight ≤ lc'.tipHeight ∧
      ∀ h, h ≤ lc.finalizedHeight → s'.index? h = s.index? h) ∧
    ∀ st ∈ tr, ∀ accounts data buffer now, st.call = .verify accounts data buffer now →
      ∃ height, st.pre.index? height = some ⟨slice 32 data 32, height⟩ ∧
        s'.index? height = some ⟨slice 32 data 32, height⟩ := by
  obtain ⟨lc₁, hlc₁, hfin₁⟩ := initialize_finalized hinit
  obtain ⟨lc, hlc, -, htip, -⟩ := (run_later run).client lc₁ hlc₁
  obtain ⟨lc', hlc', hle, htip', hidx⟩ := (run_later run').client lc hlc
  refine ⟨⟨lc, lc', hlc, hlc', hle, htip hfin₁, htip' (htip hfin₁), hidx⟩, ?_⟩
  intro st hst accounts data buffer now hc
  obtain ⟨height, hpre, hnow⟩ := verified_final run hst hc
  exact ⟨height, hpre.1, (hnow.later (run_later run')).1⟩

/-! ### A run -/

namespace Regtest

open Chain.Regtest

/-- The calls of the index's own runs. -/
def ofChain : Chain.Call → Call
  | .extend accounts data now => .extend accounts data now
  | .prune accounts data => .prune accounts data
  | .fund a lamports => .fund a lamports
  | .reap a => .reap a

def start : Option State := (processInitialize env emptyState initAccounts initData 0).toOption

def runFrom (allowed : State → Call → Bool) (s : State) (calls : List Call) : Option State :=
  exec (step env) allowed s calls

lemma run_parts : ((start.bind fun s => runFrom (fun _ c => !c.restarts) s
    ((Chain.Regtest.reorg.take 1).map ofChain)).bind fun s =>
      runFrom (fun _ c => !c.restarts) s ((Chain.Regtest.reorg.drop 1).map ofChain)).isSome = true := by
  decide +kernel

end Regtest

open Chain.Regtest Regtest in
/-- A heavier but shorter branch. -/
theorem finalized_prefix_immutable_reorg : ∃ (s s' : State) (lc lc' : BitcoinLightClient),
    s.lc? = some lc ∧ s'.lc? = some lc' ∧
    lc.finalizedHeight ≤ lc'.finalizedHeight ∧ lc'.finalizedHeight ≤ lc'.tipHeight := by
  obtain ⟨s', hs'⟩ := Option.isSome_iff_exists.mp run_parts
  obtain ⟨s, hs, hrun'⟩ := Option.bind_eq_some_iff.mp hs'
  obtain ⟨s₁, hinit, hrun⟩ := Option.bind_eq_some_iff.mp hs
  have hinit' : processInitialize env emptyState initAccounts initData 0 = .ok s₁ := by
    unfold start at hinit
    cases h : processInitialize env emptyState initAccounts initData 0 with
    | error e => rw [h] at hinit; exact absurd hinit (by simp [Except.toOption])
    | ok s => rw [h] at hinit; rw [Option.some_inj.mp hinit]
  have hg : ∀ (s : State) (c : Call), (!c.restarts) = true → OneInstance s c := fun s c h => by
    simpa [OneInstance] using h
  obtain ⟨tr, -, run⟩ := reaches_of_exec hg hrun
  obtain ⟨tr', -, run'⟩ := reaches_of_exec hg hrun'
  obtain ⟨⟨lc, lc', hlc, hlc', hle, -, htip, -⟩, -⟩ := finalized_prefix_immutable hinit' run run'
  exact ⟨s, s', lc, lc', hlc, hlc', hle, htip⟩

end Utxopia.LightClient.Finality
