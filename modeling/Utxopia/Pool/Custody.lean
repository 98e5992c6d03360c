import Utxopia.Pool.Effect

/-!
The script a pool keeps its bitcoin under.

A pool's script pays the x-only key it was configured with. What is bound to one pool for good
is the wallet account named next to the key, and the program does not compare the two.
-/

namespace Utxopia.Pool

open Utxopia.ByteString Utxopia.Check Utxopia.Run Utxopia.Runtime

variable {E : Env} {s s' : State} {l : Label} {r r' : Records}

/-- A pool with the wallet and the key it was given. -/
structure Custody where
  pool : Addr
  dwallet : Hash
  xonly : Hash

def PoolConfig.custody (cfg : PoolConfig) (pool : Addr) : Custody :=
  ⟨pool, cfg.ikaDwallet, cfg.ikaDwalletXonlyPubkey⟩

/-- What a call of `set_pool_config` asks for. -/
def Label.custody (E : Env) : Label → Option Custody
  | .call c =>
    match c.decode E with
    | some (.SetPoolConfig, c) => (c.account 0).toOption.map fun pool => c.poolConfig.custody pool.key
    | _ => none
  | _ => none

/-- All that was asked for in a run. -/
def custodies (E : Env) (tr : List (Step State Label)) : List Custody :=
  tr.filterMap fun st => st.call.custody E

/-- No two pools have the same script. -/
def ExclusiveScripts (r : Records) : Prop :=
  ∀ pool pool' cfg cfg', r.poolConfigs pool = some cfg → r.poolConfigs pool' = some cfg' →
    cfg.poolScript = cfg'.poolScript → pool = pool'

/-- A key comes with one wallet only. -/
def KeysOfOneWallet (cs : List Custody) : Prop :=
  ∀ a ∈ cs, ∀ b ∈ cs, a.xonly = b.xonly → a.dwallet = b.dwallet

lemma taprootScript_injective : Function.Injective taprootScript := by
  intro a b h
  have htail : a.toList = b.toList := by simpa [taprootScript] using h
  exact Vector.toList_inj.mp htail

/-! ### The configs and what was asked for -/

/-- The configs are those that were asked for, and every wallet is bound to its pool. -/
structure Configured (cs : List Custody) (r : Records) : Prop where
  recorded : ∀ a ∈ cs, ∃ cfg, r.poolConfigs a.pool = some cfg ∧ cfg.custody a.pool = a
  listed : ∀ pool cfg, r.poolConfigs pool = some cfg → cfg.custody pool ∈ cs
  script : ∀ pool cfg, r.poolConfigs pool = some cfg →
    cfg.poolScript = taprootScript cfg.ikaDwalletXonlyPubkey
  bound : ∀ pool cfg, r.poolConfigs pool = some cfg → r.dwalletBindings cfg.ikaDwallet = some ⟨pool⟩

lemma Configured.congr {cs : List Custody} (h : Configured cs r)
    (hcfg : r'.poolConfigs = r.poolConfigs) (hbind : r'.dwalletBindings = r.dwalletBindings) :
    Configured cs r' := by
  constructor
  · rw [hcfg]
    exact h.recorded
  · rw [hcfg]
    exact h.listed
  · rw [hcfg]
    exact h.script
  · rw [hcfg, hbind]
    exact h.bound

/-- One more pool is configured. -/
lemma Configured.configure {cs : List Custody} {pool : Addr} {cfg : PoolConfig}
    (h : Configured cs r) (hnew : Configuring r pool cfg) :
    Configured (cs ++ [cfg.custody pool]) (r.configure pool cfg) := by
  have hother : ∀ pool' cfg', (r.configure pool cfg).poolConfigs pool' = some cfg' →
      (pool' = pool ∧ cfg' = cfg) ∨ (pool' ≠ pool ∧ r.poolConfigs pool' = some cfg') := by
    intro pool' cfg' h'
    rcases eq_or_ne pool' pool with rfl | hne
    · exact .inl ⟨rfl, by simpa [Records.configure, Records.putPoolConfig] using h'.symm⟩
    · exact .inr ⟨hne, by simpa [Records.configure, Records.putPoolConfig, Records.bindDwallet, hne]
        using h'⟩
  refine ⟨fun a ha => ?_, fun pool' cfg' h' => ?_, fun pool' cfg' h' => ?_, fun pool' cfg' h' => ?_⟩
  · rcases List.mem_append.mp ha with ha | ha
    · obtain ⟨cfg', hcfg', hcu⟩ := h.recorded a ha
      have hne : a.pool ≠ pool := fun heq => by
        rw [heq, hnew.fresh] at hcfg'
        exact absurd hcfg' (by simp)
      exact ⟨cfg', by simpa [Records.configure, Records.putPoolConfig, Records.bindDwallet, hne]
        using hcfg', hcu⟩
    · obtain rfl := List.mem_singleton.mp ha
      exact ⟨cfg, Function.update_self .., rfl⟩
  · rcases hother pool' cfg' h' with ⟨rfl, rfl⟩ | ⟨-, h'⟩
    · exact List.mem_append_right _ (List.mem_singleton_self _)
    · exact List.mem_append_left _ (h.listed pool' cfg' h')
  · rcases hother pool' cfg' h' with ⟨rfl, rfl⟩ | ⟨-, h'⟩
    · exact hnew.script
    · exact h.script pool' cfg' h'
  · change Function.update r.dwalletBindings cfg.ikaDwallet (some ⟨pool⟩) cfg'.ikaDwallet = _
    rcases hother pool' cfg' h' with ⟨rfl, rfl⟩ | ⟨hne, h'⟩
    · exact Function.update_self ..
    -- the wallet of another pool is bound to that pool, so it is not the new one
    · have hb := h.bound pool' cfg' h'
      rw [Function.update_of_ne, hb]
      intro heq
      rw [heq] at hb
      rcases hnew.bound with hnone | hsame
      · exact absurd (hb.symm.trans hnone) (Option.some_ne_none _)
      · have := hb.symm.trans hsame
        simp only [Option.some.injEq, DwalletBinding.mk.injEq] at this
        exact hne this

lemma putTotals_configs (r : Records) (m : Addr) (p : PoolState) (tc : TokenConfig) (now : ℤ) :
    (r.putTotals m p tc now).poolConfigs = r.poolConfigs ∧
      (r.putTotals m p tc now).dwalletBindings = r.dwalletBindings :=
  ⟨putTotals_view Records.poolConfigs (fun _ _ _ => rfl) ..,
    putTotals_view Records.dwalletBindings (fun _ _ _ => rfl) ..⟩

/-- Nothing else touches configs and bindings. -/
theorem Effect.configs (h : Effect E s l r') (hl : l.custody E = none) :
    r'.poolConfigs = s.records.poolConfigs ∧ r'.dwalletBindings = s.records.dwalletBindings := by
  cases h with
  | reconfigured h =>
    obtain ⟨m, p, p', -, -, rfl⟩ := h
    exact ⟨rfl, rfl⟩
  | configured decoded account =>
    rw [Label.custody, decoded] at hl
    simp [account, Except.toOption] at hl
  | transacted decoded planned sound burnable outputs => cases outputs <;> exact ⟨rfl, rfl⟩
  | shielded => exact putTotals_configs ..
  | unshielded => exact putTotals_configs ..
  | @completed c c' => cases hchange : c'.changeOutput <;> exact ⟨rfl, rfl⟩
  | _ => exact ⟨rfl, rfl⟩

/-- A successful `set_pool_config` configures a pool that had no config. -/
theorem step_custody {a : Custody} (hl : l.custody E = some a) (h : step E s l = .ok s') :
    ∃ cfg, cfg.custody a.pool = a ∧ Configuring s.records a.pool cfg ∧
      s'.records = s.records.configure a.pool cfg := by
  cases l with
  | call c =>
    simp only [Label.custody] at hl
    split at hl
    · rename_i c' hd
      simp only [step, bind_eq_ok, exists_unit, require_eq_ok, processInstruction, hd] at h
      obtain ⟨pool, hpool, hnew, hrec⟩ := processSetPoolConfig_ok h.2
      simp only [hpool, Except.toOption, Option.map_some, Option.some.injEq] at hl
      subst hl
      exact ⟨_, rfl, hnew, hrec⟩
    · exact absurd hl (by simp)
  | fund n a => exact absurd hl (by simp [Label.custody])
  | reap a => exact absurd hl (by simp [Label.custody])
  | tokenChange a t => exact absurd hl (by simp [Label.custody])

theorem configured_of_reaches {tr : List (Step State Label)} {guard : State → Label → Prop}
    (run : Reaches (step E) guard .genesis tr s) : Configured (custodies E tr) s.records := by
  refine run.history (I := fun tr s => Configured (custodies E tr) s.records)
    ⟨by simp [custodies], by simp, by simp, by simp⟩ ?_
  intro tr s l s' _ hI _ h
  rw [custodies, List.filterMap_append]
  cases hl : l.custody E with
  | none =>
    obtain ⟨hcfg, hbind⟩ := (step_effect h).configs hl
    simpa [hl, custodies] using hI.congr hcfg hbind
  | some a =>
    obtain ⟨cfg, ha, hnew, hrec⟩ := step_custody hl h
    have := hI.configure hnew
    rw [ha, ← hrec] at this
    simpa [hl, custodies] using this

/-- **Scripts are exclusive exactly if keys are**: in every state of a run no two pools have the
same script if and only if no key was configured with two different wallets. -/
theorem exclusive_scripts_iff {tr : List (Step State Label)}
    (run : Reaches (step E) (fun _ _ => True) .genesis tr s) :
    ExclusiveScripts s.records ↔ KeysOfOneWallet (custodies E tr) := by
  have hI := configured_of_reaches run
  constructor
  · intro hex a ha b hb hkey
    obtain ⟨cfg, hcfg, hca⟩ := hI.recorded a ha
    obtain ⟨cfg', hcfg', hcb⟩ := hI.recorded b hb
    have hxonly : cfg.ikaDwalletXonlyPubkey = cfg'.ikaDwalletXonlyPubkey :=
      (congrArg Custody.xonly hca).trans (hkey.trans (congrArg Custody.xonly hcb).symm)
    have hscript : cfg.poolScript = cfg'.poolScript := by
      rw [hI.script _ _ hcfg, hI.script _ _ hcfg', hxonly]
    have hpool := hex _ _ _ _ hcfg hcfg' hscript
    rw [hpool, hcfg', Option.some.injEq] at hcfg
    rw [← hca, ← hcb, hcfg]
    rfl
  · intro hkeys pool pool' cfg cfg' hcfg hcfg' hscript
    rw [hI.script _ _ hcfg, hI.script _ _ hcfg'] at hscript
    have hwallet := hkeys _ (hI.listed _ _ hcfg) _ (hI.listed _ _ hcfg')
      (taprootScript_injective hscript)
    have hbound := hI.bound _ _ hcfg
    rw [show cfg.ikaDwallet = cfg'.ikaDwallet from hwallet, hI.bound _ _ hcfg'] at hbound
    simpa using hbound.symm

namespace Regtest

/-- Two pools take different wallets with one key. -/
def sharedKey : List Label :=
  [openPool, openPoolOf otherMint, setPoolConfig zkbtc (toLe 32 80) (toLe 32 90),
    setPoolConfig otherMint (toLe 32 81) (toLe 32 90)]

lemma run_sharedKey : ((exec (step env) (fun _ _ => true) .genesis sharedKey).any fun s =>
    s.records.poolConfigs pool |>.any fun cfg =>
      s.records.poolConfigs (.poolState otherMint) |>.any fun cfg' =>
        cfg.poolScript = cfg'.poolScript) = true := by
  decide +kernel

lemma run_oneKey : (exec (step env) (fun _ _ => true) .genesis (sharedKey.take 3)).isSome = true := by
  decide +kernel

end Regtest

open Regtest in
/-- **Two pools, one script**: each pool names its own wallet, and both name one key. -/
theorem scripts_not_exclusive : ∃ (tr : List (Step State Label)) (s : State),
    Reaches (step env) (fun _ _ => True) .genesis tr s ∧ ¬ ExclusiveScripts s.records := by
  obtain ⟨s, hs, hbad⟩ := (Option.any_eq_true _ _).mp run_sharedKey
  obtain ⟨cfg, hcfg, hbad⟩ := (Option.any_eq_true _ _).mp hbad
  obtain ⟨cfg', hcfg', hbad⟩ := (Option.any_eq_true _ _).mp hbad
  obtain ⟨tr, -, hrun⟩ := reaches_of_exec (fun _ _ _ => trivial) hs
  refine ⟨tr, s, hrun, fun hex => ?_⟩
  have hpools := hex _ _ _ _ hcfg hcfg' (of_decide_eq_true hbad)
  exact absurd hpools (by decide)

open Regtest in
/-- One pool with one key. -/
theorem exclusive_scripts_iff_oneKey : ∃ (tr : List (Step State Label)) (s : State),
    tr.map Step.call = sharedKey.take 3 ∧
      (ExclusiveScripts s.records ↔ KeysOfOneWallet (custodies env tr)) := by
  obtain ⟨s, hs⟩ := Option.isSome_iff_exists.mp run_oneKey
  obtain ⟨tr, hcalls, hrun⟩ := reaches_of_exec (fun _ _ _ => trivial) hs
  exact ⟨tr, s, hcalls, exclusive_scripts_iff hrun⟩

end Utxopia.Pool
