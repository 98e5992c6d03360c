import Utxopia.Pool.DepositCap

/-!
The limits of a token after registration.

Registration asks that a deposit is possible and bounded by the cap. An update writes the limits it
is given one by one and asks nothing of the whole.
-/

namespace Utxopia.Pool

open Utxopia.ByteString Utxopia.Check Utxopia.Run Utxopia.Runtime

variable {E : Env} {s s' : State} {l : Label} {r r' : Records} {c : Call}

def LimitsInOrder (r : Records) : Prop := ∀ k tc, r.tokenConfigs k = some tc → tc.InOrder

/-! ### What an update is given -/

/-- The next optional number of an update, or the old one, and where the data goes on. -/
def optionalOr (data : List UInt8) (flags bit off old : ℕ) : ℕ × ℕ :=
  if flags.testBit bit then (u64At data off, off + 8) else (old, off)

/-- The limits of a token with those replaced that the data gives. -/
def TokenConfig.withLimits (tc : TokenConfig) (data : List UInt8) : TokenConfig :=
  let flags := byteAt data 0
  let minDeposit := optionalOr data flags 1 1 tc.minDeposit
  let maxDeposit := optionalOr data flags 2 minDeposit.2 tc.maxDeposit
  let depositCap := optionalOr data flags 3 maxDeposit.2 tc.depositCap
  { tc with minDeposit := minDeposit.1, maxDeposit := maxDeposit.1, depositCap := depositCap.1 }

/-- An update gives limits that are in order together with those it does not give. -/
def UpdatesInOrder (E : Env) (s : State) (l : Label) : Prop :=
  ∀ c c' k tc, l = .call c → c.decode E = some (.UpdateTokenConfig, c') →
    c'.configAt 2 = some k → s.records.tokenConfigs k = some tc → (tc.withLimits c'.data).InOrder

lemma optionalU64_ok {data : List UInt8} {flags bit off old : ℕ} {x : ℕ × ℕ}
    (h : optionalU64 data flags bit off old = .ok x) : x = optionalOr data flags bit off old := by
  unfold optionalU64 at h
  unfold optionalOr
  split_ifs at h ⊢
  · simp only [bind_eq_ok, require_eq_ok, exists_const, pure_eq_ok] at h
    exact h.2.symm
  · exact (Except.ok.inj h).symm

lemma processUpdateTokenConfig_limits (h : processUpdateTokenConfig E s c = .ok s') :
    ∃ k tc tc', c.configAt 2 = some k ∧ s.records.tokenConfigs k = some tc ∧
      (tc'.InOrder ↔ (tc.withLimits c.data).InOrder) ∧
      s'.records = s.records.putTokenConfig k tc' := by
  simp only [processUpdateTokenConfig, bind_eq_ok, exists_unit, require_eq_ok, pure_eq_ok,
    Prod.exists] at h
  obtain ⟨-, -, authority, -, pool, -, tokenConfig, hacc, -, -, hpda, -, p, -, -, -, tc, htc, h⟩ := h
  obtain ⟨min, off₁, hmin, max, off₂, hmax, cap, off₃, hcap, enabled, off₄, -, -, rfl⟩ := h
  obtain ⟨p₀, tc₀, hat⟩ := validateTokenConfigPda_ok hpda
  obtain rfl := readTokenConfig_of_records hat.config_key hat.config htc
  have hmin' := optionalU64_ok hmin
  have hmax' := optionalU64_ok hmax
  have hcap' := optionalU64_ok hcap
  refine ⟨(.poolState p₀.zkbtcMint, tc.mint), tc, _, configAt_of_account hacc hat.config_key,
    hat.config, ?_, by
      rw [hat.config_key]
      exact records_putTokenConfig (k := (.poolState p₀.zkbtcMint, tc.mint)) hat.config _⟩
  simp only [TokenConfig.InOrder, TokenConfig.withLimits, ← hmin', ← hmax', ← hcap']

/-! ### Steps -/

lemma LimitsInOrder.congr (h : LimitsInOrder r) (hc : r'.tokenConfigs = r.tokenConfigs) :
    LimitsInOrder r' := by
  intro k tc htc
  rw [hc] at htc
  exact h k tc htc

lemma LimitsInOrder.update {k : Addr × Addr} {tc : TokenConfig} (h : LimitsInOrder r)
    (hc : r'.tokenConfigs = Function.update r.tokenConfigs k (some tc)) (hin : tc.InOrder) :
    LimitsInOrder r' := by
  intro k' tc' htc'
  rw [hc] at htc'
  rcases update_eq_some.mp htc' with ⟨-, rfl⟩ | ⟨-, hold⟩
  · exact hin
  · exact h k' tc' hold

/-- The effect of an update on the limits. -/
lemma update_limits {c c' : Call} (hstep : step E s (.call c) = .ok s')
    (hd : c.decode E = some (.UpdateTokenConfig, c')) :
    ∃ k tc tc', c'.configAt 2 = some k ∧ s.records.tokenConfigs k = some tc ∧
      (tc'.InOrder ↔ (tc.withLimits c'.data).InOrder) ∧
      s'.records = s.records.putTokenConfig k tc' := by
  simp only [step, bind_eq_ok, exists_unit, require_eq_ok, processInstruction, hd] at hstep
  exact processUpdateTokenConfig_limits hstep.2

/-- **A step keeps the limits in order**, unless it is an update that gives others. -/
theorem step_limitsInOrder (hstep : step E s l = .ok s') (h : LimitsInOrder s.records)
    (hup : UpdatesInOrder E s l) : LimitsInOrder s'.records := by
  have heffect := step_effect hstep
  generalize hr : s'.records = r' at heffect
  cases heffect with
  | reconfigured hset =>
    obtain ⟨m, p, p', -, -, rfl⟩ := hset
    exact h.congr rfl
  | registered hreg => exact h.update rfl hreg.limits
  | @relimited c k tc tc' config same c' decoded =>
    obtain ⟨k₁, tc₁, tc₂, hk, htc, hlimits, hrec⟩ := update_limits hstep decoded
    rw [← hr, hrec]
    exact h.update rfl (hlimits.mpr (hup c c' k₁ tc₁ rfl decoded hk htc))
  | claimed config =>
    have hin := h _ _ config
    exact h.update rfl hin
  | shielded keys hs =>
    have hin := h _ _ hs.config
    exact h.update (putTotals_tokenConfigs ..).1 hin
  | transacted decoded planned sound burnable outputs => cases outputs <;> exact h.congr rfl
  | unshielded decoded planned hu =>
    have hin := h _ _ hu.sound.at_token.config
    exact h.update (putTotals_tokenConfigs ..).1 hin
  | redeemed decoded planned hre =>
    have hin := h _ _ hre.sound.config
    exact h.update rfl hin
  | cancelled decoded hcan named token =>
    have hin := h _ _ hcan.config
    exact h.update rfl hin
  | completed decoded hcom =>
    have hin := h _ _ hcom.config
    exact h.update (complete_tokens ..).1 hin
  | deposited decoded kind input credited hdep =>
    have hin := h _ _ hdep.config
    exact h.update rfl hin
  | _ => exact h.congr rfl

/-- After an update that gives limits out of order they are out of order. -/
theorem updatesInOrder_of_limits (hstep : step E s l = .ok s') (h : LimitsInOrder s'.records) :
    UpdatesInOrder E s l := by
  rintro c c' k tc rfl hd hk htc
  obtain ⟨k₁, tc₁, tc', hk₁, htc₁, hlimits, hrec⟩ := update_limits hstep hd
  obtain rfl := Option.some_inj.mp (hk.symm.trans hk₁)
  obtain rfl := Option.some_inj.mp (htc.symm.trans htc₁)
  refine hlimits.mp (h k tc' ?_)
  rw [hrec]
  exact Function.update_self ..

/-! ### Runs -/

/-- **Limits stay in order exactly if updates keep them so**: in any run every token of every state
has `0 < min_deposit ≤ max_deposit ≤ deposit_cap` if and only if every update gave limits that do,
together with those it left alone. -/
theorem limitsInOrder_iff {tr : List (Step State Label)}
    (run : Reaches (step E) (fun _ _ => True) .genesis tr s) :
    (∀ st ∈ tr, LimitsInOrder st.post.records) ↔ ∀ st ∈ tr, UpdatesInOrder E st.pre st.call := by
  constructor
  · exact fun h st hst => updatesInOrder_of_limits (run.step_of_mem hst) (h st hst)
  · intro h
    have hkept : Reaches (step E) (UpdatesInOrder E) .genesis tr s :=
      run.strengthen fun st hst _ => h st hst
    refine (hkept.history (I := fun tr s => LimitsInOrder s.records ∧
      ∀ st ∈ tr, LimitsInOrder st.post.records)
      ⟨fun k tc htc => absurd htc (by simp), by simp⟩ ?_).2
    intro tr s l s' _ hI hg hstep
    have hs' := step_limitsInOrder hstep hI.1 hg
    refine ⟨hs', fun st hst => ?_⟩
    rcases List.mem_append.mp hst with hst | hst
    · exact hI.2 st hst
    · rw [List.mem_singleton.mp hst]
      exact hs'

namespace Regtest

/-- Deposits from 1 to 10, up to a cap of 100. -/
def registerSmall : Label :=
  call 8 [signer admin, readonly pool, readonly zkbtc, writable (.tokenConfig pool zkbtc),
    readonly vault, system] (leBytes 8 0 ++ leBytes 8 1 ++ leBytes 8 10 ++ leBytes 8 100) [] 0

/-- Change the smallest deposit. -/
def setMinDeposit (v : ℕ) : Label :=
  call 9 [signer admin, readonly pool, writable (.tokenConfig pool zkbtc)] (2 :: leBytes 8 v) [] 0

def limited (v : ℕ) : List Label :=
  [openPool, setPoolConfig zkbtc wallet walletKey, openVault, registerSmall, setMinDeposit v]

lemma run_disordered : ((exec (step env) (fun _ _ => true) .genesis (limited 11)).any fun s =>
    (s.records.tokenConfigs (pool, zkbtc)).any fun tc => ¬ tc.InOrder) = true := by
  decide +kernel

lemma run_ordered : (exec (step env) (fun _ _ => true) .genesis (limited 5)).isSome = true := by
  decide +kernel

end Regtest

open Regtest in
/-- **Limits out of order**: the smallest deposit is raised above the largest. -/
theorem limits_disordered : ∃ (tr : List (Step State Label)) (s : State),
    Reaches (step env) (fun _ _ => True) .genesis tr s ∧ tr.map Step.call = limited 11 ∧
      ¬ LimitsInOrder s.records := by
  obtain ⟨s, hs, hbad⟩ := (Option.any_eq_true _ _).mp run_disordered
  obtain ⟨tc, htc, hout⟩ := (Option.any_eq_true _ _).mp hbad
  obtain ⟨tr, hcalls, hrun⟩ := reaches_of_exec (fun _ _ _ => trivial : ∀ _ _, _ → True) hs
  exact ⟨tr, s, hrun, hcalls, fun hin => of_decide_eq_true hout (hin _ _ htc)⟩

open Regtest in
/-- The smallest deposit is raised, but not above the largest. -/
theorem limitsInOrder_iff_raised : ∃ tr : List (Step State Label), tr.map Step.call = limited 5 ∧
    ((∀ st ∈ tr, LimitsInOrder st.post.records) ↔
      ∀ st ∈ tr, UpdatesInOrder env st.pre st.call) := by
  obtain ⟨s, hs⟩ := Option.isSome_iff_exists.mp run_ordered
  obtain ⟨tr, hcalls, hrun⟩ := reaches_of_exec (fun _ _ _ => trivial : ∀ _ _, _ → True) hs
  exact ⟨tr, hcalls, limitsInOrder_iff hrun⟩

end Utxopia.Pool
