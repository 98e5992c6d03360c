import Utxopia.Pool.Timelock

/-!
Who decides what about a pool.

A pool has an authority and an auditor. A call lists its signers, and no instruction takes a change
of the settings, of the auditing, of a token or of the wallet from anybody else. What was set up
with the pool for good no instruction changes at all.
-/

namespace Utxopia.Pool

open Utxopia.ByteString Utxopia.Check Utxopia.Run Utxopia.Runtime

variable {E : Env} {s s' : State} {l : Label} {r r' : Records} {m mint : Addr} {p p' : PoolState}
  {tc tc' : TokenConfig} {c c' : Call} {i : Instruction}

/-- The keys that signed. -/
def Call.signers (c : Call) : List Addr := (c.accounts.filter AccountInfo.isSigner).map AccountInfo.key

def Label.signers : Label → List Addr
  | .call c => c.signers
  | _ => []

namespace PoolState

/-- What a pool is for good. -/
def charter (p : PoolState) : Addr × Addr × Addr × Addr × Bool × ℕ :=
  (p.authority, p.zkbtcMint, p.poolVault, p.depositVault, p.permissioned, p.withdrawalFeeBps)

/-- What the authority sets. -/
def settings (p : PoolState) : Bool × Limits × Limits × ℤ × ℕ :=
  (p.paused, p.limits, p.pendingLimits, p.pendingExecuteAfter, p.depositFeeBps)

/-- What the auditor sets. -/
def auditing (p : PoolState) : Hash × Bool := (p.auditorViewingPubkey, p.auditorFrozen)

/-- The pool without its running totals. -/
def steady (p : PoolState) :
    (Addr × Addr × Addr × Addr × Bool × ℕ) × (Bool × Limits × Limits × ℤ × ℕ) × (Hash × Bool) × Hash :=
  (p.charter, p.settings, p.auditing, p.auditor)

end PoolState

/-- What the authority sets about a token. -/
def TokenConfig.settings (tc : TokenConfig) : Bool × ℕ × ℕ × ℕ :=
  (tc.enabled, tc.minDeposit, tc.maxDeposit, tc.depositCap)

/-! ### Signatures -/

lemma mem_signers {j : ℕ} {info : AccountInfo} (hacc : c.account j = .ok info)
    (hsigned : validateSigner info = .ok ()) : info.key ∈ c.signers := by
  rw [validateSigner, require_eq_ok] at hsigned
  exact List.mem_map.mpr ⟨info, List.mem_filter.mpr ⟨List.mem_of_getElem? (account_ok.mp hacc), hsigned⟩,
    rfl⟩

lemma accounts_decode (hd : c.decode E = some (i, c')) : c'.accounts = c.accounts := by
  unfold Call.decode at hd
  split_ifs at hd
  · exact (Prod.mk.inj (Option.some_inj.mp hd)).2 ▸ rfl
  · split at hd
    · obtain ⟨_, -, hi⟩ := Option.map_eq_some_iff.mp hd
      exact (Prod.mk.inj hi).2 ▸ rfl
    · exact absurd hd (by simp)

lemma signers_decode (hd : c.decode E = some (i, c')) : c'.signers = c.signers := by
  rw [Call.signers, Call.signers, accounts_decode hd]

/-! ### The pool -/

/-- A step may do this to a pool. -/
structure Lawful (E : Env) (signers : List Addr) (p p' : PoolState) : Prop where
  charter : p'.charter = p.charter
  settings : p'.settings = p.settings ∨ p.authority ∈ signers
  auditor : p'.auditor = p.auditor ∨ p.authority ∈ signers ∧ p.permissioned = true
  auditing : p'.auditing = p.auditing ∨ p.authority ∈ signers ∧ p.permissioned = true ∨
    ∃ a ∈ signers, E.bytesOf a = p.auditor

lemma Lawful.refl (E : Env) (signers : List Addr) (p : PoolState) : Lawful E signers p p :=
  ⟨rfl, .inl rfl, .inl rfl, .inl rfl⟩

lemma Lawful.of_steady {signers : List Addr} (h : p'.steady = p.steady) : Lawful E signers p p' := by
  simp only [PoolState.steady, Prod.mk.injEq] at h
  obtain ⟨hcharter, hsettings, hauditing, hauditor⟩ := h
  exact ⟨hcharter, .inl hsettings, .inl hauditor, .inl hauditing⟩

/-- Who holds a role signed. -/
lemma updatePool_signed {role : PoolRole} {f : PoolState → Except ProgramError PoolState}
    (h : updatePool E s c role f = .ok s') : ∃ m p p', s.records.pools m = some p ∧ f p = .ok p' ∧
      s'.records = s.records.putPool m p' ∧ ∃ a ∈ c.signers, role.holds E p a = true := by
  simp only [updatePool, readPool, bind_eq_ok, exists_unit, require_eq_ok, pure_eq_ok, orElse_eq_ok,
    validateProgramOwner_ok] at h
  obtain ⟨-, pool, -, signer, hsigner, hsigned, ho, -, p, hp, hrole, p', hp', rfl⟩ := h
  obtain ⟨m, hk, hrec⟩ := pool_of_owned ho hp
  exact ⟨m, p, p', hrec, hp', by rw [hk, records_putPool hrec], _, mem_signers hsigner hsigned, hrole⟩

/-- **Only who may change a setting changes it**, one function at a time. -/
theorem run_lawful (hi : i.setsPool = true) (h : i.run E s c = .ok s') :
    ∃ m p p', s.records.pools m = some p ∧ s'.records = s.records.putPool m p' ∧
      Lawful E c.signers p p' := by
  have hauthority : ∀ {p : PoolState}, (∃ a ∈ c.signers, PoolRole.Authority.holds E p a = true) →
      p.authority ∈ c.signers := by
    rintro p ⟨a, ha, hholds⟩
    obtain rfl : a = p.authority := of_decide_eq_true hholds
    exact ha
  have hauditor : ∀ {p : PoolState}, (∃ a ∈ c.signers, PoolRole.Auditor.holds E p a = true) →
      ∃ a ∈ c.signers, E.bytesOf a = p.auditor :=
    fun ⟨a, ha, hholds⟩ => ⟨a, ha, of_decide_eq_true hholds⟩
  cases i with
  | SetPaused =>
    obtain ⟨m, p, p', hp, hf, hrec, hsigned⟩ := updatePool_signed h
    simp only [bind_eq_ok, exists_unit, pure_eq_ok] at hf
    obtain ⟨-, rfl⟩ := hf
    exact ⟨m, p, _, hp, hrec, rfl, .inr (hauthority hsigned), .inl rfl, .inl rfl⟩
  | ProposePoolUpdate =>
    obtain ⟨m, p, p', hp, hf, hrec, hsigned⟩ := updatePool_signed h
    simp only [bind_eq_ok, exists_unit, require_eq_ok, pure_eq_ok] at hf
    obtain ⟨-, -, -, -, rfl⟩ := hf
    exact ⟨m, p, _, hp, hrec, rfl, .inr (hauthority hsigned), .inl rfl, .inl rfl⟩
  | ExecutePoolUpdate =>
    obtain ⟨m, p, p', hp, hf, hrec, hsigned⟩ := updatePool_signed h
    simp only [bind_eq_ok, exists_unit, require_eq_ok, pure_eq_ok] at hf
    obtain ⟨-, -, rfl⟩ := hf
    exact ⟨m, p, _, hp, hrec, rfl, .inr (hauthority hsigned), .inl rfl, .inl rfl⟩
  | CancelPoolUpdate =>
    obtain ⟨m, p, p', hp, hf, hrec, hsigned⟩ := updatePool_signed h
    simp only [bind_eq_ok, exists_unit, pure_eq_ok] at hf
    obtain ⟨-, rfl⟩ := hf
    exact ⟨m, p, _, hp, hrec, rfl, .inr (hauthority hsigned), .inl rfl, .inl rfl⟩
  | SetDepositFeeBps =>
    obtain ⟨m, p, p', hp, hf, hrec, hsigned⟩ := updatePool_signed h
    simp only [bind_eq_ok, exists_unit, require_eq_ok, pure_eq_ok] at hf
    obtain ⟨-, -, rfl⟩ := hf
    exact ⟨m, p, _, hp, hrec, rfl, .inr (hauthority hsigned), .inl rfl, .inl rfl⟩
  | SetAuditorFrozen =>
    obtain ⟨m, p, p', hp, hf, hrec, hsigned⟩ := updatePool_signed h
    simp only [bind_eq_ok, exists_unit, pure_eq_ok] at hf
    obtain ⟨-, rfl⟩ := hf
    exact ⟨m, p, _, hp, hrec, rfl, .inl rfl, .inl rfl, .inr (.inr (hauditor hsigned))⟩
  | SetAuditorViewingPubkey =>
    obtain ⟨m, p, p', hp, hf, hrec, hsigned⟩ := updatePool_signed h
    simp only [bind_eq_ok, exists_unit, pure_eq_ok] at hf
    obtain ⟨-, rfl⟩ := hf
    exact ⟨m, p, _, hp, hrec, rfl, .inl rfl, .inl rfl, .inr (.inr (hauditor hsigned))⟩
  | RotateAuditor =>
    obtain ⟨m, p, p', hp, hf, hrec, hsigned⟩ := updatePool_signed h
    simp only [bind_eq_ok, exists_unit, require_eq_ok, pure_eq_ok] at hf
    obtain ⟨-, -, hpermissioned, rfl⟩ := hf
    exact ⟨m, p, _, hp, hrec, rfl, .inl rfl, .inr ⟨hauthority hsigned, hpermissioned⟩,
      .inr (.inl ⟨hauthority hsigned, hpermissioned⟩)⟩
  | _ => exact absurd hi (by decide)

/-- Every pool keeps all but its running totals. -/
def SteadyPools (r r' : Records) : Prop := SameFeature PoolState.steady r.pools r'.pools

lemma SteadyPools.putTotals {now : ℤ} (hp : r.pools m = some p) :
    SteadyPools r (r.putTotals m p tc now) := by
  unfold Records.putTotals
  split_ifs
  · exact .update hp rfl rfl
  · exact .of_eq rfl

lemma SteadyPools.burn (hp : r.pools m = some p) (tree : ℕ) (nfs : List Hash)
    (accounting : NullifierAccounting) : SteadyPools r (r.burn m p tree nfs accounting) :=
  .update hp rfl (by cases accounting <;> rfl)

/-- The other instructions keep running totals only. -/
theorem Effect.steady (h : Effect E s l r')
    (hset : ∀ c i c', l = .call c → c.decode E = some (i, c') → i.setsPool = false) :
    SteadyPools s.records r' ∨ OneNew (fun m p => p.New m) s.records.pools r'.pools := by
  cases h with
  | @reconfigured c c' i r' h decoded setting =>
    exact absurd setting (by rw [hset c i c' rfl decoded]; exact Bool.false_ne_true)
  | @initialized c m p fresh new => exact .inr ⟨m, p, fresh, new, rfl⟩
  | shielded keys h => exact .inl (SteadyPools.putTotals h.pool)
  | @transacted c c' plan m p t r' decoded planned sound burnable outputs =>
    refine .inl (SameFeature.trans (SteadyPools.burn sound.at_tree.pool plan.sourceTreeIndex
      plan.pre.nullifiers plan.accounting) ?_)
    cases outputs <;> exact .of_eq rfl
  | unshielded decoded planned h =>
    exact .inl (SameFeature.trans (SteadyPools.burn h.sound.at_tree.pool _ _ .ApplyNow)
      (SteadyPools.putTotals (Function.update_self ..)))
  | redeemed decoded planned h =>
    exact .inl (SameFeature.trans (SteadyPools.burn h.sound.at_tree.pool _ _ .ApplyNow)
      (.update (Function.update_self ..) rfl rfl))
  | marked decoded h => exact .inl (.update h.pool rfl rfl)
  | cancelled decoded h => exact .inl (.update h.pool rfl rfl)
  | @completed c c' m p req tc us tx txid leaf T burn revenue now decoded h =>
    have hpools := complete_pools s.records m p req tc us txid c'.changeOutput leaf T burn revenue now
    exact .inl (.update h.pool hpools (by cases c'.changeOutput <;> rfl))
  | deposited decoded kind input credited h => exact .inl (.update h.pool rfl rfl)
  | merged decoded at_tree => exact .inl (.update at_tree.pool rfl (by split_ifs <;> rfl))
  | rotated decoded mint pool => exact .inl (.update pool rfl rfl)
  | _ => exact .inl (.of_eq rfl)

/-- **One step**: a pool stays, and the step is lawful. -/
theorem step_lawful (hstep : step E s l = .ok s') (hp : s.records.pools m = some p) :
    ∃ p', s'.records.pools m = some p' ∧ Lawful E l.signers p p' := by
  by_cases hset : ∃ c i c', l = .call c ∧ c.decode E = some (i, c') ∧ i.setsPool = true
  · obtain ⟨c, i, c', rfl, hd, hi⟩ := hset
    obtain ⟨m₁, p₁, p', hp₁, hrec, hlawful⟩ := run_lawful hi (run_of_step hstep hd)
    rw [signers_decode hd] at hlawful
    rw [hrec]
    rcases eq_or_ne m m₁ with rfl | hne
    · obtain rfl : p₁ = p := Option.some_inj.mp (hp₁.symm.trans hp)
      exact ⟨p', Function.update_self .., hlawful⟩
    · exact ⟨p, (Function.update_of_ne hne ..).trans hp, .refl ..⟩
  · have hnot : ∀ c i c', l = .call c → c.decode E = some (i, c') → i.setsPool = false :=
      fun c i c' hl hd => Bool.eq_false_iff.mpr fun hi => hset ⟨c, i, c', hl, hd, hi⟩
    rcases (step_effect hstep).steady hnot with hsame | ⟨m₁, p₁, hnone, -, hpools⟩
    · obtain ⟨p', hp', hsteady⟩ := hsame.keeps hp
      exact ⟨p', hp', .of_steady hsteady⟩
    · refine ⟨p, ?_, .refl ..⟩
      rw [hpools, Function.update_of_ne, hp]
      rintro rfl
      exact absurd (hnone.symm.trans hp) (by simp)

/-- What a run did to a pool that it found. -/
structure Upheld (E : Env) (tr : List (Step State Label)) (p p' : PoolState) : Prop where
  charter : p'.charter = p.charter
  settings : p'.settings = p.settings ∨ ∃ st ∈ tr, p.authority ∈ st.call.signers
  auditor : p'.auditor = p.auditor ∨
    p.permissioned = true ∧ ∃ st ∈ tr, p.authority ∈ st.call.signers
  auditing : p'.auditing = p.auditing ∨
    (p.permissioned = true ∧ ∃ st ∈ tr, p.authority ∈ st.call.signers) ∨
    ∃ st ∈ tr, ∃ a ∈ st.call.signers, E.bytesOf a = p.auditor

lemma Upheld.step {tr : List (Step State Label)} {q : PoolState} (st : Step State Label)
    (h : Upheld E tr p p') (hlawful : Lawful E st.call.signers p' q) : Upheld E (tr ++ [st]) p q := by
  have hcharter := h.charter
  simp only [PoolState.charter, Prod.mk.injEq] at hcharter
  obtain ⟨hauthority, -, -, -, hpermissioned, -⟩ := hcharter
  have hlast : st ∈ tr ++ [st] := List.mem_append_right _ (List.mem_singleton_self st)
  have hsigned : p'.authority ∈ st.call.signers → ∃ x ∈ tr ++ [st], p.authority ∈ x.call.signers :=
    fun hmem => ⟨st, hlast, hauthority ▸ hmem⟩
  have hearlier : ∀ {P : Step State Label → Prop}, (∃ x ∈ tr, P x) → ∃ x ∈ tr ++ [st], P x :=
    fun ⟨x, hx, hP⟩ => ⟨x, List.mem_append_left _ hx, hP⟩
  have hauditor : p'.auditor = p.auditor ∨
      p.permissioned = true ∧ ∃ x ∈ tr ++ [st], p.authority ∈ x.call.signers :=
    h.auditor.imp_right fun hold => ⟨hold.1, hearlier hold.2⟩
  refine ⟨hlawful.charter.trans h.charter, ?_, ?_, ?_⟩
  · rcases hlawful.settings with hsame | hmem
    · exact h.settings.imp hsame.trans hearlier
    · exact .inr (hsigned hmem)
  · rcases hlawful.auditor with hsame | ⟨hmem, hperm⟩
    · exact hauditor.imp_left hsame.trans
    · exact .inr ⟨hpermissioned ▸ hperm, hsigned hmem⟩
  · rcases hlawful.auditing with hsame | ⟨hmem, hperm⟩ | ⟨a, ha, hbytes⟩
    · exact h.auditing.imp hsame.trans
        (Or.imp (fun hold => ⟨hold.1, hearlier hold.2⟩) hearlier)
    · exact .inr (.inl ⟨hpermissioned ▸ hperm, hsigned hmem⟩)
    · -- the auditor is still the one of before, or the authority named another
      rcases hauditor with hsame | hother
      · exact .inr (.inr ⟨st, hlast, a, ha, hbytes.trans hsame⟩)
      · exact .inr (.inl hother)

/-- **A pool answers to its authority and its auditor**: whatever is called in a run, in any order, a pool
is never removed and keeps its authority, its mint, its vaults, its kind and its withdrawal fee. Its
pause, its limits, proposals and deposit fee change only in a run in which its authority signed
a call, another auditor is named only so, and only for a permissioned pool; the freeze and the viewing
key change only so or in a run in which the auditor signed. -/
theorem pool_upheld {guard : State → Label → Prop} {tr : List (Step State Label)}
    (run : Reaches (step E) guard s tr s') (hp : s.records.pools m = some p) :
    ∃ p', s'.records.pools m = some p' ∧ Upheld E tr p p' := by
  refine run.history (I := fun tr s' => ∃ p', s'.records.pools m = some p' ∧ Upheld E tr p p')
    ⟨p, hp, rfl, .inl rfl, .inl rfl, .inl rfl⟩ ?_
  rintro tr s₁ l s₂ - ⟨p₁, hp₁, hup⟩ - hstep
  obtain ⟨p₂, hp₂, hlawful⟩ := step_lawful hstep hp₁
  exact ⟨p₂, hp₂, hup.step ⟨s₁, l, s₂⟩ hlawful⟩

/-! ### The tokens of a pool -/

/-- A step may do this to a token of a pool with this authority. -/
structure TokenLawful (authority : Addr) (signers : List Addr) (tc tc' : TokenConfig) : Prop where
  fixed : tc'.fixed = tc.fixed
  settings : tc'.settings = tc.settings ∨ authority ∈ signers
  fees : tc.accumulatedFees ≤ tc'.accumulatedFees ∨ authority ∈ signers

lemma TokenLawful.refl (authority : Addr) (signers : List Addr) (tc : TokenConfig) :
    TokenLawful authority signers tc tc := ⟨rfl, .inl rfl, .inl le_rfl⟩

/-- One token of a pool was rewritten, and the pool's authority signed. -/
def SignedRewrite (signers : List Addr) (r r' : Records) : Prop :=
  ∃ m p tc tc', r.pools m = some p ∧ p.authority ∈ signers ∧
    r.tokenConfigs (.poolState m, tc.mint) = some tc ∧ tc'.fixed = tc.fixed ∧
    r'.tokenConfigs = Function.update r.tokenConfigs (.poolState m, tc.mint) (some tc')

lemma processUpdateTokenConfig_signed (h : processUpdateTokenConfig E s c = .ok s') :
    SignedRewrite c.signers s.records s'.records := by
  simp only [processUpdateTokenConfig, bind_eq_ok, exists_unit, require_eq_ok, pure_eq_ok,
    Prod.exists] at h
  obtain ⟨-, -, authority, hacc, pool, -, tokenConfig, -, hsigned, -, hpda, -, p, hp, hauth, -, h⟩ := h
  obtain ⟨tc, htc, _, _, -, _, _, -, _, _, -, _, _, -, -, rfl⟩ := h
  obtain ⟨p₀, tc₀, hat⟩ := validateTokenConfigPda_ok hpda
  obtain rfl := readPool_of_records hat.pool_key hat.pool hp
  obtain rfl := readTokenConfig_of_records hat.config_key hat.config htc
  rw [hat.config_key]
  refine ⟨p.zkbtcMint, p, tc, _, hat.pool, hauth ▸ mem_signers hacc hsigned, hat.config, ?_,
    congrArg Records.tokenConfigs
      (records_putTokenConfig (k := (.poolState p.zkbtcMint, tc.mint)) hat.config _)⟩
  rfl

lemma processClaimFees_signed (h : processClaimFees E s c = .ok s') :
    SignedRewrite c.signers s.records s'.records := by
  simp only [processClaimFees, bind_eq_ok, exists_unit, require_eq_ok, pure_eq_ok] at h
  obtain ⟨-, -, authority, hacc, pool, -, tokenConfig, -, vault, -, admin, -, tokenProgram, -, h⟩ := h
  obtain ⟨hsigned, -, -, -, program, -, -, -, -, hpda, -, p, hp, hauth, tc, htc, h⟩ := h
  obtain ⟨-, -, s₁, hs₁, tc', htc', rfl⟩ := h
  obtain ⟨p₀, tc₀, hat⟩ := validateTokenConfigPda_ok hpda
  obtain rfl := readPool_of_records hat.pool_key hat.pool hp
  obtain rfl := readTokenConfig_of_records hat.config_key hat.config htc
  obtain ⟨-, T, -, -, rfl, -⟩ := transferToken_ok hs₁
  obtain ⟨-, rfl⟩ := TokenConfig.subFees_ok htc'
  rw [hat.config_key]
  refine ⟨p.zkbtcMint, p, tc, _, hat.pool, hauth ▸ mem_signers hacc hsigned, hat.config, ?_,
    congrArg Records.tokenConfigs (records_putTokenConfig (s := s.setTokens T)
      (k := (.poolState p.zkbtcMint, tc.mint)) hat.config _)⟩
  rfl

/-- The instructions that change what the authority decides about a token. -/
def Instruction.setsToken : Instruction → Bool
  | .UpdateTokenConfig | .ClaimFees => true
  | _ => false

/-- Tokens stay, with the settings that they have, and fees only come in. -/
def TokensKept (r r' : Records) : Prop := ∀ k tc, r.tokenConfigs k = some tc →
  ∃ tc', r'.tokenConfigs k = some tc' ∧ tc'.fixed = tc.fixed ∧ tc'.settings = tc.settings ∧
    tc.accumulatedFees ≤ tc'.accumulatedFees

lemma TokensKept.of_eq (h : r'.tokenConfigs = r.tokenConfigs) : TokensKept r r' :=
  fun k tc htc => ⟨tc, by rw [h]; exact htc, rfl, rfl, le_rfl⟩

lemma TokensKept.update {k : Addr × Addr} (htc : r.tokenConfigs k = some tc)
    (h : r'.tokenConfigs = Function.update r.tokenConfigs k (some tc')) (hfixed : tc'.fixed = tc.fixed)
    (hset : tc'.settings = tc.settings) (hfees : tc.accumulatedFees ≤ tc'.accumulatedFees) :
    TokensKept r r' := by
  intro k₁ tc₁ htc₁
  rw [h]
  rcases eq_or_ne k₁ k with rfl | hne
  · obtain rfl : tc = tc₁ := Option.some_inj.mp (htc.symm.trans htc₁)
    exact ⟨tc', Function.update_self .., hfixed, hset, hfees⟩
  · exact ⟨tc₁, (Function.update_of_ne hne ..).trans htc₁, rfl, rfl, le_rfl⟩

/-- The other instructions keep tokens so. -/
theorem Effect.tokensKept (h : Effect E s l r')
    (hset : ∀ c i c', l = .call c → c.decode E = some (i, c') → i.setsToken = false) :
    TokensKept s.records r' := by
  have hnot : ∀ {c i c'}, l = .call c → c.decode E = some (i, c') → i.setsToken = true → False :=
    fun hl hd hi => absurd hi (by rw [hset _ _ _ hl hd]; exact Bool.false_ne_true)
  cases h with
  | reconfigured h =>
    obtain ⟨m, p, p', -, -, rfl⟩ := h
    exact .of_eq rfl
  | @registered c pool mint tc h =>
    intro k tc₁ htc₁
    refine ⟨tc₁, (Function.update_of_ne ?_ ..).trans htc₁, rfl, rfl, le_rfl⟩
    rintro rfl
    exact absurd (h.fresh.symm.trans htc₁) (by simp)
  | relimited config same decoded => exact (hnot rfl decoded rfl).elim
  | claimed config covered paid decoded => exact (hnot rfl decoded rfl).elim
  | shielded keys h =>
    exact .update h.config (putTotals_tokenConfigs ..).1 rfl rfl (Nat.le_add_right ..)
  | transacted decoded planned sound burnable outputs => cases outputs <;> exact .of_eq rfl
  | unshielded decoded planned h =>
    exact .update h.sound.at_token.config (putTotals_tokenConfigs ..).1 rfl rfl (Nat.le_add_right ..)
  | redeemed decoded planned h => exact .update h.sound.config rfl rfl rfl (Nat.le_add_right ..)
  | cancelled decoded h => exact .update h.config rfl rfl rfl (Nat.le_add_right ..)
  | completed decoded h =>
    exact .update h.config (complete_tokens ..).1 rfl rfl (Nat.le_add_right ..)
  | deposited decoded kind input credited h => exact .update h.config rfl rfl rfl (Nat.le_add_right ..)
  | _ => exact .of_eq rfl

/-- **One step**: a token stays, and the step is lawful. -/
theorem step_tokenLawful (hstep : step E s l = .ok s') (hp : s.records.pools m = some p)
    (htc : s.records.tokenConfigs (.poolState m, mint) = some tc) :
    ∃ tc', s'.records.tokenConfigs (.poolState m, mint) = some tc' ∧
      TokenLawful p.authority l.signers tc tc' := by
  by_cases hset : ∃ c i c', l = .call c ∧ c.decode E = some (i, c') ∧ i.setsToken = true
  · obtain ⟨c, i, c', rfl, hd, hi⟩ := hset
    have hrewrite : SignedRewrite c.signers s.records s'.records := by
      have hrun := run_of_step hstep hd
      rw [← signers_decode hd]
      cases i with
      | UpdateTokenConfig => exact processUpdateTokenConfig_signed hrun
      | ClaimFees => exact processClaimFees_signed hrun
      | _ => exact absurd hi (by decide)
    obtain ⟨m₁, p₁, tc₁, tc', hp₁, hsigned, htc₁, hfixed, hcfg⟩ := hrewrite
    rw [hcfg]
    by_cases hk : ((.poolState m, mint) : Addr × Addr) = (.poolState m₁, tc₁.mint)
    · rw [← hk] at htc₁
      obtain rfl : m = m₁ := Addr.poolState.inj (Prod.mk.inj hk).1
      obtain rfl : tc₁ = tc := Option.some_inj.mp (htc₁.symm.trans htc)
      obtain rfl : p₁ = p := Option.some_inj.mp (hp₁.symm.trans hp)
      exact ⟨tc', by rw [← hk, Function.update_self], hfixed, .inr hsigned, .inr hsigned⟩
    · exact ⟨tc, (Function.update_of_ne hk ..).trans htc, .refl ..⟩
  · obtain ⟨tc', htc', hfixed, hsettings, hfees⟩ := (step_effect hstep).tokensKept
      (fun c i c' hl hd => Bool.eq_false_iff.mpr fun hi => hset ⟨c, i, c', hl, hd, hi⟩) _ _ htc
    exact ⟨tc', htc', hfixed, .inl hsettings, .inl hfees⟩

/-! ### The wallet of a pool -/

lemma processSetPoolConfig_signed (h : processSetPoolConfig E s c = .ok s') : ∃ pool m p,
    c.account 0 = .ok pool ∧ pool.key = .poolState m ∧ s.records.pools m = some p ∧
      p.authority ∈ c.signers := by
  simp only [processSetPoolConfig, readPool, bind_eq_ok, exists_unit, require_eq_ok, orElse_eq_ok,
    validateProgramOwner_ok] at h
  obtain ⟨-, pool, hpool, poolConfig, -, authority, hacc, sys, -, binding, -, h⟩ := h
  obtain ⟨hsigned, ho, -, -, -, p, hp, hauth, -⟩ := h
  obtain ⟨m, hk, hrec⟩ := pool_of_owned ho hp
  exact ⟨pool, m, p, hpool, hk, hrec, hauth ▸ mem_signers hacc hsigned⟩

/-- **One step**: a pool keeps its wallet and gets one only from its authority. -/
theorem step_wallet (hstep : step E s l = .ok s') (hp : s.records.pools m = some p) :
    s'.records.poolConfigs (.poolState m) = s.records.poolConfigs (.poolState m) ∨
      s.records.poolConfigs (.poolState m) = none ∧ p.authority ∈ l.signers := by
  cases hl : l.custody E with
  | none => exact .inl (congrFun ((step_effect hstep).configs hl).1 _)
  | some d =>
    obtain ⟨cfg, -, hnew, hrec⟩ := step_custody hl hstep
    rw [hrec]
    by_cases hd : Addr.poolState m = d.pool
    · refine .inr ⟨hd ▸ hnew.fresh, ?_⟩
      unfold Label.custody at hl
      split at hl
      · split at hl
        · rename_i c c' hdec
          obtain ⟨pool, m₁, p₁, hpool, hk, hp₁, hsigned⟩ :=
            processSetPoolConfig_signed (run_of_step hstep hdec)
          rw [hpool] at hl
          obtain rfl := Option.some_inj.mp hl
          obtain rfl : m = m₁ := Addr.poolState.inj (hd.trans hk)
          obtain rfl : p₁ = p := Option.some_inj.mp (hp₁.symm.trans hp)
          rw [signers_decode hdec] at hsigned
          exact hsigned
        · exact absurd hl (by simp)
      · exact absurd hl (by simp)
    · exact .inl (Function.update_of_ne hd ..)

/-! ### Tokens and wallet over a run -/

/-- What a run did to a token that it found in the pool. -/
structure TokenUpheld (authority : Addr) (tr : List (Step State Label)) (tc tc' : TokenConfig) :
    Prop where
  fixed : tc'.fixed = tc.fixed
  settings : tc'.settings = tc.settings ∨ ∃ st ∈ tr, authority ∈ st.call.signers
  fees : tc.accumulatedFees ≤ tc'.accumulatedFees ∨ ∃ st ∈ tr, authority ∈ st.call.signers

lemma TokenUpheld.step {authority : Addr} {tr : List (Step State Label)} {tc'' : TokenConfig}
    (st : Step State Label) (h : TokenUpheld authority tr tc tc')
    (hlawful : TokenLawful authority st.call.signers tc' tc'') :
    TokenUpheld authority (tr ++ [st]) tc tc'' := by
  have hlast : authority ∈ st.call.signers → ∃ x ∈ tr ++ [st], authority ∈ x.call.signers :=
    fun hmem => ⟨st, List.mem_append_right _ (List.mem_singleton_self st), hmem⟩
  have hearlier : (∃ x ∈ tr, authority ∈ x.call.signers) →
      ∃ x ∈ tr ++ [st], authority ∈ x.call.signers :=
    fun ⟨x, hx, hmem⟩ => ⟨x, List.mem_append_left _ hx, hmem⟩
  refine ⟨hlawful.fixed.trans h.fixed, ?_, ?_⟩
  · rcases hlawful.settings with hsame | hmem
    · exact h.settings.imp hsame.trans hearlier
    · exact .inr (hlast hmem)
  · rcases hlawful.fees with hle | hmem
    · exact h.fees.imp (·.trans hle) hearlier
    · exact .inr (hlast hmem)

/-- **So do its tokens and its wallet**: in every run a token of the pool stays with its mint, its id, its
vault and its service fee; whether it is enabled and its limits change, and its fees are taken out,
only in a run in which the pool's authority signed a call. A pool keeps the wallet that it has, and
gets its first only so. -/
theorem assets_upheld {guard : State → Label → Prop} {tr : List (Step State Label)}
    (run : Reaches (step E) guard s tr s') (hp : s.records.pools m = some p) :
    (∀ mint tc, s.records.tokenConfigs (.poolState m, mint) = some tc → ∃ tc',
      s'.records.tokenConfigs (.poolState m, mint) = some tc' ∧ TokenUpheld p.authority tr tc tc') ∧
    (s'.records.poolConfigs (.poolState m) = s.records.poolConfigs (.poolState m) ∨
      s.records.poolConfigs (.poolState m) = none ∧ ∃ st ∈ tr, p.authority ∈ st.call.signers) := by
  -- the authority stays the one of the start
  have hauth : ∀ {p' : PoolState}, p'.charter = p.charter → p'.authority = p.authority :=
    fun h => congrArg Prod.fst h
  constructor
  · intro mint tc htc
    have hboth := run.history (I := fun tr s' =>
      (∃ p', s'.records.pools m = some p' ∧ p'.charter = p.charter) ∧
        ∃ tc', s'.records.tokenConfigs (.poolState m, mint) = some tc' ∧
          TokenUpheld p.authority tr tc tc') ⟨⟨p, hp, rfl⟩, tc, htc, rfl, .inl rfl, .inl le_rfl⟩ ?_
    · exact hboth.2
    rintro tr s₁ l s₂ - ⟨⟨p₁, hp₁, hcharter⟩, tc₁, htc₁, hup⟩ - hstep
    obtain ⟨p₂, hp₂, hlawful⟩ := step_lawful hstep hp₁
    obtain ⟨tc₂, htc₂, htoken⟩ := step_tokenLawful hstep hp₁ htc₁
    rw [hauth hcharter] at htoken
    exact ⟨⟨p₂, hp₂, hlawful.charter.trans hcharter⟩, tc₂, htc₂, hup.step ⟨s₁, l, s₂⟩ htoken⟩
  · have hboth := run.history (I := fun tr s' =>
      (∃ p', s'.records.pools m = some p' ∧ p'.charter = p.charter) ∧
        (s'.records.poolConfigs (.poolState m) = s.records.poolConfigs (.poolState m) ∨
          s.records.poolConfigs (.poolState m) = none ∧ ∃ st ∈ tr, p.authority ∈ st.call.signers))
      ⟨⟨p, hp, rfl⟩, .inl rfl⟩ ?_
    · exact hboth.2
    rintro tr s₁ l s₂ - ⟨⟨p₁, hp₁, hcharter⟩, hup⟩ - hstep
    obtain ⟨p₂, hp₂, hlawful⟩ := step_lawful hstep hp₁
    refine ⟨⟨p₂, hp₂, hlawful.charter.trans hcharter⟩, ?_⟩
    rcases hup with hsame | ⟨hnone, x, hx, hmem⟩
    · refine (step_wallet hstep hp₁).imp (·.trans hsame) fun ⟨hnone, hmem⟩ => ?_
      exact ⟨hsame.symm.trans hnone, ⟨s₁, l, s₂⟩,
        List.mem_append_right _ (List.mem_singleton_self _), hauth hcharter ▸ hmem⟩
    · exact .inr ⟨hnone, x, List.mem_append_left _ hx, hmem⟩

/-! ### The authority uses its rights -/

namespace Regtest

/-- The authority pauses the pool and turns its token off. -/
def turnedOff : List Label :=
  [call 1 [writable pool, signer admin] [1] [] 0,
    call 9 [signer admin, readonly pool, writable (.tokenConfig pool zkbtc)] [16, 0] [] 0]

lemma run_turnedOff : ((exec (step env) (fun _ _ => true) .genesis openBook).any fun s =>
    (exec (step env) (fun _ _ => true) s turnedOff).any fun s' =>
      (s.records.pools zkbtc).any (fun p => !p.paused) &&
      (s'.records.pools zkbtc).any (fun p => p.paused) &&
      (s.records.tokenConfigs (pool, zkbtc)).any (fun tc => tc.enabled) &&
      (s'.records.tokenConfigs (pool, zkbtc)).any (fun tc => !tc.enabled)) = true := by
  decide +kernel

end Regtest

open Regtest in
/-- A pool that its authority paused. -/
theorem pool_upheld_turnedOff : ∃ (tr : List (Step State Label)) (p p' : PoolState),
    tr.map Step.call = turnedOff ∧ p.paused = false ∧ p'.paused = true ∧ Upheld env tr p p' := by
  obtain ⟨s, -, h⟩ := (Option.any_eq_true _ _).mp run_turnedOff
  obtain ⟨s', hs', h⟩ := (Option.any_eq_true _ _).mp h
  simp only [Bool.and_eq_true] at h
  obtain ⟨p, hp, hbefore⟩ := (Option.any_eq_true _ _).mp h.1.1.1
  obtain ⟨p', hp', hafter⟩ := (Option.any_eq_true _ _).mp h.1.1.2
  obtain ⟨tr, hcalls, run⟩ := reaches_of_exec (fun _ _ _ => trivial : ∀ _ _, _ → True) hs'
  obtain ⟨p₁, hp₁, hup⟩ := pool_upheld run hp
  obtain rfl : p' = p₁ := Option.some_inj.mp (hp'.symm.trans hp₁)
  exact ⟨tr, p, p', hcalls, by simpa using hbefore, hafter, hup⟩

open Regtest in
/-- A token that the authority turned off. -/
theorem assets_upheld_turnedOff : ∃ (tr : List (Step State Label)) (p : PoolState)
    (tc tc' : TokenConfig), tr.map Step.call = turnedOff ∧ tc.enabled = true ∧ tc'.enabled = false ∧
      TokenUpheld p.authority tr tc tc' := by
  obtain ⟨s, -, h⟩ := (Option.any_eq_true _ _).mp run_turnedOff
  obtain ⟨s', hs', h⟩ := (Option.any_eq_true _ _).mp h
  simp only [Bool.and_eq_true] at h
  obtain ⟨p, hp, -⟩ := (Option.any_eq_true _ _).mp h.1.1.1
  obtain ⟨tc, htc, hbefore⟩ := (Option.any_eq_true _ _).mp h.1.2
  obtain ⟨tc', htc', hafter⟩ := (Option.any_eq_true _ _).mp h.2
  obtain ⟨tr, hcalls, run⟩ := reaches_of_exec (fun _ _ _ => trivial : ∀ _ _, _ → True) hs'
  obtain ⟨tc₁, htc₁, hup⟩ := (assets_upheld run hp).1 zkbtc tc htc
  obtain rfl : tc' = tc₁ := Option.some_inj.mp (htc'.symm.trans htc₁)
  exact ⟨tr, p, tc, tc', hcalls, hbefore, by simpa using hafter, hup⟩

end Utxopia.Pool
