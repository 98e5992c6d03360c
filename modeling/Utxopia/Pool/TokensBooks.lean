import Utxopia.Pool.Spend
import Utxopia.Pool.Tokens

/-!
What the token instructions do to the books.

Tokens leave an account only by a transfer, a burn or an unwrapping that names it. Shielding
brings them into the vault, unshielding and claiming fees pay them out of it, and the token's
config follows.
-/

namespace Utxopia.Pool

open Utxopia.ByteString Utxopia.Check Utxopia.Runtime

variable {E : Env} {s s' : State} {c : Call}

/-! ### Where tokens went -/

/-- Everything but the balance is the same. -/
structure TokenAccount.Like (t t' : TokenAccount) : Prop where
  program : t'.program = t.program
  mint : t'.mint = t.mint
  owner : t'.owner = t.owner
  delegate : t'.delegate = t.delegate

lemma TokenAccount.Like.refl (t : TokenAccount) : t.Like t := ⟨rfl, rfl, rfl, rfl⟩

lemma TokenAccount.Like.trans {t t' t'' : TokenAccount} (h : t.Like t') (h' : t'.Like t'') :
    t.Like t'' :=
  ⟨h'.program.trans h.program, h'.mint.trans h.mint, h'.owner.trans h.owner,
    h'.delegate.trans h.delegate⟩

def balanceIn (T : Addr → Option TokenAccount) (a : Addr) : ℕ :=
  ((T a).map TokenAccount.amount).getD 0

lemma balanceIn_of_some {T : Addr → Option TokenAccount} {a : Addr} {t : TokenAccount}
    (h : T a = some t) : balanceIn T a = t.amount := by
  simp [balanceIn, h]

lemma balanceIn_update (T : Addr → Option TokenAccount) (a b : Addr) (t : TokenAccount) :
    balanceIn (Function.update T a (some t)) b = if b = a then t.amount else balanceIn T b := by
  rcases eq_or_ne b a with rfl | h
  · simp [balanceIn]
  · simp [balanceIn, h]

/-- At most `amount` tokens left `src`, and none left any other account. -/
structure Outflow (src : Addr) (amount : ℕ) (T T' : Addr → Option TokenAccount) : Prop where
  like : ∀ a t, T a = some t → ∃ t', T' a = some t' ∧ t.Like t'
  only : ∀ a, T a = none → T' a = none
  least : ∀ a, balanceIn T a ≤ balanceIn T' a + if a = src then amount else 0
  bounded : (∀ a, balanceIn T a < 2 ^ 64) → ∀ a, balanceIn T' a < 2 ^ 64

variable {T T' T'' : Addr → Option TokenAccount} {src dst authority : Addr} {amount : ℕ}

lemma Outflow.refl (src : Addr) (T : Addr → Option TokenAccount) : Outflow src 0 T T :=
  ⟨fun _ t h => ⟨t, h, .refl t⟩, fun _ => id, fun a => by simp, id⟩

lemma Outflow.trans {n n' : ℕ} (h : Outflow src n T T') (h' : Outflow src n' T' T'') :
    Outflow src (n + n') T T'' := by
  refine ⟨fun a t ht => ?_, fun a ha => h'.only a (h.only a ha), fun a => ?_,
    fun hb => h'.bounded (h.bounded hb)⟩
  · obtain ⟨t', ht', hl⟩ := h.like a t ht
    obtain ⟨t'', ht'', hl'⟩ := h'.like a t' ht'
    exact ⟨t'', ht'', hl.trans hl'⟩
  · have h₁ := h.least a
    have h₂ := h'.least a
    split_ifs at h₁ h₂ ⊢ <;> omega

lemma Outflow.mono {n n' : ℕ} (h : Outflow src n T T') (hn : n ≤ n') : Outflow src n' T T' := by
  refine ⟨h.like, h.only, fun a => ?_, h.bounded⟩
  have := h.least a
  split_ifs at this ⊢ <;> omega

/-- Writing a balance. -/
lemma outflow_update {t : TokenAccount} {a : Addr} {n : ℕ} (h : T a = some t)
    (hle : t.amount ≤ n + if a = src then amount else 0) (hb : n ≤ t.amount ∨ n < 2 ^ 64) :
    Outflow src amount T (Function.update T a (some { t with amount := n })) := by
  refine ⟨fun b u hu => ?_, fun b hnone => ?_, fun b => ?_, fun hbound b => ?_⟩
  · rcases eq_or_ne b a with rfl | hne
    · obtain rfl : u = t := by rw [h] at hu; exact (Option.some_inj.mp hu).symm
      exact ⟨_, Function.update_self .., ⟨rfl, rfl, rfl, rfl⟩⟩
    · exact ⟨u, by rwa [Function.update_of_ne hne], .refl u⟩
  · rw [Function.update_of_ne, hnone]
    rintro rfl
    exact absurd (h.symm.trans hnone) (Option.some_ne_none t)
  · rw [balanceIn_update]
    rcases eq_or_ne b a with rfl | hne
    · rw [if_pos rfl, balanceIn_of_some h]
      exact hle
    · rw [if_neg hne]
      omega
  · rw [balanceIn_update]
    have ht := hbound a
    rw [balanceIn_of_some h] at ht
    split_ifs
    · exact hb.elim (fun hle => lt_of_le_of_lt hle ht) id
    · exact hbound b

def State.setTokens (s : State) (T : Addr → Option TokenAccount) : State := { s with tokens := T }

@[simp] lemma records_setTokens (s : State) (T : Addr → Option TokenAccount) :
    (s.setTokens T).records = s.records.setTokens T := rfl

/-- **A transfer** was allowed by the account's owner or delegate and arrives in full. -/
theorem transferToken_ok {program : TokenProgram}
    (h : transferToken s program src dst authority amount = .ok s') :
    ∃ t T', s.records.tokens src = some t ∧ t.allows authority = true ∧
      s' = s.setTokens T' ∧ Outflow src amount s.records.tokens T' ∧
      (src ≠ dst → balanceIn T' dst = balanceIn s.records.tokens dst + amount) ∧
      (src = dst → T' = s.records.tokens) := by
  simp only [transferToken, bind_eq_ok, orElse_eq_ok, require_eq_ok, exists_unit, ite_eq_ok,
    pure_eq_ok] at h
  obtain ⟨t, ht, u, hu, -, hallow, hle, h⟩ := h
  rcases h with ⟨rfl, rfl⟩ | ⟨hne, hfits, rfl⟩
  · refine ⟨t, s.tokens, ht, hallow, rfl, (Outflow.refl ..).mono (Nat.zero_le _), ?_, fun _ => rfl⟩
    exact fun hne => absurd rfl hne
  · refine ⟨t, _, ht, hallow, rfl, ?_, fun _ => ?_, fun heq => absurd heq hne⟩
    · have h₁ : Outflow src amount s.tokens
          (Function.update s.tokens src (some { t with amount := t.amount - amount })) :=
        outflow_update ht (by rw [if_pos rfl]; omega) (.inl (Nat.sub_le ..))
      have hu' : Function.update s.tokens src (some { t with amount := t.amount - amount }) dst =
          some u := by
        rw [Function.update_of_ne (Ne.symm hne)]
        exact hu
      have h₂ : Outflow src 0 _ _ := outflow_update hu' (by omega) (.inr hfits)
      exact h₁.trans h₂
    · have hu' : s.records.tokens dst = some u := hu
      rw [balanceIn_of_some hu']
      exact (balanceIn_update ..).trans (if_pos rfl)

/-- **Minting** takes tokens from nobody. -/
theorem mintToken_ok {program : TokenProgram} {mint : Addr}
    (h : mintToken s program mint dst amount = .ok s') :
    ∃ T', s'.records = s.records.setTokens T' ∧ Outflow dst 0 s.records.tokens T' ∧
      balanceIn T' dst = balanceIn s.records.tokens dst + amount := by
  simp only [mintToken, bind_eq_ok, orElse_eq_ok, require_eq_ok, exists_unit, pure_eq_ok] at h
  obtain ⟨u, hu, -, hfits, rfl⟩ := h
  have hu' : s.records.tokens dst = some u := hu
  refine ⟨_, rfl, outflow_update hu (by omega) (.inr hfits), ?_⟩
  rw [balanceIn_of_some hu']
  exact (balanceIn_update ..).trans (if_pos rfl)

/-- Tokens change hands only between accounts of one mint. -/
lemma transferToken_mint {program : TokenProgram}
    (h : transferToken s program src dst authority amount = .ok s') :
    ∃ t u, s.records.tokens src = some t ∧ s.records.tokens dst = some u ∧ u.mint = t.mint := by
  simp only [transferToken, bind_eq_ok, orElse_eq_ok, require_eq_ok, exists_unit] at h
  obtain ⟨t, ht, u, hu, ⟨-, -, hmint⟩, -⟩ := h
  exact ⟨t, u, ht, hu, hmint.symm⟩

lemma mintToken_mint {program : TokenProgram} {mint : Addr}
    (h : mintToken s program mint dst amount = .ok s') :
    ∃ u, s.records.tokens dst = some u ∧ u.mint = mint := by
  simp only [mintToken, bind_eq_ok, orElse_eq_ok, require_eq_ok, exists_unit] at h
  obtain ⟨u, hu, ⟨-, hmint⟩, -⟩ := h
  exact ⟨u, hu, hmint⟩

theorem burnToken_ok {program : TokenProgram} {mint : Addr}
    (h : burnToken s program mint src authority amount = .ok s') :
    ∃ T', s'.records = s.records.setTokens T' ∧ Outflow src amount s.records.tokens T' := by
  simp only [burnToken, bind_eq_ok, orElse_eq_ok, require_eq_ok, exists_unit, pure_eq_ok] at h
  obtain ⟨t, ht, -, -, hle, rfl⟩ := h
  exact ⟨_, rfl, outflow_update ht (by rw [if_pos rfl]; omega) (.inl (Nat.sub_le ..))⟩

lemma unwrapLamports_ok {program : TokenProgram}
    (h : unwrapLamports s program src dst authority amount = .ok s') :
    ∃ T', s'.records = s.records.setTokens T' ∧ Outflow src amount s.records.tokens T' := by
  simp only [unwrapLamports, bind_eq_ok, orElse_eq_ok, require_eq_ok, exists_unit, pure_eq_ok] at h
  obtain ⟨t, ht, -, -, hle, rfl⟩ := h
  rw [records_fund]
  exact ⟨_, rfl, outflow_update ht (by rw [if_pos rfl]; omega) (.inl (Nat.sub_le ..))⟩

/-! ### A token of a pool -/

/-- The accounts of an instruction are a pool of the books and the config of one of its
tokens. -/
structure AtToken (r : Records) (pool tokenConfig : AccountInfo) (m : Addr) (p : PoolState)
    (tc : TokenConfig) : Prop where
  pool_key : pool.key = .poolState m
  mint : p.zkbtcMint = m
  pool : r.pools m = some p
  config_key : tokenConfig.key = .tokenConfig (.poolState m) tc.mint
  config : r.tokenConfigs (.poolState m, tc.mint) = some tc

/-- The token whose config is account `i` of a call. -/
def Call.configAt (c : Call) (i : ℕ) : Option (Addr × Addr) :=
  match c.accounts[i]?.map AccountInfo.key with
  | some (.tokenConfig pool mint) => some (pool, mint)
  | _ => none

lemma configAt_of_account {i : ℕ} {a : AccountInfo} {pool mint : Addr} (h : c.account i = .ok a)
    (hk : a.key = .tokenConfig pool mint) : c.configAt i = some (pool, mint) := by
  rw [Call.configAt, account_ok.mp h, Option.map_some, hk]

lemma tokenConfig_of_key {a pool mint : Addr} {tc : TokenConfig}
    (ho : s.ownerOf E c a = .program) (hk : a = .tokenConfig pool mint)
    (h : s.tokenConfigAt a = some tc) : s.records.tokenConfigs (pool, mint) = some tc := by
  obtain ⟨pool', mint', hk', hrec⟩ := tokenConfig_of_owned ho h
  obtain ⟨rfl, rfl⟩ : pool = pool' ∧ mint = mint' := by simpa [hk] using hk'
  exact hrec

lemma validateTokenConfigPda_ok {tokenConfig pool : AccountInfo} {u : Unit}
    (h : validateTokenConfigPda E s c tokenConfig pool = .ok u) :
    ∃ p tc, AtToken s.records pool tokenConfig p.zkbtcMint p tc := by
  simp only [validateTokenConfigPda, readTokenConfig, bind_eq_ok, validateProgramOwner_ok,
    orElse_eq_ok, require_eq_ok, exists_unit] at h
  obtain ⟨ho, hpool, tc, htc, hk⟩ := h
  obtain ⟨p, hkey, hrec⟩ := validatePoolStatePda_ok hpool
  rw [hkey] at hk
  exact ⟨p, tc, hkey, rfl, hrec, hk, tokenConfig_of_key ho hk htc⟩

/-- What the pool owes for the token and where it keeps it did not change. -/
structure TokenConfig.SameBooks (tc tc' : TokenConfig) : Prop where
  mint : tc'.mint = tc.mint
  tokenId : tc'.tokenId = tc.tokenId
  vault : tc'.vault = tc.vault
  totalShielded : tc'.totalShielded = tc.totalShielded
  accumulatedFees : tc'.accumulatedFees = tc.accumulatedFees
  serviceFee : tc'.serviceFee = tc.serviceFee

/-- The token after more was shielded and charged. -/
def TokenConfig.owe (tc : TokenConfig) (shielded fees : ℕ) : TokenConfig :=
  { tc with
    totalShielded := tc.totalShielded + shielded
    accumulatedFees := tc.accumulatedFees + fees }

@[simp] lemma TokenConfig.owe_mint (tc : TokenConfig) (n k : ℕ) : (tc.owe n k).mint = tc.mint := rfl

/-- The token after some was taken out, part of it as a fee. -/
def TokenConfig.release (tc : TokenConfig) (amount fees : ℕ) : TokenConfig :=
  { tc with
    totalShielded := tc.totalShielded - amount
    accumulatedFees := tc.accumulatedFees + fees }

@[simp] lemma TokenConfig.release_mint (tc : TokenConfig) (n k : ℕ) :
    (tc.release n k).mint = tc.mint := rfl

/-- The pool after its own token's total changed. -/
def PoolState.syncShielded (p : PoolState) (total : ℕ) (now : ℤ) : PoolState :=
  { p with totalShielded := total, lastUpdate := now }

/-- The books with the token's new totals, which for the pool's own token go into the pool
as well. -/
def Records.putTotals (r : Records) (m : Addr) (p : PoolState) (tc : TokenConfig) (now : ℤ) :
    Records :=
  if tc.mint = p.zkbtcMint then
    (r.putTokenConfig (.poolState m, tc.mint) tc).putPool m (p.syncShielded tc.totalShielded now)
  else r.putTokenConfig (.poolState m, tc.mint) tc

/-- A view of the books that shows neither pools nor token configs does not show the totals. -/
lemma putTotals_view {α : Sort*} (view : Records → α)
    (hview : ∀ r pools tokenConfigs,
      view { r with pools := pools, tokenConfigs := tokenConfigs } = view r)
    (r : Records) (m : Addr) (p : PoolState) (tc : TokenConfig) (now : ℤ) :
    view (r.putTotals m p tc now) = view r := by
  unfold Records.putTotals
  split_ifs <;> exact hview r _ _

lemma records_putTotals {m : Addr} {p : PoolState} {tc o : TokenConfig} {pool tokenConfig : Addr}
    {z : Bool} {now : ℤ} (hp : s.records.pools m = some p)
    (htc : s.records.tokenConfigs (.poolState m, tc.mint) = some o) (hk : pool = .poolState m)
    (hck : tokenConfig = .tokenConfig (.poolState m) tc.mint)
    (hz : z = decide (tc.mint = p.zkbtcMint))
    (h : s' = if z then
        (s.putTokenConfig tc tokenConfig).putPool (p.syncShielded tc.totalShielded now) pool
      else s.putTokenConfig tc tokenConfig) : s'.records = s.records.putTotals m p tc now := by
  have hput : (s.putTokenConfig tc tokenConfig).records =
      s.records.putTokenConfig (.poolState m, tc.mint) tc := by
    rw [hck]
    exact records_putTokenConfig (k := (.poolState m, tc.mint)) htc tc
  rw [h, hz, Records.putTotals]
  by_cases hm : tc.mint = p.zkbtcMint
  · rw [if_pos (decide_eq_true hm), if_pos hm, hk, records_putPool (o := p), hput]
    rw [hput]
    exact hp
  · rw [if_neg (by simpa using hm), if_neg hm, hput]

/-! ### Registration and limits -/

/-- A deposit is possible, and bounded by the cap. -/
def TokenConfig.InOrder (tc : TokenConfig) : Prop :=
  0 < tc.minDeposit ∧ tc.minDeposit ≤ tc.maxDeposit ∧ tc.maxDeposit ≤ tc.depositCap

instance (tc : TokenConfig) : Decidable tc.InOrder := inferInstanceAs (Decidable (_ ∧ _))

/-- A token about to be registered: nothing is owed and the pool owns the vault. -/
structure Registration (E : Env) (r : Records) (pool mint : Addr) (tc : TokenConfig) : Prop where
  pool_exists : ∃ m p, pool = .poolState m ∧ r.pools m = some p
  fresh : r.tokenConfigs (pool, mint) = none
  mint_eq : tc.mint = mint
  tokenId : computeTokenId E mint = .ok tc.tokenId
  vault : ∃ v, r.tokens tc.vault = some v ∧ v.owner = pool
  shielded : tc.totalShielded = 0
  fees : tc.accumulatedFees = 0
  limits : tc.InOrder

theorem processRegisterToken_ok (h : processRegisterToken E s c = .ok s') :
    ∃ pool mint tc, Registration E s.records pool mint tc ∧
      s'.records = s.records.putTokenConfig (pool, mint) tc := by
  simp only [processRegisterToken, readPool, bind_eq_ok, exists_unit, require_eq_ok, orElse_eq_ok,
    pure_eq_ok, validateProgramOwner_ok] at h
  obtain ⟨-, -, authority, -, pool, -, mint, -, tokenConfig, -, vault, -, sys, -, -, howner, h⟩ := h
  obtain ⟨-, -, p, hp, -, -, -, v, hv, hvo, -, -, -, tokenId, hid, h⟩ := h
  obtain ⟨hnone, acc, hacc, ⟨hmin, hmax, hcap⟩, rfl⟩ := h
  obtain ⟨m, hm, hrec⟩ := pool_of_owned howner hp
  refine ⟨pool.key, mint.key, _, ?_, Records.ext rfl rfl (recs_create (createOrClaim_owner hacc) _)
    rfl rfl rfl rfl rfl rfl rfl rfl rfl rfl rfl rfl⟩
  exact ⟨⟨m, p, hm, hrec⟩, Account.rec?_eq_none_of_live? hnone, rfl, hid, ⟨v, hv, hvo⟩, rfl, rfl,
    Nat.pos_of_ne_zero hmin, hmax, hcap⟩

theorem processUpdateTokenConfig_ok (h : processUpdateTokenConfig E s c = .ok s') :
    ∃ k tc tc', s.records.tokenConfigs k = some tc ∧ tc.SameBooks tc' ∧
      s'.records = s.records.putTokenConfig k tc' := by
  simp only [processUpdateTokenConfig, bind_eq_ok, exists_unit, require_eq_ok, pure_eq_ok,
    Prod.exists] at h
  obtain ⟨-, -, authority, -, pool, -, tokenConfig, -, -, -, hpda, -, p, -, -, -, tc, htc, h⟩ := h
  obtain ⟨_, _, -, _, _, -, _, _, -, _, _, -, -, rfl⟩ := h
  obtain ⟨p₀, tc₀, hat⟩ := validateTokenConfigPda_ok hpda
  obtain rfl := readTokenConfig_of_records hat.config_key hat.config htc
  rw [hat.config_key]
  refine ⟨(.poolState p₀.zkbtcMint, tc.mint), tc, _, hat.config, ?_,
    records_putTokenConfig (k := (.poolState p₀.zkbtcMint, tc.mint)) hat.config _⟩
  exact ⟨rfl, rfl, rfl, rfl, rfl, rfl⟩

/-! ### Shielding -/

/-- Tokens a signer may move went into the vault of a token, for a note. -/
structure Shielding (E : Env) (r : Records) (c : Call) (m : Addr) (p : PoolState)
    (tc : TokenConfig) (t t' : CommitmentTree) (T : Addr → Option TokenAccount)
    (commitment : Hash) (shielded fee : ℕ) : Prop where
  mint : p.zkbtcMint = m
  pool : r.pools m = some p
  tree : r.trees (.poolState m, p.activeTreeIndex) = some t
  config : r.tokenConfigs (.poolState m, tc.mint) = some tc
  appended : t.Appended E [commitment] t'
  paid : ∃ user ∈ c.accounts, user.isSigner ∧ ∃ src u amount, r.tokens src = some u ∧
    u.allows user.key = true ∧ Outflow src amount r.tokens T
  arrived : balanceIn r.tokens tc.vault + (shielded + fee) ≤ balanceIn T tc.vault
  token : c.configAt 3 = some (.poolState m, tc.mint)
  vault_mint : ∃ v, r.tokens tc.vault = some v ∧ v.mint = tc.mint
  capped : tc.totalShielded + shielded ≤ tc.depositCap

/-- The books after a note was shielded. -/
def Records.shield (r : Records) (m : Addr) (p : PoolState) (tc : TokenConfig)
    (t t' : CommitmentTree) (T : Addr → Option TokenAccount) (commitment : Hash)
    (shielded fee : ℕ) (now : ℤ) : Records :=
  ((r.setTokens T).place (.poolState m) p.activeTreeIndex t t' [commitment]).putTotals m p
    (tc.owe shielded fee) now

theorem shieldInner_ok (h : shieldInner E s c = .ok s')
    (hsigner : ∀ user, c.account 0 = .ok user → user.isSigner = true) :
    ∃ m p tc t t' T commitment shielded fee,
      Shielding E s.records c m p tc t t' T commitment shielded fee ∧
      s'.records = s.records.shield m p tc t t' T commitment shielded fee c.unixTimestamp := by
  simp only [shieldInner, bind_eq_ok, exists_unit, require_eq_ok, orElse_eq_ok,
    validateProgramOwner_ok, checkedSub_eq_ok] at h
  obtain ⟨user, huser, source, -, pool, -, tokenConfig, hca, vault, -, tree, -, h⟩ := h
  obtain ⟨tokenProgram, -, hto, -, -, program, -, -, -, -, -, -, hpda, p, hread, -, hactive, h⟩ := h
  obtain ⟨tc, htc, -, hvault, u, hu, hum, -, s₁, hs₁, received, ⟨hle, rfl⟩, h⟩ := h
  obtain ⟨p₀, tc₀, hat⟩ := validateTokenConfigPda_ok hpda
  obtain rfl := readPool_of_records hat.pool_key hat.pool hread
  obtain rfl := readTokenConfig_of_records hat.config_key hat.config htc
  obtain ⟨p₁, hpk, -, htk⟩ := validateActiveTreePda_ok hactive
  obtain ⟨t₀, v, ht₀, hv, hvm⟩ := transferToken_mint hs₁
  obtain rfl : t₀ = u := Option.some_inj.mp (ht₀.symm.trans hu)
  obtain ⟨u₁, T, hu₁, hallow, rfl, hout, hin, hself⟩ := transferToken_ok hs₁
  simp only [recordShield, bind_eq_ok, exists_unit, require_eq_ok, checkedSub_eq_ok,
    checkedAdd_eq_ok] at h
  obtain ⟨p₂, hp₂, shielded, ⟨hfee, hshielded⟩, -, tc₂, htc₂, _, ⟨-, rfl⟩, hcap, commitment, -, s₂, hs₂, tc₃,
    htc₃, tc₄, htc₄, h⟩ := h
  obtain rfl := readPool_of_records hat.pool_key hat.pool hp₂
  obtain rfl := readTokenConfig_of_records hat.config_key hat.config htc₂
  generalize computeBpsFee _ p₂.depositFeeBps = fee at h hfee hshielded htc₄
  have htc₅ : tc₄ = tc₂.owe shielded fee := by
    rw [TokenConfig.addFees_ok htc₄, TokenConfig.addShielded_ok htc₃]
    rfl
  subst htc₅
  obtain ⟨t, ht⟩ : ∃ t, readTree (s.setTokens T) tree = .ok t := by
    simp only [insertOne, bind_eq_ok] at hs₂
    obtain ⟨t, ht, -⟩ := hs₂
    exact ⟨t, ht⟩
  rw [readTree, orElse_eq_ok] at ht
  have htree := tree_of_key hto htk ht
  obtain ⟨t', happ, hrec₂⟩ := insertOne_ok (s := s.setTokens T) htk htree hs₂
  rw [hat.pool_key] at htree hrec₂
  refine ⟨_, p₂, tc₂, t, t', T, commitment, shielded, fee, ⟨rfl, hat.pool, htree, hat.config, happ,
    ⟨user, List.mem_of_getElem? (account_ok.mp huser), hsigner user huser, _, u₁, _, hu₁, hallow,
      hout⟩, ?_, configAt_of_account hca hat.config_key, ⟨v, by rw [← hvault]; exact hv,
        hvm.trans hum⟩, hcap⟩, ?_⟩
  · change balanceIn s.tokens tc₂.vault + _ ≤ balanceIn T tc₂.vault
    rw [← hvault, hshielded, Nat.sub_add_cancel hfee]
    exact (Nat.add_sub_cancel' hle).le
  · rw [Records.shield, ← records_setTokens, ← hrec₂]
    refine records_putTotals (o := tc₂) (z := decide (tc₂.mint = p₂.zkbtcMint)) ?_ ?_ hat.pool_key
      hat.config_key rfl ?_
    · rw [hrec₂]
      exact hat.pool
    · rw [hrec₂]
      exact hat.config
    · split_ifs at h with hm
      · rw [if_pos hm]
        exact (pure_eq_ok.mp h).symm
      · rw [if_neg hm]
        exact (pure_eq_ok.mp h).symm

/-- **Shielding**, by either entry. -/
theorem processShield_ok (h : processShield E s c = .ok s') :
    ∃ m p tc t t' T commitment shielded fee,
      Shielding E s.records c m p tc t t' T commitment shielded fee ∧
      s'.records = s.records.shield m p tc t t' T commitment shielded fee c.unixTimestamp := by
  simp only [processShield, validateSigner, bind_eq_ok, exists_unit, require_eq_ok] at h
  obtain ⟨-, -, user, huser, pool, -, hsigner, -, p, -, -, h⟩ := h
  refine shieldInner_ok h fun user' huser' => ?_
  obtain rfl : user = user' := by rw [huser] at huser'; exact Except.ok.inj huser'
  exact hsigner

theorem processShieldPermissioned_ok (h : processShieldPermissioned E s c = .ok s') :
    ∃ m p tc t t' T commitment shielded fee,
      Shielding E s.records c m p tc t t' T commitment shielded fee ∧
      s'.records = s.records.shield m p tc t t' T commitment shielded fee c.unixTimestamp := by
  simp only [processShieldPermissioned, authorizeShield, validateSigner, bind_eq_ok, exists_unit,
    require_eq_ok] at h
  obtain ⟨_, ⟨-, -, user, huser, pool, -, _, -, _, -, _, -, hsigner, -⟩, h⟩ := h
  refine shieldInner_ok h fun user' huser' => ?_
  obtain rfl : user = user' := by rw [huser] at huser'; exact Except.ok.inj huser'
  exact hsigner

/-! ### Unshielding -/

/-- What a plan has established. -/
structure UnshieldPlan.Sound (r : Records) (plan : UnshieldPlan) (m : Addr) (p : PoolState)
    (tc : TokenConfig) (t : CommitmentTree) : Prop where
  at_tree : AtActiveTree r plan.pool plan.tree m p t
  at_token : AtToken r plan.pool plan.tokenConfig m p tc
  active : plan.activeIndex = p.activeTreeIndex
  source : SourceTree r (.poolState m) p.activeTreeIndex plan.sourceTreeIndex plan.pre.merkleRoot
  vault : plan.vault.key = tc.vault
  zkbtc : plan.isPoolZkbtc = decide (tc.mint = p.zkbtcMint)

lemma planUnshield_ok {plan : UnshieldPlan} (h : planUnshield E s c = .ok plan) :
    ∃ m p tc t, plan.Sound s.records m p tc t := by
  simp only [planUnshield, bind_eq_ok, exists_unit, require_eq_ok, pure_eq_ok, orElse_eq_ok,
    validateProgramOwner_ok] at h
  obtain ⟨hd, -, -, -, pre, -, amounts, -, pool, -, tree, -, vk, -, user, -, sys, -, h⟩ := h
  obtain ⟨tokenConfig, -, vault, -, tokenProgram, -, hto, -, -, -, program, -, -, -, hpda, h⟩ := h
  obtain ⟨-, -, -, v, -, -, p, hread, -, owners, -, -, hactive, -, policyTail, -, tail, -, h⟩ := h
  obtain ⟨sourceTree, -, tc, htc, -, hvault, _, -, _, -, -, src, hsrc, -, rfl⟩ := h
  obtain ⟨t, ht⟩ := readTree_of_verify hsrc
  obtain ⟨m, hat⟩ := atActiveTree hto hread ht hactive
  obtain ⟨p₀, tc₀, hatt⟩ := validateTokenConfigPda_ok hpda
  obtain rfl := readPool_of_records hatt.pool_key hatt.pool hread
  obtain rfl := readTokenConfig_of_records hatt.config_key hatt.config htc
  obtain rfl := hat.mint
  exact ⟨_, p, tc, t, hat, hatt, rfl, verifyVkMerkleAndProof_ok hat hsrc, hvault, rfl⟩

lemma payout_ok {plan : UnshieldPlan} {item : AccountInfo × ℕ} {acc acc' : Payouts}
    (h : payout plan acc item = .ok acc') :
    ∃ net T', Outflow plan.vault.key net acc.state.records.tokens T' ∧
      acc'.state.records = acc.state.records.setTokens T' ∧
      acc.totalProtocolFee ≤ acc'.totalProtocolFee ∧
      acc'.totalAmount + acc.totalProtocolFee =
        acc.totalAmount + net + acc'.totalProtocolFee := by
  simp only [payout, bind_eq_ok, checkedSub_eq_ok, checkedAdd_eq_ok] at h
  obtain ⟨net, ⟨hle, rfl⟩, _, ⟨-, rfl⟩, _, ⟨-, rfl⟩, h⟩ := h
  generalize computeBpsFee _ _ = fee at h hle
  refine ⟨item.2 - fee, ?_⟩
  split_ifs at h
  · simp only [bind_eq_ok, pure_eq_ok] at h
    obtain ⟨s₁, hs₁, rfl⟩ := h
    obtain ⟨T', hrec, hout⟩ := unwrapLamports_ok hs₁
    exact ⟨T', hout, hrec, Nat.le_add_right .., by dsimp only; omega⟩
  · simp only [bind_eq_ok, pure_eq_ok] at h
    obtain ⟨s₁, hs₁, rfl⟩ := h
    obtain ⟨t, T', -, -, rfl, hout, -, -⟩ := transferToken_ok hs₁
    exact ⟨T', hout, rfl, Nat.le_add_right .., by dsimp only; omega⟩

/-- The payouts leave the vault, and with the fees they make up the amounts. -/
theorem payouts_ok {plan : UnshieldPlan} {items : List (AccountInfo × ℕ)} {acc acc' : Payouts}
    (h : loop (payout plan) acc items = .ok acc') :
    ∃ out T', Outflow plan.vault.key out acc.state.records.tokens T' ∧
      acc'.state.records = acc.state.records.setTokens T' ∧
      acc.totalProtocolFee ≤ acc'.totalProtocolFee ∧
      acc'.totalAmount + acc.totalProtocolFee =
        acc.totalAmount + out + acc'.totalProtocolFee := by
  induction items generalizing acc with
  | nil =>
    simp only [loop_nil, Except.ok.injEq] at h
    subst h
    exact ⟨0, _, Outflow.refl _ _, rfl, le_rfl, by omega⟩
  | cons item items ih =>
    obtain ⟨m, hm, hrest⟩ := loop_cons_eq_ok.mp h
    obtain ⟨out, T', hout, hrec, hfee, hsum⟩ := ih hrest
    obtain ⟨net, T₁, hout₁, hrec₁, hfee₁, hsum₁⟩ := payout_ok hm
    rw [hrec₁] at hout hrec
    exact ⟨net + out, T', hout₁.trans hout, hrec, by omega, by omega⟩

/-- The outputs that stay in the pool. -/
def UnshieldPlan.treeOutputs (plan : UnshieldPlan) : List Hash :=
  plan.pre.commitmentsOut.take plan.nTreeOutputs

/-- Notes were spent, and their value but for the fees left the vault. -/
structure Unshielding (E : Env) (r : Records) (plan : UnshieldPlan) (m : Addr) (p : PoolState)
    (tc : TokenConfig) (t t' : CommitmentTree) (T : Addr → Option TokenAccount)
    (amount fee : ℕ) : Prop where
  sound : plan.Sound r m p tc t
  burnable : Burnable r m plan.sourceTreeIndex plan.pre.nullifiers
  appended : t.Appended E plan.treeOutputs t'
  covered : amount ≤ tc.totalShielded
  paid : ∃ out, Outflow tc.vault out r.tokens T ∧ amount = out + fee

/-- The books after an unshield. -/
def Records.unshield (r : Records) (plan : UnshieldPlan) (m : Addr) (p : PoolState)
    (tc : TokenConfig) (t t' : CommitmentTree) (T : Addr → Option TokenAccount)
    (amount fee : ℕ) (now : ℤ) : Records :=
  (((r.burn m p plan.sourceTreeIndex plan.pre.nullifiers .ApplyNow).place (.poolState m)
    p.activeTreeIndex t t' plan.treeOutputs).setTokens T).putTotals m
      (NullifierAccounting.ApplyNow.count plan.pre.nullifiers.length p) (tc.release amount fee) now

theorem processUnshield_ok (h : processUnshield E s c = .ok s') :
    ∃ plan m p tc t t' T amount fee, planUnshield E s c = .ok plan ∧
      Unshielding E s.records plan m p tc t t' T amount fee ∧
      s'.records =
        s.records.unshield plan m p tc t t' T amount fee c.unixTimestamp := by
  simp only [processUnshield, bind_eq_ok] at h
  obtain ⟨plan, hplan, s₁, hburn, s₂, hins, paid, hpaid, tc', htc', tc₁, htc₁, tc₂, htc₂, h⟩ := h
  obtain ⟨m, p, tc, t, hs⟩ := planUnshield_ok hplan
  obtain ⟨hburnable, hrec₁⟩ := burn_ok hs.at_tree.pool_key hs.at_tree.pool hburn
  obtain ⟨t', happ, hrec₂⟩ := insertOutputs_ok (t := t)
    (by rw [hs.at_tree.tree_key, hs.at_tree.pool_key, hs.active])
    (by rw [hrec₁, hs.at_tree.pool_key, hs.active]; exact hs.at_tree.tree) hins
  obtain ⟨out, T, hout, hrec₃, -, hsum⟩ := payouts_ok hpaid
  rw [hrec₂] at hrec₃ hout
  rw [hs.at_tree.pool_key, hs.active, hrec₁] at hrec₃
  have hcfg : paid.state.records.tokenConfigs (.poolState m, tc.mint) = some tc := by
    rw [hrec₃]
    exact hs.at_token.config
  have hpool : paid.state.records.pools m =
      some (NullifierAccounting.ApplyNow.count plan.pre.nullifiers.length p) := by
    rw [hrec₃]
    exact Function.update_self ..
  obtain rfl := readTokenConfig_of_records hs.at_token.config_key hcfg htc'
  obtain ⟨hle, htc₁⟩ := TokenConfig.subShielded_ok htc₁
  have htc : tc₂ = tc'.release paid.totalAmount paid.totalProtocolFee := by
    rw [TokenConfig.addFees_ok htc₂, htc₁]
    rfl
  subst htc
  refine ⟨plan, m, p, tc', t, t', T, paid.totalAmount, paid.totalProtocolFee, hplan, ⟨hs, hburnable, happ,
    hle, out, ?_, by simpa using hsum⟩, ?_⟩
  · rw [← hs.vault]
    rw [hrec₁] at hout
    exact hout
  · rw [Records.unshield, UnshieldPlan.treeOutputs, ← hrec₃]
    refine records_putTotals (o := tc') hpool hcfg hs.at_token.pool_key hs.at_token.config_key
      hs.zkbtc ?_
    split_ifs at h ⊢ with hz
    · simp only [bind_eq_ok, pure_eq_ok] at h
      obtain ⟨p', hp', rfl⟩ := h
      have hput : (paid.state.putTokenConfig (tc'.release paid.totalAmount paid.totalProtocolFee)
          plan.tokenConfig.key).records.pools m =
            some (NullifierAccounting.ApplyNow.count plan.pre.nullifiers.length p) := by
        rw [hs.at_token.config_key]
        exact hpool
      obtain rfl := readPool_of_records hs.at_token.pool_key hput hp'
      rfl
    · exact (pure_eq_ok.mp h).symm

/-! ### Claiming fees -/

/-- The token after fees were paid out. -/
def TokenConfig.claim (tc : TokenConfig) (amount : ℕ) : TokenConfig :=
  { tc with accumulatedFees := tc.accumulatedFees - amount }

theorem processClaimFees_ok (h : processClaimFees E s c = .ok s') :
    ∃ m tc T amount, s.records.tokenConfigs (.poolState m, tc.mint) = some tc ∧
      amount ≤ tc.accumulatedFees ∧ Outflow tc.vault amount s.records.tokens T ∧
      c.configAt 2 = some (.poolState m, tc.mint) ∧
      s'.records =
        (s.records.setTokens T).putTokenConfig (.poolState m, tc.mint) (tc.claim amount) := by
  simp only [processClaimFees, bind_eq_ok, exists_unit, require_eq_ok, pure_eq_ok] at h
  obtain ⟨-, -, authority, -, pool, -, tokenConfig, hca, vault, -, admin, -, tokenProgram, h⟩ := h
  obtain ⟨-, -, -, -, -, program, -, -, -, -, hpda, -, p, -, -, tc, htc, hvault, -, s₁, hs₁, h⟩ := h
  obtain ⟨tc', htc', rfl⟩ := h
  obtain ⟨p₀, tc₀, hat⟩ := validateTokenConfigPda_ok hpda
  obtain rfl := readTokenConfig_of_records hat.config_key hat.config htc
  obtain ⟨-, T, -, -, rfl, hout, -, -⟩ := transferToken_ok hs₁
  obtain ⟨hle, rfl⟩ := TokenConfig.subFees_ok htc'
  rw [hvault] at hout
  refine ⟨p₀.zkbtcMint, tc, T, _, hat.config, hle, hout, configAt_of_account hca hat.config_key, ?_⟩
  rw [hat.config_key]
  exact records_putTokenConfig (s := s.setTokens T) (k := (.poolState p₀.zkbtcMint, tc.mint))
    hat.config _

end Utxopia.Pool
