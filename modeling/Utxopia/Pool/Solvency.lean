import Utxopia.Pool.Credits

/-!
Whether the vaults can pay.

A vault owes what the tokens that name it have on their books, shielded or as fees. The vault
of the pool's own token also owes the requests that are open. Every instruction moves as much
between these as it moves in or out of the vault.
-/

namespace Utxopia.Pool

open Utxopia.ByteString Utxopia.Check Utxopia.Run Utxopia.Runtime

variable {E : Env} {s s' : State} {l : Label} {r r' : Records} {m : Addr} {tc tc' : TokenConfig}
  {T T' : Addr → Option TokenAccount}

/-! ### What is owed -/

def TokenConfig.debt (tc : TokenConfig) : ℕ := tc.totalShielded + tc.accumulatedFees

/-- What a token of the pool is owed by the vault. -/
def owedFrom (pool vault : Addr) (k : Addr × Addr) (tc : TokenConfig) : ℕ :=
  if k.1 = pool ∧ tc.vault = vault then tc.debt else 0

/-- A weight of the records of one pool. -/
def ofPool {κ α : Type} (pool : Addr) (w : α → ℕ) (k : Addr × κ) (a : α) : ℕ :=
  if k.1 = pool then w a else 0

namespace State

/-- The sum of a weight over the live requests of the pool. -/
def requests (s : State) (w : RedemptionRequest → ℕ) (m : Addr) : ℕ :=
  s.redemptions.total (ofPool (.poolState m) w)

/-- The debts of all tokens of the pool that name the vault. -/
def tokenDebt (s : State) (m vault : Addr) : ℕ :=
  s.tokenConfigs.total (owedFrom (.poolState m) vault)

/-- The amounts of all live requests of the pool. -/
def asked (s : State) (m : Addr) : ℕ := s.requests RedemptionRequest.amountSats m

/-- The vault is that of the pool's own token. -/
def isOwnVault (s : State) (m vault : Addr) : Bool :=
  (s.records.tokenConfigs (.poolState m, m)).any fun tc => tc.vault = vault

def owed (s : State) (m vault : Addr) : ℕ :=
  s.tokenDebt m vault + if s.isOwnVault m vault then s.asked m else 0

end State

/-- Every vault holds what it owes. -/
def Solvent (s : State) : Prop :=
  ∀ m mint tc, s.records.tokenConfigs (.poolState m, mint) = some tc →
    s.owed m tc.vault ≤ balanceIn s.records.tokens tc.vault

/-- No two tokens of a pool have the same id. -/
def TokensApart (r : Records) : Prop :=
  ∀ pool mint mint' tc tc', r.tokenConfigs (pool, mint) = some tc →
    r.tokenConfigs (pool, mint') = some tc' → tc.tokenId = tc'.tokenId → mint = mint'

/-! ### Tokens, vaults and requests -/

/-- The parts of a token that never change. -/
structure TokenConfig.Same (tc tc' : TokenConfig) : Prop where
  mint : tc'.mint = tc.mint
  tokenId : tc'.tokenId = tc.tokenId
  vault : tc'.vault = tc.vault

lemma TokenConfig.Same.refl (tc : TokenConfig) : tc.Same tc := ⟨rfl, rfl, rfl⟩

/-- Token accounts of derived addresses stay, and nobody else moves tokens out of them. -/
structure VaultsKept (T T' : Addr → Option TokenAccount) : Prop where
  kept : ∀ a t, T a = some t → t.owner.isKey = false →
    ∃ t', T' a = some t' ∧ t'.owner = t.owner
  handed : ∀ a t', T' a = some t' → t'.owner.isKey = false →
    t'.delegate = none ∨ ∃ t, T a = some t ∧ t.Like t'

lemma VaultsKept.refl (T : Addr → Option TokenAccount) : VaultsKept T T :=
  ⟨fun _ t h _ => ⟨t, h, rfl⟩, fun _ t h _ => .inr ⟨t, h, .refl t⟩⟩

lemma Outflow.vaultsKept {src : Addr} {amount : ℕ} (h : Outflow src amount T T') :
    VaultsKept T T' := by
  refine ⟨fun a t ht _ => ?_, fun a t' ht' _ => .inr ?_⟩
  · obtain ⟨t', ht', hl⟩ := h.like a t ht
    exact ⟨t', ht', hl.owner⟩
  · cases ht : T a with
    | none => exact absurd (ht'.symm.trans (h.only a ht)) (Option.some_ne_none t')
    | some t =>
      obtain ⟨u, hu, hl⟩ := h.like a t ht
      obtain rfl : u = t' := Option.some_inj.mp (hu.symm.trans ht')
      exact ⟨t, rfl, hl⟩

lemma TokensServed.vaultsKept (h : TokensServed T T') : VaultsKept T T' := by
  refine ⟨fun a t ht hk => ?_, fun a t' ht' hk => ?_⟩
  · obtain ⟨t', ht', hl, -⟩ := h.kept a t ht hk
    exact ⟨t', ht', hl.owner⟩
  · exact (h.handed a t' ht').elim (fun hold => .inr ⟨t', hold, .refl t'⟩) fun hnew => .inl (hnew hk)

/-- What the books have on tokens, vaults and requests. -/
structure Kept (r : Records) : Prop where
  config : ∀ pool mint tc, r.tokenConfigs (pool, mint) = some tc → tc.mint = mint ∧
    ∃ m v, pool = .poolState m ∧ r.tokens tc.vault = some v ∧ v.owner = pool
  undelegated : ∀ a t, r.tokens a = some t → t.owner.isKey = false → t.delegate = none
  request : ∀ pool q n req, r.redemptions (pool, q, n) = some req →
    ∃ m tc, pool = .poolState m ∧ r.tokenConfigs (.poolState m, m) = some tc ∧
      req.tokenId = tc.tokenId

/-- Configs that keep what never changes, and requests that keep their token. -/
structure Carries (r r' : Records) : Prop where
  config : ∀ k tc', r'.tokenConfigs k = some tc' →
    ∃ tc, r.tokenConfigs k = some tc ∧ tc.Same tc'
  configs : ∀ k tc, r.tokenConfigs k = some tc →
    ∃ tc', r'.tokenConfigs k = some tc' ∧ tc.Same tc'
  request : ∀ k req', r'.redemptions k = some req' →
    ∃ req, r.redemptions k = some req ∧ req'.tokenId = req.tokenId
  vaults : VaultsKept r.tokens r'.tokens

lemma Kept.carry (h : Kept r) (hc : Carries r r') : Kept r' := by
  refine ⟨fun pool mint tc' htc' => ?_, fun a t' ht' hk => ?_, fun pool q n req' hreq' => ?_⟩
  · obtain ⟨tc, htc, hsame⟩ := hc.config _ _ htc'
    obtain ⟨hmint, m, v, rfl, hv, howner⟩ := h.config _ _ _ htc
    obtain ⟨v', hv', howner'⟩ := hc.vaults.kept _ _ hv (by rw [howner]; rfl)
    rw [← hsame.vault] at hv'
    exact ⟨hsame.mint.trans hmint, m, v', rfl, hv', howner'.trans howner⟩
  · rcases hc.vaults.handed a t' ht' hk with hnone | ⟨t, ht, hl⟩
    · exact hnone
    · rw [hl.delegate]
      exact h.undelegated a t ht (by rw [← hl.owner]; exact hk)
  · obtain ⟨req, hreq, hid⟩ := hc.request _ _ hreq'
    obtain ⟨m, tc, rfl, htc, hid'⟩ := h.request _ _ _ _ hreq
    obtain ⟨tc', htc', hsame⟩ := hc.configs _ _ htc
    exact ⟨m, tc', rfl, htc', (hid.trans hid').trans hsame.tokenId.symm⟩

lemma Kept.congr (h : Kept r) (hc : r'.tokenConfigs = r.tokenConfigs) (ht : r'.tokens = r.tokens)
    (hr : r'.redemptions = r.redemptions) : Kept r' := by
  refine ⟨?_, ?_, ?_⟩
  · rw [hc, ht]
    exact h.config
  · rw [ht]
    exact h.undelegated
  · rw [hc, hr]
    exact h.request

/-- Whoever writes a request over one of the same token keeps every token. -/
lemma requests_carried {k : Addr × Addr × ℕ} {req : RedemptionRequest}
    {q : Option RedemptionRequest} (hreq : r.redemptions k = some req)
    (hid : ∀ req' ∈ q, req'.tokenId = req.tokenId) :
    ∀ k' req', Store.updates r.redemptions [(k, q)] k' = some req' →
      ∃ req, r.redemptions k' = some req ∧ req'.tokenId = req.tokenId := by
  refine Store.forall_updates [(k, q)] (fun k' req' h' => ⟨req', h', rfl⟩) ?_
  intro e he req' hreq'
  obtain rfl := List.mem_singleton.mp he
  exact ⟨req, hreq, hid req' hreq'⟩

lemma Carries.of_update {k : Addr × Addr} (hc : r'.tokenConfigs = Function.update r.tokenConfigs k (some tc'))
    (hk : r.tokenConfigs k = some tc) (same : tc.Same tc')
    (hreq : ∀ k req', r'.redemptions k = some req' →
      ∃ req, r.redemptions k = some req ∧ req'.tokenId = req.tokenId)
    (hv : VaultsKept r.tokens r'.tokens) : Carries r r' := by
  refine ⟨fun k' tc₁ h₁ => ?_, fun k' tc₁ h₁ => ?_, hreq, hv⟩
  · rw [hc] at h₁
    rcases eq_or_ne k' k with rfl | hne
    · rw [Function.update_self, Option.some_inj] at h₁
      exact ⟨tc, hk, h₁ ▸ same⟩
    · rw [Function.update_of_ne hne] at h₁
      exact ⟨tc₁, h₁, .refl tc₁⟩
  · rw [hc]
    rcases eq_or_ne k' k with rfl | hne
    · rw [hk, Option.some_inj] at h₁
      exact ⟨tc', Function.update_self .., h₁ ▸ same⟩
    · exact ⟨tc₁, by rwa [Function.update_of_ne hne], .refl tc₁⟩

lemma Carries.of_configs (hc : r'.tokenConfigs = r.tokenConfigs)
    (hreq : ∀ k req', r'.redemptions k = some req' →
      ∃ req, r.redemptions k = some req ∧ req'.tokenId = req.tokenId)
    (hv : VaultsKept r.tokens r'.tokens) : Carries r r' := by
  refine ⟨fun k tc h => ⟨tc, ?_, .refl tc⟩, fun k tc h => ⟨tc, ?_, .refl tc⟩, hreq, hv⟩
  · rwa [hc] at h
  · rwa [hc]

/-! ### What moves -/

/-- A step that does not touch the debts. -/
structure Idle (s s' : State) : Prop where
  configs : s'.records.tokenConfigs = s.records.tokenConfigs
  asked : ∀ m, s'.asked m = s.asked m
  least : ∀ v t, s.records.tokens v = some t → t.owner.isKey = false →
    balanceIn s.records.tokens v ≤ balanceIn s'.records.tokens v

/-- A step that changes the books of one token of a pool and the requests of that pool, and moves
as much in or out of the token's vault. -/
structure Moves (s s' : State) (m : Addr) (tc tc' : TokenConfig) : Prop where
  config : s.records.tokenConfigs (.poolState m, tc.mint) = some tc
  same : tc.Same tc'
  configs : s'.records.tokenConfigs =
    Function.update s.records.tokenConfigs (.poolState m, tc.mint) (some tc')
  others : ∀ m' ≠ m, s'.asked m' = s.asked m'
  foreign : tc.mint ≠ m → s'.asked m = s.asked m
  least : ∀ v t, s.records.tokens v = some t → t.owner.isKey = false → v ≠ tc.vault →
    balanceIn s.records.tokens v ≤ balanceIn s'.records.tokens v
  balance : tc'.debt + s'.asked m + balanceIn s.records.tokens tc.vault ≤
    tc.debt + s.asked m + balanceIn s'.records.tokens tc.vault

lemma isOwnVault_congr (h : s'.records.tokenConfigs = s.records.tokenConfigs) (m v : Addr) :
    s'.isOwnVault m v = s.isOwnVault m v := by
  rw [State.isOwnVault, State.isOwnVault, h]

lemma tokenDebt_congr (h : s'.records.tokenConfigs = s.records.tokenConfigs) (m v : Addr) :
    s'.tokenDebt m v = s.tokenDebt m v := Store.total_congr h

lemma requests_congr (h : s'.records.redemptions = s.records.redemptions)
    (w : RedemptionRequest → ℕ) (m : Addr) : s'.requests w m = s.requests w m := Store.total_congr h

lemma asked_congr (h : s'.records.redemptions = s.records.redemptions) (m : Addr) :
    s'.asked m = s.asked m := requests_congr h _ m

lemma Idle.solvent (h : Idle s s') (hI : Solvent s) (hk : Kept s.records) : Solvent s' := by
  intro m mint tc htc
  rw [h.configs] at htc
  obtain ⟨-, _, v, -, hv, howner⟩ := hk.config _ _ _ htc
  have hold := hI m mint tc htc
  have hleast := h.least _ v hv (by rw [howner]; rfl)
  rw [State.owed, tokenDebt_congr h.configs, isOwnVault_congr h.configs, h.asked]
  exact hold.trans hleast

/-- The debts of the vaults of one pool after the books of one of its tokens changed. -/
lemma Moves.tokenDebt (h : Moves s s' m tc tc') (m' v : Addr) :
    s'.tokenDebt m' v + (if m' = m ∧ v = tc.vault then tc.debt else 0) =
      s.tokenDebt m' v + (if m' = m ∧ v = tc.vault then tc'.debt else 0) := by
  have hex := Store.total_update (f := owedFrom (.poolState m') v) (l := s.tokenConfigs) h.configs
  rw [show s.tokenConfigs.recs _ = _ from h.config] at hex
  simpa [State.tokenDebt, owedFrom, h.same.vault, eq_comm] using hex

lemma Moves.isOwnVault (h : Moves s s' m tc tc') (m' v : Addr) :
    s'.isOwnVault m' v = s.isOwnVault m' v := by
  unfold State.isOwnVault
  rw [h.configs]
  by_cases hk : (Addr.poolState m', m') = (.poolState m, tc.mint)
  · rw [hk, Function.update_self, h.config]
    simp only [Option.any_some, h.same.vault]
  · rw [Function.update_of_ne hk]

lemma Moves.solvent (h : Moves s s' m tc tc') (hI : Solvent s) (hk : Kept s.records) :
    Solvent s' := by
  intro m' mint tc₁' htc'
  obtain ⟨tc₁, htc₁, hvault⟩ : ∃ tc₁, s.records.tokenConfigs (.poolState m', mint) = some tc₁ ∧
      tc₁'.vault = tc₁.vault := by
    rw [h.configs] at htc'
    by_cases heq : (Addr.poolState m', mint) = (.poolState m, tc.mint)
    · rw [heq, Function.update_self, Option.some_inj] at htc'
      exact ⟨tc, by rw [heq]; exact h.config, htc' ▸ h.same.vault⟩
    · rw [Function.update_of_ne heq] at htc'
      exact ⟨tc₁', htc', rfl⟩
  obtain ⟨-, _, v, -, hv, howner⟩ := hk.config _ _ _ htc₁
  obtain ⟨-, _, w, -, hw, howner'⟩ := hk.config _ _ _ h.config
  have hold := hI m' mint tc₁ htc₁
  have hdebt := h.tokenDebt m' tc₁.vault
  rw [hvault, State.owed, h.isOwnVault]
  rw [State.owed] at hold
  by_cases hsame : tc₁.vault = tc.vault
  · -- the vault of the token: its owner is the pool
    rw [hsame, hw, Option.some_inj] at hv
    obtain rfl : m' = m := by simpa [howner, howner'] using congrArg TokenAccount.owner hv.symm
    rw [hsame] at hold hdebt ⊢
    rw [if_pos ⟨rfl, rfl⟩, if_pos ⟨rfl, rfl⟩] at hdebt
    have hbal := h.balance
    cases hown : s.isOwnVault m' tc.vault with
    | true =>
      rw [hown, if_pos rfl] at hold
      rw [if_pos rfl]
      omega
    | false =>
      have hforeign := h.foreign fun hmint => by
        have hcfg := h.config
        rw [hmint] at hcfg
        simp [State.isOwnVault, hcfg] at hown
      rw [hown, if_neg (by simp)] at hold
      rw [if_neg (by simp)]
      omega
  · have hleast := h.least _ v hv (by rw [howner]; rfl) hsame
    rw [if_neg (fun hand => hsame hand.2), if_neg (fun hand => hsame hand.2)] at hdebt
    have hasked : s.isOwnVault m' tc₁.vault = true → s'.asked m' = s.asked m' := fun hown => by
      rcases eq_or_ne m' m with rfl | hne
      · refine h.foreign fun hmint => hsame ?_
        have hcfg := h.config
        rw [hmint] at hcfg
        simpa [State.isOwnVault, hcfg, eq_comm] using hown
      · exact h.others m' hne
    split_ifs at hold ⊢ with hown
    · rw [hasked hown]
      omega
    · omega

section Requests

variable {w : RedemptionRequest → ℕ} {req req' : RedemptionRequest}

lemma requests_update {k : Addr × Addr × ℕ} {q : Option RedemptionRequest}
    (h : s'.records.redemptions = Store.updates s.records.redemptions [(k, q)]) (m : Addr) :
    s'.requests w m + Store.value (ofPool (.poolState m) w) k (s.records.redemptions k) =
      s.requests w m + Store.value (ofPool (.poolState m) w) k q := by
  have hrecs : s'.redemptions.recs = Function.update s.redemptions.recs k q := h
  exact Store.total_update hrecs

/-- A request that is rewritten with the same weight. -/
lemma requests_rewrite {k : Addr × Addr × ℕ}
    (h : s'.records.redemptions = Store.updates s.records.redemptions [(k, some req')])
    (hreq : s.records.redemptions k = some req) (hsame : w req' = w req) (m : Addr) :
    s'.requests w m = s.requests w m := by
  have hex := requests_update (w := w) h m
  rw [hreq] at hex
  simp only [Store.value_some, ofPool, hsame] at hex
  omega

/-- A request that is closed. -/
lemma requests_close
    (h : s'.records.redemptions = Store.updates s.records.redemptions [(req.storeKey m, none)])
    (hreq : s.records.redemptions (req.storeKey m) = some req) (m' : Addr) :
    s'.requests w m' + (if m' = m then w req else 0) = s.requests w m' := by
  have hex := requests_update (w := w) h m'
  rw [hreq] at hex
  simpa [ofPool, RedemptionRequest.storeKey, eq_comm] using hex

/-- Requests that are opened. -/
lemma requests_open {c : Call} {plan : RedeemPlan} {p : PoolState} {t t' : CommitmentTree}
    (hre : Redeeming E s.records c plan m p tc t t')
    (h : s'.records.redemptions =
      Store.updates s.records.redemptions (plan.entries m p plan.items)) (m' : Addr) :
    s'.requests w m' = s.requests w m' +
      if m' = m then (plan.items.map fun item => w (plan.request p item)).sum else 0 := by
  have hrecs : s'.redemptions.recs =
      Store.updates s.redemptions.recs (plan.entries m p plan.items) := h
  have hex := Store.total_updates_fresh (f := ofPool (.poolState m') w)
    (by rw [plan.entries_keys]; exact hre.keys) (fun e he => by
      obtain ⟨item, hitem, rfl⟩ := List.mem_map.mp he
      exact (hre.fresh item hitem).1) hrecs
  refine hex.trans (congrArg (s.requests w m' + ·) ?_)
  rw [RedeemPlan.entries, List.map_map]
  split_ifs with heq
  · rw [heq]
    refine congrArg List.sum (List.map_congr_left fun item _ => ?_)
    exact if_pos rfl
  · refine List.sum_eq_zero fun x hx => ?_
    obtain ⟨item, -, rfl⟩ := List.mem_map.mp hx
    exact if_neg fun hpool => heq (by simpa [RedeemPlan.requestKey, eq_comm] using hpool)

lemma asked_open {c : Call} {plan : RedeemPlan} {p : PoolState} {t t' : CommitmentTree}
    (hre : Redeeming E s.records c plan m p tc t t')
    (h : s'.records.redemptions =
      Store.updates s.records.redemptions (plan.entries m p plan.items)) (m' : Addr) :
    s'.asked m' = s.asked m' + if m' = m then plan.totalRedeem else 0 := by
  rw [hre.sound.total]
  exact requests_open hre h m'

end Requests

/-- No tokens left the vaults but those of one. -/
lemma Outflow.least_of_ne {src : Addr} {amount : ℕ} (h : Outflow src amount T T') {v : Addr}
    (hne : v ≠ src) : balanceIn T v ≤ balanceIn T' v := by
  have := h.least v
  rw [if_neg hne] at this
  exact this

/-- Whoever signs with a key moves nothing out of a vault. -/
lemma not_vault_of_paid {c : Call} {t u : TokenAccount} {user : AccountInfo} {v src : Addr}
    (hkeys : c.signedByKeys = true) (hk : Kept r) (huser : user ∈ c.accounts)
    (hsigner : user.isSigner = true) (hu : r.tokens src = some u)
    (hallow : u.allows user.key = true) (ht : r.tokens v = some t)
    (hvault : t.owner.isKey = false) : v ≠ src := by
  rintro rfl
  obtain rfl : t = u := Option.some_inj.mp (ht.symm.trans hu)
  have hkey : user.key.isKey = true := by
    have := List.all_eq_true.mp hkeys user huser
    simpa [hsigner] using this
  have hnone := hk.undelegated v t ht hvault
  simp only [TokenAccount.allows, hnone, reduceCtorEq, or_false, decide_eq_true_eq] at hallow
  rw [hallow, hkey] at hvault
  exact absurd hvault (by simp)

/-! ### Every step keeps the books -/

lemma putTotals_tokenConfigs (r : Records) (m : Addr) (p : PoolState) (tc : TokenConfig) (now : ℤ) :
    (r.putTotals m p tc now).tokenConfigs =
        Function.update r.tokenConfigs (.poolState m, tc.mint) (some tc) ∧
      (r.putTotals m p tc now).redemptions = r.redemptions ∧
      (r.putTotals m p tc now).tokens = r.tokens := by
  unfold Records.putTotals
  split_ifs <;> exact ⟨rfl, rfl, rfl⟩

lemma complete_tokens (r : Records) (m : Addr) (p : PoolState) (req : RedemptionRequest)
    (tc : TokenConfig) (us : List UtxoEntry) (txid : Hash) (change : Option (Outpoint × ℕ))
    (leaf : Option Hash) (T : Addr → Option TokenAccount) (burn revenue : ℕ) (now : ℤ) :
    (r.complete m p req tc us txid change leaf T burn revenue now).tokenConfigs =
        Function.update r.tokenConfigs (.poolState m, m) (some (tc.owe 0 revenue)) ∧
      (r.complete m p req tc us txid change leaf T burn revenue now).tokens = T ∧
      (r.complete m p req tc us txid change leaf T burn revenue now).redemptions =
        Store.updates r.redemptions [(req.storeKey m, none)] := by
  cases change <;> exact ⟨rfl, rfl, rfl⟩

/-- A new token of a pool. -/
lemma Kept.register {pool mint : Addr} (h : Kept r) (hreg : Registration E r pool mint tc) :
    Kept (r.putTokenConfig (pool, mint) tc) := by
  obtain ⟨m, p, rfl, -⟩ := hreg.pool_exists
  refine ⟨fun pool' mint' tc' h' => ?_, h.undelegated, fun pool' q n req hreq => ?_⟩
  · change Function.update r.tokenConfigs _ _ _ = _ at h'
    by_cases heq : (pool', mint') = (Addr.poolState m, mint)
    · rw [heq, Function.update_self, Option.some_inj] at h'
      obtain ⟨rfl, rfl⟩ := Prod.mk.inj heq
      obtain ⟨v, hv, howner⟩ := hreg.vault
      exact h' ▸ ⟨hreg.mint_eq, m, v, rfl, hv, howner⟩
    · rw [Function.update_of_ne heq] at h'
      exact h.config _ _ _ h'
  · obtain ⟨m', tc', rfl, htc', hid⟩ := h.request _ _ _ _ hreq
    refine ⟨m', tc', rfl, ?_, hid⟩
    have hne : (Addr.poolState m', m') ≠ (.poolState m, mint) := fun heq => by
      rw [heq, hreg.fresh] at htc'
      exact absurd htc' (by simp)
    exact (Function.update_of_ne hne ..).trans htc'

lemma Effect.kept (h : Effect E s l r') (hI : Kept s.records) : Kept r' := by
  have hsame : ∀ k req', s.records.redemptions k = some req' →
      ∃ req, s.records.redemptions k = some req ∧ req'.tokenId = req.tokenId :=
    fun k req h => ⟨req, h, rfl⟩
  cases h with
  | reconfigured h =>
    obtain ⟨m, p, p', -, -, rfl⟩ := h
    exact hI.congr rfl rfl rfl
  | tokensServed h => exact hI.carry (.of_configs rfl hsame h.vaultsKept)
  | registered h => exact hI.register h
  | relimited config same =>
    exact hI.carry (.of_update rfl config ⟨same.mint, same.tokenId, same.vault⟩ hsame (.refl _))
  | claimed config covered paid =>
    exact hI.carry (.of_update rfl config ⟨rfl, rfl, rfl⟩ hsame paid.vaultsKept)
  | @shielded c c' m p tc t t' T commitment amount fee now keys h =>
    obtain ⟨hc, hr, ht⟩ := putTotals_tokenConfigs ((s.records.setTokens T).place (.poolState m)
      p.activeTreeIndex t t' [commitment]) m p (tc.owe amount fee) now
    obtain ⟨_, -, -, _, _, _, -, -, hout⟩ := h.paid
    refine hI.carry (.of_update hc h.config ⟨rfl, rfl, rfl⟩ ?_ ?_)
    · rw [Records.shield, hr]
      exact hsame
    · rw [Records.shield, ht]
      exact hout.vaultsKept
  | transacted decoded planned sound burnable outputs =>
    cases outputs <;> exact hI.congr rfl rfl rfl
  | @unshielded c c' plan m p tc t t' T amount fee now decoded planned h =>
    obtain ⟨hc, hr, ht⟩ := putTotals_tokenConfigs (((s.records.burn m p plan.sourceTreeIndex
      plan.pre.nullifiers .ApplyNow).place (.poolState m) p.activeTreeIndex t t'
        plan.treeOutputs).setTokens T) m
      (NullifierAccounting.ApplyNow.count plan.pre.nullifiers.length p) (tc.release amount fee) now
    obtain ⟨out, hout, -⟩ := h.paid
    refine hI.carry (.of_update hc h.sound.at_token.config ⟨rfl, rfl, rfl⟩ ?_ ?_)
    · rw [Records.unshield, hr]
      exact hsame
    · rw [Records.unshield, ht]
      exact hout.vaultsKept
  | @redeemed c c' plan m p tc t t' now decoded planned h =>
    refine Kept.carry (r := s.records.updateRedemptions (plan.entries m p plan.items)) ?_
      (.of_update rfl h.sound.config ⟨rfl, rfl, rfl⟩ (fun k req h => ⟨req, h, rfl⟩) (.refl _))
    refine ⟨hI.config, hI.undelegated, fun pool q n req hreq => ?_⟩
    refine Store.forall_updates (plan.entries m p plan.items)
      (P := fun k req => ∃ m tc, k.1 = .poolState m ∧
        s.records.tokenConfigs (.poolState m, m) = some tc ∧ req.tokenId = tc.tokenId)
      (fun k req h => hI.request _ _ _ _ h) ?_ _ _ hreq
    intro e he req hreq
    obtain ⟨item, -, rfl⟩ := List.mem_map.mp he
    obtain rfl := Option.some_inj.mp hreq
    exact ⟨m, tc, rfl, h.sound.config, h.sound.tokenId⟩
  | @marked c c' m p req us slot decoded h =>
    refine hI.carry (.of_configs rfl ?_ (.refl _))
    exact requests_carried h.request fun req' hreq' => by
      rw [← Option.mem_some_iff.mp hreq']
      rfl
  | @approved c c' m req req' cfg us tx fee inputIndex decoded digest index h =>
    refine hI.carry (.of_configs rfl ?_ (.refl _))
    obtain ⟨fee', hreq'⟩ := h.approved.same
    exact requests_carried h.request fun req₁ hreq₁ => by
      rw [← Option.mem_some_iff.mp hreq₁, hreq']
  | @cancelled c c' m p req tc t t' us commitment now decoded h =>
    refine hI.carry (.of_update rfl h.config ⟨rfl, rfl, rfl⟩ ?_ (.refl _))
    exact requests_carried h.request (by simp)
  | @completed c c' m p req tc us tx txid leaf T burn revenue now decoded h =>
    obtain ⟨hcfg, htok, hreqs⟩ := complete_tokens s.records m p req tc us txid c'.changeOutput leaf T
      burn revenue now
    refine hI.carry (.of_update hcfg h.config ⟨rfl, rfl, rfl⟩ ?_ ?_)
    · rw [hreqs]
      exact requests_carried h.request (by simp)
    · rw [htok]
      exact h.paid.vaultsKept
  | @deposited c c' i tweaked ix binding m p tc t t' T credit leaf commitment amount fee now decoded
      kind input credited h =>
    exact hI.carry (.of_update rfl h.config ⟨rfl, rfl, rfl⟩ hsame h.minted.vaultsKept)
  | _ => exact hI.congr rfl rfl rfl

lemma kept_of_reaches {tr : List (Step State Label)} {guard : State → Label → Prop}
    (run : Reaches (step E) guard .genesis tr s) : Kept s.records :=
  run.inv (I := fun s => Kept s.records)
    ⟨fun _ _ _ h => absurd h (by simp), fun _ _ h => absurd h (by simp),
      fun _ _ _ _ h => absurd h (by simp)⟩
    fun _ _ _ hI _ h => (step_effect h).kept hI

/-! ### Every step keeps the vaults solvent -/

/-- A token of a pool that is new owes nothing. -/
lemma Solvent.register {pool mint : Addr} (hI : Solvent s) (hk : Kept s.records)
    (hreg : Registration E s.records pool mint tc)
    (hr : s'.records = s.records.putTokenConfig (pool, mint) tc) : Solvent s' := by
  have hcfg : s'.records.tokenConfigs =
      Function.update s.records.tokenConfigs (pool, mint) (some tc) := by rw [hr]; rfl
  have htok : s'.records.tokens = s.records.tokens := by rw [hr]; rfl
  have hdebt : tc.debt = 0 := by rw [TokenConfig.debt, hreg.shielded, hreg.fees]
  have hask : ∀ m', s'.asked m' = s.asked m' := asked_congr (by rw [hr]; rfl)
  have hsame : ∀ m' v, s'.tokenDebt m' v = s.tokenDebt m' v := by
    intro m' v
    have hex := Store.total_update (f := owedFrom (.poolState m') v) (l := s.tokenConfigs) hcfg
    rw [show s.tokenConfigs.recs _ = _ from hreg.fresh] at hex
    simpa [State.tokenDebt, owedFrom, hdebt] using hex
  -- a pool whose own token is new has no requests
  have hnone : ∀ m', (pool, mint) = (Addr.poolState m', m') → s.asked m' = 0 := by
    intro m' heq
    refine Store.total_eq_zero fun k req hreq => if_neg fun hpool => ?_
    obtain ⟨m'', tc'', hp, htc'', -⟩ := hk.request k.1 k.2.1 k.2.2 req hreq
    obtain rfl : m'' = m' := by simpa using hp.symm.trans hpool
    rw [← heq, hreg.fresh] at htc''
    exact absurd htc'' (by simp)
  have howed : ∀ m' v, s'.owed m' v ≤ s.owed m' v := by
    intro m' v
    rw [State.owed, State.owed, hsame, hask]
    by_cases heq : (pool, mint) = (Addr.poolState m', m')
    · rw [hnone m' heq]
      split_ifs <;> omega
    · have hown : s'.isOwnVault m' v = s.isOwnVault m' v := by
        unfold State.isOwnVault
        rw [hcfg, Function.update_of_ne (Ne.symm heq)]
      rw [hown]
  intro m' mint' tc' htc'
  rw [htok]
  refine (howed m' tc'.vault).trans ?_
  rw [hcfg] at htc'
  by_cases heq : (Addr.poolState m', mint') = (pool, mint)
  · rw [heq, Function.update_self, Option.some_inj] at htc'
    subst htc'
    -- another token may name the vault; if none does, nothing is owed
    by_cases hnamed : ∃ k tc', s.records.tokenConfigs (.poolState m', k) = some tc' ∧
        tc'.vault = tc.vault
    · obtain ⟨k, tc', htc', hv⟩ := hnamed
      rw [← hv]
      exact hI m' k tc' htc'
    · have hzero : s.tokenDebt m' tc.vault = 0 := by
        refine Store.total_eq_zero fun k tc' hrec => if_neg fun hand => hnamed ?_
        exact ⟨k.2, tc', by rw [← hand.1]; exact hrec, hand.2⟩
      have hown : s.isOwnVault m' tc.vault = false := by
        rw [Bool.eq_false_iff]
        intro htrue
        obtain ⟨tc', htc', hv⟩ := (Option.any_eq_true _ _).mp htrue
        exact hnamed ⟨m', tc', htc', of_decide_eq_true hv⟩
      rw [State.owed, hzero, hown]
      exact Nat.zero_le _
  · rw [Function.update_of_ne heq] at htc'
    exact hI m' mint' tc' htc'

/-- A token and its vault change, and no request does. -/
lemma Moves.of_asked (hq : s'.records.redemptions = s.records.redemptions)
    (config : s.records.tokenConfigs (.poolState m, tc.mint) = some tc) (same : tc.Same tc')
    (configs : s'.records.tokenConfigs =
      Function.update s.records.tokenConfigs (.poolState m, tc.mint) (some tc'))
    (least : ∀ v t, s.records.tokens v = some t → t.owner.isKey = false → v ≠ tc.vault →
      balanceIn s.records.tokens v ≤ balanceIn s'.records.tokens v)
    (balance : tc'.debt + balanceIn s.records.tokens tc.vault ≤
      tc.debt + balanceIn s'.records.tokens tc.vault) : Moves s s' m tc tc' := by
  refine ⟨config, same, configs, fun m' _ => asked_congr hq m', fun _ => asked_congr hq m, least, ?_⟩
  rw [asked_congr hq m]
  omega

lemma TokenConfig.owe_debt (tc : TokenConfig) (n k : ℕ) : (tc.owe n k).debt = tc.debt + n + k := by
  simp only [TokenConfig.debt, TokenConfig.owe]
  omega

/-- The token of a request is the pool's own. -/
lemma Cancelling.own {p : PoolState} {req : RedemptionRequest} {t t' : CommitmentTree}
    {us : List UtxoEntry} {commitment : Hash} (hk : Kept r) (hap : TokensApart r)
    (h : Cancelling E r m p req tc t t' us commitment) : tc.mint = m := by
  obtain ⟨m', tc₀, hp, htc₀, hid⟩ := hk.request _ _ _ _ h.request
  obtain rfl : m = m' := by simpa using hp
  exact hap _ _ _ _ _ h.config htc₀ (h.tokenId.trans hid)

theorem step_solvent (hstep : step E s l = .ok s') (hI : Solvent s) (hk : Kept s.records)
    (hap : TokensApart s.records) : Solvent s' := by
  have heffect := step_effect hstep
  generalize hr : s'.records = r' at heffect
  have hidle : s'.records.tokenConfigs = s.records.tokenConfigs →
      s'.records.redemptions = s.records.redemptions → s'.records.tokens = s.records.tokens →
      Solvent s' := fun hc hq ht =>
    Idle.solvent ⟨hc, asked_congr hq, fun v t _ _ => by rw [ht]⟩ hI hk
  cases heffect with
  | quiet => exact hidle (by rw [hr]) (by rw [hr]) (by rw [hr])
  | reconfigured h =>
    obtain ⟨m, p, p', -, -, rfl⟩ := h
    exact hidle (by rw [hr]; rfl) (by rw [hr]; rfl) (by rw [hr]; rfl)
  | @tokensServed a t T h =>
    refine Idle.solvent ⟨by rw [hr]; rfl, asked_congr (by rw [hr]; rfl), fun v t hv hkey => ?_⟩ hI hk
    obtain ⟨t', ht', -, hle⟩ := h.kept v t hv hkey
    rw [hr, balanceIn_of_some hv]
    exact hle.trans (balanceIn_of_some ht').ge
  | registered h => exact hI.register hk h hr
  | @relimited c k tc tc' config same =>
    obtain ⟨hmint, m, v, hpool, hv, howner⟩ := hk.config k.1 k.2 _ config
    obtain rfl : k = (.poolState m, tc.mint) := Prod.ext hpool hmint.symm
    suffices hmoves : Moves s s' m tc tc' from hmoves.solvent hI hk
    refine .of_asked (by rw [hr]; rfl) config ⟨same.mint, same.tokenId, same.vault⟩ (by rw [hr]; rfl)
      (fun v t _ _ _ => by rw [hr]; rfl) ?_
    rw [hr, TokenConfig.debt, TokenConfig.debt, same.totalShielded, same.accumulatedFees]
    rfl
  | @claimed c m tc T amount config covered paid =>
    suffices hmoves : Moves s s' m tc (tc.claim amount) from hmoves.solvent hI hk
    refine .of_asked (by rw [hr]; rfl) config ⟨rfl, rfl, rfl⟩ (by rw [hr]; rfl) ?_ ?_
    · intro v t _ _ hne
      rw [hr]
      exact paid.least_of_ne hne
    · have hleast := paid.least tc.vault
      rw [if_pos rfl] at hleast
      rw [hr]
      change _ ≤ _ + balanceIn T tc.vault
      simp only [TokenConfig.debt, TokenConfig.claim]
      omega
  | @shielded c c' m p tc t t' T commitment amount fee now keys h =>
    obtain ⟨hc, hq, ht⟩ := putTotals_tokenConfigs ((s.records.setTokens T).place (.poolState m)
      p.activeTreeIndex t t' [commitment]) m p (tc.owe amount fee) now
    obtain ⟨user, huser, hsigner, src, u, out, hu, hallow, hout⟩ := h.paid
    suffices hmoves : Moves s s' m tc (tc.owe amount fee) from hmoves.solvent hI hk
    refine .of_asked (by rw [hr]; exact hq) h.config ⟨rfl, rfl, rfl⟩ (by rw [hr]; exact hc) ?_ ?_
    · intro v t hv hvault _
      rw [hr, Records.shield, ht]
      exact hout.least_of_ne (not_vault_of_paid keys hk huser hsigner hu hallow hv hvault)
    · have harrived := h.arrived
      rw [hr, Records.shield, ht, TokenConfig.owe_debt]
      change _ ≤ _ + balanceIn T tc.vault
      omega
  | transacted decoded planned sound burnable outputs =>
    cases outputs <;> exact hidle (by rw [hr]; rfl) (by rw [hr]; rfl) (by rw [hr]; rfl)
  | @unshielded c c' plan m p tc t t' T amount fee now decoded planned h =>
    obtain ⟨hc, hq, ht⟩ := putTotals_tokenConfigs (((s.records.burn m p plan.sourceTreeIndex
      plan.pre.nullifiers .ApplyNow).place (.poolState m) p.activeTreeIndex t t'
        plan.treeOutputs).setTokens T) m
      (NullifierAccounting.ApplyNow.count plan.pre.nullifiers.length p) (tc.release amount fee) now
    obtain ⟨out, hout, rfl⟩ := h.paid
    suffices hmoves : Moves s s' m tc (tc.release (out + fee) fee) from hmoves.solvent hI hk
    refine .of_asked (by rw [hr]; exact hq) h.sound.at_token.config ⟨rfl, rfl, rfl⟩
      (by rw [hr]; exact hc) ?_ ?_
    · intro v t _ _ hne
      rw [hr, Records.unshield, ht]
      exact hout.least_of_ne hne
    · have hleast := hout.least tc.vault
      have hcovered := h.covered
      rw [if_pos rfl] at hleast
      rw [hr, Records.unshield, ht]
      change _ ≤ _ + balanceIn T tc.vault
      simp only [TokenConfig.debt, TokenConfig.release]
      omega
  | @redeemed c c' plan m p tc t t' now decoded planned h =>
    have hask : ∀ m', s'.asked m' = s.asked m' + if m' = m then plan.totalRedeem else 0 :=
      asked_open h (by rw [hr]; rfl)
    have hcovered := h.covered
    suffices hmoves : Moves s s' m tc (tc.release plan.totalRedeem 0) from hmoves.solvent hI hk
    refine ⟨by rw [h.sound.config_mint]; exact h.sound.config, ⟨rfl, rfl, rfl⟩, ?_, fun m' hne => ?_,
      fun hne => absurd h.sound.config_mint hne, fun v t _ _ _ => by rw [hr]; rfl, ?_⟩
    · rw [hr, h.sound.config_mint]
      rfl
    · rw [hask, if_neg hne]
      rfl
    · rw [hask, if_pos rfl, hr]
      change _ ≤ _ + balanceIn s.records.tokens tc.vault
      simp only [TokenConfig.debt, TokenConfig.release]
      omega
  | @marked c c' m p req us slot decoded h =>
    have hq : s'.records.redemptions = Store.updates s.records.redemptions
        [(req.storeKey m, some (req.process E slot us))] := by rw [hr]; rfl
    exact Idle.solvent ⟨by rw [hr]; rfl, requests_rewrite hq h.request rfl,
      fun v t _ _ => by rw [hr]; rfl⟩ hI hk
  | @approved c c' m req req' cfg us tx fee inputIndex decoded digest index h =>
    obtain ⟨fee', hreq'⟩ := h.approved.same
    have hq : s'.records.redemptions =
        Store.updates s.records.redemptions [(req.storeKey m, some req')] := by rw [hr]; rfl
    exact Idle.solvent ⟨by rw [hr]; rfl, requests_rewrite hq h.request (by rw [hreq']),
      fun v t _ _ => by rw [hr]; rfl⟩ hI hk
  | @cancelled c c' m p req tc t t' us commitment now decoded h =>
    have hask : ∀ m', s'.asked m' + (if m' = m then req.amountSats else 0) = s.asked m' :=
      requests_close (by rw [hr]; rfl) h.request
    have hown := h.own hk hap
    suffices hmoves : Moves s s' m tc (tc.owe req.amountSats 0) from hmoves.solvent hI hk
    refine ⟨h.config, ⟨rfl, rfl, rfl⟩, by rw [hr]; rfl, fun m' hne => ?_, fun hne => absurd hown hne,
      fun v t _ _ _ => by rw [hr]; rfl, ?_⟩
    · rw [← hask m', if_neg hne]
      rfl
    · have := hask m
      rw [if_pos rfl] at this
      rw [hr, TokenConfig.owe_debt]
      change _ ≤ _ + balanceIn s.records.tokens tc.vault
      omega
  | @completed c c' m p req tc us tx txid leaf T burn revenue now decoded h =>
    obtain ⟨hcfg, htok, hreqs⟩ := complete_tokens s.records m p req tc us txid c'.changeOutput leaf T
      burn revenue now
    have hmint : tc.mint = m := (hk.config _ _ _ h.config).1
    have hask : ∀ m', s'.asked m' + (if m' = m then req.amountSats else 0) = s.asked m' :=
      requests_close (by rw [hr]; exact hreqs) h.request
    suffices hmoves : Moves s s' m tc (tc.owe 0 revenue) from hmoves.solvent hI hk
    refine ⟨by rw [hmint]; exact h.config, ⟨rfl, rfl, rfl⟩, by rw [hr, hmint]; exact hcfg,
      fun m' hne => ?_, fun hne => absurd hmint hne, fun v t _ _ hne => ?_, ?_⟩
    · rw [← hask m', if_neg hne]
      rfl
    · rw [hr, htok]
      exact h.paid.least_of_ne hne
    · have hm := hask m
      have hleast := h.paid.least tc.vault
      have hamount := h.settlement.amount
      rw [if_pos rfl] at hm hleast
      rw [hr, htok, TokenConfig.owe_debt]
      omega
  | @deposited c c' i tweaked ix binding m p tc t t' T credit leaf commitment amount fee now decoded
      kind input credited h =>
    suffices hmoves : Moves s s' m tc (tc.owe amount fee) from hmoves.solvent hI hk
    refine .of_asked (by rw [hr]; rfl) (by rw [h.config_mint]; exact h.config) ⟨rfl, rfl, rfl⟩
      (by rw [hr, h.config_mint]; rfl) ?_ ?_
    · intro v t _ _ hne
      rw [hr]
      exact h.minted.least_of_ne hne
    · have harrived := h.arrived
      have hamount := h.amount
      rw [hr, TokenConfig.owe_debt]
      change _ ≤ _ + balanceIn T tc.vault
      omega
  | _ => exact hidle (by rw [hr]; rfl) (by rw [hr]; rfl) (by rw [hr]; rfl)

/-! ### Runs -/

/-- **Vaults are solvent**: in every run in which no two tokens of a pool get the same id, every
vault holds at least what the tokens that name it have on their books, and the vault of the pool's
own token the amounts of all live requests as well. -/
theorem solvent_of_reaches {tr : List (Step State Label)}
    (run : Reaches (step E) (fun s _ => TokensApart s.records) .genesis tr s) : Solvent s := by
  refine run.history (I := fun _ s => Solvent s) (fun m mint tc h => absurd h (by simp)) ?_
  intro tr s l s' hrun hI hap hstep
  exact step_solvent hstep hI (kept_of_reaches hrun) hap

namespace Regtest

def otherVault : Addr := .key (toLe 32 71)

/-- Another mint that stands for the same number of the field. -/
def collidingMint : Hash := reduceToFieldExact (toLe 32 60)

/-- A token with the id of the pool's own, and a vault of its own. -/
def registerColliding : List Label :=
  [.tokenChange otherVault (some ⟨.Token2022, .key collidingMint, pool, none, 0⟩),
    call 8 [signer admin, readonly pool, readonly (.key collidingMint),
      writable (.tokenConfig pool (.key collidingMint)), readonly otherVault, system]
      (leBytes 8 0 ++ leBytes 8 1 ++ leBytes 8 (2 ^ 40) ++ leBytes 8 (2 ^ 50))
      [(collidingMint, mintAccount zkbtc)] 0]

/-- A deposit, part of it redeemed and taken back as a note of a token. -/
def takenBackAs (mint : Addr) : List Label :=
  [completeDeposit 0 sweepTx sweepTx 0,
    redeem 0 (zeroHash treeDepth) (note 1) recipientScript 30000 7, cancelRedemption mint 7 [] 0]

lemma run_takenBackAsOther : ((exec (step env) (fun _ _ => true) .genesis
    (openBook ++ registerColliding ++ takenBackAs (.key collidingMint))).any fun s =>
      (s.records.tokenConfigs (pool, .key collidingMint)).any fun tc =>
        balanceIn s.records.tokens tc.vault < s.owed zkbtc tc.vault) = true := by
  decide +kernel

/-- At most the pool's own token is registered. -/
def oneToken (s : State) (_ : Label) : Bool := s.tokenConfigs.dom ⊆ {(pool, zkbtc)}

lemma tokensApart_of_oneToken {s : State} {l : Label} (h : oneToken s l = true) :
    TokensApart s.records := by
  have hkey : ∀ k tc, s.records.tokenConfigs k = some tc → k = (pool, zkbtc) := by
    intro k tc hk
    by_contra hne
    have hout : k ∉ s.tokenConfigs.dom := fun hmem =>
      hne (Finset.mem_singleton.mp (of_decide_eq_true h hmem))
    have hget : (s.tokenConfigs.get k).rec? = some tc := hk
    rw [s.tokenConfigs.outside k hout] at hget
    exact absurd hget (by simp [Account.rec?])
  intro p mint mint' tc tc' htc htc' _
  have h₁ := hkey _ _ htc
  have h₂ := hkey _ _ htc'
  exact congrArg Prod.snd (h₁.trans h₂.symm)

lemma run_takenBack :
    (exec (step env) oneToken .genesis (openBook ++ takenBackAs zkbtc)).isSome = true := by
  decide +kernel

end Regtest

open Regtest in
/-- **A vault that cannot pay**: the mints of two tokens reduce to the same number, and a request
for the one is taken back as a note of the other. -/
theorem vault_insolvent : ∃ (tr : List (Step State Label)) (s : State),
    Reaches (step env) (fun _ _ => True) .genesis tr s ∧ ¬ Solvent s := by
  obtain ⟨s, hs, hbad⟩ := (Option.any_eq_true _ _).mp run_takenBackAsOther
  obtain ⟨tc, htc, hless⟩ := (Option.any_eq_true _ _).mp hbad
  obtain ⟨tr, -, hrun⟩ := reaches_of_exec (fun _ _ _ => trivial) hs
  refine ⟨tr, s, hrun, fun hsolvent => ?_⟩
  have hle := hsolvent _ _ _ htc
  exact absurd (of_decide_eq_true hless) (not_lt.mpr hle)

open Regtest in
/-- One token, a deposit and a request that is taken back. -/
theorem solvent_of_reaches_takenBack : ∃ (tr : List (Step State Label)) (s : State),
    tr.map Step.call = openBook ++ takenBackAs zkbtc ∧ Solvent s := by
  obtain ⟨s, hs⟩ := Option.isSome_iff_exists.mp run_takenBack
  obtain ⟨tr, hcalls, hrun⟩ := reaches_of_exec (fun _ _ => tokensApart_of_oneToken) hs
  exact ⟨tr, s, hcalls, solvent_of_reaches hrun⟩

end Utxopia.Pool
