import Utxopia.Pool.Fixed

/-!
Whether one token is ever paid with another.

Registering a token does not tie its vault to its mint: several tokens may name one vault, and a
vault may hold another mint. Tokens arrive under a config only in its own mint, and no more leaves
under it than arrived, because what is paid out is taken off the config's own totals.
-/

namespace Utxopia.Pool

open Utxopia.ByteString Utxopia.Check Utxopia.Run Utxopia.Runtime

variable {E : Env} {s s' : State} {l : Label} {m mint : Addr} {tc tc' : TokenConfig}
  {T : Addr → Option TokenAccount} {st : Step State Label}

/-! ### Under which token -/

/-- The token that an instruction brings in. -/
def Instruction.receives (c : Call) : Instruction → Option (Addr × Addr)
  | .Shield | .ShieldPermissioned => c.configAt 3
  | .CompleteDeposit | .CompleteDepositPermissioned | .VerifyDeposit | .VerifyDepositPermissioned =>
    c.configAt 13
  | _ => none

/-- The token that an instruction pays out or burns. -/
def Instruction.pays (c : Call) : Instruction → Option (Addr × Addr)
  | .Unshield => c.configAt 5
  | .ClaimFees => c.configAt 2
  | .CompleteRedemption => c.configAt (c.consumedRange.1 + c.consumedRange.2)
  | _ => none

def Label.receives (E : Env) : Label → Option (Addr × Addr)
  | .call c => (c.decode E).bind fun d => d.1.receives d.2
  | _ => none

def Label.pays (E : Env) : Label → Option (Addr × Addr)
  | .call c => (c.decode E).bind fun d => d.1.pays d.2
  | _ => none

/-- What the vault of a token has, if the token is registered. -/
def vaultBalance (tc : Option TokenConfig) (T : Addr → Option TokenAccount) : ℕ :=
  tc.elim 0 fun tc => balanceIn T tc.vault

/-- What a step brought into the token's vault under the token. -/
def received (E : Env) (k : Addr × Addr) (st : Step State Label) : ℕ :=
  if st.call.receives E = some k then
    vaultBalance (st.pre.records.tokenConfigs k) st.post.records.tokens -
      vaultBalance (st.pre.records.tokenConfigs k) st.pre.records.tokens
  else 0

/-- What a step paid or burnt out of the token's vault under the token. -/
def paidOut (E : Env) (k : Addr × Addr) (st : Step State Label) : ℕ :=
  if st.call.pays E = some k then
    vaultBalance (st.pre.records.tokenConfigs k) st.pre.records.tokens -
      vaultBalance (st.pre.records.tokenConfigs k) st.post.records.tokens
  else 0

/-- What is on the books for a token: shielded, as fees, and as live requests for the pool's own. -/
def State.booked (s : State) (m mint : Addr) : ℕ :=
  ((s.records.tokenConfigs (.poolState m, mint)).elim 0 TokenConfig.debt) +
    if mint = m then s.asked m else 0

/-- The token's vault is an account of its own mint. -/
def OwnVault (s : State) (m mint : Addr) : Prop :=
  ∃ tc v, s.records.tokenConfigs (.poolState m, mint) = some tc ∧
    s.records.tokens tc.vault = some v ∧ v.mint = mint

/-! ### Steps -/

/-- What a step does under one token: the books and what left stay below what came, and what came
is of the token's own mint. -/
structure Separate (E : Env) (m mint : Addr) (st : Step State Label) : Prop where
  books : st.post.booked m mint + paidOut E (.poolState m, mint) st ≤
    st.pre.booked m mint + received E (.poolState m, mint) st
  own : received E (.poolState m, mint) st ≠ 0 → OwnVault st.pre m mint

section Nothing

variable {k : Addr × Addr}

lemma received_eq_zero
    (h : st.call.receives E ≠ some k ∨ st.post.records.tokens = st.pre.records.tokens) :
    received E k st = 0 := by
  unfold received
  split_ifs with hk
  · rw [h.resolve_left (not_not.mpr hk), Nat.sub_self]
  · rfl

lemma paidOut_eq_zero
    (h : st.call.pays E ≠ some k ∨ st.post.records.tokens = st.pre.records.tokens) :
    paidOut E k st = 0 := by
  unfold paidOut
  split_ifs with hk
  · rw [h.resolve_left (not_not.mpr hk), Nat.sub_self]
  · rfl

end Nothing

/-- The books of other tokens than the one that a step rewrites. -/
lemma booked_of_ne {m₀ mint₀ : Addr} (hne : (m, mint) ≠ (m₀, mint₀))
    (hcfg : s'.records.tokenConfigs =
      Function.update s.records.tokenConfigs (.poolState m₀, mint₀) (some tc'))
    (hask : ∀ m, (m, m) ≠ (m₀, mint₀) → s'.asked m = s.asked m) :
    s'.booked m mint = s.booked m mint := by
  have hk : (Addr.poolState m, mint) ≠ (.poolState m₀, mint₀) := by simpa using hne
  rw [State.booked, State.booked, hcfg, Function.update_of_ne hk]
  split_ifs with hm
  · subst hm
    rw [hask _ hne]
  · rfl

lemma booked_of_update
    (hcfg : s'.records.tokenConfigs =
      Function.update s.records.tokenConfigs (.poolState m, mint) (some tc')) :
    s'.booked m mint = tc'.debt + if mint = m then s'.asked m else 0 := by
  rw [State.booked, hcfg, Function.update_self]
  rfl

lemma booked_of_some (htc : s.records.tokenConfigs (.poolState m, mint) = some tc) :
    s.booked m mint = tc.debt + if mint = m then s.asked m else 0 := by
  rw [State.booked, htc]
  rfl

/-- A step that moves no tokens and leaves the books alone. -/
lemma Separate.of_same (hcfg : st.post.records.tokenConfigs = st.pre.records.tokenConfigs)
    (hask : ∀ m, st.post.asked m = st.pre.asked m)
    (hstill : (st.call.receives E = none ∧ st.call.pays E = none) ∨
      st.post.records.tokens = st.pre.records.tokens) (m mint : Addr) : Separate E m mint st := by
  have hin : received E (.poolState m, mint) st = 0 :=
    received_eq_zero (hstill.imp_left fun h => by rw [h.1]; simp)
  have hout : paidOut E (.poolState m, mint) st = 0 :=
    paidOut_eq_zero (hstill.imp_left fun h => by rw [h.2]; simp)
  refine ⟨?_, fun hne => absurd hin hne⟩
  rw [hin, hout, State.booked, State.booked, hcfg, hask]

/-- A step that rewrites the books of one token and moves tokens under that one only. -/
lemma Separate.of_update {m₀ : Addr}
    (hcfg : st.pre.records.tokenConfigs (.poolState m₀, tc.mint) = some tc)
    (hupd : st.post.records.tokenConfigs =
      Function.update st.pre.records.tokenConfigs (.poolState m₀, tc.mint) (some tc'))
    (hask : ∀ m, (m, m) ≠ (m₀, tc.mint) → st.post.asked m = st.pre.asked m)
    (hstill : (∀ k ≠ (.poolState m₀, tc.mint), st.call.receives E ≠ some k ∧
      st.call.pays E ≠ some k) ∨ st.post.records.tokens = st.pre.records.tokens)
    (hbooks : tc'.debt + (if tc.mint = m₀ then st.post.asked m₀ else 0) +
        paidOut E (.poolState m₀, tc.mint) st ≤
      tc.debt + (if tc.mint = m₀ then st.pre.asked m₀ else 0) +
        received E (.poolState m₀, tc.mint) st)
    (hown : received E (.poolState m₀, tc.mint) st ≠ 0 → OwnVault st.pre m₀ tc.mint)
    (m mint : Addr) : Separate E m mint st := by
  by_cases heq : (m, mint) = (m₀, tc.mint)
  · obtain ⟨rfl, rfl⟩ := Prod.mk.inj heq
    refine ⟨?_, hown⟩
    rw [booked_of_update hupd, booked_of_some hcfg]
    exact hbooks
  · have hk : (Addr.poolState m, mint) ≠ (.poolState m₀, tc.mint) := by simpa using heq
    have hin : received E (.poolState m, mint) st = 0 :=
      received_eq_zero (hstill.imp_left fun h => (h _ hk).1)
    have hout : paidOut E (.poolState m, mint) st = 0 :=
      paidOut_eq_zero (hstill.imp_left fun h => (h _ hk).2)
    refine ⟨?_, fun hne => absurd hin hne⟩
    rw [hin, hout, booked_of_ne heq hupd hask]

/-- Tokens arrive under a token. -/
lemma received_of_named {k : Addr × Addr} (hl : st.call.receives E = some k)
    (hcfg : st.pre.records.tokenConfigs k = some tc) :
    received E k st =
      balanceIn st.post.records.tokens tc.vault - balanceIn st.pre.records.tokens tc.vault := by
  rw [received, if_pos hl, hcfg]
  rfl

lemma paidOut_of_named {k : Addr × Addr} (hl : st.call.pays E = some k)
    (hcfg : st.pre.records.tokenConfigs k = some tc) :
    paidOut E k st =
      balanceIn st.pre.records.tokens tc.vault - balanceIn st.post.records.tokens tc.vault := by
  rw [paidOut, if_pos hl, hcfg]
  rfl

section One

variable (m₀ : Addr) (tc tc' : TokenConfig)
  (hcfg : st.pre.records.tokenConfigs (.poolState m₀, tc.mint) = some tc)
  (hupd : st.post.records.tokenConfigs =
    Function.update st.pre.records.tokenConfigs (.poolState m₀, tc.mint) (some tc'))

include hcfg hupd

/-- The books of one token change, and no tokens move. -/
lemma Separate.of_still (htok : st.post.records.tokens = st.pre.records.tokens)
    (hask : ∀ m, (m, m) ≠ (m₀, tc.mint) → st.post.asked m = st.pre.asked m)
    (hbooks : tc'.debt + (if tc.mint = m₀ then st.post.asked m₀ else 0) ≤
      tc.debt + if tc.mint = m₀ then st.pre.asked m₀ else 0) (m mint : Addr) :
    Separate E m mint st := by
  have hzero : received E (.poolState m₀, tc.mint) st = 0 := received_eq_zero (.inr htok)
  refine .of_update hcfg hupd hask (.inr htok) ?_ (fun hne => absurd hzero hne) m mint
  rw [hzero, paidOut_eq_zero (.inr htok)]
  exact hbooks

/-- Tokens of its own mint arrive under a token. -/
lemma Separate.of_inflow {n : ℕ} (hin : st.call.receives E = some (.poolState m₀, tc.mint))
    (hout : st.call.pays E = none) (hask : ∀ m, st.post.asked m = st.pre.asked m)
    (hdebt : tc'.debt = tc.debt + n)
    (harrived : balanceIn st.pre.records.tokens tc.vault + n ≤
      balanceIn st.post.records.tokens tc.vault)
    (hvault : ∃ v, st.pre.records.tokens tc.vault = some v ∧ v.mint = tc.mint) (m mint : Addr) :
    Separate E m mint st := by
  obtain ⟨v, hv, hmint⟩ := hvault
  refine .of_update hcfg hupd (fun m _ => hask m) (.inl fun k hne => ⟨?_, by rw [hout]; simp⟩) ?_
    (fun _ => ⟨tc, v, hcfg, hv, hmint⟩) m mint
  · rw [hin]
    simpa [eq_comm] using hne
  · rw [received_of_named hin hcfg, paidOut_eq_zero (.inl (by rw [hout]; simp)), hask, hdebt]
    omega

/-- Tokens leave under a token, and its books go down by as much. -/
lemma Separate.of_outflow {n : ℕ} (hin : st.call.receives E = none)
    (hout : st.call.pays E = some (.poolState m₀, tc.mint))
    (hask : ∀ m, (m, m) ≠ (m₀, tc.mint) → st.post.asked m = st.pre.asked m)
    (hbooks : tc'.debt + (if tc.mint = m₀ then st.post.asked m₀ else 0) + n ≤
      tc.debt + if tc.mint = m₀ then st.pre.asked m₀ else 0)
    (hpaid : Outflow tc.vault n st.pre.records.tokens st.post.records.tokens) (m mint : Addr) :
    Separate E m mint st := by
  have hzero : received E (.poolState m₀, tc.mint) st = 0 :=
    received_eq_zero (.inl (by rw [hin]; simp))
  have hleast := hpaid.least tc.vault
  rw [if_pos rfl] at hleast
  refine .of_update hcfg hupd hask (.inl fun k hne => ⟨by rw [hin]; simp, ?_⟩) ?_
    (fun hne => absurd hzero hne) m mint
  · rw [hout]
    simpa [eq_comm] using hne
  · rw [hzero, paidOut_of_named hout hcfg]
    omega

end One

/-- No tokens arrive under a token that is not registered. -/
lemma separate_registered {pool mint₀ : Addr}
    (hreg : Registration E st.pre.records pool mint₀ tc)
    (hr : st.post.records = st.pre.records.putTokenConfig (pool, mint₀) tc) (m mint : Addr) :
    Separate E m mint st := by
  have htok : st.post.records.tokens = st.pre.records.tokens := by rw [hr]; rfl
  have hask : st.post.asked m = st.pre.asked m := asked_congr (by rw [hr]; rfl) m
  have hin : received E (.poolState m, mint) st = 0 := received_eq_zero (.inr htok)
  have hout : paidOut E (.poolState m, mint) st = 0 := paidOut_eq_zero (.inr htok)
  refine ⟨?_, fun hne => absurd hin hne⟩
  rw [hin, hout, State.booked, State.booked, hask, hr]
  change (Function.update st.pre.records.tokenConfigs (pool, mint₀) (some tc) _).elim 0 _ + _ + 0 ≤ _
  by_cases heq : (Addr.poolState m, mint) = (pool, mint₀)
  · rw [heq, Function.update_self, hreg.fresh]
    simp [TokenConfig.debt, hreg.shielded, hreg.fees]
  · rw [Function.update_of_ne heq]

lemma decoded_receives {c c' : Call} {i : Instruction} (hd : c.decode E = some (i, c')) :
    (Label.call c).receives E = i.receives c' := by
  rw [Label.receives, hd]
  rfl

lemma decoded_pays {c c' : Call} {i : Instruction} (hd : c.decode E = some (i, c')) :
    (Label.call c).pays E = i.pays c' := by
  rw [Label.pays, hd]
  rfl

lemma configAt_of_planUnshield {c : Call} {plan : UnshieldPlan} {pool mint : Addr}
    (h : planUnshield E s c = .ok plan) (hk : plan.tokenConfig.key = .tokenConfig pool mint) :
    c.configAt 5 = some (pool, mint) := by
  simp only [planUnshield, bind_eq_ok, exists_unit, pure_eq_ok] at h
  obtain ⟨_, -, -, -, _, -, _, -, _, -, _, -, _, -, _, -, _, -, _, hca, _, -, _, -, -, -, -, h⟩ := h
  obtain ⟨-, _, -, -, -, -, -, -, -, _, -, -, _, -, -, _, -, -, -, -, _, -, _, -, _, -, _, h⟩ := h
  obtain ⟨-, -, -, _, -, _, -, -, _, -, -, rfl⟩ := h
  exact configAt_of_account hca hk

/-- **Every step keeps tokens apart**. -/
theorem step_separate (hstep : step E s l = .ok s') (hk : Kept s.records)
    (hap : TokensApart s.records) (m mint : Addr) : Separate E m mint ⟨s, l, s'⟩ := by
  have heffect := step_effect hstep
  generalize hr : s'.records = r' at heffect
  have hidle : s'.records.tokenConfigs = s.records.tokenConfigs →
      s'.records.redemptions = s.records.redemptions → s'.records.tokens = s.records.tokens →
      Separate E m mint ⟨s, l, s'⟩ := fun hc hq ht =>
    Separate.of_same hc (asked_congr hq) (.inr ht) m mint
  cases heffect with
  | quiet => exact hidle (by rw [hr]) (by rw [hr]) (by rw [hr])
  | reconfigured h =>
    obtain ⟨m, p, p', -, -, rfl⟩ := h
    exact hidle (by rw [hr]; rfl) (by rw [hr]; rfl) (by rw [hr]; rfl)
  | tokensServed h =>
    exact .of_same (by rw [hr]; rfl) (asked_congr (by rw [hr]; rfl)) (.inl ⟨rfl, rfl⟩) m mint
  | registered h => exact separate_registered h hr m mint
  | @relimited c k tc tc' config same =>
    obtain ⟨hmint, m₀, v, hpool, hv, howner⟩ := hk.config k.1 k.2 _ config
    obtain rfl : k = (.poolState m₀, tc.mint) := Prod.ext hpool hmint.symm
    have hask : ∀ m, s'.asked m = s.asked m := asked_congr (by rw [hr]; rfl)
    refine .of_still m₀ tc tc' config (by rw [hr]; rfl) (by rw [hr]; rfl) (fun m _ => hask m) ?_ m mint
    rw [hask, TokenConfig.debt, TokenConfig.debt, same.totalShielded, same.accumulatedFees]
  | @claimed c m₀ tc T amount config covered paid c' decoded token =>
    have hask : ∀ m, s'.asked m = s.asked m := asked_congr (by rw [hr]; rfl)
    refine .of_outflow m₀ tc (tc.claim amount) config (by rw [hr]; rfl) (decoded_receives decoded)
      ((decoded_pays decoded).trans token) (fun m _ => hask m) ?_ (by rw [hr]; exact paid) m mint
    rw [hask]
    simp only [TokenConfig.debt, TokenConfig.claim]
    omega
  | @shielded c c' m₀ p tc t t' T commitment amount fee now keys h i decoded entry =>
    obtain ⟨hc, hq, ht⟩ := putTotals_tokenConfigs ((s.records.setTokens T).place (.poolState m₀)
      p.activeTreeIndex t t' [commitment]) m₀ p (tc.owe amount fee) now
    refine .of_inflow m₀ tc (tc.owe amount fee) (n := amount + fee) h.config (by rw [hr]; exact hc)
      ((decoded_receives decoded).trans ?_) ((decoded_pays decoded).trans ?_)
      (asked_congr (by rw [hr]; exact hq)) ?_ ?_ h.vault_mint m mint
    · rcases entry with rfl | rfl <;> exact h.token
    · rcases entry with rfl | rfl <;> rfl
    · rw [TokenConfig.owe_debt]
      omega
    · rw [hr, Records.shield, ht]
      exact h.arrived
  | transacted decoded planned sound burnable outputs =>
    cases outputs <;> exact hidle (by rw [hr]; rfl) (by rw [hr]; rfl) (by rw [hr]; rfl)
  | @unshielded c c' plan m₀ p tc t t' T amount fee now decoded planned h =>
    obtain ⟨hc, hq, ht⟩ := putTotals_tokenConfigs (((s.records.burn m₀ p plan.sourceTreeIndex
      plan.pre.nullifiers .ApplyNow).place (.poolState m₀) p.activeTreeIndex t t'
        plan.treeOutputs).setTokens T) m₀
      (NullifierAccounting.ApplyNow.count plan.pre.nullifiers.length p) (tc.release amount fee) now
    obtain ⟨out, hout, rfl⟩ := h.paid
    have hcovered := h.covered
    have hask : ∀ m, s'.asked m = s.asked m := asked_congr (by rw [hr]; exact hq)
    have hpays : (Label.call c).pays E = some (.poolState m₀, tc.mint) :=
      (decoded_pays decoded).trans (configAt_of_planUnshield planned h.sound.at_token.config_key)
    refine .of_outflow m₀ tc (tc.release (out + fee) fee) (n := out) h.sound.at_token.config
      (by rw [hr]; exact hc) (decoded_receives decoded) hpays (fun m _ => hask m) ?_ ?_ m mint
    · rw [hask]
      simp only [TokenConfig.debt, TokenConfig.release]
      omega
    · rw [hr, Records.unshield, ht]
      exact hout
  | @redeemed c c' plan m₀ p tc t t' now decoded planned h =>
    have hask : ∀ m, s'.asked m = s.asked m + if m = m₀ then plan.totalRedeem else 0 :=
      asked_open h (by rw [hr]; rfl)
    have hcovered := h.covered
    have hmint := h.sound.config_mint
    refine .of_still m₀ tc (tc.release plan.totalRedeem 0)
      (by rw [hmint]; exact h.sound.config) (by rw [hr, hmint]; rfl) (by rw [hr]; rfl)
      (fun m hne => ?_) ?_ m mint
    · rw [hask, if_neg (fun heq => hne (by rw [heq, hmint])), Nat.add_zero]
    · rw [hask, if_pos hmint, if_pos hmint, if_pos rfl]
      simp only [TokenConfig.debt, TokenConfig.release]
      omega
  | @marked c c' m₀ p req us slot decoded h =>
    have hq : s'.records.redemptions = Store.updates s.records.redemptions
        [(req.storeKey m₀, some (req.process E slot us))] := by rw [hr]; rfl
    have hask : ∀ m, s'.asked m = s.asked m := requests_rewrite hq h.request rfl
    exact .of_same (by rw [hr]; rfl) hask (.inr (by rw [hr]; rfl)) m mint
  | @approved c c' m₀ req req' cfg us tx fee inputIndex decoded digest index h =>
    obtain ⟨fee', hreq'⟩ := h.approved.same
    have hq : s'.records.redemptions =
        Store.updates s.records.redemptions [(req.storeKey m₀, some req')] := by rw [hr]; rfl
    have hask : ∀ m, s'.asked m = s.asked m := requests_rewrite hq h.request (by rw [hreq'])
    exact .of_same (by rw [hr]; rfl) hask (.inr (by rw [hr]; rfl)) m mint
  | @cancelled c c' m₀ p req tc t t' us commitment now decoded h =>
    have hask : ∀ m, s'.asked m + (if m = m₀ then req.amountSats else 0) = s.asked m :=
      requests_close (by rw [hr]; rfl) h.request
    have hmint := h.own hk hap
    refine .of_still m₀ tc (tc.owe req.amountSats 0) h.config (by rw [hr]; rfl) (by rw [hr]; rfl)
      (fun m hne => ?_) ?_ m mint
    · rw [← hask m, if_neg (fun heq => hne (by rw [heq, hmint])), Nat.add_zero]
    · have hm := hask m₀
      rw [if_pos rfl] at hm
      rw [if_pos hmint, if_pos hmint, TokenConfig.owe_debt]
      dsimp only
      omega
  | @completed c c' m₀ p req tc us tx txid leaf T burn revenue now decoded h named token =>
    obtain ⟨hc, htok, hreqs⟩ := complete_tokens s.records m₀ p req tc us txid c'.changeOutput leaf T
      burn revenue now
    have hask : ∀ m, s'.asked m + (if m = m₀ then req.amountSats else 0) = s.asked m :=
      requests_close (by rw [hr]; exact hreqs) h.request
    have hmint := h.config_mint
    refine .of_outflow m₀ tc (tc.owe 0 revenue) (n := burn)
      (by rw [hmint]; exact h.config) (by rw [hr, hmint]; exact hc) (decoded_receives decoded)
      ((decoded_pays decoded).trans (by rw [hmint]; exact token)) (fun m hne => ?_) ?_ ?_ m mint
    · rw [← hask m, if_neg (fun heq => hne (by rw [heq, hmint])), Nat.add_zero]
    · have hm := hask m₀
      have hamount := h.settlement.amount
      rw [if_pos rfl] at hm
      rw [if_pos hmint, if_pos hmint, TokenConfig.owe_debt]
      dsimp only
      omega
    · rw [hr, htok]
      exact h.paid
  | @deposited c c' i tweaked ix binding m₀ p tc t t' T credit leaf commitment amount fee now decoded
      kind input credited h token =>
    have hmint := h.config_mint
    refine .of_inflow m₀ tc (tc.owe amount fee) (n := amount + fee)
      (by rw [hmint]; exact h.config) (by rw [hr, hmint]; rfl) ((decoded_receives decoded).trans ?_)
      ((decoded_pays decoded).trans ?_) (asked_congr (by rw [hr]; rfl)) ?_ ?_ h.vault_mint m mint
    · rw [hmint, ← token]
      cases i <;> simp [Instruction.tweaked] at kind <;> rfl
    · cases i <;> simp [Instruction.tweaked] at kind <;> rfl
    · rw [TokenConfig.owe_debt]
      omega
    · rw [hr]
      exact (h.arrived.trans (by rw [h.amount])).ge
  | _ => exact hidle (by rw [hr]; rfl) (by rw [hr]; rfl) (by rw [hr]; rfl)

/-- Vaults keep their mint. -/
lemma step_ownVault (hstep : step E s l = .ok s') (hk : Kept s.records) (h : OwnVault s m mint) :
    OwnVault s' m mint := by
  obtain ⟨tc, v, htc, hv, hmint⟩ := h
  obtain ⟨-, m₀, w, -, hw, howner⟩ := hk.config _ _ _ htc
  obtain rfl : v = w := Option.some_inj.mp (hv.symm.trans hw)
  obtain ⟨tc', htc', hfixed⟩ := step_fixed hstep htc
  obtain ⟨v', hv', hl⟩ := step_account hstep hv (by rw [howner]; rfl)
  have hvault : tc'.vault = tc.vault := (congrArg (fun x => x.2.2.1) hfixed :)
  exact ⟨tc', v', htc', by rw [hvault]; exact hv', hl.mint.trans hmint⟩

/-! ### Runs -/

/-- Over a run so far: what left under a token and what is on its books is at most what came under
it; a token with anything on its books has a vault of its own mint. -/
structure Apart (E : Env) (tr : List (Step State Label)) (s : State) (m mint : Addr) : Prop where
  covered : (tr.map (paidOut E (.poolState m, mint))).sum + s.booked m mint ≤
    (tr.map (received E (.poolState m, mint))).sum
  own : s.booked m mint ≠ 0 → OwnVault s m mint
  moved : ∀ st ∈ tr, received E (.poolState m, mint) st ≠ 0 ∨ paidOut E (.poolState m, mint) st ≠ 0 →
    OwnVault st.pre m mint

lemma Apart.step {tr : List (Step State Label)} (h : Apart E tr st.pre m mint)
    (hsep : Separate E m mint st)
    (hvault : OwnVault st.pre m mint → OwnVault st.post m mint) :
    Apart E (tr ++ [st]) st.post m mint := by
  have hbooks := hsep.books
  have hcovered := h.covered
  -- whatever is on the books or leaves was there before or has just arrived
  have hown : st.post.booked m mint ≠ 0 ∨ paidOut E (.poolState m, mint) st ≠ 0 ∨
      received E (.poolState m, mint) st ≠ 0 → OwnVault st.pre m mint := by
    intro hne
    by_cases hin : received E (.poolState m, mint) st = 0
    · exact h.own (by omega)
    · exact hsep.own hin
  refine ⟨?_, fun hne => hvault (hown (.inl hne)), fun x hx hne => ?_⟩
  · simp only [List.map_append, List.map_singleton, List.sum_append, List.sum_singleton]
    omega
  · rcases List.mem_append.mp hx with hx | hx
    · exact h.moved x hx hne
    · obtain rfl := List.mem_singleton.mp hx
      exact hown (.inr hne.symm)

theorem apart_of_reaches {tr : List (Step State Label)}
    (run : Reaches (step E) (fun s _ => TokensApart s.records) .genesis tr s) (m mint : Addr) :
    Apart E tr s m mint := by
  have hnone : State.genesis.booked m mint = 0 := by
    have hask : State.genesis.asked m = 0 := rfl
    rw [State.booked, hask, ite_self]
    rfl
  refine run.history (I := fun tr s => Apart E tr s m mint)
    ⟨?_, fun hne => absurd hnone hne, by simp⟩ ?_
  · simp [hnone]
  · intro tr s l s' hrun hI hap hstep
    have hk := kept_of_reaches hrun
    exact Apart.step hI (step_separate hstep hk hap m mint) (step_ownVault hstep hk)

/-- What holds of the tokens of a run. -/
structure TokensSeparated (E : Env) (tr : List (Step State Label)) (s : State) : Prop where
  moved : ∀ st ∈ tr, ∀ m mint, received E (.poolState m, mint) st ≠ 0 ∨
    paidOut E (.poolState m, mint) st ≠ 0 → OwnVault st.pre m mint
  foreign : ∀ m mint tc v, s.records.tokenConfigs (.poolState m, mint) = some tc →
    s.records.tokens tc.vault = some v → v.mint ≠ mint →
    tc.totalShielded = 0 ∧ tc.accumulatedFees = 0
  covered : ∀ m mint tc, s.records.tokenConfigs (.poolState m, mint) = some tc →
    (tr.map (paidOut E (.poolState m, mint))).sum + (tc.totalShielded + tc.accumulatedFees +
      if mint = m then s.asked m else 0) ≤ (tr.map (received E (.poolState m, mint))).sum

/-- **Tokens are separate**: in every run in which no two tokens of a pool get the same id, tokens
move under a token's config only in its own mint, a token with a vault of another mint has nothing
on its books, and what was paid or burnt under a token and is still on its books is at most what
was received under it. -/
theorem tokens_separated {tr : List (Step State Label)}
    (run : Reaches (step E) (fun s _ => TokensApart s.records) .genesis tr s) :
    TokensSeparated E tr s := by
  refine ⟨fun st hst m mint => (apart_of_reaches run m mint).moved st hst, ?_, ?_⟩
  · intro m mint tc v htc hv hne
    have hzero : s.booked m mint = 0 := by
      by_contra hbooked
      obtain ⟨tc', v', htc', hv', hmint⟩ := (apart_of_reaches run m mint).own hbooked
      obtain rfl := Option.some_inj.mp (htc.symm.trans htc')
      obtain rfl := Option.some_inj.mp (hv.symm.trans hv')
      exact hne hmint
    rw [booked_of_some htc, TokenConfig.debt] at hzero
    omega
  · intro m mint tc htc
    have hcovered := (apart_of_reaches run m mint).covered
    rw [booked_of_some htc, TokenConfig.debt] at hcovered
    exact hcovered

namespace Regtest

/-- Notes of a token that never received anything. -/
lemma run_unfunded : ((trace (step env) (fun _ _ => true) .genesis
    (openBook ++ registerColliding ++ takenBackAs (.key collidingMint))).any fun tr =>
      ((final .genesis tr).records.tokenConfigs (pool, .key collidingMint)).any fun tc =>
        (tr.map (received env (pool, .key collidingMint))).sum < tc.totalShielded) = true := by
  decide +kernel

end Regtest

open Regtest in
/-- **Two tokens with one id**: a request for the one is taken back as a note of the other, which
never received anything. -/
theorem tokens_not_separated : ∃ (tr : List (Step State Label)) (s : State),
    Reaches (step env) (fun _ _ => True) .genesis tr s ∧ ¬ TokensSeparated env tr s := by
  obtain ⟨tr, htr, hbad⟩ := (Option.any_eq_true _ _).mp run_unfunded
  obtain ⟨tc, htc, hless⟩ := (Option.any_eq_true _ _).mp hbad
  have hrun : Reaches (step env) (fun _ _ => True) .genesis tr (final .genesis tr) :=
    (reaches_of_trace (fun _ _ _ => trivial) htr).2
  refine ⟨tr, _, hrun, fun hsep => ?_⟩
  have hcovered := hsep.covered zkbtc (.key collidingMint) tc htc
  have hless := of_decide_eq_true hless
  change _ ≤ (tr.map (received env (pool, .key collidingMint))).sum at hcovered
  omega

open Regtest in
/-- One token, a deposit and a request that is taken back. -/
theorem tokens_separated_takenBack : ∃ (tr : List (Step State Label)) (s : State),
    tr.map Step.call = openBook ++ takenBackAs zkbtc ∧ TokensSeparated env tr s := by
  obtain ⟨s, hs⟩ := Option.isSome_iff_exists.mp run_takenBack
  obtain ⟨tr, hcalls, hrun⟩ := reaches_of_exec (fun _ _ => tokensApart_of_oneToken) hs
  exact ⟨tr, s, hcalls, tokens_separated hrun⟩

end Utxopia.Pool
