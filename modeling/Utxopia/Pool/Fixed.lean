import Utxopia.Pool.Solvency

/-!
What no instruction changes.

A token keeps its mint, its id, its vault and its service fee, and a token account that belongs to
an address of the program keeps everything but its balance.
-/

namespace Utxopia.Pool

open Utxopia.Check Utxopia.Run Utxopia.Runtime

variable {E : Env} {s s' : State} {l : Label} {r' : Records}

/-- There are the same records, with the same feature. -/
def SameFeature {K α β : Type} (f : α → β) (t t' : K → Option α) : Prop :=
  ∀ k, (t' k).map f = (t k).map f

/-- One record is new, and the others are the same. -/
def OneNew {K α : Type} [DecidableEq K] (P : K → α → Prop) (t t' : K → Option α) : Prop :=
  ∃ k a, t k = none ∧ P k a ∧ t' = Function.update t k (some a)

section Features

variable {K α β : Type} {f : α → β} {t t' t'' : K → Option α}

lemma SameFeature.of_eq (h : t' = t) : SameFeature f t t' := fun k => by rw [h]

lemma SameFeature.trans (h : SameFeature f t t') (h' : SameFeature f t' t'') :
    SameFeature f t t'' := fun k => (h' k).trans (h k)

lemma SameFeature.update [DecidableEq K] {k : K} {a a' : α} (ha : t k = some a)
    (h : t' = Function.update t k (some a')) (hf : f a' = f a) : SameFeature f t t' := by
  intro k₁
  rw [h]
  rcases eq_or_ne k₁ k with rfl | hne
  · rw [Function.update_self, ha, Option.map_some, Option.map_some, hf]
  · rw [Function.update_of_ne hne]

lemma SameFeature.keeps (h : SameFeature f t t') {k : K} {a : α} (ha : t k = some a) :
    ∃ a', t' k = some a' ∧ f a' = f a := by
  have hk := h k
  rwa [ha, Option.map_some, Option.map_eq_some_iff] at hk

end Features

/-- The parts of a token that are set when it is registered. -/
def TokenConfig.fixed (tc : TokenConfig) : Addr × Hash × Addr × ℕ :=
  (tc.mint, tc.tokenId, tc.vault, tc.serviceFee)

/-- No instruction touches the fixed parts of a token. -/
theorem Effect.sameFixed (h : Effect E s l r') :
    SameFeature TokenConfig.fixed s.records.tokenConfigs r'.tokenConfigs ∨
      OneNew (fun _ _ => True) s.records.tokenConfigs r'.tokenConfigs := by
  cases h with
  | reconfigured h =>
    obtain ⟨m, p, p', -, -, rfl⟩ := h
    exact .inl (.of_eq rfl)
  | registered h => exact .inr ⟨_, _, h.fresh, trivial, rfl⟩
  | relimited config same =>
    refine .inl (.update config rfl ?_)
    simp only [TokenConfig.fixed, same.mint, same.tokenId, same.vault, same.serviceFee]
  | claimed config => exact .inl (.update config rfl rfl)
  | shielded keys h => exact .inl (.update h.config (putTotals_tokenConfigs ..).1 rfl)
  | transacted decoded planned sound burnable outputs => cases outputs <;> exact .inl (.of_eq rfl)
  | unshielded decoded planned h =>
    exact .inl (.update h.sound.at_token.config (putTotals_tokenConfigs ..).1 rfl)
  | redeemed decoded planned h => exact .inl (.update h.sound.config rfl rfl)
  | cancelled decoded h => exact .inl (.update h.config rfl rfl)
  | completed decoded h => exact .inl (.update h.config (complete_tokens ..).1 rfl)
  | deposited decoded kind input credited h => exact .inl (.update h.config rfl rfl)
  | _ => exact .inl (.of_eq rfl)

/-- A token that is registered stays, with its fixed parts. -/
theorem step_fixed (hstep : step E s l = .ok s') {k : Addr × Addr} {tc : TokenConfig}
    (htc : s.records.tokenConfigs k = some tc) :
    ∃ tc', s'.records.tokenConfigs k = some tc' ∧ tc'.fixed = tc.fixed := by
  rcases (step_effect hstep).sameFixed with hsame | ⟨k₁, tc₁, hnone, -, hcfg⟩
  · exact hsame.keeps htc
  · refine ⟨tc, ?_, rfl⟩
    rw [hcfg, Function.update_of_ne, htc]
    rintro rfl
    exact absurd (hnone.symm.trans htc) (by simp)

/-- An account of the program's keeps everything but its balance. -/
theorem step_account (hstep : step E s l = .ok s') {a : Addr} {t : TokenAccount}
    (ht : s.records.tokens a = some t) (hkey : t.owner.isKey = false) :
    ∃ t', s'.records.tokens a = some t' ∧ t.Like t' := by
  have heffect := step_effect hstep
  generalize s'.records = r' at heffect
  have hsame : r'.tokens = s.records.tokens → ∃ t', r'.tokens a = some t' ∧ t.Like t' :=
    fun h => ⟨t, by rw [h]; exact ht, .refl t⟩
  cases heffect with
  | reconfigured h =>
    obtain ⟨m, p, p', -, -, rfl⟩ := h
    exact hsame rfl
  | tokensServed h =>
    obtain ⟨t', ht', hl, -⟩ := h.kept a t ht hkey
    exact ⟨t', ht', hl⟩
  | claimed config covered paid => exact paid.like a t ht
  | @shielded c c' m p tc t t' T commitment amount fee now keys h =>
    obtain ⟨_, -, -, _, _, _, -, -, hout⟩ := h.paid
    rw [Records.shield, (putTotals_tokenConfigs ..).2.2]
    exact hout.like _ _ ht
  | transacted decoded planned sound burnable outputs => cases outputs <;> exact hsame rfl
  | unshielded decoded planned h =>
    obtain ⟨out, hout, -⟩ := h.paid
    rw [Records.unshield, (putTotals_tokenConfigs ..).2.2]
    exact hout.like _ _ ht
  | completed decoded h =>
    rw [(complete_tokens ..).2.1]
    exact h.paid.like _ _ ht
  | deposited decoded kind input credited h => exact h.minted.like _ _ ht
  | _ => exact hsame rfl

end Utxopia.Pool
