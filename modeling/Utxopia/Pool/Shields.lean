import Utxopia.Pool.Credits
import Utxopia.Pool.Incremental

/-!
Filling a tree one note at a time.

A pool that takes deposits of one unit, and a user with tokens for them. Every deposit goes
through and leaves the pool ready for the next; a full tree is rotated into the next one. The
hash may be any that takes every input.
-/

namespace Utxopia.Pool.Regtest

open Utxopia.ByteString Utxopia.Check Utxopia.Run Utxopia.Runtime

/-- The chain with another hash. -/
def withHash (f : List Hash → Option Hash) : Env := { env with poseidon := f }

variable {f : List Hash → Option Hash} {s : State} {i n total limit : ℕ}

def purse : Addr := .key (toLe 32 72)

/-- A call is decoded by its first byte. -/
lemma decode_withHash {c : Call} {b : UInt8} {rest : List UInt8} {ins : Instruction}
    (hdata : c.data = b :: rest)
    (hother : (b :: rest).take 8 ≠ env.externalUndelegateDiscriminator.toList)
    (hbyte : Instruction.ofByte b = some ins) :
    c.decode (withHash f) = some (ins, { c with data := rest }) := by
  have hother' : ¬ c.data.take 8 = (withHash f).externalUndelegateDiscriminator.toList := by
    rw [hdata]
    exact hother
  unfold Call.decode
  rw [if_neg hother']
  simp [hdata, hbyte]

/-- A note of one unit for the tree `i`. -/
def unitCall (i : ℕ) : Call where
  accounts := [signer user, writable purse, writable pool, writable (.tokenConfig pool zkbtc),
    writable vault, writable (.commitmentTree pool i), readonly (.key token2022ProgramId)]
  data := 12 :: leBytes 8 1 ++ (zeros 64).toList
  slot := 0
  unixTimestamp := 0
  foreign := fun k => (basicAccounts.lookup k).getD ⟨zeros 32, false, []⟩
  cpiSucceeds := true

def unitArgs (i : ℕ) : Call := { unitCall i with data := leBytes 8 1 ++ (zeros 64).toList }

/-- The pool takes deposits into the tree `i`, which has `n` leaves. -/
structure Working (s : State) (i n total : ℕ) : Prop where
  running : ∃ p, s.records.pools zkbtc = some p ∧ p.paused = false ∧ p.permissioned = false ∧
    p.zkbtcMint = zkbtc ∧ p.activeTreeIndex = i ∧ p.depositFeeBps = 0
  registered : ∃ tc, s.records.tokenConfigs (pool, zkbtc) = some tc ∧ tc.mint = zkbtc ∧
    tc.vault = vault ∧ tc.enabled = true ∧ tc.minDeposit = 1 ∧ 1 ≤ tc.maxDeposit ∧
    tc.depositCap = 2 ^ 50 ∧ tc.totalShielded ≤ total ∧ tc.accumulatedFees = 0
  room : ∃ t, s.records.trees (pool, i) = some t ∧ t.nextIndex = n

/-- There are tokens for `limit` deposits in all. -/
structure Supplied (s : State) (limit total : ℕ) : Prop where
  source : ∃ a, s.tokens purse = some ⟨.Token2022, zkbtc, user, none, a⟩ ∧ limit ≤ a + total
  held : ∃ b, s.tokens vault = some ⟨.Token2022, zkbtc, pool, none, b⟩ ∧ b ≤ total

/-- Nothing changed but the tree `i`, where a record was written in place. -/
structure Rewrote (s s' : State) (i : ℕ) : Prop where
  trees : ∃ t, s'.trees = s.trees.set (pool, i) (rewrite (s.trees.get (pool, i)) t)
  queue : s'.queuedLeaves = s.queuedLeaves

lemma computeBpsFee_none (p : PoolState) (h : p.depositFeeBps = 0) :
    computeBpsFee 1 p.depositFeeBps = 0 := by
  rw [h]
  rfl

/-- A unit more is owed, without fees. -/
lemma owe_unit {tc : TokenConfig} (hn : total < 2 ^ 50) (hshielded : tc.totalShielded ≤ total)
    (hfees : tc.accumulatedFees = 0) :
    checkedAdd 64 tc.totalShielded 1 = .ok (tc.totalShielded + 1) ∧
      tc.addShielded 1 = .ok { tc with totalShielded := tc.totalShielded + 1 } ∧
      TokenConfig.addFees { tc with totalShielded := tc.totalShielded + 1 } 0 =
        .ok { tc with totalShielded := tc.totalShielded + 1 } := by
  have hafter : checkedAdd 64 tc.totalShielded 1 = .ok (tc.totalShielded + 1) := by
    rw [checkedAdd_eq_ok]
    exact ⟨by omega, rfl⟩
  refine ⟨hafter, ?_, ?_⟩
  · rw [TokenConfig.addShielded, hafter]
    rfl
  · rw [TokenConfig.addFees, hfees]
    rfl

lemma commitment_exists (hf : ∀ xs, (f xs).isSome = true) (a b : Hash) (m : ℕ) :
    ∃ h, computeCommitment (withHash f) a b m = .ok h := by
  obtain ⟨h, hh⟩ := Option.isSome_iff_exists.mp
    (hf [reduceToFieldExact a, reduceToFieldExact b,
      reduceToFieldExact (ofList 32 (List.replicate 24 0 ++ toBe 8 m))])
  exact ⟨h, orElse_eq_ok.mpr hh⟩

/-- What is written once the unit has arrived. -/
lemma record_unit (hf : ∀ xs, (f xs).isSome = true) (npk : Hash) (h : Working s i n total)
    (hn : n < maxLeaves) (htotal : total < 2 ^ 50) :
    ∃ s', recordShield (withHash f) s (unitArgs i) (writable pool) (writable (.commitmentTree pool i))
      (writable (.tokenConfig pool zkbtc)) npk (2 ^ 50) 1 true = .ok s' ∧
      Working s' i (n + 1) (total + 1) ∧ Rewrote s s' i ∧ s'.tokens = s.tokens := by
  obtain ⟨⟨p, hp, hpaused, hperm, hmint, hactive, hbps⟩, ⟨tc, htc, hcm, hcv, hce, hmin, hmax,
    hcap, hshielded, hfees⟩, ⟨t, ht, hnext⟩⟩ := h
  obtain ⟨h, hh⟩ := commitment_exists hf npk tc.tokenId 1
  obtain ⟨t₁, root, happend, hnext₁⟩ :=
    appendLeaf_total (E := withHash f) (fun _ _ => hf _) h (t := t) (hnext ▸ hn)
  have hinsert : t.insertLeaf (withHash f) h = .ok (t₁.updateRoot root, t.nextIndex) := by
    simp only [CommitmentTree.insertLeaf, bind_eq_ok, pure_eq_ok, Prod.exists]
    exact ⟨t₁, root, _, happend, rfl⟩
  have hfee := computeBpsFee_none p hbps
  obtain ⟨hafter, hadd, haddFees⟩ := owe_unit htotal hshielded hfees
  have hsub : checkedSub 1 (computeBpsFee 1 p.depositFeeBps) = .ok 1 := by
    rw [hfee]
    rfl
  let tc' : TokenConfig := { tc with totalShielded := tc.totalShielded + 1 }
  let s₁ := (s.putTree (t₁.updateRoot root) (.commitmentTree pool i)).note
    [.inserted pool p.activeTreeIndex t.nextIndex h]
  let p' : PoolState := { p with totalShielded := tc'.totalShielded, lastUpdate := 0 }
  let s' := (s₁.putTokenConfig tc' (.tokenConfig pool zkbtc)).putPool p' pool
  have hrecs : s'.records = (((s.records.putTree (pool, i) (t₁.updateRoot root)).log
      [.inserted pool p.activeTreeIndex t.nextIndex h]).putTokenConfig (pool, zkbtc) tc').putPool
        zkbtc p' := by
    have h₁ : s₁.records = (s.records.putTree (pool, i) (t₁.updateRoot root)).log
        [.inserted pool p.activeTreeIndex t.nextIndex h] :=
      congrArg (Records.log · _) (records_putTree (k := (pool, i)) ht _)
    have h₂ : (s₁.putTokenConfig tc' (.tokenConfig pool zkbtc)).records =
        s₁.records.putTokenConfig (pool, zkbtc) tc' :=
      records_putTokenConfig (k := (pool, zkbtc)) (o := tc) (by rw [h₁]; exact htc) _
    rw [← h₁, ← h₂]
    exact records_putPool (m := zkbtc) (o := p) (by rw [h₂, h₁]; exact hp) p'
  refine ⟨s', ?_, ⟨⟨p', ?_, hpaused, hperm, hmint, hactive, hbps⟩, ⟨tc', ?_, hcm, hcv, hce, hmin,
    hmax, hcap, Nat.add_le_add_right hshielded 1, hfees⟩, ⟨t₁.updateRoot root, ?_, ?_⟩⟩,
    ⟨⟨_, rfl⟩, rfl⟩, rfl⟩
  · simp only [recordShield, insertOne, readPool, readTree, readTokenConfig, bind_eq_ok, exists_unit,
      require_eq_ok, orElse_eq_ok, pure_eq_ok]
    exact ⟨p, poolAt_of_records hp, _, hsub, one_ne_zero, tc, tokenConfigAt_of_records htc, _, hafter,
      by omega, h, hh, _, ⟨t, treeAt_of_records ht, _, hinsert, rfl⟩, _, hadd, _,
      by rw [hfee]; exact haddFees, rfl⟩
  · simp [hrecs, Records.putPool]
  · simp [hrecs, Records.putPool, Records.putTokenConfig]
  · simp [hrecs, Records.putPool, Records.putTokenConfig, Records.log, Records.putTree]
  · exact hnext₁.trans (congrArg (· + 1) hnext)

lemma tokenProgram_known {c : Call} {a : Addr} {t : TokenAccount} (h : s.tokens a = some t) :
    (tokenProgramOf s c a).isSome = true := by
  simp [tokenProgramOf, h]

/-- **One more leaf**: a deposit of a unit goes through and the pool is ready for the next. -/
theorem shield_unit (hf : ∀ xs, (f xs).isSome = true) (h : Working s i n total)
    (hsupply : Supplied s limit total) (hn : n < maxLeaves) (htotal : total < limit)
    (hlimit : limit ≤ 2 ^ 50) :
    ∃ s', processShield (withHash f) s (unitArgs i) = .ok s' ∧ Working s' i (n + 1) (total + 1) ∧
      Supplied s' limit (total + 1) ∧ Rewrote s s' i := by
  obtain ⟨⟨a, ha, hamount⟩, ⟨b, hb, hheld⟩⟩ := hsupply
  let s₁ := setToken (setToken s purse ⟨.Token2022, zkbtc, user, none, a - 1⟩) vault
    ⟨.Token2022, zkbtc, pool, none, b + 1⟩
  have hvault : s₁.tokens vault = some ⟨.Token2022, zkbtc, pool, none, b + 1⟩ := by
    simp [s₁, setToken]
  have hpurse : s₁.tokens purse = some ⟨.Token2022, zkbtc, user, none, a - 1⟩ := by
    have hne : purse ≠ vault := by decide
    simp [s₁, setToken, hne]
  have htransfer : transferToken s .Token2022 purse vault user 1 = .ok s₁ := by
    simp only [transferToken, bind_eq_ok, exists_unit, require_eq_ok, orElse_eq_ok]
    refine ⟨_, ha, _, hb, ⟨rfl, rfl, rfl⟩, rfl, by dsimp only; omega, ?_⟩
    rw [if_neg (by decide), bind_eq_ok]
    exact ⟨(), require_eq_ok.mpr (by dsimp only; omega), rfl⟩
  have hworking : Working s₁ i n total := ⟨h.running, h.registered, h.room⟩
  obtain ⟨s', hrecord, hworking', ⟨⟨t', htrees⟩, hqueue⟩, htokens⟩ :=
    record_unit hf (slice 32 (unitArgs i).data 8) hworking hn (by omega)
  obtain ⟨⟨p, hp, hpaused, hperm, hmint, hactive, hbps⟩, ⟨tc, htc, hcm, hcv, hce, hmin, hmax,
    hcap, -, -⟩, ⟨t, ht, -⟩⟩ := h
  have hpool := Account.rec?_eq_some.mp (show (s.pools.get zkbtc).rec? = some p from hp)
  have hconfig := Account.rec?_eq_some.mp
    (show (s.tokenConfigs.get (pool, zkbtc)).rec? = some tc from htc)
  have htree := Account.rec?_eq_some.mp (show (s.trees.get (pool, i)).rec? = some t from ht)
  have hreceived : checkedSub (s₁.balance vault) (s.balance vault) = .ok 1 := by
    rw [State.balance, State.balance, hvault, hb, checkedSub_eq_ok]
    dsimp only [Option.map_some, Option.getD_some]
    omega
  refine ⟨s', ?_, hworking', ⟨⟨a - 1, by rw [htokens, hpurse], by omega⟩,
    ⟨b + 1, by rw [htokens, hvault], by omega⟩⟩, ⟨⟨t', htrees⟩, hqueue⟩⟩
  have hinner : shieldInner (withHash f) s (unitArgs i) = .ok s' := by
    simp only [shieldInner, readPool, readTokenConfig, validateActiveTreePda, validatePoolStatePda,
      validateTokenConfigPda, validateTokenOwner, validateAccountWritable, bind_eq_ok, exists_unit,
      require_eq_ok, orElse_eq_ok, validateProgramOwner_ok, account_ok]
    refine ⟨_, rfl, _, rfl, _, rfl, _, rfl, _, rfl, _, rfl, _, rfl, htree.1, ?_, ?_, .Token2022, rfl, rfl,
      rfl, rfl, rfl, rfl, ⟨hconfig.1, ⟨hpool.1, p, hpool.2, by rw [hmint]; rfl⟩, tc, hconfig.2,
      by rw [hcm]; rfl⟩, p, hpool.2, by simp [hpaused], ⟨⟨hpool.1, p, hpool.2, by rw [hmint]; rfl⟩,
      by rw [hactive]; rfl⟩, tc, hconfig.2, hce, by rw [hcv]; rfl, _, ha, by rw [hcm], ?_, s₁, htransfer,
      1, hreceived, ?_⟩
    · exact tokenProgram_known ha
    · exact tokenProgram_known hb
    · rw [hmin]
      exact ⟨le_rfl, hmax⟩
    · rw [hcap, hcm, hmint]
      exact hrecord
  have hlength : 72 ≤ (unitArgs i).data.length := by
    change 72 ≤ (leBytes 8 1 ++ (zeros 64).toList).length
    decide
  simp only [processShield, readPool, Call.atLeast, validateSigner, bind_eq_ok, exists_unit,
    require_eq_ok, orElse_eq_ok, validateProgramOwner_ok, account_ok]
  exact ⟨le_rfl, hlength, _, rfl, _, rfl, rfl, hpool.1, p, hpool.2, by simp [hperm], hinner⟩

lemma decode_unitCall (i : ℕ) : (unitCall i).decode (withHash f) = some (.Shield, unitArgs i) :=
  decode_withHash (b := 12) rfl (by decide) rfl

lemma step_unit (i : ℕ) (s : State) :
    step (withHash f) s (.call (unitCall i)) = processShield (withHash f) s (unitArgs i) := by
  have hkeys : (unitCall i).signedByKeys = true := rfl
  simp only [step, processInstruction, decode_unitCall, hkeys, require, if_true]
  rfl

/-! ### Rotations -/

/-- From the tree `i` to the tree `j`. -/
def rotateInto (i j : ℕ) : Call where
  accounts := [writable pool, readonly (.commitmentTree pool i), writable (.commitmentTree pool j),
    signer user, system]
  data := [20]
  slot := 0
  unixTimestamp := 0
  foreign := fun k => (basicAccounts.lookup k).getD ⟨zeros 32, false, []⟩
  cpiSucceeds := true

/-- **The next tree**: a full tree is left for the one at the index after it. -/
theorem rotate_unit {j : ℕ} {acc : Account CommitmentTree} (h : Working s i maxLeaves total)
    (hj : j = (i + 1) % 2 ^ 32)
    (hacc : createOrClaim (s.trees.get (pool, j)) (env.minimumBalance 8816) ProgramError.Cpi =
      .ok acc) :
    ∃ s', step (withHash f) s (.call (rotateInto i j)) = .ok s' ∧ Working s' j 0 total ∧
      s'.trees = s.trees.set (pool, j) (rewrite acc (.init j)) ∧ s'.tokens = s.tokens ∧
      s'.queuedLeaves = s.queuedLeaves := by
  obtain ⟨⟨p, hp, hpaused, hperm, hmint, hactive, hbps⟩, hregistered, ⟨t, ht, hnext⟩⟩ := h
  have hpool := Account.rec?_eq_some.mp (show (s.pools.get zkbtc).rec? = some p from hp)
  have htree := Account.rec?_eq_some.mp (show (s.trees.get (pool, i)).rec? = some t from ht)
  have hdecode : (rotateInto i j).decode (withHash f) =
      some (.RotateTree, { rotateInto i j with data := [] }) :=
    decode_withHash (b := 20) rfl (by decide) rfl
  have hkeys : (rotateInto i j).signedByKeys = true := rfl
  let s₁ : State := { s with trees := s.trees.set (pool, j) (rewrite acc (.init j)) }
  let s' := s₁.putPool { p with activeTreeIndex := j } pool
  have hrotate : processRotateTree (withHash f) s { rotateInto i j with data := [] } = .ok s' := by
    simp only [processRotateTree, createTree, readPool, readTree, validatePoolStatePda, Call.atLeast,
      validateSigner, validateAccountWritable, validateSystemProgram, bind_eq_ok, exists_unit,
      require_eq_ok, orElse_eq_ok, pure_eq_ok, validateProgramOwner_ok, account_ok]
    refine ⟨le_rfl, _, rfl, _, rfl, _, rfl, _, rfl, _, rfl, rfl, hpool.1, htree.1, rfl, rfl, rfl,
      ⟨hpool.1, p, hpool.2, by rw [hmint]; rfl⟩, p, hpool.2, by rw [hactive]; rfl, t, htree.2,
      by rw [hnext]; exact lt_irrefl _, by rw [hactive, ← hj]; rfl, s₁, ⟨acc, ?_, ?_⟩, ?_⟩
    all_goals rw [hactive, ← hj]
    · exact hacc
    · rfl
    · rfl
  have hrecs : s'.records = (s.records.putTree (pool, j) (.init j)).putPool zkbtc
      { p with activeTreeIndex := j } := by
    have h₁ : s₁.records = s.records.putTree (pool, j) (.init j) :=
      Records.ext rfl (recs_create (createOrClaim_owner hacc) _) rfl rfl rfl rfl rfl rfl rfl rfl rfl
        rfl rfl rfl rfl
    rw [← h₁]
    exact records_putPool (s := s₁) (m := zkbtc) (o := p) (by rw [h₁]; exact hp) _
  refine ⟨s', ?_, ⟨⟨{ p with activeTreeIndex := j }, ?_, hpaused, hperm, hmint, rfl, hbps⟩, ?_,
    ⟨.init j, ?_, rfl⟩⟩, rfl, rfl, rfl⟩
  · simp only [step, processInstruction, hdecode, bind_eq_ok, exists_unit, require_eq_ok]
    exact ⟨hkeys, hrotate⟩
  · simp [hrecs, Records.putPool]
  · rw [hrecs]
    exact hregistered
  · simp [hrecs, Records.putPool, Records.putTree]

end Utxopia.Pool.Regtest
