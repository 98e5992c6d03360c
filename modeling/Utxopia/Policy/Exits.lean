import Utxopia.Policy.Authorization
import Utxopia.Pool.Credits
import Utxopia.Pool.Ragequit

/-!
Nobody can be kept in a permissioned pool.

A destination that is registered stays registered, whatever the auditor and the authority do. And
a spend that leaves to registered destinations neither asks whether the pool is frozen nor who
its auditor is nor what any approval says.
-/

namespace Utxopia.Policy

open Utxopia.ByteString Utxopia.Check Utxopia.Run Utxopia.Runtime Utxopia.Pool

variable {E : Env} {S S' S₁ S₂ : System} {c : Call}

/-! ### Two systems that differ in what the auditor has done -/

/-- A system without what auditors set and without what is in approvals. -/
def System.blind (S : System) : System :=
  ⟨S.chain.blind, fun k => { S.approvals k with data := [] }⟩

/-- Both fail, for one reason, or both succeed and differ in what is the auditor's only. -/
inductive SameOutcome : Except ProgramError System → Except ProgramError System → Prop
  | failed (e : ProgramError) : SameOutcome (.error e) (.error e)
  | succeeded {S₁ S₂ : System} (h : S₁.blind = S₂.blind) : SameOutcome (.ok S₁) (.ok S₂)

lemma sameOutcome_of_map {x y : Except ProgramError System}
    (h : System.blind <$> x = System.blind <$> y) : SameOutcome x y := by
  cases x with
  | error e =>
    cases y with
    | error e' => exact Except.error.inj h ▸ .failed e
    | ok S₂ => exact absurd h (by simp [Functor.map, Except.map])
  | ok S₁ =>
    cases y with
    | error e' => exact absurd h (by simp [Functor.map, Except.map])
    | ok S₂ => exact .succeeded (Except.ok.inj h)

/-- A blinded call shows who owns the approvals and not what they say. -/
lemma view_blind (S : System) (c : Call) : (S.view E c).blind E = (S.blind.view E c).blind E := by
  have hforeign : ((S.view E c).blind E).foreign = ((S.blind.view E c).blind E).foreign := by
    funext k
    simp only [Call.blind, System.view, System.blind, view]
    by_cases hprogram : (S.approvals k).owner = .program
    · simp only [if_pos hprogram, if_true]
    · simp only [if_neg hprogram]
  have hcall : ∀ S : System, (S.view E c).blind E =
      { c with foreign := ((S.view E c).blind E).foreign } := fun _ => rfl
  rw [hcall S, hcall S.blind, hforeign]

lemma leaves_view (h : Leaves E c) (S : System) : Leaves E (S.view E c) := by
  obtain ⟨i, d, hd, hi, hflag⟩ := h
  exact ⟨i, _, (decode_withForeign _ hd).1, hi, hflag⟩

/-- Who leaves consumes no approval. -/
lemma consumedBy_leaves (h : Leaves E c) (S : System) :
    consumedBy E S (.pool (.call c)) = none := by
  obtain ⟨i, d, hd, hi, hflag⟩ := leaves_view h S
  simp only [consumedBy, hd, Option.bind_some]
  rcases hi with rfl | rfl
  · cases hplan : planUnshield E S.chain d with
    | error e => simp [consumption, hplan, Except.toOption]
    | ok plan => simp [consumption, hplan, Except.toOption, planUnshield_consumed hflag hplan]
  · cases hplan : planRedeem E S.chain d with
    | error e => simp [consumption, hplan, Except.toOption]
    | ok plan => simp [consumption, hplan, Except.toOption, planRedeem_consumed hflag hplan]

/-- **An exit** of the whole system depends on nothing that is the auditor's. -/
theorem step_leaves (hids : E.policyProgramId ≠ E.chadbufferId) (h : Leaves E c) (S : System) :
    System.blind <$> step E S (.pool (.call c)) =
      (fun chain => ⟨chain, S.blind.approvals⟩) <$>
        Pool.step E S.blind.chain (.call ((S.blind.view E c).blind E)) := by
  have hchain : Pool.step E S.blind.chain (.call ((S.blind.view E c).blind E)) =
      State.blind <$> Pool.step E S.chain (.call (S.view E c)) := by
    rw [← view_blind]
    exact step_blind hids (leaves_view h S)
  rw [hchain]
  simp only [step, consumedBy_leaves h S, map_bind, map_pure, Functor.map_map]
  cases Pool.step E S.chain (.call (S.view E c)) <;> rfl

namespace Regtest

open Pool.Regtest

/-- A system whose pools are all frozen. -/
def frozen (S : System) : System :=
  { S with chain := { S.chain with
      pools := S.chain.pools.map (Account.map fun p => { p with auditorFrozen := true }) rfl } }

lemma blind_frozen (S : System) : (frozen S).blind = S.blind := by
  have hpools : ((frozen S).chain.pools.map (Account.map PoolState.blind) rfl) =
      S.chain.pools.map (Account.map PoolState.blind) rfl := by
    refine Store.ext (fun m => ?_) rfl
    change ((S.chain.pools.get m).map _).map PoolState.blind = (S.chain.pools.get m).map _
    unfold Account.map
    congr 1
    cases (S.chain.pools.get m).data <;> rfl
  have hchain : (frozen S).chain.blind = S.chain.blind :=
    congrArg (fun pools => { S.chain.blind with pools := pools }) hpools
  unfold System.blind
  rw [hchain]
  rfl

def userTokens : Addr := .key (toLe 32 72)

/-- The auditor registers the user's wallet. -/
def registerExit : Label :=
  call 39 [signer admin, readonly pool, writable (.exitDestination pool 0 (env.bytesOf user)), system]
    (0 :: (env.bytesOf user).toList) [] 0

/-- The user takes nothing out, to the registered wallet. -/
def unshieldRagequit : Call where
  accounts := [writable pool, writable (.commitmentTree pool 0), readonly (.vkRegistry 1 1),
    signer user, system, writable (.tokenConfig pool zkbtc), writable vault,
    readonly (.key token2022ProgramId), writable userTokens, writable (.nullifier pool none (note 1)),
    readonly (.exitDestination pool 0 (env.bytesOf user))]
  data :=
    let tokenId := (computeTokenId env zkbtc).toOption.getD (zeros 32)
    let commitment := (computeCommitment env (zeros 32) tokenId 0).toOption.getD (zeros 32)
    let boundParams := (bindBoundParamsToDomain policyEnv (computeBoundParamsHashUnshield policyEnv
      (env.bytesOf user).toList (policyEnv.sha256 [])) pool true).toOption.getD (zeros 32)
    14 :: spendData 1 Jsflags.RAGEQUIT (zeroHash treeDepth) boundParams [note 1] [commitment] ++
      leBytes 8 0
  slot := 0
  unixTimestamp := 0
  foreign := fun _ => ⟨zeros 32, false, []⟩
  cpiSucceeds := true

def exitRegistered : List Action :=
  [.pool openPermissionedPool, .pool openVault,
    .pool (.tokenChange userTokens (some ⟨.Token2022, zkbtc, user, none, 0⟩)), .pool registerZkbtc,
    .pool (initVk 1 1), .pool registerExit]

lemma run_exitRegistered : (exec (step policyEnv) (fun _ _ => true) .genesis exitRegistered).any
    (fun S => (step policyEnv S (.pool (.call unshieldRagequit))).toBool) = true := by
  decide +kernel

lemma leaves_unshieldRagequit : Leaves policyEnv unshieldRagequit := by
  refine ⟨.Unshield, { unshieldRagequit with data := unshieldRagequit.data.tail }, ?_, .inl rfl, ?_⟩
  · unfold Call.decode
    rw [if_neg (by decide +kernel)]
    rfl
  · decide +kernel

end Regtest

end Utxopia.Policy
