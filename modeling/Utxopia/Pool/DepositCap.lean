import Utxopia.Pool.Reservations
import Utxopia.Pool.Solvency

/-!
Whether the deposit cap bounds what a token has shielded.

Shields and deposits check the cap. Redeeming makes room under it, and others may fill that room
while the request is open; taking the request back shields its amount again and checks nothing.
-/

namespace Utxopia.Pool

open Utxopia.ByteString Utxopia.Check Utxopia.Run Utxopia.Runtime

variable {E : Env} {s s' : State} {l : Label} {r r' : Records}

/-- No token has more shielded than its cap allows. -/
def Capped (r : Records) : Prop :=
  ∀ k tc, r.tokenConfigs k = some tc → tc.totalShielded ≤ tc.depositCap

/-- The label changes limits of a token. -/
def UpdatesToken (E : Env) (l : Label) : Prop :=
  ∃ c c', l = .call c ∧ c.decode E = some (.UpdateTokenConfig, c')

/-- A request that the label takes back fits under the cap of the token it names. -/
def TakesBackInRoom (E : Env) (s : State) (l : Label) : Prop :=
  ∀ c c' k q tc req, l = .call c → c.decode E = some (.CancelRedemption, c') →
    c'.configAt 5 = some k → c'.requestAt 2 = some q → s.records.tokenConfigs k = some tc →
    s.records.redemptions q = some req → tc.totalShielded + req.amountSats ≤ tc.depositCap

/-! ### Steps -/

lemma Capped.congr (h : Capped r) (hc : r'.tokenConfigs = r.tokenConfigs) : Capped r' := by
  intro k tc htc
  rw [hc] at htc
  exact h k tc htc

lemma Capped.update {k : Addr × Addr} {tc : TokenConfig} (h : Capped r)
    (hc : r'.tokenConfigs = Function.update r.tokenConfigs k (some tc))
    (hle : tc.totalShielded ≤ tc.depositCap) : Capped r' := by
  intro k' tc' htc'
  rw [hc] at htc'
  rcases update_eq_some.mp htc' with ⟨-, rfl⟩ | ⟨-, hold⟩
  · exact hle
  · exact h k' tc' hold

/-- Whatever is taken out stays under the cap. -/
lemma Capped.release {k : Addr × Addr} {tc : TokenConfig} {n fees : ℕ} (h : Capped r)
    (hk : r.tokenConfigs k = some tc) :
    (tc.release n fees).totalShielded ≤ (tc.release n fees).depositCap :=
  (Nat.sub_le ..).trans (h k tc hk)

/-- **A step within the cap**: shields and deposits check it, and only what is taken back is not
checked. -/
theorem step_capped (hstep : step E s l = .ok s') (h : Capped s.records) (hup : ¬ UpdatesToken E l)
    (hroom : TakesBackInRoom E s l) : Capped s'.records := by
  have heffect := step_effect hstep
  generalize s'.records = r' at heffect
  cases heffect with
  | reconfigured hset =>
    obtain ⟨m, p, p', -, -, rfl⟩ := hset
    exact h.congr rfl
  | registered hreg => exact h.update rfl (by rw [hreg.shielded]; exact Nat.zero_le _)
  | @relimited c k tc tc' config same c' decoded => exact absurd ⟨c, c', rfl, decoded⟩ hup
  | claimed config =>
    have hcap := h _ _ config
    exact h.update rfl hcap
  | shielded keys hs => exact h.update (putTotals_tokenConfigs ..).1 hs.capped
  | transacted decoded planned sound burnable outputs => cases outputs <;> exact h.congr rfl
  | unshielded decoded planned hu =>
    exact h.update (putTotals_tokenConfigs ..).1 (h.release hu.sound.at_token.config)
  | redeemed decoded planned hre => exact h.update rfl (h.release hre.sound.config)
  | @cancelled c c' m p req tc t t' us commitment now decoded hcan named token =>
    refine h.update rfl ?_
    exact hroom c c' _ _ tc req rfl decoded token named.requestAt hcan.config hcan.request
  | completed decoded hcom =>
    have hcap := h _ _ hcom.config
    exact h.update (complete_tokens ..).1 hcap
  | deposited decoded kind input credited hdep => exact h.update rfl hdep.capped
  | _ => exact h.congr rfl

/-- What is taken back without room is over the cap at once. -/
theorem inRoom_of_capped (hstep : step E s l = .ok s') (h : Capped s'.records) :
    TakesBackInRoom E s l := by
  rintro c c' k q tc₀ req₀ rfl hd hk hq htc₀ hreq₀
  simp only [step, bind_eq_ok, exists_unit, require_eq_ok, processInstruction, hd] at hstep
  obtain ⟨m, p, req, tc, t, t', us, commitment, hcan, hnamed, htoken, hrec⟩ :=
    processCancelRedemption_ok hstep.2
  obtain rfl := Option.some_inj.mp (hk.symm.trans htoken)
  obtain rfl := Option.some_inj.mp (hq.symm.trans hnamed.requestAt)
  obtain rfl := Option.some_inj.mp (htc₀.symm.trans hcan.config)
  obtain rfl := Option.some_inj.mp (hreq₀.symm.trans hcan.request)
  refine h (.poolState m, tc₀.mint) (tc₀.owe req₀.amountSats 0) ?_
  rw [hrec]
  exact Function.update_self ..

/-! ### Runs -/

/-- **The cap holds exactly if what is taken back has room**: in a run that changes no limits, every
state reached is within the caps if and only if every request that was taken back fitted under the
cap when it was. -/
theorem capped_iff {tr : List (Step State Label)}
    (run : Reaches (step E) (fun _ l => ¬ UpdatesToken E l) .genesis tr s) :
    (∀ st ∈ tr, Capped st.post.records) ↔ ∀ st ∈ tr, TakesBackInRoom E st.pre st.call := by
  constructor
  · exact fun h st hst => inRoom_of_capped (run.step_of_mem hst) (h st hst)
  · intro h
    have hboth : Reaches (step E) (fun s l => ¬ UpdatesToken E l ∧ TakesBackInRoom E s l)
      .genesis tr s := run.strengthen fun st hst hup => ⟨hup, h st hst⟩
    refine (hboth.history (I := fun tr s => Capped s.records ∧ ∀ st ∈ tr, Capped st.post.records)
      ⟨fun k tc htc => absurd htc (by simp), by simp⟩ ?_).2
    intro tr s l s' _ hI hg hstep
    have hs' := step_capped hstep hI.1 hg.1 hg.2
    refine ⟨hs', fun st hst => ?_⟩
    rcases List.mem_append.mp hst with hst | hst
    · exact hI.2 st hst
    · rw [List.mem_singleton.mp hst]
      exact hs'

namespace Regtest

/-- The pool's own token, with a cap that one deposit fills. -/
def registerCapped : Label :=
  call 8 [signer admin, readonly pool, readonly zkbtc, writable (.tokenConfig pool zkbtc),
    readonly vault, system] (leBytes 8 0 ++ leBytes 8 1 ++ leBytes 8 100000 ++ leBytes 8 100000) [] 0

/-- A deposit up to the cap, and a request for part of it. -/
def filledAndRedeemed : List Label :=
  [openPool, setPoolConfig zkbtc wallet walletKey, openVault, registerCapped, initVk 1 1,
    completeDeposit 0 sweepTx sweepTx 0,
    redeem 0 (zeroHash treeDepth) (note 1) recipientScript 30000 7]

/-- The room is filled again, and then the request is taken back. -/
def refilled : List Label :=
  filledAndRedeemed ++ [completeDeposit 0 (directTx 9 30000) (directTx 9 30000) 0,
    cancelRedemption zkbtc 7 [] 0]

/-- The request is taken back while there is room. -/
def takenBackInRoom : List Label := filledAndRedeemed ++ [cancelRedemption zkbtc 7 [] 0]

def keepsLimits (_ : State) : Label → Bool
  | .call c => (c.decode env).all fun d => d.1 ≠ .UpdateTokenConfig
  | _ => true

lemma not_updatesToken {s : State} {l : Label} (h : keepsLimits s l = true) :
    ¬ UpdatesToken env l := by
  rintro ⟨c, c', rfl, hd⟩
  simp [keepsLimits, hd] at h

lemma run_refilled : ((exec (step env) keepsLimits .genesis refilled).any fun s =>
    (s.records.tokenConfigs (pool, zkbtc)).any fun tc => tc.depositCap < tc.totalShielded) = true := by
  decide +kernel

lemma run_takenBackInRoom : (exec (step env) keepsLimits .genesis takenBackInRoom).isSome = true := by
  decide +kernel

end Regtest

open Regtest in
/-- **Over the cap**: a deposit fills the room that a redemption made, and the redemption is taken
back. -/
theorem cap_exceeded : ∃ (tr : List (Step State Label)) (s : State),
    Reaches (step env) (fun _ l => ¬ UpdatesToken env l) .genesis tr s ∧ ¬ Capped s.records := by
  obtain ⟨s, hs, hbad⟩ := (Option.any_eq_true _ _).mp run_refilled
  obtain ⟨tc, htc, hless⟩ := (Option.any_eq_true _ _).mp hbad
  obtain ⟨tr, -, hrun⟩ := reaches_of_exec (fun _ _ => not_updatesToken) hs
  exact ⟨tr, s, hrun, fun hcap => absurd (of_decide_eq_true hless) (not_lt.mpr (hcap _ _ htc))⟩

open Regtest in
/-- A deposit up to the cap and a request that is taken back at once. -/
theorem capped_iff_takenBackInRoom : ∃ tr : List (Step State Label),
    tr.map Step.call = takenBackInRoom ∧
      ((∀ st ∈ tr, Capped st.post.records) ↔ ∀ st ∈ tr, TakesBackInRoom env st.pre st.call) := by
  obtain ⟨s, hs⟩ := Option.isSome_iff_exists.mp run_takenBackInRoom
  obtain ⟨tr, hcalls, hrun⟩ := reaches_of_exec (fun _ _ => not_updatesToken) hs
  exact ⟨tr, hcalls, capped_iff hrun⟩

end Utxopia.Pool
