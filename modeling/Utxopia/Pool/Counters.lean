import Utxopia.Pool.Validate

/-!
The counters of the pool and of a token, and the fees.

Counters are 64-bit and checked: an operation that would leave the range fails. The spent
note counter and the pending counter saturate instead.
-/

namespace Utxopia.Pool

open Utxopia.Check

def checkedAdd (bits a b : ℕ) : Except ProgramError ℕ := do
  require (a + b < 2 ^ bits) .ArithmeticOverflow
  return a + b

def checkedSub (a b : ℕ) : Except ProgramError ℕ := do
  require (b ≤ a) .ArithmeticOverflow
  return a - b

def saturatingAdd (bits a b : ℕ) : ℕ := min (a + b) (2 ^ bits - 1)

lemma checkedAdd_eq_ok {bits a b r : ℕ} :
    checkedAdd bits a b = .ok r ↔ a + b < 2 ^ bits ∧ r = a + b := by
  rw [checkedAdd, require_bind_eq_ok, pure_eq_ok, eq_comm (a := r)]

lemma checkedSub_eq_ok {a b r : ℕ} : checkedSub a b = .ok r ↔ b ≤ a ∧ r = a - b := by
  rw [checkedSub, require_bind_eq_ok, pure_eq_ok, eq_comm (a := r)]

/-! ### The pool -/

namespace PoolState

def computeWithdrawalFee (p : PoolState) (amount : ℕ) : ℕ :=
  min (amount * p.withdrawalFeeBps / 10000) (2 ^ 64 - 1)

def computeServiceFee (p : PoolState) (amount : ℕ) : ℕ :=
  saturatingAdd 64 (p.computeWithdrawalFee amount) p.serviceFeeBase

def hasPendingProposal (p : PoolState) : Bool := p.pendingExecuteAfter ≠ 0

def addNullifiers (p : PoolState) (n : ℕ) : PoolState :=
  { p with nullifierCount := saturatingAdd 32 p.nullifierCount n }

def clearPendingProposal (p : PoolState) : PoolState :=
  { p with
    pendingMinDeposit := 0, pendingMaxDeposit := 0, pendingServiceFee := 0, pendingExecuteAfter := 0 }

def incrementDepositCount (p : PoolState) : Except ProgramError PoolState := do
  let n ← checkedAdd 64 p.depositCount 1
  return { p with depositCount := n }

def addMinted (p : PoolState) (amount : ℕ) : Except ProgramError PoolState := do
  let n ← checkedAdd 64 p.totalMinted amount
  return { p with totalMinted := n }

def addBurned (p : PoolState) (amount : ℕ) : Except ProgramError PoolState := do
  let n ← checkedAdd 64 p.totalBurned amount
  return { p with totalBurned := n }

def addFeePool (p : PoolState) (amount : ℕ) : Except ProgramError PoolState := do
  let n ← checkedAdd 64 p.feePool amount
  return { p with feePool := n }

def addUtxos (p : PoolState) (amount count : ℕ) : Except ProgramError PoolState := do
  let held ← checkedAdd 64 p.totalBtcHeld amount
  let n ← checkedAdd 32 p.utxoCount count
  return { p with totalBtcHeld := held, utxoCount := n }

def addUtxo (p : PoolState) (amount : ℕ) : Except ProgramError PoolState := p.addUtxos amount 1

def removeUtxo (p : PoolState) (amount : ℕ) : Except ProgramError PoolState := do
  let held ← checkedSub p.totalBtcHeld amount
  let n ← checkedSub p.utxoCount 1
  return { p with totalBtcHeld := held, utxoCount := n }

variable {p p' : PoolState} {amount count : ℕ}

lemma incrementDepositCount_ok (h : p.incrementDepositCount = .ok p') :
    p' = { p with depositCount := p.depositCount + 1 } := by
  simp only [incrementDepositCount, bind_eq_ok, checkedAdd_eq_ok, pure_eq_ok] at h
  obtain ⟨_, ⟨-, rfl⟩, rfl⟩ := h
  rfl

lemma addMinted_ok (h : p.addMinted amount = .ok p') :
    p' = { p with totalMinted := p.totalMinted + amount } := by
  simp only [addMinted, bind_eq_ok, checkedAdd_eq_ok, pure_eq_ok] at h
  obtain ⟨_, ⟨-, rfl⟩, rfl⟩ := h
  rfl

lemma addBurned_ok (h : p.addBurned amount = .ok p') :
    p' = { p with totalBurned := p.totalBurned + amount } := by
  simp only [addBurned, bind_eq_ok, checkedAdd_eq_ok, pure_eq_ok] at h
  obtain ⟨_, ⟨-, rfl⟩, rfl⟩ := h
  rfl

lemma addFeePool_ok (h : p.addFeePool amount = .ok p') :
    p' = { p with feePool := p.feePool + amount } := by
  simp only [addFeePool, bind_eq_ok, checkedAdd_eq_ok, pure_eq_ok] at h
  obtain ⟨_, ⟨-, rfl⟩, rfl⟩ := h
  rfl

lemma addUtxos_ok (h : p.addUtxos amount count = .ok p') :
    p' = { p with
      totalBtcHeld := p.totalBtcHeld + amount, utxoCount := p.utxoCount + count } := by
  simp only [addUtxos, bind_eq_ok, checkedAdd_eq_ok, pure_eq_ok] at h
  obtain ⟨_, ⟨-, rfl⟩, _, ⟨-, rfl⟩, rfl⟩ := h
  rfl

lemma removeUtxo_ok (h : p.removeUtxo amount = .ok p') :
    amount ≤ p.totalBtcHeld ∧ 1 ≤ p.utxoCount ∧
      p' = { p with totalBtcHeld := p.totalBtcHeld - amount, utxoCount := p.utxoCount - 1 } := by
  simp only [removeUtxo, bind_eq_ok, checkedSub_eq_ok, pure_eq_ok] at h
  obtain ⟨_, ⟨ha, rfl⟩, _, ⟨hc, rfl⟩, rfl⟩ := h
  exact ⟨ha, hc, rfl⟩

end PoolState

/-! ### A token -/

namespace TokenConfig

def addShielded (tc : TokenConfig) (amount : ℕ) : Except ProgramError TokenConfig := do
  let n ← checkedAdd 64 tc.totalShielded amount
  return { tc with totalShielded := n }

def subShielded (tc : TokenConfig) (amount : ℕ) : Except ProgramError TokenConfig := do
  let n ← checkedSub tc.totalShielded amount
  return { tc with totalShielded := n }

def addFees (tc : TokenConfig) (amount : ℕ) : Except ProgramError TokenConfig := do
  let n ← checkedAdd 64 tc.accumulatedFees amount
  return { tc with accumulatedFees := n }

def subFees (tc : TokenConfig) (amount : ℕ) : Except ProgramError TokenConfig := do
  let n ← checkedSub tc.accumulatedFees amount
  return { tc with accumulatedFees := n }

variable {tc tc' : TokenConfig} {amount : ℕ}

lemma addShielded_ok (h : tc.addShielded amount = .ok tc') :
    tc' = { tc with totalShielded := tc.totalShielded + amount } := by
  simp only [addShielded, bind_eq_ok, checkedAdd_eq_ok, pure_eq_ok] at h
  obtain ⟨_, ⟨-, rfl⟩, rfl⟩ := h
  rfl

lemma subShielded_ok (h : tc.subShielded amount = .ok tc') :
    amount ≤ tc.totalShielded ∧ tc' = { tc with totalShielded := tc.totalShielded - amount } := by
  simp only [subShielded, bind_eq_ok, checkedSub_eq_ok, pure_eq_ok] at h
  obtain ⟨_, ⟨hle, rfl⟩, rfl⟩ := h
  exact ⟨hle, rfl⟩

lemma addFees_ok (h : tc.addFees amount = .ok tc') :
    tc' = { tc with accumulatedFees := tc.accumulatedFees + amount } := by
  simp only [addFees, bind_eq_ok, checkedAdd_eq_ok, pure_eq_ok] at h
  obtain ⟨_, ⟨-, rfl⟩, rfl⟩ := h
  rfl

lemma subFees_ok (h : tc.subFees amount = .ok tc') :
    amount ≤ tc.accumulatedFees ∧
      tc' = { tc with accumulatedFees := tc.accumulatedFees - amount } := by
  simp only [subFees, bind_eq_ok, checkedSub_eq_ok, pure_eq_ok] at h
  obtain ⟨_, ⟨hle, rfl⟩, rfl⟩ := h
  exact ⟨hle, rfl⟩

end TokenConfig

/-! ### Fees -/

/-- A fee in basis points, at least one unit when there is anything to charge. -/
def computeBpsFee (amount feeBps : ℕ) : ℕ :=
  let fee := amount * feeBps / 10000 % 2 ^ 64
  if fee = 0 ∧ 0 < amount ∧ 0 < feeBps then 1 else fee

def maxRedemptionAmountSats : ℕ := 100000000
def maxMinerFeeSats : ℕ := 50000

/-- Who may drive a redemption: the pool's authority or the requester. -/
def redemptionDriverIsAllowed (signer authority requester : Addr) : Except ProgramError Unit :=
  require (signer = authority ∨ signer = requester) UTXOpiaError.Unauthorized

def checkRedemptionSigning (p : PoolState) (amountSats minerFeeSats : ℕ) :
    Except ProgramError Unit := do
  require (¬ p.paused) UTXOpiaError.PoolPaused
  require (amountSats ≤ maxRedemptionAmountSats) UTXOpiaError.RedemptionAmountExceedsLimit
  require (minerFeeSats ≤ maxMinerFeeSats) UTXOpiaError.RedemptionFeeExceedsLimit

end Utxopia.Pool
