import Mathlib.Data.Fintype.Basic
import Utxopia.Lib.ByteString
import Utxopia.Lib.Runtime

/-!
The accounts of the light client program.

An address is the derived address of one of the program's seed families or some other key;
two different seeds give two different addresses. The program creates its accounts at
derived addresses only, so no other key is ever owned by it.
-/

namespace Utxopia.LightClient.Accounts

open Utxopia.ByteString Utxopia.Check Utxopia.Runtime

/-- The errors the instructions return, and the failure of a system program call. -/
inductive ProgramError where
  | InvalidInstructionData
  | NotEnoughAccountKeys
  | MissingRequiredSignature
  | IllegalOwner
  | InvalidAccountData
  | InvalidSeeds
  | InvalidArgument
  | ArithmeticOverflow
  | AccountAlreadyInitialized
  | SystemProgram
  deriving DecidableEq, Repr

abbrev Hash := Bytes 32

inductive Addr where
  | lightClient
  | block (hash : Hash)
  | heightIndex (height : ℕ)
  | verifiedTx (block txid : Hash)
  | other (key : Bytes 32)
  deriving DecidableEq

structure AccountInfo where
  key : Addr
  isSigner : Bool
  deriving DecidableEq

structure BitcoinLightClient where
  network : ℕ
  authority : Addr
  genesisHash : Hash
  tipHash : Hash
  totalChainwork : Bytes 32
  tipHeight : ℕ
  finalizedHeight : ℕ
  headerCount : ℕ
  lastUpdate : ℤ
  expectedBits : ℕ
  epochStartTime : ℕ
  reinitEpoch : ℕ
  deriving DecidableEq

structure BlockHeader where
  version : Bytes 4
  prevBlockHash : Hash
  merkleRoot : Hash
  timestamp : ℕ
  bits : ℕ
  nonce : Bytes 4
  blockHash : Hash
  chainwork : Bytes 32
  height : ℕ
  submittedAt : ℤ
  epochBits : ℕ
  epochStartTime : ℕ
  reinitEpoch : ℕ
  deriving DecidableEq

structure HeightIndex where
  blockHash : Hash
  height : ℕ
  deriving DecidableEq

/-- `reinitEpoch` is the client's when the record was made. -/
structure VerifiedTransaction where
  blockHeight : ℕ
  blockHash : Hash
  txid : Hash
  verifiedAt : ℤ
  txIndex : ℕ
  reinitEpoch : ℕ
  deriving DecidableEq

structure State where
  lightClient : Account BitcoinLightClient
  block : Hash → Account BlockHeader
  heightIndex : ℕ → Account HeightIndex
  verified : Hash × Hash → Account VerifiedTransaction

/-- What the program takes from outside: the hash syscall, the rent and the build. -/
structure Env where
  sha256 : List UInt8 → Hash
  minimumBalance : ℕ → ℕ
  mainnet : Bool

def Env.doubleSha256 (E : Env) (data : List UInt8) : Hash := E.sha256 (E.sha256 data).toList

def maxBatchSize : ℕ := 10
def requiredConfirmations : ℕ := 6
def networkMainnet : ℕ := 0
def networkTestnet4 : ℕ := 2
def networkRegtest : ℕ := 3

def bitcoinLightClientLen : ℕ := 232
def blockHeaderLen : ℕ := 196
def heightIndexLen : ℕ := 48
def verifiedTransactionLen : ℕ := 120

/-- Mainnet and testnet4 always, regtest unless this is a mainnet build. -/
def networkAllowedInBuild (E : Env) (network : ℕ) : Bool :=
  network = networkMainnet || network = networkTestnet4 ||
    (network = networkRegtest && !E.mainnet)

/-- The networks whose difficulty and timestamps are checked. -/
def enforced (network : ℕ) : Prop := network = networkMainnet ∨ network = networkTestnet4

instance (network : ℕ) : Decidable (enforced network) := by unfold enforced; infer_instance

namespace State

variable (s : State)

/-- The live records of the four families: length and discriminator are right. -/
def lc? : Option BitcoinLightClient := s.lightClient.data.live?
def header? (h : Hash) : Option BlockHeader := (s.block h).data.live?
def index? (n : ℕ) : Option HeightIndex := (s.heightIndex n).data.live?
def verified? (k : Hash × Hash) : Option VerifiedTransaction := (s.verified k).data.live?

def ownerOf : Addr → Owner
  | .lightClient => s.lightClient.owner
  | .block h => (s.block h).owner
  | .heightIndex n => (s.heightIndex n).owner
  | .verifiedTx b t => (s.verified (b, t)).owner
  | .other _ => .other

def lightClientAt : Addr → Option BitcoinLightClient
  | .lightClient => s.lc?
  | _ => none

def headerAt : Addr → Option BlockHeader
  | .block h => s.header? h
  | _ => none

def heightIndexAt : Addr → Option HeightIndex
  | .heightIndex n => s.index? n
  | _ => none

def setLightClient (a : Account BitcoinLightClient) : State := { s with lightClient := a }

def setBlock (h : Hash) (a : Account BlockHeader) : State :=
  { s with block := Function.update s.block h a }

def setHeightIndex (n : ℕ) (a : Account HeightIndex) : State :=
  { s with heightIndex := Function.update s.heightIndex n a }

def setVerified (k : Hash × Hash) (a : Account VerifiedTransaction) : State :=
  { s with verified := Function.update s.verified k a }

/-- Lamports paid to an account of any kind; balances of other keys are not tracked. -/
def credit (lamports : ℕ) : Addr → State
  | .lightClient =>
    s.setLightClient { s.lightClient with lamports := s.lightClient.lamports + lamports }
  | .block h => s.setBlock h { s.block h with lamports := (s.block h).lamports + lamports }
  | .heightIndex n =>
    s.setHeightIndex n { s.heightIndex n with lamports := (s.heightIndex n).lamports + lamports }
  | .verifiedTx b t =>
    s.setVerified (b, t) { s.verified (b, t) with lamports := (s.verified (b, t)).lamports + lamports }
  | .other _ => s

def lamportsOf : Addr → ℕ
  | .lightClient => s.lightClient.lamports
  | .block h => (s.block h).lamports
  | .heightIndex n => (s.heightIndex n).lamports
  | .verifiedTx b t => (s.verified (b, t)).lamports
  | .other _ => 0

/-- An account with no lamports and no record disappears between transactions. -/
def reap : Addr → State
  | .lightClient =>
    if s.lightClient.lamports = 0 ∧ s.lc? = none then s.setLightClient .fresh else s
  | .block h => if (s.block h).lamports = 0 ∧ s.header? h = none then s.setBlock h .fresh else s
  | .heightIndex n =>
    if (s.heightIndex n).lamports = 0 ∧ s.index? n = none then s.setHeightIndex n .fresh else s
  | .verifiedTx b t =>
    if (s.verified (b, t)).lamports = 0 ∧ s.verified? (b, t) = none then s.setVerified (b, t) .fresh
    else s
  | .other _ => s

lemma lightClientAt_eq_some {a : Addr} {lc : BitcoinLightClient} (h : s.lightClientAt a = some lc) :
    s.lc? = some lc := by
  cases a with
  | lightClient => exact h
  | _ => exact absurd h (by simp [lightClientAt])

/-- What is written under a key is read there, and nothing else changes. -/
lemma header?_setBlock (h : Hash) (a : Account BlockHeader) :
    (s.setBlock h a).header? = Function.update s.header? h a.data.live? :=
  funext fun b => Function.apply_update (fun _ a => a.data.live?) s.block h a b

lemma index?_setHeightIndex (n : ℕ) (a : Account HeightIndex) :
    (s.setHeightIndex n a).index? = Function.update s.index? n a.data.live? :=
  funext fun m => Function.apply_update (fun _ a => a.data.live?) s.heightIndex n a m

end State

section Frame

variable (s : State) (lamports : ℕ) (a : Addr)

@[simp] lemma fresh_live? {α : Type} : (Account.fresh : Account α).data.live? = none := rfl

/-- Payments and clean-up change no record. -/
lemma credit_lc? : (s.credit lamports a).lc? = s.lc? := by cases a <;> rfl

lemma credit_header? : (s.credit lamports a).header? = s.header? := by
  cases a with
  | block h =>
    rw [State.credit, State.header?_setBlock]
    exact Function.update_eq_self ..
  | _ => rfl

lemma credit_index? : (s.credit lamports a).index? = s.index? := by
  cases a with
  | heightIndex n =>
    rw [State.credit, State.index?_setHeightIndex]
    exact Function.update_eq_self ..
  | _ => rfl

lemma reap_lc? : (s.reap a).lc? = s.lc? := by
  cases a with
  | lightClient =>
    simp only [State.reap]
    split
    · rename_i h
      exact h.2.symm
    · rfl
  | _ =>
    simp only [State.reap]
    try split
    all_goals rfl

lemma reap_header? : (s.reap a).header? = s.header? := by
  cases a with
  | block h =>
    simp only [State.reap]
    split
    · rename_i hh
      rw [State.header?_setBlock, fresh_live?, ← hh.2, Function.update_eq_self]
    · rfl
  | _ =>
    simp only [State.reap]
    try split
    all_goals rfl

lemma reap_index? : (s.reap a).index? = s.index? := by
  cases a with
  | heightIndex n =>
    simp only [State.reap]
    split
    · rename_i hh
      rw [State.index?_setHeightIndex, fresh_live?, ← hh.2, Function.update_eq_self]
    · rfl
  | _ =>
    simp only [State.reap]
    try split
    all_goals rfl

lemma credit_verified? : (s.credit lamports a).verified? = s.verified? := by
  cases a with
  | verifiedTx b t =>
    funext k
    by_cases hk : k = (b, t)
    · subst hk
      simp [State.verified?, State.credit, State.setVerified]
    · simp [State.verified?, State.credit, State.setVerified, hk]
  | _ => rfl

lemma reap_verified? : (s.reap a).verified? = s.verified? := by
  cases a with
  | verifiedTx b t =>
    simp only [State.reap]
    split
    · rename_i hh
      funext k
      by_cases hk : k = (b, t)
      · subst hk
        simp [State.verified?, State.setVerified]
        exact hh.2.symm
      · simp [State.verified?, State.setVerified, hk]
    · rfl
  | _ =>
    simp only [State.reap]
    try split
    all_goals rfl

end Frame

/-- No account of the program holds a record yet; any address may have been funded. -/
def Untouched (s : State) : Prop :=
  s.lc? = none ∧ (∀ h, s.header? h = none) ∧ (∀ n, s.index? n = none) ∧ ∀ k, s.verified? k = none

def emptyState : State := ⟨.fresh, fun _ => .fresh, fun _ => .fresh, fun _ => .fresh⟩

lemma untouched_emptyState : Untouched emptyState :=
  ⟨rfl, fun _ => rfl, fun _ => rfl, fun _ => rfl⟩

end Utxopia.LightClient.Accounts
