import Utxopia.Lib.Check

/-!
An account of the runtime and the system program's operations on it.

The bytes of an account are read through the one record type it can hold: an account has no
data, or allocated bytes that spell no record, or the tombstone of a record, or a record. A
payer that cannot pay makes the whole call fail, so balances of payers are not tracked.
-/

namespace Utxopia.Runtime

open Utxopia.Check

inductive Owner where
  | system
  | program
  | other
  deriving DecidableEq, Repr

inductive Data (α : Type) where
  | empty
  | blank
  | closed (old : α)
  | live (a : α)
  deriving DecidableEq, Repr

/-- `data_len() == 0`. -/
def Data.isEmpty {α : Type} : Data α → Bool
  | .empty => true
  | _ => false

/-- The record the bytes spell. -/
def Data.live? {α : Type} : Data α → Option α
  | .live a => some a
  | _ => none

@[ext]
structure Account (α : Type) where
  lamports : ℕ
  owner : Owner
  data : Data α
  deriving DecidableEq

/-- The same bytes with another record in them. -/
def Data.map {α β : Type} (f : α → β) : Data α → Data β
  | .empty => .empty
  | .blank => .blank
  | .closed a => .closed (f a)
  | .live a => .live (f a)

/-- The same account with another record in it. -/
def Account.map {α β : Type} (f : α → β) (acc : Account α) : Account β :=
  ⟨acc.lamports, acc.owner, acc.data.map f⟩

/-- The account without what is in it. -/
def Account.forget {α : Type} (acc : Account α) : Account α := { acc with data := .empty }

/-- What an address holds before anyone has used it. -/
def Account.fresh {α : Type} : Account α := ⟨0, .system, .empty⟩

instance {α : Type} : Inhabited (Account α) := ⟨.fresh⟩

def Account.live? {α : Type} (acc : Account α) : Option α := acc.data.live?

variable {α ε : Type}

@[simp] lemma Data.live?_live (a : α) : (Data.live a).live? = some a := rfl
@[simp] lemma Data.live?_closed (a : α) : (Data.closed a).live? = none := rfl
@[simp] lemma Data.live?_blank : (Data.blank : Data α).live? = none := rfl
@[simp] lemma Data.live?_empty : (Data.empty : Data α).live? = none := rfl

@[simp] lemma Data.isEmpty_live (a : α) : (Data.live a).isEmpty = false := rfl

lemma Data.live?_eq_some {d : Data α} {a : α} : d.live? = some a ↔ d = .live a := by
  cases d <;> simp [Data.live?]

lemma Account.live?_map {β : Type} (f : α → β) (acc : Account α) :
    (acc.map f).live? = acc.live?.map f := by
  obtain ⟨lamports, owner, data⟩ := acc
  cases data <;> rfl

/-- `CreateAccount`: refused when the address is in use. -/
def createAccount (acc : Account α) (lamports : ℕ) (e : ε) : Except ε (Account α) := do
  require (acc.lamports = 0) e
  require (acc.owner = .system ∧ acc.data.isEmpty) e
  return ⟨lamports, .program, .blank⟩

/-- `Allocate`: only an account of the system program without data. -/
def allocate (acc : Account α) (e : ε) : Except ε (Account α) := do
  require (acc.owner = .system ∧ acc.data.isEmpty) e
  return { acc with data := .blank }

/-- `Assign`: hand an account of the system program to the program. -/
def assign (acc : Account α) (e : ε) : Except ε (Account α) := do
  require (acc.owner = .system) e
  return { acc with owner := .program }

/-- Give the account its space unless it has data already. -/
def allocateIfEmpty (acc : Account α) (e : ε) : Except ε (Account α) :=
  if acc.data.isEmpty then allocate acc e else .ok acc

/-- Hand the account to the program unless it is the program's already. -/
def assignIfForeign (acc : Account α) (e : ε) : Except ε (Account α) :=
  if acc.owner ≠ .program then assign acc e else .ok acc

/-- Create an account of the program at a derived address. A funded address is topped up,
allocated and assigned in place; one the program already owns is left as it is. -/
def createOrClaim (acc : Account α) (lamports : ℕ) (e : ε) : Except ε (Account α) :=
  if acc.lamports = 0 then createAccount acc lamports e
  else allocateIfEmpty { acc with lamports := max acc.lamports lamports } e >>= fun acc =>
    assignIfForeign acc e

/-- The same for records of more than one size: bytes too short for the record make the
allocation fail. -/
def createOrClaimSized (fits : α → Bool) (acc : Account α) (lamports : ℕ) (e : ε) :
    Except ε (Account α) := do
  match acc.data with
  | .live a | .closed a => require (fits a) e
  | .empty | .blank => pure ()
  createOrClaim acc lamports e

/-- Overwrite the record by a tombstone and empty the account. -/
def close (acc : Account α) : Account α where
  lamports := 0
  owner := acc.owner
  data := match acc.data with
    | .live a => .closed a
    | d => d

lemma allocateIfEmpty_ok {acc acc' : Account α} {e : ε} (h : allocateIfEmpty acc e = .ok acc') :
    acc' = { acc with data := if acc.data.isEmpty then .blank else acc.data } := by
  unfold allocateIfEmpty at h
  split at h <;> rename_i hd
  · simp only [allocate, require_bind_eq_ok, pure_eq_ok] at h
    simp [hd, h.2]
  · simp only [Except.ok.injEq] at h
    subst h
    simp [hd]

lemma assignIfForeign_ok {acc acc' : Account α} {e : ε} (h : assignIfForeign acc e = .ok acc') :
    acc' = { acc with owner := .program } := by
  unfold assignIfForeign at h
  split at h <;> rename_i ho
  · simp only [assign, require_bind_eq_ok, pure_eq_ok] at h
    exact h.2.symm
  · simp only [Except.ok.injEq] at h
    rw [← h, ← not_not.mp ho]

/-- **What the helper leaves**: an account of the program whose record, if there was one, is
still there; only an address without data gets fresh bytes. -/
theorem createOrClaim_ok {acc acc' : Account α} {lamports : ℕ} {e : ε}
    (h : createOrClaim acc lamports e = .ok acc') :
    acc' = ⟨max acc.lamports lamports, .program,
      if acc.data.isEmpty then .blank else acc.data⟩ := by
  unfold createOrClaim at h
  split at h
  · rename_i h0
    simp only [createAccount, require_bind_eq_ok, pure_eq_ok] at h
    obtain ⟨-, ⟨-, hd⟩, rfl⟩ := h
    simp [hd, h0]
  · simp only [bind_eq_ok] at h
    obtain ⟨m, hm, h⟩ := h
    rw [assignIfForeign_ok h, allocateIfEmpty_ok hm]

lemma createOrClaimSized_ok {fits : α → Bool} {acc acc' : Account α} {lamports : ℕ} {e : ε}
    (h : createOrClaimSized fits acc lamports e = .ok acc') :
    acc' = ⟨max acc.lamports lamports, .program,
      if acc.data.isEmpty then .blank else acc.data⟩ := by
  unfold createOrClaimSized at h
  split at h
  all_goals
    simp only [bind_eq_ok, require_eq_ok, exists_const] at h
    first
      | exact createOrClaim_ok h.2
      | exact createOrClaim_ok h

/-! ### Records -/

@[simp] lemma Account.live?_default : (default : Account α).live? = none := rfl

@[simp] lemma Account.live?_mk (lamports : ℕ) (owner : Owner) (d : Data α) :
    (Account.mk lamports owner d).live? = d.live? := rfl

@[simp] lemma close_live? (acc : Account α) : (close acc).live? = none := by
  obtain ⟨_, _, d⟩ := acc
  cases d <;> rfl

@[simp] lemma close_owner (acc : Account α) : (close acc).owner = acc.owner := rfl

end Utxopia.Runtime
