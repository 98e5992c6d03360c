import Utxopia.Lib.Encoding
import Utxopia.Pool.Program

/-!
What the hash of a redemption's parameters and the hash of a request for approval stand for.

Every part of a preimage has a fixed length, or comes with its length, or is hashed first. So the
parts are read back from the hash, as long as different strings have different hashes.
-/

namespace Utxopia.Pool

open Utxopia.ByteString Utxopia.Check Utxopia.Encoding

variable {sha256 : List UInt8 → Hash} {S : Set (List UInt8)}

/-! ### Redemptions -/

/-- The strings that `length_prefixed_hash` hashes. -/
def lengthPrefixed (items : List (List UInt8)) : List UInt8 :=
  leBytes 4 items.length ++ items.flatMap fun it => leBytes 4 it.length ++ it

/-- What a redemption binds; numbers and lengths fit where the preimage has room for them. -/
@[ext]
structure RedeemParams where
  chainId : ℕ
  btcScripts : List (List UInt8)
  stealthData : List UInt8
  requester : Hash
  chain_fits : chainId < 2 ^ 64
  count_fits : btcScripts.length < 2 ^ 32
  lengths_fit : ∀ script ∈ btcScripts, script.length < 2 ^ 32

namespace RedeemParams

variable (sha256) (p : RedeemParams)

def preimage : List UInt8 :=
  [0, 0, 0, 0, 2] ++ (sha256 (lengthPrefixed p.btcScripts)).toList ++ leBytes 8 p.chainId ++
    (sha256 p.stealthData).toList ++ p.requester.toList

/-- `compute_bound_params_hash_redeem`, with the hash of the stealth data that the call makes. -/
def hash : Hash := reduceToFieldExact (sha256 (p.preimage sha256))

/-- The strings that are hashed on the way. -/
def hashed : List (List UInt8) :=
  [lengthPrefixed p.btcScripts, p.stealthData, p.preimage sha256]

end RedeemParams

/-- The program's hash is this one, for its chain. -/
lemma computeBoundParamsHashRedeem_eq {E : Env} (p : RedeemParams) (h : p.chainId = E.chainId) :
    computeBoundParamsHashRedeem E p.btcScripts (E.sha256 p.stealthData) p.requester =
      p.hash E.sha256 := by
  rw [computeBoundParamsHashRedeem, boundParamsPreimage, ← h]
  rfl

/-- Lists with their count and lengths are read back. -/
lemma lengthPrefixed_inj {xs ys : List (List UInt8)} (hx : xs.length < 2 ^ 32)
    (hy : ys.length < 2 ^ 32) (hxs : ∀ x ∈ xs, x.length < 2 ^ 32) (hys : ∀ y ∈ ys, y.length < 2 ^ 32)
    (h : lengthPrefixed xs = lengthPrefixed ys) : xs = ys := by
  obtain ⟨hlen, hrest⟩ := delimited_leBytes 4 hx hy h
  refine ((delimited_leBytes 4).sized.flatMap_append_inj (a := []) (b := []) hlen hxs hys ?_).1
  rwa [List.append_nil, List.append_nil]

/-- A collision of the hash is one of the hash reduced into the field. -/
lemma injOn_of_reduced (h : Set.InjOn (fun d => reduceToFieldExact (sha256 d)) S) :
    Set.InjOn sha256 S := fun _ hx _ hy heq => h hx hy (congrArg reduceToFieldExact heq)

theorem RedeemParams.eq_of_hash (hinj : Set.InjOn (fun d => reduceToFieldExact (sha256 d)) S)
    {p q : RedeemParams} (hp : ∀ d ∈ p.hashed sha256, d ∈ S) (hq : ∀ d ∈ q.hashed sha256, d ∈ S)
    (h : p.hash sha256 = q.hash sha256) : p = q := by
  have hsha := injOn_of_reduced hinj
  simp only [RedeemParams.hashed, List.forall_mem_cons] at hp hq
  obtain ⟨hpscripts, hpstealth, hppre, -⟩ := hp
  obtain ⟨hqscripts, hqstealth, hqpre, -⟩ := hq
  have hpre := hinj hppre hqpre h
  simp only [RedeemParams.preimage, List.append_assoc] at hpre
  obtain ⟨hscripts, hpre⟩ := toList_append_inj (List.append_cancel_left hpre)
  obtain ⟨hchain, hpre⟩ := delimited_leBytes 8 (by have := p.chain_fits; omega)
    (by have := q.chain_fits; omega) hpre
  obtain ⟨hstealth, hrequester⟩ := toList_append_inj hpre
  have hlists := lengthPrefixed_inj p.count_fits q.count_fits p.lengths_fit q.lengths_fit
    (hsha hpscripts hqscripts hscripts)
  exact RedeemParams.ext hchain hlists (hsha hpstealth hqstealth hstealth)
    (Vector.toList_inj.mp hrequester)

/-! ### Requests for approval -/

@[ext]
structure PolicyRequest where
  programId : Hash
  pool : Hash
  actor : Hash
  action : UInt8
  intentParts : List (List UInt8)

namespace PolicyRequest

variable (sha256) (r : PolicyRequest)

def preimage : List UInt8 :=
  requestDomain ++ r.programId.toList ++ r.pool.toList ++ r.actor.toList ++
    [r.action, UInt8.ofNat r.intentParts.length] ++
    r.intentParts.flatMap fun part => (sha256 part).toList

/-- `compute_policy_request_hash`. -/
def hash : Except ProgramError Hash := do
  require (r.intentParts.length ≤ maxIntentParts) .InvalidArgument
  return sha256 (r.preimage sha256)

/-- The strings that are hashed on the way. -/
def hashed : List (List UInt8) := r.preimage sha256 :: r.intentParts

end PolicyRequest

/-- The program's hash is this one. -/
lemma computePolicyRequestHash_eq {E : Env} {pool actor : Addr} {action : ℕ}
    {intentParts : List (List UInt8)} : computePolicyRequestHash E pool actor action intentParts =
      (PolicyRequest.mk E.programId (E.bytesOf pool) (E.bytesOf actor) (UInt8.ofNat action)
        intentParts).hash E.sha256 := rfl

theorem PolicyRequest.eq_of_hash (hinj : Set.InjOn sha256 S) {p q : PolicyRequest} {h : Hash}
    (hp : ∀ d ∈ p.hashed sha256, d ∈ S) (hq : ∀ d ∈ q.hashed sha256, d ∈ S)
    (hph : p.hash sha256 = .ok h) (hqh : q.hash sha256 = .ok h) : p = q := by
  simp only [PolicyRequest.hash, bind_eq_ok, require_eq_ok, exists_const, pure_eq_ok] at hph hqh
  obtain ⟨hplen, hph⟩ := hph
  obtain ⟨hqlen, hqh⟩ := hqh
  simp only [PolicyRequest.hashed, List.forall_mem_cons] at hp hq
  have hpre := hinj hp.1 hq.1 (hph.trans hqh.symm)
  simp only [PolicyRequest.preimage, List.append_assoc] at hpre
  obtain ⟨hprogram, hpre⟩ := toList_append_inj (List.append_cancel_left hpre)
  obtain ⟨hpool, hpre⟩ := toList_append_inj hpre
  obtain ⟨hactor, hpre⟩ := toList_append_inj hpre
  simp only [List.cons_append, List.nil_append, List.cons.injEq] at hpre
  obtain ⟨haction, hcount, hparts⟩ := hpre
  have hlen : p.intentParts.length = q.intentParts.length := by
    have hnat := congrArg UInt8.toNat hcount
    rw [maxIntentParts] at hplen hqlen
    rw [UInt8.toNat_ofNat', UInt8.toNat_ofNat'] at hnat
    omega
  -- the parts' hashes, one by one
  have hdigests : p.intentParts.map sha256 = q.intentParts.map sha256 := by
    refine (delimited_toList.flatMap_append_inj (a := []) (b := []) (by simpa using hlen)
      (fun _ _ => trivial) (fun _ _ => trivial) ?_).1
    rwa [List.append_nil, List.append_nil, List.flatMap_map, List.flatMap_map]
  have hequal : p.intentParts = q.intentParts := by
    refine List.ext_getElem hlen fun i hi hj => ?_
    have hat : (p.intentParts.map sha256)[i]? = (q.intentParts.map sha256)[i]? := by rw [hdigests]
    rw [List.getElem?_map, List.getElem?_map, List.getElem?_eq_getElem hi,
      List.getElem?_eq_getElem hj, Option.map_some, Option.map_some, Option.some_inj] at hat
    exact hinj (hp.2 _ (List.getElem_mem hi)) (hq.2 _ (List.getElem_mem hj)) hat
  exact PolicyRequest.ext hprogram hpool hactor haction hequal

/-- **Hashes bind intents**: two redemptions with one hash have the chain, the scripts in their
order and bounds, the stealth data and the requester in common, and two requests with one hash have
the program, the pool, the actor, the action and the parts in common. -/
theorem intents_bound :
    (Set.InjOn (fun d => reduceToFieldExact (sha256 d)) S → ∀ p q : RedeemParams,
      (∀ d ∈ p.hashed sha256, d ∈ S) → (∀ d ∈ q.hashed sha256, d ∈ S) →
      p.hash sha256 = q.hash sha256 → p.chainId = q.chainId ∧ p.btcScripts = q.btcScripts ∧
        p.stealthData = q.stealthData ∧ p.requester = q.requester) ∧
    (Set.InjOn sha256 S → ∀ (p q : PolicyRequest) (h : Hash),
      (∀ d ∈ p.hashed sha256, d ∈ S) → (∀ d ∈ q.hashed sha256, d ∈ S) →
      p.hash sha256 = .ok h → q.hash sha256 = .ok h → p.programId = q.programId ∧
        p.pool = q.pool ∧ p.actor = q.actor ∧ p.action = q.action ∧
          p.intentParts = q.intentParts) := by
  refine ⟨fun hinj p q hp hq h => ?_, fun hinj p q h hp hq hph hqh => ?_⟩
  · obtain rfl := RedeemParams.eq_of_hash hinj hp hq h
    exact ⟨rfl, rfl, rfl, rfl⟩
  · obtain rfl := PolicyRequest.eq_of_hash hinj hp hq hph hqh
    exact ⟨rfl, rfl, rfl, rfl, rfl⟩

namespace Regtest

/-- Two scripts, cut in one place or another. -/
def paramsOf (scripts : List (List UInt8)) (count : scripts.length < 2 ^ 32)
    (lengths : ∀ script ∈ scripts, script.length < 2 ^ 32) : RedeemParams :=
  ⟨103, scripts, [9], zeros 32, by decide, count, lengths⟩

def cutEarly : RedeemParams := paramsOf [[1], [2, 3]] (by decide) (by decide)

def cutLate : RedeemParams := paramsOf [[1, 2], [3]] (by decide) (by decide)

def requestOf (parts : List (List UInt8)) : PolicyRequest := ⟨zeros 32, zeros 32, zeros 32, 14, parts⟩

/-- What is hashed for both of them, and for requests with the same strings as parts. -/
def hashedStrings : List (List UInt8) :=
  cutEarly.hashed env.sha256 ++ cutLate.hashed env.sha256 ++
    (requestOf [[1], [2, 3]]).hashed env.sha256 ++ (requestOf [[1, 2], [3]]).hashed env.sha256

lemma hashedStrings_apart : ∀ d ∈ hashedStrings, ∀ d' ∈ hashedStrings,
    reduceToFieldExact (env.sha256 d) = reduceToFieldExact (env.sha256 d') → d = d' := by
  decide +kernel

end Regtest

open Regtest in
/-- The same bytes, cut in two places, have two hashes. -/
theorem intents_bound_cut : cutEarly.hash env.sha256 ≠ cutLate.hash env.sha256 ∧
    (requestOf [[1], [2, 3]]).hash env.sha256 ≠ (requestOf [[1, 2], [3]]).hash env.sha256 := by
  have hreduced : Set.InjOn (fun d => reduceToFieldExact (env.sha256 d)) {d | d ∈ hashedStrings} :=
    fun _ hd _ hd' heq => hashedStrings_apart _ hd _ hd' heq
  obtain ⟨hredeem, hrequest⟩ := @intents_bound env.sha256 {d | d ∈ hashedStrings}
  refine ⟨fun heq => ?_, fun heq => ?_⟩
  · have h := hredeem hreduced cutEarly cutLate (fun d hd => by simp [hashedStrings, hd])
      (fun d hd => by simp [hashedStrings, hd]) heq
    exact absurd h.2.1 (by decide)
  · have h := hrequest (injOn_of_reduced hreduced) (requestOf [[1], [2, 3]]) (requestOf [[1, 2], [3]]) _
      (fun d hd => by simp [hashedStrings, hd]) (fun d hd => by simp [hashedStrings, hd]) heq rfl
    exact absurd h.2.2.2.2 (by decide)

end Utxopia.Pool
