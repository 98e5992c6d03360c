import Utxopia.LightClient.MedianTime
import Utxopia.LightClient.CompactWord

/-!
The bits the network requires, on every fork.

The network finds the bits of a block from all blocks before it: the first and the last one of an
epoch at a retarget, and on testnet4 the last one that was not let through at the least
difficulty. The client keeps two values with each header, the bits and the start of its epoch,
and hands them from parent to child. Only the start block's are taken on trust.
-/

namespace Utxopia.LightClient.NextWork

open Utxopia.ByteString Utxopia.Check Utxopia.Run Utxopia.Runtime
open Utxopia.LightClient.Accounts Utxopia.LightClient.Initialize Utxopia.LightClient.Extend
open Utxopia.LightClient.Prune Utxopia.LightClient.VerifyTransaction Utxopia.LightClient.Chain
open Utxopia.LightClient.U256 Utxopia.LightClient.Pow
open Utxopia.LightClient.Difficulty Utxopia.LightClient.Retarget Utxopia.LightClient.CompactWord

/-! ### What the network requires -/

/-- What the rule reads of a block. -/
structure Block where
  time : ℕ
  bits : ℕ
  deriving DecidableEq, Inhabited

def blockAt (chain : List Block) (i : ℕ) : Block := chain.getD i default

def lastBlock (chain : List Block) : Block := blockAt chain (chain.length - 1)

def powLimitBits : ℕ := getCompact powLimit

/-- From block `i` back to the last one that is no minimum-difficulty block, or to the first of
its epoch. -/
def walkBack (chain : List Block) : ℕ → ℕ
  | 0 => (blockAt chain 0).bits
  | i + 1 =>
    if (i + 1) % blocksPerEpoch ≠ 0 ∧ (blockAt chain (i + 1)).bits = powLimitBits then
      walkBack chain i
    else (blockAt chain (i + 1)).bits

/-- The bits of the next block, from all blocks before it. -/
def getNextWorkRequired (testnet4 : Bool) (chain : List Block) (time : ℕ) : ℕ :=
  if chain.length % blocksPerEpoch ≠ 0 then
    if testnet4 then
      if (lastBlock chain).time + 2 * 600 < time then powLimitBits
      else walkBack chain (chain.length - 1)
    else (lastBlock chain).bits
  else
    let first := blockAt chain (chain.length - blocksPerEpoch)
    calculateNextWorkRequired (if testnet4 then first.bits else (lastBlock chain).bits) first.time
      (lastBlock chain).time

/-- A chain of the network, oldest block first. -/
inductive NetworkChain (testnet4 : Bool) : List Block → Prop
  | genesis {b : Block} (limit : b.bits = powLimitBits) : NetworkChain testnet4 [b]
  | next {chain : List Block} {b : Block} (before : NetworkChain testnet4 chain)
      (required : b.bits = getNextWorkRequired testnet4 chain b.time) :
      NetworkChain testnet4 (chain ++ [b])

/-- The first block of the epoch of block `i`. -/
def epochOf (chain : List Block) (i : ℕ) : Block := blockAt chain (i - i % blocksPerEpoch)

def currentEpoch (chain : List Block) : Block := epochOf chain (chain.length - 1)

/-! ### One epoch -/

section Epoch

variable {testnet4 : Bool} {chain : List Block} {b : Block} {i : ℕ}

lemma blockAt_append_left (h : i < chain.length) : blockAt (chain ++ [b]) i = blockAt chain i :=
  List.getD_append _ _ _ _ h

lemma blockAt_append_right : blockAt (chain ++ [b]) chain.length = b := by
  simp [blockAt]

lemma lastBlock_append : lastBlock (chain ++ [b]) = b := by
  rw [lastBlock, List.length_append, List.length_singleton, Nat.add_sub_cancel, blockAt_append_right]

lemma NetworkChain.ne_nil (h : NetworkChain testnet4 chain) : 0 < chain.length := by
  cases h <;> simp

/-- A block has the bits of its epoch, or on testnet4 the least difficulty. -/
def EpochBits (testnet4 : Bool) (chain : List Block) : Prop :=
  ∀ i < chain.length, (blockAt chain i).bits = (epochOf chain i).bits ∨
    (testnet4 = true ∧ (blockAt chain i).bits = powLimitBits)

/-- Inside an epoch the block before is in the same one. -/
lemma epochOf_succ (h : (i + 1) % blocksPerEpoch ≠ 0) : epochOf chain (i + 1) = epochOf chain i := by
  unfold epochOf blocksPerEpoch at *
  congr 1
  omega

/-- The walk ends at the bits of the epoch. -/
lemma walkBack_eq (h : EpochBits testnet4 chain) (hi : i < chain.length) :
    walkBack chain i = (epochOf chain i).bits := by
  induction i with
  | zero => rfl
  | succ i ih =>
    rw [walkBack]
    split_ifs with hwalk
    · rw [ih (by omega), epochOf_succ hwalk.1]
    · rcases h (i + 1) hi with heq | ⟨-, hlimit⟩
      · exact heq
      · have hzero : (i + 1) % blocksPerEpoch = 0 := by
          by_contra hne
          exact hwalk ⟨hne, hlimit⟩
        rw [epochOf, hzero, Nat.sub_zero]

lemma epochOf_append (h : i < chain.length) : epochOf (chain ++ [b]) i = epochOf chain i :=
  blockAt_append_left (by omega)

lemma NetworkChain.epochBits (h : NetworkChain testnet4 chain) : EpochBits testnet4 chain := by
  induction h with
  | genesis limit =>
    intro i hi
    obtain rfl : i = 0 := by simpa using hi
    exact .inl rfl
  | @next chain b before required ih =>
    intro i hi
    rw [List.length_append, List.length_singleton] at hi
    rcases Nat.lt_or_ge i chain.length with hlt | hge
    · rw [blockAt_append_left hlt, epochOf_append hlt]
      exact ih i hlt
    obtain rfl : i = chain.length := by omega
    have hpos := before.ne_nil
    rw [blockAt_append_right]
    by_cases hzero : chain.length % blocksPerEpoch = 0
    · refine .inl ?_
      rw [epochOf, hzero, Nat.sub_zero, blockAt_append_right]
    have hepoch : epochOf (chain ++ [b]) chain.length = epochOf chain (chain.length - 1) := by
      have hsame : epochOf (chain ++ [b]) (chain.length - 1 + 1) =
          epochOf (chain ++ [b]) (chain.length - 1) := epochOf_succ (by rwa [Nat.sub_add_cancel hpos])
      rw [Nat.sub_add_cancel hpos] at hsame
      rw [hsame, epochOf_append (by omega)]
    rw [required, getNextWorkRequired, if_pos hzero, hepoch]
    cases testnet4 with
    | true =>
      simp only [if_true]
      split_ifs
      · exact .inr ⟨trivial, rfl⟩
      · exact .inl (walkBack_eq ih (by omega))
    | false =>
      rcases ih (chain.length - 1) (by omega) with heq | ⟨hnot, -⟩
      · exact .inl heq
      · exact absurd hnot (by simp)

lemma powLimitBits_eq : powLimitBits = maxTargetBits := getCompact_top (by decide) (by decide)

/-- All bits of a chain are words of the network. -/
lemma NetworkChain.shift (h : NetworkChain testnet4 chain) (hi : i < chain.length) :
    (blockAt chain i).bits >>> 24 ≤ 29 := by
  have hlimit : powLimitBits >>> 24 ≤ 29 := by
    rw [powLimitBits_eq]
    decide
  induction h generalizing i with
  | genesis limit =>
    obtain rfl : i = 0 := by simpa using hi
    exact limit ▸ hlimit
  | @next chain b before required ih =>
    rw [List.length_append, List.length_singleton] at hi
    rcases Nat.lt_or_ge i chain.length with hlt | hge
    · rw [blockAt_append_left hlt]
      exact ih hlt
    obtain rfl : i = chain.length := by omega
    have hpos := before.ne_nil
    rw [blockAt_append_right, required, getNextWorkRequired]
    split_ifs
    · exact hlimit
    · rw [walkBack_eq before.epochBits (by omega)]
      exact ih (by omega)
    · exact ih (by omega)
    · exact calculateNextWorkRequired_shift ..
    · exact calculateNextWorkRequired_shift ..

/-- **Two values are enough**: what the client requires from the bits and the start of the epoch is
what the network requires from the whole chain. The time of the parent counts on testnet4 and
where an epoch begins. -/
theorem requiredBits_eq (h : NetworkChain testnet4 chain) {time parentTime : ℕ}
    (hbits : (currentEpoch chain).bits ≠ 0)
    (hparent : parentTime = (lastBlock chain).time ∨
      testnet4 = false ∧ chain.length % blocksPerEpoch ≠ 0) :
    requiredBitsForNextBlock testnet4 chain.length time parentTime (currentEpoch chain).bits
      (currentEpoch chain).time = getNextWorkRequired testnet4 chain time := by
  have hpos := h.ne_nil
  have hlast := h.epochBits (chain.length - 1) (by omega)
  unfold requiredBitsForNextBlock getNextWorkRequired
  rw [if_neg hbits]
  by_cases hzero : chain.length % blocksPerEpoch = 0
  · have hindex : chain.length - 1 - (chain.length - 1) % blocksPerEpoch =
        chain.length - blocksPerEpoch := by
      unfold blocksPerEpoch at *
      omega
    have hfirst : currentEpoch chain = blockAt chain (chain.length - blocksPerEpoch) := by
      rw [currentEpoch, epochOf, hindex]
    have hshift : (currentEpoch chain).bits >>> 24 ≤ 29 := h.shift (by omega)
    obtain rfl := hparent.resolve_right fun hne => hne.2 hzero
    rw [if_pos hzero, if_neg (not_not.mpr hzero), calculateNewBits_eq hshift]
    simp only [← hfirst]
    cases testnet4 with
    | true => rfl
    | false =>
      rcases hlast with heq | ⟨hnot, -⟩
      · change _ = calculateNextWorkRequired (lastBlock chain).bits _ _
        rw [lastBlock, heq]
        rfl
      · exact absurd hnot (by simp)
  · rw [if_neg hzero, if_pos hzero]
    cases testnet4 with
    | true =>
      obtain rfl := hparent.resolve_right fun hne => absurd hne.1 (by simp)
      rw [walkBack_eq h.epochBits (by omega), powLimitBits_eq]
      simp only [true_and, if_true]
      refine if_congr ?_ rfl rfl
      omega
    | false =>
      rcases hlast with heq | ⟨hnot, -⟩
      · simpa [lastBlock, currentEpoch] using heq.symm
      · exact absurd hnot (by simp)

end Epoch


/-! ### What the client keeps of it -/

/-- A hash at or below the target of the word zero is the zero hash. -/
lemma hashMeetsTarget_zeros {hash : Hash} (h : hashMeetsTarget hash (targetFromBits 0) = true) :
    hash = zeros 32 := by
  rw [show targetFromBits 0 = zeros 32 by decide +kernel, hashMeetsTarget_iff,
    Positional.leNat_zeros] at h
  have hvalue : leNat hash.toList = leNat (zeros 32).toList := by
    rw [Nat.le_zero.mp h, Positional.leNat_zeros]
  exact Vector.toList_inj.mp (Positional.leNat_inj (by simp) hvalue)

section Kept

variable {testnet4 : Bool} {ancestors : List Block} {b : Block}
  {height epochBits epochStart time : ℕ}

/-- The bits and the start of the epoch and the time of the last block. The time may be missing
on mainnet where the next block does not begin an epoch. -/
structure Tracks (testnet4 : Bool) (ancestors : List Block)
    (height epochBits epochStart time : ℕ) : Prop where
  network : NetworkChain testnet4 ancestors
  length : ancestors.length = height + 1
  bits : epochBits = (currentEpoch ancestors).bits ∧ epochBits ≠ 0
  start : epochStart = (currentEpoch ancestors).time ∧ epochStart ≠ 0
  time : time = (lastBlock ancestors).time ∨
    testnet4 = false ∧ ancestors.length % blocksPerEpoch ≠ 0

/-- A block that begins an epoch begins the current one. -/
lemma currentEpoch_append (h : 0 < ancestors.length) : currentEpoch (ancestors ++ [b]) =
    if ancestors.length % blocksPerEpoch = 0 then b else currentEpoch ancestors := by
  rw [currentEpoch, List.length_append, List.length_singleton, Nat.add_sub_cancel]
  split_ifs with hzero
  · rw [epochOf, hzero, Nat.sub_zero, blockAt_append_right]
  · have hsame : epochOf (ancestors ++ [b]) (ancestors.length - 1 + 1) =
        epochOf (ancestors ++ [b]) (ancestors.length - 1) := epochOf_succ (by rwa [Nat.sub_add_cancel h])
    rw [Nat.sub_add_cancel h] at hsame
    rw [hsame, epochOf_append (by omega), currentEpoch]

/-- **One block**: its bits are the network's, and what is kept of it follows the chain. -/
theorem Tracks.next (h : Tracks testnet4 ancestors height epochBits epochStart time)
    (hrequired : b.bits = requiredBitsForNextBlock testnet4 (height + 1) b.time time epochBits
      epochStart) (hbits : b.bits ≠ 0) (htime : b.time ≠ 0) :
    b.bits = getNextWorkRequired testnet4 ancestors b.time ∧
      Tracks testnet4 (ancestors ++ [b]) (height + 1)
        (if (height + 1) % blocksPerEpoch = 0 then b.bits else epochBits)
        (if (height + 1) % blocksPerEpoch = 0 then b.time else epochStart) b.time := by
  obtain ⟨hnetwork, hlength, ⟨rfl, hbits₀⟩, ⟨rfl, hstart₀⟩, hparent⟩ := h
  have hbits' : b.bits = getNextWorkRequired testnet4 ancestors b.time := by
    rw [hrequired, ← hlength, requiredBits_eq hnetwork hbits₀ hparent]
  have hepoch := currentEpoch_append (b := b) hnetwork.ne_nil
  rw [hlength] at hepoch
  refine ⟨hbits', .next hnetwork hbits', ?_, ?_, ?_, .inl ?_⟩
  · rw [List.length_append, List.length_singleton, hlength]
  · rw [hepoch]
    split_ifs
    · exact ⟨rfl, hbits⟩
    · exact ⟨rfl, hbits₀⟩
  · rw [hepoch]
    split_ifs
    · exact ⟨rfl, htime⟩
    · exact ⟨rfl, hstart₀⟩
  · rw [lastBlock_append]

end Kept

/-! ### The ancestors of a header -/

section Lineage

variable (E : Env) (U : RawHeader → Prop)

/-- The blocks from the first of the network to a block. Those up to the start block are given,
those after it are submitted headers. -/
inductive Ancestry (genesis : Hash) (chain : List Block) : Hash → List Block → Prop
  | start : Ancestry genesis chain genesis chain
  | link {raw : RawHeader} {ancestors : List Block} (mem : U raw)
      (prev : Ancestry genesis chain raw.prevBlockHash ancestors) :
      Ancestry genesis chain (blockHashOf E raw) (ancestors ++ [⟨raw.timestamp, raw.bits⟩])

variable {E U} {genesis : Hash} {chain : List Block} {b : Hash} {ancestors others : List Block}

/-- As many ancestors as the block is deep. -/
lemma Ancestry.depth (h : Ancestry E U genesis chain b ancestors) :
    Depth E U genesis chain.length b ancestors.length := by
  induction h with
  | start => exact .genesis
  | link mem _ ih =>
    rw [List.length_append, List.length_singleton]
    exact .link mem ih

lemma Ancestry.inv (h : Ancestry E U genesis chain b ancestors) :
    (b = genesis ∧ ancestors = chain) ∨ ∃ raw before, U raw ∧ b = blockHashOf E raw ∧
      ancestors = before ++ [⟨raw.timestamp, raw.bits⟩] ∧
      Ancestry E U genesis chain raw.prevBlockHash before := by
  cases h with
  | start => exact .inl ⟨rfl, rfl⟩
  | link mem prev => exact .inr ⟨_, _, mem, rfl, rfl, prev⟩

/-- A block has one list of ancestors. -/
theorem Ancestry.unique (hcol : NoCollision E U) (hcyc : NoCycle E U)
    (h : Ancestry E U genesis chain b ancestors) (h' : Ancestry E U genesis chain b others) :
    others = ancestors := by
  induction h generalizing others with
  | start =>
    obtain ⟨-, rfl⟩ | ⟨raw, before, mem, hb, -, prev⟩ := h'.inv
    · rfl
    · exact absurd hb.symm (prev.depth.link_ne hcyc mem)
  | @link raw ancestors mem prev ih =>
    obtain ⟨hb, -⟩ | ⟨raw', before, mem', hb, rfl, prev'⟩ := h'.inv
    · exact absurd hb (prev.depth.link_ne hcyc mem)
    · obtain rfl := hcol _ _ mem mem' hb
      rw [ih prev']

/-- What is kept for the block follows its ancestors. -/
def Kept (E : Env) (U : RawHeader → Prop) (genesis : Hash) (chain : List Block) (testnet4 : Bool)
    (b : Hash) (height epochBits epochStart time : ℕ) : Prop :=
  ∃ ancestors, Ancestry E U genesis chain b ancestors ∧
    Tracks testnet4 ancestors height epochBits epochStart time

def AllKept (E : Env) (U : RawHeader → Prop) (genesis : Hash) (chain : List Block) (testnet4 : Bool)
    (s : State) : Prop :=
  ∀ b hdr, s.header? b = some hdr → hdr.blockHash = b ∧
    Kept E U genesis chain testnet4 b hdr.height hdr.epochBits hdr.epochStartTime hdr.timestamp

def Running.kept (E : Env) (U : RawHeader → Prop) (genesis : Hash) (chain : List Block)
    (testnet4 : Bool) (r : Running) : Prop :=
  Kept E U genesis chain testnet4 r.prevHash r.height r.expectedBits r.epochStart r.parentTimestamp

/-- The bits of the header are those that the network requires after its ancestors. -/
def NetworkBits (E : Env) (U : RawHeader → Prop) (genesis : Hash) (chain : List Block)
    (testnet4 : Bool) (raw : RawHeader) : Prop :=
  ∃ ancestors, Ancestry E U genesis chain raw.prevBlockHash ancestors ∧
    raw.bits = getNextWorkRequired testnet4 ancestors raw.timestamp

variable {s s' : State} {lc : BitcoinLightClient} {now : ℤ} {r r' : Running}

/-- A batch starts from what its parent has; the client's own values are not needed. -/
lemma startRunning_kept {testnet4 : Bool} {parent : BlockHeader} {window : List ℕ}
    (h : Kept E U genesis chain testnet4 parent.blockHash parent.height parent.epochBits
      parent.epochStartTime parent.timestamp) :
    Running.kept E U genesis chain testnet4 (startRunning lc parent window) := by
  obtain ⟨ancestors, hanc, htracks⟩ := h
  refine ⟨ancestors, hanc, ?_⟩
  rw [startRunning, if_pos htracks.bits.2, if_pos htracks.start.2]
  exact htracks

/-- One header: the network's bits, and what is stored with it follows its ancestors. -/
lemma acceptHeader_kept (he : enforced lc.network) {item : RawHeader × AccountInfo}
    (mem : U item.1) (hz : blockHashOf E item.1 ≠ zeros 32)
    (hall : AllKept E U genesis chain (lc.network = networkTestnet4) s)
    (hr : Running.kept E U genesis chain (lc.network = networkTestnet4) r)
    (h : acceptHeader E lc now (s, r) item = .ok (s', r')) :
    NetworkBits E U genesis chain (lc.network = networkTestnet4) item.1 ∧
      AllKept E U genesis chain (lc.network = networkTestnet4) s' ∧
      Running.kept E U genesis chain (lc.network = networkTestnet4) r' := by
  obtain ⟨raw, info⟩ := item
  obtain ⟨hcheck, rfl, hheader, -⟩ := acceptHeader_ok h
  obtain ⟨hprev, htarget, hrules, -⟩ := checkHeader_ok hcheck
  obtain ⟨hmedian, -, hrequired⟩ := hrules he
  obtain ⟨ancestors, hanc, htracks⟩ := hr
  rw [← hprev] at hanc
  have hbits : raw.bits ≠ 0 := fun hzero => hz (hashMeetsTarget_zeros (hzero ▸ htarget))
  obtain ⟨hnetwork, hnext⟩ := htracks.next (b := ⟨raw.timestamp, raw.bits⟩) hrequired hbits
    (Nat.ne_zero_of_lt hmedian)
  have hkept : Running.kept E U genesis chain (lc.network = networkTestnet4) (r.next E lc raw) := by
    refine ⟨_, .link mem hanc, ?_⟩
    simpa only [Running.next, opensEpoch, he, true_and] using hnext
  refine ⟨⟨ancestors, hanc, hnetwork⟩, fun b hdr hb => ?_, hkept⟩
  rw [hheader] at hb
  rcases update_eq_some.mp hb with ⟨rfl, rfl⟩ | ⟨-, hold⟩
  · exact ⟨rfl, hkept⟩
  · exact hall b hdr hold

theorem acceptLoop_kept (he : enforced lc.network) {items : List (RawHeader × AccountInfo)}
    (mem : ∀ i ∈ items, U i.1 ∧ blockHashOf E i.1 ≠ zeros 32)
    (hall : AllKept E U genesis chain (lc.network = networkTestnet4) s)
    (hr : Running.kept E U genesis chain (lc.network = networkTestnet4) r)
    (h : loop (acceptHeader E lc now) (s, r) items = .ok (s', r')) :
    (∀ i ∈ items, NetworkBits E U genesis chain (lc.network = networkTestnet4) i.1) ∧
      AllKept E U genesis chain (lc.network = networkTestnet4) s' := by
  obtain ⟨hbits, hall', -⟩ := loop_each
    (I := fun x : State × Running => AllKept E U genesis chain (lc.network = networkTestnet4) x.1 ∧
      Running.kept E U genesis chain (lc.network = networkTestnet4) x.2)
    (P := fun i : RawHeader × AccountInfo =>
      NetworkBits E U genesis chain (lc.network = networkTestnet4) i.1)
    (fun x i x' hi hx hm => acceptHeader_kept he (mem i hi).1 (mem i hi).2 hx.1 hx.2 hm) ⟨hall, hr⟩ h
  exact ⟨hbits, hall'⟩

end Lineage


/-! ### Every run -/

/-- The start block of the client is the last of a chain of the network, and the difficulty
parameters given for it are those of its epoch. -/
structure TrueStart (d : InitializeData) (chain : List Block) : Prop where
  network : NetworkChain (d.network = networkTestnet4) chain
  length : chain.length = d.startHeight + 1
  bits : d.initialBits = (currentEpoch chain).bits
  start : d.epochStart = (currentEpoch chain).time

/-- The time given for the start block is its own, or plays no part: it is not looked at on
mainnet inside an epoch. -/
def StartTimeKnown (d : InitializeData) (chain : List Block) : Prop :=
  d.startTimestamp = (lastBlock chain).time ∨
    d.network = networkMainnet ∧ (d.startHeight + 1) % blocksPerEpoch ≠ 0

section Runs

variable {E : Env} {U : RawHeader → Prop} {genesis : Hash} {chain : List Block} {network : ℕ}
  {s s' s₀ s₁ : State} {accounts : List AccountInfo} {data : List UInt8} {now : ℤ}

/-- The client stays on its network, and what it keeps follows the ancestors. -/
structure Inv (E : Env) (U : RawHeader → Prop) (genesis : Hash) (chain : List Block) (network : ℕ)
    (s : State) : Prop where
  client : ∃ lc, s.lc? = some lc ∧ lc.network = network
  kept : AllKept E U genesis chain (network = networkTestnet4) s

lemma initialize_inv (hs : Untouched s₀) (he : enforced (parseData data).network)
    (htrue : TrueStart (parseData data) chain) (htime : StartTimeKnown (parseData data) chain)
    (h : processInitialize E s₀ accounts data now = .ok s₁) :
    Inv E U (parseData data).startBlockHash chain (parseData data).network s₁ := by
  obtain ⟨⟨payer, hlc⟩, hheader, -⟩ := processInitialize_ok h
  obtain ⟨hbits, hstart⟩ := Program.initialize_enforced h he
  refine ⟨⟨_, hlc, rfl⟩, fun b hdr hb => ?_⟩
  rw [hheader] at hb
  rcases update_eq_some.mp hb with ⟨rfl, rfl⟩ | ⟨-, hold⟩
  · refine ⟨rfl, chain, .start, htrue.network, htrue.length, ⟨htrue.bits, hbits⟩,
      ⟨htrue.start, hstart⟩, ?_⟩
    rcases htime with heq | ⟨hmainnet, hinside⟩
    · exact .inl heq
    · exact .inr ⟨by simp [hmainnet, networkMainnet, networkTestnet4], htrue.length ▸ hinside⟩
  · exact absurd hold (by simp [hs.2.1 b])

/-- **One batch**: every header in it has the network's bits. -/
theorem extend_inv (he : enforced network) (hinv : Inv E U genesis chain network s)
    (mem : ∀ raw ∈ rawHeaders data, U raw ∧ blockHashOf E raw ≠ zeros 32)
    (h : processExtendBlockchain E s accounts data now = .ok s') :
    (∀ raw ∈ rawHeaders data, NetworkBits E U genesis chain (network = networkTestnet4) raw) ∧
      Inv E U genesis chain network s' := by
  obtain ⟨⟨lc, hlc, rfl⟩, hall⟩ := hinv
  obtain ⟨lc₀, lc', parent, ancestors, window, items, s₁, r, hlc₀, hparent, -, -, hitems, hloop,
    hheader, hlc', hnetwork, -⟩ := MedianTime.processExtendBlockchain_window h
  obtain rfl := Option.some_inj.mp (hlc.symm.trans hlc₀)
  obtain ⟨hbits, hall₁⟩ := acceptLoop_kept he
    (fun i hi => mem _ (hitems ▸ List.mem_map_of_mem hi)) hall
    (startRunning_kept (hall _ _ hparent).2) hloop
  refine ⟨fun raw hraw => ?_, ⟨lc', hlc', hnetwork⟩, fun b hdr hb => hall₁ b hdr (hheader ▸ hb)⟩
  rw [← hitems] at hraw
  obtain ⟨i, hi, rfl⟩ := List.mem_map.mp hraw
  exact hbits i hi

theorem step_inv {c : Program.Call} (he : enforced network) (hinv : Inv E U genesis chain network s)
    (mem : ∀ raw ∈ Batching.headersOf c, U raw ∧ blockHashOf E raw ≠ zeros 32)
    (hc : Finality.OneInstance s c) (h : Program.step E s c = .ok s') :
    (∀ raw ∈ Batching.headersOf c,
      NetworkBits E U genesis chain (network = networkTestnet4) raw) ∧
      Inv E U genesis chain network s' := by
  obtain ⟨accounts, data, now, rfl⟩ | ⟨hnone, hlc, hheader⟩ := MedianTime.step_quiet hc h
  · exact extend_inv he hinv mem h
  · exact ⟨fun raw hraw => absurd (hnone ▸ hraw) List.not_mem_nil, hlc ▸ hinv.client,
      fun b hdr hb => hinv.kept b hdr (hheader b hdr hb)⟩

/-- **Next work required**: on mainnet and testnet4, from a start block whose difficulty
parameters and time are true, every header of every batch of a run has the bits that the network
requires after all its ancestors. -/
theorem next_work_required {tr : List (Step State Program.Call)} (hs : Untouched s₀)
    (hinit : processInitialize E s₀ accounts data now = .ok s₁)
    (he : enforced (parseData data).network) (htrue : TrueStart (parseData data) chain)
    (htime : StartTimeKnown (parseData data) chain)
    (hrun : Reaches (Program.step E) Finality.OneInstance s₁ tr s)
    (hz : ∀ raw, MedianTime.Submitted tr raw → blockHashOf E raw ≠ zeros 32) :
    ∀ raw, MedianTime.Submitted tr raw → ∃ ancestors,
      Ancestry E (MedianTime.Submitted tr) (parseData data).startBlockHash chain
        raw.prevBlockHash ancestors ∧
      (NoCollision E (MedianTime.Submitted tr) → NoCycle E (MedianTime.Submitted tr) →
        ∀ others, Ancestry E (MedianTime.Submitted tr) (parseData data).startBlockHash chain
          raw.prevBlockHash others → others = ancestors) ∧
      raw.bits = getNextWorkRequired ((parseData data).network = networkTestnet4) ancestors
        raw.timestamp := by
  have hbits := MedianTime.of_submitted (initialize_inv hs he htrue htime hinit) hrun
    fun s c s' hinv mem hc h =>
      step_inv he hinv (fun raw hraw => ⟨mem raw hraw, hz raw (mem raw hraw)⟩) hc h
  intro raw hraw
  obtain ⟨ancestors, hanc, hrequired⟩ := hbits raw hraw
  exact ⟨ancestors, hanc, fun hcol hcyc others h => hanc.unique hcol hcyc h, hrequired⟩

end Runs

/-! ### An easy block on a hard one -/

namespace Regtest

open Chain.Regtest Instances.Regtest Finality.Regtest

section Limit

variable {f : ℕ → ℕ} {b : Block} {n i : ℕ}

/-- The first blocks of a network, at the least difficulty. -/
def firstBlocks (f : ℕ → ℕ) (n : ℕ) : List Block := (List.range n).map fun i => ⟨f i, powLimitBits⟩

lemma length_firstBlocks : (firstBlocks f n).length = n := by simp [firstBlocks]

lemma blockAt_firstBlocks (h : i < n) : blockAt (firstBlocks f n) i = ⟨f i, powLimitBits⟩ := by
  simp [blockAt, firstBlocks, h]

/-- Up to the first retarget the least difficulty is what the network requires. -/
lemma firstBlocks_network (h : n < blocksPerEpoch) : NetworkChain true (firstBlocks f (n + 1)) := by
  induction n with
  | zero => exact .genesis rfl
  | succ n ih =>
    have hbefore := ih (by omega)
    have hlength := length_firstBlocks (f := f) (n := n + 1)
    have hinside : (n + 1) % blocksPerEpoch ≠ 0 := by
      rw [Nat.mod_eq_of_lt h]
      exact n.succ_ne_zero
    have hwalk : walkBack (firstBlocks f (n + 1)) n = powLimitBits := by
      rw [walkBack_eq hbefore.epochBits (by omega), epochOf, blockAt_firstBlocks (by omega)]
    have hchain : firstBlocks f (n + 1 + 1) = firstBlocks f (n + 1) ++ [⟨f (n + 1), powLimitBits⟩] := by
      rw [firstBlocks, List.range_succ, List.map_append]
      rfl
    rw [hchain]
    refine .next hbefore ?_
    rw [getNextWorkRequired, hlength, if_pos hinside, if_pos rfl, Nat.add_sub_cancel, hwalk, ite_self]

end Limit

/-- One epoch in half the time, and the first block of the next. -/
def fastTime (i : ℕ) : ℕ := 1714777860 + 300 * i
def hardBits : ℕ := 0x1c7fef3f
def fastChain (time : ℕ) : List Block := firstBlocks fastTime blocksPerEpoch ++ [⟨time, hardBits⟩]

lemma retarget_fast :
    calculateNextWorkRequired powLimitBits (fastTime 0) (fastTime (blocksPerEpoch - 1)) = hardBits := by
  rw [powLimitBits_eq, ← calculateNewBits_eq (by decide)]
  decide +kernel

lemma fastChain_network (time : ℕ) : NetworkChain true (fastChain time) := by
  refine .next (firstBlocks_network (by decide)) ?_
  have hlast : lastBlock (firstBlocks fastTime blocksPerEpoch) =
      ⟨fastTime (blocksPerEpoch - 1), powLimitBits⟩ := by
    rw [lastBlock, length_firstBlocks, blockAt_firstBlocks (by decide)]
  rw [getNextWorkRequired, length_firstBlocks, Nat.mod_self, if_neg (by simp), Nat.sub_self,
    blockAt_firstBlocks (by decide), hlast]
  exact retarget_fast.symm

lemma length_fastChain (time : ℕ) : (fastChain time).length = 2017 := by
  rw [fastChain, List.length_append, length_firstBlocks]
  rfl

lemma fastChain_last (time : ℕ) : lastBlock (fastChain time) = ⟨time, hardBits⟩ := lastBlock_append

lemma fastChain_epoch (time : ℕ) : currentEpoch (fastChain time) = ⟨time, hardBits⟩ := by
  rw [fastChain, currentEpoch_append (by rw [length_firstBlocks]; decide), length_firstBlocks,
    Nat.mod_self, if_pos rfl]

/-- Within twenty minutes the next block must be as hard as the last. -/
lemma fastChain_next {time next : ℕ} (h : next ≤ time + 1200) :
    getNextWorkRequired true (fastChain time) next = hardBits := by
  have hsoon : ¬ time + 2 * 600 < next := by omega
  rw [getNextWorkRequired, length_fastChain, if_pos (by decide), if_pos rfl, fastChain_last,
    if_neg hsoon, walkBack_eq (fastChain_network time).epochBits (by rw [length_fastChain]; omega)]
  have hepoch := fastChain_epoch time
  rw [currentEpoch, length_fastChain] at hepoch
  rw [hepoch]

/-- The start block, and an easy child of it. -/
def hashHard : Hash := toLe 32 2016
def easy : RawHeader := header hashHard 1715383260 0x1d00ffff 150509338
def hashEasy : Hash := toLe 32 0x2976d216cfcae127eee71becb15dca72eeae930e81626140e19766a8
def digestEasy : Hash := toLe 32 0xa93dc5e0736c7eda69f57f8004f291139bb9e9160edee575736df6e2fef5665a

def easyEnv : Env where
  sha256 data := ([(easy.toList, digestEasy), (digestEasy.toList, hashEasy)].lookup data).getD (zeros 32)
  minimumBalance len := 6960 * (len + 128)
  mainnet := false

/-- Initialize on testnet4 at the hard block of a given time, and perhaps more. -/
def hardData (time : ℕ) (more : List UInt8) : List UInt8 :=
  (toLe 8 2016).toList ++ hashHard.toList ++ [2] ++ (toLe 4 hardBits).toList ++
    (toLe 4 time).toList ++ more

def easyBatch : Program.Call :=
  .extend [info .lightClient, wallet, info (.other (zeros 32)), info (.block hashHard),
    info (.block hashEasy), info (.heightIndex 2017), info (.heightIndex 2016)]
    (1 :: easy.toList) 1715383260

def runHard (time : ℕ) (more : List UInt8) : Option State :=
  match processInitialize easyEnv emptyState (startAccountsAt 2016 hashHard) (hardData time more) 0 with
  | .ok s => exec (Program.step easyEnv) (fun _ c => !c.restarts) s [easyBatch]
  | .error _ => none

/-- Ten minutes before the child, and more than twenty. -/
def lateTime : ℕ := 1715382660
def earlyTime : ℕ := 1715381960

lemma run_untimed : (runHard lateTime []).isSome = true := by decide +kernel

lemma run_timed : (runHard earlyTime (toLe 4 earlyTime).toList).isSome = true := by decide +kernel

/-- A run with the one child. -/
lemma reaches_hard {time : ℕ} {more : List UInt8} (h : (runHard time more).isSome = true) :
    ∃ s₁ tr s, processInitialize easyEnv emptyState (startAccountsAt 2016 hashHard)
        (hardData time more) 0 = .ok s₁ ∧
      (∀ raw, MedianTime.Submitted tr raw ↔ raw = easy) ∧
      Reaches (Program.step easyEnv) Finality.OneInstance s₁ tr s := by
  obtain ⟨s, hs⟩ := Option.isSome_iff_exists.mp h
  unfold runHard at hs
  split at hs
  · rename_i s₁ hinit
    have hg : ∀ (s : State) (c : Program.Call), (!c.restarts) = true → Finality.OneInstance s c :=
      fun s c h => by simpa [Finality.OneInstance] using h
    obtain ⟨tr, htr, run⟩ := reaches_of_exec hg hs
    refine ⟨s₁, tr, s, hinit, fun raw => ?_, run⟩
    rw [MedianTime.submitted_iff, htr,
      show [easyBatch].flatMap Batching.headersOf = [easy] by decide +kernel, List.mem_singleton]
  · exact absurd hs (by simp)

end Regtest

open Chain.Regtest Instances.Regtest Regtest in
/-- **A skipped start time makes any child late**: on a hard start block an easy child is accepted
ten minutes after it. -/
theorem easy_child_accepted : ∃ s₁ tr s,
    processInitialize easyEnv emptyState (startAccountsAt 2016 hashHard) (hardData lateTime []) 0 =
      .ok s₁ ∧
    (parseData (hardData lateTime [])).network = networkTestnet4 ∧
    TrueStart (parseData (hardData lateTime [])) (fastChain lateTime) ∧
    Reaches (Program.step easyEnv) Finality.OneInstance s₁ tr s ∧
    NoCollision easyEnv (MedianTime.Submitted tr) ∧ NoCycle easyEnv (MedianTime.Submitted tr) ∧
    MedianTime.Submitted tr easy ∧
    Ancestry easyEnv (MedianTime.Submitted tr) (parseData (hardData lateTime [])).startBlockHash
      (fastChain lateTime) easy.prevBlockHash (fastChain lateTime) ∧
    easy.bits ≠ getNextWorkRequired true (fastChain lateTime) easy.timestamp := by
  obtain ⟨s₁, tr, s, hinit, hsub, run⟩ := reaches_hard run_untimed
  have hstart : easy.prevBlockHash = (parseData (hardData lateTime [])).startBlockHash := by
    decide +kernel
  have hbits : (parseData (hardData lateTime [])).initialBits = hardBits := by decide +kernel
  have hepoch : (parseData (hardData lateTime [])).epochStart = lateTime := by decide +kernel
  have hnetwork : (parseData (hardData lateTime [])).network = networkTestnet4 := by decide +kernel
  refine ⟨s₁, tr, s, hinit, hnetwork, ⟨?_, ?_, ?_, ?_⟩, run, ?_, ?_, (hsub easy).mpr rfl,
    hstart ▸ .start, ?_⟩
  · rw [hnetwork]
    exact fastChain_network _
  · rw [length_fastChain]
    decide +kernel
  · rw [hbits, fastChain_epoch]
  · rw [hepoch, fastChain_epoch]
  · intro a b ha hb _
    rw [(hsub a).mp ha, (hsub b).mp hb]
  · refine noCycle_of [hashHard, hashEasy]
      (fun raw h => List.mem_singleton.mpr ((hsub raw).mp h)) ?_
    decide +kernel
  · rw [fastChain_next (by decide +kernel)]
    decide +kernel

open Chain.Regtest Instances.Regtest Regtest in
/-- The same child on a start block of known time, more than twenty minutes after it. -/
theorem next_work_required_late : ∃ tr : List (Step State Program.Call),
    MedianTime.Submitted tr easy ∧ ∀ raw, MedianTime.Submitted tr raw → ∃ ancestors,
      Ancestry easyEnv (MedianTime.Submitted tr) hashHard (fastChain earlyTime) raw.prevBlockHash
        ancestors ∧
      (NoCollision easyEnv (MedianTime.Submitted tr) → NoCycle easyEnv (MedianTime.Submitted tr) →
        ∀ others, Ancestry easyEnv (MedianTime.Submitted tr) hashHard (fastChain earlyTime)
          raw.prevBlockHash others → others = ancestors) ∧
      raw.bits = getNextWorkRequired true ancestors raw.timestamp := by
  obtain ⟨s₁, tr, s, hinit, hsub, run⟩ := reaches_hard run_timed
  have hbits : (parseData (hardData earlyTime (toLe 4 earlyTime).toList)).initialBits = hardBits := by
    decide +kernel
  have hepoch : (parseData (hardData earlyTime (toLe 4 earlyTime).toList)).epochStart = earlyTime := by
    decide +kernel
  have htime : (parseData (hardData earlyTime (toLe 4 earlyTime).toList)).startTimestamp =
      earlyTime := by decide +kernel
  have hnetwork : (parseData (hardData earlyTime (toLe 4 earlyTime).toList)).network =
      networkTestnet4 := by decide +kernel
  have hhash : (parseData (hardData earlyTime (toLe 4 earlyTime).toList)).startBlockHash =
      hashHard := by decide +kernel
  have htrue : TrueStart (parseData (hardData earlyTime (toLe 4 earlyTime).toList))
      (fastChain earlyTime) := by
    refine ⟨?_, ?_, by rw [hbits, fastChain_epoch], by rw [hepoch, fastChain_epoch]⟩
    · rw [hnetwork]
      exact fastChain_network _
    · rw [length_fastChain]
      decide +kernel
  have h := next_work_required untouched_emptyState hinit (.inr hnetwork) htrue
    (.inl (by rw [htime, fastChain_last])) run fun raw hraw => by
      rw [(hsub raw).mp hraw]
      decide +kernel
  rw [hhash, hnetwork] at h
  exact ⟨tr, (hsub easy).mpr rfl, h⟩

end Utxopia.LightClient.NextWork
