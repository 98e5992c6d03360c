import Utxopia.Pool.Frame

/-!
The verifying keys of the proof system.

A registry is created, updated and frozen by the program's upgrade authority, and no other instruction
touches it. The key material is stored with its hash and with as many points as the public inputs of its
pair of numbers need.
-/

namespace Utxopia.Pool

open Utxopia.ByteString Utxopia.Check Utxopia.Run Utxopia.Runtime

/-! ### The hash of a key -/

def alphaG1 : List UInt8 :=
  [0x2d, 0x4d, 0x9a, 0xa7, 0xe3, 0x02, 0xd9, 0xdf, 0x41, 0x74, 0x9d, 0x55, 0x07, 0x94, 0x9d, 0x05,
   0xdb, 0xea, 0x33, 0xfb, 0xb1, 0x6c, 0x64, 0x3b, 0x22, 0xf5, 0x99, 0xa2, 0xbe, 0x6d, 0xf2, 0xe2,
   0x14, 0xbe, 0xdd, 0x50, 0x3c, 0x37, 0xce, 0xb0, 0x61, 0xd8, 0xec, 0x60, 0x20, 0x9f, 0xe3, 0x45,
   0xce, 0x89, 0x83, 0x0a, 0x19, 0x23, 0x03, 0x01, 0xf0, 0x76, 0xca, 0xff, 0x00, 0x4d, 0x19, 0x26]

def betaG2 : List UInt8 :=
  [0x09, 0x67, 0x03, 0x2f, 0xcb, 0xf7, 0x76, 0xd1, 0xaf, 0xc9, 0x85, 0xf8, 0x88, 0x77, 0xf1, 0x82,
   0xd3, 0x84, 0x80, 0xa6, 0x53, 0xf2, 0xde, 0xca, 0xa9, 0x79, 0x4c, 0xbc, 0x3b, 0xf3, 0x06, 0x0c,
   0x0e, 0x18, 0x78, 0x47, 0xad, 0x4c, 0x79, 0x83, 0x74, 0xd0, 0xd6, 0x73, 0x2b, 0xf5, 0x01, 0x84,
   0x7d, 0xd6, 0x8b, 0xc0, 0xe0, 0x71, 0x24, 0x1e, 0x02, 0x13, 0xbc, 0x7f, 0xc1, 0x3d, 0xb7, 0xab,
   0x30, 0x4c, 0xfb, 0xd1, 0xe0, 0x8a, 0x70, 0x4a, 0x99, 0xf5, 0xe8, 0x47, 0xd9, 0x3f, 0x8c, 0x3c,
   0xaa, 0xfd, 0xde, 0xc4, 0x6b, 0x7a, 0x0d, 0x37, 0x9d, 0xa6, 0x9a, 0x4d, 0x11, 0x23, 0x46, 0xa7,
   0x17, 0x39, 0xc1, 0xb1, 0xa4, 0x57, 0xa8, 0xc7, 0x31, 0x31, 0x23, 0xd2, 0x4d, 0x2f, 0x91, 0x92,
   0xf8, 0x96, 0xb7, 0xc6, 0x3e, 0xea, 0x05, 0xa9, 0xd5, 0x7f, 0x06, 0x54, 0x7a, 0xd0, 0xce, 0xc8]

def gammaG2 : List UInt8 :=
  [0x19, 0x8e, 0x93, 0x93, 0x92, 0x0d, 0x48, 0x3a, 0x72, 0x60, 0xbf, 0xb7, 0x31, 0xfb, 0x5d, 0x25,
   0xf1, 0xaa, 0x49, 0x33, 0x35, 0xa9, 0xe7, 0x12, 0x97, 0xe4, 0x85, 0xb7, 0xae, 0xf3, 0x12, 0xc2,
   0x18, 0x00, 0xde, 0xef, 0x12, 0x1f, 0x1e, 0x76, 0x42, 0x6a, 0x00, 0x66, 0x5e, 0x5c, 0x44, 0x79,
   0x67, 0x43, 0x22, 0xd4, 0xf7, 0x5e, 0xda, 0xdd, 0x46, 0xde, 0xbd, 0x5c, 0xd9, 0x92, 0xf6, 0xed,
   0x09, 0x06, 0x89, 0xd0, 0x58, 0x5f, 0xf0, 0x75, 0xec, 0x9e, 0x99, 0xad, 0x69, 0x0c, 0x33, 0x95,
   0xbc, 0x4b, 0x31, 0x33, 0x70, 0xb3, 0x8e, 0xf3, 0x55, 0xac, 0xda, 0xdc, 0xd1, 0x22, 0x97, 0x5b,
   0x12, 0xc8, 0x5e, 0xa5, 0xdb, 0x8c, 0x6d, 0xeb, 0x4a, 0xab, 0x71, 0x80, 0x8d, 0xcb, 0x40, 0x8f,
   0xe3, 0xd1, 0xe7, 0x69, 0x0c, 0x43, 0xd3, 0x7b, 0x4c, 0xe6, 0xcc, 0x01, 0x66, 0xfa, 0x7d, 0xaa]

/-- A point of the second group with the halves of its coordinates exchanged. -/
def swapHalves (p : List UInt8) : List UInt8 :=
  (p.drop 32).take 32 ++ p.take 32 ++ p.drop 96 ++ (p.drop 64).take 32

def computeVkHash (sha256 : List UInt8 → Hash) (deltaG2 : Bytes 128) (ic : List (Bytes 64)) : Hash :=
  sha256 (alphaG1 ++ swapHalves betaG2 ++ swapHalves gammaG2 ++ swapHalves deltaG2.toList ++
    ic.flatMap Vector.toList)

/-- The environment in which keys are hashed so. -/
def Env.hashingKeys (E : Env) : Env := { E with vkHash := computeVkHash E.sha256 }

/-! ### Registries -/

variable {E : Env} {s s' : State} {l : Label} {c : Call}

/-- What a registry at an address should hold. -/
structure VkRegistry.Sound (E : Env) (k : ℕ × ℕ) (v : VkRegistry) : Prop where
  own : (v.nInputs, v.nOutputs) = k
  points : v.ic.length = v.nInputs + v.nOutputs + 3
  hash : v.vkHash = E.vkHash v.deltaG2 v.ic

def RegistriesSound (E : Env) (s : State) : Prop := ∀ k v, s.vkRegistryAt? k = some v → v.Sound E k

lemma setVk_ok {v v' : VkRegistry} {ix : InitVkRegistryData} (h : v.setVk E ix = .ok v') :
    v' = { v with vkHash := ix.vkHash, deltaG2 := ix.deltaG2, ic := ix.ic } ∧
      v'.Sound E (v.nInputs, v.nOutputs) := by
  simp only [VkRegistry.setVk, bind_eq_ok, require_eq_ok, exists_const, pure_eq_ok] at h
  obtain ⟨hlen, hhash, rfl⟩ := h
  have hpoints : ix.ic.length = v.nInputs + v.nOutputs + 3 := by omega
  exact ⟨rfl, rfl, hpoints, hhash⟩

/-- **What a step does to the registries**: nothing, or it writes a sound one where none is frozen,
or it freezes one. -/
inductive KeysChange (E : Env) (s s' : State) : Prop where
  | same (h : s'.vkRegistryAt? = s.vkRegistryAt?)
  | written (k : ℕ × ℕ) (v : VkRegistry) (sound : v.Sound E k)
      (unfrozen : ∀ old, s.vkRegistryAt? k = some old → old.frozen = false)
      (h : s'.vkRegistryAt? = Function.update s.vkRegistryAt? k (some v))
  | frozen (k : ℕ × ℕ) (v : VkRegistry) (old : s.vkRegistryAt? k = some v)
      (h : s'.vkRegistryAt? = Function.update s.vkRegistryAt? k (some { v with frozen := true }))

lemma vkRegistryAt?_set (s : State) (k : ℕ × ℕ) (acc : Account VkRegistry) :
    ({ s with vkRegistries := s.vkRegistries.set k acc } : State).vkRegistryAt? =
      Function.update s.vkRegistryAt? k acc.live? := by
  funext j
  rcases eq_or_ne j k with rfl | hne
  · rw [State.vkRegistryAt?, Store.get_set_self, Function.update_self]
  · rw [State.vkRegistryAt?, Store.get_set_of_ne _ _ hne, Function.update_of_ne hne]
    rfl

lemma vkRegistryAt?_put {v : VkRegistry} {n m : ℕ} : (s.putVkRegistry v (.vkRegistry n m)).vkRegistryAt? =
    Function.update s.vkRegistryAt? (n, m) (some v) := vkRegistryAt?_set ..

lemma processInitVkRegistry_change (h : processInitVkRegistry E s c = .ok s') :
    KeysChange E s s' := by
  simp only [processInitVkRegistry, bind_eq_ok, exists_unit, require_eq_ok, pure_eq_ok] at h
  obtain ⟨-, _, -, _, -, authority, -, _, -, ix, -, -, -, -, hnone, acc, -, v, hv, rfl⟩ := h
  refine .written _ v (setVk_ok hv).2 (fun old hold => ?_) (vkRegistryAt?_set ..)
  exact absurd (hnone.symm.trans hold) (by simp)

lemma processUpdateVkRegistry_change (h : processUpdateVkRegistry E s c = .ok s') :
    KeysChange E s s' := by
  simp only [processUpdateVkRegistry, bind_eq_ok, exists_unit, require_eq_ok, orElse_eq_ok,
    pure_eq_ok] at h
  obtain ⟨-, _, -, vkRegistry, -, authority, -, ix, -, -, -, hkey, v, hv, -, hfrozen, ⟨hn, hm⟩, v', hv',
    rfl⟩ := h
  rw [hkey] at hv ⊢
  have hsound := (setVk_ok hv').2
  rw [hn, hm] at hsound
  refine .written _ v' hsound (fun old hold => ?_) vkRegistryAt?_put
  obtain rfl := Option.some_inj.mp (hold.symm.trans hv)
  simpa using hfrozen

lemma processFreezeVkRegistry_change (h : processFreezeVkRegistry E s c = .ok s') :
    KeysChange E s s' := by
  simp only [processFreezeVkRegistry, bind_eq_ok, exists_unit, require_eq_ok, orElse_eq_ok,
    pure_eq_ok] at h
  obtain ⟨-, _, -, vkRegistry, -, authority, -, -, -, -, v, hv, hkey, -, rfl⟩ := h
  rw [hkey] at hv ⊢
  exact .frozen _ v hv vkRegistryAt?_put

lemma run_keysChange {i : Instruction} (hi : i.writesKeys = true) (h : i.run E s c = .ok s') :
    KeysChange E s s' := by
  cases i with
  | InitVkRegistry => exact processInitVkRegistry_change h
  | UpdateVkRegistry => exact processUpdateVkRegistry_change h
  | FreezeVkRegistry => exact processFreezeVkRegistry_change h
  | _ => exact absurd hi (by simp [Instruction.writesKeys])

/-- The keys are kept by whatever does not write them. -/
lemma step_same (hstep : step E s l = .ok s')
    (hw : ∀ c c' i, l = .call c → c.decode E = some (i, c') → i.writesKeys = false) :
    s'.vkRegistryAt? = s.vkRegistryAt? := by
  have hkeys : AboutOutputs fun b => b.keys = s.vkRegistryAt? := fun b k d h _ => h
  exact step_ensures hkeys rfl hstep hw fun _ _ _ _ _ _ _ _ _ b tail h _ => h

theorem step_keysChange (hstep : step E s l = .ok s') : KeysChange E s s' := by
  by_cases hw : ∃ c c' i, l = .call c ∧ c.decode E = some (i, c') ∧ i.writesKeys = true
  · obtain ⟨c, c', i, rfl, hd, hi⟩ := hw
    simp only [step, bind_eq_ok, exists_unit, processInstruction, hd] at hstep
    exact run_keysChange hi hstep.2
  · refine .same (step_same hstep fun c c' i hl hd => ?_)
    exact Bool.eq_false_iff.mpr fun hi => hw ⟨c, c', i, hl, hd, hi⟩

/-! ### Runs -/

lemma KeysChange.sound (h : KeysChange E s s') (hs : RegistriesSound E s) : RegistriesSound E s' := by
  intro j v hv
  cases h with
  | same h => exact hs j v (h ▸ hv)
  | written k w sound _ h =>
    rw [h] at hv
    rcases update_eq_some.mp hv with ⟨rfl, rfl⟩ | ⟨-, hold⟩
    · exact sound
    · exact hs j v hold
  | frozen k w old h =>
    rw [h] at hv
    rcases update_eq_some.mp hv with ⟨rfl, rfl⟩ | ⟨-, hold⟩
    · obtain ⟨own, points, hash⟩ := hs j w old
      exact ⟨own, points, hash⟩
    · exact hs j v hold

/-- A frozen registry stays as it is. -/
lemma KeysChange.kept (h : KeysChange E s s') {k : ℕ × ℕ} {v : VkRegistry}
    (hv : s.vkRegistryAt? k = some v) (hfrozen : v.frozen = true) : s'.vkRegistryAt? k = some v := by
  cases h with
  | same h => rw [h, hv]
  | written j w _ unfrozen h =>
    rcases eq_or_ne k j with rfl | hne
    · rw [unfrozen v hv] at hfrozen
      exact absurd hfrozen (by simp)
    · rw [h, Function.update_of_ne hne, hv]
  | frozen j w old h =>
    rcases eq_or_ne k j with rfl | hne
    · obtain rfl := Option.some_inj.mp (hv.symm.trans old)
      obtain ⟨nInputs, nOutputs, authority, vkHash, deltaG2, ic, frozen⟩ := v
      obtain rfl : frozen = true := hfrozen
      rw [h, Function.update_self]
    · rw [h, Function.update_of_ne hne, hv]

/-- **Verifying keys are what they say**: after any run of the program every initialized registry is at
the address of its own numbers, has the points that they need and the hash of its material, and what was
frozen at any time is unchanged. -/
theorem registries_sound {tr : List (Step State Label)}
    (run : Reaches (step E.hashingKeys) (fun _ _ => True) .genesis tr s) :
    (∀ n m v, s.vkRegistryAt? (n, m) = some v → v.nInputs = n ∧ v.nOutputs = m ∧
      v.ic.length = n + m + 3 ∧ v.vkHash = computeVkHash E.sha256 v.deltaG2 v.ic) ∧
    ∀ st ∈ tr, ∀ k v, st.post.vkRegistryAt? k = some v → v.frozen = true →
      s.vkRegistryAt? k = some v := by
  have h := run.history (I := fun tr s => RegistriesSound E.hashingKeys s ∧
    ∀ st ∈ tr, ∀ k v, st.post.vkRegistryAt? k = some v → v.frozen = true → s.vkRegistryAt? k = some v)
    ⟨fun k v hv => absurd (show none = some v from hv) (by simp), by simp⟩ ?_
  · refine ⟨fun n m v hv => ?_, h.2⟩
    obtain ⟨own, points, hash⟩ := h.1 _ v hv
    obtain ⟨rfl, rfl⟩ := Prod.mk.inj own
    exact ⟨rfl, rfl, points, hash⟩
  · intro tr s l s' _ hI _ hstep
    have hchange := step_keysChange hstep
    refine ⟨hchange.sound hI.1, fun st hst k v hv hfrozen => ?_⟩
    rcases List.mem_append.mp hst with hst | hst
    · exact hchange.kept (hI.2 st hst k v hv hfrozen) hfrozen
    · rwa [List.mem_singleton.mp hst] at hv

namespace Regtest

/-- The program's account says who may upgrade it. -/
def upgradableBy (a : Addr) : List (Hash × Foreign) :=
  [(programData, ⟨loader, false, [3, 0, 0, 0] ++ (zeros 8).toList ++ [1] ++ (env.bytesOf a).toList⟩)]

/-- A key for spends with `n` inputs and `m` outputs, all its points being `g`. -/
def keyData (n m : ℕ) (g : UInt8) : List UInt8 :=
  let ic := List.replicate (3 + n + m) (Vector.replicate 64 g)
  [UInt8.ofNat n, UInt8.ofNat m] ++ (computeVkHash env.sha256 (zeros 128) ic).toList ++
    (zeros 128).toList ++ [UInt8.ofNat ic.length] ++ ic.flatMap Vector.toList

/-- Two authorities register a key each, the first freezes its own after an update, and a pool is opened
afterwards. -/
def keyRun : List Label :=
  [call 6 [readonly (.key programData), writable (.vkRegistry 1 1), signer admin, system]
      (keyData 1 1 1) [] 0,
    call 7 [readonly (.key programData), writable (.vkRegistry 1 1), signer admin] (keyData 1 1 2) [] 0,
    call 16 [readonly (.key programData), writable (.vkRegistry 1 1), signer admin] [] [] 0,
    call 6 [readonly (.key programData), writable (.vkRegistry 1 2), signer user, system]
      (keyData 1 2 3) (upgradableBy user) 0,
    openPool]

lemma keyRun_reaches :
    (exec (step env.hashingKeys) (fun _ _ => true) .genesis keyRun).isSome = true := by
  decide +kernel

end Regtest

open Regtest in
/-- A key is registered, updated and frozen, another one is registered by a new authority, and a pool is
opened. -/
theorem registries_sound_two : ∃ (tr : List (Step State Label)) (s : State),
    tr.map Step.call = keyRun ∧
    (∀ n m v, s.vkRegistryAt? (n, m) = some v → v.nInputs = n ∧ v.nOutputs = m ∧
      v.ic.length = n + m + 3 ∧ v.vkHash = computeVkHash env.sha256 v.deltaG2 v.ic) ∧
    ∀ st ∈ tr, ∀ k v, st.post.vkRegistryAt? k = some v → v.frozen = true →
      s.vkRegistryAt? k = some v := by
  obtain ⟨s, hs⟩ := Option.isSome_iff_exists.mp keyRun_reaches
  obtain ⟨tr, hcalls, hrun⟩ := reaches_of_exec (fun _ _ _ => trivial : ∀ _ _, _ → True) hs
  exact ⟨tr, s, hcalls, registries_sound hrun⟩

end Utxopia.Pool
