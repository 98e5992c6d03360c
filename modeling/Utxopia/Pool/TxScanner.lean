import Utxopia.Pool.Program
import Utxopia.Pool.TxFormat

/-!
The transaction reader as the code has it: offsets in machine words, slices that may panic, and
iterators that walk over the bytes once more.

An offset that overflows where nothing checks for it, and a slice outside the bytes, stop the program.
Neither happens, and what comes out is what the reader over lists gives.
-/

namespace Utxopia.Pool.Scanner

open Utxopia.ByteString Utxopia.Check Utxopia.Pool Utxopia.Positional

/-! ### Words and slices -/

/-- Why a scan ends early: the bytes are refused, or the program stops. -/
inductive Stop where
  | refused
  | panic
  deriving DecidableEq

/-- `a + b`, with overflow checks. -/
def addUsize (a b : ℕ) : Except Stop ℕ := do
  require (a + b < 2 ^ 64) .panic
  return a + b

/-- `a.checked_add(b)`. -/
def checkedAddUsize (a b : ℕ) : Except Stop ℕ := do
  require (a + b < 2 ^ 64) .refused
  return a + b

/-- `&d[off..]`. -/
def sliceFrom (d : List UInt8) (off : ℕ) : Except Stop (List UInt8) := do
  require (off ≤ d.length) .panic
  return d.drop off

/-- `d.get(off..)`. -/
def getFrom (d : List UInt8) (off : ℕ) : Except Stop (List UInt8) := do
  require (off ≤ d.length) .refused
  return d.drop off

/-- `&d[start..finish]`. -/
def sliceBetween (d : List UInt8) (start finish : ℕ) : Except Stop (List UInt8) := do
  require (start ≤ finish ∧ finish ≤ d.length) .panic
  return (d.take finish).drop start

/-- `read_varint(&d[off..])`. -/
def varintAt (d : List UInt8) (off : ℕ) : Except Stop (ℕ × ℕ) := do
  let rest ← sliceFrom d off
  orElse (readVarint rest) .refused

/-- The same behind a check of the offset. -/
def checkedVarintAt (d : List UInt8) (off : ℕ) : Except Stop (ℕ × ℕ) := do
  require (off ≤ d.length) .refused
  varintAt d off

/-- `read_varint(d.get(off..)?)`. -/
def gotVarintAt (d : List UInt8) (off : ℕ) : Except Stop (ℕ × ℕ) := do
  let rest ← getFrom d off
  orElse (readVarint rest) .refused

/-! ### The two scanners -/

/-- Past one input: the outpoint, the script, the sequence. -/
def skipInput (d : List UInt8) (varint : ℕ → Except Stop (ℕ × ℕ)) (off : ℕ) : Except Stop ℕ := do
  let off ← addUsize off 36
  let (scriptLen, size) ← varint off
  let off ← checkedAddUsize off size
  let off ← checkedAddUsize off scriptLen
  let off ← checkedAddUsize off 4
  require (off ≤ d.length) .refused
  return off

/-- Past one output: the value and the script. -/
def skipOutput (d : List UInt8) (varint : ℕ → Except Stop (ℕ × ℕ)) (off : ℕ) : Except Stop ℕ := do
  let off ← addUsize off 8
  let (scriptLen, size) ← varint off
  let off ← checkedAddUsize off size
  let off ← checkedAddUsize off scriptLen
  require (off ≤ d.length) .refused
  return off

def skipMany (skip : ℕ → Except Stop ℕ) : ℕ → ℕ → Except Stop ℕ
  | 0, off => .ok off
  | n + 1, off => do
    let off ← skip off
    skipMany skip n off

/-- `ParsedTransaction`. -/
structure RawTransaction where
  inputsData : List UInt8
  inputCount : ℕ
  outputsData : List UInt8
  outputCount : ℕ

def parse (d : List UInt8) : Except Stop RawTransaction := do
  require (10 ≤ d.length) .refused
  let off := if 6 < d.length ∧ isSegwit d then 6 else 4
  let (inputCount, size) ← varintAt d off
  require (inputCount ≠ 0) .refused
  let inputsStart ← addUsize off size
  let inputsEnd ← skipMany (skipInput d (checkedVarintAt d)) inputCount inputsStart
  let (outputCount, size) ← varintAt d inputsEnd
  let outputsStart ← addUsize inputsEnd size
  let outputsEnd ← skipMany (skipOutput d (checkedVarintAt d)) outputCount outputsStart
  let inputsData ← sliceBetween d inputsStart inputsEnd
  let outputsData ← sliceBetween d outputsStart outputsEnd
  return ⟨inputsData, inputCount, outputsData, outputCount⟩

def segwitBodyEnd (d : List UInt8) : Except Stop ℕ := do
  require (10 ≤ d.length) .refused
  require (isSegwit d) .refused
  let (inputCount, size) ← gotVarintAt d 6
  require (inputCount ≠ 0) .refused
  let off ← addUsize 6 size
  let off ← skipMany (skipInput d (gotVarintAt d)) inputCount off
  let (outputCount, size) ← gotVarintAt d off
  let off ← addUsize off size
  skipMany (skipOutput d (gotVarintAt d)) outputCount off

/-- The bytes that are hashed for the id. -/
def hashedBytes (d : List UInt8) : Except Stop (List UInt8) :=
  match segwitBodyEnd d with
  | .ok bodyEnd => do
    let limit ← addUsize bodyEnd 4
    if limit ≤ d.length then do
      let version ← sliceBetween d 0 4
      let body ← sliceBetween d 6 bodyEnd
      let locktime ← sliceFrom d (d.length - 4)
      return version ++ body ++ locktime
    else return d
  | .error .refused => .ok d
  | .error .panic => throw .panic

def computeTxHash (E : Env) (d : List UInt8) : Except Stop Hash := do
  let bytes ← hashedBytes d
  return doubleSha256 E bytes

/-! ### The two iterators -/

/-- `InputIterator` and `OutputIterator`. -/
structure TxIterator where
  data : List UInt8
  offset : ℕ
  remaining : ℕ

def RawTransaction.inputs (x : RawTransaction) : TxIterator := ⟨x.inputsData, 0, x.inputCount⟩
def RawTransaction.outputs (x : RawTransaction) : TxIterator := ⟨x.outputsData, 0, x.outputCount⟩

/-- `InputIterator::next`; a refusal is the end of the items. -/
def nextInput (it : TxIterator) : Except Stop (TxInput × TxIterator) := do
  require (it.remaining ≠ 0) .refused
  let outpointEnd ← addUsize it.offset 36
  require (outpointEnd ≤ it.data.length) .refused
  let txidEnd ← addUsize it.offset 32
  let prevTxid ← sliceBetween it.data it.offset txidEnd
  let voutEnd ← addUsize txidEnd 4
  let prevVout ← sliceBetween it.data txidEnd voutEnd
  let (scriptLen, size) ← varintAt it.data voutEnd
  let off ← checkedAddUsize voutEnd size
  let off ← checkedAddUsize off scriptLen
  let off ← checkedAddUsize off 4
  require (off ≤ it.data.length) .refused
  return (⟨ofList 32 prevTxid, leNat prevVout⟩, { it with offset := off, remaining := it.remaining - 1 })

/-- `OutputIterator::next`. -/
def nextOutput (it : TxIterator) : Except Stop (TxOutput × TxIterator) := do
  require (it.remaining ≠ 0) .refused
  let valueEnd ← addUsize it.offset 8
  require (valueEnd ≤ it.data.length) .refused
  let value ← sliceBetween it.data it.offset valueEnd
  let (scriptLen, size) ← varintAt it.data valueEnd
  let scriptStart ← addUsize valueEnd size
  let scriptEnd ← checkedAddUsize scriptStart scriptLen
  require (scriptEnd ≤ it.data.length) .refused
  let script ← sliceBetween it.data scriptStart scriptEnd
  return (⟨leNat value, script⟩, { it with offset := scriptEnd, remaining := it.remaining - 1 })

/-- A loop over an iterator comes to its end with these items, without a panic. -/
inductive Yields {α : Type} (next : TxIterator → Except Stop (α × TxIterator)) :
    TxIterator → List α → Prop
  | nil {it : TxIterator} (last : next it = .error .refused) : Yields next it []
  | cons {it it' : TxIterator} {a : α} {as : List α} (item : next it = .ok (a, it'))
      (rest : Yields next it' as) : Yields next it (a :: as)

lemma Yields.unique {α : Type} {next : TxIterator → Except Stop (α × TxIterator)} {it : TxIterator}
    {as bs : List α} (h : Yields next it as) (h' : Yields next it bs) : as = bs := by
  induction h generalizing bs with
  | nil hlast =>
    cases h' with
    | nil => rfl
    | cons hitem _ => exact absurd (hlast.symm.trans hitem) (by simp)
  | cons hitem _ ih =>
    cases h' with
    | nil hlast => exact absurd (hitem.symm.trans hlast) (by simp)
    | cons hitem' hrest' =>
      obtain ⟨rfl, rfl⟩ := Prod.mk.inj (Except.ok.inj (hitem.symm.trans hitem'))
      rw [ih hrest']

/-! ### Each piece does what the reader over lists does -/

section Pieces

variable {d : List UInt8} {off : ℕ} {varint : ℕ → Except Stop (ℕ × ℕ)}

lemma addUsize_of_lt {a b : ℕ} (h : a + b < 2 ^ 64) : addUsize a b = .ok (a + b) := by
  rw [addUsize, require, if_pos h]
  rfl

lemma sliceBetween_of_le {start finish : ℕ} (h : start ≤ finish) (h' : finish ≤ d.length) :
    sliceBetween d start finish = .ok ((d.take finish).drop start) := by
  rw [sliceBetween, require, if_pos ⟨h, h'⟩]
  rfl

lemma varintAt_of_le (h : off ≤ d.length) : varintAt d off = orElse (readVarint (d.drop off)) .refused := by
  rw [varintAt, sliceFrom, require, if_pos h]
  rfl

lemma checkedVarintAt_eq (off : ℕ) :
    checkedVarintAt d off = orElse (readVarint (d.drop off)) .refused := by
  by_cases h : off ≤ d.length
  · rw [checkedVarintAt, require, if_pos h]
    exact varintAt_of_le h
  · rw [checkedVarintAt, require, if_neg h, List.drop_eq_nil_of_le (by omega)]
    rfl

lemma gotVarintAt_eq (off : ℕ) : gotVarintAt d off = orElse (readVarint (d.drop off)) .refused := by
  by_cases h : off ≤ d.length
  · rw [gotVarintAt, getFrom, require, if_pos h]
    rfl
  · rw [gotVarintAt, getFrom, require, if_neg h, List.drop_eq_nil_of_le (by omega)]
    rfl

/-- A scan that never panics and succeeds exactly where the reader does. -/
lemma eq_orElse {α : Type} {x : Except Stop α} {o : Option α} (hok : ∀ a, x = .ok a ↔ o = some a)
    (hpanic : x ≠ .error .panic) : x = orElse o .refused := by
  cases x with
  | ok a => rw [(hok a).mp rfl, orElse]
  | error e =>
    cases e with
    | panic => exact absurd rfl hpanic
    | refused =>
      cases o with
      | none => rfl
      | some a => exact absurd ((hok a).mpr rfl) (by simp)

@[simp] lemma addUsize_eq_ok {a b c : ℕ} : addUsize a b = .ok c ↔ a + b < 2 ^ 64 ∧ a + b = c := by
  simp only [addUsize, bind_eq_ok, require_eq_ok, exists_unit, pure_eq_ok]

@[simp] lemma checkedAddUsize_eq_ok {a b c : ℕ} :
    checkedAddUsize a b = .ok c ↔ a + b < 2 ^ 64 ∧ a + b = c := by
  simp only [checkedAddUsize, bind_eq_ok, require_eq_ok, exists_unit, pure_eq_ok]

@[simp] lemma addUsize_eq_panic {a b : ℕ} : addUsize a b = .error .panic ↔ 2 ^ 64 ≤ a + b := by
  simp only [addUsize, bind_eq_error, require_eq_error, pure_ne_error, and_true, and_false, exists_false,
    or_false, not_lt]

@[simp] lemma checkedAddUsize_eq_panic {a b : ℕ} : checkedAddUsize a b = .error .panic ↔ False := by
  simp only [checkedAddUsize, bind_eq_error, require_eq_error, pure_ne_error, reduceCtorEq, and_false,
    exists_false, or_false]

@[simp] lemma refused_eq_panic {c : Prop} [Decidable c] :
    require c Stop.refused = .error .panic ↔ False := by
  simp [require_eq_error]

@[simp] lemma orElse_eq_panic {α : Type} {o : Option α} : orElse o Stop.refused = .error .panic ↔ False := by
  simp [orElse_eq_error]

lemma skipInput_eq (hd : d.length < 2 ^ 63) (hoff : off ≤ d.length)
    (hvarint : ∀ off, varint off = orElse (readVarint (d.drop off)) .refused) :
    skipInput d varint off = orElse ((readInput d off).map Prod.snd) .refused := by
  refine eq_orElse (fun e => ?_) ?_
  · simp only [skipInput, readInput, hvarint, bind_eq_ok, addUsize_eq_ok, checkedAddUsize_eq_ok, orElse_eq_ok,
      require_eq_ok, pure_eq_ok, Prod.exists, Option.bind_eq_bind, Option.map_eq_some_iff,
      Option.bind_eq_some_iff, Option.guard_eq_some', exists_const, Option.pure_def, Option.some_inj,
      Prod.mk.injEq]
    constructor
    · rintro ⟨_, ⟨-, rfl⟩, scriptLen, size, hvar, _, ⟨-, rfl⟩, _, ⟨-, rfl⟩, _, ⟨-, rfl⟩, hle, rfl⟩
      exact ⟨_, _, ⟨by omega, scriptLen, size, hvar, hle, rfl, rfl⟩, rfl⟩
    · rintro ⟨_, _, ⟨-, scriptLen, size, hvar, hle, rfl, rfl⟩, rfl⟩
      exact ⟨_, ⟨by omega, rfl⟩, scriptLen, size, hvar, _, ⟨by omega, rfl⟩, _, ⟨by omega, rfl⟩,
        _, ⟨by omega, rfl⟩, hle, rfl⟩
  · simp only [skipInput, hvarint, ne_eq, bind_eq_error, addUsize_eq_panic, checkedAddUsize_eq_panic,
      refused_eq_panic, orElse_eq_panic, pure_ne_error, and_false, exists_false, or_false]
    omega

lemma skipOutput_eq (hd : d.length < 2 ^ 63) (hoff : off ≤ d.length)
    (hvarint : ∀ off, varint off = orElse (readVarint (d.drop off)) .refused) :
    skipOutput d varint off = orElse ((readOutput d off).map Prod.snd) .refused := by
  refine eq_orElse (fun e => ?_) ?_
  · simp only [skipOutput, readOutput, hvarint, bind_eq_ok, addUsize_eq_ok, checkedAddUsize_eq_ok, orElse_eq_ok,
      require_eq_ok, pure_eq_ok, Prod.exists, Option.bind_eq_bind, Option.map_eq_some_iff,
      Option.bind_eq_some_iff, Option.guard_eq_some', exists_const, Option.pure_def, Option.some_inj,
      Prod.mk.injEq]
    constructor
    · rintro ⟨_, ⟨-, rfl⟩, scriptLen, size, hvar, _, ⟨-, rfl⟩, _, ⟨-, rfl⟩, hle, rfl⟩
      exact ⟨_, _, ⟨by omega, scriptLen, size, hvar, hle, rfl, rfl⟩, rfl⟩
    · rintro ⟨_, _, ⟨-, scriptLen, size, hvar, hle, rfl, rfl⟩, rfl⟩
      exact ⟨_, ⟨by omega, rfl⟩, scriptLen, size, hvar, _, ⟨by omega, rfl⟩, _, ⟨by omega, rfl⟩, hle, rfl⟩
  · simp only [skipOutput, hvarint, ne_eq, bind_eq_error, addUsize_eq_panic, checkedAddUsize_eq_panic,
      refused_eq_panic, orElse_eq_panic, pure_ne_error, and_false, exists_false, or_false]
    omega

lemma skipMany_eq {α : Type} {item : ℕ → Option (α × ℕ)} {skip : ℕ → Except Stop ℕ}
    (hskip : ∀ off ≤ d.length, skip off = orElse ((item off).map Prod.snd) .refused)
    (hend : ∀ {off a e}, item off = some (a, e) → e ≤ d.length) (hoff : off ≤ d.length) (n : ℕ) :
    skipMany skip n off = orElse ((readMany item n off).map Prod.snd) .refused := by
  induction n generalizing off with
  | zero => rfl
  | succ n ih =>
    rw [skipMany, readMany, hskip off hoff]
    cases ha : item off with
    | none => rfl
    | some x =>
      change skipMany skip n x.2 = _
      rw [ih (hend ha)]
      change _ = orElse (((readMany item n x.2).bind _).map Prod.snd) Stop.refused
      cases readMany item n x.2 <;> rfl

lemma readInput_end {i : TxInput} {e : ℕ} (h : readInput d off = some (i, e)) : e ≤ d.length := by
  obtain ⟨f, -, hprefix, rfl⟩ := readInput_iff.mp h
  refine length_of_prefix hprefix (List.length_pos_iff.mp ?_)
  rw [f.length_bytes]
  omega

lemma readOutput_end {o : TxOutput} {e : ℕ} (h : readOutput d off = some (o, e)) : e ≤ d.length := by
  obtain ⟨f, -, hprefix, rfl⟩ := readOutput_iff.mp h
  refine length_of_prefix hprefix (List.length_pos_iff.mp ?_)
  rw [f.length_bytes]
  omega

lemma readVarint_end {v n : ℕ} (hoff : off ≤ d.length) (h : readVarint (d.drop off) = some (v, n)) :
    off + n ≤ d.length := by
  obtain ⟨form, -, hprefix, rfl⟩ := exists_form h
  have hle := hprefix.length_le
  rw [List.length_drop] at hle
  omega

lemma varintAt_eq_ok {x : ℕ × ℕ} :
    varintAt d off = .ok x ↔ off ≤ d.length ∧ readVarint (d.drop off) = some x := by
  simp only [varintAt, sliceFrom, bind_eq_ok, require_eq_ok, exists_unit, pure_eq_ok, orElse_eq_ok]
  constructor
  · rintro ⟨_, ⟨hle, rfl⟩, hread⟩
    exact ⟨hle, hread⟩
  · rintro ⟨hle, hread⟩
    exact ⟨_, ⟨hle, rfl⟩, hread⟩

lemma varintAt_eq_panic : varintAt d off = .error .panic ↔ d.length < off := by
  simp only [varintAt, sliceFrom, bind_eq_error, require_eq_error, pure_ne_error, orElse_eq_panic, and_true,
    and_false, exists_false, or_false, not_le]

lemma sliceBetween_prefix {p : List UInt8} (h : p <+: d.drop off) (hle : off + p.length ≤ d.length) :
    sliceBetween d off (off + p.length) = .ok p := by
  rw [sliceBetween_of_le (Nat.le_add_right ..) hle, List.drop_take, Nat.add_sub_cancel_left]
  exact congrArg _ (List.prefix_iff_eq_take.mp h).symm

lemma skipInputs (hd : d.length < 2 ^ 63)
    (hvarint : ∀ off, varint off = orElse (readVarint (d.drop off)) .refused) (hoff : off ≤ d.length) (n : ℕ) :
    skipMany (skipInput d varint) n off = orElse ((readMany (readInput d) n off).map Prod.snd) .refused :=
  skipMany_eq (fun _ hle => skipInput_eq hd hle hvarint) readInput_end hoff n

lemma skipOutputs (hd : d.length < 2 ^ 63)
    (hvarint : ∀ off, varint off = orElse (readVarint (d.drop off)) .refused) (hoff : off ≤ d.length) (n : ℕ) :
    skipMany (skipOutput d varint) n off = orElse ((readMany (readOutput d) n off).map Prod.snd) .refused :=
  skipMany_eq (fun _ hle => skipOutput_eq hd hle hvarint) readOutput_end hoff n

lemma skipInputs_written (hd : d.length < 2 ^ 63)
    (hvarint : ∀ off, varint off = orElse (readVarint (d.drop off)) .refused) (hoff : off ≤ d.length)
    {fs : List WrittenInput} (h : fs.flatMap WrittenInput.bytes <+: d.drop off) :
    skipMany (skipInput d varint) fs.length off = .ok (off + (fs.flatMap WrittenInput.bytes).length) := by
  rw [skipInputs hd hvarint hoff, (readMany_iff readInput_iff).mpr ⟨fs, rfl, rfl, h, rfl⟩]
  rfl

lemma skipOutputs_written (hd : d.length < 2 ^ 63)
    (hvarint : ∀ off, varint off = orElse (readVarint (d.drop off)) .refused) (hoff : off ≤ d.length)
    {fs : List WrittenOutput} (h : fs.flatMap WrittenOutput.bytes <+: d.drop off) :
    skipMany (skipOutput d varint) fs.length off = .ok (off + (fs.flatMap WrittenOutput.bytes).length) := by
  rw [skipOutputs hd hvarint hoff, (readMany_iff readOutput_iff).mpr ⟨fs, rfl, rfl, h, rfl⟩]
  rfl

lemma skipMany_end {α : Type} {item : ℕ → Option (α × ℕ)} {x : Except Stop ℕ} {n e : ℕ}
    (hitem : ∀ {off as e}, readMany item n off = some (as, e) → off ≤ d.length → off ≤ e ∧ e ≤ d.length)
    (hoff : off ≤ d.length) (hx : x = orElse ((readMany item n off).map Prod.snd) .refused)
    (h : x = .ok e) : off ≤ e ∧ e ≤ d.length := by
  rw [hx, orElse_eq_ok, Option.map_eq_some_iff] at h
  obtain ⟨⟨as, _⟩, has, rfl⟩ := h
  exact hitem has hoff

/-- Items that are read end inside the bytes. -/
lemma readMany_end {α β : Type} {item : ℕ → Option (α × ℕ)} {val : β → α} {bytes : β → List UInt8}
    (hitem : ∀ {off a e}, item off = some (a, e) ↔
      ∃ f, val f = a ∧ bytes f <+: d.drop off ∧ off + (bytes f).length = e) {n e : ℕ} {as : List α}
    (h : readMany item n off = some (as, e)) (hoff : off ≤ d.length) : off ≤ e ∧ e ≤ d.length := by
  obtain ⟨fs, -, -, hprefix, rfl⟩ := (readMany_iff hitem).mp h
  have hle := hprefix.length_le
  rw [List.length_drop] at hle
  omega

end Pieces

/-! ### The scanners on what is written -/

section Scanners

variable {d : List UInt8}

/-- Where the body of a transaction begins. -/
def bodyStart (d : List UInt8) : ℕ := if isSegwit d then 6 else 4

lemma bodyStart_eq (h : 6 < d.length) :
    (if 6 < d.length ∧ isSegwit d = true then 6 else 4) = bodyStart d := by
  unfold bodyStart
  simp only [h, true_and]

lemma bodyStart_le (h : 6 ≤ d.length) : bodyStart d ≤ d.length := by
  unfold bodyStart
  split_ifs <;> omega

/-- What the reader keeps of a body. -/
def rawOf (b : WrittenBody) : RawTransaction where
  inputsData := b.inputs.flatMap WrittenInput.bytes
  inputCount := b.inputs.length
  outputsData := b.outputs.flatMap WrittenOutput.bytes
  outputCount := b.outputs.length

/-- **A written body is scanned.** -/
lemma parse_of_body (hd : d.length < 2 ^ 63) (h10 : 10 ≤ d.length) {b : WrittenBody}
    (h : b.bytes <+: d.drop (bodyStart d)) : parse d = .ok (rawOf b) := by
  have hstart := bodyStart_eq (d := d) (by omega)
  have hlow := bodyStart_le (d := d) (by omega)
  rw [WrittenBody.bytes, append_prefix_drop, append_prefix_drop, append_prefix_drop] at h
  obtain ⟨hform, hins, hform', houts⟩ := h
  have hn := readVarint_encode b.inputsFit hform
  have hm := readVarint_encode b.outputsFit hform'
  have hn' := readVarint_end hlow hn
  have hinsEnd : bodyStart d + (b.inputForm.encode b.inputs.length).length +
      (b.inputs.flatMap WrittenInput.bytes).length ≤ d.length := by
    have := hins.length_le
    rw [List.length_drop] at this
    omega
  have hm' := readVarint_end hinsEnd hm
  have houtsEnd := houts.length_le
  rw [List.length_drop] at houtsEnd
  have hskip := skipInputs_written hd checkedVarintAt_eq hn' hins
  have hskip' := skipOutputs_written hd checkedVarintAt_eq hm' houts
  simp only [parse, hstart, bind_eq_ok, exists_unit, require_eq_ok, pure_eq_ok, addUsize_eq_ok, varintAt_eq_ok,
    Prod.exists]
  exact ⟨h10, _, _, ⟨hlow, hn⟩, fun hz => b.nonempty (List.length_eq_zero_iff.mp hz), _, ⟨by omega, rfl⟩,
    _, hskip, _, _, ⟨hinsEnd, hm⟩, _, ⟨by omega, rfl⟩, _, hskip', _, sliceBetween_prefix hins hinsEnd,
    _, sliceBetween_prefix houts (by omega), rfl⟩

/-- **Only written bodies are scanned.** -/
lemma body_of_parse (hd : d.length < 2 ^ 63) {x : RawTransaction} (h : parse d = .ok x) :
    10 ≤ d.length ∧ ∃ b : WrittenBody, b.bytes <+: d.drop (bodyStart d) ∧ x = rawOf b := by
  have h' := h
  simp only [parse, bind_eq_ok, exists_unit, require_eq_ok, addUsize_eq_ok, varintAt_eq_ok, Prod.exists] at h'
  obtain ⟨h10, n, size, ⟨-, hn⟩, hne, _, ⟨-, rfl⟩, e, hins, m, size', ⟨he, hm⟩, _, ⟨-, rfl⟩, last, houts, -⟩ := h'
  have hstart := bodyStart_eq (d := d) (by omega)
  have hlow := bodyStart_le (d := d) (by omega)
  rw [hstart] at hn hins
  rw [skipInputs hd checkedVarintAt_eq (readVarint_end hlow hn), orElse_eq_ok, Option.map_eq_some_iff] at hins
  rw [skipOutputs hd checkedVarintAt_eq (readVarint_end he hm), orElse_eq_ok, Option.map_eq_some_iff] at houts
  obtain ⟨⟨ins, _⟩, hins, rfl⟩ := hins
  obtain ⟨⟨outs, e'⟩, houts, rfl⟩ := houts
  have hbody : readBody d (bodyStart d) = some (⟨ins, outs⟩, e') := by
    simp only [readBody, Option.bind_eq_bind, Option.bind_eq_some_iff, Option.guard_eq_some', exists_const,
      Option.pure_def, Option.some_inj, Prod.exists, Prod.mk.injEq]
    exact ⟨n, size, hn, hne, ins, _, hins, m, size', hm, outs, _, houts, rfl, rfl⟩
  obtain ⟨b, -, hb, -⟩ := readBody_iff.mp hbody
  exact ⟨h10, b, hb, Except.ok.inj (h.symm.trans (parse_of_body hd h10 hb))⟩

/-- Where the outputs of a written body end. -/
lemma segwitBodyEnd_of_body (hd : d.length < 2 ^ 63) (h10 : 10 ≤ d.length) (hseg : isSegwit d = true)
    {b : WrittenBody} (h : b.bytes <+: d.drop 6) : segwitBodyEnd d = .ok (6 + b.bytes.length) := by
  have hend := h.length_le
  rw [List.length_drop] at hend
  have hlen : b.bytes.length = (b.inputForm.encode b.inputs.length).length +
      (b.inputs.flatMap WrittenInput.bytes).length + (b.outputForm.encode b.outputs.length).length +
      (b.outputs.flatMap WrittenOutput.bytes).length := by
    simp only [WrittenBody.bytes, List.length_append]
    omega
  rw [WrittenBody.bytes, append_prefix_drop, append_prefix_drop, append_prefix_drop] at h
  obtain ⟨hform, hins, hform', houts⟩ := h
  have hn := readVarint_encode b.inputsFit hform
  have hm := readVarint_encode b.outputsFit hform'
  have hskip := skipInputs_written hd gotVarintAt_eq (by omega) hins
  have hskip' := skipOutputs_written hd gotVarintAt_eq (by omega) houts
  simp only [segwitBodyEnd, bind_eq_ok, exists_unit, require_eq_ok, addUsize_eq_ok, gotVarintAt_eq,
    orElse_eq_ok, Prod.exists]
  refine ⟨h10, hseg, _, _, hn, fun hz => b.nonempty (List.length_eq_zero_iff.mp hz), _, ⟨by omega, rfl⟩,
    _, hskip, _, _, hm, _, ⟨by omega, rfl⟩, hskip'.trans ?_⟩
  rw [hlen]
  congr 1
  omega

/-- Neither scanner panics. -/
lemma parse_ne_panic (hd : d.length < 2 ^ 63) : parse d ≠ .error .panic := by
  intro h
  obtain ⟨_, h10, h⟩ := error_bind h (require_ne_error (by simp))
  rw [require_eq_ok] at h10
  have hlow : (if 6 < d.length ∧ isSegwit d = true then 6 else 4) ≤ d.length := by split_ifs <;> omega
  obtain ⟨⟨n, size⟩, hn, h⟩ := error_bind h fun hp => by
    rw [varintAt_eq_panic] at hp
    omega
  have hn' := readVarint_end hlow (varintAt_eq_ok.mp hn).2
  obtain ⟨_, -, h⟩ := error_bind h (require_ne_error (by simp))
  obtain ⟨_, hstart, h⟩ := error_bind h fun hp => by
    rw [addUsize_eq_panic] at hp
    omega
  obtain ⟨-, rfl⟩ := addUsize_eq_ok.mp hstart
  have hskip := skipInputs hd (checkedVarintAt_eq (d := d)) hn' n
  obtain ⟨e, he, h⟩ := error_bind h fun hp => by
    rw [hskip, orElse_eq_panic] at hp
    exact hp
  obtain ⟨hle, he'⟩ := skipMany_end (fun h => readMany_end readInput_iff h) hn' hskip he
  obtain ⟨⟨m, size'⟩, hm, h⟩ := error_bind h fun hp => by
    rw [varintAt_eq_panic] at hp
    omega
  have hm' := readVarint_end he' (varintAt_eq_ok.mp hm).2
  obtain ⟨_, hstart', h⟩ := error_bind h fun hp => by
    rw [addUsize_eq_panic] at hp
    omega
  obtain ⟨-, rfl⟩ := addUsize_eq_ok.mp hstart'
  have hskip' := skipOutputs hd (checkedVarintAt_eq (d := d)) hm' m
  obtain ⟨e', hlast, h⟩ := error_bind h fun hp => by
    rw [hskip', orElse_eq_panic] at hp
    exact hp
  obtain ⟨hle', hlast'⟩ := skipMany_end (fun h => readMany_end readOutput_iff h) hm' hskip' hlast
  rw [sliceBetween_of_le hle he', sliceBetween_of_le hle' hlast'] at h
  exact absurd h (by simp [bind, Except.bind, pure, Except.pure])

lemma segwitBodyEnd_ne_panic (hd : d.length < 2 ^ 63) : segwitBodyEnd d ≠ .error .panic := by
  intro h
  obtain ⟨_, h10, h⟩ := error_bind h (require_ne_error (by simp))
  rw [require_eq_ok] at h10
  obtain ⟨_, -, h⟩ := error_bind h (require_ne_error (by simp))
  obtain ⟨⟨n, size⟩, hn, h⟩ := error_bind h fun hp => by
    rw [gotVarintAt_eq, orElse_eq_panic] at hp
    exact hp
  rw [gotVarintAt_eq, orElse_eq_ok] at hn
  have hn' := readVarint_end (by omega) hn
  obtain ⟨_, -, h⟩ := error_bind h (require_ne_error (by simp))
  obtain ⟨_, hstart, h⟩ := error_bind h fun hp => by
    rw [addUsize_eq_panic] at hp
    omega
  obtain ⟨-, rfl⟩ := addUsize_eq_ok.mp hstart
  have hskip := skipInputs hd (gotVarintAt_eq (d := d)) hn' n
  obtain ⟨e, he, h⟩ := error_bind h fun hp => by
    rw [hskip, orElse_eq_panic] at hp
    exact hp
  obtain ⟨-, he'⟩ := skipMany_end (fun h => readMany_end readInput_iff h) hn' hskip he
  obtain ⟨⟨m, size'⟩, hm, h⟩ := error_bind h fun hp => by
    rw [gotVarintAt_eq, orElse_eq_panic] at hp
    exact hp
  rw [gotVarintAt_eq, orElse_eq_ok] at hm
  have hm' := readVarint_end he' hm
  obtain ⟨_, hstart', h⟩ := error_bind h fun hp => by
    rw [addUsize_eq_panic] at hp
    omega
  obtain ⟨-, rfl⟩ := addUsize_eq_ok.mp hstart'
  rw [skipOutputs hd gotVarintAt_eq hm', orElse_eq_panic] at h
  exact h

/-- The second scanner finds the end of a written body, of the witness format. -/
lemma body_of_segwitBodyEnd (hd : d.length < 2 ^ 63) {e : ℕ} (h : segwitBodyEnd d = .ok e) :
    10 ≤ d.length ∧ isSegwit d = true ∧
      ∃ b : WrittenBody, b.bytes <+: d.drop 6 ∧ e = 6 + b.bytes.length := by
  have h' := h
  simp only [segwitBodyEnd, bind_eq_ok, exists_unit, require_eq_ok, addUsize_eq_ok, gotVarintAt_eq,
    orElse_eq_ok, Prod.exists] at h'
  obtain ⟨h10, hseg, n, size, hn, hne, _, ⟨-, rfl⟩, e₁, hins, m, size', hm, _, ⟨-, rfl⟩, houts⟩ := h'
  have hn' := readVarint_end (by omega) hn
  have hskip := skipInputs hd (gotVarintAt_eq (d := d)) hn' n
  obtain ⟨-, he₁⟩ := skipMany_end (fun h => readMany_end readInput_iff h) hn' hskip hins
  rw [hskip, orElse_eq_ok, Option.map_eq_some_iff] at hins
  rw [skipOutputs hd gotVarintAt_eq (readVarint_end he₁ hm), orElse_eq_ok, Option.map_eq_some_iff] at houts
  obtain ⟨⟨ins, _⟩, hins, rfl⟩ := hins
  obtain ⟨⟨outs, e'⟩, houts, rfl⟩ := houts
  have hbody : readBody d 6 = some (⟨ins, outs⟩, e') := by
    simp only [readBody, Option.bind_eq_bind, Option.bind_eq_some_iff, Option.guard_eq_some', exists_const,
      Option.pure_def, Option.some_inj, Prod.exists, Prod.mk.injEq]
    exact ⟨n, size, hn, hne, ins, _, hins, m, size', hm, outs, _, houts, rfl, rfl⟩
  obtain ⟨b, -, hb, he⟩ := readBody_iff.mp hbody
  exact ⟨h10, hseg, b, hb, he.symm⟩

end Scanners

/-! ### What is hashed -/

section Hashed

variable {d : List UInt8}

lemma segwitBodyEnd_of_legacy (h : isSegwit d = false) : segwitBodyEnd d = .error .refused := by
  unfold segwitBodyEnd
  by_cases h10 : 10 ≤ d.length
  · simp [require, h10, h, bind, Except.bind]
  · simp [require, h10, bind, Except.bind]

/-- The parts of the witness format that are hashed are a transaction without witness. -/
lemma hashedBytes_of_body (hd : d.length < 2 ^ 63) (h10 : 10 ≤ d.length) (hseg : isSegwit d = true)
    {b : WrittenBody} (h : b.bytes <+: d.drop 6) (hlock : 6 + b.bytes.length + 4 ≤ d.length) :
    ∃ t : WrittenTransaction, t.body = b ∧ t.version.toList = d.take 4 ∧
      t.locktime.toList = d.drop (d.length - 4) ∧ hashedBytes d = .ok t.stripped := by
  have hversion : (ofList 4 (d.take 4)).toList = d.take 4 := toList_ofList (by simp; omega)
  have hlocktime : (ofList 4 (d.drop (d.length - 4))).toList = d.drop (d.length - 4) :=
    toList_ofList (by simp; omega)
  refine ⟨⟨ofList 4 (d.take 4), b, ofList 4 (d.drop (d.length - 4))⟩, rfl, hversion, hlocktime, ?_⟩
  unfold hashedBytes
  rw [segwitBodyEnd_of_body hd h10 hseg h]
  dsimp only
  rw [addUsize_of_lt (by omega), sliceBetween_of_le (by omega) (by omega),
    sliceBetween_prefix h (by omega)]
  simp only [bind, Except.bind, sliceFrom, require, pure, Except.pure, if_pos hlock,
    if_pos (Nat.sub_le d.length 4), List.drop_zero, WrittenTransaction.stripped, hversion, hlocktime,
    List.append_assoc]

/-- A transaction without witness is scanned. -/
lemma parse_stripped (t : WrittenTransaction) (hlen : t.stripped.length < 2 ^ 63) :
    parse t.stripped = .ok (rawOf t.body) := by
  have hstart : bodyStart t.stripped = 4 := by
    rw [bodyStart, t.isSegwit_stripped]
    rfl
  refine parse_of_body hlen ?_ (hstart.symm ▸ t.body_stripped)
  rw [t.length_stripped]
  have := t.body.length_bytes_ge
  omega

lemma parse_segwit (t : WrittenTransaction) {witness : List UInt8}
    (hlen : (t.segwit witness).length < 2 ^ 63) : parse (t.segwit witness) = .ok (rawOf t.body) := by
  have hstart : bodyStart (t.segwit witness) = 6 := if_pos (t.isSegwit_segwit witness)
  refine parse_of_body hlen ?_ (hstart.symm ▸ t.body_segwit witness)
  rw [t.length_segwit]
  have := t.body.length_bytes_ge
  omega

/-- What is hashed is the bytes, or a transaction without witness that has the same body. -/
lemma hashedBytes_cases (hd : d.length < 2 ^ 63) : hashedBytes d = .ok d ∨
    (10 ≤ d.length ∧ isSegwit d = true ∧ ∃ t : WrittenTransaction, t.body.bytes <+: d.drop 6 ∧
      t.stripped.length ≤ d.length ∧ hashedBytes d = .ok t.stripped) := by
  cases hend : segwitBodyEnd d with
  | error e =>
    cases e with
    | refused => exact .inl (by rw [hashedBytes, hend])
    | panic => exact absurd hend (segwitBodyEnd_ne_panic hd)
  | ok e =>
    obtain ⟨h10, hseg, b, hb, rfl⟩ := body_of_segwitBodyEnd hd hend
    by_cases hlock : 6 + b.bytes.length + 4 ≤ d.length
    · obtain ⟨t, rfl, -, -, hstripped⟩ := hashedBytes_of_body hd h10 hseg hb hlock
      refine .inr ⟨h10, hseg, t, hb, ?_, hstripped⟩
      rw [t.length_stripped]
      omega
    · have hle := hb.length_le
      rw [List.length_drop] at hle
      refine .inl ?_
      unfold hashedBytes
      rw [hend]
      dsimp only
      rw [addUsize_of_lt (by omega)]
      simp only [bind, Except.bind, if_neg hlock, pure, Except.pure]

/-- **What is hashed is what is read**: the bytes that are hashed for the id are read as the same
transaction. -/
theorem parse_hashedBytes (hd : d.length < 2 ^ 63) {x : RawTransaction} {m : List UInt8}
    (h : parse d = .ok x) (hm : hashedBytes d = .ok m) : parse m = .ok x := by
  rcases hashedBytes_cases hd with hraw | ⟨h10, hseg, t, hb, hlen, hstripped⟩
  · exact Except.ok.inj (hraw.symm.trans hm) ▸ h
  · obtain rfl := Except.ok.inj (hstripped.symm.trans hm)
    have hstart : bodyStart d = 6 := if_pos hseg
    have hsame := parse_of_body hd h10 (hstart.symm ▸ hb)
    rw [Except.ok.inj (h.symm.trans hsame)]
    exact parse_stripped t (by omega)

lemma hashedBytes_stripped (t : WrittenTransaction) : hashedBytes t.stripped = .ok t.stripped := by
  rw [hashedBytes, segwitBodyEnd_of_legacy t.isSegwit_stripped]

lemma hashedBytes_segwit (t : WrittenTransaction) {witness : List UInt8}
    (hlen : (t.segwit witness).length < 2 ^ 63) :
    hashedBytes (t.segwit witness) = .ok t.stripped := by
  have hsize := t.length_segwit witness
  have hbody := t.body.length_bytes_ge
  obtain ⟨t', hb, hversion, hlocktime, hstripped⟩ := hashedBytes_of_body hlen (by omega)
    (t.isSegwit_segwit witness) (t.body_segwit witness) (by omega)
  have hfirst : (t.segwit witness).take 4 = t.version.toList := by
    rw [WrittenTransaction.segwit, List.take_left' (by simp)]
  have hlast : (t.segwit witness).drop ((t.segwit witness).length - 4) = t.locktime.toList := by
    have hsplit : t.segwit witness =
        (t.version.toList ++ ([0x00, 0x01] ++ (t.body.bytes ++ witness))) ++ t.locktime.toList := by
      simp only [WrittenTransaction.segwit, List.append_assoc]
    rw [hsize, hsplit]
    refine List.drop_left' ?_
    simp only [List.length_append, Vector.length_toList, List.length_cons, List.length_nil]
    omega
  rw [hstripped, WrittenTransaction.stripped, WrittenTransaction.stripped, hb, hversion, hlocktime, hfirst,
    hlast]

end Hashed

/-! ### The iterators on what is written -/

section Iterators

variable {it : TxIterator} {n : ℕ}

lemma bytes_between {d : List UInt8} {off n : ℕ} (h : off + n ≤ d.length) :
    (d.take (off + n)).drop off = (slice n d off).toList := by
  rw [toList_slice h, List.drop_take, Nat.add_sub_cancel_left]

/-- **An input that is written comes next.** -/
lemma nextInput_written (hd : it.data.length < 2 ^ 63) {f : WrittenInput}
    (h : f.bytes <+: it.data.drop it.offset) (hrem : it.remaining = n + 1) :
    nextInput it = .ok (f.input, ⟨it.data, it.offset + f.bytes.length, n⟩) := by
  have hread := readInput_iff.mpr ⟨f, rfl, h, rfl⟩
  simp only [readInput, Option.bind_eq_bind, Option.bind_eq_some_iff, Option.guard_eq_some', exists_const,
    Option.pure_def, Option.some_inj, Prod.exists, Prod.mk.injEq] at hread
  obtain ⟨h36, scriptLen, size, hvar, hnext, hinput, hoff⟩ := hread
  simp only [nextInput, bind_eq_ok, exists_unit, require_eq_ok, addUsize_eq_ok, checkedAddUsize_eq_ok,
    varintAt_eq_ok, pure_eq_ok, Prod.exists]
  refine ⟨by omega, _, ⟨by omega, rfl⟩, h36, _, ⟨by omega, rfl⟩, _,
    sliceBetween_of_le (by omega) (by omega), _, ⟨by omega, rfl⟩, _,
    sliceBetween_of_le (by omega) (by omega), scriptLen, size, ⟨by omega, hvar⟩, _, ⟨by omega, rfl⟩,
    _, ⟨by omega, rfl⟩, _, ⟨by omega, rfl⟩, hnext, ?_⟩
  have htxid : ofList 32 (slice 32 it.data it.offset).toList = slice 32 it.data it.offset :=
    Vector.toList_inj.mp (toList_ofList (by simp))
  rw [bytes_between (by omega), bytes_between (by omega), htxid, ← hinput, ← hoff, hrem]
  rfl

/-- **An output that is written comes next.** -/
lemma nextOutput_written (hd : it.data.length < 2 ^ 63) {f : WrittenOutput}
    (h : f.bytes <+: it.data.drop it.offset) (hrem : it.remaining = n + 1) :
    nextOutput it = .ok (f.output, ⟨it.data, it.offset + f.bytes.length, n⟩) := by
  have hread := readOutput_iff.mpr ⟨f, rfl, h, rfl⟩
  simp only [readOutput, Option.bind_eq_bind, Option.bind_eq_some_iff, Option.guard_eq_some', exists_const,
    Option.pure_def, Option.some_inj, Prod.exists, Prod.mk.injEq] at hread
  obtain ⟨h8, scriptLen, size, hvar, hnext, houtput, hoff⟩ := hread
  simp only [nextOutput, bind_eq_ok, exists_unit, require_eq_ok, addUsize_eq_ok, checkedAddUsize_eq_ok,
    varintAt_eq_ok, pure_eq_ok, Prod.exists]
  refine ⟨by omega, _, ⟨by omega, rfl⟩, h8, _, sliceBetween_of_le (by omega) (by omega),
    scriptLen, size, ⟨by omega, hvar⟩, _, ⟨by omega, rfl⟩, _, ⟨by omega, rfl⟩, hnext, _,
    sliceBetween_of_le (by omega) hnext, ?_⟩
  rw [bytes_between (by omega), ← houtput, ← hoff, hrem, List.drop_take, Nat.add_sub_cancel_left]
  rfl

/-- An iterator with nothing remaining is at its end. -/
lemma next_end (hrem : it.remaining = 0) :
    nextInput it = .error .refused ∧ nextOutput it = .error .refused := by
  constructor
  · rw [nextInput, require, if_neg (by simp [hrem])]
    rfl
  · rw [nextOutput, require, if_neg (by simp [hrem])]
    rfl

/-- **What is written is yielded**, item by item, and nothing after it. -/
lemma yields_written {α β : Type} {next : TxIterator → Except Stop (α × TxIterator)} {val : β → α}
    {bytes : β → List UInt8} {d : List UInt8}
    (hnext : ∀ {off n f}, bytes f <+: d.drop off →
      next ⟨d, off, n + 1⟩ = .ok (val f, ⟨d, off + (bytes f).length, n⟩))
    (hend : ∀ {off}, next ⟨d, off, 0⟩ = .error .refused) {fs : List β} {off : ℕ}
    (h : fs.flatMap bytes <+: d.drop off) : Yields next ⟨d, off, fs.length⟩ (fs.map val) := by
  induction fs generalizing off with
  | nil => exact .nil hend
  | cons f fs ih =>
    rw [List.flatMap_cons, append_prefix_drop] at h
    exact .cons (hnext h.1) (ih h.2)

/-- The iterators over a written body. -/
lemma yields_rawOf (b : WrittenBody) (hlen : b.bytes.length < 2 ^ 63) :
    Yields nextInput (rawOf b).inputs (b.inputs.map WrittenInput.input) ∧
      Yields nextOutput (rawOf b).outputs (b.outputs.map WrittenOutput.output) := by
  simp only [WrittenBody.bytes, List.length_append] at hlen
  have hins : (b.inputs.flatMap WrittenInput.bytes).length < 2 ^ 63 := by omega
  have houts : (b.outputs.flatMap WrittenOutput.bytes).length < 2 ^ 63 := by omega
  exact ⟨yields_written (fun h => nextInput_written hins h rfl) (next_end rfl).1 List.prefix_rfl,
    yields_written (fun h => nextOutput_written houts h rfl) (next_end rfl).2 List.prefix_rfl⟩

end Iterators

/-! ### The reader over lists -/

section Refinement

variable {d : List UInt8}

lemma parse_written_iff {tx : ParsedTransaction} : ParsedTransaction.parse d = some tx ↔
    10 ≤ d.length ∧ ∃ b : WrittenBody, b.transaction = tx ∧ b.bytes <+: d.drop (bodyStart d) := by
  have hbody : ParsedTransaction.parse d = some tx ↔
      10 ≤ d.length ∧ ∃ e, readBody d (bodyStart d) = some (tx, e) := by
    simp only [ParsedTransaction.parse, bodyStart, Option.bind_eq_bind, Option.bind_eq_some_iff,
      Option.guard_eq_some', exists_const, Option.pure_def, Option.some_inj, Prod.exists]
    constructor
    · rintro ⟨h10, _, e, h, rfl⟩
      exact ⟨h10, e, h⟩
    · rintro ⟨h10, e, h⟩
      exact ⟨h10, tx, e, h, rfl⟩
  rw [hbody]
  simp only [readBody_iff]
  constructor
  · rintro ⟨h10, e, b, hb, hprefix, -⟩
    exact ⟨h10, b, hb, hprefix⟩
  · rintro ⟨h10, b, hb, hprefix⟩
    exact ⟨h10, _, b, hb, hprefix, rfl⟩

/-- **The scanner refines the reader**: they accept the same bytes, and the iterators yield what is
read. -/
theorem parse_refines (hd : d.length < 2 ^ 63) (tx : ParsedTransaction) :
    ParsedTransaction.parse d = some tx ↔ ∃ x, parse d = .ok x ∧ Yields nextInput x.inputs tx.inputs ∧
      Yields nextOutput x.outputs tx.outputs := by
  have hshort : ∀ {b : WrittenBody}, b.bytes <+: d.drop (bodyStart d) → b.bytes.length < 2 ^ 63 := by
    intro b hb
    have hle := hb.length_le
    rw [List.length_drop] at hle
    omega
  rw [parse_written_iff]
  constructor
  · rintro ⟨h10, b, rfl, hb⟩
    exact ⟨_, parse_of_body hd h10 hb, yields_rawOf b (hshort hb)⟩
  · rintro ⟨x, hx, hins, houts⟩
    obtain ⟨h10, b, hb, rfl⟩ := body_of_parse hd hx
    obtain ⟨hins', houts'⟩ := yields_rawOf b (hshort hb)
    refine ⟨h10, b, ?_, hb⟩
    rw [WrittenBody.transaction, hins'.unique hins, houts'.unique houts]

lemma segwitBodyEnd_eq (hd : d.length < 2 ^ 63) :
    segwitBodyEnd d = orElse (Pool.segwitBodyEnd d) .refused := by
  refine eq_orElse (fun e => ?_) (segwitBodyEnd_ne_panic hd)
  simp only [Pool.segwitBodyEnd, Option.bind_eq_bind, Option.bind_eq_some_iff, Option.guard_eq_some',
    exists_const, Option.pure_def, Option.some_inj, Prod.exists, readBody_iff]
  constructor
  · intro h
    obtain ⟨h10, hseg, b, hb, rfl⟩ := body_of_segwitBodyEnd hd h
    exact ⟨⟨h10, hseg⟩, _, _, ⟨b, rfl, hb, rfl⟩, rfl⟩
  · rintro ⟨⟨h10, hseg⟩, _, _, ⟨b, -, hb, rfl⟩, rfl⟩
    exact segwitBodyEnd_of_body hd h10 hseg hb

/-- **The scanner's id** is the reader's. -/
theorem computeTxHash_refines (E : Env) (hd : d.length < 2 ^ 63) :
    computeTxHash E d = .ok (Pool.computeTxHash E d) := by
  have hseg := segwitBodyEnd_eq hd
  unfold computeTxHash hashedBytes Pool.computeTxHash
  rw [hseg]
  cases hend : Pool.segwitBodyEnd d with
  | none => rfl
  | some e =>
    rw [hend] at hseg
    obtain ⟨h10, -, b, hb, rfl⟩ := body_of_segwitBodyEnd hd hseg
    have hle := hb.length_le
    rw [List.length_drop] at hle
    dsimp only [orElse]
    rw [addUsize_of_lt (by omega)]
    dsimp only [bind, Except.bind]
    by_cases hlock : 6 + b.bytes.length + 4 ≤ d.length
    · rw [if_pos hlock, if_pos hlock, sliceBetween_of_le (by omega) (by omega),
        sliceBetween_of_le (by omega) (by omega)]
      simp [sliceFrom, require, bind, Except.bind, pure, Except.pure]
    · rw [if_neg hlock, if_neg hlock]
      rfl

end Refinement

/-! ### The two results -/

/-- **Decoding**: either format of a written transaction is parsed to its inputs and outputs, in order,
and hashed without its witness. Of any bytes that are parsed the iterators come to an end inside the
bytes, with as many items as are counted, and no scan of any bytes panics. -/
theorem written_decoded (E : Env) :
    (∀ (t : WrittenTransaction) (witness raw : List UInt8), raw = t.stripped ∨ raw = t.segwit witness →
      raw.length < 2 ^ 63 → ∃ x, parse raw = .ok x ∧
        x.inputCount = t.body.inputs.length ∧ x.outputCount = t.body.outputs.length ∧
        Yields nextInput x.inputs (t.body.inputs.map WrittenInput.input) ∧
        Yields nextOutput x.outputs (t.body.outputs.map WrittenOutput.output) ∧
        computeTxHash E raw = .ok (doubleSha256 E t.stripped)) ∧
    ∀ raw : List UInt8, raw.length < 2 ^ 63 → parse raw ≠ .error .panic ∧
      (∃ h, computeTxHash E raw = .ok h) ∧
      ∀ x, parse raw = .ok x → ∃ ins outs, Yields nextInput x.inputs ins ∧ ins.length = x.inputCount ∧
        Yields nextOutput x.outputs outs ∧ outs.length = x.outputCount := by
  refine ⟨fun t witness raw hraw hlen => ?_, fun raw hlen => ⟨parse_ne_panic hlen,
    ⟨_, computeTxHash_refines E hlen⟩, fun x hx => ?_⟩⟩
  · have hbody : t.body.bytes.length < 2 ^ 63 := by
      rcases hraw with rfl | rfl
      · rw [t.length_stripped] at hlen
        omega
      · rw [t.length_segwit] at hlen
        omega
    have hparse : parse raw = .ok (rawOf t.body) := by
      rcases hraw with rfl | rfl
      · exact parse_stripped t hlen
      · exact parse_segwit t hlen
    have hhashed : hashedBytes raw = .ok t.stripped := by
      rcases hraw with rfl | rfl
      · exact hashedBytes_stripped t
      · exact hashedBytes_segwit t hlen
    obtain ⟨hins, houts⟩ := yields_rawOf t.body hbody
    refine ⟨_, hparse, rfl, rfl, hins, houts, ?_⟩
    rw [computeTxHash, hhashed]
    rfl
  · obtain ⟨-, b, hb, rfl⟩ := body_of_parse hlen hx
    have hle := hb.length_le
    rw [List.length_drop] at hle
    obtain ⟨hins, houts⟩ := yields_rawOf b (by omega)
    exact ⟨_, _, hins, List.length_map .., houts, List.length_map ..⟩

/-- **One id, one transaction**: bytes that are parsed and have the id of a written transaction are parsed
to that transaction, unless what is hashed of them collides with it. -/
theorem parsed_of_hash {E : Env} {t : WrittenTransaction} {raw : List UInt8} {x : RawTransaction}
    (hlen : raw.length < 2 ^ 63) (hparse : parse raw = .ok x)
    (hhash : computeTxHash E raw = .ok (doubleSha256 E t.stripped))
    (hcol : ∀ m, hashedBytes raw = .ok m → doubleSha256 E m = doubleSha256 E t.stripped → m = t.stripped) :
    parse t.stripped = .ok x ∧ Yields nextInput x.inputs (t.body.inputs.map WrittenInput.input) ∧
      Yields nextOutput x.outputs (t.body.outputs.map WrittenOutput.output) := by
  simp only [computeTxHash, bind_eq_ok, pure_eq_ok] at hhash
  obtain ⟨m, hm, heq⟩ := hhash
  obtain rfl := hcol m hm heq
  have hsame := parse_hashedBytes hlen hparse hm
  have hshort : t.stripped.length < 2 ^ 63 := by
    rcases hashedBytes_cases hlen with hraw | ⟨-, -, t', -, hle, hstripped⟩
    · rwa [Except.ok.inj (hm.symm.trans hraw)]
    · rw [Except.ok.inj (hm.symm.trans hstripped)]
      omega
  have hbody : t.body.bytes.length < 2 ^ 63 := by
    rw [t.length_stripped] at hshort
    omega
  obtain rfl := Except.ok.inj (hsame.symm.trans (parse_stripped t hshort))
  exact ⟨hsame, yields_rawOf t.body hbody⟩

namespace Regtest

/-- A transaction of one input and one output, with its counts in different forms. -/
def coinTransfer : WrittenTransaction where
  version := toLe 4 2
  body :=
    { inputs := [⟨⟨toLe 32 7, 1⟩, [0x51], .three, zeros 4, by decide, by decide⟩]
      inputForm := .one
      outputs := [⟨⟨50000, [0x51, 0x52]⟩, .one, by decide, by decide⟩]
      outputForm := .five
      nonempty := by simp
      inputsFit := by decide
      outputsFit := by decide }
  locktime := zeros 4

end Regtest

open Regtest Pool.Regtest in
/-- A transaction with a witness of three bytes. -/
theorem written_decoded_coinTransfer : ∃ x, parse (coinTransfer.segwit [1, 1, 9]) = .ok x ∧
    computeTxHash env (coinTransfer.segwit [1, 1, 9]) = .ok (doubleSha256 env coinTransfer.stripped) := by
  obtain ⟨x, hx, -, -, -, -, hhash⟩ := (written_decoded env).1 coinTransfer [1, 1, 9] _ (.inr rfl) (by decide)
  exact ⟨x, hx, hhash⟩

open Regtest Pool.Regtest in
/-- The same transaction, by its id. -/
theorem parsed_of_hash_coinTransfer : ∃ x, parse coinTransfer.stripped = .ok x ∧
    Yields nextOutput x.outputs [⟨50000, [0x51, 0x52]⟩] := by
  have hlen : (coinTransfer.segwit [1, 1, 9]).length < 2 ^ 63 := by decide
  have hhashed := hashedBytes_segwit coinTransfer hlen
  obtain ⟨hx, -, houts⟩ := parsed_of_hash (E := env) hlen (parse_segwit coinTransfer hlen)
    (by rw [computeTxHash, hhashed]; rfl) fun m hm _ => (Except.ok.inj (hhashed.symm.trans hm)).symm
  exact ⟨_, hx, houts⟩

end Utxopia.Pool.Scanner
