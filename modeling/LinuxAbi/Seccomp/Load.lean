import LinuxAbi.Lib.Outcome
import LinuxAbi.Seccomp.Filters
import Mathlib.Data.List.OfFn
import Mathlib.Tactic.FinCases

/-!
# Loads of syscall data

`crates/seccomp/src/bpf.rs`: the byte image of `SeccompData`, the loader of the BPF executor,
and what `verify_seccomp_profile` asks of a program.

Mirroring notes:
- Byte order is the target's, a parameter here; the source compiles one of two bodies.
- Opcodes are numbered by the external `axcbpf`, so the numbering is a parameter too, and so
  is `BPF_MAXINSNS`, which it defines.
-/

namespace LinuxAbi.Seccomp

open List

inductive Endian
  | little
  | big
deriving DecidableEq

/-- `LoadWidth` of `axcbpf`. -/
inductive LoadWidth
  | byte
  | half
  | word
deriving DecidableEq

/-- `SECCOMP_DATA_SIZE`. -/
def seccompDataSize : Nat := 64

section Image

variable (endian : Endian)

/-- `to_ne_bytes` of an integer of `n` bytes. -/
def toNeBytes (n : Nat) (value : BitVec (8 * n)) : List (BitVec 8) :=
  let bytes := ofFn fun i : Fin n => value.extractLsb' (8 * i) 8
  match endian with
  | .little => bytes
  | .big => bytes.reverse

/-- The 32-bit word of four bytes. -/
def fromNeBytes : List (BitVec 8) → Option (BitVec 32)
  | [a, b, c, d] =>
    match endian with
    | .little => some (d ++ c ++ b ++ a)
    | .big => some (a ++ b ++ c ++ d)
  | _ => none

def nativeU64Word (value : BitVec 64) (byteOffset : Nat) : BitVec 32 :=
  match endian with
  | .little => if byteOffset = 0 then value.setWidth 32 else (value >>> 32).setWidth 32
  | .big => if byteOffset = 0 then (value >>> 32).setWidth 32 else value.setWidth 32

namespace SeccompData

variable (data : SeccompData)

def nativeBytes : List (BitVec 8) :=
  toNeBytes endian 4 data.number ++ toNeBytes endian 4 data.architecture
    ++ toNeBytes endian 8 data.instructionPointer
    ++ (ofFn data.arguments).flatMap (toNeBytes endian 8)

def loadWord (offset : Nat) : Option (BitVec 32) :=
  if offset &&& 3 ≠ 0 ∨ seccompDataSize ≤ offset then none
  else if offset = 0 then some data.number
  else if offset = 4 then some data.architecture
  else if offset = 8 ∨ offset = 12 then
    some (nativeU64Word endian data.instructionPointer (offset - 8))
  else if h : 16 ≤ offset ∧ offset ≤ 60 then
    let relative := offset - 16
    some (nativeU64Word endian (data.arguments ⟨relative / 8, by omega⟩) (relative &&& 7))
  else none

/-- `Input::load`. -/
def load (offset : BitVec 32) (width : LoadWidth) : Option (BitVec 32) :=
  if width ≠ .word then none else data.loadWord endian offset.toNat

end SeccompData

/-! ## The image as words -/

theorem toNeBytes_length (n : Nat) (value : BitVec (8 * n)) :
    (toNeBytes endian n value).length = n := by
  cases endian <;> simp [toNeBytes]

theorem fromNeBytes_toNeBytes (value : BitVec 32) :
    fromNeBytes endian (toNeBytes endian 4 value) = some value := by
  have hjoin : value.extractLsb' 24 8 ++ value.extractLsb' 16 8 ++ value.extractLsb' 8 8
      ++ value.extractLsb' 0 8 = value := by
    ext i hi
    simp only [BitVec.getElem_append, BitVec.getElem_extractLsb']
    grind
  cases endian
  · exact congrArg some hjoin
  · exact congrArg some hjoin

/-- A 64-bit field is its two words, the one at the lower address first. -/
theorem toNeBytes_words (value : BitVec 64) :
    toNeBytes endian 8 value = toNeBytes endian 4 (nativeU64Word endian value 0)
      ++ toNeBytes endian 4 (nativeU64Word endian value 4) := by
  have hhigh : ∀ i, (value >>> 32).extractLsb' i 8 = value.extractLsb' (32 + i) 8 := by
    intro i
    ext j hj
    simp [Nat.add_assoc]
  cases endian <;>
    simp [toNeBytes, nativeU64Word, ofFn_succ, BitVec.extractLsb'_setWidth_of_le, hhigh]

/-- A part of the image that begins at a word. -/
theorem take_drop_flatMap {α β : Type} {f : α → List β} (hf : ∀ a, (f a).length = n)
    (l : List α) (i : Nat) : ((l.flatMap f).drop (n * i)).take n = (l[i]?.map f).getD [] := by
  induction l generalizing i with
  | nil => simp
  | cons a l ih =>
    rw [flatMap_cons]
    cases i with
    | zero => simp [hf]
    | succ i =>
      rw [drop_append, hf, drop_of_length_le (by rw [hf]; grind), Nat.mul_succ]
      simpa using ih i

namespace SeccompData

variable (data : SeccompData)

/-- The sixteen words of the image. -/
def words : List (BitVec 32) :=
  data.number :: data.architecture :: (data.instructionPointer :: ofFn data.arguments).flatMap
    fun field => [nativeU64Word endian field 0, nativeU64Word endian field 4]

theorem nativeBytes_eq :
    data.nativeBytes endian = (data.words endian).flatMap (toNeBytes endian 4) := by
  unfold nativeBytes words
  rw [funext (toNeBytes_words endian)]
  simp

theorem loadWord_eq (halign : offset % 4 = 0) (hrange : offset < 64) :
    data.loadWord endian offset = (data.words endian)[offset / 4]? := by
  obtain ⟨i, rfl⟩ : ∃ i : Fin 16, offset = 4 * i := ⟨⟨offset / 4, by omega⟩, by dsimp only; omega⟩
  fin_cases i <;> rfl

/-- An aligned word of the image is what the loader returns. -/
theorem load_word (halign : offset.toNat % 4 = 0) (hrange : offset.toNat < 64) :
    ∃ word, fromNeBytes endian (((data.nativeBytes endian).drop offset.toNat).take 4) = some word ∧
      data.load endian offset .word = some word := by
  have hword : offset.toNat / 4 < (data.words endian).length := by
    simp [words]
    omega
  have hbytes := take_drop_flatMap (toNeBytes_length endian 4) (data.words endian)
    (offset.toNat / 4)
  rw [← nativeBytes_eq, Nat.mul_div_cancel' (Nat.dvd_of_mod_eq_zero halign),
    getElem?_eq_getElem hword] at hbytes
  refine ⟨_, (congrArg _ hbytes).trans (fromNeBytes_toNeBytes endian _), ?_⟩
  exact (data.loadWord_eq endian halign hrange).trans (getElem?_eq_getElem hword)

theorem load_refused (h : ¬ (width = .word ∧ offset.toNat % 4 = 0 ∧ offset.toNat < 64)) :
    data.load endian offset width = none := by
  unfold load
  split
  · rfl
  next hwidth =>
  unfold loadWord
  rw [if_pos]
  rw [Nat.and_two_pow_sub_one_eq_mod _ 2]
  by_contra hgood
  obtain ⟨halign, hrange⟩ := not_or.mp hgood
  exact h ⟨not_not.mp hwidth, not_not.mp halign, Nat.lt_of_not_le hrange⟩

end SeccompData

end Image

/-! ## Verified programs -/

/-- The opcodes of `allowed_seccomp_opcode`, in its order. -/
inductive Opcode
  | ldWAbs | ldLen | ldxLen | retK | retA
  | aluAddK | aluAddX | aluSubK | aluSubX | aluMulK | aluMulX | aluDivK | aluDivX
  | aluAndK | aluAndX | aluOrK | aluOrX | aluXorK | aluXorX
  | aluLshK | aluLshX | aluRshK | aluRshX | aluNeg
  | ldImm | ldxImm | miscTax | miscTxa | ldMem | ldxMem | st | stx
  | jmpJa | jmpJeqK | jmpJeqX | jmpJgeK | jmpJgeX | jmpJgtK | jmpJgtX | jmpJsetK | jmpJsetX
deriving DecidableEq

structure ClassicBpfInstruction where
  code : BitVec 16
  jt : BitVec 8
  jf : BitVec 8
  k : BitVec 32

inductive ProgramError
  | empty
  | tooLong
  | invalidOpcode (programCounter : Nat) (code : BitVec 16)
  | dataOffsetUnaligned (programCounter : Nat)
  | dataOffsetOutOfRange (programCounter : Nat)
deriving DecidableEq

section Verify

variable (opcode : Opcode → BitVec 16) (bpfMaxinsns : Nat)

def allowedSeccompOpcode (code : BitVec 16) : Bool :=
  (range 41).any fun i => opcode (.ofNat i) == code

/-- The body of the verifier's loop. -/
def verifyInstruction (instruction : ClassicBpfInstruction) (programCounter : Nat) :
    Except ProgramError Unit :=
  if ¬ allowedSeccompOpcode opcode instruction.code then
    .error (.invalidOpcode programCounter instruction.code)
  else if instruction.code = opcode .ldWAbs then
    if instruction.k &&& 3 ≠ 0 then .error (.dataOffsetUnaligned programCounter)
    else if seccompDataSize ≤ instruction.k.toNat then .error (.dataOffsetOutOfRange programCounter)
    else .ok ()
  else .ok ()

def verifySeccompProfile (instructions : List ClassicBpfInstruction) : Except ProgramError Unit :=
  if instructions.isEmpty then .error .empty
  else if bpfMaxinsns < instructions.length then .error .tooLong
  else instructions.zipIdx.forM fun (instruction, programCounter) =>
    verifyInstruction opcode instruction programCounter

variable {opcode bpfMaxinsns}

theorem verifyInstruction_ldWAbs (h : verifyInstruction opcode instruction programCounter = .ok ())
    (hcode : instruction.code = opcode .ldWAbs) :
    instruction.k.toNat % 4 = 0 ∧ instruction.k.toNat < 64 := by
  unfold verifyInstruction at h
  split at h
  · cases h
  split at h
  · cases h
  next halign =>
  split at h
  · cases h
  next hrange =>
  refine ⟨?_, Nat.lt_of_not_le hrange⟩
  have hmask := congrArg BitVec.toNat (not_not.mp halign)
  exact (Nat.and_two_pow_sub_one_eq_mod _ 2).symm.trans hmask

theorem verifySeccompProfile_loads (h : verifySeccompProfile opcode bpfMaxinsns instructions = .ok ()) :
    ∀ instruction ∈ instructions, instruction.code = opcode .ldWAbs →
      instruction.k.toNat % 4 = 0 ∧ instruction.k.toNat < 64 := by
  unfold verifySeccompProfile at h
  split at h
  · cases h
  split at h
  · cases h
  intro instruction hmem hcode
  obtain ⟨i, hi⟩ := getElem?_of_mem hmem
  exact verifyInstruction_ldWAbs
    (Lib.forM_eq_ok.mp h (instruction, i) (mk_mem_zipIdx_iff_getElem?.mpr hi)) hcode

end Verify

/-- The executor's loader reads the byte image, and the loads of a verified program succeed. -/
theorem SeccompData.load_image (endian : Endian) (data : SeccompData) :
    (∀ offset width,
      (width = .word ∧ offset.toNat % 4 = 0 ∧ offset.toNat < (data.nativeBytes endian).length →
        ∃ word, fromNeBytes endian (((data.nativeBytes endian).drop offset.toNat).take 4)
            = some word ∧ data.load endian offset width = some word) ∧
      (¬ (width = .word ∧ offset.toNat % 4 = 0 ∧ offset.toNat < (data.nativeBytes endian).length) →
        data.load endian offset width = none)) ∧
      ∀ opcode bpfMaxinsns instructions, verifySeccompProfile opcode bpfMaxinsns instructions = .ok () →
        ∀ instruction ∈ instructions, instruction.code = opcode .ldWAbs →
          (data.load endian instruction.k .word).isSome := by
  have hlen : (data.nativeBytes endian).length = 64 := by
    simp [nativeBytes, toNeBytes_length]
  rw [hlen]
  refine ⟨fun offset width => ⟨?_, data.load_refused endian⟩, ?_⟩
  · rintro ⟨rfl, haligned, hrange⟩
    exact data.load_word endian haligned hrange
  · intro opcode bpfMaxinsns instructions hok instruction hmem hcode
    obtain ⟨haligned, hrange⟩ := verifySeccompProfile_loads hok instruction hmem hcode
    obtain ⟨word, -, hword⟩ := data.load_word endian haligned hrange
    rw [hword]
    rfl

end LinuxAbi.Seccomp
