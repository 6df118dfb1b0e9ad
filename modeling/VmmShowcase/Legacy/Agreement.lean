import VmmShowcase.Legacy.SharedLines

/-! # The two interpreters on one line

Both interpreters do the same with one instruction, so they agree on a line where the instruction that
`ParseProgram` reads does what the written one does, whatever the registers hold. -/

namespace VmmShowcase

open Text

namespace CpuState

/-- A register of the file names itself. -/
@[simp] theorem registerIndex_fin (i : Fin 32) : registerIndex ((i : Nat) : Int) = some i := by
  have hi := i.isLt
  rw [registerIndex, dif_pos ⟨by omega, by omega⟩]
  simp

/-- A register of the file can be read. -/
@[simp] theorem reg_fin (cpu : CpuState) (i : Fin 32) : cpu.reg (i : Nat) = some (cpu.regs i) := by
  rw [reg, registerIndex_fin, Option.map_some]

/-- A register of the file can be written. -/
@[simp] theorem setReg_fin (cpu : CpuState) (i : Fin 32) (value : Word) :
    cpu.setReg (i : Nat) value = some { cpu with regs := Function.update cpu.regs i value } := by
  rw [setReg, registerIndex_fin, Option.map_some]

end CpuState

namespace VmClass

/-- A legacy machine with the registers of `cpu`. -/
def ofCpu (cpu : CpuState) : VmClass := { registers := cpu.regs, hi := cpu.hi, low := cpu.lo }

/-- An instruction on registers of the file. -/
theorem registerOp_fin (f : Word → Word → Word) (rd rs rt : Fin 32) (obj : VmClass) :
    registerOp f (rd : Nat) (rs : Nat) (rt : Nat) obj = some { obj with
      registers := Function.update obj.registers rd (f (obj.registers rs) (obj.registers rt)) } := by
  simp [registerOp, reg, setReg]

/-- An instruction on registers of the file and an immediate. -/
theorem immediateOp_fin (f : Word → Word → Word) (rt rs : Fin 32) (imm : Word) (obj : VmClass) :
    immediateOp f (rt : Nat) (rs : Nat) imm.toInt obj = some { obj with
      registers := Function.update obj.registers rt (f (obj.registers rs) imm) } := by
  simp [immediateOp, reg, setReg]

/-- Masking an `int` with 32 ones does nothing. -/
theorem and_ones (w : Word) : w &&& 0xffffffff = w := BitVec.and_allOnes

/-- `mul` on registers of the file. -/
theorem mul_fin (rd rs rt : Fin 32) (obj : VmClass) :
    mul (rd : Nat) (rs : Nat) (rt : Nat) obj = some { obj with
      registers := Function.update obj.registers rd (obj.registers rs * obj.registers rt) } := by
  rw [mul, registerOp_fin, and_ones]

/-- `divi` on registers of the file. -/
theorem divi_fin {rs rt : Fin 32} {obj : VmClass} (h : obj.registers rt ≠ 0) :
    obj.divi (rs : Nat) (rt : Nat) = some { obj with
      low := (obj.registers rs).sdiv (obj.registers rt)
      hi := (obj.registers rs).srem (obj.registers rt) } := by
  have hdivisor : ¬ obj.registers rt = 0#32 := h
  simp [divi, reg, hdivisor]

end VmClass

/-- An integer is in the range of `int32_t`. -/
def Fits (z : Int) : Prop := -2 ^ 31 ≤ z ∧ z < 2 ^ 31

instance (z : Int) : Decidable (Fits z) := inferInstanceAs (Decidable (_ ∧ _))

/-- From the registers, `hi` and `low` of `vm`, both interpreters get to the same ones on a line. -/
def AgreeOn (line : List Byte) (vm : VirtualMachine) : Prop :=
  ∃ inst after, parseProgram [line] = some [inst] ∧ vm.executeOne inst = some after ∧
    solve line (.ofCpu vm.cpu) = some (.ofCpu after.2.cpu)

namespace SharedInstruction

/-- The divisor of an instruction, if it has one, is not zero. -/
def Divides (regs : RegisterFile) : SharedInstruction → Prop
  | div _ rt => regs rt ≠ 0
  | _ => True

/-- The arithmetic of an instruction does not overflow, and its divisor is not zero. -/
def Defined (regs : RegisterFile) : SharedInstruction → Prop
  | li _ _ => True
  | add _ rs rt => Fits ((regs rs).toInt + (regs rt).toInt)
  | addi _ rs imm => Fits ((regs rs).toInt + imm.toInt)
  | sub _ rs rt => Fits ((regs rs).toInt - (regs rt).toInt)
  | mul _ rs rt => Fits ((regs rs).toInt * (regs rt).toInt)
  | div rs rt => regs rt ≠ 0 ∧ Fits ((regs rs).toInt.tdiv (regs rt).toInt)

/-- What an instruction does to the processor, but for the program counter. -/
def next (cpu : CpuState) : SharedInstruction → CpuState
  | li rd imm => { cpu with regs := Function.update cpu.regs rd imm }
  | add rd rs rt => { cpu with regs := Function.update cpu.regs rd (cpu.regs rs + cpu.regs rt) }
  | addi rd rs imm => { cpu with regs := Function.update cpu.regs rd (cpu.regs rs + imm) }
  | sub rd rs rt => { cpu with regs := Function.update cpu.regs rd (cpu.regs rs - cpu.regs rt) }
  | mul rd rs rt => { cpu with regs := Function.update cpu.regs rd (cpu.regs rs * cpu.regs rt) }
  | div rs rt =>
      { cpu with lo := (cpu.regs rs).sdiv (cpu.regs rt), hi := (cpu.regs rs).srem (cpu.regs rt) }

/-- Where the arithmetic is defined, nothing is divided by zero. -/
theorem Defined.divides {inst : SharedInstruction} {regs : RegisterFile} (h : inst.Defined regs) :
    inst.Divides regs := by
  cases inst with
  | div rs rt => exact h.1
  | _ => trivial

/-- The newer interpreter retires the instruction. -/
theorem executeOne_decoded {inst : SharedInstruction} {vm : VirtualMachine}
    (h : inst.Divides vm.cpu.regs) :
    vm.executeOne inst.decoded = some (vm.retire (inst.next vm.cpu)) := by
  cases inst with
  | div rs rt =>
      have hdivisor : vm.cpu.regs rt ≠ 0 := h
      simp only [decoded, VirtualMachine.executeOne, CpuState.reg_fin, Option.bind_eq_bind,
        Option.bind_some, if_neg hdivisor]
      rfl
  | _ =>
      simp only [decoded, VirtualMachine.executeOne, CpuState.setReg_fin, CpuState.reg_fin]
      rfl

/-- The legacy interpreter does the same to its registers. -/
theorem run_ofCpu {inst : SharedInstruction} {cpu : CpuState} (h : inst.Divides cpu.regs) :
    inst.run (.ofCpu cpu) = some (.ofCpu (inst.next cpu)) := by
  cases inst with
  | li rd imm =>
      simp only [run, VmClass.li, VmClass.setReg, CpuState.registerIndex_fin, Option.map_some,
        BitVec.ofInt_toInt]
      rfl
  | add rd rs rt => exact VmClass.registerOp_fin ..
  | addi rd rs imm => exact VmClass.immediateOp_fin ..
  | sub rd rs rt => exact VmClass.registerOp_fin ..
  | mul rd rs rt => exact VmClass.mul_fin ..
  | div rs rt => exact VmClass.divi_fin h

/-- The interpreters agree where the instruction that is read does what the written one does. -/
theorem agreeOn_line_iff {inst : SharedInstruction} {k₁ k₂ : Nat} {vm : VirtualMachine}
    (hread : (inst.read k₁ k₂).Divides vm.cpu.regs) (hwritten : inst.Divides vm.cpu.regs) (k₀ : Nat) :
    AgreeOn (inst.line k₀ k₁ k₂) vm ↔
      VmClass.ofCpu ((inst.read k₁ k₂).next vm.cpu) = VmClass.ofCpu (inst.next vm.cpu) := by
  have hparse : parseProgram [inst.line k₀ k₁ k₂] = some [(inst.read k₁ k₂).decoded] := by
    rw [parseProgram, parseLine_line]
    rfl
  have hsolve : solve (inst.line k₀ k₁ k₂) (.ofCpu vm.cpu) = some (.ofCpu (inst.next vm.cpu)) := by
    rw [solve_line, run_ofCpu hwritten]
  constructor
  · rintro ⟨inst', after, hinst, hafter, hagree⟩
    rw [hparse, Option.some.injEq, List.cons.injEq] at hinst
    rw [← hinst.1, executeOne_decoded hread, Option.some.injEq] at hafter
    rw [hsolve, ← hafter, Option.some.injEq] at hagree
    exact hagree.symm
  · intro hsame
    exact ⟨_, _, hparse, executeOne_decoded hread, by rw [hsolve, ← hsame]; rfl⟩

/-- The written instruction is read, up to operands that make no difference: a blank follows each comma
that separates two operands, or what is lost behind that comma counts for nothing. -/
def ReadAsWritten (k₁ k₂ : Nat) : SharedInstruction → Prop
  | li _ imm => 0 < k₁ ∨ imm = 0
  | add _ rs rt | mul _ rs rt => (0 < k₁ ∨ rs = zeroRegister) ∧ (0 < k₂ ∨ rt = zeroRegister)
  | addi _ rs imm => (0 < k₁ ∨ rs = zeroRegister) ∧ (0 < k₁ ∧ 0 < k₂ ∨ imm = 0)
  | sub _ rs rt =>
      0 < k₁ ∧ (0 < k₂ ∨ rt = zeroRegister)
        ∨ k₁ = 0 ∧ 0 < k₂ ∧ rs = zeroRegister ∧ rt = zeroRegister ∨ k₁ = 0 ∧ k₂ = 0 ∧ rs = rt
  | div _ rt => 0 < k₁ ∨ rt = zeroRegister

/-- An instruction that is read as written does what is written. -/
theorem next_read {inst : SharedInstruction} {k₁ k₂ : Nat} (h : inst.ReadAsWritten k₁ k₂)
    (cpu : CpuState) : (inst.read k₁ k₂).next cpu = inst.next cpu := by
  -- a register operand is lost where no blank stands before it
  have hswap : ∀ (f : Word → Word → Word) (rs rt : Fin 32), (∀ a b, f a b = f b a) →
      (0 < k₁ ∨ rs = zeroRegister) ∧ (0 < k₂ ∨ rt = zeroRegister) →
      f (cpu.regs (readRegisters k₁ k₂ rs rt).1) (cpu.regs (readRegisters k₁ k₂ rs rt).2)
        = f (cpu.regs rs) (cpu.regs rt) := by
    intro f rs rt hcomm hread
    obtain ⟨hs, ht⟩ := hread
    rcases k₁ with _ | k₁ <;> rcases k₂ with _ | k₂ <;> simp_all [readRegisters]
  cases inst with
  | li rd imm =>
      obtain hk | rfl := h
      · rw [read, if_neg hk.ne']
      · rw [read, ite_self]
  | add rd rs rt => simp only [read, next, hswap (· + ·) rs rt BitVec.add_comm h]
  | addi rd rs imm =>
      obtain ⟨hs, ⟨hk₁, hk₂⟩ | rfl⟩ := h
      · rw [read, if_neg hk₁.ne', if_neg (by omega)]
      · rw [read, ite_self]
        obtain hk₁ | rfl := hs
        · rw [if_neg hk₁.ne']
        · rw [ite_self]
  | sub rd rs rt =>
      obtain ⟨hk₁, hk₂ | rfl⟩ | ⟨hk₁, hk₂, rfl, rfl⟩ | ⟨hk₁, hk₂, rfl⟩ := h
      · simp [read, readRegisters, hk₁.ne', hk₂.ne']
      · simp [read, readRegisters, hk₁.ne']
      · simp [read, readRegisters, hk₁, hk₂.ne']
      · simp [read, readRegisters, next, hk₁, hk₂]
  | mul rd rs rt => simp only [read, next, hswap (· * ·) rs rt BitVec.mul_comm h]
  | div rs rt =>
      obtain hk | rfl := h
      · rw [read, if_neg hk.ne']
      · rw [read, ite_self]

/-- Nor does it divide by another register. -/
theorem divides_read {inst : SharedInstruction} {k₁ k₂ : Nat} {regs : RegisterFile}
    (h : inst.ReadAsWritten k₁ k₂) (hwritten : inst.Divides regs) :
    (inst.read k₁ k₂).Divides regs := by
  cases inst with
  | div rs rt =>
      obtain hk | rfl := h
      · rwa [read, if_neg hk.ne']
      · rwa [read, ite_self]
  | _ => trivial

/-! ## Registers that tell operands apart -/

/-- Register `i` holds 1, and the others 2. -/
def tagged (i : Fin 32) : RegisterFile := fun j => if j = i then 1 else 2

/-- Register `i` holds 1, and the others 0. -/
def only (i : Fin 32) : RegisterFile := fun j => if j = i then 1 else 0

/-- A machine that starts with the given registers. -/
def startingWith (regs : RegisterFile) : VirtualMachine :=
  { VirtualMachine.create { name := [] } ⟨[], by decide⟩ with cpu := { regs } }

/-- Arithmetic on tagged registers does not overflow. -/
theorem toInt_tagged (i j : Fin 32) : (tagged i j).toInt = 1 ∨ (tagged i j).toInt = 2 := by
  rw [tagged]
  split
  · exact .inl (by decide)
  · exact .inr (by decide)

/-- Nor does arithmetic where one register is tagged. -/
theorem toInt_only (i j : Fin 32) : (only i j).toInt = 0 ∨ (only i j).toInt = 1 := by
  rw [only]
  split
  · exact .inr (by decide)
  · exact .inl (by decide)

/-- A tagged register can be a divisor. -/
theorem tagged_ne_zero (i j : Fin 32) : tagged i j ≠ 0 := by
  rw [tagged]
  split <;> decide

/-- The tag marks its register. -/
theorem eq_of_tagged {i j : Fin 32} (h : tagged i j = 1) : j = i := by
  by_contra hne
  rw [tagged, if_neg hne] at h
  revert h
  decide

/-- The tag marks its register, also where the others hold 0. -/
theorem eq_of_only {i j : Fin 32} (h : only i j = 1) : j = i := by
  by_contra hne
  rw [only, if_neg hne] at h
  revert h
  decide

/-- The values that are written to one register are the same if the registers are, after that. -/
theorem value_eq_of_ofCpu {cpu : CpuState} {rd : Fin 32} {a b : Word}
    (h : VmClass.ofCpu { cpu with regs := Function.update cpu.regs rd a }
      = VmClass.ofCpu { cpu with regs := Function.update cpu.regs rd b }) : a = b := by
  have hreg : Function.update cpu.regs rd a rd = Function.update cpu.regs rd b rd :=
    congrFun (congrArg VmClass.registers h) rd
  rwa [Function.update_self, Function.update_self] at hreg

/-- Lost register operands show in the value of an operation that tells 1 and 2 apart. -/
theorem readAsWritten_of_tagged {f : Word → Word → Word} {k₁ k₂ : Nat} {rs rt : Fin 32}
    (h₁₂ : f 1 1 ≠ f 1 2) (h₂₁ : f 1 1 ≠ f 2 1) (h₂₂ : f 1 1 ≠ f 2 2) (hlast : f 2 1 ≠ f 2 2)
    (h : f (tagged zeroRegister (readRegisters k₁ k₂ rs rt).1)
        (tagged zeroRegister (readRegisters k₁ k₂ rs rt).2)
      = f (tagged zeroRegister rs) (tagged zeroRegister rt)) :
    (0 < k₁ ∨ rs = zeroRegister) ∧ (0 < k₂ ∨ rt = zeroRegister) := by
  rcases k₁ with _ | k₁ <;> rcases k₂ with _ | k₂ <;> by_cases hs : rs = zeroRegister <;>
    by_cases ht : rt = zeroRegister <;> simp_all [readRegisters, tagged]

/-- A lost immediate shows where the registers hold 0, and then a lost register where it is tagged. -/
theorem readAsWritten_addi {k₁ k₂ : Nat} {rd rs : Fin 32} {imm : Word}
    (h : ∀ regs : RegisterFile, Fits ((regs rs).toInt + imm.toInt) →
      regs (if k₁ = 0 then zeroRegister else rs) + (if k₁ = 0 ∨ k₂ = 0 then 0 else imm)
        = regs rs + imm) :
    (addi rd rs imm).ReadAsWritten k₁ k₂ := by
  have hmin := BitVec.le_toInt imm
  have hmax := @BitVec.toInt_lt 32 imm
  have hzero : (0 : Word).toInt = 0 := rfl
  have himm : 0 < k₁ ∧ 0 < k₂ ∨ imm = 0 := by
    have hvalue := h (fun _ => 0) (by rw [Fits, hzero]; omega)
    by_cases hk : k₁ = 0 ∨ k₂ = 0
    · rw [if_pos hk] at hvalue
      exact .inr (by simpa using hvalue.symm)
    · exact .inl (by omega)
  refine ⟨?_, himm⟩
  rcases himm with ⟨hk₁, -⟩ | rfl
  · exact .inl hk₁
  · have hs := toInt_only rs rs
    have hvalue := h (only rs) (by rw [Fits, hzero]; omega)
    rw [ite_self] at hvalue
    by_cases hk : k₁ = 0
    · rw [if_pos hk] at hvalue
      have hone : only rs zeroRegister = only rs rs := by simpa using hvalue
      exact .inr (eq_of_only (hone.trans (if_pos rfl))).symm
    · exact .inl (by omega)

/-- Lost operands of a subtraction show where they do not cancel out. -/
theorem readAsWritten_sub {k₁ k₂ : Nat} {rd rs rt : Fin 32}
    (h : ∀ i, tagged i (readRegisters k₁ k₂ rs rt).1 - tagged i (readRegisters k₁ k₂ rs rt).2
      = tagged i rs - tagged i rt) : (sub rd rs rt).ReadAsWritten k₁ k₂ := by
  rcases Nat.eq_zero_or_pos k₁ with hk₁ | hk₁ <;> rcases Nat.eq_zero_or_pos k₂ with hk₂ | hk₂
  · -- both registers are read as register 0
    have hcancel : tagged rs rs - tagged rs rt = tagged rs rs - tagged rs rs := by
      rw [← h rs]
      simp [readRegisters, hk₁, hk₂]
    have hrt : tagged rs rt = tagged rs rs := (BitVec.sub_right_inj _).mp hcancel
    exact .inr (.inr ⟨hk₁, hk₂, (eq_of_tagged (hrt.trans (if_pos rfl))).symm⟩)
  · -- `rt` is read in the place of `rs`
    have hshift : tagged zeroRegister rt - tagged zeroRegister zeroRegister
        = tagged zeroRegister rs - tagged zeroRegister rt := by
      rw [← h zeroRegister]
      simp [readRegisters, hk₁, hk₂.ne']
    have hzero : rs = zeroRegister ∧ rt = zeroRegister := by
      clear h
      by_cases hs : rs = zeroRegister <;> by_cases ht : rt = zeroRegister <;> simp_all [tagged]
    exact .inr (.inl ⟨hk₁, hk₂, hzero⟩)
  · -- `rt` is read as register 0
    have hlast : tagged zeroRegister rs - tagged zeroRegister zeroRegister
        = tagged zeroRegister rs - tagged zeroRegister rt := by
      rw [← h zeroRegister]
      simp [readRegisters, hk₁.ne', hk₂]
    have hrt : tagged zeroRegister zeroRegister = tagged zeroRegister rt :=
      (BitVec.sub_right_inj _).mp hlast
    exact .inl ⟨hk₁, .inr (eq_of_tagged hrt.symm)⟩
  · exact .inl ⟨hk₁, .inl hk₂⟩

/-- A lost divisor shows in the quotient. -/
theorem eq_of_sdiv_tagged {rs rt : Fin 32}
    (h : (tagged rt rs).sdiv (tagged rt zeroRegister) = (tagged rt rs).sdiv (tagged rt rt)) :
    rt = zeroRegister := by
  by_cases ht : rt = zeroRegister
  · exact ht
  · by_cases hs : rs = rt <;> simp_all [tagged, eq_comm]

/-- **Where the interpreters agree from all registers, the line is read as written.** -/
theorem readAsWritten_of_agreeOn {inst : SharedInstruction} {k₀ k₁ k₂ : Nat}
    (h : ∀ vm : VirtualMachine, inst.Defined vm.cpu.regs → AgreeOn (inst.line k₀ k₁ k₂) vm) :
    inst.ReadAsWritten k₁ k₂ := by
  have hsame : ∀ regs, inst.Defined regs → (inst.read k₁ k₂).Divides regs →
      VmClass.ofCpu ((inst.read k₁ k₂).next { regs }) = VmClass.ofCpu (inst.next { regs }) :=
    fun regs hdefined hread =>
      (@agreeOn_line_iff inst k₁ k₂ (startingWith regs) hread hdefined.divides k₀).mp (h _ hdefined)
  cases inst with
  | li rd imm =>
      have hvalue : (if k₁ = 0 then 0 else imm) = imm :=
        value_eq_of_ofCpu (hsame (only 0) trivial trivial)
      exact (Nat.eq_zero_or_pos k₁).elim (fun hk => .inr (by rw [← hvalue, if_pos hk])) .inl
  | add rd rs rt =>
      have hdefined : Fits ((tagged zeroRegister rs).toInt + (tagged zeroRegister rt).toInt) := by
        have hs := toInt_tagged zeroRegister rs
        have ht := toInt_tagged zeroRegister rt
        rw [Fits]
        omega
      have hvalue := value_eq_of_ofCpu (hsame (tagged zeroRegister) hdefined trivial)
      exact readAsWritten_of_tagged (f := (· + ·)) (by decide) (by decide) (by decide) (by decide)
        hvalue
  | addi rd rs imm =>
      exact readAsWritten_addi fun regs hdefined => value_eq_of_ofCpu (hsame regs hdefined trivial)
  | sub rd rs rt =>
      have htagged : ∀ i, Fits ((tagged i rs).toInt - (tagged i rt).toInt) := by
        intro i
        have hs := toInt_tagged i rs
        have ht := toInt_tagged i rt
        rw [Fits]
        omega
      exact readAsWritten_sub fun i => value_eq_of_ofCpu (hsame (tagged i) (htagged i) trivial)
  | mul rd rs rt =>
      have hdefined : Fits ((tagged zeroRegister rs).toInt * (tagged zeroRegister rt).toInt) := by
        rw [Fits]
        rcases toInt_tagged zeroRegister rs with hs | hs <;>
          rcases toInt_tagged zeroRegister rt with ht | ht <;> simp [hs, ht]
      have hvalue := value_eq_of_ofCpu (hsame (tagged zeroRegister) hdefined trivial)
      exact readAsWritten_of_tagged (f := (· * ·)) (by decide) (by decide) (by decide) (by decide)
        hvalue
  | div rs rt =>
      have hdefined : tagged rt rt ≠ 0 ∧ Fits ((tagged rt rs).toInt.tdiv (tagged rt rt).toInt) := by
        refine ⟨tagged_ne_zero rt rt, ?_⟩
        rw [Fits]
        rcases toInt_tagged rt rs with hs | hs <;> rcases toInt_tagged rt rt with ht | ht <;>
          simp [hs, ht]
      have hquotient : (tagged rt rs).sdiv (tagged rt (if k₁ = 0 then zeroRegister else rt))
          = (tagged rt rs).sdiv (tagged rt rt) :=
        congrArg VmClass.low (hsame (tagged rt) hdefined (tagged_ne_zero rt _))
      by_cases hk : k₁ = 0
      · rw [if_pos hk] at hquotient
        exact .inr (eq_of_sdiv_tagged hquotient)
      · exact .inl (by omega)

/-- **The interpreters agree on a line, from all registers on which its arithmetic is defined, exactly
when `ParseProgram` reads it as written.** -/
theorem agreeOn_iff_readAsWritten (inst : SharedInstruction) (k₀ k₁ k₂ : Nat) :
    (∀ vm : VirtualMachine, inst.Defined vm.cpu.regs → AgreeOn (inst.line k₀ k₁ k₂) vm)
      ↔ inst.ReadAsWritten k₁ k₂ := by
  refine ⟨readAsWritten_of_agreeOn, fun hread vm hdefined => ?_⟩
  have hwritten := hdefined.divides
  exact (agreeOn_line_iff (divides_read hread hwritten) hwritten k₀).mpr
    (congrArg VmClass.ofCpu (next_read hread vm.cpu))

/-- Without blanks behind its commas an addition is read without its source registers. -/
theorem unspaced_not_agreeOn :
    (add 1 2 3).line 0 0 0 = bytes ['a', 'd', 'd', ' ', '$', '1', ',', '$', '2', ',', '$', '3'] ∧
    (add 1 2 3).Defined (startingWith (only 2)).cpu.regs ∧
    ¬ AgreeOn (bytes ['a', 'd', 'd', ' ', '$', '1', ',', '$', '2', ',', '$', '3'])
      (startingWith (only 2)) := by
  have htext : (add 1 2 3).line 0 0 0
      = bytes ['a', 'd', 'd', ' ', '$', '1', ',', '$', '2', ',', '$', '3'] := by decide
  have hdefined : Fits ((only 2 2).toInt + (only 2 3).toInt) := by decide
  refine ⟨htext, hdefined, fun hagree => ?_⟩
  rw [← htext] at hagree
  have hsame := (@agreeOn_line_iff (add 1 2 3) 0 0 (startingWith (only 2)) trivial trivial 0).mp hagree
  have hsum : only 2 zeroRegister + only 2 zeroRegister = only 2 2 + only 2 3 := value_eq_of_ofCpu hsame
  revert hsum
  decide

end SharedInstruction

end VmmShowcase
