import VmmShowcase.Foundations.SignedRange
import VmmShowcase.Vm.Stepping

/-! # Guest arithmetic on the host

`ExecuteOne` computes sums, differences, products and quotients of guest values in `int32_t`. Only a
division by zero is looked for beforehand, so a result that leaves the range of `int32_t` is undefined
behaviour of the host, or its trap. Whether a run comes to one is told by a machine that runs the same
program over the integers. -/

namespace VmmShowcase

open SignedRange

/-- What an arithmetic instruction evaluates, in unbounded integers; a division by zero is a fault. -/
def exactResults (opcode : Opcode) (a b : Int) : List Int :=
  match opcode with
  | .add | .addi => [a + b]
  | .sub => [a - b]
  | .mul => [a * b]
  | .div => if b = 0 then [] else [a.tdiv b, a.tmod b]
  | _ => []

namespace VirtualMachine

/-- The operands that an arithmetic instruction is about to read. -/
def operands (vm : VirtualMachine) (inst : Instruction) : Option (Int × Int) :=
  match inst.opcode with
  | .add | .sub | .mul | .div => do
      let a ← vm.cpu.reg inst.rs
      let b ← vm.cpu.reg inst.rt
      return (a.toInt, b.toInt)
  | .addi => do
      let a ← vm.cpu.reg inst.rs
      return (a.toInt, inst.imm.toInt)
  | _ => none

/-- Everything an instruction is about to evaluate is in the range of `int32_t`. -/
def ArithmeticFits (vm : VirtualMachine) (inst : Instruction) : Prop :=
  ∀ a b, vm.operands inst = some (a, b) →
    ∀ result ∈ exactResults inst.opcode a b, InRange (2 ^ 31) result

/-- `RunForSlice(k)` calls `ExecuteOne` with `inst`, on the machine as it is in state `u`: after fewer
than `k` instructions retired. -/
def Executing (vm : VirtualMachine) (k : Nat) (u : VirtualMachine) (inst : Instruction) : Prop :=
  ¬ vm.status.Done ∧ ∃ ran < k, BudgetedRun.Advances sliceStep ran vm.start u ∧ u.fetch = some inst

/-- A sequence of `RunForSlice` calls with these budgets executes an instruction in state `u`. -/
inductive ExecutesIn : VirtualMachine → List Nat → VirtualMachine → Instruction → Prop where
  | now {vm : VirtualMachine} {k : Nat} {ks : List Nat} {u : VirtualMachine} {inst : Instruction}
      (h : vm.Executing k u inst) : ExecutesIn vm (k :: ks) u inst
  | later {vm vm' : VirtualMachine} {k r : Nat} {ks : List Nat} {u : VirtualMachine}
      {inst : Instruction} (hrun : vm.runForSlice k = some (r, vm')) (h : ExecutesIn vm' ks u inst) :
      ExecutesIn vm (k :: ks) u inst

end VirtualMachine

/-! ## The same program over the integers -/

/-- A machine whose registers hold integers. No instruction reads `hi` and `lo`, so it has none. -/
structure ExactMachine where
  regs : Fin 32 → Int
  pc : Nat
  memory : VirtualMemory

namespace ExactMachine

/-- A register, read. -/
def reg (m : ExactMachine) (idx : Int) : Option Int := (CpuState.registerIndex idx).map m.regs

/-- A register, written. -/
def setReg (m : ExactMachine) (idx value : Int) : Option ExactMachine :=
  (CpuState.registerIndex idx).map fun i => { m with regs := Function.update m.regs i value }

/-- The machine at its next instruction. -/
def advance (m : ExactMachine) : ExactMachine := { m with pc := m.pc + 1 }

/-- The numbers that an instruction evaluates. -/
def evaluates (m : ExactMachine) (inst : Instruction) : List Int :=
  match inst.opcode with
  | .add | .sub | .mul | .div =>
      (m.reg inst.rs).elim [] fun a => (m.reg inst.rt).elim [] fun b => exactResults inst.opcode a b
  | .addi => (m.reg inst.rs).elim [] fun a => exactResults .addi a inst.imm.toInt
  | _ => []

/-- The machine behind an instruction, if it goes on there. Memory holds words, so `sw` stores the
residue of a number. -/
def step (m : ExactMachine) (inst : Instruction) : Option ExactMachine :=
  match inst.opcode with
  | .li => (m.setReg inst.rd inst.imm.toInt).map advance
  | .add => do (m.setReg inst.rd ((← m.reg inst.rs) + (← m.reg inst.rt))).map advance
  | .addi => do (m.setReg inst.rd ((← m.reg inst.rs) + inst.imm.toInt)).map advance
  | .sub => do (m.setReg inst.rd ((← m.reg inst.rs) - (← m.reg inst.rt))).map advance
  | .mul => do (m.setReg inst.rd ((← m.reg inst.rs) * (← m.reg inst.rt))).map advance
  | .div => do
      let divisor ← m.reg inst.rt
      if divisor = 0 then none else (m.reg inst.rs).map fun _ => m.advance
  | .lw =>
      match m.memory.readWord inst.imm with
      | (.error _, _) => none
      | (.ok value, memory) =>
          (setReg { m with memory := memory } inst.rd value.toInt).map advance
  | .sw => do
      let value ← m.reg inst.rs
      match m.memory.writeWord inst.imm (BitVec.ofInt 32 value) with
      | (.error _, _) => none
      | (.ok (), memory) => some (advance { m with memory := memory })
  | .dumpProcessorState | .snapshot => some m.advance
  | _ => none

/-- The numbers that a program evaluates within `n` instructions. -/
def run (program : Program) : Nat → ExactMachine → List Int
  | 0, _ => []
  | n + 1, m =>
      match program.insts[m.pc]? with
      | none => []
      | some inst => m.evaluates inst ++ (m.step inst).elim [] (run program n)

/-- Nothing is evaluated at the end of the program, or at an instruction that evaluates nothing and does
not go on. -/
theorem run_eq_nil {program : Program} {m : ExactMachine}
    (h : ∀ inst, program.insts[m.pc]? = some inst → m.evaluates inst = [] ∧ m.step inst = none)
    (n : Nat) : run program n m = [] := by
  cases n with
  | zero => rfl
  | succ n =>
      rw [run]
      cases hf : program.insts[m.pc]? with
      | none => rfl
      | some inst =>
          obtain ⟨hevaluates, hstep⟩ := h inst hf
          simp only [hevaluates, hstep, Option.elim_none, List.append_nil]

/-- A program evaluates only numbers in the range of `int32_t`. -/
def RunFits (program : Program) (n : Nat) (m : ExactMachine) : Prop :=
  ∀ z ∈ run program n m, InRange (2 ^ 31) z

end ExactMachine

namespace VirtualMachine

/-- The integers that a machine's words stand for. -/
def exact (vm : VirtualMachine) : ExactMachine where
  regs i := (vm.cpu.regs i).toInt
  pc := vm.cpu.pc.toNat
  memory := vm.memory

/-- Registers are read alike. -/
theorem exact_reg (vm : VirtualMachine) (idx : Int) :
    vm.exact.reg idx = (vm.cpu.reg idx).map BitVec.toInt := by
  rw [ExactMachine.reg, CpuState.reg, Option.map_map]
  rfl

/-- What is left over the integers of a machine that retired an instruction. -/
def exactNext (p : Nat × VirtualMachine) : Option ExactMachine :=
  if p.1 = 1 then some p.2.exact else none

/-- A fetched instruction that retires leads to the next one. -/
theorem exactNext_retire {vm : VirtualMachine} {inst : Instruction} (hf : vm.fetch = some inst)
    {cpu : CpuState} (hpc : cpu.pc = vm.cpu.pc) (memory : VirtualMemory) :
    exactNext ({ vm with memory := memory }.retire cpu)
      = some (exact { vm with cpu := cpu, memory := memory }).advance := by
  have hadvance : cpu.advance.pc.toNat = cpu.pc.toNat + 1 := by
    rw [toNat_advance_pc hf hpc, hpc]
  simp only [exactNext, retire, if_pos, exact, ExactMachine.advance, hadvance]
  rfl

/-- A word that is written to a register is written over the integers. -/
theorem exact_setReg {vm : VirtualMachine} {inst : Instruction} (hf : vm.fetch = some inst)
    (memory : VirtualMemory) (idx : Int) (value : Word) :
    (ExactMachine.setReg { vm.exact with memory := memory } idx value.toInt).map ExactMachine.advance
      = ((vm.cpu.setReg idx value).bind
          fun cpu => some ({ vm with memory := memory }.retire cpu)).bind exactNext := by
  rw [ExactMachine.setReg, CpuState.setReg]
  cases CpuState.registerIndex idx with
  | none => rfl
  | some i =>
      have hregs : Function.update vm.exact.regs i value.toInt
          = fun j => (Function.update vm.cpu.regs i value j).toInt :=
        funext fun j => (Function.apply_update (fun _ => BitVec.toInt) vm.cpu.regs i value j).symm
      have hretire : ∀ cpu : CpuState, cpu.pc = vm.cpu.pc →
          exactNext ({ vm with memory := memory }.retire cpu)
            = some (exact { vm with cpu := cpu, memory := memory }).advance :=
        fun _ hpc => exactNext_retire hf hpc memory
      simp only [Option.map_some, Option.bind_some, hregs, hretire]
      rfl

/-- An instruction fits exactly if the numbers that it evaluates are in the range of `int32_t`. -/
theorem arithmeticFits_iff {vm : VirtualMachine} {inst : Instruction} :
    vm.ArithmeticFits inst ↔ ∀ z ∈ vm.exact.evaluates inst, InRange (2 ^ 31) z := by
  have hreg := vm.exact_reg
  unfold ArithmeticFits operands ExactMachine.evaluates
  cases hop : inst.opcode with
  | add | sub | mul | div =>
      cases hs : vm.cpu.reg inst.rs <;> cases ht : vm.cpu.reg inst.rt <;> simp [hreg, hs, ht]
  | addi => cases hs : vm.cpu.reg inst.rs <;> simp [hreg, hs]
  | _ => simp

/-- Where words are combined exactly, an instruction on two registers goes on alike. -/
theorem exact_registerOp {vm : VirtualMachine} {inst : Instruction} (hf : vm.fetch = some inst)
    {f : Int → Int → Int} {g : Word → Word → Word}
    (hexact : ∀ a b, vm.cpu.reg inst.rs = some a → vm.cpu.reg inst.rt = some b →
      (g a b).toInt = f a.toInt b.toInt) :
    ((vm.exact.reg inst.rs).bind fun a => (vm.exact.reg inst.rt).bind fun b =>
        (vm.exact.setReg inst.rd (f a b)).map ExactMachine.advance)
      = ((vm.cpu.reg inst.rs).bind fun a => (vm.cpu.reg inst.rt).bind fun b =>
          (vm.cpu.setReg inst.rd (g a b)).bind fun cpu => some (vm.retire cpu)).bind exactNext := by
  rw [exact_reg, exact_reg]
  cases hs : vm.cpu.reg inst.rs with
  | none => rfl
  | some a =>
      cases ht : vm.cpu.reg inst.rt with
      | none => rfl
      | some b =>
          simp only [Option.map_some, Option.bind_some]
          rw [← hexact a b hs ht]
          exact exact_setReg hf vm.memory inst.rd (g a b)

/-- **One instruction.** Where the results of an instruction fit, the machine over the integers goes on
as the machine does. -/
theorem step_exact {vm : VirtualMachine} {inst : Instruction} (hf : vm.fetch = some inst)
    (hfits : vm.ArithmeticFits inst) :
    vm.exact.step inst = (vm.executeOne inst).bind exactNext := by
  have hset := fun memory => exact_setReg hf memory inst.rd
  unfold ExactMachine.step executeOne
  cases hop : inst.opcode with
  | li => exact hset vm.memory inst.imm
  | add =>
      refine exact_registerOp hf fun a b hs ht => toInt_add_of_inRange ?_
      exact hfits a.toInt b.toInt (by simp [operands, hop, hs, ht]) _ (by simp [hop, exactResults])
  | sub =>
      refine exact_registerOp hf fun a b hs ht => toInt_sub_of_inRange ?_
      exact hfits a.toInt b.toInt (by simp [operands, hop, hs, ht]) _ (by simp [hop, exactResults])
  | mul =>
      refine exact_registerOp hf fun a b hs ht => toInt_mul_of_inRange ?_
      exact hfits a.toInt b.toInt (by simp [operands, hop, hs, ht]) _ (by simp [hop, exactResults])
  | addi =>
      simp only [exact_reg]
      cases hs : vm.cpu.reg inst.rs with
      | none => rfl
      | some a =>
          have hsum : InRange (2 ^ 31) (a.toInt + inst.imm.toInt) :=
            hfits a.toInt inst.imm.toInt (by simp [operands, hop, hs]) _ (by simp [hop, exactResults])
          simp only [Option.map_some, Option.bind_eq_bind, Option.bind_some]
          rw [← toInt_add_of_inRange hsum]
          exact hset vm.memory (a + inst.imm)
  | div =>
      simp only [exact_reg]
      cases ht : vm.cpu.reg inst.rt with
      | none => rfl
      | some b =>
          have hzero : b.toInt = 0 ↔ b = 0 := by
            rw [← BitVec.toInt_inj]
            rfl
          simp only [Option.map_some, Option.bind_eq_bind, Option.bind_some, hzero]
          by_cases hb : b = 0
          · rw [if_pos hb, if_pos hb]
            rfl
          · rw [if_neg hb, if_neg hb]
            cases hs : vm.cpu.reg inst.rs with
            | none => rfl
            | some a => exact (exactNext_retire hf rfl vm.memory).symm
  | lw =>
      have hmemory : vm.exact.memory = vm.memory := rfl
      simp only [hmemory]
      rcases vm.memory.readWord inst.imm with ⟨fault | value, memory⟩
      · rfl
      · exact hset memory value
  | sw =>
      have hmemory : vm.exact.memory = vm.memory := rfl
      simp only [exact_reg, hmemory]
      cases hs : vm.cpu.reg inst.rs with
      | none => rfl
      | some value =>
          simp only [Option.map_some, Option.bind_eq_bind, Option.bind_some, BitVec.ofInt_toInt]
          rcases vm.memory.writeWord inst.imm value with ⟨fault | stored, memory⟩
          · rfl
          · exact (exactNext_retire hf rfl memory).symm
  | dumpProcessorState | snapshot => exact (exactNext_retire hf rfl vm.memory).symm
  | _ => rfl

/-! ## Runs -/

open BudgetedRun

/-- What the next instruction evaluates fits, if there is one. -/
def FetchedFits (vm : VirtualMachine) : Prop :=
  ∀ inst, vm.fetch = some inst → vm.ArithmeticFits inst

/-- An instruction that is executed retires or does not. -/
theorem retired_of_executeOne {vm : VirtualMachine} {inst : Instruction} {p : Nat × VirtualMachine}
    (h : vm.executeOne inst = some p) : p.1 = 0 ∨ p.1 = 1 := by
  cases executes_of_executeOne h with
  | retire => exact .inr rfl
  | raise | migrate | halt => exact .inl rfl

/-- **Behind one instruction** the program over the integers is where the machine is. -/
theorem elim_exactNext_iff {vm : VirtualMachine} {inst : Instruction} (hf : vm.fetch = some inst)
    (n : Nat) :
    (∀ z ∈ ((vm.executeOne inst).bind exactNext).elim [] (ExactMachine.run vm.program n),
        InRange (2 ^ 31) z)
      ↔ ∀ vm', vm.sliceStep = some (true, vm') → ExactMachine.RunFits vm'.program n vm'.exact := by
  have hstep : vm.sliceStep = (vm.executeOne inst).map fun p => (p.1 != 0, p.2) := by
    rw [sliceStep, hf]
  rw [hstep]
  cases hexec : vm.executeOne inst with
  | none => simp
  | some p =>
      obtain ⟨ran, vm'⟩ := p
      rcases retired_of_executeOne hexec with hran | hran
      · obtain rfl : ran = 0 := hran
        simp [exactNext]
      · obtain rfl : ran = 1 := hran
        have hsame : vm'.program = vm.program :=
          (SameProgram.sliceStep ⟨rfl, rfl⟩ (by rw [hstep, hexec]; rfl)).program_eq
        simp only [Option.bind_some, exactNext, if_pos, Option.elim_some, Option.map_some,
          Option.some.injEq, Prod.mk.injEq, bne_iff_ne, ne_eq, one_ne_zero, not_false_eq_true,
          true_and, forall_eq', ExactMachine.RunFits, hsame]

/-- **Many instructions.** What a machine evaluates fits for `n` instructions exactly if the program
over the integers evaluates only numbers in the range of `int32_t`. -/
theorem throughout_fetchedFits_iff (vm : VirtualMachine) (n : Nat) :
    Throughout sliceStep FetchedFits n vm ↔ ExactMachine.RunFits vm.program n vm.exact := by
  induction n generalizing vm with
  | zero => exact iff_of_true (throughout_zero vm) (List.forall_mem_nil _)
  | succ n ih =>
      have hfetch : vm.program.insts[vm.exact.pc]? = vm.fetch := rfl
      rw [throughout_succ_iff, ExactMachine.RunFits, ExactMachine.run, hfetch]
      simp only [ih]
      cases hf : vm.fetch with
      | none =>
          refine iff_of_true ⟨fun inst hinst => ?_, fun vm' hstep => ?_⟩ (List.forall_mem_nil _)
          · rw [hf] at hinst
            cases hinst
          · rw [sliceStep, hf] at hstep
            cases hstep
      | some inst =>
          have hfirst : vm.FetchedFits ↔ ∀ z ∈ vm.exact.evaluates inst, InRange (2 ^ 31) z := by
            rw [FetchedFits, hf, ← arithmeticFits_iff]
            simp only [Option.some.injEq, forall_eq']
          rw [hfirst, List.forall_mem_append]
          refine and_congr_right fun hfits => ?_
          rw [step_exact hf (arithmeticFits_iff.mpr hfits), elim_exactNext_iff hf]

/-- Where a slice has used its budget up, the next one goes on. -/
theorem settle_runFits_iff {t : VirtualMachine} (hrunning : t.status = .running) (n : Nat) :
    t.settle.status.Done ∨ ExactMachine.RunFits t.settle.program n t.settle.exact
      ↔ ExactMachine.RunFits t.program n t.exact := by
  cases hf : t.fetch with
  | none =>
      rw [settle_of_fetch_none hf]
      refine iff_of_true (.inl (.inl rfl)) ?_
      have hnil : ExactMachine.run t.program n t.exact = [] := by
        refine ExactMachine.run_eq_nil (fun inst hinst => ?_) n
        cases (show t.fetch = some inst from hinst).symm.trans hf
      rw [ExactMachine.RunFits, hnil]
      exact List.forall_mem_nil _
  | some inst =>
      rw [settle_of_fetch_some hf, if_pos hrunning]
      exact or_iff_right (by show ¬ VmStatus.Done .ready; decide)

/-- Where a slice has stopped, nothing more is evaluated. -/
theorem settle_runFits_of_stop {t u : VirtualMachine} (hstep : t.sliceStep = some (false, u))
    (n : Nat) : u.settle.status.Done ∨ ExactMachine.RunFits u.settle.program n u.settle.exact := by
  rcases sliceStep_stop hstep with ⟨hf, rfl⟩ | ⟨inst, hf, hexec⟩
  · rw [settle_of_fetch_none hf]
    exact .inl (.inl rfl)
  · rw [settle_of_executeOne hf hexec]
    cases executes_of_executeOne hexec with
    | raise => exact .inl (.inr rfl)
    | halt => exact .inl (.inl rfl)
    | migrate hop =>
        -- the slices to come find the same instruction
        have hnil : ExactMachine.run t.program n t.exact = [] := by
          refine ExactMachine.run_eq_nil (fun inst' hinst' => ?_) n
          obtain rfl : inst = inst' := Option.some.inj (hf.symm.trans hinst')
          exact ⟨by simp [ExactMachine.evaluates, hop], by simp [ExactMachine.step, hop]⟩
        have hfits : ExactMachine.RunFits t.program n t.exact := by
          rw [ExactMachine.RunFits, hnil]
          exact List.forall_mem_nil _
        exact .inr hfits

/-- What a slice executes, and what the later ones do. -/
theorem forall_executesIn_cons_iff {vm : VirtualMachine} {k : Nat} {ks : List Nat}
    {Q : VirtualMachine → Instruction → Prop} :
    (∀ u inst, ExecutesIn vm (k :: ks) u inst → Q u inst)
      ↔ (∀ u inst, vm.Executing k u inst → Q u inst)
        ∧ ∀ r vm', vm.runForSlice k = some (r, vm') → ∀ u inst, ExecutesIn vm' ks u inst → Q u inst := by
  constructor
  · exact fun h => ⟨fun u inst hnow => h u inst (.now hnow),
      fun r vm' hrun u inst hlater => h u inst (.later hrun hlater)⟩
  · rintro ⟨hnow, hlater⟩ u inst h
    cases h with
    | now h => exact hnow u inst h
    | later hrun h => exact hlater _ _ hrun u inst h

/-- What a slice executes is what its loop executes. -/
theorem forall_executing_iff {vm : VirtualMachine} (hdone : ¬ vm.status.Done) (k : Nat) :
    (∀ u inst, vm.Executing k u inst → u.ArithmeticFits inst)
      ↔ Throughout sliceStep FetchedFits k vm.start := by
  constructor
  · exact fun h ran hran u hu inst hf => h u inst ⟨hdone, ran, hran, hu, hf⟩
  · rintro h u inst ⟨-, ran, hran, hu, hf⟩
    exact h ran hran u hu inst hf

/-- **Behind a slice** the machine is halted or faulted, or the program over the integers fits for `n`
instructions, exactly if what the loop would execute next fits where the budget was used up. -/
theorem forall_runForSlice_runFits_iff {vm : VirtualMachine} (hdone : ¬ vm.status.Done) (k n : Nat) :
    (∀ r vm', vm.runForSlice k = some (r, vm') →
        vm'.status.Done ∨ ExactMachine.RunFits vm'.program n vm'.exact)
      ↔ ∀ t, Advances sliceStep k vm.start t → Throughout sliceStep FetchedFits n t := by
  have hsettle : ∀ t, Advances sliceStep k vm.start t →
      (t.settle.status.Done ∨ ExactMachine.RunFits t.settle.program n t.settle.exact
        ↔ Throughout sliceStep FetchedFits n t) := fun t ht => by
    rw [throughout_fetchedFits_iff]
    exact settle_runFits_iff (ht.invariant (fun u => u.status = .running)
      (fun _ _ _ hstep => status_of_sliceStep_advance hstep) rfl) n
  constructor
  · intro h t ht
    refine (hsettle t ht).mp (h k t.settle ?_)
    rw [runForSlice_of_not_done hdone, ht.run_eq]
    rfl
  · intro h r vm' hrun
    rcases runForSlice_cases hrun with ⟨hdone', -, -⟩ | ⟨-, u, hslice, rfl⟩
    · exact absurd hdone' hdone
    obtain ⟨t, ht, ⟨-, hstop⟩ | ⟨rfl, rfl⟩⟩ := exists_advances hslice
    · exact settle_runFits_of_stop hstop n
    · exact (hsettle u ht).mpr (h u ht)

/-- **When guests cannot overflow the host.** In a run, from whatever state and by slices of whatever
size, everything that additions, subtractions, multiplications and divisions evaluate is in the range
of `int32_t` exactly if the machine is halted or faulted to begin with, or the same program, run over
the integers from that state for as many instructions, evaluates only numbers in that range. -/
theorem run_arithmeticFits_iff (vm : VirtualMachine) (ks : List Nat) :
    (∀ u inst, ExecutesIn vm ks u inst → u.ArithmeticFits inst)
      ↔ vm.status.Done ∨ ExactMachine.RunFits vm.program ks.sum vm.exact := by
  induction ks generalizing vm with
  | nil => exact iff_of_true (fun u inst h => by cases h) (.inr (List.forall_mem_nil _))
  | cons k ks ih =>
      rw [forall_executesIn_cons_iff]
      simp only [ih]
      by_cases hdone : vm.status.Done
      · refine iff_of_true ⟨fun u inst h => absurd hdone h.1, fun r vm' hrun => ?_⟩ (.inl hdone)
        rw [runForSlice_of_done hdone] at hrun
        cases hrun
        exact .inl hdone
      · have hexact : ExactMachine.RunFits vm.program (k + ks.sum) vm.exact
            ↔ Throughout sliceStep FetchedFits (k + ks.sum) vm.start :=
          (throughout_fetchedFits_iff vm.start (k + ks.sum)).symm
        rw [forall_executing_iff hdone, forall_runForSlice_runFits_iff hdone, List.sum_cons,
          or_iff_right hdone, hexact, throughout_add_iff]

/-- `li R1, -2147483648; li R2, -1; div R1, R2; halt`. -/
def trappingDivision : Program where
  insts := [{ opcode := .li, rd := 1, imm := BitVec.intMin 32 },
    { opcode := .li, rd := 2, imm := -1 }, { opcode := .div, rs := 1, rt := 2 }, { opcode := .halt }]
  size_lt := by decide

/-- The quotient of the least number by -1 is no `int32_t`. -/
theorem trappingDivision_not_fits : trappingDivision.RegistersInRange
    ∧ ¬ ∀ u inst, ExecutesIn (create { name := [0x76], memoryBytes := 0 } trappingDivision) [3] u inst →
      u.ArithmeticFits inst := by
  refine ⟨by decide, fun h => ?_⟩
  have hfits := h _ _ (.now ⟨by decide, 2, by decide, .succ rfl (.succ rfl (.zero _)), rfl⟩)
  exact absurd (hfits (-2147483648) (-1) rfl 2147483648 (by decide)) (by decide)

end VirtualMachine

end VmmShowcase
