import VmmShowcase.Cpu.OperandFormats
import VmmShowcase.Vm.SnapshotRestore

/-! # The registers of parsed programs

`ParseRegister` takes a word without a dollar sign for register 0, but checks nothing behind one:
`std::stoi` throws where no `int` stands there, and any other number indexes the register file as it
is. A program has valid register indices exactly when each of its register words writes one. -/

namespace VmmShowcase

open Text TextStream

namespace VirtualMachine

/-- Every program with these instructions has a reply to every slice of every machine: no register is
indexed out of range. -/
def RunsInRange (insts : List Instruction) : Prop :=
  ∀ vm : VirtualMachine, vm.program.insts = insts → ∀ ks, none ∉ Component.trace call (some vm) ks

/-- `ParseProgram` returns, with register operands in range only, and no run of the program leaves the
register file. -/
def IndicesValid (lines : List (List Byte)) : Prop :=
  ∃ program, parseProgram lines = some program ∧ (∀ inst ∈ program, inst.RegistersInRange)
    ∧ RunsInRange program

/-- Register operands in range keep every run in the register file. -/
theorem runsInRange_of_registersInRange {insts : List Instruction}
    (h : ∀ inst ∈ insts, inst.RegistersInRange) : RunsInRange insts := by
  rintro vm rfl ks
  exact none_notMem_trace h ks

/-- **Valid register indices.** `ParseProgram` yields valid indices if and only if every word that a
line of the program has for a register either has nothing behind a dollar sign, or a number from 0
to 31. -/
theorem indicesValid_iff (lines : List (List Byte)) :
    IndicesValid lines
      ↔ ∀ line ∈ lines, ∀ word ∈ registerWords line, WritesInt RegisterIndex word := by
  have hzero : RegisterIndex 0 := by decide
  have hlines : (∃ program, parseProgram lines = some program
        ∧ ∀ inst ∈ program, ∀ field, RegisterIndex (inst.register field))
      ↔ ∀ line ∈ lines, ∀ word ∈ registerWords line, WritesInt RegisterIndex word := by
    rw [exists_parseProgram_iff]
    exact forall₂_congr fun line _ => exists_parseLine_iff hzero line
  rw [← hlines]
  constructor
  · rintro ⟨program, hparse, hregs, -⟩
    exact ⟨program, hparse, fun inst hinst => inst.registersInRange_iff.mp (hregs inst hinst)⟩
  · rintro ⟨program, hparse, hregs⟩
    have hrange : ∀ inst ∈ program, inst.RegistersInRange := fun inst hinst =>
      inst.registersInRange_iff.mpr (hregs inst hinst)
    exact ⟨program, hparse, hrange, runsInRange_of_registersInRange hrange⟩

/-- `li $99, 1`. -/
def registerNinetyNine : List Byte := bytes ['l', 'i', ' ', '$', '9', '9', ',', ' ', '1']

/-- The instruction that `ParseProgram` emits for `li $99, 1`. -/
def loadNinetyNine : Program where
  insts := [{ opcode := .li, rd := 99, imm := 1 }]
  size_lt := by decide

/-- That line is parsed, and its first step indexes the register file at 99. -/
theorem not_indicesValid_registerNinetyNine : ¬ IndicesValid [registerNinetyNine] := by
  have hparse : parseProgram [registerNinetyNine] = some loadNinetyNine.insts := by decide +kernel
  have hrun : none ∈ Component.trace call (some (create { name := [1] } loadNinetyNine)) [1] := by
    have hcall : (call (some (create { name := [1] } loadNinetyNine)) 1).1 = none := rfl
    rw [Component.trace_cons, hcall]
    exact List.mem_cons_self ..
  rintro ⟨program, hprogram, -, hruns⟩
  rw [hparse, Option.some.injEq] at hprogram
  subst hprogram
  exact hruns _ rfl _ hrun

end VirtualMachine

end VmmShowcase
