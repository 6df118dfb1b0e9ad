import VmmShowcase.Foundations.PartialStep
import VmmShowcase.Legacy.Message
import VmmShowcase.Legacy.Agreement

/-! # Where the server resumes

The client counts `solve` calls, one for each line that is not empty, and the server skips that many
lines, the empty ones among them. So it executes as many lines twice as there are empty lines before
the `MIGRATE` line: the last ones up to that line. -/

namespace VmmShowcase

open Text TextStream PartialStep

/-! ## Instructions work on the registers -/

/-- The same registers, with program counters `p` and `q`. -/
structure SameRegisters (p q : Word) (s t : VmClass) : Prop where
  registers : s.registers = t.registers
  pc_left : s.pc = p
  pc_right : t.pc = q

variable {p q : Word}

namespace VmClass

/-- A register is the same in the same registers. -/
theorem reg_eq {s t : VmClass} (h : SameRegisters p q s t) (idx : Int) : s.reg idx = t.reg idx := by
  rw [reg, reg, h.registers]

/-- Writing a register keeps the registers the same. -/
theorem preserves_setReg (idx : Int) (value : Word) :
    Preserves (SameRegisters p q) fun obj => obj.setReg idx value := by
  intro s t h
  simp only [setReg]
  cases CpuState.registerIndex idx with
  | none => exact .none
  | some i => exact .some ⟨by rw [h.registers], h.pc_left, h.pc_right⟩

/-- So does an instruction on two registers. -/
theorem preserves_registerOp (f : Word → Word → Word) (rd rs rt : Int) :
    Preserves (SameRegisters p q) (registerOp f rd rs rt) :=
  .bind (fun _ _ h => reg_eq h rs) fun a =>
    .bind (fun _ _ h => reg_eq h rt) fun b => preserves_setReg rd (f a b)

/-- So does an instruction on a register and an immediate. -/
theorem preserves_immediateOp (f : Word → Word → Word) (rt rs immediate : Int) :
    Preserves (SameRegisters p q) (immediateOp f rt rs immediate) :=
  .bind (fun _ _ h => reg_eq h rs) fun a => preserves_setReg rt (f a (BitVec.ofInt 32 immediate))

/-- So does a shift. -/
theorem preserves_shiftOp (f : Word → Nat → Word) (rd rt imm : Int) :
    Preserves (SameRegisters p q) (shiftOp f rd rt imm) :=
  .ite (.bind (fun _ _ h => reg_eq h rt) fun _ => preserves_setReg rd _) preserves_none

/-- `mult` writes no register. -/
theorem preserves_mult (rs rt : Int) : Preserves (SameRegisters p q) (mult rs rt) :=
  .bind (fun _ _ h => reg_eq h rs) fun _ =>
    .bind (fun _ _ h => reg_eq h rt) fun _ _ _ h => .some ⟨h.registers, h.pc_left, h.pc_right⟩

/-- `divi` writes no register. -/
theorem preserves_divi (rs rt : Int) : Preserves (SameRegisters p q) (divi rs rt) :=
  .bind (fun _ _ h => reg_eq h rt) fun _ =>
    .ite preserves_none (.bind (fun _ _ h => reg_eq h rs) fun _ _ _ h =>
      .some ⟨h.registers, h.pc_left, h.pc_right⟩)

end VmClass

/-- One operand is read, and then `f` executed. -/
theorem preserves_operand (text : List Byte) {f : Int → VmClass → Option VmClass}
    (hf : ∀ z, Preserves (SameRegisters p q) (f z)) :
    Preserves (SameRegisters p q) fun obj => (stoi text).bind fun z => f z obj :=
  .bind (fun _ _ _ => rfl) hf

/-- Two operands are read, and then `f` executed. -/
theorem preserves_operands (text text' : List Byte) {f : Int → Int → VmClass → Option VmClass}
    (hf : ∀ z z', Preserves (SameRegisters p q) (f z z')) :
    Preserves (SameRegisters p q) fun obj =>
      (stoi text).bind fun z => (stoi text').bind fun z' => f z z' obj :=
  preserves_operand text fun z => preserves_operand text' (hf z)

/-- **Every operation keeps the registers the same.** -/
theorem preserves_execute (opcode : List Byte) (destReg : Int) (srcReg1 srcReg2 : List Byte) :
    Preserves (SameRegisters p q) (execute opcode destReg srcReg1 srcReg2) := by
  have hregisters : ∀ f, ∀ text text', Preserves (SameRegisters p q) fun obj =>
      (stoi text).bind fun rs => (stoi text').bind fun rt => VmClass.registerOp f destReg rs rt obj :=
    fun f text text' => preserves_operands text text' (VmClass.preserves_registerOp f destReg)
  have himmediate : ∀ f, ∀ text text', Preserves (SameRegisters p q) fun obj =>
      (stoi text).bind fun rs => (stoi text').bind fun imm =>
        VmClass.immediateOp f destReg rs imm obj :=
    fun f text text' => preserves_operands text text' (VmClass.preserves_immediateOp f destReg)
  have hshift : ∀ f, ∀ text text', Preserves (SameRegisters p q) fun obj =>
      (stoi text).bind fun rt => (stoi text').bind fun imm => VmClass.shiftOp f destReg rt imm obj :=
    fun f text text' => preserves_operands text text' (VmClass.preserves_shiftOp f destReg)
  unfold execute
  -- one branch for each operation, in the order of the chain
  refine .ite (preserves_operand srcReg1 fun val => VmClass.preserves_setReg destReg _) ?_
  refine .ite (hregisters _ _ _) ?_
  refine .ite (himmediate _ _ _) ?_
  refine .ite (hregisters _ _ _) ?_
  refine .ite (hregisters _ _ _) ?_
  refine .ite (himmediate _ _ _) ?_
  refine .ite (hregisters _ _ _) ?_
  refine .ite (preserves_operand _ (VmClass.preserves_mult destReg)) ?_
  refine .ite (preserves_operand _ (VmClass.preserves_divi destReg)) ?_
  refine .ite (hregisters _ _ _) ?_
  refine .ite (.ite (hregisters _ _ _) (himmediate _ _ _)) ?_
  refine .ite (himmediate _ _ _) ?_
  refine .ite (hshift _ _ _) ?_
  refine .ite (hshift _ _ _) ?_
  refine .ite (hregisters _ _ _) ?_
  refine .ite (hregisters _ _ _) ?_
  exact preserves_some

/-- The server's `solve` keeps the registers the same. -/
theorem Server.preserves_solve (line : List Byte) :
    Preserves (SameRegisters p q) (Server.solve line) :=
  .ite preserves_some (.ite (.ite preserves_some preserves_none)
    (preserves_operand _ fun destReg => preserves_execute _ destReg _ _))

/-- **So does its loop.** -/
theorem Server.preserves_execute (lines : List (List Byte)) :
    Preserves (SameRegisters p q) (Server.execute lines) := by
  induction lines with
  | nil => exact preserves_some
  | cons line lines ih => exact .ite ih ((Server.preserves_solve line).andThen ih)

/-- A file of two parts is executed part by part. -/
theorem Server.execute_append (first second : List (List Byte)) (obj : VmClass) :
    Server.execute (first ++ second) obj
      = (Server.execute first obj).bind (Server.execute second) := by
  induction first generalizing obj with
  | nil => rfl
  | cons line lines ih =>
      rw [List.cons_append, Server.execute, Server.execute]
      split
      · exact ih obj
      · rw [Option.bind_assoc]
        exact congrArg _ (funext ih)

/-! ## The client -/

/-- An empty line does not migrate. -/
theorem Migrates.ne_nil {line : List Byte} (h : Migrates line) : line ≠ [] := by
  rintro rfl
  exact absurd h (by decide)

/-- **The client up to its `MIGRATE` line** executes what the server would, and counts the lines that
are not empty. -/
theorem Client.execute_append {before : List (List Byte)} {migrate : List Byte}
    (hbefore : ∀ line ∈ before, ¬ Migrates line) (hmigrate : Migrates migrate)
    (filename : List Byte) (after : List (List Byte)) {s t : VmClass}
    (hregisters : s.registers = t.registers) :
    Client.execute filename (before ++ migrate :: after) s
      = (Server.execute before t).map fun vm => .exits (Client.message
          { registers := vm.registers, pc := s.pc + BitVec.ofNat 32 (before.countP (· ≠ []) + 1) }
          filename) := by
  induction before generalizing s t with
  | nil =>
      rw [List.nil_append, Client.execute, if_neg hmigrate.ne_nil, Client.solve, if_pos hmigrate]
      simp only [Server.execute, Option.map_some, ← hregisters]
      rfl
  | cons line lines ih =>
      obtain ⟨hline, hlines⟩ := List.forall_mem_cons.mp hbefore
      rw [List.cons_append, Client.execute, Server.execute, List.countP_cons]
      by_cases hempty : line = []
      · rw [if_pos hempty, if_pos hempty, ih hlines hregisters, if_neg (by simpa using hempty),
          Nat.add_zero]
      · rw [if_neg hempty, if_neg hempty, Client.solve, if_neg hline, if_pos (by simpa using hempty)]
        have hsame : SameRegisters (s.pc + 1) t.pc { s with pc := s.pc + 1 } t := ⟨hregisters, rfl, rfl⟩
        rcases BudgetedRun.rel_cases (Server.preserves_solve line hsame) with
          ⟨hs, ht⟩ | ⟨s', t', hs, ht, hregisters', hpc, -⟩
        · rw [hs, ht]
          rfl
        · have hcount : s.pc + 1 + BitVec.ofNat 32 (lines.countP (· ≠ []) + 1)
              = s.pc + BitVec.ofNat 32 (lines.countP (· ≠ []) + 1 + 1) := by
            rw [BitVec.add_assoc, BitVec.add_comm 1, BitVec.ofNat_add (lines.countP (· ≠ []) + 1) 1]
            rfl
          rw [hs, ht, Option.bind_some, ← hcount, ← hpc]
          exact ih hlines hregisters'

/-! ## The lines that are executed twice -/

/-- The number of lines the server skips. -/
def skippedLines (before : List (List Byte)) : Nat :=
  (BitVec.ofNat 32 (before.countP (· ≠ []) + 1)).toInt.toNat

/-- The lines up to the `MIGRATE` line that the server does not skip. -/
def executedTwice (before : List (List Byte)) (migrate : List Byte) : List (List Byte) :=
  (before ++ [migrate]).drop (skippedLines before)

/-- Executing `lines` before the rest of the file makes no difference to the registers. -/
def Harmless (lines rest : List (List Byte)) (vm : VmClass) : Prop :=
  (Server.execute (lines ++ rest) vm).map VmClass.registers
    = (Server.execute rest vm).map VmClass.registers

/-- With the message and `garbage` in its buffer, a server that has the client's file, whatever other
files it has, ends with the registers of one machine that executes the file without its `MIGRATE`
line. -/
def Resumes (filename message garbage : List Byte) (before : List (List Byte)) (migrate : List Byte)
    (after : List (List Byte)) (start : VmClass) : Prop :=
  ∀ files : List Byte → List (List Byte), files filename = before ++ migrate :: after →
    (Server.main files (message ++ garbage)).map VmClass.registers
      = (Server.execute (before ++ after) start).map VmClass.registers

/-- No more lines are skipped than the file has up to the `MIGRATE` line. -/
theorem skippedLines_le (before : List (List Byte)) : skippedLines before ≤ before.length + 1 := by
  have hcount : before.countP (· ≠ []) ≤ before.length := List.countP_le_length
  have hmod := Nat.mod_le (before.countP (· ≠ []) + 1) (2 ^ 32)
  rw [skippedLines, BitVec.toInt_eq_toNat_cond, BitVec.toNat_ofNat]
  split <;> omega

/-- The server executes those lines again, and then the rest of the file. -/
theorem drop_skippedLines (before : List (List Byte)) (migrate : List Byte)
    (after : List (List Byte)) :
    (before ++ migrate :: after).drop (skippedLines before)
      = executedTwice before migrate ++ after := by
  have hsplit : before ++ migrate :: after = (before ++ [migrate]) ++ after := by
    rw [List.append_assoc, List.singleton_append]
  have hlen : skippedLines before ≤ (before ++ [migrate]).length := by
    rw [List.length_append, List.length_singleton]
    exact skippedLines_le before
  rw [hsplit, List.drop_append_of_le_length hlen, executedTwice]

/-- **As many lines are executed twice as there are empty lines before the `MIGRATE` line.** -/
theorem length_executedTwice {before : List (List Byte)} (hlen : before.length + 1 < 2 ^ 31)
    (migrate : List Byte) : (executedTwice before migrate).length = before.count [] := by
  have hcount : before.countP (· ≠ []) ≤ before.length := List.countP_le_length
  have hskip : skippedLines before = before.countP (· ≠ []) + 1 := by
    have hmod : (before.countP (· ≠ []) + 1) % 2 ^ 32 = before.countP (· ≠ []) + 1 :=
      Nat.mod_eq_of_lt (by omega)
    rw [skippedLines, BitVec.toInt_eq_toNat_of_lt (by rw [BitVec.toNat_ofNat]; omega),
      BitVec.toNat_ofNat, hmod, Int.toNat_natCast]
  have hlines : before.length = before.countP (· ≠ []) + before.count [] := by
    rw [List.length_eq_countP_add_countP (· ≠ []), List.count]
    congr 2
    funext line
    rcases line with _ | ⟨b, line⟩ <;> rfl
  rw [executedTwice, List.length_drop, List.length_append, List.length_singleton, hskip]
  omega

/-- Where lines are executed twice, the `MIGRATE` line is the last of them. -/
theorem mem_executedTwice {before : List (List Byte)} {migrate : List Byte}
    (h : executedTwice before migrate ≠ []) : migrate ∈ executedTwice before migrate := by
  have hlast : (executedTwice before migrate).getLast h = migrate := by
    simp only [executedTwice, List.getLast_drop, List.getLast_concat]
  have hmem := List.getLast_mem h
  rwa [hlast] at hmem

/-- Without empty lines nothing is executed twice. -/
theorem executedTwice_eq_nil {before : List (List Byte)} (hlen : before.length + 1 < 2 ^ 31)
    (hempty : [] ∉ before) (migrate : List Byte) : executedTwice before migrate = [] := by
  rw [← List.length_eq_zero_iff, length_executedTwice hlen, List.count_eq_zero.mpr hempty]

/-! ## Lines that are no instructions -/

/-- The operations that `solve` tests for behind the operands. -/
def instructionOps : List (List Byte) :=
  [bytes ['l', 'i'], bytes ['a', 'd', 'd'], bytes ['a', 'd', 'd', 'i'], bytes ['a', 'd', 'd', 'u'],
    bytes ['s', 'u', 'b', 'u'], bytes ['a', 'd', 'd', 'i', 'u'], bytes ['m', 'u', 'l'],
    bytes ['m', 'u', 'l', 't'], bytes ['d', 'i', 'v'], bytes ['a', 'n', 'd'], bytes ['o', 'r'],
    bytes ['a', 'n', 'd', 'i'], bytes ['s', 'l', 'l'], bytes ['s', 'r', 'l'], bytes ['s', 'u', 'b'],
    bytes ['x', 'o', 'r']]

/-- The line is an instruction. -/
def IsInstruction (line : List Byte) : Prop := opcodeOf line ∈ instructionOps

instance : DecidablePred IsInstruction := fun _ => inferInstanceAs (Decidable (_ ∈ _))

/-- The first operand of a line. -/
def operandOf (line : List Byte) : List Byte :=
  (getline comma [] (getline space [] (ofText line)).2).1

/-- What the server asks of a line that is no instruction: nothing of a dump, a blank in a snapshot, and
else a number as first operand. -/
def hasOperand (line : List Byte) : Bool :=
  if opcodeOf line = dumpProcessorState then true
  else if opcodeOf line = snapshotOp then line.contains space
  else (stoi (afterDollar (operandOf line))).isSome

/-- An operation that is not tested for does nothing. -/
theorem execute_of_notMem {opcode : List Byte} (h : opcode ∉ instructionOps) (destReg : Int)
    (srcReg1 srcReg2 : List Byte) (obj : VmClass) :
    execute opcode destReg srcReg1 srcReg2 obj = some obj := by
  simp only [instructionOps, List.mem_cons, List.not_mem_nil, or_false, not_or] at h
  obtain ⟨h₁, h₂, h₃, h₄, h₅, h₆, h₇, h₈, h₉, h₁₀, h₁₁, h₁₂, h₁₃, h₁₄, h₁₅, h₁₆⟩ := h
  rw [execute, if_neg h₁, if_neg h₂, if_neg h₃, if_neg h₄, if_neg h₅, if_neg h₆, if_neg h₇, if_neg h₈,
    if_neg h₉, if_neg h₁₀, if_neg h₁₁, if_neg h₁₂, if_neg h₁₃, if_neg h₁₄, if_neg h₁₅, if_neg h₁₆]
  rfl

/-- **A line that is no instruction** leaves the machine, if it has its operand. -/
theorem Server.solve_of_not_isInstruction {line : List Byte} (h : ¬ IsInstruction line)
    (obj : VmClass) : Server.solve line obj = if hasOperand line then some obj else none := by
  unfold IsInstruction opcodeOf at h
  unfold Server.solve hasOperand opcodeOf operandOf
  generalize getline space [] (ofText line) = read at h ⊢
  obtain ⟨opcode, ss⟩ := read
  by_cases hdump : opcode = dumpProcessorState
  · simp only [if_pos hdump, if_true]
  by_cases hsnapshot : opcode = snapshotOp
  · simp only [if_neg hdump, if_pos hsnapshot]
  · simp only [if_neg hdump, if_neg hsnapshot, solveOperands]
    generalize getline comma [] ss = read
    obtain ⟨destRegister, ss⟩ := read
    cases hdest : stoi (afterDollar destRegister) with
    | none => simp [hdest]
    | some destReg =>
        simp only [hdest, Option.bind_eq_bind, Option.bind_some, Option.isSome_some, if_true]
        exact execute_of_notMem h destReg _ _ obj

/-- Lines that have been executed are executed one by one. -/
theorem Server.exists_solve_of_execute {lines : List (List Byte)} {obj obj' : VmClass}
    (h : Server.execute lines obj = some obj') {line : List Byte} (hline : line ∈ lines)
    (hempty : line ≠ []) : ∃ t t', Server.solve line t = some t' := by
  induction lines generalizing obj with
  | nil => cases hline
  | cons first lines ih =>
      rw [Server.execute] at h
      split at h
      · rename_i hfirst
        rcases List.mem_cons.mp hline with rfl | hline
        · exact absurd hfirst hempty
        · exact ih h hline
      · obtain ⟨between, hsolve, h⟩ := Option.bind_eq_some_iff.mp h
        rcases List.mem_cons.mp hline with rfl | hline
        · exact ⟨obj, between, hsolve⟩
        · exact ih h hline

/-- So one that is no instruction has its operand. -/
theorem hasOperand_of_execute {lines : List (List Byte)} {obj obj' : VmClass}
    (h : Server.execute lines obj = some obj') {line : List Byte} (hline : line ∈ lines)
    (hempty : line ≠ []) (hinstruction : ¬ IsInstruction line) : hasOperand line := by
  obtain ⟨t, t', hsolve⟩ := Server.exists_solve_of_execute h hline hempty
  rw [Server.solve_of_not_isInstruction hinstruction] at hsolve
  by_contra hoperand
  rw [if_neg hoperand] at hsolve
  cases hsolve

/-- Lines that are no instructions leave the machine. -/
theorem Server.execute_of_not_isInstruction {lines : List (List Byte)}
    (h : ∀ line ∈ lines, ¬ IsInstruction line)
    (hoperand : ∀ line ∈ lines, line ≠ [] → hasOperand line) (obj : VmClass) :
    Server.execute lines obj = some obj := by
  induction lines with
  | nil => rfl
  | cons line lines ih =>
      obtain ⟨hline, hlines⟩ := List.forall_mem_cons.mp h
      obtain ⟨hfirst, hrest⟩ := List.forall_mem_cons.mp hoperand
      rw [Server.execute]
      by_cases hempty : line = []
      · rw [if_pos hempty]
        exact ih hlines hrest
      · rw [if_neg hempty, Server.solve_of_not_isInstruction hline, if_pos (hfirst hempty),
          Option.bind_some]
        exact ih hlines hrest

/-- `MIGRATE` is no instruction. -/
theorem Migrates.not_isInstruction {line : List Byte} (h : Migrates line) : ¬ IsInstruction line := by
  rw [IsInstruction, h.1]
  decide

/-- **Where no instruction is executed twice**, executing lines twice does no harm. -/
theorem harmless_of_repeatsNoInstruction {before : List (List Byte)} {migrate : List Byte}
    {start vm : VmClass} (hvm : Server.execute before start = some vm)
    (hinstruction : ∀ line ∈ executedTwice before migrate, ¬ IsInstruction line)
    (hoperand : executedTwice before migrate ≠ [] → hasOperand migrate) (after : List (List Byte)) :
    Harmless (executedTwice before migrate) after vm := by
  rw [Harmless, Server.execute_append,
    Server.execute_of_not_isInstruction hinstruction (fun line hline hempty => ?_), Option.bind_some]
  -- the lines before `MIGRATE` have been executed on the client
  have hmem : line ∈ before ++ [migrate] := List.mem_of_mem_drop hline
  rcases List.mem_append.mp hmem with hmem | hmem
  · exact hasOperand_of_execute hvm hmem hempty (hinstruction line hline)
  · rw [List.mem_singleton.mp hmem]
    exact hoperand (List.ne_nil_of_mem hline)

/-- Where it does no harm, the `MIGRATE` line can be executed. -/
theorem hasOperand_of_harmless {before after : List (List Byte)} {migrate : List Byte} {vm : VmClass}
    (hmigrate : Migrates migrate) (hharmless : Harmless (executedTwice before migrate) after vm)
    (hrest : (Server.execute after vm).isSome) (hrepeated : executedTwice before migrate ≠ []) :
    hasOperand migrate := by
  obtain ⟨rest, hrest⟩ := Option.isSome_iff_exists.mp hrest
  rw [Harmless, hrest, Option.map_some, Server.execute_append, Option.map_eq_some_iff] at hharmless
  obtain ⟨vm', hexecute, -⟩ := hharmless
  obtain ⟨between, hbetween, -⟩ := Option.bind_eq_some_iff.mp hexecute
  exact hasOperand_of_execute hbetween (mem_executedTwice hrepeated) hmigrate.ne_nil
    hmigrate.not_isInstruction

/-! ## Resuming -/

section Migration

variable {filename message garbage migrate : List Byte} {before after : List (List Byte)}
  {start : VmClass}

/-- The client that sends its message has executed the lines up to the `MIGRATE` line. -/
theorem Client.exists_of_sent (hpc : start.pc = 0) (hbefore : ∀ line ∈ before, ¬ Migrates line)
    (hmigrate : Migrates migrate)
    (hsent : Client.execute filename (before ++ migrate :: after) start = some (.exits message)) :
    ∃ vm, Server.execute before start = some vm ∧ message = Client.message
      { registers := vm.registers, pc := BitVec.ofNat 32 (before.countP (· ≠ []) + 1) } filename := by
  rw [Client.execute_append hbefore hmigrate filename after rfl, Option.map_eq_some_iff] at hsent
  obtain ⟨vm, hvm, hmessage⟩ := hsent
  have hzero : ∀ w : Word, 0 + w = w := fun w => BitVec.zero_add w
  rw [hpc, hzero] at hmessage
  exact ⟨vm, hvm, (Client.Step.exits.inj hmessage).symm⟩

/-- A server with the client's file executes the lines that are executed twice, and then the rest. -/
theorem Server.main_eq {vm : VmClass} (files : List Byte → List (List Byte))
    (hmessage : message = Client.message
      { registers := vm.registers, pc := BitVec.ofNat 32 (before.countP (· ≠ []) + 1) } filename)
    (hfile : files (readName filename garbage) = before ++ migrate :: after) :
    (Server.main files (message ++ garbage)).map VmClass.registers
      = (Server.execute (executedTwice before migrate ++ after) vm).map VmClass.registers := by
  have hsame : SameRegisters _ vm.pc
      { registers := vm.registers, pc := BitVec.ofNat 32 (before.countP (· ≠ []) + 1) } vm :=
    ⟨rfl, rfl, rfl⟩
  rw [hmessage, Server.main_message, hfile]
  exact (congrArg _ (congrArg (Server.execute · _) (drop_skippedLines before migrate after))).trans
    ((Server.preserves_execute _).map_eq (fun _ _ h => h.registers) hsame)

/-- The operation of a line ends at its first blank. -/
theorem opcodeOf_append {op : List Byte} (h : space ∉ op) (operands : List Byte) :
    opcodeOf (op ++ space :: operands) = op := by
  rw [opcodeOf, getline_ofText h]

/-- The server handles an instruction as the legacy interpreter does. -/
theorem Server.solve_eq_solve {line : List Byte} (h : opcodeOf line ≠ snapshotOp) (obj : VmClass) :
    Server.solve line obj = VmmShowcase.solve line obj := by
  rw [Server.solve, VmmShowcase.solve]
  exact if_congr Iff.rfl rfl (if_neg h)

/-- A file with one `li` loads its immediate. -/
theorem Server.execute_li (rd : Fin 32) (imm : Word) (obj : VmClass) :
    Server.execute [(SharedInstruction.li rd imm).line 0 0 0] obj
      = some { obj with registers := Function.update obj.registers rd imm } := by
  have hop : opcodeOf ((SharedInstruction.li rd imm).line 0 0 0) = bytes ['l', 'i'] :=
    opcodeOf_append (by decide) _
  have hne : (SharedInstruction.li rd imm).line 0 0 0 ≠ [] := List.cons_ne_nil _ _
  have hsolve : Server.solve ((SharedInstruction.li rd imm).line 0 0 0) obj
      = some { obj with registers := Function.update obj.registers rd imm } := by
    rw [Server.solve_eq_solve (by rw [hop]; decide), solve_line]
    simp [SharedInstruction.run, VmClass.li, VmClass.setReg]
  rw [Server.execute, if_neg hne, hsolve]
  rfl

/-- **Where a name is extracted that was not sent**, a file of that name leads the server astray. -/
theorem Server.exists_files_of_readName_ne (hname : readName filename garbage ≠ filename)
    (lines : List (List Byte)) (obj : VmClass) (result : Option VmClass) :
    ∃ files : List Byte → List (List Byte), files filename = lines ∧
      (Server.main files (Client.message obj filename ++ garbage)).map VmClass.registers
        ≠ result.map VmClass.registers := by
  -- the file that is opened ends with an instruction that spoils register 0
  have hfiles : ∀ misleading : List (List Byte), ∃ files : List Byte → List (List Byte),
      files filename = lines ∧ files (readName filename garbage) = misleading := fun misleading =>
    ⟨fun name => if name = filename then lines else misleading, if_pos rfl, if_neg hname⟩
  rcases result with _ | after
  · obtain ⟨files, hfile, hmisleading⟩ := hfiles []
    refine ⟨files, hfile, ?_⟩
    rw [Server.main_message, hmisleading, List.drop_nil]
    exact Option.some_ne_none _
  · have hskip : ∀ k (line : List Byte), (List.replicate k [] ++ [line]).drop k = [line] :=
      fun k line => List.drop_left' List.length_replicate
    obtain ⟨files, hfile, hmisleading⟩ := hfiles (List.replicate obj.pc.toInt.toNat []
      ++ [(SharedInstruction.li 0 (after.registers 0 + 1)).line 0 0 0])
    refine ⟨files, hfile, ?_⟩
    rw [Server.main_message, hmisleading, hskip, Server.execute_li, Option.map_some, Option.map_some]
    intro heq
    have hzero : Function.update obj.registers 0 (after.registers 0 + 1) 0 = after.registers 0 :=
      congrFun (Option.some.inj heq) 0
    rw [Function.update_self] at hzero
    simp at hzero

/-- The server that gets the message of the state `vm` resumes exactly when it extracts the name that
was sent, and the lines that are executed twice do no harm in that state. -/
theorem resumes_message_iff {vm : VmClass} (hvm : Server.execute before start = some vm)
    (hmessage : message = Client.message
      { registers := vm.registers, pc := BitVec.ofNat 32 (before.countP (· ≠ []) + 1) } filename) :
    Resumes filename message garbage before migrate after start ↔
      readName filename garbage = filename ∧ Harmless (executedTwice before migrate) after vm := by
  have hreference : Server.execute (before ++ after) start = Server.execute after vm := by
    rw [Server.execute_append, hvm, Option.bind_some]
  constructor
  · intro hresumes
    have hname : readName filename garbage = filename := by
      by_contra hne
      obtain ⟨files, hfile, hmain⟩ := Server.exists_files_of_readName_ne hne
        (before ++ migrate :: after) { registers := vm.registers, pc := _ }
        (Server.execute (before ++ after) start)
      rw [← hmessage] at hmain
      exact hmain (hresumes files hfile)
    have hmain := hresumes (fun _ => before ++ migrate :: after) rfl
    rw [Server.main_eq _ hmessage rfl, hreference] at hmain
    exact ⟨hname, hmain⟩
  · rintro ⟨hname, hharmless⟩ files hfile
    rw [Server.main_eq files hmessage (by rw [hname, hfile]), hreference]
    exact hharmless

end Migration

/-- A line that adds 1 to register 1. -/
def incrementLine : List Byte :=
  bytes ['a', 'd', 'd', 'i', ' ', '$', '1', ',', ' ', '$', '1', ',', ' ', '1']

/-- The client that has incremented register 1. -/
def incremented : VmClass := { registers := fun i => if i.val = 1 then 1 else 0, pc := 2 }

end VmmShowcase
