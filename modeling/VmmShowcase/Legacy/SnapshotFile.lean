import VmmShowcase.Foundations.LookupTable
import VmmShowcase.Legacy.Agreement
import VmmShowcase.Legacy.Migration

/-! # The legacy snapshots

`src/homework1.cc` executes instructions as `src/project.cc` does, writes a machine into a file at a
`SNAPSHOT` line, and loads such files with `load_Snapshot`, which tells the lines of a file apart by the
texts it finds in them. -/

namespace VmmShowcase

open Text TextStream

/-- The equals sign. -/
def equals : Byte := ascii '='

/-- The digits of the register that a line names, behind its first `R` and up to its first equals sign.
If that stands before the `R`, or is missing, the length wraps around and all that follows the `R` is
taken. -/
def registerDigits (line : List Byte) : List Byte :=
  let behindR := (line.dropWhile (· ≠ ascii 'R')).tail
  if (line.takeWhile (· ≠ ascii 'R')).contains equals then behindR
  else behindR.takeWhile (· ≠ equals)

namespace VmClass

/-- The line of a register, in a snapshot and where a machine is dumped. -/
def registerLine (obj : VmClass) (i : Fin 32) : List Byte :=
  ascii 'R' :: (decimal i ++ equals :: signedDecimal (obj.registers i).toInt)

/-- The line of `hi`. -/
def hiLine (obj : VmClass) : List Byte :=
  bytes ['h', 'i'] ++ equals :: signedDecimal obj.hi.toInt

/-- The line of `low`. -/
def lowLine (obj : VmClass) : List Byte :=
  bytes ['l', 'o', 'w'] ++ equals :: signedDecimal obj.low.toInt

end VmClass

namespace Homework1

/-- `VmClass`. It has no `pc` in this program, which leaves the one it inherits here alone. -/
structure VmClass extends VmmShowcase.VmClass where
  vm_exec_slice_in_instructions : Word
  vm_binary : List Byte
  name : List Byte
  deriving DecidableEq

/-- What `SNAPSHOT` writes. -/
def snapshotText (obj : VmClass) : List Byte :=
  (List.finRange 32).flatMap (fun i => obj.registerLine i ++ [newline])
    ++ ((obj.hiLine ++ [newline]) ++ (obj.lowLine ++ [newline]))

/-- `solve`, in a directory with some files. `opens` says which paths can be opened for writing; where
one cannot be, nothing is written. The tokens of a `SNAPSHOT` line are indexed unchecked. -/
def solve (opens : List Byte → Bool) (instructionsfileline : List Byte) (obj : VmClass)
    (files : Table (List Byte) (List Byte)) : Option (VmClass × Table (List Byte) (List Byte)) :=
  let (opcode, ss) := getline space [] (ofText instructionsfileline)
  if opcode = dumpProcessorState then some (obj, files)
  else if opcode = snapshotOp then
    (instructionsfileline.splitOn space)[1]?.map fun path =>
      (obj, if opens path then files.insert path (snapshotText obj) else files)
  else (solveOperands opcode ss obj.toVmClass).map fun vm => ({ obj with toVmClass := vm }, files)

/-- The body of the loop of `load_Snapshot`. -/
def loadLine (obj : VmClass) (line : List Byte) : Option VmClass :=
  if line.contains (ascii 'R') then do
    let reg_num ← stoi (registerDigits line)
    let value ← stoi (afterMark equals line)
    let i ← CpuState.registerIndex reg_num
    return { obj with registers := Function.update obj.registers i (BitVec.ofInt 32 value) }
  else if bytes ['h', 'i', '='] <:+: line then do
    let value ← stoi (afterMark equals line)
    return { obj with hi := BitVec.ofInt 32 value }
  else if bytes ['l', 'o', 'w', '='] <:+: line then do
    let value ← stoi (afterMark equals line)
    return { obj with low := BitVec.ofInt 32 value }
  else some obj

/-- `load_Snapshot`. From a file that is not found no line is read. -/
def loadSnapshot (files : Table (List Byte) (List Byte)) (filename : List Byte) (obj : VmClass) :
    Option VmClass :=
  match files filename with
  | none => some obj
  | some text => (ofText text).linesLeft.foldlM loadLine obj

/-! ## The values of the lines -/

/-- A printed value is converted. -/
theorem stoi_signedDecimal (value : Word) : stoi (signedDecimal value.toInt) = some value.toInt :=
  stoi_immediateText 0 value

/-- The value of a line stands behind its first equals sign. -/
theorem stoi_afterMark {label : List Byte} (h : equals ∉ label) (value : Word) :
    stoi (afterMark equals (label ++ equals :: signedDecimal value.toInt)) = some value.toInt := by
  rw [afterMark_append h, stoi_signedDecimal]

/-- Behind its label a line has nothing but an equals sign and a printed integer. -/
theorem notMem_line {label : List Byte} {b : Byte} (hlabel : b ∉ label) (hequals : b ≠ equals)
    (hdigit : ¬ IsDigit b) (hminus : b ≠ ascii '-') (value : Word) :
    b ∉ label ++ equals :: signedDecimal value.toInt := by
  rw [List.mem_append, List.mem_cons, not_or, not_or]
  exact ⟨hlabel, hequals, notMem_signedDecimal hdigit hminus value.toInt⟩

/-- The label of a register is an `R` and its number. -/
theorem registerLine_eq (obj : VmClass) (i : Fin 32) : obj.registerLine i
    = (ascii 'R' :: decimal i) ++ equals :: signedDecimal (obj.registers i).toInt := rfl

/-- What the label of a register does not contain. -/
theorem notMem_registerLabel {b : Byte} (hR : b ≠ ascii 'R') (hdigit : ¬ IsDigit b) (i : Fin 32) :
    b ∉ ascii 'R' :: decimal i := by
  rw [List.mem_cons, not_or]
  exact ⟨hR, notMem_decimal hdigit i⟩

/-- The digits of a register's line are its number. -/
theorem registerDigits_registerLine (obj : VmClass) (i : Fin 32) :
    registerDigits (obj.registerLine i) = decimal i := by
  have hbefore : (obj.registerLine i).takeWhile (· ≠ ascii 'R') = [] :=
    takeWhile_append_mark List.not_mem_nil _
  have hbehind : ((obj.registerLine i).dropWhile (· ≠ ascii 'R')).tail
      = decimal i ++ equals :: signedDecimal (obj.registers i).toInt :=
    congrArg List.tail (dropWhile_append_mark List.not_mem_nil _)
  rw [registerDigits, hbefore, hbehind]
  exact takeWhile_append_mark (notMem_decimal (by decide) i) _

/-! ## Loading the lines -/

/-- The line of a register sets that register. -/
theorem loadLine_registerLine (obj target : VmClass) (i : Fin 32) :
    loadLine target (obj.registerLine i)
      = some { target with registers := Function.update target.registers i (obj.registers i) } := by
  have hR : (obj.registerLine i).contains (ascii 'R') = true :=
    List.contains_iff_mem.mpr (List.mem_cons_self ..)
  have hnumber : stoi (registerDigits (obj.registerLine i)) = some (i : Int) := by
    rw [registerDigits_registerLine]
    have hstoi := stoi_decimal i blank_nil undigited_nil
    rwa [List.nil_append, List.append_nil] at hstoi
  have hvalue : stoi (afterMark equals (obj.registerLine i)) = some (obj.registers i).toInt := by
    rw [registerLine_eq]
    exact stoi_afterMark (notMem_registerLabel (by decide) (by decide) i) _
  rw [loadLine, if_pos hR, hnumber, hvalue]
  simp

/-- The line of `hi` sets `hi`. -/
theorem loadLine_hiLine (obj target : VmClass) :
    loadLine target obj.hiLine = some { target with hi := obj.hi } := by
  have hR : ¬ obj.hiLine.contains (ascii 'R') = true := by
    rw [List.contains_iff_mem]
    exact notMem_line (by decide) (by decide) (by decide) (by decide) _
  have hhi : bytes ['h', 'i', '='] <:+: obj.hiLine :=
    ⟨[], signedDecimal obj.hi.toInt, rfl⟩
  have hvalue : stoi (afterMark equals obj.hiLine) = some obj.hi.toInt :=
    stoi_afterMark (by decide) _
  rw [loadLine, if_neg hR, if_pos hhi, hvalue]
  simp

/-- The line of `low` sets `low`. -/
theorem loadLine_lowLine (obj target : VmClass) :
    loadLine target obj.lowLine = some { target with low := obj.low } := by
  have hR : ¬ obj.lowLine.contains (ascii 'R') = true := by
    rw [List.contains_iff_mem]
    exact notMem_line (by decide) (by decide) (by decide) (by decide) _
  have hhi : ¬ bytes ['h', 'i', '='] <:+: obj.lowLine := by
    intro h
    have hh : ascii 'h' ∈ obj.lowLine := h.subset (by decide)
    exact notMem_line (by decide) (by decide) (by decide) (by decide) _ hh
  have hlow : bytes ['l', 'o', 'w', '='] <:+: obj.lowLine :=
    ⟨[], signedDecimal obj.low.toInt, rfl⟩
  have hvalue : stoi (afterMark equals obj.lowLine) = some obj.low.toInt :=
    stoi_afterMark (by decide) _
  rw [loadLine, if_neg hR, if_neg hhi, if_pos hlow, hvalue]
  simp

/-- Setting entries one after the other makes a function, if the others have its values already. -/
theorem foldl_update {ι α : Type} [DecidableEq ι] {f : ι → α} {is : List ι} {g : ι → α}
    (h : ∀ i, i ∉ is → g i = f i) : is.foldl (fun g i => Function.update g i (f i)) g = f := by
  induction is generalizing g with
  | nil => exact funext fun i => h i List.not_mem_nil
  | cons i is ih =>
      rw [List.foldl_cons]
      apply ih
      intro j hj
      by_cases hij : j = i
      · rw [hij, Function.update_self]
      · rw [Function.update_of_ne hij]
        exact h j fun hmem => (List.mem_cons.mp hmem).elim hij hj

/-- The lines of registers set those registers. -/
theorem foldlM_registerLine (obj target : VmClass) (is : List (Fin 32)) :
    (is.map obj.registerLine).foldlM loadLine target = some { target with
      registers := is.foldl (fun regs i => Function.update regs i (obj.registers i))
        target.registers } := by
  induction is generalizing target with
  | nil => rfl
  | cons i is ih =>
      rw [List.map_cons, List.foldlM_cons, loadLine_registerLine]
      exact ih _

/-! ## The round trip -/

/-- The lines of a snapshot. -/
theorem linesLeft_snapshotText (obj : VmClass) : (ofText (snapshotText obj)).linesLeft
    = (List.finRange 32).map obj.registerLine ++ [obj.hiLine, obj.lowLine] := by
  have hregisters : ∀ i, newline ∉ obj.registerLine i := fun i => by
    rw [registerLine_eq]
    exact notMem_line (notMem_registerLabel (by decide) (by decide) i) (by decide) (by decide)
      (by decide) _
  have hhi : newline ∉ obj.hiLine :=
    notMem_line (by decide) (by decide) (by decide) (by decide) _
  have hlow : newline ∉ obj.lowLine :=
    notMem_line (by decide) (by decide) (by decide) (by decide) _
  rw [snapshotText, linesLeft_flatMap hregisters, List.append_assoc, List.singleton_append,
    linesLeft_ofText_append hhi, linesLeft_ofText_append hlow, linesLeft_ofText_nil]

/-- **A snapshot is loaded into any machine**: its registers, `hi` and `low`, and nothing else. -/
theorem foldlM_snapshotText (obj target : VmClass) :
    (ofText (snapshotText obj)).linesLeft.foldlM loadLine target
      = some { target with registers := obj.registers, hi := obj.hi, low := obj.low } := by
  have hregisters : (List.finRange 32).foldl
      (fun regs i => Function.update regs i (obj.registers i)) target.registers = obj.registers :=
    foldl_update fun i hi => absurd (List.mem_finRange i) hi
  rw [linesLeft_snapshotText, List.foldlM_append, foldlM_registerLine, hregisters, Option.bind_eq_bind,
    Option.bind_some, List.foldlM_cons, loadLine_hiLine, Option.bind_eq_bind, Option.bind_some,
    List.foldlM_cons, loadLine_lowLine]
  rfl

/-- **The file that `SNAPSHOT` writes** restores the saved machine in any other, and `SNAPSHOT` changes
nothing else. -/
theorem loadSnapshot_solve {opens : List Byte → Bool} {line path : List Byte}
    (hop : opcodeOf line = snapshotOp) (hpath : (line.splitOn space)[1]? = some path)
    (hopens : opens path = true) (obj : VmClass) (files : Table (List Byte) (List Byte)) :
    ∃ files', solve opens line obj files = some (obj, files')
      ∧ (∀ other, other ≠ path → files' other = files other)
      ∧ ∀ target, loadSnapshot files' path target
        = some { target with registers := obj.registers, hi := obj.hi, low := obj.low } := by
  refine ⟨files.insert path (snapshotText obj), ?_, ?_, ?_⟩
  · rw [solve]
    -- the operation of the line is `SNAPSHOT`, whatever the stream behind it
    generalize hread : getline space [] (ofText line) = read
    obtain ⟨opcode, ss⟩ := read
    have hopcode : opcode = snapshotOp := by
      rw [← hop, opcodeOf, hread]
    have hdump : opcode ≠ dumpProcessorState := by
      rw [hopcode]
      decide
    show (if opcode = dumpProcessorState then _ else if opcode = snapshotOp then _ else _) = _
    rw [if_neg hdump, if_pos hopcode, hpath, Option.map_some, if_pos hopens]
  · exact fun other hother => Table.insert_of_ne files _ hother
  · intro target
    rw [loadSnapshot, Table.insert_self]
    exact foldlM_snapshotText obj target

/-- A machine with negative values. -/
def negativeMachine : VmClass where
  registers := fun i => -BitVec.ofNat 32 i.val
  hi := -1
  low := -2147483648
  vm_exec_slice_in_instructions := 100
  vm_binary := bytes ['p']
  name := bytes ['v', 'm', '1']

/-- A snapshot of negative values in an empty directory. -/
theorem loadSnapshot_solve_negativeMachine : ∃ files',
    solve (fun _ => true) (snapshotOp ++ space :: bytes ['s']) negativeMachine Table.empty
        = some (negativeMachine, files')
      ∧ (∀ other, other ≠ bytes ['s'] → files' other = Table.empty other)
      ∧ ∀ target, loadSnapshot files' (bytes ['s']) target = some { target with
        registers := negativeMachine.registers
        hi := negativeMachine.hi
        low := negativeMachine.low } :=
  loadSnapshot_solve (by decide) (by decide) rfl negativeMachine Table.empty

end Homework1

end VmmShowcase
