import VmmShowcase.Foundations.TextStream
import VmmShowcase.Vm.VirtualMachine

/-! # The legacy interpreter

`src/project.cc`. It executes the text of an instruction directly: the operation up to the first
blank, then operands up to commas, each register the number behind its first dollar sign. As in the
newer machine, an index outside the register file has no meaning (`none`) and signed arithmetic wraps,
the least number divided by -1 included; a shift by 32 or more has no meaning either, and `none` is also
where `std::stoi` throws and where a division by zero ends the program. -/

namespace VmmShowcase

open Text TextStream

/-- `VmClass`. The programs that migrate a machine count `solve` calls in `pc`. -/
structure VmClass where
  registers : RegisterFile := fun _ => 0
  hi : Word := 0
  low : Word := 0
  pc : Word := 0
  deriving DecidableEq

namespace VmClass

/-- `registers[idx]`, read. -/
def reg (obj : VmClass) (idx : Int) : Option Word :=
  (CpuState.registerIndex idx).map obj.registers

/-- `registers[idx]`, written. -/
def setReg (obj : VmClass) (idx : Int) (value : Word) : Option VmClass :=
  (CpuState.registerIndex idx).map fun i =>
    { obj with registers := Function.update obj.registers i value }

/-- The instructions on two registers. -/
def registerOp (f : Word → Word → Word) (rd rs rt : Int) (obj : VmClass) : Option VmClass := do
  obj.setReg rd (f (← obj.reg rs) (← obj.reg rt))

/-- The instructions on a register and an immediate. -/
def immediateOp (f : Word → Word → Word) (rt rs immediate : Int) (obj : VmClass) : Option VmClass := do
  obj.setReg rt (f (← obj.reg rs) (BitVec.ofInt 32 immediate))

/-- The shifts; an `int` has 32 bits. -/
def shiftOp (f : Word → Nat → Word) (rd rt imm : Int) (obj : VmClass) : Option VmClass := do
  let amount := (BitVec.ofInt 32 imm).toNat
  if amount < 32 then obj.setReg rd (f (← obj.reg rt) amount) else none

/-- `li`. -/
def li (rs val : Int) (obj : VmClass) : Option VmClass := obj.setReg rs (BitVec.ofInt 32 val)

/-- `add`. -/
def add : Int → Int → Int → VmClass → Option VmClass := registerOp (· + ·)

/-- `xorop`. -/
def xorop : Int → Int → Int → VmClass → Option VmClass := registerOp (· ^^^ ·)

/-- `sub`. -/
def sub : Int → Int → Int → VmClass → Option VmClass := registerOp (· - ·)

/-- `addi`. -/
def addi : Int → Int → Int → VmClass → Option VmClass := immediateOp (· + ·)

/-- `addu`, on the same bits as `add`. -/
def addu : Int → Int → Int → VmClass → Option VmClass := registerOp (· + ·)

/-- `subu`, on the same bits as `sub`. -/
def subu : Int → Int → Int → VmClass → Option VmClass := registerOp (· - ·)

/-- `addiu`, on the same bits as `addi`. -/
def addiu : Int → Int → Int → VmClass → Option VmClass := immediateOp (· + ·)

/-- `mul`; masking the product with 32 ones does nothing to an `int`. -/
def mul : Int → Int → Int → VmClass → Option VmClass :=
  registerOp fun a b => a * b &&& 0xffffffff

/-- `mult`: the halves of the 64-bit product. -/
def mult (rs rt : Int) (obj : VmClass) : Option VmClass := do
  let result : BitVec 64 := (← obj.reg rs).signExtend 64 * (← obj.reg rt).signExtend 64
  return { obj with hi := (result.sshiftRight 32).setWidth 32, low := result.setWidth 32 }

/-- `divi`; it ends the program where the divisor is zero. -/
def divi (rs rt : Int) (obj : VmClass) : Option VmClass := do
  let divisor ← obj.reg rt
  if divisor = 0 then none
  else
    let dividend ← obj.reg rs
    return { obj with low := dividend.sdiv divisor, hi := dividend.srem divisor }

/-- `AND`. -/
def AND : Int → Int → Int → VmClass → Option VmClass := registerOp (· &&& ·)

/-- `OR`. -/
def OR : Int → Int → Int → VmClass → Option VmClass := registerOp (· ||| ·)

/-- `ANDI`. -/
def ANDI : Int → Int → Int → VmClass → Option VmClass := immediateOp (· &&& ·)

/-- `ORI`. -/
def ORI : Int → Int → Int → VmClass → Option VmClass := immediateOp (· ||| ·)

/-- `SLL`. -/
def SLL : Int → Int → Int → VmClass → Option VmClass := shiftOp (· <<< ·)

/-- `SRL`; on an `int` the operator shifts in copies of the sign. -/
def SRL : Int → Int → Int → VmClass → Option VmClass := shiftOp fun a n => a.sshiftRight n

end VmClass

/-- The comma. -/
def comma : Byte := ascii ','

/-- The text behind the first dollar sign, and the whole text if there is none: `find` gives `npos`, and
`npos + 1` is 0. -/
def afterDollar (text : List Byte) : List Byte := afterMark (ascii '$') text

/-- The chain of tests for the operation in `solve`. -/
def execute (opcode : List Byte) (destReg : Int) (srcReg1 srcReg2 : List Byte) (obj : VmClass) :
    Option VmClass := do
  if opcode = bytes ['l', 'i'] then obj.li destReg (← stoi srcReg1)
  else if opcode = bytes ['a', 'd', 'd'] then
    obj.add destReg (← stoi (afterDollar srcReg1)) (← stoi (afterDollar srcReg2))
  else if opcode = bytes ['a', 'd', 'd', 'i'] then
    obj.addi destReg (← stoi (afterDollar srcReg1)) (← stoi srcReg2)
  else if opcode = bytes ['a', 'd', 'd', 'u'] then
    obj.addu destReg (← stoi (afterDollar srcReg1)) (← stoi (afterDollar srcReg2))
  else if opcode = bytes ['s', 'u', 'b', 'u'] then
    obj.subu destReg (← stoi (afterDollar srcReg1)) (← stoi (afterDollar srcReg2))
  else if opcode = bytes ['a', 'd', 'd', 'i', 'u'] then
    obj.addiu destReg (← stoi (afterDollar srcReg1)) (← stoi srcReg2)
  else if opcode = bytes ['m', 'u', 'l'] then
    obj.mul destReg (← stoi (afterDollar srcReg1)) (← stoi (afterDollar srcReg2))
  else if opcode = bytes ['m', 'u', 'l', 't'] then
    obj.mult destReg (← stoi (afterDollar srcReg1))
  else if opcode = bytes ['d', 'i', 'v'] then
    obj.divi destReg (← stoi (afterDollar srcReg1))
  else if opcode = bytes ['a', 'n', 'd'] then
    obj.AND destReg (← stoi (afterDollar srcReg1)) (← stoi (afterDollar srcReg2))
  else if opcode = bytes ['o', 'r'] then
    if ascii '$' ∈ srcReg2 then
      obj.OR destReg (← stoi (afterDollar srcReg1)) (← stoi (afterDollar srcReg2))
    else obj.ORI destReg (← stoi (afterDollar srcReg1)) (← stoi srcReg2)
  else if opcode = bytes ['a', 'n', 'd', 'i'] then
    obj.ANDI destReg (← stoi (afterDollar srcReg1)) (← stoi srcReg2)
  else if opcode = bytes ['s', 'l', 'l'] then
    obj.SLL destReg (← stoi (afterDollar srcReg1)) (← stoi srcReg2)
  else if opcode = bytes ['s', 'r', 'l'] then
    obj.SRL destReg (← stoi (afterDollar srcReg1)) (← stoi srcReg2)
  else if opcode = bytes ['s', 'u', 'b'] then
    obj.sub destReg (← stoi (afterDollar srcReg1)) (← stoi (afterDollar srcReg2))
  else if opcode = bytes ['x', 'o', 'r'] then
    obj.xorop destReg (← stoi (afterDollar srcReg1)) (← stoi (afterDollar srcReg2))
  else return obj

/-- `solve` behind the operation. -/
def solveOperands (opcode : List Byte) (ss : TextStream) (obj : VmClass) : Option VmClass := do
  let (destRegister, ss) := getline comma [] ss
  let destReg ← stoi (afterDollar destRegister)
  let (srcReg1, ss) := getline comma [] ss
  let (srcReg2, _) := getline newline [] ss
  execute opcode destReg srcReg1 srcReg2 obj

/-- `DUMP_PROCESSOR_STATE`. -/
def dumpProcessorState : List Byte :=
  bytes ['D', 'U', 'M', 'P', '_', 'P', 'R', 'O', 'C', 'E', 'S', 'S', 'O', 'R', '_', 'S', 'T', 'A', 'T',
    'E']

/-- `solve`. -/
def solve (instructionsfileline : List Byte) (obj : VmClass) : Option VmClass :=
  let (opcode, ss) := getline space [] (ofText instructionsfileline)
  if opcode = dumpProcessorState then some obj else solveOperands opcode ss obj

end VmmShowcase
