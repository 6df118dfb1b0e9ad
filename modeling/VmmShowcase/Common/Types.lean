import Mathlib.Data.Fintype.Basic
import VmmShowcase.Foundations.LittleEndian
import VmmShowcase.Foundations.LookupTable

/-! # The data types shared by the subsystems

`include/common/types.hpp`. A 32-bit integer, signed or not, is a `Word`: the two C++ types share
their bits, and each operation says how it reads them. A `std::string` that comes from outside (a
VM's name, a migration target) is its bytes; the fixed texts of faults and errors are `String`s. -/

namespace VmmShowcase

/-- `int32_t` and `uint32_t`. -/
abbrev Word := BitVec 32

/-- The bytes of a `std::string`. -/
abbrev CString := List Byte

/-- `std::array<int32_t, 32>`. -/
abbrev RegisterFile := Fin 32 → Word

/-- The processor state of a guest; `pc` is a `size_t`. -/
structure CpuState where
  regs : RegisterFile := fun _ => 0
  hi : Word := 0
  lo : Word := 0
  pc : BitVec 64 := 0
  deriving DecidableEq

/-- The life cycle of a virtual machine. -/
inductive VmStatus where
  | ready | running | blocked | halted | faulted
  deriving DecidableEq, Repr

/-- The test `status == Halted || status == Faulted`, after which a machine never runs again. -/
def VmStatus.Done (status : VmStatus) : Prop := status = .halted ∨ status = .faulted

instance (status : VmStatus) : Decidable status.Done := inferInstanceAs (Decidable (_ ∨ _))

/-- The kinds of fault. -/
inductive FaultType where
  | none | illegalOpcode | divideByZero | pageFault | addressOutOfRange
  deriving DecidableEq, Repr

/-- A fault with its message. -/
structure VmFault where
  type : FaultType := .none
  message : String := ""
  deriving DecidableEq, Repr

/-- The configuration of a virtual machine. -/
structure VmConfig where
  name : CString
  execSlice : Nat := 50
  priority : Int := 1
  memoryBytes : Nat := 64 * 1024
  deriving DecidableEq

/-- `std::unordered_map<uint32_t, uint32_t>`, from virtual to physical pages. -/
abbrev PageTable := Table Word Word

/-- What `VirtualMachine::Snapshot` captures. -/
structure VmSnapshot where
  vmName : CString := []
  cpu : CpuState := {}
  pageTable : PageTable := Table.empty
  memoryBytes : List Byte := []

/-- The counters of the scheduling loop, by VM name. -/
structure SchedulerStats where
  instructionsByVm : Table CString Nat := Table.empty
  dispatchCountByVm : Table CString Nat := Table.empty

end VmmShowcase
