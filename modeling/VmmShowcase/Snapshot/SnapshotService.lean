import VmmShowcase.Common.Types
import VmmShowcase.Foundations.TextStream

/-! # Snapshot files

`include/snapshot/snapshot_service.hpp` and `src/snapshot/snapshot_service.cpp`. A file is its bytes,
and whether it can be opened is up to the file system. The format is a line with the name, a line with
`pc`, `hi` and `lo`, a line of registers, a line with the number of bytes and a line of bytes; the page
table is not part of it. `Load` never looks at the state of its stream. -/

namespace VmmShowcase

open Text TextStream

namespace SnapshotService

/-- A signed integer as `<<` prints it, with a separator. -/
def printSigned (sep : Byte) (value : Word) : List Byte := signedDecimal value.toInt ++ [sep]

/-- An unsigned number as `<<` prints it, with a separator. -/
def printUnsigned (sep : Byte) (value : Nat) : List Byte := decimal value ++ [sep]

/-- The processor as `Save` writes it. -/
def printCpu (cpu : CpuState) : List Byte :=
  printUnsigned space cpu.pc.toNat ++ printSigned space cpu.hi ++ printSigned newline cpu.lo
    ++ (List.ofFn cpu.regs).flatMap (printSigned space) ++ [newline]

/-- The bytes as `Save` writes them, each cast to an `int`. -/
def printMemory (memoryBytes : List Byte) : List Byte :=
  memoryBytes.flatMap (fun b => printUnsigned space b.toNat) ++ [newline]

/-- The contents of the file `Save` writes. -/
def print (snapshot : VmSnapshot) : List Byte :=
  snapshot.vmName ++ [newline] ++ printCpu snapshot.cpu
    ++ printUnsigned newline snapshot.memoryBytes.length ++ printMemory snapshot.memoryBytes

/-- `Save`: the flag it returns, the contents of the file if it could be opened, and the error text. -/
def save (opened : Bool) (snapshot : VmSnapshot) (error : String) :
    Bool × Option (List Byte) × String :=
  if opened then (true, some (print snapshot), error)
  else (false, none, "failed to open snapshot file for write")

/-- The extractions of `Load` that fill the processor. -/
def readCpu (cpu : CpuState) : TextReader CpuState := do
  let pc ← readUnsigned cpu.pc
  let hi ← readSigned cpu.hi
  let lo ← readSigned cpu.lo
  let regs ← readEach (List.ofFn cpu.regs)
  return { regs := fun i => regs.getD i 0, hi, lo, pc }

/-- The extractions of `Load` up to the number of bytes. -/
def readHeader (snapshot : VmSnapshot) : TextReader (VmSnapshot × BitVec 64) := do
  let vmName ← getline newline snapshot.vmName
  let cpu ← readCpu snapshot.cpu
  let size ← readUnsigned (0 : BitVec 64)
  return ({ snapshot with vmName, cpu }, size)

/-- The loop of `Load` over the bytes: each is extracted into an `int` that holds 0, and cut. -/
def readMemory (size : Nat) : TextReader (List Byte) := do
  let values ← readEach (List.replicate size (0 : Word))
  return values.map (·.setWidth 8)

/-- `std::vector<uint8_t>::max_size()`. -/
def maxSize : Nat := 2 ^ 63 - 1

/-- `Load` of a file with these contents, if it can be opened: the flag it returns, the target and the
error text. `assign` throws for more bytes than a vector can have. -/
def load (file : Option (List Byte)) (snapshot : VmSnapshot) (error : String) :
    Option (Bool × VmSnapshot × String) :=
  match file with
  | none => some (false, snapshot, "failed to open snapshot file for read")
  | some text =>
      let ((snapshot, size), stream) := readHeader snapshot (ofText text)
      if maxSize < size.toNat then none
      else
        let (memoryBytes, _) := readMemory size.toNat stream
        some (true, { snapshot with memoryBytes }, error)

/-- The line with the name, and what stands behind it. -/
theorem print_eq (snapshot : VmSnapshot) : print snapshot
    = snapshot.vmName ++ newline :: (printCpu snapshot.cpu
      ++ (printUnsigned newline snapshot.memoryBytes.length ++ printMemory snapshot.memoryBytes)) := by
  rw [print]
  simp only [List.append_assoc, List.cons_append, List.nil_append]

/-! ## The round trip -/

/-- A printed signed integer is read back. -/
theorem reads_printSigned {sep : Byte} (hsep : IsSpace sep) (value old : Word) :
    Reads (readSigned old) (printSigned sep value) value :=
  reads_signed value old (blank_singleton hsep) (List.cons_ne_nil sep [])

/-- A printed unsigned number is read back. -/
theorem reads_printUnsigned {sep : Byte} (hsep : IsSpace sep) (value old : BitVec 64) :
    Reads (readUnsigned old) (printUnsigned sep value.toNat) value :=
  reads_unsigned value old (blank_singleton hsep) (List.cons_ne_nil sep [])

/-- A printed processor is read back. -/
theorem reads_readCpu (cpu old : CpuState) : Reads (readCpu old) (printCpu cpu) cpu := by
  have hspace : IsSpace space := by decide
  have hnewline : IsSpace newline := by decide
  have hregs : Reads (readEach (List.ofFn old.regs))
      ((List.ofFn cpu.regs).flatMap (printSigned space)) (List.ofFn cpu.regs) :=
    reads_each (blank_singleton hspace) (List.cons_ne_nil space [])
      (by rw [List.length_ofFn, List.length_ofFn])
  unfold readCpu printCpu
  simp only [List.append_assoc]
  -- one extraction for each field; the line end behind the registers goes with them
  refine (reads_printUnsigned hspace cpu.pc _).bind ?_
  refine (reads_printSigned hspace cpu.hi _).bind ?_
  refine (reads_printSigned hnewline cpu.lo _).bind ?_
  have hread := (hregs.blank (blank_singleton hnewline)).map fun regs =>
    ({ regs := fun i => regs.getD i 0, hi := cpu.hi, lo := cpu.lo, pc := cpu.pc } : CpuState)
  simp only [getD_ofFn] at hread
  exact hread

/-- A byte that is cast to an `int` keeps its value. -/
theorem toInt_setWidth_byte (b : Byte) : (b.setWidth 32).toInt = b.toNat := by
  have hb : b.toNat < 256 := b.isLt
  have hnat : (b.setWidth 32).toNat = b.toNat := by
    rw [BitVec.toNat_setWidth]
    omega
  rw [BitVec.toInt_eq_toNat_of_lt (by rw [hnat]; omega), hnat]

/-- A byte is printed like the `int` it is cast to. -/
theorem printUnsigned_byte (b : Byte) :
    printUnsigned space b.toNat = printSigned space (b.setWidth 32) := by
  rw [printUnsigned, printSigned, toInt_setWidth_byte, signedDecimal_natCast]

/-- Bytes that are cast to `int`s and cut are the same. -/
theorem map_setWidth_byte (memoryBytes : List Byte) :
    (memoryBytes.map (·.setWidth 32)).map (·.setWidth 8) = memoryBytes := by
  rw [List.map_map]
  refine (List.map_congr_left fun b _ => ?_).trans (List.map_id _)
  rw [Function.comp_apply, BitVec.setWidth_setWidth_of_le _ (by omega), BitVec.setWidth_eq, id]

/-- Printed bytes are read back. -/
theorem reads_readMemory (memoryBytes : List Byte) :
    Reads (readMemory memoryBytes.length) (printMemory memoryBytes) memoryBytes := by
  have hnewline : IsSpace newline := by decide
  have hprint : (memoryBytes.map (·.setWidth 32)).flatMap (printSigned space)
      = memoryBytes.flatMap fun b => printUnsigned space b.toNat := by
    rw [List.flatMap_map]
    congr 1
    funext b
    exact (printUnsigned_byte b).symm
  -- every byte is extracted into an `int`, which is then cut to it
  have hvalues : Reads (readEach (List.replicate memoryBytes.length 0))
      ((memoryBytes.map (·.setWidth 32)).flatMap (printSigned space))
      (memoryBytes.map (·.setWidth 32)) :=
    reads_each (blank_singleton (by decide)) (List.cons_ne_nil space [])
      (by rw [List.length_replicate, List.length_map])
  have hread := (hvalues.blank (blank_singleton hnewline)).map (List.map (·.setWidth 8))
  rwa [map_setWidth_byte, hprint] at hread

/-- The number of bytes a vector can have is a `size_t`. -/
theorem toNat_size {memoryBytes : List Byte} (h : memoryBytes.length ≤ maxSize) :
    (BitVec.ofNat 64 memoryBytes.length).toNat = memoryBytes.length := by
  rw [maxSize] at h
  rw [BitVec.toNat_ofNat, Nat.mod_eq_of_lt (by omega)]

/-- The extractions up to the number of bytes read back what is printed up to there, and leave the rest
of the file. -/
theorem readHeader_print {snapshot : VmSnapshot} (hname : newline ∉ snapshot.vmName)
    (hmem : snapshot.memoryBytes.length ≤ maxSize) (target : VmSnapshot) :
    ∃ after, Blank after ∧ readHeader target (ofText (print snapshot))
      = (({ target with vmName := snapshot.vmName, cpu := snapshot.cpu },
          BitVec.ofNat 64 snapshot.memoryBytes.length),
        ofText (after ++ printMemory snapshot.memoryBytes)) := by
  have hsize := reads_printUnsigned (by decide : IsSpace newline)
    (BitVec.ofNat 64 snapshot.memoryBytes.length) 0
  rw [toNat_size hmem] at hsize
  have hfields : Reads (do
        let cpu ← readCpu target.cpu
        let size ← readUnsigned (0 : BitVec 64)
        return ({ target with vmName := snapshot.vmName, cpu }, size))
      (printCpu snapshot.cpu ++ printUnsigned newline snapshot.memoryBytes.length)
      (({ target with vmName := snapshot.vmName, cpu := snapshot.cpu } : VmSnapshot),
        BitVec.ofNat 64 snapshot.memoryBytes.length) :=
    (reads_readCpu snapshot.cpu target.cpu).bind (hsize.map _)
  obtain ⟨after, hafter, hread⟩ := hfields [] (printMemory snapshot.memoryBytes) blank_nil
  refine ⟨after, hafter, ?_⟩
  have hline := getline_ofText hname target.vmName (printCpu snapshot.cpu
    ++ (printUnsigned newline snapshot.memoryBytes.length ++ printMemory snapshot.memoryBytes))
  rw [List.nil_append, List.append_assoc] at hread
  rw [print_eq, readHeader, bind_apply, hline]
  exact hread

/-- **Snapshot-file round trip.** The file `Save` writes for a snapshot whose name has no line end is
loaded by `Load`, and the target's name, processor and bytes are then the snapshot's, whatever they
were. -/
theorem load_save {snapshot : VmSnapshot} (hname : newline ∉ snapshot.vmName)
    (hmem : snapshot.memoryBytes.length ≤ maxSize) {opened ok : Bool} {saveError error' : String}
    {file : List Byte} (hsave : save opened snapshot saveError = (ok, some file, error'))
    (target : VmSnapshot) (error : String) :
    ∃ target' error'', load (some file) target error = some (true, target', error'')
      ∧ target'.vmName = snapshot.vmName ∧ target'.cpu = snapshot.cpu
      ∧ target'.memoryBytes = snapshot.memoryBytes := by
  have hfile : file = print snapshot := by
    rw [save] at hsave
    split at hsave
    · cases hsave
      rfl
    · cases hsave
  subst hfile
  obtain ⟨after, hafter, hheader⟩ := readHeader_print hname hmem target
  obtain ⟨after', -, hmemory⟩ := reads_readMemory snapshot.memoryBytes after [] hafter
  rw [List.append_nil] at hmemory
  rw [load]
  simp only [hheader, toNat_size hmem, if_neg (Nat.not_lt.mpr hmem), hmemory]
  exact ⟨_, _, rfl, rfl, rfl, rfl⟩

/-- A snapshot with a blank in its name, negative words and two bytes. -/
def smallSnapshot : VmSnapshot where
  vmName := bytes ['m', 'y', ' ', 'v', 'm']
  cpu := { regs := fun i => if i.val = 3 then -7 else 0, hi := -1, pc := 4 }
  memoryBytes := [0, 255]

/-- The round trip of that snapshot into an empty one. -/
theorem load_save_smallSnapshot :
    ∃ target' error'', load (some (print smallSnapshot)) {} "stale" = some (true, target', error'')
      ∧ target'.vmName = smallSnapshot.vmName ∧ target'.cpu = smallSnapshot.cpu
      ∧ target'.memoryBytes = smallSnapshot.memoryBytes :=
  load_save (by decide) (by decide) (show save true smallSnapshot "" = (true, _, "") from rfl) {}
    "stale"

end SnapshotService

end VmmShowcase
