import VmmShowcase.Common.Types
import VmmShowcase.Foundations.CursorReader
import VmmShowcase.Foundations.XorMulHash

/-! # The wire format of a migrated machine

`include/migration/state_serializer.hpp` and `src/migration/state_serializer.cpp`, on a little-endian
host. The payload holds the length of the name, the name, the processor, the size of the memory and
its bytes; the page table is not part of it. The decoder reads at a running offset and checks none
of its reads, so where one leaves the payload its behaviour is undefined (`none`). -/

namespace VmmShowcase

open ByteVector (slice)

/-- `MigrationPacket`. -/
structure MigrationPacket where
  version : Word := 1
  checksum : Word := 0
  payload : List Byte := []
  deriving DecidableEq

namespace StateSerializer

/-- The multiplier of the checksum. -/
def checksumPrime : Word := 16777619

/-- `ComputeChecksum`. -/
def computeChecksum (bytes : List Byte) : Word := XorMulHash.hash checksumPrime 2166136261 bytes

/-- The eight bytes of a 64-bit integer, as `Append` copies them. -/
def append64 (value : BitVec 64) : List Byte := LittleEndian.ofBitVec 8 value

/-- The four bytes of a 32-bit integer, as `Append` copies them. -/
def append32 (value : Word) : List Byte := LittleEndian.ofBitVec 4 value

/-- The processor as `Serialize` writes it. -/
def serializeCpu (cpu : CpuState) : List Byte :=
  append64 cpu.pc ++ append32 cpu.hi ++ append32 cpu.lo ++ (List.ofFn cpu.regs).flatMap append32

/-- The payload `Serialize` writes; the two lengths are cut to 32 bits. -/
def serializePayload (snapshot : VmSnapshot) : List Byte :=
  append32 (BitVec.ofNat 32 snapshot.vmName.length) ++ snapshot.vmName
    ++ serializeCpu snapshot.cpu
    ++ append32 (BitVec.ofNat 32 snapshot.memoryBytes.length) ++ snapshot.memoryBytes

/-- `Serialize`. -/
def serialize (snapshot : VmSnapshot) : MigrationPacket where
  checksum := computeChecksum (serializePayload snapshot)
  payload := serializePayload snapshot

/-- `Read` of a 32-bit integer. -/
def read32 : Reader Word := Reader.bitVec 32 4

/-- `Read` of a 64-bit integer. -/
def read64 : Reader (BitVec 64) := Reader.bitVec 64 8

/-- The reads of `Deserialize` that fill the processor. -/
def readCpu : Reader CpuState := do
  let pc ← read64
  let hi ← read32
  let lo ← read32
  let regs ← Reader.array read32 32
  return { regs, hi, lo, pc }

/-- The reads of `Deserialize`, in their order: the target with the fields read. -/
def readSnapshot (snapshot : VmSnapshot) : Reader VmSnapshot := do
  let nameLen ← read32
  let vmName ← Reader.bytes nameLen.toNat
  let cpu ← readCpu
  let memSize ← read32
  let memoryBytes ← Reader.bytes memSize.toNat
  return { snapshot with vmName, cpu, memoryBytes }

/-- `Deserialize`: the flag it returns, the target and the error text. -/
def deserialize (packet : MigrationPacket) (snapshot : VmSnapshot) (error : String) :
    Option (Bool × VmSnapshot × String) :=
  if packet.version ≠ 1 then some (false, snapshot, "unsupported migration version")
  else if packet.checksum ≠ computeChecksum packet.payload then
    some (false, snapshot, "migration checksum mismatch")
  else (readSnapshot snapshot packet.payload 0).map fun p => (true, p.1, error)

@[simp] theorem serialize_version (snapshot : VmSnapshot) : (serialize snapshot).version = 1 := rfl

@[simp] theorem serialize_payload (snapshot : VmSnapshot) :
    (serialize snapshot).payload = serializePayload snapshot := rfl

@[simp] theorem serialize_checksum (snapshot : VmSnapshot) :
    (serialize snapshot).checksum = computeChecksum (serializePayload snapshot) := by
  rw [serialize]

/-- A packet of another version is refused. -/
theorem deserialize_of_version {packet : MigrationPacket} (h : packet.version ≠ 1)
    (snapshot : VmSnapshot) (error : String) : deserialize packet snapshot error
      = some (false, snapshot, "unsupported migration version") := if_pos h

/-- A packet with another checksum is refused. -/
theorem deserialize_of_checksum {packet : MigrationPacket} (hversion : packet.version = 1)
    (h : packet.checksum ≠ computeChecksum packet.payload) (snapshot : VmSnapshot)
    (error : String) : deserialize packet snapshot error
      = some (false, snapshot, "migration checksum mismatch") := by
  rw [deserialize, if_neg (not_not.mpr hversion), if_pos h]

/-- A packet that passes both checks is decoded. -/
theorem deserialize_of_checked {packet : MigrationPacket} (hversion : packet.version = 1)
    (h : packet.checksum = computeChecksum packet.payload) (snapshot : VmSnapshot)
    (error : String) : deserialize packet snapshot error
      = (readSnapshot snapshot packet.payload 0).map fun p => (true, p.1, error) := by
  rw [deserialize, if_neg (not_not.mpr hversion), if_neg (not_not.mpr h)]

/-! ## The round trip -/

/-- A stored 32-bit integer is read back. -/
theorem reads_read32 (value : Word) : Reader.Reads read32 (append32 value) value :=
  Reader.reads_bitVec (by norm_num) value

/-- A stored 64-bit integer is read back. -/
theorem reads_read64 (value : BitVec 64) : Reader.Reads read64 (append64 value) value :=
  Reader.reads_bitVec (by norm_num) value

/-- A stored processor is read back. -/
theorem reads_readCpu (cpu : CpuState) : Reader.Reads readCpu (serializeCpu cpu) cpu := by
  unfold readCpu serializeCpu
  simp only [List.append_assoc]
  refine (reads_read64 cpu.pc).bind ?_
  refine (reads_read32 cpu.hi).bind ?_
  refine (reads_read32 cpu.lo).bind ?_
  exact (Reader.reads_array reads_read32 cpu.regs).map fun regs =>
    ({ regs, hi := cpu.hi, lo := cpu.lo, pc := cpu.pc } : CpuState)

/-- A byte string shorter than `2 ^ 32` has its length as its length field. -/
theorem toNat_lengthField {bs : List Byte} (h : bs.length < 2 ^ 32) :
    (BitVec.ofNat 32 bs.length).toNat = bs.length := by
  rw [BitVec.toNat_ofNat, Nat.mod_eq_of_lt h]

/-- **The decoder inverts the encoder.** Everything the payload holds is read back, whatever the
target held before. -/
theorem reads_readSnapshot {snapshot : VmSnapshot} (hname : snapshot.vmName.length < 2 ^ 32)
    (hmem : snapshot.memoryBytes.length < 2 ^ 32) (target : VmSnapshot) :
    Reader.Reads (readSnapshot target) (serializePayload snapshot)
      { snapshot with pageTable := target.pageTable } := by
  have hreadName := Reader.reads_bytes snapshot.vmName
  have hreadMemory := Reader.reads_bytes snapshot.memoryBytes
  rw [← toNat_lengthField hname] at hreadName
  rw [← toNat_lengthField hmem] at hreadMemory
  -- one read for each field, in the order they were written
  unfold readSnapshot serializePayload
  simp only [List.append_assoc]
  refine (reads_read32 _).bind ?_
  refine hreadName.bind ?_
  refine (reads_readCpu snapshot.cpu).bind ?_
  refine (reads_read32 _).bind ?_
  exact hreadMemory.map fun memoryBytes =>
    ({ target with vmName := snapshot.vmName, cpu := snapshot.cpu, memoryBytes } : VmSnapshot)

/-- A packet made by `Serialize` passes both checks and is decoded to what it was made from. -/
theorem deserialize_accepts {snapshot : VmSnapshot} (hname : snapshot.vmName.length < 2 ^ 32)
    (hmem : snapshot.memoryBytes.length < 2 ^ 32) (target : VmSnapshot) (error : String) :
    deserialize (serialize snapshot) target error
      = some (true, { snapshot with pageTable := target.pageTable }, error) := by
  have hread := reads_readSnapshot hname hmem target [] []
  rw [List.nil_append, List.append_nil] at hread
  rw [List.length_nil] at hread
  rw [deserialize_of_checked (serialize_version snapshot) (serialize_checksum snapshot),
    serialize_payload, hread, Option.map_some]

/-- **Wire-format round trip.** A snapshot whose name and memory fit the length fields is accepted,
and the target's name, processor and bytes are then the snapshot's, whatever they were. -/
theorem deserialize_serialize {snapshot : VmSnapshot} (hname : snapshot.vmName.length < 2 ^ 32)
    (hmem : snapshot.memoryBytes.length < 2 ^ 32) (target : VmSnapshot) (error : String) :
    ∃ target' error', deserialize (serialize snapshot) target error = some (true, target', error')
      ∧ target'.vmName = snapshot.vmName ∧ target'.cpu = snapshot.cpu
      ∧ target'.memoryBytes = snapshot.memoryBytes :=
  ⟨_, _, deserialize_accepts hname hmem target error, rfl, rfl, rfl⟩

/-- The snapshot of a machine `vm` stopped at instruction 4, with 32 bytes of memory. -/
def sampleSnapshot : VmSnapshot where
  vmName := [0x76, 0x6d]
  cpu := { regs := Function.update (fun _ => 0) 1 7, pc := 4 }
  memoryBytes := List.replicate 32 11

/-- The round trip of a small snapshot into itself. -/
theorem deserialize_serialize_sampleSnapshot :
    ∃ target' error', deserialize (serialize sampleSnapshot) sampleSnapshot "stale"
        = some (true, target', error')
      ∧ target'.vmName = sampleSnapshot.vmName ∧ target'.cpu = sampleSnapshot.cpu
      ∧ target'.memoryBytes = sampleSnapshot.memoryBytes :=
  deserialize_serialize (by decide) (by decide) sampleSnapshot "stale"

end StateSerializer

end VmmShowcase
