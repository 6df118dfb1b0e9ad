import VmmShowcase.Common.Types
import VmmShowcase.Foundations.ByteVector

/-! # Paged virtual memory

`include/memory/virtual_memory.hpp` and `src/memory/virtual_memory.cpp`. A C++ call that returns
`bool` and writes a value or a fault through a reference is a function to `Except`: the value is
only written on success and the fault only on failure. Every call returns the memory it leaves,
since translation fills the TLB. -/

namespace VmmShowcase

/-- The private byte array of a VM with its page table and TLB. -/
structure VirtualMemory where
  bytes : List Byte
  pageTable : PageTable
  tlb : PageTable

namespace VirtualMemory

/-- The page size. -/
def kPageSize : Nat := 4096

/-- The number of pages the constructor maps: a `size_t` sum and quotient, cut to 32 bits. -/
def pageCount (bytes : Nat) : Word :=
  BitVec.ofNat 32 ((bytes + kPageSize - 1) % 2 ^ 64 / kPageSize)

/-- The page table the constructor builds, entry by entry. -/
def identityTable (pageCount : Word) : PageTable :=
  (List.range pageCount.toNat).foldl
    (fun table i => table.insert (BitVec.ofNat 32 i) (BitVec.ofNat 32 i)) Table.empty

/-- `VirtualMemory(bytes)`: zeroed bytes under an identity mapping. -/
def create (bytes : Nat) : VirtualMemory where
  bytes := List.replicate bytes 0
  pageTable := identityTable (pageCount bytes)
  tlb := Table.empty

/-- `MapPage`. -/
def mapPage (m : VirtualMemory) (virtualPage physicalPage : Word) : VirtualMemory :=
  { m with
    pageTable := m.pageTable.insert virtualPage physicalPage
    tlb := m.tlb.insert virtualPage physicalPage }

/-- The page a virtual address lies in. -/
def virtualPage (virtualAddr : Word) : Word := virtualAddr / BitVec.ofNat 32 kPageSize

/-- The offset of a virtual address in its page. -/
def pageOffset (virtualAddr : Word) : Word := virtualAddr % BitVec.ofNat 32 kPageSize

/-- The physical address of an offset in a physical page, in 32-bit arithmetic. -/
def physicalAddr (physicalPage offset : Word) : Word :=
  physicalPage * BitVec.ofNat 32 kPageSize + offset

/-- The fault of an access to an unmapped page. -/
def pageFault : VmFault := ⟨.pageFault, "virtual page not mapped"⟩

/-- The fault of an access beyond the backing bytes. -/
def addressOutOfRange : VmFault := ⟨.addressOutOfRange, "address outside VM memory"⟩

/-- The last part of `Translate`: the four bytes at a physical address must exist. The comparison
is made in `size_t`. -/
def checkRange (m : VirtualMemory) (physicalAddr : Word) : Except VmFault Word × VirtualMemory :=
  if physicalAddr.toNat + 4 > m.bytes.length then (.error addressOutOfRange, m)
  else (.ok physicalAddr, m)

/-- `Translate`: from the TLB, or from the page table filling the TLB. -/
def translate (m : VirtualMemory) (virtualAddr : Word) : Except VmFault Word × VirtualMemory :=
  match m.tlb (virtualPage virtualAddr) with
  | some physicalPage => m.checkRange (physicalAddr physicalPage (pageOffset virtualAddr))
  | none =>
      match m.pageTable (virtualPage virtualAddr) with
      | none => (.error pageFault, m)
      | some physicalPage =>
          { m with tlb := m.tlb.insert (virtualPage virtualAddr) physicalPage }.checkRange
            (physicalAddr physicalPage (pageOffset virtualAddr))

/-- The word stored at a physical address: `memcpy` out of the backing bytes. -/
def loadWord (bytes : List Byte) (paddr : Word) : Word :=
  LittleEndian.toBitVec 32 (ByteVector.slice bytes paddr.toNat 4)

/-- The backing bytes with a word stored at a physical address: `memcpy` into them. -/
def storeWord (bytes : List Byte) (paddr value : Word) : List Byte :=
  ByteVector.overwrite bytes paddr.toNat (LittleEndian.ofBitVec 4 value)

/-- `ReadWord`. -/
def readWord (m : VirtualMemory) (virtualAddr : Word) : Except VmFault Word × VirtualMemory :=
  match m.translate virtualAddr with
  | (.error fault, m) => (.error fault, m)
  | (.ok paddr, m) => (.ok (loadWord m.bytes paddr), m)

/-- `WriteWord`. -/
def writeWord (m : VirtualMemory) (virtualAddr value : Word) :
    Except VmFault Unit × VirtualMemory :=
  match m.translate virtualAddr with
  | (.error fault, m) => (.error fault, m)
  | (.ok paddr, m) => (.ok (), { m with bytes := storeWord m.bytes paddr value })

/-- `RestorePageTable`. -/
def restorePageTable (m : VirtualMemory) (pageTable : PageTable) : VirtualMemory :=
  { m with pageTable := pageTable, tlb := Table.empty }

/-- Assignment through `Bytes()`. -/
def setBytes (m : VirtualMemory) (bytes : List Byte) : VirtualMemory := { m with bytes := bytes }

/-! ## Address arithmetic -/

/-- The page number of an address, as a number. -/
theorem toNat_virtualPage (virtualAddr : Word) :
    (virtualPage virtualAddr).toNat = virtualAddr.toNat / 4096 := by
  rw [virtualPage, BitVec.toNat_udiv]
  rfl

/-- The page offset of an address, as a number. -/
theorem toNat_pageOffset (virtualAddr : Word) :
    (pageOffset virtualAddr).toNat = virtualAddr.toNat % 4096 := by
  rw [pageOffset, BitVec.toNat_umod]
  rfl

/-- A physical address, as a number: the product wraps at 32 bits. -/
theorem toNat_physicalAddr (physicalPage virtualAddr : Word) :
    (physicalAddr physicalPage (pageOffset virtualAddr)).toNat
      = (physicalPage.toNat * 4096 + virtualAddr.toNat % 4096) % 2 ^ 32 := by
  rw [physicalAddr, BitVec.toNat_add, BitVec.toNat_mul, toNat_pageOffset, Nat.mod_add_mod]
  rfl

/-- Under the identity mapping an address is its own physical address. -/
theorem physicalAddr_virtualPage (virtualAddr : Word) :
    physicalAddr (virtualPage virtualAddr) (pageOffset virtualAddr) = virtualAddr := by
  apply BitVec.eq_of_toNat_eq
  have hlt : virtualAddr.toNat < 2 ^ 32 := virtualAddr.isLt
  rw [toNat_physicalAddr, toNat_virtualPage]
  omega

/-- For memories of at most 4 GiB nothing is cut off the page count. -/
theorem toNat_pageCount {bytes : Nat} (h : bytes ≤ 2 ^ 32) :
    (pageCount bytes).toNat = (bytes + 4095) / 4096 := by
  rw [pageCount, BitVec.toNat_ofNat]
  simp only [kPageSize]
  omega

/-! ## The constructor's page table -/

/-- Folding insertions of an identity range sets exactly the entries of the range. -/
theorem foldl_insert_identity (n : Nat) (hn : n ≤ 2 ^ 32) (page : Word) :
    (List.range n).foldl
      (fun (table : PageTable) i => table.insert (BitVec.ofNat 32 i) (BitVec.ofNat 32 i))
      Table.empty page = if page.toNat < n then some page else none := by
  induction n with
  | zero => rfl
  | succ n ih =>
      rw [List.range_succ, List.foldl_append, List.foldl_cons, List.foldl_nil]
      have hnat : (BitVec.ofNat 32 n).toNat = n := by
        rw [BitVec.toNat_ofNat, Nat.mod_eq_of_lt (by omega)]
      by_cases hpage : page = BitVec.ofNat 32 n
      · -- the last insertion sets this page
        subst hpage
        rw [Table.insert_self, hnat, if_pos (by omega)]
      · have hne : page.toNat ≠ n := by
          intro h
          exact hpage (BitVec.eq_of_toNat_eq (by rw [h, hnat]))
        rw [Table.insert_of_ne _ _ hpage, ih (by omega)]
        by_cases hlt : page.toNat < n
        · rw [if_pos hlt, if_pos (by omega)]
        · rw [if_neg hlt, if_neg (by omega)]

/-- The constructor maps page `p` to itself when it is below the page count. -/
theorem identityTable_apply (pageCount page : Word) :
    identityTable pageCount page = if page.toNat < pageCount.toNat then some page else none :=
  foldl_insert_identity pageCount.toNat (Nat.le_of_lt pageCount.isLt) page

end VirtualMemory

end VmmShowcase
