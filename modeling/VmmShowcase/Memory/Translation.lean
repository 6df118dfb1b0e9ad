import VmmShowcase.Foundations.CallTrace
import VmmShowcase.Memory.VirtualMemory

/-! # Translation through a TLB

A memory without TLB walks the page table on every access. `VirtualMemory` is that memory with a
cache in front of its page table: forgetting the TLB (`walk`) commutes with every operation as long
as the TLB is coherent, and every operation keeps it coherent. So no sequence of calls can tell the
two apart. -/

namespace VmmShowcase

open VirtualMemory

/-- A paged memory that walks its page table on every access. -/
structure PageWalkMemory where
  bytes : List Byte
  pageTable : PageTable

namespace PageWalkMemory

/-- The physical address of a virtual one, by a walk of the page table. -/
def translate (m : PageWalkMemory) (virtualAddr : Word) : Except VmFault Word :=
  match m.pageTable (virtualPage virtualAddr) with
  | none => .error pageFault
  | some physicalPage =>
      let paddr := physicalAddr physicalPage (pageOffset virtualAddr)
      if paddr.toNat + 4 > m.bytes.length then .error addressOutOfRange else .ok paddr

/-- Read the word at a virtual address. -/
def readWord (m : PageWalkMemory) (virtualAddr : Word) : Except VmFault Word :=
  (m.translate virtualAddr).map (loadWord m.bytes)

/-- The bytes after writing a word at a virtual address. -/
def writeWord (m : PageWalkMemory) (virtualAddr value : Word) : Except VmFault (List Byte) :=
  (m.translate virtualAddr).map fun paddr => storeWord m.bytes paddr value

/-- A translated address has its four bytes in the memory. -/
theorem translate_le {m : PageWalkMemory} {virtualAddr paddr : Word}
    (h : m.translate virtualAddr = .ok paddr) : paddr.toNat + 4 ≤ m.bytes.length := by
  rw [translate] at h
  cases hpt : m.pageTable (virtualPage virtualAddr) with
  | none => rw [hpt] at h; cases h
  | some physicalPage =>
      simp only [hpt] at h
      split at h
      · cases h
      · cases h
        omega

/-- Translation looks at the page table and the number of bytes only. -/
theorem translate_congr {m m' : PageWalkMemory} (htable : m'.pageTable = m.pageTable)
    (hlen : m'.bytes.length = m.bytes.length) (virtualAddr : Word) :
    m'.translate virtualAddr = m.translate virtualAddr := by
  rw [translate, translate, htable, hlen]

/-- Writing a word keeps the number of bytes. -/
theorem length_of_writeWord {m : PageWalkMemory} {virtualAddr value : Word} {bytes : List Byte}
    (h : m.writeWord virtualAddr value = .ok bytes) : bytes.length = m.bytes.length := by
  rw [writeWord] at h
  cases htr : m.translate virtualAddr with
  | error fault => rw [htr] at h; cases h
  | ok paddr =>
      rw [htr] at h
      cases h
      refine ByteVector.length_overwrite ?_
      rw [LittleEndian.length_ofBitVec]
      exact translate_le htr

end PageWalkMemory

namespace VirtualMemory

/-- Forget the TLB. -/
def walk (m : VirtualMemory) : PageWalkMemory := ⟨m.bytes, m.pageTable⟩

/-- Every TLB entry is the page table's own. -/
def Coherent (m : VirtualMemory) : Prop := m.tlb.Coherent m.pageTable

@[simp] theorem walk_pageTable (m : VirtualMemory) : m.walk.pageTable = m.pageTable := rfl

/-- `m'` differs from `m` only in its TLB, which is coherent. -/
structure RefillOf (m m' : VirtualMemory) : Prop where
  bytes_eq : m'.bytes = m.bytes
  pageTable_eq : m'.pageTable = m.pageTable
  coherent : m'.Coherent

/-- A refilled memory is the same without its TLB. -/
theorem RefillOf.walk_eq {m m' : VirtualMemory} (h : m.RefillOf m') : m'.walk = m.walk := by
  rw [walk, h.bytes_eq, h.pageTable_eq, walk]

/-- The constructed memory has an empty TLB. -/
theorem coherent_create (bytes : Nat) : (create bytes).Coherent := Table.coherent_empty _

/-- `MapPage` writes through. -/
theorem Coherent.mapPage {m : VirtualMemory} (h : m.Coherent) (virtualPage physicalPage : Word) :
    (m.mapPage virtualPage physicalPage).Coherent := Table.Coherent.writeThrough h _ _

/-- `RestorePageTable` clears the TLB. -/
theorem coherent_restorePageTable (m : VirtualMemory) (pageTable : PageTable) :
    (m.restorePageTable pageTable).Coherent := Table.coherent_empty _

/-- The last part of `Translate` only looks at the bytes. -/
theorem checkRange_eq (m : VirtualMemory) (paddr : Word) :
    m.checkRange paddr
      = (if paddr.toNat + 4 > m.bytes.length then .error addressOutOfRange else .ok paddr, m) := by
  rw [checkRange]
  split <;> rfl

/-- **Translation through a coherent TLB is a page walk.** The memory it leaves is refilled, also
when the access is out of range. -/
theorem translate_walk {m : VirtualMemory} (h : m.Coherent) (virtualAddr : Word) :
    (m.translate virtualAddr).1 = m.walk.translate virtualAddr
      ∧ m.RefillOf (m.translate virtualAddr).2 := by
  rw [translate, PageWalkMemory.translate, walk_pageTable]
  cases htlb : m.tlb (virtualPage virtualAddr) with
  | some physicalPage =>
      -- a hit is the page table's own entry
      simp only [h _ _ htlb, checkRange_eq]
      exact ⟨rfl, rfl, rfl, h⟩
  | none =>
      cases hpt : m.pageTable (virtualPage virtualAddr) with
      | none => exact ⟨rfl, rfl, rfl, h⟩
      | some physicalPage =>
          -- the fill happens before the range check, so also for a faulting access
          simp only [checkRange_eq]
          exact ⟨rfl, rfl, rfl, h.fill hpt⟩

/-- Through a coherent TLB, `ReadWord` reads what a page walk reads. -/
theorem readWord_walk {m : VirtualMemory} (h : m.Coherent) (virtualAddr : Word) :
    (m.readWord virtualAddr).1 = m.walk.readWord virtualAddr
      ∧ m.RefillOf (m.readWord virtualAddr).2 := by
  obtain ⟨hreply, hrefill⟩ := translate_walk h virtualAddr
  rw [readWord, PageWalkMemory.readWord, ← hreply]
  match htr : m.translate virtualAddr with
  | (.error fault, m') => exact ⟨rfl, by rwa [htr] at hrefill⟩
  | (.ok paddr, m') =>
      rw [htr] at hrefill
      refine ⟨?_, hrefill⟩
      show Except.ok (loadWord m'.bytes paddr) = Except.ok (loadWord m.bytes paddr)
      rw [hrefill.bytes_eq]

/-- Through a coherent TLB, `WriteWord` writes what a page walk writes. -/
theorem writeWord_walk {m : VirtualMemory} (h : m.Coherent) (virtualAddr value : Word) :
    match m.walk.writeWord virtualAddr value with
    | .error fault => (m.writeWord virtualAddr value).1 = .error fault
        ∧ m.RefillOf (m.writeWord virtualAddr value).2
    | .ok bytes => (m.writeWord virtualAddr value).1 = .ok ()
        ∧ (m.setBytes bytes).RefillOf (m.writeWord virtualAddr value).2 := by
  obtain ⟨hreply, hrefill⟩ := translate_walk h virtualAddr
  rw [writeWord, PageWalkMemory.writeWord, ← hreply]
  match htr : m.translate virtualAddr with
  | (.error fault, m') => exact ⟨rfl, by rwa [htr] at hrefill⟩
  | (.ok paddr, m') =>
      rw [htr] at hrefill
      refine ⟨rfl, ?_, hrefill.pageTable_eq, hrefill.coherent⟩
      -- translation left the bytes alone
      show storeWord m'.bytes paddr value = storeWord m.bytes paddr value
      rw [hrefill.bytes_eq]

/-! ## Memories as components -/

/-- A call on a memory, through its methods or through the reference `Bytes()` returns. -/
inductive MemoryCall where
  | readWord (virtualAddr : Word)
  | writeWord (virtualAddr value : Word)
  | mapPage (virtualPage physicalPage : Word)
  | restorePageTable (pageTable : PageTable)
  | setBytes (bytes : List Byte)

/-- The outcome of a call: a fault, or success with the value read, if any. -/
abbrev MemoryReply := Except VmFault (Option Word)

/-- A call on a paged memory with a TLB; the reply shows the bytes the call leaves. -/
def call (m : VirtualMemory) : MemoryCall → (MemoryReply × List Byte) × VirtualMemory
  | .readWord virtualAddr =>
      let (reply, m) := m.readWord virtualAddr
      ((reply.map some, m.bytes), m)
  | .writeWord virtualAddr value =>
      let (reply, m) := m.writeWord virtualAddr value
      ((reply.map fun _ => none, m.bytes), m)
  | .mapPage virtualPage physicalPage =>
      let m := m.mapPage virtualPage physicalPage
      ((.ok none, m.bytes), m)
  | .restorePageTable pageTable =>
      let m := m.restorePageTable pageTable
      ((.ok none, m.bytes), m)
  | .setBytes bytes =>
      let m := m.setBytes bytes
      ((.ok none, m.bytes), m)

end VirtualMemory

open VirtualMemory (MemoryCall MemoryReply)

/-- A call on a memory that walks its page table on every access. -/
def PageWalkMemory.call (m : PageWalkMemory) :
    MemoryCall → (MemoryReply × List Byte) × PageWalkMemory
  | .readWord virtualAddr => (((m.readWord virtualAddr).map some, m.bytes), m)
  | .writeWord virtualAddr value =>
      match m.writeWord virtualAddr value with
      | .error fault => ((.error fault, m.bytes), m)
      | .ok bytes => ((.ok none, bytes), { m with bytes := bytes })
  | .mapPage virtualPage physicalPage =>
      ((.ok none, m.bytes), { m with pageTable := m.pageTable.insert virtualPage physicalPage })
  | .restorePageTable pageTable => ((.ok none, m.bytes), { m with pageTable := pageTable })
  | .setBytes bytes => ((.ok none, bytes), { m with bytes := bytes })

namespace VirtualMemory

/-- A call on a coherent memory gives the reply of a page walk, leaves the memory a page walk
leaves, and keeps the TLB coherent. -/
theorem call_walk {m : VirtualMemory} (h : m.Coherent) (c : MemoryCall) :
    (m.call c).1 = (m.walk.call c).1
      ∧ (m.call c).2.walk = (m.walk.call c).2 ∧ (m.call c).2.Coherent := by
  cases c with
  | readWord virtualAddr =>
      obtain ⟨hreply, hrefill⟩ := readWord_walk h virtualAddr
      refine ⟨?_, hrefill.walk_eq, hrefill.coherent⟩
      show ((m.readWord virtualAddr).1.map some, (m.readWord virtualAddr).2.bytes) = _
      rw [hreply, hrefill.bytes_eq]
      rfl
  | writeWord virtualAddr value =>
      have hwrite := writeWord_walk h virtualAddr value
      show ((m.writeWord virtualAddr value).1.map _, (m.writeWord virtualAddr value).2.bytes) = _
        ∧ (m.writeWord virtualAddr value).2.walk = _ ∧ (m.writeWord virtualAddr value).2.Coherent
      rw [PageWalkMemory.call]
      match hw : m.walk.writeWord virtualAddr value with
      | .error fault =>
          rw [hw] at hwrite
          obtain ⟨hreply, hrefill⟩ := hwrite
          rw [hreply, hrefill.bytes_eq]
          exact ⟨rfl, hrefill.walk_eq, hrefill.coherent⟩
      | .ok bytes =>
          rw [hw] at hwrite
          obtain ⟨hreply, hrefill⟩ := hwrite
          rw [hreply, hrefill.bytes_eq]
          exact ⟨rfl, hrefill.walk_eq, hrefill.coherent⟩
  -- a remapped page is written through, and a replaced table comes with an empty TLB
  | mapPage virtualPage physicalPage => exact ⟨rfl, rfl, h.mapPage virtualPage physicalPage⟩
  | restorePageTable pageTable => exact ⟨rfl, rfl, coherent_restorePageTable m pageTable⟩
  | setBytes bytes => exact ⟨rfl, rfl, h⟩

/-- **The TLB is invisible.** After any sequence of calls on a constructed memory, every TLB entry
is the page table's; and the calls have the replies, faults and bytes they have without a TLB. -/
theorem tlb_invisible (bytes : Nat) (calls : List MemoryCall) :
    (∀ virtualPage physicalPage,
        (Component.after call (create bytes) calls).tlb virtualPage = some physicalPage →
        (Component.after call (create bytes) calls).pageTable virtualPage = some physicalPage)
      ∧ Component.trace call (create bytes) calls
        = Component.trace PageWalkMemory.call (create bytes).walk calls := by
  constructor
  · exact Component.after_invariant Coherent (fun m c h => (call_walk h c).2.2)
      (coherent_create bytes) calls
  · refine Component.trace_eq_of_bisimulation (fun m w => m.walk = w ∧ m.Coherent)
      (fun _ => True) ?_ ⟨rfl, coherent_create bytes⟩ (fun _ _ => trivial)
    rintro m _ c - ⟨rfl, h⟩
    obtain ⟨hreply, hwalk, hcoh⟩ := call_walk h c
    exact ⟨hreply, hwalk, hcoh⟩

end VirtualMemory

end VmmShowcase
