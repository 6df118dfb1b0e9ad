import VmmShowcase.Memory.Translation

/-! # The flat memory a paged memory implements

What a memory without remapping is for: an array of `size` bytes, addressed directly. A word access
succeeds when its four bytes are in the array, and a failed one changes nothing. The constructor's
identity mapping makes `VirtualMemory` behave so, up to 4 GiB, whatever the alignment of the
addresses and whether or not the last page is full. -/

namespace VmmShowcase

open VirtualMemory

/-- An array of `size` bytes. -/
structure FlatMemory where
  size : Nat
  cell : Nat → Byte

/-- A word access. -/
inductive WordAccess where
  | read (addr : Word)
  | write (addr value : Word)

/-- The call that makes an access. -/
def WordAccess.toCall : WordAccess → MemoryCall
  | .read addr => .readWord addr
  | .write addr value => .writeWord addr value

/-! ## Results with their errors renamed -/

section MapError

variable {ε ε' α β : Type*} (g : ε → ε')

/-- Renaming errors commutes with mapping the value. -/
theorem mapError_map (x : Except ε α) (f : α → β) :
    (x.map f).mapError g = (x.mapError g).map f := by
  cases x <;> rfl

/-- Renaming errors does not make successes. -/
theorem mapError_eq_ok_iff {x : Except ε α} {a : α} : x.mapError g = .ok a ↔ x = .ok a := by
  cases x <;> simp [Except.mapError]

/-- A renamed error comes from an error. -/
theorem mapError_eq_error_iff {x : Except ε α} {e : ε'} :
    x.mapError g = .error e ↔ ∃ e', x = .error e' ∧ g e' = e := by
  cases x <;> simp [Except.mapError]

end MapError

/-! ## The flat memory -/

namespace FlatMemory

/-- The array of `size` zeros. -/
def zeroed (size : Nat) : FlatMemory := ⟨size, fun _ => 0⟩

/-- The bytes of the array. -/
def contents (m : FlatMemory) : List Byte := (List.range m.size).map m.cell

/-- The word in the four cells from `addr` on, in host byte order. -/
def word (m : FlatMemory) (addr : Nat) : Word :=
  LittleEndian.toBitVec 32 ((List.range 4).map fun i => m.cell (addr + i))

/-- The array with a word in the four cells from `addr` on, in host byte order. -/
def setWord (m : FlatMemory) (addr : Nat) (value : Word) : FlatMemory where
  size := m.size
  cell i :=
    if addr ≤ i ∧ i < addr + 4 then (LittleEndian.ofBitVec 4 value).getD (i - addr) 0 else m.cell i

/-- An access is in the array when its four bytes are, in exact integers. -/
def InRange (m : FlatMemory) (addr : Word) : Prop := addr.toNat + 4 ≤ m.size

instance (m : FlatMemory) (addr : Word) : Decidable (m.InRange addr) :=
  inferInstanceAs (Decidable (_ ≤ _))

/-- The fault of a failing access: a page fault from the first page that holds no byte on. -/
def fault (m : FlatMemory) (addr : Word) : FaultType :=
  if (m.size + 4095) / 4096 ≤ addr.toNat / 4096 then .pageFault else .addressOutOfRange

/-- An access, with the bytes it leaves. -/
def access (m : FlatMemory) : WordAccess → (Except FaultType (Option Word) × List Byte) × FlatMemory
  | .read addr =>
      if m.InRange addr then ((.ok (some (m.word addr.toNat)), m.contents), m)
      else ((.error (m.fault addr), m.contents), m)
  | .write addr value =>
      if m.InRange addr then
        let m := m.setWord addr.toNat value
        ((.ok none, m.contents), m)
      else ((.error (m.fault addr), m.contents), m)

@[simp] theorem setWord_size (m : FlatMemory) (addr : Nat) (value : Word) :
    (m.setWord addr value).size = m.size := rfl

/-- Cell `i` of an array with a word set. -/
theorem setWord_cell (m : FlatMemory) (addr i : Nat) (value : Word) :
    (m.setWord addr value).cell i
      = if addr ≤ i ∧ i < addr + 4 then (LittleEndian.ofBitVec 4 value).getD (i - addr) 0
        else m.cell i := rfl

@[simp] theorem length_contents (m : FlatMemory) : m.contents.length = m.size := by
  simp [contents]

/-- Byte `i` of the contents. -/
theorem getElem?_contents (m : FlatMemory) (i : Nat) :
    m.contents[i]? = if i < m.size then some (m.cell i) else none := by
  by_cases hi : i < m.size <;> simp [contents, hi]

/-- The contents of the zeroed array are zeros. -/
theorem contents_zeroed (size : Nat) : (zeroed size).contents = List.replicate size 0 := by
  simp [contents, zeroed, List.map_const']

/-- Loading from the contents is reading the cells. -/
theorem loadWord_contents {m : FlatMemory} {addr : Word} (h : m.InRange addr) :
    loadWord m.contents addr = m.word addr.toNat := by
  rw [loadWord, word]
  congr 1
  apply List.ext_getElem?
  intro i
  rw [InRange] at h
  rw [ByteVector.getElem?_slice, getElem?_contents]
  by_cases hi : i < 4
  · have hcell : addr.toNat + i < m.size := by omega
    simp [hi, hcell]
  · simp [hi]

/-- Storing into the contents is writing the cells. -/
theorem storeWord_contents {m : FlatMemory} {addr : Word} (h : m.InRange addr) (value : Word) :
    storeWord m.contents addr value = (m.setWord addr.toNat value).contents := by
  rw [InRange] at h
  have hlen : addr.toNat + (LittleEndian.ofBitVec 4 value).length ≤ m.contents.length := by
    rw [LittleEndian.length_ofBitVec, length_contents]
    exact h
  apply List.ext_getElem?
  intro i
  rw [storeWord, ByteVector.getElem?_overwrite hlen, LittleEndian.length_ofBitVec,
    getElem?_contents, getElem?_contents]
  rw [setWord_size, setWord_cell]
  by_cases hi : addr.toNat ≤ i ∧ i < addr.toNat + 4
  · -- one of the four cells that are written
    have hlt : i - addr.toNat < (LittleEndian.ofBitVec 4 value).length := by
      rw [LittleEndian.length_ofBitVec]
      omega
    rw [if_pos hi, if_pos hi, if_pos (by omega), List.getElem?_eq_getElem hlt,
      List.getD_eq_getElem?_getD, List.getElem?_eq_getElem hlt, Option.getD_some]
  · rw [if_neg hi, if_neg hi]

/-! ## The paged memory refines the flat one -/

/-- `w` holds the bytes of `m` under the constructor's page table for its size. -/
structure RepresentedBy (m : FlatMemory) (w : PageWalkMemory) : Prop where
  bytes_eq : w.bytes = m.contents
  pageTable_eq : w.pageTable = identityTable (pageCount m.size)

/-- The constructed memory represents the zeroed array. -/
theorem representedBy_create (size : Nat) : (zeroed size).RepresentedBy (create size).walk :=
  ⟨(contents_zeroed size).symm, rfl⟩

/-- **Translation under the identity mapping.** An address in range is its own physical address,
any other one has the fault of the flat memory. -/
theorem RepresentedBy.translate {m : FlatMemory} {w : PageWalkMemory} (h : m.RepresentedBy w)
    (hsize : m.size ≤ 2 ^ 32) (addr : Word) :
    (w.translate addr).mapError VmFault.type
      = if m.InRange addr then .ok addr else .error (m.fault addr) := by
  rw [PageWalkMemory.translate, h.pageTable_eq, identityTable_apply, toNat_virtualPage,
    toNat_pageCount hsize, h.bytes_eq, length_contents, fault]
  by_cases hpage : addr.toNat / 4096 < (m.size + 4095) / 4096
  · simp only [if_pos hpage, physicalAddr_virtualPage]
    by_cases hin : m.InRange addr
    · rw [if_pos hin, if_neg (Nat.not_lt.mpr hin)]
      rfl
    · rw [if_neg hin, if_pos (Nat.not_le.mp hin), if_neg (by omega)]
      rfl
  · -- a page at or above the page count holds no byte of the array
    have hout : ¬ m.InRange addr := by
      intro hin
      rw [InRange] at hin
      omega
    rw [if_neg hpage, if_neg hout, if_pos (by omega)]
    rfl

/-- Reading through the page table reads the cells. -/
theorem RepresentedBy.readWord {m : FlatMemory} {w : PageWalkMemory} (h : m.RepresentedBy w)
    (hsize : m.size ≤ 2 ^ 32) (addr : Word) :
    (w.readWord addr).mapError VmFault.type
      = if m.InRange addr then .ok (m.word addr.toNat) else .error (m.fault addr) := by
  rw [PageWalkMemory.readWord, mapError_map, h.translate hsize]
  by_cases hin : m.InRange addr
  · rw [if_pos hin, if_pos hin, ← loadWord_contents hin, ← h.bytes_eq]
    rfl
  · rw [if_neg hin, if_neg hin]
    rfl

/-- Writing through the page table writes the cells. -/
theorem RepresentedBy.writeWord {m : FlatMemory} {w : PageWalkMemory} (h : m.RepresentedBy w)
    (hsize : m.size ≤ 2 ^ 32) (addr value : Word) :
    (w.writeWord addr value).mapError VmFault.type
      = if m.InRange addr then .ok (m.setWord addr.toNat value).contents
        else .error (m.fault addr) := by
  rw [PageWalkMemory.writeWord, mapError_map, h.translate hsize]
  by_cases hin : m.InRange addr
  · rw [if_pos hin, if_pos hin, ← storeWord_contents hin, ← h.bytes_eq]
    rfl
  · rw [if_neg hin, if_neg hin]
    rfl

end FlatMemory

namespace VirtualMemory

/-- A word access to a paged memory, reporting the kind of a fault. -/
def access (m : VirtualMemory) (a : WordAccess) :
    (Except FaultType (Option Word) × List Byte) × VirtualMemory :=
  (((m.call a.toCall).1.1.mapError VmFault.type, (m.call a.toCall).1.2), (m.call a.toCall).2)

/-- `m` implements the flat memory `flat`: without its TLB it represents it. -/
structure Implements (m : VirtualMemory) (flat : FlatMemory) : Prop where
  coherent : m.Coherent
  represented : flat.RepresentedBy m.walk
  size_le : flat.size ≤ 2 ^ 32

/-- One access to a paged memory is the access to the flat memory it implements. -/
theorem Implements.access {m : VirtualMemory} {flat : FlatMemory} (h : m.Implements flat)
    (a : WordAccess) :
    (m.access a).1 = (flat.access a).1 ∧ (m.access a).2.Implements (flat.access a).2 := by
  obtain ⟨hreply, hwalk, hcoh⟩ := call_walk h.coherent a.toCall
  have hbytes : m.walk.bytes = flat.contents := h.represented.bytes_eq
  -- the TLB is invisible, so it is enough to look at the page walk
  suffices hw : ((m.walk.call a.toCall).1.1.mapError VmFault.type, (m.walk.call a.toCall).1.2)
        = (flat.access a).1
      ∧ (flat.access a).2.RepresentedBy (m.walk.call a.toCall).2
      ∧ (flat.access a).2.size = flat.size by
    refine ⟨?_, hcoh, ?_, ?_⟩
    · rw [VirtualMemory.access, hreply]
      exact hw.1
    · rw [VirtualMemory.access, hwalk]
      exact hw.2.1
    · rw [hw.2.2]
      exact h.size_le
  cases a with
  | read addr =>
      have hread := h.represented.readWord h.size_le addr
      rw [WordAccess.toCall, PageWalkMemory.call, FlatMemory.access, mapError_map, hread, hbytes]
      by_cases hin : flat.InRange addr
      · rw [if_pos hin, if_pos hin]
        exact ⟨rfl, h.represented, rfl⟩
      · rw [if_neg hin, if_neg hin]
        exact ⟨rfl, h.represented, rfl⟩
  | write addr value =>
      have hwrite := h.represented.writeWord h.size_le addr value
      rw [WordAccess.toCall, PageWalkMemory.call, FlatMemory.access]
      by_cases hin : flat.InRange addr
      · rw [if_pos hin, mapError_eq_ok_iff] at hwrite
        rw [hwrite, if_pos hin]
        exact ⟨rfl, ⟨rfl, h.represented.pageTable_eq⟩, rfl⟩
      · rw [if_neg hin, mapError_eq_error_iff] at hwrite
        obtain ⟨fault, hw, hfault⟩ := hwrite
        rw [hw, if_neg hin, ← hfault, hbytes]
        exact ⟨rfl, h.represented, rfl⟩

/-- **Paged memory refines flat memory.** Every sequence of word accesses to a constructed memory
of at most 4 GiB has, access by access, the outcome and the bytes it has on a zeroed array. -/
theorem refines_flat (bytes : Nat) (h : bytes ≤ 2 ^ 32) (accesses : List WordAccess) :
    Component.trace access (create bytes) accesses
      = Component.trace FlatMemory.access (FlatMemory.zeroed bytes) accesses := by
  refine Component.trace_eq_of_bisimulation Implements (fun _ => True) ?_
    ⟨coherent_create bytes, FlatMemory.representedBy_create bytes, h⟩ (fun _ _ => trivial)
  intro m flat a _ himpl
  exact himpl.access a

/-- The refinement on the test memory of 16 KiB: a word written at address 0 is read back. -/
theorem refines_flat_16384 : (16384 : Nat) ≤ 2 ^ 32 ∧
    Component.trace access (create 16384) [.write 0 99, .read 0]
      = Component.trace FlatMemory.access (FlatMemory.zeroed 16384) [.write 0 99, .read 0] :=
  ⟨by decide, refines_flat 16384 (by decide) [.write 0 99, .read 0]⟩

end VirtualMemory

end VmmShowcase
