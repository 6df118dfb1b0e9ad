import VmmShowcase.Memory.Isolation

/-! # Translation in exact integers

`Translate` multiplies a frame number by the page size in 32 bits and compares the wrapped address
with the number of backing bytes. So a frame number from 2^20 on stands for the frame that 32 bits
keep of it, and an access goes wrong exactly where the backing bytes reach into that frame. -/

namespace VmmShowcase

namespace VirtualMemory

/-- The physical address of a virtual one in a frame, in unbounded integers. -/
def exactAddr (frame virtualAddr : Word) : Nat :=
  frame.toNat * kPageSize + (pageOffset virtualAddr).toNat

/-- Where an access at a virtual address goes, in unbounded integers. -/
def exactTranslate (m : VirtualMemory) (virtualAddr : Word) : Except VmFault Nat :=
  match m.pageTable (virtualPage virtualAddr) with
  | none => .error pageFault
  | some frame =>
      if exactAddr frame virtualAddr + 4 ≤ m.bytes.length then .ok (exactAddr frame virtualAddr)
      else .error addressOutOfRange

/-- `ReadWord` and `WriteWord` at a virtual address access exactly the four bytes at its exact physical
address, or fail and change no byte. -/
structure ExactAt (m : VirtualMemory) (virtualAddr : Word) : Prop where
  read : (m.readWord virtualAddr).1 = (m.exactTranslate virtualAddr).map fun addr =>
    LittleEndian.toBitVec 32 (ByteVector.slice m.bytes addr 4)
  read_bytes : (m.readWord virtualAddr).2.bytes = m.bytes
  write : ∀ value, (m.writeWord virtualAddr value).1
    = (m.exactTranslate virtualAddr).map fun _ => ()
  written : ∀ value addr, m.exactTranslate virtualAddr = .ok addr →
    (m.writeWord virtualAddr value).2.bytes
      = ByteVector.overwrite m.bytes addr (LittleEndian.ofBitVec 4 value)
  failed : ∀ value fault, m.exactTranslate virtualAddr = .error fault →
    (m.writeWord virtualAddr value).2.bytes = m.bytes

/-- The page of a virtual address is unmapped, or mapped to a frame below 2^20, or the backing bytes
end before the word does in the frame that 32 bits keep. -/
def FrameFits (m : VirtualMemory) (virtualAddr : Word) : Prop :=
  ∀ frame, m.pageTable (virtualPage virtualAddr) = some frame →
    frame.toNat < 2 ^ 20
      ∨ m.bytes.length < frame.toNat % 2 ^ 20 * kPageSize + (pageOffset virtualAddr).toNat + 4

/-- What `WriteWord` answers and leaves, by the outcome of a page walk. -/
theorem writeWord_of_walk {m : VirtualMemory} (h : m.Coherent) (virtualAddr value : Word) :
    (m.writeWord virtualAddr value).1 = (m.walk.translate virtualAddr).map (fun _ => ())
      ∧ (∀ paddr, m.walk.translate virtualAddr = .ok paddr →
        (m.writeWord virtualAddr value).2.bytes = storeWord m.bytes paddr value)
      ∧ ∀ fault, m.walk.translate virtualAddr = .error fault →
        (m.writeWord virtualAddr value).2.bytes = m.bytes := by
  have hwrite := writeWord_walk h virtualAddr value
  rw [PageWalkMemory.writeWord] at hwrite
  cases htr : m.walk.translate virtualAddr with
  | error fault =>
      rw [htr] at hwrite
      refine ⟨hwrite.1, fun paddr hok => absurd hok (by simp), fun _ _ => hwrite.2.bytes_eq⟩
  | ok paddr =>
      rw [htr] at hwrite
      refine ⟨hwrite.1, fun paddr' hok => ?_, fun fault herror => absurd herror (by simp)⟩
      rw [Except.ok.injEq] at hok
      rw [← hok]
      exact hwrite.2.bytes_eq

/-- A page walk goes where exact integers lead precisely if the frame fits. -/
theorem map_toNat_translate_eq_iff {m : VirtualMemory} {virtualAddr : Word} :
    (m.walk.translate virtualAddr).map BitVec.toNat = m.exactTranslate virtualAddr
      ↔ m.FrameFits virtualAddr := by
  rw [PageWalkMemory.translate, exactTranslate, FrameFits, walk_pageTable]
  cases m.pageTable (virtualPage virtualAddr) with
  | none => exact iff_of_true rfl (by simp)
  | some frame =>
      have hpaddr := toNat_physicalAddr_frame frame virtualAddr
      have hexact : exactAddr frame virtualAddr
          = frame.toNat * 4096 + (pageOffset virtualAddr).toNat := rfl
      have hmod := Nat.mod_add_div frame.toNat (2 ^ 20)
      have hbytes : m.walk.bytes.length = m.bytes.length := rfl
      simp only [Option.some.injEq, forall_eq', kPageSize, hbytes]
      by_cases hwrapped : (physicalAddr frame (pageOffset virtualAddr)).toNat + 4 > m.bytes.length
      · -- out of range after the wrap, and all the more before it
        rw [if_pos hwrapped, if_neg (by omega)]
        exact iff_of_true rfl (.inr (by omega))
      rw [if_neg hwrapped, Except.map]
      by_cases hfits : exactAddr frame virtualAddr + 4 ≤ m.bytes.length
      · rw [if_pos hfits, Except.ok.injEq]
        omega
      · rw [if_neg hfits]
        refine iff_of_false (by simp) ?_
        omega

/-- Storing at two addresses that are apart leaves different bytes, for some value. -/
theorem exists_storeWord_ne_overwrite {bytes : List Byte} {paddr : Word} {addr : Nat}
    (h : paddr.toNat + 4 ≤ bytes.length) (haddr : addr + 4 ≤ bytes.length)
    (hapart : Apart addr paddr.toNat) :
    ∃ value, storeWord bytes paddr value
      ≠ ByteVector.overwrite bytes addr (LittleEndian.ofBitVec 4 value) := by
  refine ⟨~~~ loadWord bytes paddr, fun heq => ?_⟩
  have hload := congrArg (fun bytes => loadWord bytes paddr) heq
  simp only [loadWord_storeWord_self h] at hload
  have hlen : (LittleEndian.ofBitVec 4 (~~~ loadWord bytes paddr)).length = 4 :=
    LittleEndian.length_ofBitVec 4 _
  -- the store elsewhere leaves the old word, which is its complement nowhere
  have hkept : ByteVector.slice (ByteVector.overwrite bytes addr
      (LittleEndian.ofBitVec 4 (~~~ loadWord bytes paddr))) paddr.toNat 4
      = ByteVector.slice bytes paddr.toNat 4 := by
    refine ByteVector.slice_overwrite_of_disjoint (by rw [hlen]; exact haddr) ?_
    rw [hlen]
    exact hapart.symm
  have hold : ~~~ loadWord bytes paddr = loadWord bytes paddr := by
    rw [hload, loadWord, hkept, loadWord]
  have hnat := congrArg BitVec.toNat hold
  rw [BitVec.toNat_not] at hnat
  omega

/-- Where a page walk and exact integers both lead into the backing bytes, the addresses are equal or
apart. -/
theorem toNat_eq_or_apart {m : VirtualMemory} {virtualAddr paddr : Word} {addr : Nat}
    (hwalk : m.walk.translate virtualAddr = .ok paddr)
    (hexact : m.exactTranslate virtualAddr = .ok addr) :
    addr + 4 ≤ m.bytes.length ∧ (paddr.toNat = addr ∨ Apart addr paddr.toNat) := by
  obtain ⟨frame, hframe, rfl, -⟩ := walk_translate_eq_ok_iff.mp hwalk
  rw [exactTranslate, hframe] at hexact
  simp only at hexact
  split at hexact
  · rename_i hfits
    rw [Except.ok.injEq] at hexact
    rw [← hexact]
    refine ⟨hfits, ?_⟩
    rw [toNat_physicalAddr_frame, exactAddr, kPageSize, Apart]
    omega
  · cases hexact

/-- Through a coherent TLB, accesses are exact precisely where the frame fits. -/
theorem exactAt_iff_frameFits {m : VirtualMemory} (h : m.Coherent) {virtualAddr : Word} :
    m.ExactAt virtualAddr ↔ m.FrameFits virtualAddr := by
  rw [← map_toNat_translate_eq_iff]
  constructor
  · intro hexact
    have hreply := hexact.write 0
    rw [(writeWord_of_walk h virtualAddr 0).1] at hreply
    cases htr : m.walk.translate virtualAddr with
    | error fault =>
        rw [htr] at hreply
        cases hex : m.exactTranslate virtualAddr with
        | error fault' =>
            rw [hex] at hreply
            exact congrArg Except.error (Except.error.inj hreply)
        | ok addr =>
            rw [hex] at hreply
            cases hreply
    | ok paddr =>
        rw [htr] at hreply
        cases hex : m.exactTranslate virtualAddr with
        | error fault' =>
            rw [hex] at hreply
            cases hreply
        | ok addr =>
            obtain ⟨hinside, heq | hapart⟩ := toNat_eq_or_apart htr hex
            · exact congrArg Except.ok heq
            obtain ⟨value, hne⟩ := exists_storeWord_ne_overwrite (PageWalkMemory.translate_le htr)
              hinside hapart
            refine absurd ?_ hne
            show storeWord m.bytes paddr value = _
            rw [← (writeWord_of_walk h virtualAddr value).2.1 paddr htr]
            exact hexact.written value addr hex
  · intro hwalk
    constructor
    · rw [(readWord_walk h virtualAddr).1, ← hwalk, PageWalkMemory.readWord]
      cases m.walk.translate virtualAddr <;> rfl
    · exact (readWord_walk h virtualAddr).2.bytes_eq
    · intro value
      rw [(writeWord_of_walk h virtualAddr value).1, ← hwalk]
      cases m.walk.translate virtualAddr <;> rfl
    · intro value addr hex
      rw [hex] at hwalk
      cases htr : m.walk.translate virtualAddr with
      | error fault =>
          rw [htr] at hwalk
          cases hwalk
      | ok paddr =>
          rw [htr] at hwalk
          rw [(writeWord_of_walk h virtualAddr value).2.1 paddr htr, storeWord,
            Except.ok.inj hwalk]
    · intro value fault hex
      rw [hex] at hwalk
      cases htr : m.walk.translate virtualAddr with
      | error fault' => exact (writeWord_of_walk h virtualAddr value).2.2 fault' htr
      | ok paddr =>
          rw [htr] at hwalk
          cases hwalk

/-- **Exact translation.** In every memory that comes from the constructor by any calls, an access at
a virtual address succeeds, fails and touches bytes as in exact integers precisely if its page is
unmapped, or mapped to a frame below 2^20, or the backing bytes end before the word in the frame that
32 bits keep. -/
theorem exactAt_iff (bytes : Nat) (calls : List MemoryCall) (virtualAddr : Word) :
    (Component.after call (create bytes) calls).ExactAt virtualAddr
      ↔ (Component.after call (create bytes) calls).FrameFits virtualAddr :=
  exactAt_iff_frameFits (Component.after_invariant Coherent (fun _ c h => (call_walk h c).2.2)
    (coherent_create bytes) calls)

/-- Frame 2^20 is taken for frame 0. -/
theorem not_exactAt_mapPage : ¬ ∀ (bytes : Nat) (calls : List MemoryCall) (virtualAddr : Word),
    (Component.after call (create bytes) calls).ExactAt virtualAddr := by
  intro h
  have hread := (h 4 [.mapPage 0 (BitVec.ofNat 32 (2 ^ 20))] 0).read
  exact absurd hread (by decide)

end VirtualMemory

end VmmShowcase
