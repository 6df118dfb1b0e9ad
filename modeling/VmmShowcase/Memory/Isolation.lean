import VmmShowcase.Memory.Translation

/-! # Isolation of words

A word is read back where it was written. Whether other words are left alone is another matter:
`Translate` looks up the page of a word's first byte only, and the other three stand behind it in the
backing bytes. A word that crosses the end of its page continues in the frame that is next in the
backing bytes, whichever page is mapped there. -/

namespace VmmShowcase

/-- The four addresses from `a` on and the four from `b` on have none in common. -/
def Apart (a b : Nat) : Prop := a + 4 ≤ b ∨ b + 4 ≤ a

namespace VirtualMemory

/-! ## Words in the backing bytes -/

/-- A stored word is loaded back. -/
theorem loadWord_storeWord_self {bytes : List Byte} {paddr : Word}
    (h : paddr.toNat + 4 ≤ bytes.length) (value : Word) :
    loadWord (storeWord bytes paddr value) paddr = value := by
  have hlen : (LittleEndian.ofBitVec 4 value).length = 4 := LittleEndian.length_ofBitVec 4 value
  have hslice := ByteVector.slice_overwrite_self (le_of_eq_of_le (congrArg _ hlen) h)
  rw [hlen] at hslice
  rw [loadWord, storeWord, hslice]
  exact LittleEndian.toBitVec_ofBitVec (by norm_num) value

/-- Storing a word leaves the words apart from it alone. -/
theorem loadWord_storeWord_of_apart {bytes : List Byte} {paddr paddr' : Word}
    (h : paddr.toNat + 4 ≤ bytes.length) (hapart : Apart paddr.toNat paddr'.toNat) (value : Word) :
    loadWord (storeWord bytes paddr value) paddr' = loadWord bytes paddr' := by
  have hlen : (LittleEndian.ofBitVec 4 value).length = 4 := LittleEndian.length_ofBitVec 4 value
  rw [loadWord, storeWord, ByteVector.slice_overwrite_of_disjoint (by rw [hlen]; exact h), loadWord]
  rw [hlen]
  exact hapart.symm

/-- Any word that is not apart from it is changed by storing the right word. -/
theorem exists_loadWord_storeWord_ne {bytes : List Byte} {paddr paddr' : Word}
    (h : paddr.toNat + 4 ≤ bytes.length) (h' : paddr'.toNat + 4 ≤ bytes.length)
    (hshared : ¬ Apart paddr.toNat paddr'.toNat) :
    ∃ value, loadWord (storeWord bytes paddr value) paddr' ≠ loadWord bytes paddr' := by
  -- store the complement of what is there: then every one of the four bytes changes
  have hflipped : ((ByteVector.slice bytes paddr.toNat 4).map (~~~ ·)).length = 4 := by
    rw [List.length_map, ByteVector.length_slice h]
  refine ⟨LittleEndian.toBitVec 32 ((ByteVector.slice bytes paddr.toNat 4).map (~~~ ·)), ?_⟩
  intro heq
  rw [loadWord, storeWord, LittleEndian.ofBitVec_toBitVec (by norm_num) hflipped, loadWord] at heq
  have hfits : paddr.toNat + ((ByteVector.slice bytes paddr.toNat 4).map (~~~ ·)).length
      ≤ bytes.length := by rw [hflipped]; exact h
  have hbytes := congrArg (LittleEndian.ofBitVec 4) heq
  rw [LittleEndian.ofBitVec_toBitVec (by norm_num) (ByteVector.length_slice h'),
    LittleEndian.ofBitVec_toBitVec (by norm_num)
      (ByteVector.length_slice (by rw [ByteVector.length_overwrite hfits]; exact h'))] at hbytes
  -- the two words share the byte at the larger of the two addresses
  unfold Apart at hshared
  obtain ⟨i, hi, j, hj, hij⟩ : ∃ i < 4, ∃ j < 4, paddr.toNat + i = paddr'.toNat + j :=
    ⟨paddr'.toNat - paddr.toNat, by omega, paddr.toNat - paddr'.toNat, by omega, by omega⟩
  have hbyte := congrArg (·[j]?) hbytes
  simp only [ByteVector.getElem?_slice, if_pos hj] at hbyte
  rw [ByteVector.getElem?_overwrite hfits, hflipped, if_pos (by omega), ← hij,
    Nat.add_sub_cancel_left, List.getElem?_map, ByteVector.getElem?_slice, if_pos hi,
    List.getElem?_eq_getElem (by omega), Option.map_some, Option.some.injEq] at hbyte
  have hnat := congrArg BitVec.toNat hbyte
  rw [BitVec.toNat_not] at hnat
  omega

/-! ## Words under a page table -/

/-- Different pages are mapped to different frames, and every frame lies wholly inside the backing
bytes. -/
structure WellMapped (m : VirtualMemory) : Prop where
  injective : ∀ page page' frame, m.pageTable page = some frame →
    m.pageTable page' = some frame → page = page'
  inside : ∀ page frame, m.pageTable page = some frame →
    (frame.toNat + 1) * kPageSize ≤ m.bytes.length

/-- A word written at `a` is read back there, and a word at `b` that has no virtual address in common
with it reads as before. -/
def Isolates (m : VirtualMemory) (a b : Word) : Prop :=
  ∀ value m', m.writeWord a value = (.ok (), m') →
    (m'.readWord a).1 = .ok value
      ∧ (Apart a.toNat b.toNat → (m'.readWord b).1 = (m.readWord b).1)

/-- The word at `a` crosses the end of its frame, and reaches the word at `b` in the frame behind. -/
def Spills (m : VirtualMemory) (a b : Word) : Prop :=
  ∃ frame frame', m.pageTable (virtualPage a) = some frame
    ∧ m.pageTable (virtualPage b) = some frame'
    ∧ frame'.toNat % 2 ^ 20 = frame.toNat % 2 ^ 20 + 1
    ∧ kPageSize + (pageOffset b).toNat < (pageOffset a).toNat + 4

/-- The words at `a` and `b` overlap in two frames that have the same 32-bit address, which takes more
than 4 GiB of backing bytes. -/
def Aliases (m : VirtualMemory) (a b : Word) : Prop :=
  ∃ frame frame', m.pageTable (virtualPage a) = some frame
    ∧ m.pageTable (virtualPage b) = some frame' ∧ frame ≠ frame'
    ∧ frame'.toNat % 2 ^ 20 = frame.toNat % 2 ^ 20
    ∧ ¬ Apart (pageOffset a).toNat (pageOffset b).toNat

/-- The ways in which words at different virtual addresses share backing bytes. -/
def Collide (m : VirtualMemory) (a b : Word) : Prop :=
  m.Spills a b ∨ m.Spills b a ∨ m.Aliases a b

/-- The physical address of a word stands in the frame that 32 bits keep of its page's number. -/
theorem toNat_physicalAddr_frame (frame virtualAddr : Word) :
    (physicalAddr frame (pageOffset virtualAddr)).toNat
      = frame.toNat % 2 ^ 20 * 4096 + (pageOffset virtualAddr).toNat := by
  rw [toNat_physicalAddr, toNat_pageOffset]
  omega

/-- A page walk succeeds where the page is mapped and the four bytes exist. -/
theorem walk_translate_eq_ok_iff {m : VirtualMemory} {virtualAddr paddr : Word} :
    m.walk.translate virtualAddr = .ok paddr
      ↔ ∃ frame, m.pageTable (virtualPage virtualAddr) = some frame
        ∧ paddr = physicalAddr frame (pageOffset virtualAddr)
        ∧ paddr.toNat + 4 ≤ m.bytes.length := by
  rw [PageWalkMemory.translate, walk_pageTable]
  cases m.pageTable (virtualPage virtualAddr) with
  | none => simp
  | some frame =>
      show (if _ > m.bytes.length then _ else _) = _ ↔ _
      by_cases hfits : (physicalAddr frame (pageOffset virtualAddr)).toNat + 4 ≤ m.bytes.length
      · rw [if_neg (Nat.not_lt.mpr hfits), Except.ok.injEq]
        simp only [Option.some.injEq, exists_eq_left']
        constructor
        · rintro rfl
          exact ⟨rfl, hfits⟩
        · exact fun h => h.1.symm
      · rw [if_pos (Nat.not_le.mp hfits)]
        simp only [Option.some.injEq, exists_eq_left', reduceCtorEq, false_iff]
        rintro ⟨rfl, h⟩
        exact hfits h

/-- **What is read behind a successful write.** Every address is translated as before, and its word is
loaded from the bytes with the written word stored. -/
theorem readWord_of_writeWord {m m' : VirtualMemory} (hm : m.Coherent) {a value : Word}
    (h : m.writeWord a value = (.ok (), m')) :
    ∃ paddr, m.walk.translate a = .ok paddr ∧ ∀ b, (m'.readWord b).1
      = (m.walk.translate b).map (loadWord (storeWord m.bytes paddr value)) := by
  have hwrite := writeWord_walk hm a value
  have hreply := (translate_walk hm a).1
  rw [PageWalkMemory.writeWord] at hwrite
  cases htr : m.walk.translate a with
  | error fault =>
      rw [htr] at hwrite
      have hfault := hwrite.1
      rw [h] at hfault
      cases hfault
  | ok paddr =>
      rw [htr] at hwrite
      obtain ⟨-, hrefill⟩ := hwrite
      rw [h] at hrefill
      refine ⟨paddr, rfl, fun b => ?_⟩
      have hbytes : m'.bytes = storeWord m.bytes paddr value := hrefill.bytes_eq
      have hlen : m'.walk.bytes.length = m.walk.bytes.length := by
        show m'.bytes.length = m.bytes.length
        rw [hbytes, storeWord, ByteVector.length_overwrite]
        rw [LittleEndian.length_ofBitVec]
        exact PageWalkMemory.translate_le htr
      rw [(readWord_walk hrefill.coherent b).1, PageWalkMemory.readWord,
        PageWalkMemory.translate_congr hrefill.pageTable_eq hlen]
      show _ = Except.map (loadWord _) _
      rw [← hbytes]
      rfl

/-- Having no address in common goes both ways. -/
theorem apart_comm {a b : Nat} : Apart a b ↔ Apart b a := or_comm

/-- An offset is below the page size. -/
theorem toNat_pageOffset_lt (virtualAddr : Word) : (pageOffset virtualAddr).toNat < 4096 := by
  rw [toNat_pageOffset]
  omega

/-- A spilling word and the word it reaches both translate, and share backing bytes. -/
theorem Spills.exists_shared {m : VirtualMemory} (hm : m.WellMapped) {a b : Word}
    (h : m.Spills a b) : ∃ paddr paddr', m.walk.translate a = .ok paddr
      ∧ m.walk.translate b = .ok paddr' ∧ ¬ Apart paddr.toNat paddr'.toNat := by
  obtain ⟨frame, frame', hframe, hframe', hnext, hreach⟩ := h
  have hinside := hm.inside _ _ hframe'
  have hoffset := toNat_pageOffset_lt a
  have hpaddr := toNat_physicalAddr_frame frame a
  have hpaddr' := toNat_physicalAddr_frame frame' b
  rw [kPageSize] at hinside hreach
  -- the frame behind lies inside the backing bytes, so both words do
  refine ⟨_, _, walk_translate_eq_ok_iff.mpr ⟨frame, hframe, rfl, by omega⟩,
    walk_translate_eq_ok_iff.mpr ⟨frame', hframe', rfl, by omega⟩, ?_⟩
  unfold Apart
  omega

/-- Words in frames of the same 32-bit address both translate, and share backing bytes. -/
theorem Aliases.exists_shared {m : VirtualMemory} (hm : m.WellMapped) {a b : Word}
    (h : m.Aliases a b) : ∃ paddr paddr', m.walk.translate a = .ok paddr
      ∧ m.walk.translate b = .ok paddr' ∧ ¬ Apart paddr.toNat paddr'.toNat := by
  obtain ⟨frame, frame', hframe, hframe', hne, hsame, hshared⟩ := h
  have hinside := hm.inside _ _ hframe
  have hinside' := hm.inside _ _ hframe'
  have hoffset := toNat_pageOffset_lt a
  have hoffset' := toNat_pageOffset_lt b
  have hpaddr := toNat_physicalAddr_frame frame a
  have hpaddr' := toNat_physicalAddr_frame frame' b
  have hnat : frame.toNat ≠ frame'.toNat := fun heq => hne (BitVec.eq_of_toNat_eq heq)
  rw [kPageSize] at hinside hinside'
  unfold Apart at hshared ⊢
  -- one of the two frames lies beyond 4 GiB, so both words end before the backing bytes do
  exact ⟨_, _, walk_translate_eq_ok_iff.mpr ⟨frame, hframe, rfl, by omega⟩,
    walk_translate_eq_ok_iff.mpr ⟨frame', hframe', rfl, by omega⟩, by omega⟩

/-- **Words collide** if both translate, to physical addresses that are not apart though their
virtual addresses are. -/
theorem WellMapped.collide_iff {m : VirtualMemory} (hm : m.WellMapped) {a b : Word}
    (hapart : Apart a.toNat b.toNat) :
    m.Collide a b ↔ ∃ paddr paddr', m.walk.translate a = .ok paddr
      ∧ m.walk.translate b = .ok paddr' ∧ ¬ Apart paddr.toNat paddr'.toNat := by
  constructor
  · rintro (hspills | hspills | haliases)
    · exact hspills.exists_shared hm
    · obtain ⟨paddr', paddr, hb, ha, hshared⟩ := hspills.exists_shared hm
      exact ⟨paddr, paddr', ha, hb, by rwa [apart_comm]⟩
    · exact haliases.exists_shared hm
  · rintro ⟨paddr, paddr', ha, hb, hshared⟩
    obtain ⟨frame, hframe, rfl, -⟩ := walk_translate_eq_ok_iff.mp ha
    obtain ⟨frame', hframe', rfl, -⟩ := walk_translate_eq_ok_iff.mp hb
    have hoffset := toNat_pageOffset_lt a
    have hoffset' := toNat_pageOffset_lt b
    rw [toNat_physicalAddr_frame, toNat_physicalAddr_frame, Apart] at hshared
    rcases Nat.lt_trichotomy (frame.toNat % 2 ^ 20) (frame'.toNat % 2 ^ 20) with hlt | hsame | hgt
    · exact .inl ⟨frame, frame', hframe, hframe', by omega, by rw [kPageSize]; omega⟩
    · refine .inr (.inr ⟨frame, frame', hframe, hframe', ?_, hsame.symm, by unfold Apart; omega⟩)
      -- one frame would be one page, and there the virtual addresses are apart
      rintro rfl
      have hpage := congrArg BitVec.toNat (hm.injective _ _ _ hframe hframe')
      rw [toNat_virtualPage, toNat_virtualPage] at hpage
      rw [toNat_pageOffset, toNat_pageOffset] at hshared
      unfold Apart at hapart
      omega
    · exact .inr (.inl ⟨frame', frame, hframe', hframe, by omega, by rw [kPageSize]; omega⟩)

/-- A word that collides with another one is not isolated from it. -/
theorem Collide.not_isolates {m : VirtualMemory} (hcoh : m.Coherent) (hm : m.WellMapped) {a b : Word}
    (hapart : Apart a.toNat b.toNat) (h : m.Collide a b) : ¬ m.Isolates a b := by
  intro hisolates
  obtain ⟨paddr, paddr', ha, hb, hshared⟩ := (hm.collide_iff hapart).mp h
  obtain ⟨value, hne⟩ := exists_loadWord_storeWord_ne (PageWalkMemory.translate_le ha)
    (PageWalkMemory.translate_le hb) hshared
  have hwrite := writeWord_walk hcoh a value
  rw [PageWalkMemory.writeWord, ha] at hwrite
  have hok : m.writeWord a value = (.ok (), (m.writeWord a value).2) := Prod.ext hwrite.1 rfl
  obtain ⟨paddr'', ha'', hread⟩ := readWord_of_writeWord hcoh hok
  rw [ha, Except.ok.injEq] at ha''
  subst ha''
  have hkept := (hisolates value _ hok).2 hapart
  rw [hread, hb, (readWord_walk hcoh b).1, PageWalkMemory.readWord, hb] at hkept
  exact hne (Except.ok.inj hkept)

/-- A word that collides with none at virtual addresses of its own is isolated. -/
theorem isolates_of_not_collide {m : VirtualMemory} (hcoh : m.Coherent) (hm : m.WellMapped)
    {a b : Word} (hfree : Apart a.toNat b.toNat → ¬ m.Collide a b) : m.Isolates a b := by
  intro value m' hok
  obtain ⟨paddr, ha, hread⟩ := readWord_of_writeWord hcoh hok
  refine ⟨?_, fun hapart => ?_⟩
  · rw [hread, ha]
    exact congrArg _ (loadWord_storeWord_self (PageWalkMemory.translate_le ha) value)
  · rw [hread, (readWord_walk hcoh b).1, PageWalkMemory.readWord]
    cases hb : m.walk.translate b with
    | error fault => rfl
    | ok paddr' =>
        have hphysical : Apart paddr.toNat paddr'.toNat := by
          by_contra hshared
          exact hfree hapart ((hm.collide_iff hapart).mpr ⟨paddr, paddr', ha, hb, hshared⟩)
        exact congrArg _
          (loadWord_storeWord_of_apart (PageWalkMemory.translate_le ha) hphysical value)

/-- Words that do not cross the end of their page do not collide in a memory of at most 4 GiB. -/
theorem WellMapped.not_collide {m : VirtualMemory} (hm : m.WellMapped)
    (hsize : m.bytes.length ≤ 2 ^ 32) {a b : Word} (ha : (pageOffset a).toNat + 4 ≤ kPageSize)
    (hb : (pageOffset b).toNat + 4 ≤ kPageSize) : ¬ m.Collide a b := by
  rw [kPageSize] at ha hb
  rintro (⟨frame, frame', -, -, -, h⟩ | ⟨frame, frame', -, -, -, h⟩ |
    ⟨frame, frame', hframe, hframe', hne, hsame, -⟩)
  · rw [kPageSize] at h
    omega
  · rw [kPageSize] at h
    omega
  · have hinside := hm.inside _ _ hframe
    have hinside' := hm.inside _ _ hframe'
    rw [kPageSize] at hinside hinside'
    exact hne (BitVec.eq_of_toNat_eq (by omega))

/-- **Isolation.** Under a page table that maps different pages to different frames inside the backing
bytes, a written word is read back, and a word that shares no virtual address with it reads as before,
exactly if the two words do not collide. -/
theorem isolates_iff {m : VirtualMemory} (hcoh : m.Coherent) (hm : m.WellMapped) (a b : Word) :
    m.Isolates a b ↔ (Apart a.toNat b.toNat → ¬ m.Collide a b) := by
  constructor
  · intro hisolates hapart hcollide
    exact hcollide.not_isolates hcoh hm hapart hisolates
  · exact isolates_of_not_collide hcoh hm

/-- A memory of two frames, with page 0 mapped to the first and page 5 to the second one. -/
def spillingMemory : VirtualMemory :=
  (create 8192).restorePageTable ((Table.empty.insert 0 0).insert 5 1)

/-- The two entries of its page table. -/
theorem spillingMemory_pageTable {page frame : Word}
    (h : spillingMemory.pageTable page = some frame) :
    (page = 0 ∧ frame = 0) ∨ (page = 5 ∧ frame = 1) := by
  change ((Table.empty.insert 0 0).insert 5 1 : PageTable) page = some frame at h
  by_cases h₅ : page = 5
  · subst h₅
    rw [Table.insert_self, Option.some.injEq] at h
    exact .inr ⟨rfl, h.symm⟩
  rw [Table.insert_of_ne _ _ h₅] at h
  by_cases h₀ : page = 0
  · subst h₀
    rw [Table.insert_self, Option.some.injEq] at h
    exact .inl ⟨rfl, h.symm⟩
  · rw [Table.insert_of_ne _ _ h₀, Table.empty_apply] at h
    cases h

/-- It has a coherent TLB. -/
theorem spillingMemory_coherent : spillingMemory.Coherent := coherent_restorePageTable _ _

/-- It maps different pages to different frames inside its bytes. -/
theorem spillingMemory_wellMapped : spillingMemory.WellMapped := by
  have hlen : spillingMemory.bytes.length = 8192 := List.length_replicate
  constructor
  · intro page page' frame h h'
    rcases spillingMemory_pageTable h with ⟨rfl, rfl⟩ | ⟨rfl, rfl⟩ <;>
      rcases spillingMemory_pageTable h' with ⟨rfl, hframe⟩ | ⟨rfl, hframe⟩ <;>
      first | rfl | exact absurd hframe (by decide)
  · intro page frame h
    rw [hlen]
    rcases spillingMemory_pageTable h with ⟨-, rfl⟩ | ⟨-, rfl⟩ <;> decide

/-- The theorem at the last word of page 0 and the first one of page 5: neither crosses a page. -/
theorem isolates_iff_spillingMemory : spillingMemory.Isolates 4092 20480 := by
  refine (isolates_iff spillingMemory_coherent spillingMemory_wellMapped _ _).mpr fun _ => ?_
  refine spillingMemory_wellMapped.not_collide ?_ (by decide) (by decide)
  rw [show spillingMemory.bytes.length = 8192 from List.length_replicate]
  decide

/-- Two bytes further on, the word of page 0 continues in the first word of page 5. -/
theorem spillingMemory_not_isolates : spillingMemory.Coherent ∧ spillingMemory.WellMapped
    ∧ Apart (4094 : Word).toNat (20480 : Word).toNat ∧ ¬ spillingMemory.Isolates 4094 20480 := by
  have hapart : Apart (4094 : Word).toNat (20480 : Word).toNat := .inl (by decide)
  have hspills : spillingMemory.Spills 4094 20480 := ⟨0, 1, rfl, rfl, by decide, by decide⟩
  have hcollide : spillingMemory.Collide 4094 20480 := .inl hspills
  exact ⟨spillingMemory_coherent, spillingMemory_wellMapped, hapart,
    hcollide.not_isolates spillingMemory_coherent spillingMemory_wellMapped hapart⟩

end VirtualMemory

end VmmShowcase
