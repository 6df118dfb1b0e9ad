import VmmShowcase.Foundations.Words
import VmmShowcase.Snapshot.SnapshotService

/-! # Complete snapshot files

A complete snapshot file is a line with a name, and behind it as many words as the snapshot has numbers,
each of which writes its number: `pc`, `hi`, `lo`, the registers, the number of bytes and the bytes.
`Save` writes such a file for every name without a line end. `Load` returns true for whatever an opened
file contains, with stale values in the target where an extraction failed. -/

namespace VmmShowcase

open Text TextStream

namespace SnapshotService

/-- The numbers of a snapshot, in the order of the file. -/
def numbers (snapshot : VmSnapshot) : List Int :=
  [(snapshot.cpu.pc.toNat : Int), snapshot.cpu.hi.toInt, snapshot.cpu.lo.toInt]
    ++ ((List.ofFn snapshot.cpu.regs).map BitVec.toInt
    ++ ((snapshot.memoryBytes.length : Int) :: snapshot.memoryBytes.map fun b => (b.toNat : Int)))

/-- The file is complete, and holds this snapshot. -/
structure IsSnapshot (text : List Byte) (snapshot : VmSnapshot) : Prop where
  newline_notMem : newline ∉ snapshot.vmName
  length_le : snapshot.memoryBytes.length ≤ maxSize
  numbers_eq : ∃ body, text = snapshot.vmName ++ newline :: body
    ∧ (words body).map numeral = (numbers snapshot).map some

/-- `Load` of an opened file is all or nothing: it returns true for a complete file, with the name, the
processor and the bytes of the snapshot in the target, or false with the target as it was. -/
def LoadsWhole (text : List Byte) (target : VmSnapshot) (error : String) : Prop :=
  ∃ ok target' error', load (some text) target error = some (ok, target', error')
    ∧ (ok = true ∧ (∃ snapshot, IsSnapshot text snapshot ∧ target'.vmName = snapshot.vmName
          ∧ target'.cpu = snapshot.cpu ∧ target'.memoryBytes = snapshot.memoryBytes)
      ∨ ok = false ∧ target' = target)

/-! ## Loading a complete file -/

/-- The words that write a processor are read as it. -/
theorem takesWords_readCpu {cpu : CpuState} {pc hi lo : List Byte} {regs : List (List Byte)}
    (hpc : numeral pc = some (cpu.pc.toNat : Int)) (hhi : numeral hi = some cpu.hi.toInt)
    (hlo : numeral lo = some cpu.lo.toInt)
    (hregs : regs.map numeral = (List.ofFn cpu.regs).map fun x => some x.toInt) (old : CpuState) :
    TakesWords (readCpu old) ([pc] ++ ([hi] ++ ([lo] ++ regs))) cpu := by
  have hlen : (List.ofFn old.regs).length = (List.ofFn cpu.regs).length := by
    rw [List.length_ofFn, List.length_ofFn]
  have hread := (takesWords_each hregs hlen).map fun regs =>
    ({ regs := fun i => regs.getD i 0, hi := cpu.hi, lo := cpu.lo, pc := cpu.pc } : CpuState)
  simp only [getD_ofFn] at hread
  unfold readCpu
  exact (takesWords_unsigned hpc _).bind <| (takesWords_signed hhi _).bind <|
    (takesWords_signed hlo _).bind hread

/-- The words that write bytes are read as them. -/
theorem takesWords_readMemory {memoryBytes : List Byte} {texts : List (List Byte)}
    (htexts : texts.map numeral = memoryBytes.map fun b => some (b.toNat : Int)) :
    TakesWords (readMemory memoryBytes.length) texts memoryBytes := by
  have hvalues : texts.map numeral
      = (memoryBytes.map fun b => b.setWidth 32).map fun x : Word => some x.toInt := by
    rw [htexts, List.map_map]
    refine List.map_congr_left fun b _ => ?_
    rw [Function.comp_apply, toInt_setWidth_byte]
  have hlen : (List.replicate memoryBytes.length (0 : Word)).length
      = (memoryBytes.map fun b => b.setWidth 32 : List Word).length := by
    rw [List.length_replicate, List.length_map]
  have hread := (takesWords_each hvalues hlen).map (List.map (·.setWidth 8))
  rwa [map_setWidth_byte] at hread

/-- The extractions up to the number of bytes read what a complete file holds up to there, and leave
the words of the bytes. -/
theorem readHeader_of_isSnapshot {text : List Byte} {snapshot : VmSnapshot}
    (h : IsSnapshot text snapshot) (target : VmSnapshot) :
    (readHeader target (ofText text)).1
        = ({ target with vmName := snapshot.vmName, cpu := snapshot.cpu },
          BitVec.ofNat 64 snapshot.memoryBytes.length)
      ∧ (readHeader target (ofText text)).2.wordsLeft.map numeral
        = snapshot.memoryBytes.map fun b => some (b.toNat : Int) := by
  obtain ⟨body, rfl, hwords⟩ := h.numbers_eq
  -- the words of the file, field by field
  rw [numbers, List.map_append, List.map_append, List.map_cons] at hwords
  obtain ⟨front, others, hbody, hfront, hothers⟩ := List.map_eq_append_iff.mp hwords
  obtain ⟨regs, others, rfl, hregs, hothers⟩ := List.map_eq_append_iff.mp hothers
  obtain ⟨size, bytes, rfl, hsize, hbytes⟩ := List.map_eq_cons_iff.mp hothers
  obtain ⟨pc, front, rfl, hpc, hfront⟩ := List.map_eq_cons_iff.mp hfront
  obtain ⟨hi, front, rfl, hhi, hfront⟩ := List.map_eq_cons_iff.mp hfront
  obtain ⟨lo, front, rfl, hlo, hfront⟩ := List.map_eq_cons_iff.mp hfront
  rw [List.map_nil, List.map_eq_nil_iff] at hfront
  subst hfront
  rw [List.map_map] at hregs hbytes
  have hsize' : numeral size
      = some ((BitVec.ofNat 64 snapshot.memoryBytes.length).toNat : Int) := by
    rw [hsize, toNat_size h.length_le]
  -- the extractions take them one after the other
  have hheader : TakesWords (do
        let cpu ← readCpu target.cpu
        let size ← readUnsigned (0 : BitVec 64)
        return ({ target with vmName := snapshot.vmName, cpu }, size))
      (([pc] ++ ([hi] ++ ([lo] ++ regs))) ++ [size])
      (({ target with vmName := snapshot.vmName, cpu := snapshot.cpu } : VmSnapshot),
        BitVec.ofNat 64 snapshot.memoryBytes.length) :=
    (takesWords_readCpu hpc hhi hlo hregs target.cpu).bind ((takesWords_unsigned hsize' 0).map _)
  have hleft : (ofText body).wordsLeft = (([pc] ++ ([hi] ++ ([lo] ++ regs))) ++ [size]) ++ bytes := by
    rw [wordsLeft_ofText, hbody]
    simp
  obtain ⟨hfst, hrest⟩ := hheader hleft
  rw [readHeader, bind_apply, getline_ofText h.newline_notMem]
  exact ⟨hfst, hrest ▸ hbytes⟩

/-- `Load` of an opened file, by what is extracted from it. -/
theorem load_some (text : List Byte) (target : VmSnapshot) (error : String) :
    load (some text) target error
      = if maxSize < (readHeader target (ofText text)).1.2.toNat then none
        else some (true, { (readHeader target (ofText text)).1.1 with
            memoryBytes := (readMemory (readHeader target (ofText text)).1.2.toNat
              (readHeader target (ofText text)).2).1 }, error) := by
  rw [load]
  rcases readHeader target (ofText text) with ⟨⟨snapshot, size⟩, stream⟩
  dsimp only
  rcases readMemory size.toNat stream with ⟨memoryBytes, stream'⟩
  dsimp only

/-- **A complete file is loaded whole**, whatever the target was. -/
theorem load_of_isSnapshot {text : List Byte} {snapshot : VmSnapshot} (h : IsSnapshot text snapshot)
    (target : VmSnapshot) (error : String) : load (some text) target error
      = some (true, { target with
          vmName := snapshot.vmName, cpu := snapshot.cpu, memoryBytes := snapshot.memoryBytes },
        error) := by
  obtain ⟨hheader, hbytes⟩ := readHeader_of_isSnapshot h target
  have hmemory := (takesWords_readMemory hbytes (List.append_nil _).symm).1
  rw [load_some, hheader, toNat_size h.length_le, if_neg (Nat.not_lt.mpr h.length_le), hmemory]

/-- `Load` of an opened file does not return false. -/
theorem eq_true_of_load {text : List Byte} {target target' : VmSnapshot} {error error' : String}
    {ok : Bool} (h : load (some text) target error = some (ok, target', error')) : ok = true := by
  rw [load_some, Option.ite_none_left_eq_some, Option.some.injEq, Prod.mk.injEq] at h
  exact h.2.1.symm

/-! ## Saving a complete file -/

/-- The words that `Save` prints behind the name are the numbers of the snapshot. -/
theorem words_print (snapshot : VmSnapshot) :
    words (printCpu snapshot.cpu
        ++ (printUnsigned newline snapshot.memoryBytes.length ++ printMemory snapshot.memoryBytes))
      = (numbers snapshot).map signedDecimal := by
  have hspace : IsSpace space := by decide
  have hnewline : IsSpace newline := by decide
  have hregs : (List.ofFn snapshot.cpu.regs).flatMap (printSigned space)
      = ((List.ofFn snapshot.cpu.regs).map BitVec.toInt).flatMap
        fun z => signedDecimal z ++ [space] := by
    rw [List.flatMap_map]
    rfl
  have hbytes : (snapshot.memoryBytes.flatMap fun b => printUnsigned space b.toNat)
      = (snapshot.memoryBytes.map fun b => (b.toNat : Int)).flatMap
        fun z => signedDecimal z ++ [space] := by
    rw [List.flatMap_map]
    simp only [printUnsigned, signedDecimal_natCast]
  rw [printCpu, printMemory, hregs, hbytes, printUnsigned, printUnsigned, printSigned, printSigned,
    ← signedDecimal_natCast, ← signedDecimal_natCast]
  simp only [List.append_assoc, List.cons_append, List.nil_append]
  rw [words_signedDecimal hspace, words_signedDecimal hspace, words_signedDecimal hnewline,
    words_flatMap_signedDecimal hspace, words_cons_of_isSpace hnewline,
    words_signedDecimal hnewline, words_flatMap_signedDecimal hspace,
    words_cons_of_isSpace hnewline, words_nil, List.append_nil, numbers, List.map_append,
    List.map_append]
  rfl

/-- **`Save` writes complete files**, of snapshots whose name has no line end. -/
theorem isSnapshot_print {snapshot : VmSnapshot} (hname : newline ∉ snapshot.vmName)
    (hmem : snapshot.memoryBytes.length ≤ maxSize) : IsSnapshot (print snapshot) snapshot := by
  refine ⟨hname, hmem, _, print_eq snapshot, ?_⟩
  rw [words_print, List.map_map]
  exact List.map_congr_left fun z _ => numeral_signedDecimal z

/-- A file is complete for one name, one processor and one list of bytes. -/
theorem IsSnapshot.unique {text : List Byte} {snapshot snapshot' : VmSnapshot}
    (h : IsSnapshot text snapshot) (h' : IsSnapshot text snapshot') :
    snapshot.vmName = snapshot'.vmName ∧ snapshot.cpu = snapshot'.cpu
      ∧ snapshot.memoryBytes = snapshot'.memoryBytes := by
  have hload := load_of_isSnapshot h snapshot' ""
  rw [load_of_isSnapshot h' snapshot' ""] at hload
  simp only [Option.some.injEq, Prod.mk.injEq, VmSnapshot.mk.injEq] at hload
  exact ⟨hload.2.1.1.symm, hload.2.1.2.1.symm, hload.2.1.2.2.2.symm⟩

/-! ## All or nothing -/

/-- **All or nothing.** `Load` of an opened file is all or nothing if and only if the file is a complete
snapshot. -/
theorem loadsWhole_iff (text : List Byte) (target : VmSnapshot) (error : String) :
    LoadsWhole text target error ↔ ∃ snapshot, IsSnapshot text snapshot := by
  constructor
  · rintro ⟨ok, target', error', hload, ⟨-, snapshot, hsnapshot, -⟩ | ⟨hok, -⟩⟩
    · exact ⟨snapshot, hsnapshot⟩
    · rw [eq_true_of_load hload] at hok
      cases hok
  · rintro ⟨snapshot, h⟩
    exact ⟨true, _, _, load_of_isSnapshot h target error, .inl ⟨rfl, snapshot, h, rfl, rfl, rfl⟩⟩

/-- A file that ends behind the program counter. -/
def truncatedFile : List Byte := bytes ['v', 'm'] ++ newline :: bytes ['8']

/-- `Load` returns true for it: the target keeps `hi`, `lo` and the registers it had. -/
theorem not_loadsWhole_truncatedFile : ¬ LoadsWhole truncatedFile smallSnapshot "" := by
  rintro ⟨ok, target', error', hload, ⟨-, snapshot, h, -⟩ | ⟨rfl, -⟩⟩
  · obtain ⟨body, htext, hwords⟩ := h.numbers_eq
    have hline := getline_ofText h.newline_notMem [] body
    rw [← htext] at hline
    have hline' : getline newline [] (ofText truncatedFile) = (bytes ['v', 'm'], ofText (bytes ['8'])) :=
      rfl
    rw [hline', Prod.mk.injEq] at hline
    have hbody : bytes ['8'] = body := congrArg TextStream.rest hline.2
    have hone : words (bytes ['8']) = [bytes ['8']] := by decide +kernel
    have hlen := congrArg List.length hwords
    rw [← hbody, hone, numbers] at hlen
    simp only [List.length_map, List.length_append, List.length_cons, List.length_nil,
      List.length_ofFn] at hlen
    omega
  · exact absurd (eq_true_of_load hload) (by decide)

end SnapshotService

end VmmShowcase
