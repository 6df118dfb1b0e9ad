import VmmShowcase.Foundations.TimeSlicing
import VmmShowcase.Legacy.SnapshotFile

/-! # The legacy configuration files

Each legacy program reads a file for each of its machines, which assigns the length of the machine's
slices and the name of its instruction file. The slice of a machine is an uninitialised `int`, so that
it keeps an arbitrary value where the file does not assign it. -/

namespace VmmShowcase

open Text TextStream

/-- The members of `VmClass` that a configuration file assigns. -/
structure Configuration where
  vm_exec_slice_in_instructions : Word
  vm_binary : List Byte
  deriving DecidableEq

namespace Configuration

/-- `vm_exec_slice_in_instructions`. -/
def sliceKey : List Byte :=
  bytes ['v', 'm', '_', 'e', 'x', 'e', 'c', '_', 's', 'l', 'i', 'c', 'e', '_', 'i', 'n', '_', 'i',
    'n', 's', 't', 'r', 'u', 'c', 't', 'i', 'o', 'n', 's']

/-- `vm_binary`. -/
def binaryKey : List Byte := bytes ['v', 'm', '_', 'b', 'i', 'n', 'a', 'r', 'y']

/-- The text of a line before its first equals sign, and the whole line if there is none: `substr` up to
`npos`. -/
def keyOf (line : List Byte) : List Byte := line.takeWhile (· ≠ equals)

/-- The body of the loop over a configuration file. -/
def assignLine (config : Configuration) (line : List Byte) : Option Configuration :=
  if keyOf line = sliceKey then do
    let value ← stoi (afterMark equals line)
    return { config with vm_exec_slice_in_instructions := BitVec.ofInt 32 value }
  else if keyOf line = binaryKey then some { config with vm_binary := afterMark equals line }
  else some config

/-- The loop over a configuration file. -/
def read (file : TextStream) (config : Configuration) : Option Configuration :=
  file.linesLeft.foldlM assignLine config

/-! ## The last assignment -/

/-- The value that the last line with a key assigns. -/
def lastValue (key : List Byte) (lines : List (List Byte)) : Option (List Byte) :=
  (lines.reverse.find? fun line => keyOf line = key).map (afterMark equals)

/-- Without lines nothing is assigned. -/
@[simp] theorem lastValue_nil (key : List Byte) : lastValue key [] = none := rfl

/-- The last line assigns its key. -/
theorem lastValue_append_of_key {key line : List Byte} (h : keyOf line = key)
    (lines : List (List Byte)) : lastValue key (lines ++ [line]) = some (afterMark equals line) := by
  rw [lastValue, List.reverse_append, List.reverse_singleton, List.singleton_append,
    List.find?_cons_of_pos (by simpa using h), Option.map_some]

/-- A line with another key leaves the last assignment what it is. -/
theorem lastValue_append_of_ne {key line : List Byte} (h : keyOf line ≠ key)
    (lines : List (List Byte)) : lastValue key (lines ++ [line]) = lastValue key lines := by
  rw [lastValue, lastValue, List.reverse_append, List.reverse_singleton, List.singleton_append,
    List.find?_cons_of_neg (by simpa using h)]

/-- All slices that are assigned are numbers. -/
def SlicesConvert (lines : List (List Byte)) : Prop :=
  ∀ line ∈ lines, keyOf line = sliceKey → (stoi (afterMark equals line)).isSome

/-- What the lines of a file assign. -/
def assigned (lines : List (List Byte)) (config : Configuration) : Configuration where
  vm_exec_slice_in_instructions :=
    ((lastValue sliceKey lines).bind stoi).elim config.vm_exec_slice_in_instructions (BitVec.ofInt 32)
  vm_binary := (lastValue binaryKey lines).getD config.vm_binary

/-- The two keys differ. -/
theorem sliceKey_ne_binaryKey : sliceKey ≠ binaryKey := by decide

/-- A line behind lines that convert has to convert. -/
theorem slicesConvert_append_iff {lines : List (List Byte)} {line : List Byte} :
    SlicesConvert (lines ++ [line]) ↔ SlicesConvert lines
      ∧ (keyOf line = sliceKey → (stoi (afterMark equals line)).isSome) := by
  constructor
  · exact fun h => ⟨fun l hl => h l (List.mem_append_left _ hl), h line (by simp)⟩
  · rintro ⟨hlines, hline⟩ l hl
    rcases List.mem_append.mp hl with hl | hl
    · exact hlines l hl
    · rw [List.mem_singleton.mp hl]
      exact hline

/-- A line behind others assigns on top of them. -/
theorem assignLine_assigned_eq_some_iff {lines : List (List Byte)} {line : List Byte}
    {config config' : Configuration} : assignLine (assigned lines config) line = some config'
      ↔ (keyOf line = sliceKey → (stoi (afterMark equals line)).isSome)
        ∧ config' = assigned (lines ++ [line]) config := by
  rw [assignLine]
  by_cases hslice : keyOf line = sliceKey
  · -- a slice: the conversion may fail, and the other member keeps its value
    have hbinary : keyOf line ≠ binaryKey := by
      rw [hslice]
      exact sliceKey_ne_binaryKey
    rw [if_pos hslice, assigned, assigned, lastValue_append_of_key hslice,
      lastValue_append_of_ne hbinary, Option.bind_some]
    cases stoi (afterMark equals line) with
    | none => exact iff_of_false (fun h => by cases h) fun h => by cases h.1 hslice
    | some value =>
        have hvalue : keyOf line = sliceKey → (some value).isSome = true := fun _ => rfl
        rw [and_iff_right hvalue]
        exact Option.some_inj.trans eq_comm
  · rw [if_neg hslice, and_iff_right fun h => absurd h hslice, assigned, assigned,
      lastValue_append_of_ne hslice]
    by_cases hbinary : keyOf line = binaryKey
    · rw [if_pos hbinary, lastValue_append_of_key hbinary]
      exact Option.some_inj.trans eq_comm
    · rw [if_neg hbinary, lastValue_append_of_ne hbinary]
      exact Option.some_inj.trans eq_comm

/-- **What a configuration file assigns**: of each member the last assignment counts, other lines count for
nothing, and the program ends only at a slice that is no number. -/
theorem read_eq_some_iff {file : TextStream} {config config' : Configuration} :
    read file config = some config'
      ↔ SlicesConvert file.linesLeft ∧ config' = assigned file.linesLeft config := by
  rw [read]
  generalize file.linesLeft = lines
  -- from the last line on: what it assigns is on top of what the others do
  induction lines using List.reverseRecOn generalizing config' with
  | nil =>
      have hnil : SlicesConvert [] := fun _ h => absurd h List.not_mem_nil
      rw [List.foldlM_nil, and_iff_right hnil]
      exact Option.some_inj.trans eq_comm
  | append_singleton lines line ih =>
      rw [List.foldlM_append, Option.bind_eq_bind, Option.bind_eq_some_iff, slicesConvert_append_iff]
      simp only [List.foldlM_cons, List.foldlM_nil, bind_pure]
      constructor
      · rintro ⟨config₁, hlines, hline⟩
        obtain ⟨hconvert, rfl⟩ := ih.mp hlines
        obtain ⟨hlast, rfl⟩ := assignLine_assigned_eq_some_iff.mp hline
        exact ⟨⟨hconvert, hlast⟩, rfl⟩
      · rintro ⟨⟨hconvert, hlast⟩, rfl⟩
        exact ⟨_, ih.mpr ⟨hconvert, rfl⟩, assignLine_assigned_eq_some_iff.mpr ⟨hlast, rfl⟩⟩

end Configuration

end VmmShowcase
