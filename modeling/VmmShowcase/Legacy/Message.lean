import VmmShowcase.Foundations.Words
import VmmShowcase.Legacy.Migration

/-! # The message of the legacy migration

What `solve` of `src/homework-2 and 3-client.cc` sends and `main` of `src/homework-2 and 3- server.cc`
decodes. Both take a text for zero-terminated: the client sends the message up to a first zero byte, and
the server decodes its buffer up to one, which `recv` does not write. The values of the message are the
registers and the program counter, so that `hi` and `low` are 0 on the server, whatever they are on the
client. -/

namespace VmmShowcase

open Text TextStream

/-- What the client sends: `strlen` characters of its message. -/
def Client.sent (obj : VmClass) (filename : List Byte) : List Byte :=
  (Client.message obj filename).takeWhile (· ≠ 0)

/-- What the server extracts from its buffer. -/
def Server.decode (buffer : List Byte) : Option (VmClass × List Byte) :=
  (zeroTerminated buffer).map fun text => (Server.readMessage (ofText text)).1

/-- A message carries the whole machine and the name of its file to a server with the bytes `rest`
behind it in the buffer. -/
def Carries (obj : VmClass) (filename rest : List Byte) : Prop :=
  Server.decode (Client.sent obj filename ++ rest) = some (obj, filename)

/-- The message up to the name of the file. -/
def Client.values (obj : VmClass) : List Byte :=
  (List.ofFn obj.registers).flatMap (fun value => signedDecimal value.toInt ++ [space])
    ++ (signedDecimal obj.pc.toInt ++ [space])

/-- The machine on the server, where only the values arrive. -/
def VmClass.received (obj : VmClass) : VmClass := { registers := obj.registers, pc := obj.pc }

/-! ## Extracting the message -/

/-- The values stand in front of the name. -/
theorem Client.message_eq (obj : VmClass) (filename : List Byte) :
    Client.message obj filename = Client.values obj ++ (filename ++ [space]) := by
  rw [message, values]
  exact (List.append_assoc ..).symm

/-- **The values are extracted**, and the name from what follows them. -/
theorem Server.readMessage_values (obj : VmClass) (text : List Byte) :
    (Server.readMessage (ofText (Client.values obj ++ text))).1
      = (obj.received, (readToken [] (ofText text)).1) := by
  have hspace : Blank [space] := blank_singleton (by decide)
  have hregisters : Reads (readEach (List.replicate 32 0))
      ((List.ofFn obj.registers).flatMap fun value => signedDecimal value.toInt ++ [space])
      (List.ofFn obj.registers) :=
    reads_each hspace (List.cons_ne_nil space []) (by rw [List.length_replicate, List.length_ofFn])
  have hpc := reads_signed obj.pc 0 hspace (List.cons_ne_nil space [])
  obtain ⟨between, hbetween, hread⟩ := hregisters []
    ((signedDecimal obj.pc.toInt ++ [space]) ++ text) blank_nil
  obtain ⟨after, hafter, hread'⟩ := hpc between text hbetween
  rw [List.nil_append] at hread
  rw [readMessage, bind_apply, Client.values, List.append_assoc, hread, bind_apply, hread', bind_apply,
    readToken_blank hafter]
  show (({ registers := fun i => (List.ofFn obj.registers).getD i 0, pc := obj.pc } : VmClass),
    (readToken [] (ofText text)).1) = _
  rw [getD_ofFn]
  rfl

/-- The name the server extracts, where `filename` was sent and `rest` is left in the buffer. -/
def readName (filename rest : List Byte) : List Byte :=
  (readToken [] (ofText (filename ++ space :: rest))).1

/-- A name without white space is extracted as it was sent. -/
theorem readName_of_spaceless {filename : List Byte} (h : Spaceless filename) (hne : filename ≠ [])
    (rest : List Byte) : readName filename rest = filename := by
  have hpost := isSpace_of_mem_head? (by decide : IsSpace space) rest
  have hread := @readToken_ofText [] filename (space :: rest) blank_nil h hne hpost []
  rw [List.nil_append] at hread
  rw [readName, hread]

/-- **The message is decoded**: the registers and the program counter. -/
theorem Server.readMessage_message (obj : VmClass) (filename rest : List Byte) :
    (Server.readMessage (ofText (Client.message obj filename ++ rest))).1
      = (obj.received, readName filename rest) := by
  rw [Client.message_eq, List.append_assoc, readMessage_values, List.append_assoc]
  rfl

/-- The server goes on with the registers of the client, behind the lines it skips. -/
theorem Server.main_message (files : List Byte → List (List Byte)) (obj : VmClass)
    (filename rest : List Byte) :
    Server.main files (Client.message obj filename ++ rest)
      = Server.execute ((files (readName filename rest)).drop obj.pc.toInt.toNat) obj.received := by
  have hread := Server.readMessage_message obj filename rest
  rw [main]
  generalize Server.readMessage (ofText (Client.message obj filename ++ rest)) = read at hread ⊢
  obtain ⟨⟨vm, name⟩, stream⟩ := read
  obtain ⟨rfl, rfl⟩ := Prod.mk.inj hread
  rfl

/-! ## Zero bytes -/

/-- A printed integer contains no zero byte, and neither does the blank behind it. -/
theorem zero_notMem_printed (z : Int) : 0 ∉ signedDecimal z ++ [space] := by
  rw [List.mem_append, not_or]
  exact ⟨notMem_signedDecimal (by decide) (by decide) z, by decide⟩

/-- The values contain no zero byte. -/
theorem Client.zero_notMem_values (obj : VmClass) : 0 ∉ Client.values obj := by
  rw [values, List.mem_append, not_or]
  refine ⟨fun h => ?_, zero_notMem_printed _⟩
  obtain ⟨value, -, hvalue⟩ := List.mem_flatMap.mp h
  exact zero_notMem_printed _ hvalue

/-- All the values are sent. -/
theorem Client.sent_eq (obj : VmClass) (filename : List Byte) :
    Client.sent obj filename = Client.values obj ++ (filename ++ [space]).takeWhile (· ≠ 0) := by
  rw [sent, message_eq, takeWhile_append_of_notMem (zero_notMem_values obj)]

/-- **What the server decodes**: the values, and a name that it extracts from what follows them up to a
zero byte in the rest of its buffer. -/
theorem Server.decode_sent (obj : VmClass) (filename rest : List Byte) :
    Server.decode (Client.sent obj filename ++ rest) = (zeroTerminated rest).map fun text =>
      (obj.received, (readToken [] (ofText ((filename ++ [space]).takeWhile (· ≠ 0) ++ text))).1) := by
  have hsent : 0 ∉ Client.sent obj filename := notMem_takeWhile 0 _
  rw [decode, zeroTerminated_append hsent, Option.map_map]
  refine congrArg (fun f => (zeroTerminated rest).map f) (funext fun text => ?_)
  show (Server.readMessage (ofText (Client.sent obj filename ++ text))).1 = _
  rw [Client.sent_eq, List.append_assoc, readMessage_values]

/-! ## What the message carries -/

/-- The server has the machine of the client if `hi` and `low` are 0 there. -/
theorem VmClass.received_eq_self_iff (obj : VmClass) :
    obj.received = obj ↔ obj.hi = 0 ∧ obj.low = 0 := by
  constructor
  · intro h
    exact ⟨(congrArg VmClass.hi h).symm, (congrArg VmClass.low h).symm⟩
  · rintro ⟨hhi, hlow⟩
    obtain ⟨registers, hi, low, pc⟩ := obj
    cases hhi
    cases hlow
    rfl

/-- The name is extracted as it was sent, unless it contains a zero byte. -/
theorem readToken_sentName_eq_iff {filename text : List Byte} (h : Spaceless filename)
    (hne : filename ≠ []) (htext : 0 ∉ text) :
    (readToken [] (ofText ((filename ++ [space]).takeWhile (· ≠ 0) ++ text))).1 = filename
      ↔ 0 ∉ filename := by
  constructor
  · intro hname hzero
    rw [← hname] at hzero
    rcases List.mem_append.mp (mem_of_mem_readToken hzero) with hmem | hmem
    · exact notMem_takeWhile 0 _ hmem
    · exact htext hmem
  · intro hzero
    have hwhole : (filename ++ [space]).takeWhile (· ≠ 0) = filename ++ [space] :=
      takeWhile_append_of_notMem hzero [space]
    rw [hwhole, List.append_assoc]
    exact readName_of_spaceless h hne text

/-- **A message carries the whole machine** exactly if `hi` and `low` are 0, no zero byte cuts the name
off, and there is one in the buffer behind the message. -/
theorem carries_iff {filename : List Byte} (h : Spaceless filename) (hne : filename ≠ [])
    (obj : VmClass) (rest : List Byte) :
    Carries obj filename rest ↔ obj.hi = 0 ∧ obj.low = 0 ∧ 0 ∉ filename ∧ 0 ∈ rest := by
  rw [Carries, Server.decode_sent]
  by_cases hrest : 0 ∈ rest
  · obtain ⟨text, htext⟩ := exists_zeroTerminated hrest
    rw [htext, Option.map_some, Option.some.injEq, Prod.mk.injEq, VmClass.received_eq_self_iff,
      readToken_sentName_eq_iff h hne (notMem_of_zeroTerminated htext), and_assoc]
    simp only [hrest, and_true]
  · rw [zeroTerminated_of_notMem hrest]
    constructor
    · intro hnone
      cases hnone
    · rintro ⟨-, -, -, hmem⟩
      exact absurd hmem hrest

/-- A line that migrates. -/
def migrateLine : List Byte :=
  bytes ['M', 'I', 'G', 'R', 'A', 'T', 'E', ' ', '1', '2', '7', '.', '0', '.', '0', '.', '1']

/-- The lines of a file that multiplies 65536 by itself and migrates. -/
def multiplyingFile : List (List Byte) :=
  [bytes ['l', 'i', ' ', '$', '1', ',', ' ', '6', '5', '5', '3', '6'],
    bytes ['m', 'u', 'l', 't', ' ', '$', '1', ',', ' ', '$', '1'], migrateLine]

/-- The client that has multiplied 65536 by itself. -/
def multiplied : VmClass := { registers := fun i => if i.val = 1 then 0x10000 else 0, hi := 1, pc := 3 }

/-- A machine with zeros in `hi` and `low` is carried, in a buffer of 1024 bytes that are otherwise
zero. -/
theorem carries_iff_received : (Client.sent multiplied.received (bytes ['p'])).length + 952 = 1024
    ∧ Carries multiplied.received (bytes ['p']) (List.replicate 952 0) :=
  ⟨by decide +kernel, (carries_iff (by decide) (by decide) _ _).mpr
    ⟨rfl, rfl, by decide, List.mem_replicate.mpr ⟨by decide, rfl⟩⟩⟩

/-- **The product in `hi` is lost**: the client executes the file, but the server decodes a machine with
zeros in `hi` and `low`. -/
theorem multiplied_not_carried :
    Client.execute (bytes ['p']) multiplyingFile {}
        = some (.exits (Client.message multiplied (bytes ['p'])))
      ∧ (Client.sent multiplied (bytes ['p'])).length + 952 = 1024
      ∧ 0 ≤ multiplied.pc.toInt ∧ Spaceless (bytes ['p']) ∧ bytes ['p'] ≠ []
      ∧ Server.decode (Client.sent multiplied (bytes ['p']) ++ List.replicate 952 0)
        = some ({ multiplied with hi := 0 }, bytes ['p'])
      ∧ ¬ Carries multiplied (bytes ['p']) (List.replicate 952 0) := by
  have hdecode : Server.decode (Client.sent multiplied (bytes ['p']) ++ List.replicate 952 0)
      = some ({ multiplied with hi := 0 }, bytes ['p']) := by
    rw [Server.decode_sent]
    decide +kernel
  refine ⟨by decide +kernel, by decide +kernel, by decide, by decide, by decide, hdecode, ?_⟩
  intro hcarries
  rw [Carries, hdecode] at hcarries
  exact absurd (congrArg VmClass.hi (congrArg Prod.fst (Option.some.inj hcarries))) (by decide)

end VmmShowcase
