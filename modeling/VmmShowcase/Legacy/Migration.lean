import VmmShowcase.Legacy.Interpreter

/-! # The legacy migration

`src/homework-2 and 3-client.cc` and `src/homework-2 and 3- server.cc`. The client executes a file
until its `MIGRATE` line, sends the registers, its count of `solve` calls and the name of the file,
and exits; the server skips as many lines of the file it has under that name and executes the rest.

A file is the list of its lines, and a file that is missing has none. It stays as it is while it is
executed: no `SNAPSHOT` line saves a machine over it. The text in the server's buffer is the message and
then whatever the uninitialised bytes behind it hold. -/

namespace VmmShowcase

open Text TextStream

/-- `SNAPSHOT`. -/
def snapshotOp : List Byte := bytes ['S', 'N', 'A', 'P', 'S', 'H', 'O', 'T']

/-- `MIGRATE`. -/
def migrateOp : List Byte := bytes ['M', 'I', 'G', 'R', 'A', 'T', 'E']

/-- The operation of a line. -/
def opcodeOf (line : List Byte) : List Byte := (getline space [] (ofText line)).1

/-- The server's `solve`. The tokens of a `SNAPSHOT` line are indexed unchecked, so that it has no
meaning without a blank. -/
def Server.solve (instructionsfileline : List Byte) (obj : VmClass) : Option VmClass :=
  let (opcode, ss) := getline space [] (ofText instructionsfileline)
  if opcode = dumpProcessorState then some obj
  else if opcode = snapshotOp then if instructionsfileline.contains space then some obj else none
  else solveOperands opcode ss obj

/-- The loop of the server over the lines it does not skip. -/
def Server.execute : (lines : List (List Byte)) → VmClass → Option VmClass
  | [], vm => some vm
  | line :: lines, vm =>
      if line = [] then Server.execute lines vm else (Server.solve line vm).bind (Server.execute lines)

/-- The regular expression of an IP address, from its group with `dots` dots to come. A group that
ends at a dot takes all the digits there. -/
def matchesIp : (dots : Nat) → List Byte → Bool
  | 0, text => text.takeWhile (IsDigit ·) ≠ []
  | dots + 1, text =>
      let digits := text.takeWhile (IsDigit ·)
      digits ≠ [] && digits.length ≤ 3 && (text.dropWhile (IsDigit ·)).head? = some (ascii '.')
        && matchesIp dots (text.dropWhile (IsDigit ·)).tail

/-- `std::regex_search` for an IP address. -/
def containsIp (line : List Byte) : Bool := line.tails.any (matchesIp 3)

/-- The line makes the client migrate. -/
def Migrates (line : List Byte) : Prop := opcodeOf line = migrateOp ∧ containsIp line = true

instance : DecidablePred Migrates := fun _ => inferInstanceAs (Decidable (_ ∧ _))

/-- The message of the client. -/
def Client.message (obj : VmClass) (filename : List Byte) : List Byte :=
  (List.ofFn obj.registers).flatMap (fun value => signedDecimal value.toInt ++ [space])
    ++ ((signedDecimal obj.pc.toInt ++ [space]) ++ (filename ++ [space]))

/-- How a call of the client's `solve` ends: it returns, or it sends the message and exits. -/
inductive Client.Step where
  | returns (obj : VmClass)
  | exits (message : List Byte)
  deriving DecidableEq

/-- The client's `solve`, with a server that accepts the connection. A line that does not migrate is
handled as on the server. -/
def Client.solve (filename instructionsfileline : List Byte) (obj : VmClass) : Option Client.Step :=
  let obj := { obj with pc := obj.pc + 1 }
  if Migrates instructionsfileline then some (.exits (Client.message obj filename))
  else (Server.solve instructionsfileline obj).map .returns

/-- The loop of the client over its file. -/
def Client.execute (filename : List Byte) : (lines : List (List Byte)) → VmClass → Option Client.Step
  | [], vm1 => some (.returns vm1)
  | line :: lines, vm1 =>
      if line = [] then Client.execute filename lines vm1
      else do
        match ← Client.solve filename line vm1 with
        | .returns vm1 => Client.execute filename lines vm1
        | .exits message => return .exits message

/-- The extractions of the server. -/
def Server.readMessage : TextReader (VmClass × List Byte) := do
  let registers ← readEach (List.replicate 32 (0 : Word))
  let pc ← readSigned (0 : Word)
  let filename ← readToken []
  return ({ registers := fun i => registers.getD i 0, pc }, filename)

/-- The server from its buffer on, where `files` has the lines of each file. -/
def Server.main (files : List Byte → List (List Byte)) (buffer : List Byte) : Option VmClass :=
  let ((vm, filename), _) := readMessage (ofText buffer)
  Server.execute ((files filename).drop vm.pc.toInt.toNat) vm

end VmmShowcase
