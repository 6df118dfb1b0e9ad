import VmmShowcase.Foundations.Delimited

/-! # Formatted input streams

An input stream of the C++ library in its default locale: what is left of its text, and the two state
bits. An extraction skips white space first, and leaves its variable alone when the stream is no longer
good or has come to its end; otherwise it sets the variable, also where it fails. What is printed with
white space behind every field is read back field by field, and a loop over `getline` gets the lines. -/

namespace VmmShowcase

/-- `std::istream`. -/
structure TextStream where
  rest : List Byte
  eofbit : Bool := false
  failbit : Bool := false
  deriving DecidableEq

/-- A computation that extracts from a stream. -/
abbrev TextReader := StateM TextStream

namespace TextStream

open Text

/-- White space, as `isspace` has it in the default locale. -/
def IsSpace (b : Byte) : Prop := b = 0x20 ∨ 0x09 ≤ b.toNat ∧ b.toNat ≤ 0x0d

instance : DecidablePred IsSpace := fun b => inferInstanceAs (Decidable (b = 0x20 ∨ _))

/-- The end-of-line character. -/
def newline : Byte := 0x0a

/-- The blank. -/
def space : Byte := 0x20

/-- `good()`. -/
def Good (s : TextStream) : Prop := s.eofbit = false ∧ s.failbit = false

instance (s : TextStream) : Decidable s.Good := inferInstanceAs (Decidable (_ ∧ _))

/-- `setstate(failbit)`. -/
def fail (s : TextStream) : TextStream := { s with failbit := true }

/-- A good stream with the given text. -/
def ofText (text : List Byte) : TextStream := { rest := text }

/-- The stream behind what an extraction took: taking the last character means having looked behind
it. -/
def behind (rest : List Byte) : TextStream := { rest, eofbit := rest.isEmpty }

/-- The sentry of an extraction that skips white space: the text it leaves, if the extraction goes
on, and the stream if it does not. -/
def sentry (s : TextStream) : Except TextStream (List Byte) :=
  if s.Good then
    match s.rest.dropWhile (IsSpace ·) with
    | [] => .error { rest := [], eofbit := true, failbit := true }
    | text => .ok text
  else .error s.fail

/-- Extract with `take` into a variable that holds `old`. -/
def extract {α : Type} (old : α) (take : List Byte → α × TextStream) : TextReader α := fun s =>
  match s.sentry with
  | .error s => (old, s)
  | .ok text => take text

/-- `getline`, up to a delimiter, into a variable that holds `old`. -/
def getline (delimiter : Byte) (old : List Byte) : TextReader (List Byte) := fun s =>
  if s.Good then
    let line := s.rest.takeWhile (· ≠ delimiter)
    match s.rest.dropWhile (· ≠ delimiter) with
    | [] => (line, { rest := [], eofbit := true, failbit := line.isEmpty })
    | _ :: rest => (line, { rest })
  else (old, s.fail)

/-- `>>` into a string. -/
def readToken (old : List Byte) : TextReader (List Byte) :=
  extract old fun text =>
    (text.takeWhile (¬ IsSpace ·), behind (text.dropWhile (¬ IsSpace ·)))

/-- `>>` into a signed integer of `w` bits: out of range it is set to the nearest bound, and without
digits to 0, and the extraction fails. -/
def readSigned {w : Nat} (old : BitVec w) : TextReader (BitVec w) :=
  extract old fun text =>
    let field := NumberField.scan text
    let s := behind field.rest
    if field.digits = [] then (0, s.fail)
    else if field.value < (BitVec.intMin w).toInt then (BitVec.intMin w, s.fail)
    else if (BitVec.intMax w).toInt < field.value then (BitVec.intMax w, s.fail)
    else (BitVec.ofInt w field.value, s)

/-- `>>` into an unsigned integer of `w` bits: out of range it is set to the largest one, and without
digits to 0, and the extraction fails. A minus sign negates modulo `2 ^ w`. -/
def readUnsigned {w : Nat} (old : BitVec w) : TextReader (BitVec w) :=
  extract old fun text =>
    let field := NumberField.scan text
    let s := behind field.rest
    if field.digits = [] then (0, s.fail)
    else if 2 ^ w ≤ digitsValue field.digits then (BitVec.allOnes w, s.fail)
    else (BitVec.ofInt w field.value, s)

/-- `>>` into one variable after the other. -/
def readEach {w : Nat} : List (BitVec w) → TextReader (List (BitVec w))
  | [] => pure []
  | old :: olds => do
      let x ← readSigned old
      let xs ← readEach olds
      return x :: xs

/-- `std::stoi`: the `int` at the front of a text, behind white space, whatever follows it. It throws
(`none`) without digits and out of range. -/
def stoi (text : List Byte) : Option Int :=
  let field := NumberField.scan (text.dropWhile (IsSpace ·))
  if field.digits = [] ∨ field.value < -2 ^ 31 ∨ 2 ^ 31 ≤ field.value then none
  else some field.value

/-! ## Reading back what is printed -/

variable {α β : Type}

/-- All characters are white space. -/
def Blank (text : List Byte) : Prop := ∀ b ∈ text, IsSpace b

/-- Behind white space `r` reads `text` as `x`, and leaves what follows behind white space. -/
def Reads (r : TextReader α) (text : List Byte) (x : α) : Prop :=
  ∀ before post, Blank before → ∃ after, Blank after
    ∧ r (ofText (before ++ (text ++ post))) = (x, ofText (after ++ post))

/-- White space is not a digit. -/
theorem not_isDigit_of_isSpace {b : Byte} : IsSpace b → ¬ IsDigit b := by
  revert b
  decide

/-- A text that begins with white space. -/
theorem isSpace_of_mem_head? {b : Byte} (h : IsSpace b) (text : List Byte) :
    ∀ c ∈ (b :: text).head?, IsSpace c := by
  intro c hc
  rw [List.head?_cons, Option.mem_some_iff] at hc
  exact hc ▸ h

/-- Nothing is white space. -/
theorem blank_nil : Blank [] := fun _ hb => absurd hb (by simp)

/-- A separator is white space. -/
theorem blank_singleton {sep : Byte} (h : IsSpace sep) : Blank [sep] := by
  intro b hb
  rwa [List.mem_singleton.mp hb]

/-- White space behind white space is white space. -/
theorem Blank.append {text text' : List Byte} (h : Blank text) (h' : Blank text') :
    Blank (text ++ text') := fun b hb => (List.mem_append.mp hb).elim (h b) (h' b)

/-- A number ends where white space follows. -/
theorem Blank.undigited {sep : List Byte} (h : Blank sep) (hne : sep ≠ []) (text : List Byte) :
    Undigited (sep ++ text) := by
  obtain ⟨b, rest, rfl⟩ := List.exists_cons_of_ne_nil hne
  intro c hc
  exact not_isDigit_of_isSpace (isSpace_of_mem_head? (h b (List.mem_cons_self ..)) _ c hc)

/-- A number also ends where nothing but white space follows. -/
theorem undigited_of_blank {text : List Byte} (h : Blank text) : Undigited text := fun b hb =>
  not_isDigit_of_isSpace (h b (List.mem_of_mem_head? hb))

/-- An extraction skips the white space in front of a text that does not begin with any. -/
theorem sentry_ofText {before text : List Byte} (hbefore : Blank before) {b : Byte}
    (hb : b ∈ text.head?) (hspace : ¬ IsSpace b) : (ofText (before ++ text)).sentry = .ok text := by
  obtain ⟨rest, rfl⟩ := List.head?_eq_some_iff.mp hb
  have hskip : (before ++ b :: rest).dropWhile (IsSpace ·) = b :: rest := by
    rw [List.dropWhile_append_of_pos fun c hc => decide_eq_true (hbefore c hc)]
    exact List.dropWhile_cons_of_neg (by simpa using hspace)
  rw [sentry, if_pos ⟨rfl, rfl⟩]
  simp only [ofText, hskip]

/-- A text that does not begin with white space is extracted from behind white space. -/
theorem extract_ofText {before text : List Byte} (hbefore : Blank before) {b : Byte}
    (hb : b ∈ text.head?) (hspace : ¬ IsSpace b) (old : α) (take : List Byte → α × TextStream) :
    extract old take (ofText (before ++ text)) = take text := by
  rw [extract, sentry_ofText hbefore hb hspace]

/-- A sequence of extractions passes the stream on. -/
theorem bind_apply (r : TextReader α) (f : α → TextReader β) (s : TextStream) :
    (r >>= f) s = f (r s).1 (r s).2 := rfl

/-- Reading nothing leaves the white space. -/
theorem reads_pure (x : α) : Reads (pure x : TextReader α) [] x :=
  fun before _ hbefore => ⟨before, hbefore, rfl⟩

/-- **Sequence rule.** Texts read one after the other are read from their concatenation. -/
theorem Reads.bind {r : TextReader α} {f : α → TextReader β} {text text' : List Byte} {x : α} {y : β}
    (h : Reads r text x) (h' : Reads (f x) text' y) : Reads (r >>= f) (text ++ text') y := by
  intro before post hbefore
  obtain ⟨between, hbetween, hr⟩ := h before (text' ++ post) hbefore
  obtain ⟨after, hafter, hf⟩ := h' between post hbetween
  refine ⟨after, hafter, ?_⟩
  rw [List.append_assoc, bind_apply, hr, hf]

/-- What is returned may be computed from what is read. -/
theorem Reads.map {r : TextReader α} {text : List Byte} {x : α} (h : Reads r text x) (f : α → β) :
    Reads (r >>= fun x => pure (f x)) text (f x) := by
  have hbind : Reads (r >>= fun x => pure (f x)) (text ++ []) (f x) := h.bind (reads_pure (f x))
  rwa [List.append_nil] at hbind

/-- White space behind a text belongs to it. -/
theorem Reads.blank {r : TextReader α} {text : List Byte} {x : α} (h : Reads r text x)
    {sep : List Byte} (hsep : Blank sep) : Reads r (text ++ sep) x := by
  intro before post hbefore
  obtain ⟨after, hafter, hr⟩ := h before (sep ++ post) hbefore
  refine ⟨after ++ sep, hafter.append hsep, ?_⟩
  rw [List.append_assoc, hr, List.append_assoc]

/-- A printed integer begins with a sign or a digit. -/
theorem exists_head_signedDecimal (z : Int) (text : List Byte) :
    ∃ b ∈ (signedDecimal z ++ text).head?, ¬ IsSpace b := by
  rw [signedDecimal]
  split
  · exact ⟨ascii '-', rfl, by decide⟩
  · obtain ⟨b, rest, hb⟩ := List.exists_cons_of_ne_nil (decimal_ne_nil z.natAbs)
    have hdigit : IsDigit b := isDigit_of_mem_decimal (n := z.natAbs) (by rw [hb]; simp)
    rw [hb]
    exact ⟨b, rfl, fun hspace => not_isDigit_of_isSpace hspace hdigit⟩

/-- Behind a number the stream goes on with the white space that ended it. -/
theorem behind_append {sep : List Byte} (hne : sep ≠ []) (text : List Byte) :
    behind (sep ++ text) = ofText (sep ++ text) := by
  obtain ⟨b, rest, rfl⟩ := List.exists_cons_of_ne_nil hne
  rfl

/-- A printed signed integer is extracted, up to anything but a digit. -/
theorem readSigned_ofText {w : Nat} (x old : BitVec w) {before post : List Byte}
    (hbefore : Blank before) (hpost : Undigited post) :
    readSigned old (ofText (before ++ (signedDecimal x.toInt ++ post))) = (x, behind post) := by
  obtain ⟨b, hb, hspace⟩ := exists_head_signedDecimal x.toInt post
  rw [readSigned, extract_ofText hbefore hb hspace]
  have hmin := BitVec.toInt_intMin_le x
  have hmax : x.toInt ≤ (BitVec.intMax w).toInt := by
    have hlt := @BitVec.toInt_lt w x
    rw [BitVec.toInt_intMax]
    omega
  simp only [scan_signedDecimal x.toInt hpost, value_signedDecimal, if_neg (decimal_ne_nil _),
    if_neg (Int.not_lt.mpr hmin), if_neg (Int.not_lt.mpr hmax), BitVec.ofInt_toInt]

/-- **A printed signed integer is read back.** -/
theorem reads_signed {w : Nat} (x old : BitVec w) {sep : List Byte} (hsep : Blank sep)
    (hne : sep ≠ []) : Reads (readSigned old) (signedDecimal x.toInt ++ sep) x := by
  intro before post hbefore
  refine ⟨sep, hsep, ?_⟩
  rw [List.append_assoc, readSigned_ofText x old hbefore (hsep.undigited hne post),
    behind_append hne]

/-- **A printed unsigned integer is read back.** -/
theorem reads_unsigned {w : Nat} (x old : BitVec w) {sep : List Byte} (hsep : Blank sep)
    (hne : sep ≠ []) : Reads (readUnsigned old) (decimal x.toNat ++ sep) x := by
  intro before post hbefore
  obtain ⟨b, hb, hspace⟩ := exists_head_signedDecimal x.toNat (sep ++ post)
  have hscan := scan_signedDecimal x.toNat (hsep.undigited hne post)
  have hvalue := value_signedDecimal x.toNat (sep ++ post)
  rw [signedDecimal_natCast] at hb hscan
  rw [Int.natAbs_natCast] at hscan hvalue
  refine ⟨sep, hsep, ?_⟩
  rw [readUnsigned, List.append_assoc, extract_ofText hbefore hb hspace]
  simp only [hscan, hvalue, if_neg (decimal_ne_nil _), digitsValue_decimal,
    if_neg (Nat.not_le.mpr x.isLt), BitVec.ofInt_natCast, BitVec.ofNat_toNat, BitVec.setWidth_eq,
    behind_append hne]

/-- Printed integers are read back into as many variables. -/
theorem reads_each {w : Nat} {sep : List Byte} (hsep : Blank sep) (hne : sep ≠ [])
    {xs olds : List (BitVec w)} (hlen : olds.length = xs.length) :
    Reads (readEach olds) (xs.flatMap fun x => signedDecimal x.toInt ++ sep) xs := by
  induction xs generalizing olds with
  | nil =>
      rw [List.length_nil, List.length_eq_zero_iff] at hlen
      subst hlen
      exact reads_pure _
  | cons x xs ih =>
      obtain ⟨old, olds, rfl⟩ := List.exists_cons_of_length_eq_add_one hlen
      rw [List.flatMap_cons]
      exact (reads_signed x old hsep hne).bind ((ih (Nat.succ.inj hlen)).map (x :: ·))

/-- An array is what is read into its places. -/
theorem getD_ofFn {n : Nat} (f : Fin n → α) (default : α) :
    (fun i : Fin n => (List.ofFn f).getD i default) = f := by
  funext i
  rw [List.getD_eq_getElem?_getD, List.getElem?_ofFn, dif_pos i.isLt, Option.getD_some]

/-- A line is read back up to its end, if it does not contain a line end itself. -/
theorem getline_ofText {delimiter : Byte} {line : List Byte} (h : delimiter ∉ line)
    (old post : List Byte) :
    getline delimiter old (ofText (line ++ delimiter :: post)) = (line, ofText post) := by
  rw [getline, if_pos ⟨rfl, rfl⟩]
  simp only [ofText, takeWhile_append_mark h, dropWhile_append_mark h]

/-! ## Lines -/

/-- A `getline` that does not fail shortens the text. -/
theorem length_getline_lt {delimiter : Byte} {old : List Byte} {s : TextStream}
    (h : (getline delimiter old s).2.failbit = false) :
    (getline delimiter old s).2.rest.length < s.rest.length := by
  by_cases hgood : s.Good
  · have htext := @List.takeWhile_append_dropWhile _ (fun b => decide (b ≠ delimiter)) s.rest
    rw [getline, if_pos hgood] at h ⊢
    generalize s.rest.takeWhile (· ≠ delimiter) = line at h htext ⊢
    generalize s.rest.dropWhile (· ≠ delimiter) = rest at h htext ⊢
    rw [← htext, List.length_append]
    cases rest with
    | nil =>
        have hne : line ≠ [] := List.isEmpty_eq_false_iff.mp h
        simpa using List.length_pos_iff.mpr hne
    | cons b rest =>
        rw [List.length_cons]
        show rest.length < _
        omega
  · rw [getline, if_neg hgood] at h
    cases h

/-- The lines that a loop over `getline` gets, until it fails. -/
def linesLeft (s : TextStream) : List (List Byte) :=
  if _h : (getline newline [] s).2.failbit = false then
    (getline newline [] s).1 :: linesLeft (getline newline [] s).2
  else []
termination_by s.rest.length
decreasing_by exact length_getline_lt _h

/-- At the end of a text no line is left. -/
@[simp] theorem linesLeft_ofText_nil : (ofText []).linesLeft = [] := by
  rw [linesLeft, dif_neg (by decide)]

/-- **The first line of a text** is the one up to its line end. -/
theorem linesLeft_ofText_append {line : List Byte} (h : newline ∉ line) (text : List Byte) :
    (ofText (line ++ newline :: text)).linesLeft = line :: (ofText text).linesLeft := by
  rw [linesLeft, getline_ofText h]
  exact dif_pos rfl

/-- Texts that each end a line are the lines they end. -/
theorem linesLeft_flatMap {α : Type} {line : α → List Byte} (h : ∀ x, newline ∉ line x) (xs : List α)
    (text : List Byte) : (ofText (xs.flatMap (fun x => line x ++ [newline]) ++ text)).linesLeft
      = xs.map line ++ (ofText text).linesLeft := by
  induction xs with
  | nil => rfl
  | cons x xs ih =>
      rw [List.flatMap_cons, List.append_assoc, List.append_assoc, List.singleton_append,
        linesLeft_ofText_append (h x), ih]
      rfl

/-! ## Words and the end of a text -/

/-- The last line of a text needs no line end. -/
theorem getline_last {delimiter : Byte} {line : List Byte} (h : delimiter ∉ line)
    (hne : line ≠ []) (old : List Byte) :
    getline delimiter old (ofText line) = (line, behind []) := by
  have hline : ∀ b ∈ line, decide (b ≠ delimiter) = true := fun b hb =>
    decide_eq_true fun heq => h (heq ▸ hb)
  rw [getline, if_pos ⟨rfl, rfl⟩]
  simp only [ofText, List.takeWhile_eq_self_iff.mpr hline, List.dropWhile_eq_nil_iff.mpr hline,
    List.isEmpty_eq_false_iff.mpr hne]
  rfl

/-- The text contains no white space. -/
def Spaceless (text : List Byte) : Prop := ∀ b ∈ text, ¬ IsSpace b

instance : DecidablePred Spaceless := fun text =>
  inferInstanceAs (Decidable (∀ b ∈ text, ¬ IsSpace b))

/-- An empty text contains no white space. -/
theorem spaceless_nil : Spaceless [] := fun _ hb => absurd hb List.not_mem_nil

/-- A text of visible ASCII characters contains no white space. -/
theorem spaceless_bytes {s : List Char} (h : s.all (fun c => 0x20 < c.toNat && c.toNat < 0x7f)) :
    Spaceless (bytes s) := by
  intro b hb hspace
  obtain ⟨c, hc, rfl⟩ := List.mem_map.mp hb
  have hvisible : 0x20 < c.toNat ∧ c.toNat < 0x7f := by simpa using List.all_eq_true.mp h c hc
  obtain ⟨hlow, hhigh⟩ := hvisible
  have htoNat : (ascii c).toNat = c.toNat := by
    rw [ascii, BitVec.toNat_ofNat]
    exact Nat.mod_eq_of_lt (by omega)
  rcases hspace with hblank | ⟨-, hle⟩
  · rw [hblank] at htoNat
    have hlow' : 0x20 < (0x20 : Byte).toNat := htoNat ▸ hlow
    exact absurd hlow' (by decide)
  · omega

/-- A word is extracted up to white space or the end of the text. -/
theorem readToken_ofText {before word post : List Byte} (hbefore : Blank before)
    (hword : Spaceless word) (hne : word ≠ []) (hpost : ∀ b ∈ post.head?, IsSpace b)
    (old : List Byte) : readToken old (ofText (before ++ (word ++ post))) = (word, behind post) := by
  obtain ⟨b, rest, rfl⟩ := List.exists_cons_of_ne_nil hne
  have hall : ∀ c ∈ b :: rest, decide (¬ IsSpace c) = true := fun c hc => decide_eq_true (hword c hc)
  have hhead : b ∈ (b :: rest ++ post).head? := rfl
  rw [readToken, extract_ofText hbefore hhead (hword b (List.mem_cons_self ..)),
    List.takeWhile_append_of_pos hall, List.dropWhile_append_of_pos hall]
  cases post with
  | nil => simp
  | cons c post =>
      have hc : IsSpace c := hpost c rfl
      simp [hc]

/-- White space in front of a text is skipped. -/
theorem readToken_blank {before : List Byte} (hbefore : Blank before) (text old : List Byte) :
    readToken old (ofText (before ++ text)) = readToken old (ofText text) := by
  have hskip : (before ++ text).dropWhile (IsSpace ·) = text.dropWhile (IsSpace ·) :=
    List.dropWhile_append_of_pos fun c hc => decide_eq_true (hbefore c hc)
  have hsentry : (ofText (before ++ text)).sentry = (ofText text).sentry := by
    rw [sentry, sentry, if_pos ⟨rfl, rfl⟩, if_pos ⟨rfl, rfl⟩]
    simp only [ofText, hskip]
  rw [readToken, extract, extract, hsentry]

/-- Past the end of its text a stream extracts nothing. -/
theorem extract_of_not_good {s : TextStream} (h : ¬ s.Good) (old : α)
    (take : List Byte → α × TextStream) : extract old take s = (old, s.fail) := by
  rw [extract, sentry, if_neg h]

/-- A stream that has looked behind the last character is no longer good. -/
theorem not_good_behind_nil : ¬ (behind []).Good := by decide

/-- A stream that is no longer good does not become so by failing. -/
theorem not_good_fail (s : TextStream) : ¬ s.fail.Good := by
  rintro ⟨-, hfail⟩
  cases hfail

end TextStream

end VmmShowcase
