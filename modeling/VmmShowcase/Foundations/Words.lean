import Mathlib.Data.List.TakeDrop
import VmmShowcase.Foundations.TextStream

/-! # The words of a text

A word is a longest run of characters that are not white space. Extracting a string takes the next word
of a stream; extracting a number takes it too, where the whole word writes a number in range. -/

namespace VmmShowcase

namespace Text

/-- The number that a whole word writes, an optional sign in front of its digits. -/
def numeral (word : List Byte) : Option Int :=
  let field := NumberField.scan word
  if field.digits = [] ∨ field.rest ≠ [] then none else some field.value

/-- Digits that end with a text end at anything but a digit behind it. -/
theorem unsigned_append_of_rest_nil {negative : Bool} {text : List Byte}
    (hrest : (NumberField.unsigned negative text).rest = []) {post : List Byte}
    (hpost : Undigited post) : NumberField.unsigned negative (text ++ post)
      = { NumberField.unsigned negative text with rest := post } := by
  have hall : ∀ b ∈ text, decide (IsDigit b) = true := List.dropWhile_eq_nil_iff.mp hrest
  rw [unsigned_append (fun b hb => of_decide_eq_true (hall b hb)) hpost, NumberField.unsigned,
    List.takeWhile_eq_self_iff.mpr hall]

/-- A number that is a whole word is scanned before anything but a digit. -/
theorem scan_append_of_rest_nil {word : List Byte} (hne : word ≠ [])
    (hrest : (NumberField.scan word).rest = []) {post : List Byte} (hpost : Undigited post) :
    NumberField.scan (word ++ post) = { NumberField.scan word with rest := post } := by
  obtain ⟨b, text, rfl⟩ := List.exists_cons_of_ne_nil hne
  rw [List.cons_append, NumberField.scan, NumberField.scan]
  by_cases hminus : b = ascii '-'
  · rw [if_pos hminus, if_pos hminus]
    rw [NumberField.scan, if_pos hminus] at hrest
    exact unsigned_append_of_rest_nil hrest hpost
  · rw [if_neg hminus, if_neg hminus]
    rw [NumberField.scan, if_neg hminus] at hrest
    by_cases hplus : b = ascii '+'
    · rw [if_pos hplus, if_pos hplus]
      rw [if_pos hplus] at hrest
      exact unsigned_append_of_rest_nil hrest hpost
    · rw [if_neg hplus, if_neg hplus]
      rw [if_neg hplus] at hrest
      exact unsigned_append_of_rest_nil hrest hpost

/-- Digits write the number that is their value. -/
theorem numeral_digits {digits : List Byte} (hne : digits ≠ []) (hdigits : ∀ b ∈ digits, IsDigit b) :
    numeral digits = some (digitsValue digits : Int) := by
  have hscan := scan_digits hne hdigits undigited_nil
  rw [List.append_nil] at hscan
  rw [numeral, hscan]
  simp [hne, NumberField.value]

/-- A word that writes a number contains nothing but digits and a sign. -/
theorem isDigit_of_mem_numeral {word : List Byte} {z : Int} (h : numeral word = some z) {b : Byte}
    (hb : b ∈ word) (hminus : b ≠ ascii '-') (hplus : b ≠ ascii '+') : IsDigit b := by
  have hrest : (NumberField.scan word).rest = [] := by
    by_contra hne
    rw [numeral, if_pos (Or.inr hne)] at h
    cases h
  have hdigits : ∀ {negative text}, (NumberField.unsigned negative text).rest = [] → b ∈ text →
      IsDigit b := fun hnil hmem => of_decide_eq_true (List.dropWhile_eq_nil_iff.mp hnil b hmem)
  cases word with
  | nil => exact absurd hb List.not_mem_nil
  | cons c text =>
      rw [NumberField.scan] at hrest
      have htext : b ≠ c → b ∈ text := (List.mem_cons.mp hb).resolve_left
      by_cases hc : c = ascii '-'
      · rw [if_pos hc] at hrest
        exact hdigits hrest (htext fun heq => hminus (heq.trans hc))
      rw [if_neg hc] at hrest
      by_cases hc' : c = ascii '+'
      · rw [if_pos hc'] at hrest
        exact hdigits hrest (htext fun heq => hplus (heq.trans hc'))
      · rw [if_neg hc'] at hrest
        exact hdigits hrest hb

end Text

open Text

namespace TextStream

/-- The words of a text. -/
def words (text : List Byte) : List (List Byte) :=
  (text.splitOnP (IsSpace ·)).filter (· ≠ [])

/-- The words that a stream still yields: none when it is no longer good. -/
def wordsLeft (s : TextStream) : List (List Byte) := if s.Good then words s.rest else []

/-- Extract `n` words, each into an empty string. -/
def readTokens : (n : Nat) → TextReader (List (List Byte))
  | 0 => pure []
  | n + 1 => do
      let token ← readToken []
      let tokens ← readTokens n
      return token :: tokens

/-! ## Splitting a text -/

/-- An empty text has no words. -/
@[simp] theorem words_nil : words [] = [] := rfl

/-- White space separates words. -/
theorem words_append_cons {b : Byte} (hb : IsSpace b) (text text' : List Byte) :
    words (text ++ b :: text') = words text ++ words text' := by
  rw [words, List.splitOnP_append_cons text text' (decide_eq_true hb), List.filter_append]
  rfl

/-- White space in front of a text belongs to no word. -/
theorem words_cons_of_isSpace {b : Byte} (hb : IsSpace b) (text : List Byte) :
    words (b :: text) = words text := words_append_cons hb [] text

/-- White space in front of a text belongs to no word. -/
theorem words_append_of_blank {before : List Byte} (hbefore : Blank before) (text : List Byte) :
    words (before ++ text) = words text := by
  induction before with
  | nil => rfl
  | cons b before ih =>
      have hbefore' : Blank before := fun c hc => hbefore c (List.mem_cons_of_mem b hc)
      rw [List.cons_append, words_cons_of_isSpace (hbefore b (List.mem_cons_self ..)), ih hbefore']

/-- A text without white space is one word. -/
theorem words_of_spaceless {word : List Byte} (hword : Spaceless word) (hne : word ≠ []) :
    words word = [word] := by
  rw [words, List.splitOnP_eq_singleton fun b hb => decide_eq_false (hword b hb)]
  exact List.filter_cons_of_pos (by simpa using hne)

/-- A word ends at white space, or with the text. -/
theorem words_append {word post : List Byte} (hword : Spaceless word) (hne : word ≠ [])
    (hpost : ∀ b ∈ post.head?, IsSpace b) : words (word ++ post) = word :: words post := by
  cases post with
  | nil => rw [List.append_nil, words_of_spaceless hword hne, words_nil]
  | cons b post =>
      have hb : IsSpace b := hpost b rfl
      rw [words_append_cons hb, words_of_spaceless hword hne, words_cons_of_isSpace hb]
      rfl

/-- No piece of a text that is split at white space contains any. -/
theorem spaceless_of_mem_splitOnP {text piece : List Byte}
    (h : piece ∈ text.splitOnP (IsSpace ·)) : Spaceless piece := by
  induction text generalizing piece with
  | nil =>
      rw [List.splitOnP_nil, List.mem_singleton] at h
      rw [h]
      exact spaceless_nil
  | cons b text ih =>
      obtain ⟨first, others, hsplit⟩ := List.exists_cons_of_ne_nil
        (List.splitOnP_ne_nil (fun b => decide (IsSpace b)) text)
      rw [List.splitOnP_cons_eq_if_modifyHead, hsplit, List.modifyHead_cons] at h
      rw [hsplit] at ih
      by_cases hb : IsSpace b
      · rw [if_pos (decide_eq_true hb)] at h
        rcases List.mem_cons.mp h with rfl | h
        · exact spaceless_nil
        · exact ih h
      · rw [if_neg (by simpa using hb)] at h
        rcases List.mem_cons.mp h with rfl | h
        · intro c hc
          rcases List.mem_cons.mp hc with rfl | hc
          · exact hb
          · exact ih (List.mem_cons_self ..) c hc
        · exact ih (List.mem_cons_of_mem _ h)

/-- A word contains no white space. -/
theorem spaceless_of_mem_words {text word : List Byte} (h : word ∈ words text) : Spaceless word :=
  spaceless_of_mem_splitOnP (List.mem_of_mem_filter h)

/-- A word is not empty. -/
theorem ne_nil_of_mem_words {text word : List Byte} (h : word ∈ words text) : word ≠ [] := by
  simpa using (List.mem_filter.mp h).2

/-- A longest run that does not satisfy a predicate ends where the predicate holds. -/
theorem of_mem_head?_dropWhile (text : List Byte) :
    ∀ b ∈ (text.dropWhile (¬ IsSpace ·)).head?, IsSpace b := by
  intro b hb
  have h := List.head?_dropWhile_not (fun b => decide (¬ IsSpace b)) text
  rw [Option.mem_def.mp hb] at h
  simpa using h

/-- Every text is white space, or white space in front of a word. -/
theorem blank_or_exists_word (text : List Byte) : Blank text ∧ words text = [] ∨
    ∃ before word post, text = before ++ (word ++ post) ∧ Blank before ∧ Spaceless word ∧ word ≠ []
      ∧ ∀ b ∈ post.head?, IsSpace b := by
  have hbefore : Blank (text.takeWhile (IsSpace ·)) := fun b hb => by
    simpa using List.mem_takeWhile_imp hb
  have htext := @List.takeWhile_append_dropWhile _ (fun b => decide (IsSpace b)) text
  cases hrest : text.dropWhile (IsSpace ·) with
  | nil =>
      left
      rw [hrest, List.append_nil] at htext
      rw [htext] at hbefore
      have hwords := words_append_of_blank hbefore []
      rw [List.append_nil] at hwords
      exact ⟨hbefore, hwords⟩
  | cons b rest =>
      right
      have hb : ¬ IsSpace b := by
        have h := List.head?_dropWhile_not (fun b => decide (IsSpace b)) text
        rw [hrest] at h
        simpa using h
      refine ⟨text.takeWhile (IsSpace ·), (b :: rest).takeWhile (¬ IsSpace ·),
        (b :: rest).dropWhile (¬ IsSpace ·), ?_, hbefore, ?_, ?_, of_mem_head?_dropWhile _⟩
      · rw [List.takeWhile_append_dropWhile, ← hrest, htext]
      · intro c hc
        simpa using List.mem_takeWhile_imp hc
      · rw [List.takeWhile_cons_of_pos (by simpa using hb)]
        exact List.cons_ne_nil _ _

/-! ## Extracting words -/

/-- A good stream is its text. -/
theorem Good.eq_ofText {s : TextStream} (h : s.Good) : s = ofText s.rest := by
  obtain ⟨rest, eofbit, failbit⟩ := s
  obtain ⟨heof, hfail⟩ := h
  cases heof
  cases hfail
  rfl

/-- The words of a good stream are those of its text. -/
@[simp] theorem wordsLeft_ofText (text : List Byte) : (ofText text).wordsLeft = words text :=
  if_pos ⟨rfl, rfl⟩

/-- A stream that is no longer good has no words. -/
theorem wordsLeft_of_not_good {s : TextStream} (h : ¬ s.Good) : s.wordsLeft = [] := if_neg h

/-- Behind a word the words of what follows are left. -/
@[simp] theorem wordsLeft_behind (post : List Byte) : (behind post).wordsLeft = words post := by
  cases post with
  | nil => exact wordsLeft_of_not_good not_good_behind_nil
  | cons b post => exact wordsLeft_ofText (b :: post)

/-- **Inversion of a next word**: it stands behind white space, and the other words follow it. -/
theorem exists_of_wordsLeft_eq_cons {s : TextStream} {word : List Byte} {others : List (List Byte)}
    (h : s.wordsLeft = word :: others) : ∃ before post, s = ofText (before ++ (word ++ post))
      ∧ Blank before ∧ Spaceless word ∧ word ≠ [] ∧ (∀ b ∈ post.head?, IsSpace b)
      ∧ words post = others := by
  have hgood : s.Good := by
    by_contra hbad
    rw [wordsLeft_of_not_good hbad] at h
    cases h
  rw [wordsLeft, if_pos hgood] at h
  obtain ⟨-, hnil⟩ | ⟨before, word', post, htext, hbefore, hword, hne, hpost⟩ :=
    blank_or_exists_word s.rest
  · rw [hnil] at h
    cases h
  · rw [htext, words_append_of_blank hbefore, words_append hword hne hpost] at h
    cases h
    exact ⟨before, post, by rw [hgood.eq_ofText, htext], hbefore, hword, hne, hpost, rfl⟩

/-- Where no word is left an extraction fails, and leaves its variable. -/
theorem extract_of_wordsLeft_nil {s : TextStream} (h : s.wordsLeft = []) {α : Type} (old : α)
    (take : List Byte → α × TextStream) :
    (extract old take s).1 = old ∧ ¬ (extract old take s).2.Good := by
  by_cases hgood : s.Good
  · rw [wordsLeft, if_pos hgood] at h
    obtain ⟨hblank, -⟩ | ⟨before, word, post, htext, hbefore, hword, hne, hpost⟩ :=
      blank_or_exists_word s.rest
    · have hskip : s.rest.dropWhile (IsSpace ·) = [] :=
        List.dropWhile_eq_nil_iff.mpr fun b hb => decide_eq_true (hblank b hb)
      rw [extract, sentry, if_pos hgood, hskip]
      exact ⟨rfl, by rintro ⟨-, hfail⟩; cases hfail⟩
    · rw [htext, words_append_of_blank hbefore, words_append hword hne hpost] at h
      cases h
  · rw [extract_of_not_good hgood]
    exact ⟨rfl, not_good_fail s⟩

/-- **Extracting a string takes the next word**, if there is one. -/
theorem readToken_fst (old : List Byte) (s : TextStream) :
    (readToken old s).1 = s.wordsLeft.headD old := by
  cases h : s.wordsLeft with
  | nil => exact (extract_of_wordsLeft_nil h old _).1
  | cons word others =>
      obtain ⟨before, post, rfl, hbefore, hword, hne, hpost, -⟩ := exists_of_wordsLeft_eq_cons h
      rw [readToken_ofText hbefore hword hne hpost]
      rfl

/-- The characters of a string that is extracted come from the text. -/
theorem mem_of_mem_readToken {text : List Byte} {b : Byte} (h : b ∈ (readToken [] (ofText text)).1) :
    b ∈ text := by
  obtain ⟨-, hnil⟩ | ⟨before, word, post, rfl, hbefore, hword, hne, hpost⟩ :=
    blank_or_exists_word text
  · rw [readToken_fst, wordsLeft_ofText, hnil] at h
    exact absurd h List.not_mem_nil
  · rw [readToken_ofText hbefore hword hne hpost] at h
    exact List.mem_append_right before (List.mem_append_left post h)

/-- Extracting a string leaves the other words. -/
theorem wordsLeft_readToken (old : List Byte) (s : TextStream) :
    (readToken old s).2.wordsLeft = s.wordsLeft.tail := by
  cases h : s.wordsLeft with
  | nil => exact wordsLeft_of_not_good (extract_of_wordsLeft_nil h old _).2
  | cons word others =>
      obtain ⟨before, post, rfl, hbefore, hword, hne, hpost, hothers⟩ :=
        exists_of_wordsLeft_eq_cons h
      rw [readToken_ofText hbefore hword hne hpost, wordsLeft_behind, hothers]
      rfl

/-- Extracting several strings takes as many words, with empty strings for those that are missing. -/
theorem readTokens_fst (n : Nat) (s : TextStream) :
    (readTokens n s).1 = s.wordsLeft.takeD n [] := by
  induction n generalizing s with
  | zero => rfl
  | succ n ih =>
      rw [readTokens, bind_apply, bind_apply, ih, wordsLeft_readToken, readToken_fst]
      rfl

/-- Extracting several strings leaves the other words. -/
theorem wordsLeft_readTokens (n : Nat) (s : TextStream) :
    (readTokens n s).2.wordsLeft = s.wordsLeft.drop n := by
  induction n generalizing s with
  | zero => rfl
  | succ n ih =>
      rw [readTokens, bind_apply, bind_apply]
      show (readTokens n (readToken [] s).2).2.wordsLeft = _
      rw [ih, wordsLeft_readToken, List.drop_tail]

/-! ## Extracting numbers -/

/-- The number that is extracted where the whole next word writes one. -/
theorem exists_scan_of_numeral {s : TextStream} {word : List Byte} {others : List (List Byte)}
    (h : s.wordsLeft = word :: others) {z : Int} (hz : numeral word = some z) :
    ∃ text, s.sentry = .ok text ∧ (NumberField.scan text).digits ≠ []
      ∧ (NumberField.scan text).value = z ∧ words (NumberField.scan text).rest = others := by
  obtain ⟨before, post, rfl, hbefore, hword, hne, hpost, hothers⟩ := exists_of_wordsLeft_eq_cons h
  obtain ⟨b, rest, rfl⟩ := List.exists_cons_of_ne_nil hne
  have hhead : b ∈ (b :: rest ++ post).head? := rfl
  refine ⟨b :: rest ++ post, sentry_ofText hbefore hhead (hword b (List.mem_cons_self ..)), ?_⟩
  rw [numeral] at hz
  by_cases hfield : (NumberField.scan (b :: rest)).digits = []
      ∨ (NumberField.scan (b :: rest)).rest ≠ []
  · rw [if_pos hfield] at hz
    cases hz
  · rw [if_neg hfield] at hz
    rw [not_or, not_not] at hfield
    have hundigited : Undigited post := fun b hb => not_isDigit_of_isSpace (hpost b hb)
    rw [scan_append_of_rest_nil hne hfield.2 hundigited]
    exact ⟨hfield.1, Option.some.inj hz, hothers⟩

variable {α β : Type}

/-- `r` reads the words `texts` as `x`, whatever words follow them, and leaves those. -/
def TakesWords (r : TextReader α) (texts : List (List Byte)) (x : α) : Prop :=
  ∀ ⦃s : TextStream⦄ ⦃others : List (List Byte)⦄, s.wordsLeft = texts ++ others →
    (r s).1 = x ∧ (r s).2.wordsLeft = others

/-- Reading nothing takes no words. -/
theorem takesWords_pure (x : α) : TakesWords (pure x) [] x := fun _ _ h => ⟨rfl, h⟩

/-- **Sequence rule.** Words read one after the other are read from one list. -/
theorem TakesWords.bind {r : TextReader α} {f : α → TextReader β} {texts texts' : List (List Byte)}
    {x : α} {y : β} (h : TakesWords r texts x) (h' : TakesWords (f x) texts' y) :
    TakesWords (r >>= f) (texts ++ texts') y := by
  intro s others hs
  rw [List.append_assoc] at hs
  obtain ⟨hfst, hleft⟩ := h hs
  rw [bind_apply, hfst]
  exact h' hleft

/-- What is returned may be computed from what is read. -/
theorem TakesWords.map {r : TextReader α} {texts : List (List Byte)} {x : α}
    (h : TakesWords r texts x) (f : α → β) : TakesWords (r >>= fun x => pure (f x)) texts (f x) := by
  have hbind : TakesWords (r >>= fun x => pure (f x)) (texts ++ []) (f x) :=
    h.bind (takesWords_pure (f x))
  rwa [List.append_nil] at hbind

/-- **Extracting a signed integer takes the next word**, if it writes a number in range. -/
theorem takesWords_signed {w : Nat} {word : List Byte} {x : BitVec w}
    (hx : numeral word = some x.toInt) (old : BitVec w) : TakesWords (readSigned old) [word] x := by
  intro s others h
  obtain ⟨text, hsentry, hdigits, hvalue, hothers⟩ := exists_scan_of_numeral h hx
  have hmin := BitVec.toInt_intMin_le x
  have hmax : x.toInt ≤ (BitVec.intMax w).toInt := by
    have hlt := @BitVec.toInt_lt w x
    rw [BitVec.toInt_intMax]
    omega
  have hread : readSigned old s = (x, behind (NumberField.scan text).rest) := by
    rw [readSigned, extract, hsentry]
    simp only [hdigits, hvalue, if_false, if_neg (Int.not_lt.mpr hmin),
      if_neg (Int.not_lt.mpr hmax), BitVec.ofInt_toInt]
  rw [hread, wordsLeft_behind, hothers]
  exact ⟨rfl, rfl⟩

/-- **Extracting an unsigned integer takes the next word**, if it writes a number in range. -/
theorem takesWords_unsigned {w : Nat} {word : List Byte} {x : BitVec w}
    (hx : numeral word = some (x.toNat : Int)) (old : BitVec w) :
    TakesWords (readUnsigned old) [word] x := by
  intro s others h
  obtain ⟨text, hsentry, hdigits, hvalue, hothers⟩ := exists_scan_of_numeral h hx
  have hlt : ¬ 2 ^ w ≤ digitsValue (NumberField.scan text).digits := by
    have hisLt := x.isLt
    have hvalue' := hvalue
    rw [NumberField.value] at hvalue'
    split at hvalue'
    · omega
    · omega
  have hread : readUnsigned old s = (x, behind (NumberField.scan text).rest) := by
    rw [readUnsigned, extract, hsentry]
    simp only [hdigits, hvalue, hlt, if_false, BitVec.ofInt_natCast, BitVec.ofNat_toNat,
      BitVec.setWidth_eq]
  rw [hread, wordsLeft_behind, hothers]
  exact ⟨rfl, rfl⟩

/-- Extracting several signed integers takes as many words that write numbers in range. -/
theorem takesWords_each {w : Nat} {texts : List (List Byte)} {xs olds : List (BitVec w)}
    (htexts : texts.map numeral = xs.map fun x => some x.toInt) (hlen : olds.length = xs.length) :
    TakesWords (readEach olds) texts xs := by
  induction xs generalizing texts olds with
  | nil =>
      rw [List.length_nil, List.length_eq_zero_iff] at hlen
      rw [List.map_nil, List.map_eq_nil_iff] at htexts
      subst hlen htexts
      exact takesWords_pure []
  | cons x xs ih =>
      obtain ⟨old, olds, rfl⟩ := List.exists_cons_of_length_eq_add_one hlen
      obtain ⟨text, texts, rfl, htext, htexts⟩ := List.map_eq_cons_iff.mp htexts
      exact (takesWords_signed htext old).bind ((ih htexts (Nat.succ.inj hlen)).map (x :: ·))

/-! ## Converting numbers -/

/-- A word that writes a number contains no white space. -/
theorem spaceless_of_numeral {word : List Byte} {z : Int} (h : numeral word = some z) :
    Spaceless word := by
  intro b hb hspace
  have hne : ∀ c, ¬ IsSpace c → b ≠ c := fun c hc heq => hc (heq ▸ hspace)
  exact not_isDigit_of_isSpace hspace
    (isDigit_of_mem_numeral h hb (hne _ (by decide)) (hne _ (by decide)))

/-- A word that writes a number is not empty. -/
theorem ne_nil_of_numeral {word : List Byte} {z : Int} (h : numeral word = some z) : word ≠ [] := by
  rintro rfl
  cases h

/-- **The number that a word writes is converted**, behind white space and before anything but a
digit. -/
theorem stoi_numeral {word : List Byte} {z : Int} (h : numeral word = some z) (hmin : -2 ^ 31 ≤ z)
    (hmax : z < 2 ^ 31) {before post : List Byte} (hbefore : Blank before) (hpost : Undigited post) :
    stoi (before ++ (word ++ post)) = some z := by
  have hspaceless := spaceless_of_numeral h
  have hne := ne_nil_of_numeral h
  obtain ⟨b, rest, rfl⟩ := List.exists_cons_of_ne_nil hne
  have hskip : (before ++ (b :: rest ++ post)).dropWhile (IsSpace ·) = b :: rest ++ post := by
    rw [List.dropWhile_append_of_pos fun c hc => decide_eq_true (hbefore c hc), List.cons_append]
    exact List.dropWhile_cons_of_neg (by simpa using hspaceless b (List.mem_cons_self ..))
  rw [numeral, Option.ite_none_left_eq_some, not_or, not_not] at h
  obtain ⟨⟨hdigits, hrest⟩, hvalue⟩ := h
  rw [stoi, hskip, scan_append_of_rest_nil hne hrest hpost]
  have hvalue' : NumberField.value { NumberField.scan (b :: rest) with rest := post } = z :=
    Option.some.inj hvalue
  simp only [hvalue', hdigits, false_or]
  exact if_neg (by omega)

/-! ## Words of printed numbers -/

/-- A printed integer is a word. -/
theorem spaceless_signedDecimal (z : Int) : Spaceless (signedDecimal z) := by
  intro b hb hspace
  by_cases hminus : b = ascii '-'
  · rw [hminus] at hspace
    exact absurd hspace (by decide)
  · exact not_isDigit_of_isSpace hspace (isDigit_of_mem_signedDecimal hb hminus)

/-- The number that a printed integer writes is that integer. -/
@[simp] theorem numeral_signedDecimal (z : Int) : numeral (signedDecimal z) = some z := by
  have hscan := scan_signedDecimal z undigited_nil
  rw [List.append_nil] at hscan
  rw [numeral, hscan]
  simp only [decimal_ne_nil, ne_eq, not_true_eq_false, or_self, if_false, value_signedDecimal]

/-- A printed integer is converted. -/
theorem stoi_append {z : Int} (hmin : -2 ^ 31 ≤ z) (hmax : z < 2 ^ 31) {before post : List Byte}
    (hbefore : Blank before) (hpost : Undigited post) :
    stoi (before ++ (signedDecimal z ++ post)) = some z :=
  stoi_numeral (numeral_signedDecimal z) hmin hmax hbefore hpost

/-- A printed integer with white space behind it is a word. -/
theorem words_signedDecimal {sep : Byte} (hsep : IsSpace sep) (z : Int) (post : List Byte) :
    words (signedDecimal z ++ sep :: post) = signedDecimal z :: words post := by
  rw [words_append (spaceless_signedDecimal z) (signedDecimal_ne_nil z)
    (isSpace_of_mem_head? hsep post), words_cons_of_isSpace hsep]

/-- Printed integers with white space behind each of them are as many words. -/
theorem words_flatMap_signedDecimal {sep : Byte} (hsep : IsSpace sep) (zs : List Int)
    (post : List Byte) : words (zs.flatMap (fun z => signedDecimal z ++ [sep]) ++ post)
      = zs.map signedDecimal ++ words post := by
  induction zs with
  | nil => rfl
  | cons z zs ih =>
      rw [List.flatMap_cons, List.append_assoc, List.append_assoc, List.singleton_append,
        words_signedDecimal hsep, ih]
      rfl

end TextStream

end VmmShowcase
