import VmmShowcase.Legacy.Message

/-! # A message that arrives in parts

`main` of `src/homework-2 and 3- server.cc` calls `recv` once, and a stream socket may return any part of
what was sent. The server decodes what it has got. A part without the end of the file's name is never
taken for the whole message: of the numbers in front of the name a part has no more words than there are
numbers, and each of them is taken by one extraction or ends the extractions, so that none is left for
the name. The server then goes on with another file. -/

namespace VmmShowcase

open Text TextStream

/-! ## Extracting numbers from a cut text -/

/-- An extraction of a number takes this word, or fails at it. -/
def Countable (word : List Byte) : Prop :=
  (∃ z, numeral word = some z) ∨ ∃ negative, ∀ post, Undigited post →
    (NumberField.scan (word ++ post)) = ⟨negative, [], post⟩

/-- An extraction of a number leaves the words behind the next one, or no words. -/
theorem wordsLeft_readSigned {s : TextStream} (hwords : ∀ word ∈ s.wordsLeft, Countable word) {w : Nat}
    (old : BitVec w) : (readSigned old s).2.wordsLeft = s.wordsLeft.tail
      ∨ (readSigned old s).2.wordsLeft = [] := by
  cases h : s.wordsLeft with
  | nil => exact .inr (wordsLeft_of_not_good (extract_of_wordsLeft_nil h old _).2)
  | cons word others =>
      have hfail (t : TextStream) : t.fail.wordsLeft = [] := wordsLeft_of_not_good (not_good_fail t)
      rcases hwords word (h ▸ List.mem_cons_self) with ⟨z, hz⟩ | ⟨negative, hscan⟩
      · obtain ⟨text, hsentry, hdigits, -, hothers⟩ := exists_scan_of_numeral h hz
        rw [readSigned, extract, hsentry]
        simp only [if_neg hdigits]
        split
        · exact .inr (hfail _)
        · split
          · exact .inr (hfail _)
          · exact .inl (by rw [wordsLeft_behind, hothers]; rfl)
      · obtain ⟨before, post, rfl, hbefore, hword, hne, hpost, -⟩ := exists_of_wordsLeft_eq_cons h
        obtain ⟨b, rest, rfl⟩ := List.exists_cons_of_ne_nil hne
        have hhead : b ∈ (b :: rest ++ post).head? := rfl
        have hundigited : Undigited post := fun c hc => not_isDigit_of_isSpace (hpost c hc)
        rw [readSigned, extract_ofText hbefore hhead (hword b (List.mem_cons_self ..)),
          hscan post hundigited]
        exact .inr (hfail _)

/-- The words left are those behind the first `n`, or none. -/
def LeavesBehind (n : Nat) (s s' : TextStream) : Prop :=
  s'.wordsLeft = s.wordsLeft.drop n ∨ s'.wordsLeft = []

/-- Extracting several numbers leaves the words behind as many, or none. -/
theorem leavesBehind_readEach {w : Nat} (olds : List (BitVec w)) {s : TextStream}
    (hwords : ∀ word ∈ s.wordsLeft, Countable word) :
    LeavesBehind olds.length s (readEach olds s).2 := by
  induction olds generalizing s with
  | nil => exact .inl rfl
  | cons old olds ih =>
      rw [readEach, bind_apply, bind_apply]
      show LeavesBehind _ s (readEach olds (readSigned old s).2).2
      have hnext : ∀ word ∈ (readSigned old s).2.wordsLeft, Countable word := by
        rcases wordsLeft_readSigned hwords old with h | h
        · rw [h]
          exact fun word hword => hwords word (List.mem_of_mem_tail hword)
        · rw [h]
          exact fun word hword => absurd hword List.not_mem_nil
      rcases ih hnext with h | h
      · rcases wordsLeft_readSigned hwords old with h' | h'
        · exact .inl (by rw [h, h', List.length_cons, List.drop_tail])
        · exact .inr (by rw [h, h', List.drop_nil])
      · exact .inr h

/-! ## Cutting printed numbers -/

/-- A printed integer that is cut off is empty, or can be counted. -/
theorem countable_take (z : Int) (n : Nat) :
    (signedDecimal z).take n = [] ∨ Countable ((signedDecimal z).take n) := by
  have hdigits (m : Nat) : ∀ b ∈ (decimal z.natAbs).take m, IsDigit b := fun b hb =>
    isDigit_of_mem_decimal (List.mem_of_mem_take hb)
  rw [signedDecimal]
  split
  · cases n with
    | zero => exact .inl rfl
    | succ n =>
        rw [List.take_succ_cons]
        refine .inr ?_
        by_cases hnone : (decimal z.natAbs).take n = []
        · -- only the sign is left
          rw [hnone]
          exact .inr ⟨true, fun post hpost => scan_minus (fun b hb => absurd hb List.not_mem_nil) hpost⟩
        · have hscan := scan_minus (hdigits n) undigited_nil
          rw [List.append_nil] at hscan
          refine .inl ⟨NumberField.value ⟨true, (decimal z.natAbs).take n, []⟩, ?_⟩
          rw [numeral, hscan]
          simp [hnone]
  · by_cases hnone : (decimal z.natAbs).take n = []
    · exact .inl hnone
    · exact .inr (.inl ⟨_, numeral_digits hnone (hdigits n)⟩)

/-- A text of printed integers that is cut off has no more words than there are integers, and all of them
can be counted. -/
theorem words_take_printed (zs : List Int) (n : Nat) :
    (∀ word ∈ words ((zs.flatMap fun z => signedDecimal z ++ [space]).take n), Countable word)
      ∧ (words ((zs.flatMap fun z => signedDecimal z ++ [space]).take n)).length ≤ zs.length := by
  induction zs generalizing n with
  | nil => simp
  | cons z zs ih =>
      rw [List.flatMap_cons, List.append_assoc]
      rcases Nat.lt_or_ge (signedDecimal z).length n with hlt | hle
      · obtain ⟨m, rfl⟩ := Nat.exists_eq_add_of_lt hlt
        rw [Nat.add_assoc, List.take_length_add_append, List.singleton_append, List.take_succ_cons,
          words_signedDecimal (by decide)]
        obtain ⟨hcountable, hlength⟩ := ih m
        refine ⟨?_, Nat.succ_le_succ hlength⟩
        intro word hword
        rcases List.mem_cons.mp hword with rfl | hword
        · exact .inl ⟨z, numeral_signedDecimal z⟩
        · exact hcountable word hword
      · rw [List.take_append_of_le_length hle]
        rcases countable_take z n with hnone | hcountable
        · rw [hnone]
          simp
        · by_cases hnone : (signedDecimal z).take n = []
          · rw [hnone]
            simp
          · have hspaceless : Spaceless ((signedDecimal z).take n) := fun b hb =>
              spaceless_signedDecimal z b (List.mem_of_mem_take hb)
            rw [words_of_spaceless hspaceless hnone]
            simpa using hcountable

/-- The values are printed integers. -/
theorem Client.values_eq (obj : VmClass) : Client.values obj
    = ((List.ofFn obj.registers).map BitVec.toInt ++ [obj.pc.toInt]).flatMap
      fun z => signedDecimal z ++ [space] := by
  rw [values, List.flatMap_append, List.flatMap_map, List.flatMap_singleton]

/-- **No name is extracted from a part of the values.** -/
theorem Server.readMessage_take (obj : VmClass) (n : Nat) :
    (Server.readMessage (ofText ((Client.values obj).take n))).1.2 = [] := by
  obtain ⟨hcountable, hlength⟩ :=
    words_take_printed ((List.ofFn obj.registers).map BitVec.toInt ++ [obj.pc.toInt]) n
  rw [← Client.values_eq] at hcountable hlength
  rw [List.length_append, List.length_map, List.length_ofFn, List.length_singleton] at hlength
  rw [← wordsLeft_ofText] at hcountable hlength
  generalize ofText ((Client.values obj).take n) = s at hcountable hlength ⊢
  have hzeros : (List.replicate 32 (0 : Word)).length = 32 := List.length_replicate
  rw [readMessage]
  generalize List.replicate 32 (0 : Word) = olds at hzeros ⊢
  rw [bind_apply, bind_apply, bind_apply]
  show (readToken [] (readSigned (0 : Word) (readEach olds s).2).2).1 = []
  have hregisters := leavesBehind_readEach olds hcountable
  rw [hzeros] at hregisters
  generalize (readEach olds s).2 = s' at hregisters ⊢
  have hcountable' : ∀ word ∈ s'.wordsLeft, Countable word := by
    rcases hregisters with h | h
    · rw [h]
      exact fun word hword => hcountable word (List.mem_of_mem_drop hword)
    · rw [h]
      exact fun word hword => absurd hword List.not_mem_nil
  have hnone : (readSigned (0 : Word) s').2.wordsLeft = [] := by
    rcases wordsLeft_readSigned hcountable' (0 : Word) with h | h
    · rw [h]
      rcases hregisters with h' | h'
      · rw [h', List.tail_drop, List.drop_eq_nil_iff]
        exact hlength
      · rw [h', List.tail_nil]
    · exact h
  rw [readToken_fst, hnone, List.headD_nil]

/-- A part of a name is extracted as it arrived. -/
theorem readToken_take {filename : List Byte} (h : Spaceless filename) (n : Nat) :
    (readToken [] (ofText (filename.take n))).1 = filename.take n := by
  rw [readToken_fst, wordsLeft_ofText]
  by_cases hnone : filename.take n = []
  · rw [hnone]
    rfl
  · have hspaceless : Spaceless (filename.take n) := fun b hb => h b (List.mem_of_mem_take hb)
    rw [words_of_spaceless hspaceless hnone, List.headD_cons]

/-- **A part is not taken for the whole.** Of a message whose first `n` bytes arrive, in front of a zero
byte, the server decodes a machine and a front part of the file's name; the name is the file's exactly if
all bytes up to its last one have arrived, and then the machine is the client's. -/
theorem Server.decode_take {filename : List Byte} (h : Spaceless filename) (hne : filename ≠ [])
    (hzero : 0 ∉ filename) (obj : VmClass) (n : Nat) (rest : List Byte) :
    ∃ vm name, Server.decode ((Client.sent obj filename).take n ++ 0 :: rest) = some (vm, name)
      ∧ name <+: filename
      ∧ (name = filename ↔ (Client.values obj).length + filename.length ≤ n)
      ∧ (name = filename → vm = obj.received) := by
  have hsent : Client.sent obj filename = Client.values obj ++ (filename ++ [space]) := by
    rw [Client.sent_eq, takeWhile_append_of_notMem hzero]
    rfl
  have hpart : 0 ∉ (Client.sent obj filename).take n := fun hmem =>
    notMem_takeWhile 0 _ (List.mem_of_mem_take hmem)
  have hdecode : Server.decode ((Client.sent obj filename).take n ++ 0 :: rest)
      = some (Server.readMessage (ofText ((Client.sent obj filename).take n))).1 := by
    rw [decode, zeroTerminated_append hpart, Option.map_map]
    show some (Server.readMessage (ofText ((Client.sent obj filename).take n ++ []))).1 = _
    rw [List.append_nil]
  have hpos : 0 < filename.length := List.length_pos_iff.mpr hne
  rw [hdecode, hsent]
  rcases Nat.lt_or_ge n (Client.values obj).length with hlt | hge
  · -- the name has not begun to arrive
    rw [List.take_append_of_le_length (Nat.le_of_lt hlt)]
    have hname := Server.readMessage_take obj n
    generalize (Server.readMessage (ofText ((Client.values obj).take n))).1 = decoded at hname ⊢
    obtain ⟨vm, name⟩ := decoded
    obtain rfl : name = [] := hname
    refine ⟨vm, [], rfl, List.nil_prefix, ?_, fun heq => absurd heq.symm hne⟩
    exact iff_of_false (fun heq => hne heq.symm) (by omega)
  · obtain ⟨k, rfl⟩ := Nat.exists_eq_add_of_le hge
    rw [List.take_length_add_append, Server.readMessage_values]
    rcases Nat.lt_or_ge filename.length k with hlt | hle
    · have hwhole : (filename ++ [space]).take k = filename ++ [space] := by
        rw [List.take_of_length_le]
        rw [List.length_append, List.length_singleton]
        omega
      rw [hwhole]
      have hname : (readToken [] (ofText (filename ++ [space]))).1 = filename :=
        readName_of_spaceless h hne []
      rw [hname]
      exact ⟨_, _, rfl, List.prefix_rfl, iff_of_true rfl (by omega), fun _ => rfl⟩
    · rw [List.take_append_of_le_length hle, readToken_take h]
      refine ⟨_, _, rfl, List.take_prefix k filename, ?_, fun _ => rfl⟩
      rw [List.take_eq_self_iff]
      omega

/-- The theorem for the client that has multiplied, of whose message nothing but the first 10 bytes has
arrived. -/
theorem Server.decode_take_multiplied : ∃ vm name,
    Server.decode ((Client.sent multiplied (bytes ['p'])).take 10 ++ 0 :: List.replicate 1013 0)
        = some (vm, name)
      ∧ name <+: bytes ['p']
      ∧ (name = bytes ['p'] ↔ (Client.values multiplied).length + (bytes ['p']).length ≤ 10)
      ∧ (name = bytes ['p'] → vm = multiplied.received) :=
  Server.decode_take (by decide) (by decide) (by decide) multiplied 10 (List.replicate 1013 0)

end VmmShowcase
