import VmmShowcase.Foundations.LoopSemantics
import VmmShowcase.Foundations.TextStream

/-! # Two machines that take turns

A loop executes a slice of the lines of one file, then a slice of the lines of another, until both files
are at their end. Each file has its own machine; the machines share a world, on which a line only has
effects that it does not see. Then each machine ends as if its file had been executed alone, and the
effects are those of the files alone, dealt out slice by slice. -/

namespace VmmShowcase

namespace TextStream

/-! ## Files -/

/-- `std::ifstream`: opening a file that is missing fails. -/
def openFile : Option (List Byte) → TextStream
  | none => { rest := [], failbit := true }
  | some text => ofText text

/-- The stream behind `n` calls of `getline`, or behind the first one that fails. -/
def skipLines : Nat → TextStream → TextStream
  | 0, file => file
  | n + 1, file =>
      let file := (getline newline [] file).2
      if file.failbit then file else skipLines n file

/-- A file that was found fails only at its end. -/
def Opened (file : TextStream) : Prop := file.failbit = true → file.eofbit = true

/-- What a loop up to the end of a file has left to read. -/
def remaining (file : TextStream) : Nat := if file.eofbit then 0 else file.rest.length + 1

/-- The lines of a stream whose next `getline` succeeds. -/
theorem linesLeft_of_getline {file : TextStream} (h : (getline newline [] file).2.failbit = false) :
    file.linesLeft = (getline newline [] file).1 :: (getline newline [] file).2.linesLeft := by
  rw [linesLeft]
  exact dif_pos h

/-- No line is left where `getline` fails. -/
theorem linesLeft_of_getline_fails {file : TextStream}
    (h : (getline newline [] file).2.failbit = true) : file.linesLeft = [] := by
  rw [linesLeft]
  exact dif_neg (by rw [h]; decide)

/-- A stream that is not good is left as it is, but for its state. -/
theorem getline_of_not_good {file : TextStream} (h : ¬ file.Good) :
    getline newline [] file = ([], file.fail) := by
  rw [getline, if_neg h]

/-- The lines of a text in which each one is ended. -/
theorem linesLeft_ofText_lines {lines : List (List Byte)} (h : ∀ line ∈ lines, newline ∉ line) :
    (ofText (lines.flatMap fun line => line ++ [newline])).linesLeft = lines := by
  induction lines with
  | nil => exact linesLeft_ofText_nil
  | cons line lines ih =>
      rw [List.flatMap_cons, List.append_assoc, List.singleton_append,
        linesLeft_ofText_append (h line (List.mem_cons_self ..)),
        ih fun l hl => h l (List.mem_cons_of_mem _ hl)]

/-- At the end of a file no line is left. -/
theorem linesLeft_of_eof {file : TextStream} (h : file.eofbit = true) : file.linesLeft = [] := by
  have hgood : ¬ file.Good := by
    rintro ⟨heof, -⟩
    rw [h] at heof
    cases heof
  exact linesLeft_of_getline_fails (by rw [getline_of_not_good hgood]; rfl)

/-- An opened file that is not at its end is good. -/
theorem Opened.good {file : TextStream} (h : file.Opened) (heof : file.eofbit = false) :
    file.Good := by
  refine ⟨heof, ?_⟩
  cases hfail : file.failbit with
  | false => rfl
  | true => rw [h hfail] at heof; cases heof

/-- A text is opened. -/
theorem opened_ofText (text : List Byte) : (ofText text).Opened := fun h => absurd h Bool.false_ne_true

/-- **`getline` on an opened file** leaves it opened; it comes nearer to the end, or is there already. -/
theorem Opened.getline {file : TextStream} (h : file.Opened) :
    (TextStream.getline newline [] file).2.Opened
      ∧ ((TextStream.getline newline [] file).2.remaining < file.remaining
        ∨ file.eofbit = true ∧ (TextStream.getline newline [] file).2.eofbit = true) := by
  by_cases hgood : file.Good
  · have hremaining : file.remaining = file.rest.length + 1 := by
      rw [remaining, hgood.1]
      rfl
    rw [TextStream.getline, if_pos hgood, hremaining]
    -- the text has a line end, or it is at its last line
    cases hrest : file.rest.dropWhile (· ≠ newline) with
    | nil => exact ⟨fun _ => rfl, .inl (Nat.succ_pos _)⟩
    | cons b rest =>
        have hle := List.length_dropWhile_le (fun c => decide (c ≠ newline)) file.rest
        rw [hrest, List.length_cons] at hle
        exact ⟨fun hfail => absurd hfail Bool.false_ne_true, .inl (Nat.succ_lt_succ hle)⟩
  · have heof : file.eofbit = true := by
      cases heof : file.eofbit with
      | true => rfl
      | false => exact absurd (h.good heof) hgood
    rw [getline_of_not_good hgood]
    exact ⟨fun _ => heof, .inr ⟨heof, heof⟩⟩

/-- **What a slice of `getline` calls leaves**: the lines behind those it reads, in an opened file that has
come nearer to its end, if it was not there. -/
theorem Opened.skipLines {file : TextStream} (h : file.Opened) (n : Nat) :
    (file.skipLines n).Opened ∧ (file.skipLines n).linesLeft = file.linesLeft.drop n
      ∧ (file.skipLines n).remaining ≤ file.remaining
      ∧ (0 < n → file.eofbit = false → (file.skipLines n).remaining < file.remaining) := by
  induction n generalizing file with
  | zero => exact ⟨h, rfl, Nat.le_refl _, fun hn => absurd hn (Nat.lt_irrefl 0)⟩
  | succ n ih =>
      obtain ⟨hopened, hless⟩ := h.getline
      -- a call that reads nothing sets `eofbit`, after which nothing remains
      have hle : (TextStream.getline newline [] file).2.remaining ≤ file.remaining := by
        rcases hless with hlt | ⟨-, heof⟩
        · exact Nat.le_of_lt hlt
        · rw [remaining, heof]
          exact Nat.zero_le _
      have hlt (heof : file.eofbit = false) :
          (TextStream.getline newline [] file).2.remaining < file.remaining := by
        rcases hless with hlt | ⟨hend, -⟩
        · exact hlt
        · rw [hend] at heof
          cases heof
      rw [TextStream.skipLines]
      cases hfail : (TextStream.getline newline [] file).2.failbit with
      | true =>
          rw [if_pos rfl, linesLeft_of_getline_fails hfail, List.drop_nil,
            linesLeft_of_eof (hopened hfail)]
          exact ⟨hopened, rfl, hle, fun _ => hlt⟩
      | false =>
          obtain ⟨hopened', hlines, hle', -⟩ := ih hopened
          rw [if_neg (by decide), linesLeft_of_getline hfail, List.drop_succ_cons]
          exact ⟨hopened', hlines, hle'.trans hle, fun _ heof => hle'.trans_lt (hlt heof)⟩

/-- A file that was not found never comes to its end. -/
theorem eofbit_skipLines_of_failed {file : TextStream} (hfail : file.failbit = true)
    (heof : file.eofbit = false) (n : Nat) :
    (file.skipLines n).failbit = true ∧ (file.skipLines n).eofbit = false := by
  have hgood : ¬ file.Good := by
    rintro ⟨-, hgood⟩
    rw [hfail] at hgood
    cases hgood
  cases n with
  | zero => exact ⟨hfail, heof⟩
  | succ n =>
      rw [skipLines, getline_of_not_good hgood]
      exact ⟨rfl, heof⟩

end TextStream

namespace TimeSlicing

open TextStream

/-! ## Dealing out -/

section Deal

variable {α : Type*}

/-- Take `m` and `n` entries of two lists in turn, for `k` rounds. -/
def deal (m n : Nat) : (k : Nat) → (xs ys : List α) → List α
  | 0, _, _ => []
  | k + 1, xs, ys => xs.take m ++ ys.take n ++ deal m n k (xs.drop m) (ys.drop n)

/-- Take `m` and `n` entries of two lists in turn, until nothing is left. -/
def turns (m n : Nat) (xs ys : List α) : List α := deal m n (max xs.length ys.length) xs ys

/-- Nothing is dealt from empty lists. -/
@[simp] theorem deal_nil (m n k : Nat) : deal m n k ([] : List α) [] = [] := by
  induction k with
  | zero => rfl
  | succ k ih => rw [deal, List.take_nil, List.take_nil, List.drop_nil, List.drop_nil, ih]; rfl

/-- All rounds behind the last entries are alike. -/
theorem deal_eq {m n : Nat} (hm : 0 < m) (hn : 0 < n) {k k' : Nat} {xs ys : List α}
    (hxs : xs.length ≤ k) (hys : ys.length ≤ k) (hxs' : xs.length ≤ k') (hys' : ys.length ≤ k') :
    deal m n k xs ys = deal m n k' xs ys := by
  induction k generalizing k' xs ys with
  | zero =>
      rw [List.length_eq_zero_iff.mp (Nat.le_zero.mp hxs),
        List.length_eq_zero_iff.mp (Nat.le_zero.mp hys), deal_nil, deal_nil]
  | succ k ih =>
      cases k' with
      | zero =>
          rw [List.length_eq_zero_iff.mp (Nat.le_zero.mp hxs'),
            List.length_eq_zero_iff.mp (Nat.le_zero.mp hys'), deal_nil, deal_nil]
      | succ k' =>
          have hrest : deal m n k (xs.drop m) (ys.drop n) = deal m n k' (xs.drop m) (ys.drop n) := by
            apply ih <;> rw [List.length_drop] <;> omega
          rw [deal, deal, hrest]

/-- **A round of turns**: a slice of the one list, a slice of the other, and the turns of what is left. -/
theorem turns_eq {m n : Nat} (hm : 0 < m) (hn : 0 < n) (xs ys : List α) :
    turns m n xs ys = xs.take m ++ ys.take n ++ turns m n (xs.drop m) (ys.drop n) := by
  have hone : turns m n xs ys = deal m n (max xs.length ys.length + 1) xs ys :=
    deal_eq hm hn (Nat.le_max_left ..) (Nat.le_max_right ..)
      (Nat.le_succ_of_le (Nat.le_max_left ..)) (Nat.le_succ_of_le (Nat.le_max_right ..))
  have hrest : deal m n (max xs.length ys.length) (xs.drop m) (ys.drop n)
      = turns m n (xs.drop m) (ys.drop n) := by
    apply deal_eq hm hn <;> simp only [List.length_drop] <;> omega
  rw [hone, deal, hrest]

/-- **Turns keep the order of each list**: what only the entries of the first one satisfy is taken from
the turns in the order it has there. -/
theorem filter_turns {m : Nat} (hm : 0 < m) (n : Nat) {p : α → Bool} {xs ys : List α}
    (h : ∀ y ∈ ys, p y = false) : (turns m n xs ys).filter p = xs.filter p := by
  suffices hdeal : ∀ k, xs.length ≤ k → (deal m n k xs ys).filter p = xs.filter p from
    hdeal _ (Nat.le_max_left ..)
  intro k
  -- more rounds than the first list is long make no difference
  induction k generalizing xs ys with
  | zero =>
      intro hlen
      rw [List.length_eq_zero_iff.mp (Nat.le_zero.mp hlen), deal]
  | succ k ih =>
      intro hlen
      have hys : (ys.take n).filter p = [] := by
        rw [List.filter_eq_nil_iff]
        intro y hy
        rw [h y (List.mem_of_mem_take hy)]
        decide
      have hrest : (deal m n k (xs.drop m) (ys.drop n)).filter p = (xs.drop m).filter p := by
        apply ih (fun y hy => h y (List.mem_of_mem_drop hy))
        rw [List.length_drop]
        omega
      rw [deal, List.filter_append, List.filter_append, hys, List.append_nil, hrest,
        ← List.filter_append, List.take_append_drop]

/-- What no entry of the second list has is in the turns what it is in the first list. -/
theorem filterMap_flatten_turns {β : Type*} {m : Nat} (hm : 0 < m) (n : Nat) {f : α → Option β}
    {xs ys : List (List α)} (h : ∀ y ∈ ys, y.filterMap f = []) :
    (turns m n xs ys).flatten.filterMap f = xs.flatten.filterMap f := by
  have hfilter (l : List (List α)) : l.flatten.filterMap f
      = (l.filter fun entry => entry.filterMap f ≠ []).flatten.filterMap f := by
    induction l with
    | nil => rfl
    | cons entry l ih =>
        rw [List.flatten_cons, List.filterMap_append, ih, List.filter_cons]
        by_cases hentry : entry.filterMap f = []
        · rw [if_neg (by simpa using hentry), hentry, List.nil_append]
        · rw [if_pos (by simpa using hentry), List.flatten_cons, List.filterMap_append]
  rw [hfilter, filter_turns hm n fun y hy => decide_eq_false fun hne => hne (h y hy), ← hfilter]

end Deal

/-! ## Executing a file -/

variable {σ W ω : Type*}

/-- What a line does to the shared world: effects, which depend on nothing but the machine. -/
def Emits (step : List Byte → σ → W → Option (σ × W))
    (emit : List Byte → σ → Option (σ × List ω)) (apply : W → ω → W) : Prop :=
  ∀ line s w, step line s w = (emit line s).map fun p => (p.1, p.2.foldl apply w)

/-- Execute lines alone; the trace has the effects of each line. -/
def solo (emit : List Byte → σ → Option (σ × List ω)) :
    List (List Byte) → σ → Option (σ × List (List ω))
  | [], s => some (s, [])
  | line :: lines, s => do
      let (s, effects) ← emit line s
      let (s, trace) ← solo emit lines s
      return (s, effects :: trace)

/-- A slice: read a line and execute it, at most `n` times and until no line is left. -/
def slice (step : List Byte → σ → W → Option (σ × W)) :
    Nat → TextStream × σ × W → Option (TextStream × σ × W)
  | 0, p => some p
  | n + 1, (file, s, w) =>
      let (line, file) := getline newline [] file
      if file.failbit then some (file, s, w)
      else do
        let (s, w) ← step line s w
        slice step n (file, s, w)

variable {step : List Byte → σ → W → Option (σ × W)} {emit : List Byte → σ → Option (σ × List ω)}
  {apply : W → ω → W}

/-- The first line of a file is executed first. -/
theorem solo_cons (line : List Byte) (lines : List (List Byte)) (s : σ) :
    solo emit (line :: lines) s
      = (emit line s).bind fun p => (solo emit lines p.1).map fun q => (q.1, p.2 :: q.2) := by
  rw [solo]
  cases emit line s with
  | none => rfl
  | some p => cases hrest : solo emit lines p.1 <;> simp [hrest]

/-- Lines are executed one file after the other. -/
theorem solo_append (first second : List (List Byte)) (s : σ) : solo emit (first ++ second) s
    = (solo emit first s).bind fun p =>
      (solo emit second p.1).map fun q => (q.1, p.2 ++ q.2) := by
  induction first generalizing s with
  | nil =>
      rw [List.nil_append, solo, Option.bind_some]
      exact Option.map_id'.symm
  | cons line first ih =>
      rw [List.cons_append, solo_cons, solo_cons, Option.bind_assoc]
      congr 1
      funext p
      rw [ih, Option.map_bind, Option.bind_map]
      congr 1
      funext q
      rw [Function.comp_apply, Function.comp_apply, Option.map_map]
      rfl

/-- A trace has an entry for each line. -/
theorem length_of_solo {lines : List (List Byte)} {s s' : σ} {trace : List (List ω)}
    (h : solo emit lines s = some (s', trace)) : trace.length = lines.length := by
  induction lines generalizing s s' trace with
  | nil => cases h; rfl
  | cons line lines ih =>
      rw [solo_cons, Option.bind_eq_some_iff] at h
      obtain ⟨p, -, h⟩ := h
      rw [Option.map_eq_some_iff] at h
      obtain ⟨q, hq, h⟩ := h
      cases h
      rw [List.length_cons, List.length_cons, ih hq]

/-- A slice ends where no line is left. -/
theorem slice_succ_of_fails {file : TextStream} (h : (getline newline [] file).2.failbit = true)
    (n : Nat) (s : σ) (w : W) :
    slice step (n + 1) (file, s, w) = some ((getline newline [] file).2, s, w) := by
  rw [slice]
  generalize getline newline [] file = read at h ⊢
  exact if_pos h

/-- A slice executes the line it reads. -/
theorem slice_succ {file : TextStream} (h : (getline newline [] file).2.failbit = false) (n : Nat)
    (s : σ) (w : W) : slice step (n + 1) (file, s, w)
      = (step (getline newline [] file).1 s w).bind fun p =>
        slice step n ((getline newline [] file).2, p) := by
  rw [slice]
  generalize getline newline [] file = read at h ⊢
  exact if_neg (by rw [h]; decide)

/-- **A slice executes the next lines of its file**, as they are executed alone. -/
theorem slice_eq (hemits : Emits step emit apply) (n : Nat) (file : TextStream) (s : σ) (w : W) :
    slice step n (file, s, w) = (solo emit (file.linesLeft.take n) s).map fun p =>
      (file.skipLines n, p.1, p.2.flatten.foldl apply w) := by
  induction n generalizing file s w with
  | zero => rw [List.take_zero]; rfl
  | succ n ih =>
      rw [skipLines]
      cases hfail : (getline newline [] file).2.failbit with
      | true =>
          rw [slice_succ_of_fails hfail, linesLeft_of_getline_fails hfail, List.take_nil]
          rfl
      | false =>
          rw [slice_succ hfail, linesLeft_of_getline hfail, List.take_succ_cons, solo_cons, hemits,
            Option.bind_map, Option.map_bind]
          congr 1
          funext p
          rw [Function.comp_apply, Function.comp_apply, ih, Option.map_map]
          congr 1
          funext q
          rw [Function.comp_apply, List.flatten_cons, List.foldl_append]
          rfl

/-- **Executing lines in two parts.** -/
theorem solo_eq_some_iff (n : Nat) {lines : List (List Byte)} {s s' : σ} {trace : List (List ω)} :
    solo emit lines s = some (s', trace) ↔ ∃ t, solo emit (lines.take n) s = some (t, trace.take n)
      ∧ solo emit (lines.drop n) t = some (s', trace.drop n) := by
  have hsplit : solo emit (lines.take n ++ lines.drop n) s = _ := solo_append ..
  rw [List.take_append_drop] at hsplit
  constructor
  · intro h
    rw [hsplit, Option.bind_eq_some_iff] at h
    obtain ⟨⟨t, before⟩, hbefore, h⟩ := h
    rw [Option.map_eq_some_iff] at h
    obtain ⟨⟨u, behind⟩, hbehind, h⟩ := h
    cases h
    have hbeforeLength := length_of_solo hbefore
    have hbehindLength := length_of_solo hbehind
    rw [List.length_take] at hbeforeLength
    rw [List.length_drop] at hbehindLength
    -- the first part is shorter only where there is no second part
    have hend : before.length = n ∨ before.length ≤ n ∧ behind = [] := by
      rcases Nat.le_total n lines.length with hle | hle
      · exact .inl (by omega)
      · exact .inr ⟨by omega, List.length_eq_zero_iff.mp (by omega)⟩
    have htake : (before ++ behind).take n = before := by
      rcases hend with hlen | ⟨hlen, hnil⟩
      · exact List.take_left' hlen
      · rw [hnil, List.append_nil, List.take_of_length_le hlen]
    have hdrop : (before ++ behind).drop n = behind := by
      rcases hend with hlen | ⟨hlen, hnil⟩
      · exact List.drop_left' hlen
      · rw [hnil, List.append_nil, List.drop_of_length_le hlen]
    exact ⟨t, by rw [htake, hbefore], by rw [hdrop, hbehind]⟩
  · rintro ⟨t, hbefore, hbehind⟩
    rw [hsplit, hbefore, Option.bind_some, hbehind, Option.map_some, List.take_append_drop]

/-- What is left of some lines goes on behind the first ones. -/
theorem solo_of_drop {n : Nat} {lines : List (List Byte)} {s t u : σ} {trace rest : List (List ω)}
    (htake : solo emit (lines.take n) s = some (t, trace))
    (hdrop : solo emit (lines.drop n) t = some (u, rest)) :
    solo emit lines s = some (u, trace ++ rest) ∧ (trace ++ rest).take n = trace
      ∧ (trace ++ rest).drop n = rest := by
  have hall : solo emit lines s = some (u, trace ++ rest) := by
    have hsplit : solo emit (lines.take n ++ lines.drop n) s = _ := solo_append ..
    rwa [List.take_append_drop, htake, Option.bind_some, hdrop, Option.map_some] at hsplit
  obtain ⟨t', htake', hdrop'⟩ := (solo_eq_some_iff n).mp hall
  rw [htake, Option.some.injEq, Prod.mk.injEq] at htake'
  obtain ⟨rfl, htrace⟩ := htake'
  rw [hdrop, Option.some.injEq, Prod.mk.injEq] at hdrop'
  exact ⟨hall, htrace.symm, hdrop'.2.symm⟩

/-- What every line preserves, a file preserves. -/
theorem solo_invariant {α : Type*} {view : σ → α}
    (hview : ∀ line s s' effects, emit line s = some (s', effects) → view s' = view s)
    {lines : List (List Byte)} {s s' : σ} {trace : List (List ω)}
    (h : solo emit lines s = some (s', trace)) : view s' = view s := by
  induction lines generalizing s s' trace with
  | nil => cases h; rfl
  | cons line lines ih =>
      rw [solo_cons, Option.bind_eq_some_iff] at h
      obtain ⟨⟨t, effects⟩, ht, h⟩ := h
      rw [Option.map_eq_some_iff] at h
      obtain ⟨⟨u, rest⟩, hu, h⟩ := h
      cases h
      rw [ih hu, hview line s t effects ht]

/-! ## The loop -/

/-- Two files with their machines, and the world they share. -/
structure State (σ W : Type*) where
  file₁ : TextStream
  machine₁ : σ
  file₂ : TextStream
  machine₂ : σ
  world : W

/-- The loop: until both files are at their end, a slice of the first and a slice of the second. Each
machine has the length of its slices. -/
def body (quantum : σ → Nat) (step : List Byte → σ → W → Option (σ × W)) (m : State σ W) :
    LoopStep (State σ W) :=
  if m.file₁.eofbit && m.file₂.eofbit then .exit m
  else
    match slice step (quantum m.machine₁) (m.file₁, m.machine₁, m.world) with
    | none => .undefined
    | some (file₁, machine₁, world) =>
        match slice step (quantum m.machine₂) (m.file₂, m.machine₂, world) with
        | none => .undefined
        | some (file₂, machine₂, world) => .next { file₁, machine₁, file₂, machine₂, world }

/-- The loop ends with the given machines and world. -/
def Ends (quantum : σ → Nat) (step : List Byte → σ → W → Option (σ × W)) (m : State σ W)
    (machine₁ machine₂ : σ) (world : W) : Prop :=
  ∃ file₁ file₂, Loop.Terminates (body quantum step) m { file₁, machine₁, file₂, machine₂, world }

variable {quantum : σ → Nat}

/-- The loop is left where both files are at their end, and nowhere else. -/
theorem body_eq_exit_iff {m m' : State σ W} :
    body quantum step m = .exit m' ↔ (m.file₁.eofbit = true ∧ m.file₂.eofbit = true) ∧ m' = m := by
  rw [body]
  split
  · rename_i h
    rw [Bool.and_eq_true] at h
    rw [LoopStep.exit.injEq, and_iff_right h]
    exact eq_comm
  · rename_i h
    rw [Bool.and_eq_true] at h
    constructor
    · intro hexit
      split at hexit
      · cases hexit
      · split at hexit <;> cases hexit
    · exact fun hend => absurd hend.1 h

/-- A round of the loop is a slice of each file. -/
theorem body_eq_next_iff_slice {m m' : State σ W} : body quantum step m = .next m'
    ↔ ¬ (m.file₁.eofbit = true ∧ m.file₂.eofbit = true)
      ∧ ∃ file₁ machine₁ between file₂ machine₂ world,
        slice step (quantum m.machine₁) (m.file₁, m.machine₁, m.world) = some (file₁, machine₁, between)
        ∧ slice step (quantum m.machine₂) (m.file₂, m.machine₂, between)
          = some (file₂, machine₂, world)
        ∧ m' = ⟨file₁, machine₁, file₂, machine₂, world⟩ := by
  have hcond : (m.file₁.eofbit && m.file₂.eofbit) = true
      ↔ m.file₁.eofbit = true ∧ m.file₂.eofbit = true := by
    rw [Bool.and_eq_true]
  rw [body]
  by_cases hend : m.file₁.eofbit = true ∧ m.file₂.eofbit = true
  · rw [if_pos (hcond.mpr hend)]
    exact iff_of_false nofun fun h => h.1 hend
  rw [if_neg fun h => hend (hcond.mp h), and_iff_right hend]
  -- the second slice runs only where the first one has a value
  cases slice step (quantum m.machine₁) (m.file₁, m.machine₁, m.world) with
  | none => exact iff_of_false nofun (by rintro ⟨_, _, _, _, _, _, h, -⟩; cases h)
  | some p =>
      obtain ⟨file₁, machine₁, between⟩ := p
      simp only
      cases hsecond : slice step (quantum m.machine₂) (m.file₂, m.machine₂, between) with
      | none =>
          refine iff_of_false nofun ?_
          rintro ⟨_, _, _, _, _, _, h, h', -⟩
          cases h
          rw [hsecond] at h'
          cases h'
      | some q =>
          obtain ⟨file₂, machine₂, world⟩ := q
          simp only [LoopStep.next.injEq]
          constructor
          · rintro rfl
            exact ⟨_, _, _, _, _, _, rfl, hsecond, rfl⟩
          · rintro ⟨_, _, _, _, _, _, h, h', rfl⟩
            cases h
            rw [hsecond] at h'
            cases h'
            rfl

/-- **A round of the loop** executes the next lines of both files. -/
theorem body_eq_next_iff (hemits : Emits step emit apply) {m m' : State σ W} :
    body quantum step m = .next m' ↔ ¬ (m.file₁.eofbit = true ∧ m.file₂.eofbit = true)
      ∧ ∃ machine₁ trace₁ machine₂ trace₂,
        solo emit (m.file₁.linesLeft.take (quantum m.machine₁)) m.machine₁ = some (machine₁, trace₁)
        ∧ solo emit (m.file₂.linesLeft.take (quantum m.machine₂)) m.machine₂
          = some (machine₂, trace₂)
        ∧ m' = {
          file₁ := m.file₁.skipLines (quantum m.machine₁)
          machine₁
          file₂ := m.file₂.skipLines (quantum m.machine₂)
          machine₂
          world := (trace₁ ++ trace₂).flatten.foldl apply m.world } := by
  rw [body_eq_next_iff_slice]
  refine and_congr_right fun _ => ?_
  simp only [slice_eq hemits, Option.map_eq_some_iff, Prod.mk.injEq]
  constructor
  · rintro ⟨_, _, _, _, _, _, ⟨p, hp, rfl, rfl, rfl⟩, ⟨q, hq, rfl, rfl, rfl⟩, rfl⟩
    refine ⟨p.1, p.2, q.1, q.2, hp, hq, ?_⟩
    rw [List.flatten_append, List.foldl_append]
  · rintro ⟨machine₁, trace₁, machine₂, trace₂, h₁, h₂, rfl⟩
    refine ⟨_, _, _, _, _, _, ⟨_, h₁, rfl, rfl, rfl⟩, ⟨_, h₂, rfl, rfl, rfl⟩, ?_⟩
    rw [List.flatten_append, List.foldl_append]

/-- A loop whose body is undefined at its head does not end. -/
theorem not_ends_of_undefined {m : State σ W} (h : body quantum step m = .undefined)
    (machine₁ machine₂ : σ) (world : W) : ¬ Ends quantum step m machine₁ machine₂ world := by
  rintro ⟨file₁, file₂, fuel, hrun⟩
  cases fuel with
  | zero => cases hrun
  | succ fuel => rw [Loop.runFor, h] at hrun; cases hrun

/-- The machines' states and the world that the files make, executed alone. -/
def EndsAlone (quantum : σ → Nat) (emit : List Byte → σ → Option (σ × List ω)) (apply : W → ω → W)
    (m : State σ W) (machine₁ machine₂ : σ) (world : W) : Prop :=
  ∃ trace₁ trace₂, solo emit m.file₁.linesLeft m.machine₁ = some (machine₁, trace₁)
    ∧ solo emit m.file₂.linesLeft m.machine₂ = some (machine₂, trace₂)
    ∧ world = (turns (quantum m.machine₁) (quantum m.machine₂) trace₁ trace₂).flatten.foldl apply
      m.world

/-- A round of the loop does not change where the files executed alone end. -/
theorem endsAlone_iff_of_next (hemits : Emits step emit apply)
    (hquantum : ∀ line s s' effects, emit line s = some (s', effects) → quantum s' = quantum s)
    {m m' : State σ W} (hfile₁ : m.file₁.Opened) (hfile₂ : m.file₂.Opened)
    (hslice₁ : 0 < quantum m.machine₁) (hslice₂ : 0 < quantum m.machine₂)
    (hround : body quantum step m = .next m') {machine₁ machine₂ : σ} {world : W} :
    EndsAlone quantum emit apply m machine₁ machine₂ world
      ↔ EndsAlone quantum emit apply m' machine₁ machine₂ world := by
  obtain ⟨-, t₁, trace₁, t₂, trace₂, h₁, h₂, rfl⟩ := (body_eq_next_iff hemits).mp hround
  rw [EndsAlone, EndsAlone, (hfile₁.skipLines _).2.1, (hfile₂.skipLines _).2.1,
    solo_invariant hquantum h₁, solo_invariant hquantum h₂]
  constructor
  · -- the traces behind the first slices
    rintro ⟨all₁, all₂, hall₁, hall₂, rfl⟩
    obtain ⟨t₁', htake₁, hdrop₁⟩ := (solo_eq_some_iff (quantum m.machine₁)).mp hall₁
    obtain ⟨t₂', htake₂, hdrop₂⟩ := (solo_eq_some_iff (quantum m.machine₂)).mp hall₂
    rw [h₁, Option.some.injEq, Prod.mk.injEq] at htake₁
    rw [h₂, Option.some.injEq, Prod.mk.injEq] at htake₂
    obtain ⟨rfl, rfl⟩ := htake₁
    obtain ⟨rfl, rfl⟩ := htake₂
    refine ⟨_, _, hdrop₁, hdrop₂, ?_⟩
    rw [turns_eq hslice₁ hslice₂ all₁ all₂, List.flatten_append, List.foldl_append]
  · -- the first slices in front of the traces
    rintro ⟨rest₁, rest₂, hrest₁, hrest₂, rfl⟩
    obtain ⟨hall₁, htake₁, hdrop₁⟩ := solo_of_drop h₁ hrest₁
    obtain ⟨hall₂, htake₂, hdrop₂⟩ := solo_of_drop h₂ hrest₂
    refine ⟨_, _, hall₁, hall₂, ?_⟩
    rw [turns_eq hslice₁ hslice₂ (trace₁ ++ rest₁) (trace₂ ++ rest₂), htake₁, htake₂, hdrop₁, hdrop₂]
    exact (by rw [List.flatten_append, List.foldl_append] :
      ((trace₁ ++ trace₂) ++ _).flatten.foldl apply m.world = _).symm

/-- **The loop over two files that were found**, with slices that are not empty, ends as the files executed
alone. -/
theorem ends_iff_endsAlone (hemits : Emits step emit apply)
    (hquantum : ∀ line s s' effects, emit line s = some (s', effects) → quantum s' = quantum s)
    {m : State σ W} (hfile₁ : m.file₁.Opened) (hfile₂ : m.file₂.Opened)
    (hslice₁ : 0 < quantum m.machine₁) (hslice₂ : 0 < quantum m.machine₂) {machine₁ machine₂ : σ}
    {world : W} : Ends quantum step m machine₁ machine₂ world
      ↔ EndsAlone quantum emit apply m machine₁ machine₂ world := by
  -- by induction on what is left of the files: one round, and the files without their first slices
  induction hleft : m.file₁.remaining + m.file₂.remaining using Nat.strong_induction_on
    generalizing m with
  | _ left ih =>
  by_cases hend : m.file₁.eofbit = true ∧ m.file₂.eofbit = true
  · have hexit : body quantum step m = .exit m := body_eq_exit_iff.mpr ⟨hend, rfl⟩
    rw [EndsAlone, linesLeft_of_eof hend.1, linesLeft_of_eof hend.2]
    constructor
    · rintro ⟨file₁, file₂, hruns⟩
      cases hruns.unique (Loop.terminates_of_exit hexit)
      exact ⟨[], [], rfl, rfl, rfl⟩
    · rintro ⟨trace₁, trace₂, h₁, h₂, rfl⟩
      cases h₁
      cases h₂
      exact ⟨m.file₁, m.file₂, Loop.terminates_of_exit hexit⟩
  · cases hround : body quantum step m with
    | exit m' => exact absurd (body_eq_exit_iff.mp hround).1 hend
    | undefined =>
        refine iff_of_false (not_ends_of_undefined hround machine₁ machine₂ world) ?_
        rintro ⟨trace₁, trace₂, h₁, h₂, -⟩
        -- files that are executed to their end are executed for a slice
        obtain ⟨t₁, h₁, -⟩ := (solo_eq_some_iff (quantum m.machine₁)).mp h₁
        obtain ⟨t₂, h₂, -⟩ := (solo_eq_some_iff (quantum m.machine₂)).mp h₂
        have hnext := (body_eq_next_iff hemits).mpr ⟨hend, t₁, _, t₂, _, h₁, h₂, rfl⟩
        rw [hround] at hnext
        cases hnext
    | next m' =>
        rw [endsAlone_iff_of_next hemits hquantum hfile₁ hfile₂ hslice₁ hslice₂ hround]
        have hends : Ends quantum step m machine₁ machine₂ world
            ↔ Ends quantum step m' machine₁ machine₂ world :=
          exists_congr fun file₁ => exists_congr fun file₂ => Loop.terminates_iff_of_next hround
        obtain ⟨-, t₁, trace₁, t₂, trace₂, h₁, h₂, rfl⟩ := (body_eq_next_iff hemits).mp hround
        obtain ⟨hopened₁, -, hle₁, hlt₁⟩ := hfile₁.skipLines (quantum m.machine₁)
        obtain ⟨hopened₂, -, hle₂, hlt₂⟩ := hfile₂.skipLines (quantum m.machine₂)
        rw [hends]
        refine ih _ ?_ hopened₁ hopened₂ ?_ ?_ rfl
        · -- one of the files was not at its end, and comes nearer to it
          rw [← hleft]
          rcases Bool.eq_false_or_eq_true m.file₁.eofbit with heof₁ | heof₁
          · have hlt := hlt₂ hslice₂ (Bool.eq_false_iff.mpr fun heof₂ => hend ⟨heof₁, heof₂⟩)
            exact Nat.add_lt_add_of_le_of_lt hle₁ hlt
          · exact Nat.add_lt_add_of_lt_of_le (hlt₁ hslice₁ heof₁) hle₂
        · rwa [solo_invariant hquantum h₁]
        · rwa [solo_invariant hquantum h₂]

/-- A file that no slice brings to its end: it was not found, or its slices are empty. -/
def Stuck (quantum : σ → Nat) (file : TextStream) (s : σ) : Prop :=
  file.eofbit = false ∧ (file.failbit = true ∨ quantum s = 0)

/-- A slice leaves a stuck file stuck. -/
theorem Stuck.skipLines {file : TextStream} {s s' : σ} (h : Stuck quantum file s)
    (hquantum : quantum s' = quantum s) : Stuck quantum (file.skipLines (quantum s)) s' := by
  obtain ⟨heof, hfail | hzero⟩ := h
  · obtain ⟨hfail', heof'⟩ := eofbit_skipLines_of_failed hfail heof (quantum s)
    exact ⟨heof', .inl hfail'⟩
  · refine ⟨?_, .inr (hquantum.trans hzero)⟩
    rw [hzero]
    exact heof

/-- **The loop over a file that is stuck** does not end. -/
theorem not_ends_of_stuck (hemits : Emits step emit apply)
    (hquantum : ∀ line s s' effects, emit line s = some (s', effects) → quantum s' = quantum s)
    {m : State σ W} (hstuck : Stuck quantum m.file₁ m.machine₁ ∨ Stuck quantum m.file₂ m.machine₂)
    (machine₁ machine₂ : σ) (world : W) : ¬ Ends quantum step m machine₁ machine₂ world := by
  rintro ⟨file₁, file₂, hruns⟩
  refine Loop.not_terminates_of_invariant
    (fun m : State σ W => Stuck quantum m.file₁ m.machine₁ ∨ Stuck quantum m.file₂ m.machine₂)
    ?_ ?_ hstuck hruns
  · intro m m' h hround
    obtain ⟨-, t₁, trace₁, t₂, trace₂, h₁, h₂, rfl⟩ := (body_eq_next_iff hemits).mp hround
    rcases h with h | h
    · exact .inl (h.skipLines (solo_invariant hquantum h₁))
    · exact .inr (h.skipLines (solo_invariant hquantum h₂))
  · -- the loop is left only with both files at their ends
    intro m m' h hexit
    obtain ⟨⟨heof₁, heof₂⟩, -⟩ := body_eq_exit_iff.mp hexit
    rcases h with h | h
    · exact Bool.false_ne_true (h.1.symm.trans heof₁)
    · exact Bool.false_ne_true (h.1.symm.trans heof₂)

/-- A file executed alone: it is found, the slices of its machine are not empty, and its lines take the
machine to `s'`. -/
def Executes (quantum : σ → Nat) (emit : List Byte → σ → Option (σ × List ω))
    (file : Option (List Byte)) (s s' : σ) (trace : List (List ω)) : Prop :=
  0 < quantum s ∧ ∃ text, file = some text ∧ solo emit (ofText text).linesLeft s = some (s', trace)

/-- A file that cannot be executed alone for the want of a file or of a slice is stuck. -/
theorem stuck_openFile {file : Option (List Byte)} {s : σ} (h : ¬ (file.isSome ∧ 0 < quantum s)) :
    Stuck quantum (openFile file) s := by
  cases file with
  | none => exact ⟨rfl, .inl rfl⟩
  | some text => exact ⟨rfl, .inr (Nat.eq_zero_of_not_pos fun hpos => h ⟨rfl, hpos⟩)⟩

/-- **When the loop ends, and where**: exactly when both files can be executed alone. Each machine ends as
it does alone, and the effects of the files are dealt out slice by slice. -/
theorem ends_openFile_iff (hemits : Emits step emit apply)
    (hquantum : ∀ line s s' effects, emit line s = some (s', effects) → quantum s' = quantum s)
    {file₁ file₂ : Option (List Byte)} {s₁ s₂ machine₁ machine₂ : σ} {w world : W} :
    Ends quantum step ⟨openFile file₁, s₁, openFile file₂, s₂, w⟩ machine₁ machine₂ world
      ↔ ∃ trace₁ trace₂, Executes quantum emit file₁ s₁ machine₁ trace₁
        ∧ Executes quantum emit file₂ s₂ machine₂ trace₂
        ∧ world = (turns (quantum machine₁) (quantum machine₂) trace₁ trace₂).flatten.foldl apply w := by
  constructor
  · intro hends
    have hfile₁ : file₁.isSome ∧ 0 < quantum s₁ := by
      by_contra h
      exact not_ends_of_stuck hemits hquantum (.inl (stuck_openFile h)) machine₁ machine₂ world hends
    have hfile₂ : file₂.isSome ∧ 0 < quantum s₂ := by
      by_contra h
      exact not_ends_of_stuck hemits hquantum (.inr (stuck_openFile h)) machine₁ machine₂ world hends
    obtain ⟨text₁, rfl⟩ := Option.isSome_iff_exists.mp hfile₁.1
    obtain ⟨text₂, rfl⟩ := Option.isSome_iff_exists.mp hfile₂.1
    obtain ⟨trace₁, trace₂, h₁, h₂, hworld⟩ := (ends_iff_endsAlone hemits hquantum
      (opened_ofText text₁) (opened_ofText text₂) hfile₁.2 hfile₂.2).mp hends
    refine ⟨trace₁, trace₂, ⟨hfile₁.2, text₁, rfl, h₁⟩, ⟨hfile₂.2, text₂, rfl, h₂⟩, ?_⟩
    rw [solo_invariant hquantum h₁, solo_invariant hquantum h₂]
    exact hworld
  · rintro ⟨trace₁, trace₂, ⟨hslice₁, text₁, rfl, h₁⟩, ⟨hslice₂, text₂, rfl, h₂⟩, hworld⟩
    refine (ends_iff_endsAlone hemits hquantum (opened_ofText text₁) (opened_ofText text₂) hslice₁
      hslice₂).mpr ⟨trace₁, trace₂, h₁, h₂, ?_⟩
    rwa [solo_invariant hquantum h₁, solo_invariant hquantum h₂] at hworld

end TimeSlicing

end VmmShowcase
