import VmmShowcase.Foundations.TimeSlicing

/-! # Files that may change while they are read

A stream delivers what its file held when it was opened for as long as nothing is written into the file.
What it delivers later depends on how far it has read ahead. So here the world relates what is left of a
stream to what it delivers by then, before each line that is read, and a loop over two files may end in
more than one way. Where the lines that are read leave the files alone, it ends as the loop over the texts
that the files held. -/

namespace VmmShowcase

namespace TimeSlicing

open TextStream

variable {σ W : Type*}

/-- A slice of a file that may change: before each line, the stream is what it is by then. -/
inductive SliceFrom (delivers : W → TextStream → TextStream → Prop)
    (step : List Byte → σ → W → Option (σ × W)) :
    Nat → TextStream × σ × W → TextStream × σ × W → Prop where
  | done (p : TextStream × σ × W) : SliceFrom delivers step 0 p p
  | fails {n : Nat} {file file' : TextStream} {s : σ} {w : W} (hdelivers : delivers w file file')
      (hfail : (getline newline [] file').2.failbit = true) :
      SliceFrom delivers step (n + 1) (file, s, w) ((getline newline [] file').2, s, w)
  | line {n : Nat} {file file' : TextStream} {s s' : σ} {w w' : W} {p : TextStream × σ × W}
      (hdelivers : delivers w file file')
      (hread : (getline newline [] file').2.failbit = false)
      (hstep : step (getline newline [] file').1 s w = some (s', w'))
      (hrest : SliceFrom delivers step n ((getline newline [] file').2, s', w') p) :
      SliceFrom delivers step (n + 1) (file, s, w) p

/-- The loop over two files that may change: until both streams are at their end, a slice of the first and
a slice of the second. -/
inductive EndsFrom (delivers₁ delivers₂ : W → TextStream → TextStream → Prop) (quantum : σ → Nat)
    (step : List Byte → σ → W → Option (σ × W)) : State σ W → State σ W → Prop where
  | exit {m : State σ W} (hend : m.file₁.eofbit = true ∧ m.file₂.eofbit = true) :
      EndsFrom delivers₁ delivers₂ quantum step m m
  | round {m m' : State σ W} {file₁ file₂ : TextStream} {machine₁ machine₂ : σ} {between world : W}
      (hlive : ¬ (m.file₁.eofbit = true ∧ m.file₂.eofbit = true))
      (hslice₁ : SliceFrom delivers₁ step (quantum m.machine₁) (m.file₁, m.machine₁, m.world)
        (file₁, machine₁, between))
      (hslice₂ : SliceFrom delivers₂ step (quantum m.machine₂) (m.file₂, m.machine₂, between)
        (file₂, machine₂, world))
      (hrest : EndsFrom delivers₁ delivers₂ quantum step ⟨file₁, machine₁, file₂, machine₂, world⟩ m') :
      EndsFrom delivers₁ delivers₂ quantum step m m'

variable {delivers delivers₁ delivers₂ : W → TextStream → TextStream → Prop}
  {step : List Byte → σ → W → Option (σ × W)} {quantum : σ → Nat} {quiet : W → Prop}
  {spares : List Byte → Prop}

/-! ## Files that are left alone -/

/-- Lines that spare the files keep the world quiet. -/
def KeepsQuiet (step : List Byte → σ → W → Option (σ × W)) (quiet : W → Prop)
    (spares : List Byte → Prop) : Prop :=
  ∀ line s w s' w', spares line → quiet w → step line s w = some (s', w') → quiet w'

/-- In a quiet world a stream delivers what it did. -/
def QuietlyDelivers (delivers : W → TextStream → TextStream → Prop) (quiet : W → Prop) : Prop :=
  ∀ w, quiet w → ∀ file file', delivers w file file' ↔ file' = file

/-- **A slice in a quiet world** is a slice of the text. -/
theorem sliceFrom_iff (hdelivers : QuietlyDelivers delivers quiet)
    (hstep : KeepsQuiet step quiet spares) {n : Nat} {file : TextStream} {s : σ} {w : W}
    {p : TextStream × σ × W} (hquiet : quiet w) (hlines : ∀ line ∈ file.linesLeft, spares line) :
    SliceFrom delivers step n (file, s, w) p ↔ slice step n (file, s, w) = some p := by
  induction n generalizing file s w with
  | zero =>
      rw [slice, Option.some.injEq]
      constructor
      · rintro ⟨⟩
        rfl
      · rintro rfl
        exact .done _
  | succ n ih =>
      cases hfail : (getline newline [] file).2.failbit with
      | true =>
          rw [slice_succ_of_fails hfail, Option.some.injEq]
          constructor
          · intro h
            cases h with
            | fails hd =>
                rw [(hdelivers w hquiet _ _).mp hd]
            | line hd hread =>
                rw [(hdelivers w hquiet _ _).mp hd, hfail] at hread
                cases hread
          · rintro rfl
            exact .fails ((hdelivers w hquiet _ _).mpr rfl) hfail
      | false =>
          rw [slice_succ hfail, Option.bind_eq_some_iff]
          rw [linesLeft_of_getline hfail, List.forall_mem_cons] at hlines
          constructor
          · intro h
            cases h with
            | fails hd hf =>
                rw [(hdelivers w hquiet _ _).mp hd, hfail] at hf
                cases hf
            | line hd hread hs hrest =>
                rw [(hdelivers w hquiet _ _).mp hd] at hs hrest
                exact ⟨_, hs, (ih (hstep _ _ _ _ _ hlines.1 hquiet hs) hlines.2).mp hrest⟩
          · rintro ⟨⟨s', w'⟩, hs, hrest⟩
            exact .line ((hdelivers w hquiet _ _).mpr rfl) hfail hs
              ((ih (hstep _ _ _ _ _ hlines.1 hquiet hs) hlines.2).mpr hrest)

/-- Behind the slice the world is quiet, and the lines that are left spare the files. -/
theorem quiet_of_slice (hstep : KeepsQuiet step quiet spares) {n : Nat} {file file' : TextStream}
    {s s' : σ} {w w' : W} (hquiet : quiet w) (hlines : ∀ line ∈ file.linesLeft, spares line)
    (h : slice step n (file, s, w) = some (file', s', w')) :
    quiet w' ∧ ∀ line ∈ file'.linesLeft, spares line := by
  induction n generalizing file s w with
  | zero =>
      cases h
      exact ⟨hquiet, hlines⟩
  | succ n ih =>
      cases hfail : (getline newline [] file).2.failbit with
      | true =>
          rw [slice_succ_of_fails hfail] at h
          cases h
          have hgood : ¬ (getline newline [] file).2.Good := by
            rintro ⟨-, hgood⟩
            rw [hfail] at hgood
            cases hgood
          have hfails : (getline newline [] (getline newline [] file).2).2.failbit = true := by
            rw [getline_of_not_good hgood]
            rfl
          rw [linesLeft_of_getline_fails hfails]
          exact ⟨hquiet, fun _ hline => absurd hline List.not_mem_nil⟩
      | false =>
          rw [slice_succ hfail, Option.bind_eq_some_iff] at h
          rw [linesLeft_of_getline hfail, List.forall_mem_cons] at hlines
          obtain ⟨⟨s₁, w₁⟩, hs, h⟩ := h
          exact ih (hstep _ _ _ _ _ hlines.1 hquiet hs) hlines.2 h

/-- **The loop in a quiet world**, over files whose lines spare them, ends as the loop over the texts. -/
theorem endsFrom_iff (hdelivers₁ : QuietlyDelivers delivers₁ quiet)
    (hdelivers₂ : QuietlyDelivers delivers₂ quiet) (hstep : KeepsQuiet step quiet spares)
    {m m' : State σ W} (hquiet : quiet m.world) (hlines₁ : ∀ line ∈ m.file₁.linesLeft, spares line)
    (hlines₂ : ∀ line ∈ m.file₂.linesLeft, spares line) :
    EndsFrom delivers₁ delivers₂ quantum step m m' ↔ Loop.Terminates (body quantum step) m m' := by
  constructor
  · intro h
    induction h with
    | exit hend => exact Loop.terminates_of_exit (body_eq_exit_iff.mpr ⟨hend, rfl⟩)
    | round hlive hslice₁ hslice₂ hrest ih =>
        have hfirst := (sliceFrom_iff hdelivers₁ hstep hquiet hlines₁).mp hslice₁
        obtain ⟨hbetween, hleft₁⟩ := quiet_of_slice hstep hquiet hlines₁ hfirst
        have hsecond := (sliceFrom_iff hdelivers₂ hstep hbetween hlines₂).mp hslice₂
        obtain ⟨hworld, hleft₂⟩ := quiet_of_slice hstep hbetween hlines₂ hsecond
        exact (Loop.terminates_iff_of_next (body_eq_next_iff_slice.mpr
          ⟨hlive, _, _, _, _, _, _, hfirst, hsecond, rfl⟩)).mpr (ih hworld hleft₁ hleft₂)
  · rintro ⟨fuel, hrun⟩
    -- by induction on the rounds of the loop over the texts
    induction fuel generalizing m with
    | zero => cases hrun
    | succ fuel ih =>
        rw [Loop.runFor] at hrun
        cases hround : body quantum step m with
        | undefined =>
            rw [hround] at hrun
            cases hrun
        | exit t =>
            obtain ⟨hend, rfl⟩ := body_eq_exit_iff.mp hround
            rw [hround] at hrun
            cases hrun
            exact .exit hend
        | next t =>
            rw [hround] at hrun
            obtain ⟨hlive, file₁, machine₁, between, file₂, machine₂, world, hfirst, hsecond, rfl⟩ :=
              body_eq_next_iff_slice.mp hround
            obtain ⟨hbetween, hleft₁⟩ := quiet_of_slice hstep hquiet hlines₁ hfirst
            obtain ⟨hworld, hleft₂⟩ := quiet_of_slice hstep hbetween hlines₂ hsecond
            exact .round hlive ((sliceFrom_iff hdelivers₁ hstep hquiet hlines₁).mpr hfirst)
              ((sliceFrom_iff hdelivers₂ hstep hbetween hlines₂).mpr hsecond)
              (ih hworld hleft₁ hleft₂ hrun)

end TimeSlicing

end VmmShowcase
