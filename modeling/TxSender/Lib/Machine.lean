/-
# TxSender.Lib.Machine — runs of a machine that reads inputs and writes a log.

A step consumes one input, which holds everything the outside answers during that step, and appends
events to a log. `run_invariant` is the induction over runs: what one step keeps, for the state and
the log so far, every run keeps. `always_iff_guarded` is for a property that only some steps keep,
`always_iff_along` for one that the events of a step decide, and `always_iff_end` for one that does not
come back once it is lost. `returns_iff_meets` is for the question whether a run returns at all, and
`run_simulates` takes the runs of one machine to runs of another.
-/
import TxSender.Lib.Exec
import TxSender.Lib.Trace

namespace TxSender.Lib

/-- A machine with states `S`, inputs `I` and events `E`. -/
structure Machine (S I E : Type) where
  step : S → I → Exec (S × List E)

namespace Machine

variable {S I E : Type}

/-- The state after the inputs, and the events on the way. -/
def run (m : Machine S I E) (s : S) : List I → Exec (S × List E)
  | [] => .ok (s, [])
  | i :: is => do
      let (s, evs) ← m.step s i
      let (s, rest) ← m.run s is
      pure (s, evs ++ rest)

@[simp] theorem run_nil (m : Machine S I E) (s : S) : m.run s [] = .ok (s, []) := rfl

theorem run_cons_eq_ok {m : Machine S I E} {s s' : S} {i : I} {is : List I} {log : List E} :
    m.run s (i :: is) = .ok (s', log) ↔
      ∃ s₁ evs rest, m.step s i = .ok (s₁, evs) ∧ m.run s₁ is = .ok (s', rest) ∧
        log = evs ++ rest := by
  rw [run]
  constructor
  · intro h
    obtain ⟨⟨s₁, evs⟩, hstep, h⟩ := bind_eq_ok.mp h
    obtain ⟨⟨s₂, rest⟩, hrest, h⟩ := bind_eq_ok.mp h
    simp only [pure_eq_ok, Except.ok.injEq, Prod.mk.injEq] at h
    obtain ⟨rfl, rfl⟩ := h
    exact ⟨s₁, evs, rest, hstep, hrest, rfl⟩
  · rintro ⟨s₁, evs, rest, hstep, hrest, rfl⟩
    simp only [hstep, ok_bind, hrest, pure_eq_ok]

/-- Two runs in a row. -/
theorem run_append {m : Machine S I E} {s s₁ s₂ : S} {is js : List I} {log log' : List E}
    (h : m.run s is = .ok (s₁, log)) (h' : m.run s₁ js = .ok (s₂, log')) :
    m.run s (is ++ js) = .ok (s₂, log ++ log') := by
  induction is generalizing s log with
  | nil =>
      cases h
      exact h'
  | cons i is ih =>
      obtain ⟨s', evs, rest, hone, hrest, rfl⟩ := run_cons_eq_ok.mp h
      rw [List.append_assoc]
      exact run_cons_eq_ok.mpr ⟨s', evs, rest ++ log', hone, ih hrest, rfl⟩

theorem run_concat {m : Machine S I E} {s s₁ s₂ : S} {is : List I} {i : I} {log evs : List E}
    (h : m.run s is = .ok (s₁, log)) (hstep : m.step s₁ i = .ok (s₂, evs)) :
    m.run s (is ++ [i]) = .ok (s₂, log ++ evs) := by
  refine run_append h (run_cons_eq_ok.mpr ⟨s₂, evs, [], hstep, rfl, ?_⟩)
  rw [List.append_nil]

/-- **Runs keep what steps keep.** `Inv` speaks of the state and of the log written so far. -/
theorem run_invariant (m : Machine S I E) (Inv : S → List E → Prop) {s s' : S} {log : List E}
    {is : List I} (hs : Inv s [])
    (hstep : ∀ s log i s' evs, Inv s log → m.step s i = .ok (s', evs) → Inv s' (log ++ evs))
    (h : m.run s is = .ok (s', log)) : Inv s' log := by
  have hfrom : ∀ (is : List I) (s : S) (log₀ log : List E), Inv s log₀ →
      m.run s is = .ok (s', log) → Inv s' (log₀ ++ log) := by
    intro is
    induction is with
    | nil =>
        intro s log₀ log hs h
        rw [run_nil, Except.ok.injEq, Prod.mk.injEq] at h
        obtain ⟨rfl, rfl⟩ := h
        rwa [List.append_nil]
    | cons i is ih =>
        intro s log₀ log hs h
        obtain ⟨s₁, evs, rest, hone, hrest, rfl⟩ := run_cons_eq_ok.mp h
        rw [← List.append_assoc]
        exact ih s₁ (log₀ ++ evs) rest (hstep s log₀ i s₁ evs hs hone) hrest
  exact hfrom is s [] log hs h

/-- The step with which a run that starts outside `P` and ends in it comes to `P`. -/
theorem run_enters (m : Machine S I E) (P : S → Bool) {s s' : S} {is : List I} {log : List E}
    (h : m.run s is = .ok (s', log)) (hs : P s = false) (hs' : P s' = true) :
    ∃ before i after s₁ s₂ log₁ evs log₂, is = before ++ i :: after ∧
      m.run s before = .ok (s₁, log₁) ∧ P s₁ = false ∧ m.step s₁ i = .ok (s₂, evs) ∧ P s₂ = true ∧
      m.run s₂ after = .ok (s', log₂) ∧ log = log₁ ++ (evs ++ log₂) := by
  induction is generalizing s log with
  | nil =>
      cases h
      rw [hs] at hs'
      cases hs'
  | cons i is ih =>
      obtain ⟨s₁, evs, rest, hone, hrest, rfl⟩ := run_cons_eq_ok.mp h
      cases hP : P s₁ with
      | true => exact ⟨[], i, is, s, s₁, [], evs, rest, rfl, rfl, hs, hone, hP, hrest, rfl⟩
      | false =>
          obtain ⟨before, j, after, s₂, s₃, log₁, evs', log₂, rfl, hbefore, hout, hstep, hin, hafter, rfl⟩ :=
            ih hrest hP
          refine ⟨i :: before, j, after, s₂, s₃, evs ++ log₁, evs', log₂, rfl, ?_, hout, hstep, hin, hafter, ?_⟩
          · exact run_cons_eq_ok.mpr ⟨s₁, evs, log₁, hone, hbefore, rfl⟩
          · rw [List.append_assoc]

/-- If no step fails where `Inv` holds, then no run does. -/
theorem exists_run (m : Machine S I E) (Inv : S → List E → Prop)
    (hstep : ∀ s log i, Inv s log → ∃ s' evs, m.step s i = .ok (s', evs) ∧ Inv s' (log ++ evs))
    {s : S} {log : List E} (hs : Inv s log) (is : List I) :
    ∃ s' rest, m.run s is = .ok (s', rest) ∧ Inv s' (log ++ rest) := by
  induction is generalizing s log with
  | nil => exact ⟨s, [], rfl, by rwa [List.append_nil]⟩
  | cons i is ih =>
      obtain ⟨s₁, evs, hone, hinv⟩ := hstep s log i hs
      obtain ⟨s', rest, hrest, hend⟩ := ih hinv
      refine ⟨s', evs ++ rest, run_cons_eq_ok.mpr ⟨s₁, evs, rest, hone, hrest, rfl⟩, ?_⟩
      rwa [← List.append_assoc]

/-- A run that halts behind one that returns. -/
theorem run_append_error {m : Machine S I E} {s s₁ : S} {is js : List I} {log : List E} {e : Halt}
    (h : m.run s is = .ok (s₁, log)) (h' : m.run s₁ js = .error e) :
    m.run s (is ++ js) = .error e := by
  induction is generalizing s log with
  | nil =>
      cases h
      exact h'
  | cons i is ih =>
      obtain ⟨s', evs, rest, hone, hrest, rfl⟩ := run_cons_eq_ok.mp h
      simp only [List.cons_append, run, hone, ok_bind, ih hrest]
      rfl

/-! ## Runs that go on -/

/-- Every step that the run comes to meets `G`, also the one in which it halts. -/
def Meets (m : Machine S I E) (G : S → I → Prop) (s : S) : List I → Prop
  | [] => True
  | i :: is => G s i ∧ ∀ s' evs, m.step s i = .ok (s', evs) → m.Meets G s' is

/-- What every step that returns meets, every run that returns meets. -/
theorem meets_of_run (m : Machine S I E) (Inv : S → Prop) (G : S → I → Prop)
    (hstep : ∀ s i s' evs, Inv s → m.step s i = .ok (s', evs) → Inv s' ∧ G s i) {s s' : S}
    {is : List I} {log : List E} (hs : Inv s) (h : m.run s is = .ok (s', log)) : m.Meets G s is := by
  induction is generalizing s log with
  | nil => trivial
  | cons i is ih =>
      obtain ⟨s₁, evs, rest, hone, hrest, -⟩ := run_cons_eq_ok.mp h
      obtain ⟨hs₁, hG⟩ := hstep s i s₁ evs hs hone
      refine ⟨hG, ?_⟩
      intro s₂ evs₂ hone₂
      cases hone.symm.trans hone₂
      exact ih hs₁ hrest

/-- **Returning runs.** If `G` tells exactly which steps return, in the states that meet `Inv`, then a run
returns exactly when all its steps meet `G`. -/
theorem returns_iff_meets (m : Machine S I E) (Inv : S → Prop) (G : S → I → Prop)
    (hstep : ∀ s i s' evs, Inv s → m.step s i = .ok (s', evs) → Inv s')
    (hreturns : ∀ s i, Inv s → ((∃ out, m.step s i = .ok out) ↔ G s i)) {s : S} (hs : Inv s)
    (is : List I) : (∃ s' log, m.run s is = .ok (s', log)) ↔ m.Meets G s is := by
  constructor
  · rintro ⟨s', log, h⟩
    refine m.meets_of_run Inv G ?_ hs h
    intro s i s' evs hs hone
    exact ⟨hstep s i s' evs hs hone, (hreturns s i hs).mp ⟨(s', evs), hone⟩⟩
  · intro h
    induction is generalizing s with
    | nil => exact ⟨s, [], rfl⟩
    | cons i is ih =>
        obtain ⟨⟨s₁, evs⟩, hone⟩ := (hreturns s i hs).mpr h.1
        obtain ⟨s', rest, hrest⟩ := ih (hstep s i s₁ evs hs hone) (h.2 s₁ evs hone)
        exact ⟨s', evs ++ rest, run_cons_eq_ok.mpr ⟨s₁, evs, rest, hone, hrest, rfl⟩⟩

/-! ## What holds all along -/

/-- `P` holds now and after every step. -/
def Always (m : Machine S I E) (P : S → List E → Prop) (s : S) (log : List E) : List I → Prop
  | [] => P s log
  | i :: is => P s log ∧ ∀ s' evs, m.step s i = .ok (s', evs) → m.Always P s' (log ++ evs) is

/-- Every step that is taken meets `G` when it starts. -/
def Guarded (m : Machine S I E) (G : S → List E → I → Prop) (s : S) (log : List E) : List I → Prop
  | [] => True
  | i :: is => ∀ s' evs, m.step s i = .ok (s', evs) → G s log i ∧ m.Guarded G s' (log ++ evs) is

instance decidableGuarded (m : Machine S I E) (G : S → List E → I → Prop)
    [∀ s log i, Decidable (G s log i)] : ∀ s log is, Decidable (m.Guarded G s log is)
  | _, _, [] => isTrue trivial
  | s, log, i :: is =>
      match hone : m.step s i with
      | .error _ => isTrue fun _ _ h => by cases hone.symm.trans h
      | .ok (s₁, evs₁) =>
          have := decidableGuarded m G s₁ (log ++ evs₁) is
          decidable_of_iff (G s log i ∧ m.Guarded G s₁ (log ++ evs₁) is)
            ⟨fun hg s' evs h => by
              obtain ⟨rfl, rfl⟩ := Prod.mk.inj (Except.ok.inj (hone.symm.trans h))
              exact hg, fun hg => hg s₁ evs₁ hone⟩

theorem Always.now {m : Machine S I E} {P : S → List E → Prop} {s : S} {log : List E} {is : List I}
    (h : m.Always P s log is) : P s log := by
  cases is with
  | nil => exact h
  | cons i is => exact h.1

/-- What holds all along holds at the end. -/
theorem Always.last {m : Machine S I E} {P : S → List E → Prop} {s s' : S} {log rest : List E}
    {is : List I} (h : m.Always P s log is) (hrun : m.run s is = .ok (s', rest)) :
    P s' (log ++ rest) := by
  induction is generalizing s log rest with
  | nil =>
      cases hrun
      rw [List.append_nil]
      exact h
  | cons i is ih =>
      obtain ⟨s₁, evs, rest', hone, hrest, rfl⟩ := run_cons_eq_ok.mp hrun
      rw [← List.append_assoc]
      exact ih (h.2 s₁ evs hone) hrest

/-- **Guards.** If `G` tells exactly which steps keep `P`, in the states that meet `Inv`, then `P` holds
all along a run exactly when all its steps are guarded. -/
theorem always_iff_guarded (m : Machine S I E) (Inv P : S → List E → Prop)
    (G : S → List E → I → Prop) {s : S} {log : List E} {is : List I}
    (hstep : ∀ s log i s' evs, Inv s log → P s log → m.step s i = .ok (s', evs) →
      Inv s' (log ++ evs) ∧ (P s' (log ++ evs) ↔ G s log i))
    (hinv : Inv s log) (hP : P s log) : m.Always P s log is ↔ m.Guarded G s log is := by
  induction is generalizing s log with
  | nil => exact ⟨fun _ => trivial, fun _ => hP⟩
  | cons i is ih =>
      constructor
      · rintro ⟨-, hall⟩ s' evs hone
        obtain ⟨hinv', hiff⟩ := hstep s log i s' evs hinv hP hone
        have hrest := hall s' evs hone
        exact ⟨hiff.mp hrest.now, (ih hinv' hrest.now).mp hrest⟩
      · refine fun hall => ⟨hP, fun s' evs hone => ?_⟩
        obtain ⟨hinv', hiff⟩ := hstep s log i s' evs hinv hP hone
        obtain ⟨hguard, hrest⟩ := hall s' evs hone
        exact (ih hinv' (hiff.mpr hguard)).mpr hrest

/-- **Events.** If the events of a step tell, by `R`, whether it keeps `P`, then `P` holds all along a run
exactly when `R` holds along its log. -/
theorem always_iff_along (m : Machine S I E) (Inv P : S → List E → Prop) (R : List E → E → Prop)
    {s s' : S} {log rest : List E} {is : List I}
    (hstep : ∀ s log i s' evs, Inv s log → P s log → m.step s i = .ok (s', evs) →
      Inv s' (log ++ evs) ∧ (P s' (log ++ evs) ↔ Along R log evs))
    (hinv : Inv s log) (hP : P s log) (h : m.run s is = .ok (s', rest)) :
    m.Always P s log is ↔ Along R log rest := by
  induction is generalizing s log rest with
  | nil =>
      cases h
      exact ⟨fun _ => trivial, fun _ => hP⟩
  | cons i is ih =>
      obtain ⟨s₁, evs, rest', hone, hrest, rfl⟩ := run_cons_eq_ok.mp h
      obtain ⟨hinv', hiff⟩ := hstep s log i s₁ evs hinv hP hone
      rw [along_append]
      constructor
      · rintro ⟨-, hall⟩
        have hlater := hall s₁ evs hone
        exact ⟨hiff.mp hlater.now, (ih hinv' hlater.now hrest).mp hlater⟩
      · rintro ⟨hevs, hlater⟩
        refine ⟨hP, fun s₂ evs₂ hone₂ => ?_⟩
        cases hone.symm.trans hone₂
        exact (ih hinv' (hiff.mpr hevs) hrest).mpr hlater

/-- **Lasting failures.** If no step brings `P` back, then `P` holds all along a run exactly when it
holds at its end. -/
theorem always_iff_end (m : Machine S I E) (P : S → List E → Prop) {s s' : S} {log rest : List E}
    {is : List I}
    (hback : ∀ s log i s' evs, m.step s i = .ok (s', evs) → P s' (log ++ evs) → P s log)
    (h : m.run s is = .ok (s', rest)) : m.Always P s log is ↔ P s' (log ++ rest) := by
  induction is generalizing s log rest with
  | nil =>
      cases h
      rw [List.append_nil]
      exact Iff.rfl
  | cons i is ih =>
      obtain ⟨s₁, evs, rest', hone, hrest, rfl⟩ := run_cons_eq_ok.mp h
      have hih := @ih s₁ (log ++ evs) rest' hrest
      rw [List.append_assoc] at hih
      constructor
      · rintro ⟨-, hall⟩
        exact hih.mp (hall s₁ evs hone)
      · intro hend
        have hall := hih.mpr hend
        refine ⟨hback s log i s₁ evs hone hall.now, fun s₂ evs₂ hone₂ => ?_⟩
        cases hone.symm.trans hone₂
        exact hall

/-- What is lost for good and is there at the end was there at the start. -/
theorem run_back (m : Machine S I E) (Q : S → Prop) {s s' : S} {log : List E} {is : List I}
    (hback : ∀ s i s' evs, m.step s i = .ok (s', evs) → Q s' → Q s) (h : m.run s is = .ok (s', log))
    (hQ : Q s') : Q s := by
  have hall : m.Always (fun s _ => Q s) s [] is :=
    (m.always_iff_end (fun s _ => Q s) (fun s _ i s' evs hone => hback s i s' evs hone) h).mpr hQ
  exact hall.now

/-! ## Simulation -/

section Simulation

variable {T J F O : Type}

/-- **Simulation.** Two machines whose logs are read through `tell` and `tell'`, and a relation `R` of
their states. If every step of the first machine that meets `G` and writes events that meet `Q` is
answered by a run of the second, then so is every run of such steps. -/
theorem run_simulates (m : Machine S I E) (m' : Machine T J F) (R : S → List E → T → Prop)
    (G : S → I → Prop) (Q : E → Prop) (tell : E → Option O) (tell' : F → Option O)
    (hstep : ∀ s log t i s' evs, R s log t → G s i → (∀ e ∈ evs, Q e) → m.step s i = .ok (s', evs) →
      ∃ js t' evs', m'.run t js = .ok (t', evs') ∧ R s' (log ++ evs) t' ∧
        evs'.filterMap tell' = evs.filterMap tell)
    {s s' : S} {t : T} {is : List I} {past log : List E} (hs : R s past t) (hG : m.Meets G s is)
    (hQ : ∀ e ∈ log, Q e) (h : m.run s is = .ok (s', log)) :
    ∃ js t' log', m'.run t js = .ok (t', log') ∧ R s' (past ++ log) t' ∧
      log'.filterMap tell' = log.filterMap tell := by
  induction is generalizing s t past log with
  | nil =>
      cases h
      refine ⟨[], t, [], rfl, ?_, rfl⟩
      rwa [List.append_nil]
  | cons i is ih =>
      obtain ⟨s₁, evs, rest, hone, hrest, rfl⟩ := run_cons_eq_ok.mp h
      obtain ⟨js, t₁, evs', hjs, hR, htell⟩ := hstep s past t i s₁ evs hs hG.1
        (fun e he => hQ e (List.mem_append_left _ he)) hone
      obtain ⟨ks, t', rest', hks, hend, htells⟩ := ih hR (hG.2 s₁ evs hone)
        (fun e he => hQ e (List.mem_append_right _ he)) hrest
      refine ⟨js ++ ks, t', evs' ++ rest', run_append hjs hks, ?_, ?_⟩
      · rwa [← List.append_assoc]
      · rw [List.filterMap_append, List.filterMap_append, htell, htells]

end Simulation

end Machine

end TxSender.Lib
