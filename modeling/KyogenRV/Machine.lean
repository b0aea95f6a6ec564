import Mathlib.Data.List.Basic
import Mathlib.Logic.Function.Basic

/-!
# Clocked machines

A synchronous circuit is a step function from a state and the inputs of one
clock cycle to the next state.  This file holds what such machines share: runs
over a list of inputs, conditions that every cycle of a run meets, the outputs
a run emits, and the induction rules that lift a fact about one clock edge to a
fact about every run.
-/

namespace KyogenRV.Machine

variable {σ τ ι ο : Type*}

/-- The state reached from `s` after the given inputs, one per clock. -/
def run (step : σ → ι → σ) (s : σ) (inputs : List ι) : σ :=
  inputs.foldl step s

/-- `P` holds in every cycle of the run: of the state at its start and the
inputs it receives. -/
def Along (step : σ → ι → σ) (P : σ → ι → Prop) : σ → List ι → Prop
  | _, [] => True
  | s, io :: inputs => P s io ∧ Along step P (step s io) inputs

/-- Everything the cycles of a run emit, in order. -/
def outputs (step : σ → ι → σ) (out : σ → ι → List ο) : σ → List ι → List ο
  | _, [] => []
  | s, io :: inputs => out s io ++ outputs step out (step s io) inputs

/-- `s` is reached by some run from an initial state. -/
def Reachable (step : σ → ι → σ) (init : σ → Prop) (s : σ) : Prop :=
  ∃ s₀ inputs, init s₀ ∧ run step s₀ inputs = s

section Runs

variable {step : σ → ι → σ} {s : σ} {io : ι} {inputs more : List ι}

@[simp]
theorem run_nil : run step s [] = s := rfl

@[simp]
theorem run_cons : run step s (io :: inputs) = run step (step s io) inputs := rfl

@[simp]
theorem run_append :
    run step s (inputs ++ more) = run step (run step s inputs) more := by
  simp [run]

theorem run_concat : run step s (inputs ++ [io]) = step (run step s inputs) io := by
  simp

variable {P Q : σ → ι → Prop}

@[simp]
theorem along_nil : Along step P s [] := trivial

@[simp]
theorem along_cons :
    Along step P s (io :: inputs) ↔ P s io ∧ Along step P (step s io) inputs :=
  Iff.rfl

@[simp]
theorem along_append :
    Along step P s (inputs ++ more) ↔
      Along step P s inputs ∧ Along step P (run step s inputs) more := by
  induction inputs generalizing s with
  | nil => simp
  | cons io inputs ih => simp [ih, and_assoc]

instance [∀ s io, Decidable (P s io)] (s : σ) (inputs : List ι) :
    Decidable (Along step P s inputs) :=
  match inputs with
  | [] => isTrue trivial
  | io :: inputs =>
      have : Decidable (Along step P (step s io) inputs) :=
        instDecidableAlong (step s io) inputs
      inferInstanceAs (Decidable (P s io ∧ Along step P (step s io) inputs))

variable {out : σ → ι → List ο}

@[simp]
theorem outputs_nil : outputs step out s [] = [] := rfl

@[simp]
theorem outputs_cons :
    outputs step out s (io :: inputs) =
      out s io ++ outputs step out (step s io) inputs := rfl

@[simp]
theorem outputs_append :
    outputs step out s (inputs ++ more) =
      outputs step out s inputs ++ outputs step out (run step s inputs) more := by
  induction inputs generalizing s with
  | nil => simp
  | cons io inputs ih => simp [ih]

/-- What is read off the emitted values is itself an output. -/
theorem outputs_flatMap {ο' : Type*} (h : ο → List ο') :
    (outputs step out s inputs).flatMap h =
      outputs step (fun s io => (out s io).flatMap h) s inputs := by
  induction inputs generalizing s with
  | nil => rfl
  | cons io inputs ih => simp [ih]

end Runs

section Induction

variable {step : σ → ι → σ} {init : σ → Prop} {s : σ} {inputs : List ι}
variable {P Q : σ → ι → Prop} {I : σ → Prop}

/-- An invariant that every admitted clock edge preserves holds at the end of
every admitted run. -/
theorem run_invariant (hstep : ∀ s io, I s → P s io → I (step s io))
    (hI : I s) (hP : Along step P s inputs) : I (run step s inputs) := by
  induction inputs generalizing s with
  | nil => exact hI
  | cons io inputs ih => exact ih (hstep s io hI hP.1) hP.2

/-- What an invariant gives in one cycle holds in every cycle of a run. -/
theorem along_of_invariant (hstep : ∀ s io, I s → P s io → I (step s io))
    (hcycle : ∀ s io, I s → P s io → Q s io)
    (hI : I s) (hP : Along step P s inputs) : Along step Q s inputs := by
  induction inputs generalizing s with
  | nil => trivial
  | cons io inputs ih =>
      exact ⟨hcycle s io hI hP.1, ih (hstep s io hI hP.1) hP.2⟩

theorem along_of_forall (hP : ∀ s io, P s io) : Along step P s inputs := by
  induction inputs generalizing s with
  | nil => trivial
  | cons io inputs ih => exact ⟨hP s io, ih⟩

theorem along_of_mem {P : ι → Prop} (hP : ∀ io ∈ inputs, P io) :
    Along step (fun _ io => P io) s inputs := by
  induction inputs generalizing s with
  | nil => trivial
  | cons io inputs ih =>
      exact ⟨hP io (List.mem_cons_self ..), ih fun io' h => hP io' (List.mem_cons_of_mem _ h)⟩

theorem Along.mono (hPQ : ∀ s io, P s io → Q s io)
    (hP : Along step P s inputs) : Along step Q s inputs :=
  along_of_invariant (I := fun _ => True) (fun _ _ _ _ => trivial)
    (fun s io _ => hPQ s io) trivial hP

theorem Along.and (hP : Along step P s inputs) (hQ : Along step Q s inputs) :
    Along step (fun s io => P s io ∧ Q s io) s inputs := by
  induction inputs generalizing s with
  | nil => trivial
  | cons io inputs ih => exact ⟨⟨hP.1, hQ.1⟩, ih hP.2 hQ.2⟩

/-- Conditions that agree under an invariant agree along every admitted run. -/
theorem Along.congr {R : σ → ι → Prop} (hstep : ∀ s io, I s → R s io → I (step s io))
    (hcycle : ∀ s io, I s → R s io → (P s io ↔ Q s io)) (hI : I s) (hR : Along step R s inputs) :
    Along step P s inputs ↔ Along step Q s inputs := by
  induction inputs generalizing s with
  | nil => exact Iff.rfl
  | cons io inputs ih =>
      rw [along_cons, along_cons, hcycle s io hI hR.1, ih (hstep s io hI hR.1) hR.2]

/-- Conditions that agree under an invariant agree along every run. -/
theorem along_congr (hstep : ∀ s io, I s → I (step s io))
    (hcycle : ∀ s io, I s → (P s io ↔ Q s io)) (hI : I s) :
    Along step P s inputs ↔ Along step Q s inputs :=
  Along.congr (R := fun _ _ => True) (fun s io hI _ => hstep s io hI)
    (fun s io hI _ => hcycle s io hI) hI (along_of_forall fun _ _ => trivial)

theorem Reachable.of_init (hs : init s) : Reachable step init s :=
  ⟨s, [], hs, rfl⟩

theorem Reachable.run (hs : Reachable step init s) (inputs : List ι) :
    Reachable step init (Machine.run step s inputs) := by
  obtain ⟨s₀, before, hs₀, rfl⟩ := hs
  exact ⟨s₀, before ++ inputs, hs₀, run_append⟩

theorem Reachable.next (hs : Reachable step init s) (io : ι) :
    Reachable step init (step s io) :=
  hs.run [io]

/-- The rule for invariants of all reachable states. -/
theorem Reachable.invariant (hinit : ∀ s, init s → I s)
    (hstep : ∀ s io, I s → I (step s io))
    (hs : Reachable step init s) : I s := by
  obtain ⟨s₀, inputs, hs₀, rfl⟩ := hs
  exact run_invariant (fun s io hI _ => hstep s io hI) (hinit s₀ hs₀)
    (along_of_forall fun _ _ => trivial)

/-- A component that steps with the whole machine is reachable by itself. -/
theorem Reachable.map {σ' ι' : Type*} {step' : σ' → ι' → σ'} {init' : σ' → Prop}
    (part : σ → σ') (ports : σ → ι → ι') (hinit : ∀ s, init s → init' (part s))
    (hstep : ∀ s io, part (step s io) = step' (part s) (ports s io))
    (hs : Reachable step init s) : Reachable step' init' (part s) := by
  refine hs.invariant (I := fun s => Reachable step' init' (part s)) ?_ ?_
  · intro s hs
    exact .of_init (hinit s hs)
  · intro s io hpart
    rw [hstep]
    exact hpart.next (ports s io)

variable {out : σ → ι → List ο} {history : List ο} {H : List ο → σ → Prop}

/-- A relation between everything emitted so far and the current state, kept by
every admitted clock edge, relates what a whole run emits to where it ends. -/
theorem outputs_invariant
    (hstep : ∀ history s io, H history s → P s io →
      H (history ++ out s io) (step s io))
    (hH : H history s) (hP : Along step P s inputs) :
    H (history ++ outputs step out s inputs) (run step s inputs) := by
  induction inputs generalizing s history with
  | nil => simpa using hH
  | cons io inputs ih =>
      have hnext := ih (hstep history s io hH hP.1) hP.2
      simpa [List.append_assoc] using hnext

variable {out' : σ → ι → List ο}

theorem length_outputs_le (inputs : List ι) (hstep : ∀ s io, I s → I (step s io))
    (hle : ∀ s io, I s → (out s io).length ≤ (out' s io).length) (hI : I s) :
    (outputs step out s inputs).length ≤ (outputs step out' s inputs).length := by
  induction inputs generalizing s with
  | nil => exact Nat.le_refl _
  | cons io inputs ih =>
      simp only [outputs_cons, List.length_append]
      exact Nat.add_le_add (hle s io hI) (ih (hstep s io hI))

/-- If in each cycle two outputs agree or the second one is longer, they agree
over a whole run exactly if they agree in each of its cycles. -/
theorem outputs_eq_iff (hstep : ∀ s io, I s → I (step s io))
    (hcycle : ∀ s io, I s → out s io = out' s io ∨ (out s io).length < (out' s io).length)
    (hI : I s) :
    outputs step out s inputs = outputs step out' s inputs ↔
      Along step (fun s io => out s io = out' s io) s inputs := by
  have hle (s : σ) (io : ι) (hI : I s) : (out s io).length ≤ (out' s io).length := by
    rcases hcycle s io hI with heq | hlt
    · exact Nat.le_of_eq (congrArg List.length heq)
    · exact Nat.le_of_lt hlt
  induction inputs generalizing s with
  | nil => simp
  | cons io inputs ih =>
      rw [outputs_cons, outputs_cons, along_cons]
      have hiff := ih (hstep s io hI)
      constructor
      · intro heq
        rcases hcycle s io hI with hhead | hlt
        · rw [hhead] at heq
          exact ⟨hhead, hiff.mp (List.append_cancel_left heq)⟩
        · have hrest := length_outputs_le inputs hstep hle (hstep s io hI)
          have hlength := congrArg List.length heq
          simp only [List.length_append] at hlength
          omega
      · rintro ⟨hhead, hrest⟩
        rw [hhead, hiff.mpr hrest]

end Induction

end KyogenRV.Machine
