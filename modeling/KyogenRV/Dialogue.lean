import Mathlib.Data.List.Basic

/-!
# Programs that talk to an environment

A program has a store and makes calls, each of which gets an answer.  It is run
on the answers that are still to come, and a run that uses them up stops at the
call it is waiting at.  The runs on all lists of answers are so the finite parts
of all executions, those that never end included.

A contract is kept between the two sides: it says which calls the program may
make and how the environment moves when it answers one.  `wp` is the weakest
precondition under a contract, with one rule for each way to build a program,
and `Can` says that there is a run.
-/

namespace KyogenRV

/-- How a run ends: with a value and the answers that are left, at a call
without an answer, or where nothing is defined any more. -/
inductive Outcome (γ ω α : Type) where
  | returned (store : γ) (value : α) (answers : List ω)
  | waiting
  | undefined

/-- The answered calls of a run, and its end. -/
structure Talk (γ ι ω α : Type) where
  events : List (ι × ω)
  outcome : Outcome γ ω α

/-- A program with a store `γ` and calls `ι` that are answered in `ω`. -/
def Dialogue (γ ι ω α : Type) := γ → List ω → Talk γ ι ω α

namespace Dialogue

variable {γ ι ω σ α β : Type}

/-! ## Building programs -/

/-- Something is said before a talk. -/
def before (events : List (ι × ω)) (talk : Talk γ ι ω α) : Talk γ ι ω α :=
  ⟨events ++ talk.events, talk.outcome⟩

def andThen (m : Dialogue γ ι ω α) (f : α → Dialogue γ ι ω β) : Dialogue γ ι ω β :=
  fun store answers =>
    match m store answers with
    | ⟨events, .returned store value rest⟩ => before events (f value store rest)
    | ⟨events, .waiting⟩ => ⟨events, .waiting⟩
    | ⟨events, .undefined⟩ => ⟨events, .undefined⟩

instance : Monad (Dialogue γ ι ω) where
  pure value := fun store answers => ⟨[], .returned store value answers⟩
  bind := andThen

/-- One call and its answer. -/
def call (c : ι) : Dialogue γ ι ω ω
  | _, [] => ⟨[], .waiting⟩
  | store, answer :: answers => ⟨[(c, answer)], .returned store answer answers⟩

def load : Dialogue γ ι ω γ :=
  fun store answers => ⟨[], .returned store store answers⟩

def update (f : γ → γ) : Dialogue γ ι ω Unit :=
  fun store answers => ⟨[], .returned (f store) () answers⟩

/-- An operation without a result is undefined. -/
def defined : Option α → Dialogue γ ι ω α
  | some value => pure value
  | none => fun _ _ => ⟨[], .undefined⟩

/-- The body over and over until it has a result, at most `bound` times. -/
def loopFor (body : Dialogue γ ι ω (Option α)) : ℕ → Dialogue γ ι ω α
  | 0 => fun _ _ => ⟨[], .waiting⟩
  | bound + 1 => body >>= fun
      | some value => pure value
      | none => loopFor body bound

/-- The body over and over until it has a result. -/
def loop (body : Dialogue γ ι ω (Option α)) : Dialogue γ ι ω α :=
  fun store answers => loopFor body (answers.length + 1) store answers

/-! ## Loops whose body waits for an answer -/

/-- A program that does not come to its end without an answer. -/
def Asks (m : Dialogue γ ι ω α) : Prop :=
  ∀ store answers store' value rest,
    (m store answers).outcome = .returned store' value rest → rest.length < answers.length

/-- A program that gives no answer back. -/
def Takes (m : Dialogue γ ι ω α) : Prop :=
  ∀ store answers store' value rest,
    (m store answers).outcome = .returned store' value rest → rest.length ≤ answers.length

theorem bind_of_returned {m : Dialogue γ ι ω α} {f : α → Dialogue γ ι ω β}
    {store store' : γ} {answers rest : List ω} {value : α}
    (hm : (m store answers).outcome = .returned store' value rest) :
    (m >>= f) store answers = before (m store answers).events (f value store' rest) := by
  change andThen m f store answers = _
  rw [andThen]
  split
  all_goals simp_all

theorem bind_outcome_returned {m : Dialogue γ ι ω α} {f : α → Dialogue γ ι ω β}
    {store store'' : γ} {answers rest' : List ω} {value' : β}
    (h : ((m >>= f) store answers).outcome = .returned store'' value' rest') :
    ∃ store' value rest, (m store answers).outcome = .returned store' value rest ∧
      (f value store' rest).outcome = .returned store'' value' rest' := by
  change (andThen m f store answers).outcome = _ at h
  rw [andThen] at h
  split at h
  case h_1 events store' value rest hm =>
    exact ⟨store', value, rest, by rw [hm], h⟩
  all_goals cases h

theorem Takes.bind {m : Dialogue γ ι ω α} {f : α → Dialogue γ ι ω β} (hm : Takes m)
    (hf : ∀ value, Takes (f value)) : Takes (m >>= f) := by
  intro store answers store'' value' rest' h
  obtain ⟨store', value, rest, hfirst, hsecond⟩ := bind_outcome_returned h
  exact Nat.le_trans (hf _ _ _ _ _ _ hsecond) (hm _ _ _ _ _ hfirst)

theorem Asks.bind {m : Dialogue γ ι ω α} {f : α → Dialogue γ ι ω β} (hm : Asks m)
    (hf : ∀ value, Takes (f value)) : Asks (m >>= f) := by
  intro store answers store'' value' rest' h
  obtain ⟨store', value, rest, hfirst, hsecond⟩ := bind_outcome_returned h
  exact Nat.lt_of_le_of_lt (hf _ _ _ _ _ _ hsecond) (hm _ _ _ _ _ hfirst)

theorem Asks.takes {m : Dialogue γ ι ω α} (hm : Asks m) : Takes m :=
  fun _ _ _ _ _ h => Nat.le_of_lt (hm _ _ _ _ _ h)

theorem takes_pure (value : α) : Takes (pure value : Dialogue γ ι ω α) := by
  intro store answers store' value' rest h
  cases h
  exact Nat.le_refl _

theorem asks_call (c : ι) : Asks (call c : Dialogue γ ι ω ω) := by
  intro store answers store' value rest h
  cases answers with
  | nil => cases h
  | cons answer answers =>
      cases h
      exact Nat.lt_succ_self _

/-- Two bounds above the number of answers make no difference. -/
theorem loopFor_eq {body : Dialogue γ ι ω (Option α)} (hbody : Asks body) :
    ∀ (bound bound' : ℕ) (store : γ) (answers : List ω),
      answers.length < bound → answers.length < bound' →
        loopFor body bound store answers = loopFor body bound' store answers := by
  intro bound
  induction bound with
  | zero => intro _ _ answers h; exact absurd h (Nat.not_lt_zero _)
  | succ bound ih =>
      intro bound' store answers hlt hlt'
      obtain ⟨bound', rfl⟩ : ∃ n, bound' = n + 1 := ⟨bound' - 1, by omega⟩
      change andThen body _ store answers = andThen body _ store answers
      rw [andThen, andThen]
      split
      case h_1 events store' value rest hrun =>
        have hrest : rest.length < answers.length :=
          hbody store answers store' value rest (by rw [hrun])
        cases value with
        | some value => rfl
        | none =>
            change before events (loopFor body bound store' rest) =
              before events (loopFor body bound' store' rest)
            rw [ih bound' store' rest (by omega) (by omega)]
      all_goals rfl

/-- The loop is its own unfolding: the bound never ends it. -/
theorem loop_eq {body : Dialogue γ ι ω (Option α)} (hbody : Asks body) :
    loop body = body >>= fun
      | some value => pure value
      | none => loop body := by
  funext store answers
  change andThen body _ store answers = andThen body _ store answers
  rw [andThen, andThen]
  split
  case h_1 events store' value rest hrun =>
    have hrest : rest.length < answers.length :=
      hbody store answers store' value rest (by rw [hrun])
    cases value with
    | some value => rfl
    | none =>
        change before events (loopFor body answers.length store' rest) =
          before events (loopFor body (rest.length + 1) store' rest)
        rw [loopFor_eq hbody _ (rest.length + 1) store' rest hrest (Nat.lt_succ_self _)]
  all_goals rfl

/-! ## Contracts -/

end Dialogue

/-- The calls that the program may make, the moves of an environment that
answers them, and where the program may do what is undefined. -/
structure Contract (ι ω σ : Type) where
  allowed : σ → ι → Prop
  step : σ → ι → ω → σ → Prop
  mayFail : σ → Prop

/-- Two environments side by side, which share the calls between them. -/
def Contract.beside {ι ω σ ρ : Type} (C : Contract ι ω σ) (toLeft : ι → Bool)
    (D : Contract ι ω ρ) : Contract ι ω (σ × ρ) where
  allowed s c := if toLeft c then C.allowed s.1 c else D.allowed s.2 c
  step s c answer s' :=
    if toLeft c then C.step s.1 c answer s'.1 ∧ s'.2 = s.2
    else D.step s.2 c answer s'.2 ∧ s'.1 = s.1
  mayFail s := C.mayFail s.1 ∨ D.mayFail s.2

namespace Dialogue

variable {γ ι ω σ ρ α β : Type}

section Contract

variable (C : Contract ι ω σ)

/-- The calls are allowed as long as the environment keeps its side, and the
end is as the program promises. -/
def Meets (Q : α → γ → σ → Prop) : σ → List (ι × ω) → Outcome γ ω α → Prop
  | s, [], .returned store value _ => Q value store s
  | _, [], .waiting => True
  | s, [], .undefined => C.mayFail s
  | s, (c, answer) :: events, outcome =>
      C.allowed s c ∧ ∀ s', C.step s c answer s' → Meets Q s' events outcome

/-- Whatever the answers, the run from this store and this environment keeps
the contract. -/
def wp (m : Dialogue γ ι ω α) (Q : α → γ → σ → Prop) (store : γ) (s : σ) : Prop :=
  ∀ answers, Meets C Q s (m store answers).events (m store answers).outcome

variable {C}

theorem Meets.mono {Q R : α → γ → σ → Prop}
    (hQR : ∀ value store s, Q value store s → R value store s)
    {s : σ} {events : List (ι × ω)} {outcome : Outcome γ ω α}
    (h : Meets C Q s events outcome) : Meets C R s events outcome := by
  induction events generalizing s with
  | nil =>
      cases outcome with
      | returned store value answers => exact hQR _ _ _ h
      | waiting => trivial
      | undefined => exact h
  | cons event events ih => exact ⟨h.1, fun s' hs' => ih (h.2 s' hs')⟩

theorem Meets.append {Q : α → γ → σ → Prop} {R : β → γ → σ → Prop}
    {events events' : List (ι × ω)} {store : γ} {value : α} {rest : List ω}
    {outcome : Outcome γ ω β} {s : σ}
    (h : Meets C Q s events (.returned store value rest))
    (hnext : ∀ s', Q value store s' → Meets C R s' events' outcome) :
    Meets C R s (events ++ events') outcome := by
  induction events generalizing s with
  | nil => exact hnext s h
  | cons event events ih => exact ⟨h.1, fun s' hs' => ih (h.2 s' hs')⟩

/-- Without a value, the end says the same of programs with other values. -/
theorem Meets.of_not_returned {Q : α → γ → σ → Prop} {R : β → γ → σ → Prop} {s : σ}
    {events : List (ι × ω)} {outcome : Outcome γ ω α} {outcome' : Outcome γ ω β}
    (h : Meets C Q s events outcome)
    (hend : outcome = .waiting ∧ outcome' = .waiting ∨
      outcome = .undefined ∧ outcome' = .undefined) :
    Meets C R s events outcome' := by
  induction events generalizing s with
  | nil =>
      obtain ⟨rfl, rfl⟩ | ⟨rfl, rfl⟩ := hend
      · trivial
      · exact h
  | cons event events ih => exact ⟨h.1, fun s' hs' => ih (h.2 s' hs')⟩

theorem wp_mono {m : Dialogue γ ι ω α} {Q R : α → γ → σ → Prop} {store : γ} {s : σ}
    (h : wp C m Q store s) (hQR : ∀ value store s, Q value store s → R value store s) :
    wp C m R store s :=
  fun answers => (h answers).mono hQR

theorem wp_pure {Q : α → γ → σ → Prop} {value : α} {store : γ} {s : σ}
    (h : Q value store s) : wp C (pure value) Q store s :=
  fun _ => h

theorem wp_bind {m : Dialogue γ ι ω α} {f : α → Dialogue γ ι ω β} {Q : β → γ → σ → Prop}
    {store : γ} {s : σ} (h : wp C m (fun value => wp C (f value) Q) store s) :
    wp C (m >>= f) Q store s := by
  intro answers
  have hm := h answers
  change Meets C Q s (andThen m f store answers).events (andThen m f store answers).outcome
  rw [andThen]
  split
  case h_1 events store' value rest hrun =>
    rw [hrun] at hm
    exact hm.append fun s' hs' => hs' rest
  case h_2 events hrun =>
    rw [hrun] at hm
    exact hm.of_not_returned (.inl ⟨rfl, rfl⟩)
  case h_3 events hrun =>
    rw [hrun] at hm
    exact hm.of_not_returned (.inr ⟨rfl, rfl⟩)

/-- The first program establishes what the second starts from. -/
theorem wp_seq {m : Dialogue γ ι ω α} {f : α → Dialogue γ ι ω β} {P : α → γ → σ → Prop}
    {Q : β → γ → σ → Prop} {store : γ} {s : σ} (hm : wp C m P store s)
    (hf : ∀ value store s, P value store s → wp C (f value) Q store s) :
    wp C (m >>= f) Q store s :=
  wp_bind (wp_mono hm hf)

theorem wp_call {c : ι} {Q : ω → γ → σ → Prop} {store : γ} {s : σ} (hallowed : C.allowed s c)
    (hstep : ∀ answer s', C.step s c answer s' → Q answer store s') :
    wp C (call c) Q store s
  | [] => trivial
  | answer :: _ => ⟨hallowed, hstep answer⟩

theorem wp_load {Q : γ → γ → σ → Prop} {store : γ} {s : σ} (h : Q store store s) :
    wp C load Q store s :=
  fun _ => h

theorem wp_update {f : γ → γ} {Q : Unit → γ → σ → Prop} {store : γ} {s : σ}
    (h : Q () (f store) s) : wp C (update f) Q store s :=
  fun _ => h

theorem wp_defined {o : Option α} {Q : α → γ → σ → Prop} {store : γ} {s : σ}
    (hsome : ∀ value, o = some value → Q value store s) (hnone : o = none → C.mayFail s) :
    wp C (defined o) Q store s := by
  cases o with
  | some value => exact wp_pure (hsome value rfl)
  | none => exact fun _ => hnone rfl

/-- The rule of a loop: an invariant of its body. -/
theorem wp_loop {body : Dialogue γ ι ω (Option α)} {Q : α → γ → σ → Prop} (I : γ → σ → Prop)
    (hbody : ∀ store s, I store s →
      wp C body (fun result store s => (∀ value, result = some value → Q value store s) ∧
        (result = none → I store s)) store s)
    {store : γ} {s : σ} (h : I store s) : wp C (loop body) Q store s := by
  have hfor : ∀ bound store s, I store s → wp C (loopFor body bound) Q store s := by
    intro bound
    induction bound with
    | zero => exact fun _ _ _ _ => trivial
    | succ bound ih =>
        intro store s hI
        apply wp_seq (hbody store s hI)
        intro result store s hresult
        cases result with
        | some value => exact wp_pure (hresult.1 value rfl)
        | none => exact ih store s (hresult.2 rfl)
  exact fun answers => hfor (answers.length + 1) store s h answers

end Contract

/-! ### Side by side -/

section Beside

variable {C : Contract ι ω σ} {D : Contract ι ω ρ} {toLeft : ι → Bool}

theorem Meets.left (hside : ∀ s c, C.allowed s c → toLeft c = true) {Q : α → γ → σ × ρ → Prop}
    {s : σ} {r : ρ} {events : List (ι × ω)} {outcome : Outcome γ ω α}
    (h : Meets C (fun value store s => Q value store (s, r)) s events outcome) :
    Meets (C.beside toLeft D) Q (s, r) events outcome := by
  induction events generalizing s with
  | nil =>
      cases outcome with
      | returned store value answers => exact h
      | waiting => trivial
      | undefined => exact Or.inl h
  | cons event events ih =>
      obtain ⟨c, answer⟩ := event
      have hc : toLeft c = true := hside s c h.1
      constructor
      · simp only [Contract.beside, hc, if_true]
        exact h.1
      · rintro ⟨s', r'⟩ hs'
        simp only [Contract.beside, hc, if_true] at hs'
        obtain ⟨hstep, rfl⟩ := hs'
        exact ih (h.2 s' hstep)

theorem Meets.right (hside : ∀ r c, D.allowed r c → toLeft c = false) {Q : α → γ → σ × ρ → Prop}
    {s : σ} {r : ρ} {events : List (ι × ω)} {outcome : Outcome γ ω α}
    (h : Meets D (fun value store r => Q value store (s, r)) r events outcome) :
    Meets (C.beside toLeft D) Q (s, r) events outcome := by
  induction events generalizing r with
  | nil =>
      cases outcome with
      | returned store value answers => exact h
      | waiting => trivial
      | undefined => exact Or.inr h
  | cons event events ih =>
      obtain ⟨c, answer⟩ := event
      have hc : toLeft c = false := hside r c h.1
      constructor
      · simp only [Contract.beside, hc, Bool.false_eq_true, if_false]
        exact h.1
      · rintro ⟨s', r'⟩ hs'
        simp only [Contract.beside, hc, Bool.false_eq_true, if_false] at hs'
        obtain ⟨hstep, rfl⟩ := hs'
        exact ih (h.2 r' hstep)

/-- A program that keeps to the left leaves the right alone. -/
theorem wp_left (hside : ∀ s c, C.allowed s c → toLeft c = true) {m : Dialogue γ ι ω α}
    {Q : α → γ → σ × ρ → Prop} {store : γ} {s : σ} {r : ρ}
    (h : wp C m (fun value store s => Q value store (s, r)) store s) :
    wp (C.beside toLeft D) m Q store (s, r) :=
  fun answers => (h answers).left hside

/-- A program that keeps to the right leaves the left alone. -/
theorem wp_right (hside : ∀ r c, D.allowed r c → toLeft c = false) {m : Dialogue γ ι ω α}
    {Q : α → γ → σ × ρ → Prop} {store : γ} {s : σ} {r : ρ}
    (h : wp D m (fun value store r => Q value store (s, r)) store r) :
    wp (C.beside toLeft D) m Q store (s, r) :=
  fun answers => (h answers).right hside

end Beside

/-! ### Another environment -/

/-- Seen through `rel`, every move of `C` is one of `D`, and the program may do in
`C` what it may do in `D`. -/
structure SimulatedBy (C : Contract ι ω σ) (D : Contract ι ω ρ) (rel : σ → ρ → Prop) : Prop where
  allowed : ∀ s r c, rel s r → D.allowed r c → C.allowed s c
  step : ∀ s r c answer s', rel s r → C.step s c answer s' →
    ∃ r', D.step r c answer r' ∧ rel s' r'
  mayFail : ∀ s r, rel s r → D.mayFail r → C.mayFail s

section Simulation

variable {C : Contract ι ω σ} {D : Contract ι ω ρ} {rel : σ → ρ → Prop} {s : σ} {r : ρ}

theorem Meets.of_simulated (hsim : SimulatedBy C D rel) (hrel : rel s r) {Q : α → γ → ρ → Prop}
    {events : List (ι × ω)} {outcome : Outcome γ ω α} (h : Meets D Q r events outcome) :
    Meets C (fun value store s => ∃ r, rel s r ∧ Q value store r) s events outcome := by
  induction events generalizing s r with
  | nil =>
      cases outcome with
      | returned store value answers => exact ⟨r, hrel, h⟩
      | waiting => trivial
      | undefined => exact hsim.mayFail s r hrel h
  | cons event events ih =>
      obtain ⟨c, answer⟩ := event
      refine ⟨hsim.allowed s r c hrel h.1, fun s' hs' => ?_⟩
      obtain ⟨r', hr', hrel'⟩ := hsim.step s r c answer s' hrel hs'
      exact ih hrel' (h.2 r' hr')

/-- What holds with the one environment holds with the other. -/
theorem wp_of_simulated (hsim : SimulatedBy C D rel) (hrel : rel s r) {m : Dialogue γ ι ω α}
    {Q : α → γ → ρ → Prop} {store : γ} (h : wp D m Q store r) :
    wp C m (fun value store s => ∃ r, rel s r ∧ Q value store r) store s :=
  fun answers => (h answers).of_simulated hsim hrel

end Simulation

/-! ## Some run -/

section Can

variable {C : Contract ι ω σ}

/-- The environment can move so when it answers these calls. -/
def Moves (C : Contract ι ω σ) : σ → List (ι × ω) → σ → Prop
  | s, [], s' => s' = s
  | s, (c, answer) :: events, s' => ∃ s₁, C.step s c answer s₁ ∧ Moves C s₁ events s'

/-- With answers that the environment can give, a run from this store comes to its
end and leaves all later answers. -/
def Can (C : Contract ι ω σ) (m : Dialogue γ ι ω α) (Q : α → γ → σ → Prop) (store : γ) (s : σ) :
    Prop :=
  ∃ events store' value s',
    (∀ later, m store (events.map Prod.snd ++ later) = ⟨events, .returned store' value later⟩) ∧
      Moves C s events s' ∧ Q value store' s'

theorem Moves.append {s s₁ s₂ : σ} {events events' : List (ι × ω)} (h : Moves C s events s₁)
    (h' : Moves C s₁ events' s₂) : Moves C s (events ++ events') s₂ := by
  induction events generalizing s with
  | nil =>
      obtain rfl : s₁ = s := h
      exact h'
  | cons event events ih =>
      obtain ⟨s', hstep, hmoves⟩ := h
      exact ⟨s', hstep, ih hmoves⟩

theorem Meets.of_moves {Q : α → γ → σ → Prop} {s s' : σ} {events : List (ι × ω)} {store : γ}
    {value : α} {rest : List ω} (h : Meets C Q s events (.returned store value rest))
    (hmoves : Moves C s events s') : Q value store s' := by
  induction events generalizing s with
  | nil =>
      obtain rfl : s' = s := hmoves
      exact h
  | cons event events ih =>
      obtain ⟨s₁, hstep, hmoves⟩ := hmoves
      exact ih (h.2 s₁ hstep) hmoves

variable {Q R : α → γ → σ → Prop} {store : γ} {s : σ}

/-- What every run ends with, this one does. -/
theorem Can.and_wp {m : Dialogue γ ι ω α} (h : Can C m R store s) (hwp : wp C m Q store s) :
    Can C m (fun value store s => Q value store s ∧ R value store s) store s := by
  obtain ⟨events, store', value, s', hrun, hmoves, hR⟩ := h
  refine ⟨events, store', value, s', hrun, hmoves, ?_, hR⟩
  have hmeets := hwp (events.map Prod.snd ++ [])
  rw [hrun] at hmeets
  exact hmeets.of_moves hmoves

theorem Can.mono {m : Dialogue γ ι ω α} (h : Can C m Q store s)
    (hQR : ∀ value store s, Q value store s → R value store s) : Can C m R store s := by
  obtain ⟨events, store', value, s', hrun, hmoves, hQ⟩ := h
  exact ⟨events, store', value, s', hrun, hmoves, hQR _ _ _ hQ⟩

theorem Can.result {m : Dialogue γ ι ω α} (h : Can C m Q store s) :
    ∃ value store' s', Q value store' s' := by
  obtain ⟨_, store', value, s', -, -, hQ⟩ := h
  exact ⟨value, store', s', hQ⟩

theorem can_pure {value : α} (h : Q value store s) : Can C (pure value) Q store s :=
  ⟨[], store, value, s, fun _ => rfl, rfl, h⟩

theorem can_call {c : ι} {answer : ω} {s' : σ} {Q : ω → γ → σ → Prop}
    (hstep : C.step s c answer s') (h : Q answer store s') : Can C (call c) Q store s :=
  ⟨[(c, answer)], store, answer, s', fun _ => rfl, ⟨s', hstep, rfl⟩, h⟩

theorem can_bind {m : Dialogue γ ι ω α} {f : α → Dialogue γ ι ω β} {Q : β → γ → σ → Prop}
    (h : Can C m (fun value => Can C (f value) Q) store s) : Can C (m >>= f) Q store s := by
  obtain ⟨events, store₁, value₁, s₁, hm, hmoves₁,
    events', store₂, value₂, s₂, hf, hmoves₂, hQ⟩ := h
  refine ⟨events ++ events', store₂, value₂, s₂, ?_, hmoves₁.append hmoves₂, hQ⟩
  intro later
  rw [List.map_append, List.append_assoc,
    bind_of_returned (congrArg Talk.outcome (hm _)), hm, hf]
  rfl

theorem can_seq {m : Dialogue γ ι ω α} {f : α → Dialogue γ ι ω β} {P : α → γ → σ → Prop}
    {Q : β → γ → σ → Prop} (hm : Can C m P store s)
    (hf : ∀ value store s, P value store s → Can C (f value) Q store s) :
    Can C (m >>= f) Q store s :=
  can_bind (hm.mono hf)

/-- A loop that ends with this turn. -/
theorem can_loop {body : Dialogue γ ι ω (Option α)} (hbody : Asks body)
    (h : Can C body (fun result store s => ∃ value, result = some value ∧ Q value store s)
      store s) :
    Can C (loop body) Q store s := by
  rw [loop_eq hbody]
  apply can_seq h
  rintro _ store s ⟨value, rfl, hQ⟩
  exact can_pure hQ

end Can

end Dialogue

end KyogenRV
