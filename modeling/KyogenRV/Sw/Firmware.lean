import KyogenRV.Dialogue
import KyogenRV.Sw.KrvUtils

/-!
# The firmware's accesses

What software sees of the machine are the loads and stores of `put32` and
`get32` and the two time CSRs (`utils.S`).  The functions of `krv_utils.c` are
programs of these accesses.
-/

namespace KyogenRV

/-- A call into `utils.S`. -/
inductive Access where
  | get32 (address : Word)
  | put32 (address data : Word)
  | getTimel
  | getTimeh
  deriving DecidableEq

/-- A program with the global variables `γ`. -/
abbrev Firmware (γ α : Type) := Dialogue γ Access Word α

namespace Firmware

open Dialogue

variable {γ : Type}

/-! ## `utils.S` -/

def get32 (address : Word) : Firmware γ Word := call (.get32 address)

/-- The answer to a store says that it is done. -/
def put32 (address data : Word) : Firmware γ Unit := do
  let _ ← call (.put32 address data)

def getTimel : Firmware γ Word := call .getTimel

def getTimeh : Firmware γ Word := call .getTimeh

/-! ## `krv_utils.c` -/

/-- `while(!ready(get32(address)));` -/
def pollBody (address : Word) (ready : Word → Bool) : Firmware γ (Option Unit) := do
  let value ← get32 address
  pure (if ready value then some () else none)

def poll (address : Word) (ready : Word → Bool) : Firmware γ Unit :=
  loop (pollBody address ready)

/-- `((uint64_t)get_timeh() * 4294967296UL) + (uint64_t)get_timel()`, with the
operands in either order. -/
def readTime (highFirst : Bool) : Firmware γ (BitVec 64) :=
  if highFirst then do
    let timeh ← getTimeh
    let timel ← getTimel
    pure (KrvUtils.compose timeh timel)
  else do
    let timel ← getTimel
    let timeh ← getTimeh
    pure (KrvUtils.compose timeh timel)

def waitBody (highFirst : Bool) (oldtime comp : BitVec 64) : Firmware γ (Option Unit) := do
  let nowtime ← readTime highFirst
  pure (if nowtime - oldtime > comp then some () else none)

def waitMs (highFirst : Bool) (msec : BitVec 64) : Firmware γ Unit := do
  let comp := KrvUtils.xtalFreqKhz * msec
  let oldtime ← readTime highFirst
  loop (waitBody highFirst oldtime comp)

def getTimeMs (highFirst : Bool) : Firmware γ (BitVec 64) := do
  let i ← readTime highFirst
  pure (i / KrvUtils.xtalFreqKhz)

def uart0Base : Word := 0x10040

/-- `char` is unsigned on RISC-V. -/
def uartPutc (ch : BitVec 8) : Firmware γ Unit := do
  poll (uart0Base + 8) fun status => status &&& 0x20 > 0
  put32 (uart0Base + 4) (ch.setWidth 32)

/-! ## Against the counter -/

section Clock

variable (clock : KrvUtils.Clock)

/-- The answers of the counter to one reading. -/
def answers (r : KrvUtils.Reading) : List Word :=
  if r.highFirst then [clock.getTimeh r.start, clock.getTimel r.stop]
  else [clock.getTimel r.start, clock.getTimeh r.stop]

theorem readTime_answers (r : KrvUtils.Reading) (store : γ) (later : List Word) :
    (readTime r.highFirst store (answers clock r ++ later)).outcome =
      .returned store (r.value clock) later := by
  obtain ⟨highFirst, start, stop, ordered⟩ := r
  cases highFirst
  · rfl
  · rfl

theorem asks_readTime (highFirst : Bool) : Asks (readTime highFirst : Firmware γ _) := by
  cases highFirst
  · exact (asks_call _).bind fun _ => (asks_call _).takes.bind fun _ => takes_pure _
  · exact (asks_call _).bind fun _ => (asks_call _).takes.bind fun _ => takes_pure _

theorem asks_waitBody (highFirst : Bool) (oldtime comp : BitVec 64) :
    Asks (waitBody highFirst oldtime comp : Firmware γ _) :=
  (asks_readTime highFirst).bind fun _ => takes_pure _

/-- The loop on the answers of the counter ends exactly if one of the polls of
`waitLoop` does. -/
theorem loop_waitBody (highFirst : Bool) (oldtime comp : BitVec 64) (store : γ)
    (polls : List KrvUtils.Reading) (horder : ∀ r ∈ polls, r.highFirst = highFirst) :
    (∃ later, (loop (waitBody highFirst oldtime comp) store
        (polls.flatMap (answers clock))).outcome = .returned store () later) ↔
      (KrvUtils.waitLoop clock oldtime comp polls).isSome := by
  induction polls with
  | nil =>
      cases highFirst
      · simp [loop, loopFor, waitBody, readTime, getTimel, call, bind, andThen,
          KrvUtils.waitLoop]
      · simp [loop, loopFor, waitBody, readTime, getTimeh, call, bind, andThen,
          KrvUtils.waitLoop]
  | cons r polls ih =>
      have hr : r.highFirst = highFirst := horder r List.mem_cons_self
      have hbody : (waitBody highFirst oldtime comp store
          (answers clock r ++ polls.flatMap (answers clock))).outcome =
          .returned store (if r.value clock - oldtime > comp then some () else none)
            (polls.flatMap (answers clock)) := by
        rw [← hr, waitBody, bind_of_returned (readTime_answers clock r store _)]
        rfl
      rw [List.flatMap_cons, loop_eq (asks_waitBody highFirst oldtime comp),
        bind_of_returned hbody, KrvUtils.waitLoop]
      by_cases hcomp : r.value clock - oldtime > comp
      · simp only [if_pos hcomp, Option.isSome_some, iff_true]
        exact ⟨_, rfl⟩
      · simp only [if_neg hcomp]
        exact ih fun r' hr' => horder r' (List.mem_cons_of_mem _ hr')

/-- `wait_ms` against the counter is `KrvUtils.waitMs`. -/
theorem waitMs_returns_iff (highFirst : Bool) (msec : BitVec 64) (store : γ)
    (entry : KrvUtils.Reading) (polls : List KrvUtils.Reading)
    (horder : ∀ r ∈ entry :: polls, r.highFirst = highFirst) :
    (∃ later, (waitMs highFirst msec store
        ((entry :: polls).flatMap (answers clock))).outcome = .returned store () later) ↔
      (KrvUtils.waitMs clock msec entry polls).isSome := by
  have hentry : entry.highFirst = highFirst := horder entry List.mem_cons_self
  rw [List.flatMap_cons, waitMs, ← hentry,
    bind_of_returned (readTime_answers clock entry store _), hentry, KrvUtils.waitMs]
  exact loop_waitBody clock highFirst _ _ store polls
    fun r hr => horder r (List.mem_cons_of_mem _ hr)

theorem getTimeMs_answers (r : KrvUtils.Reading) (store : γ) (later : List Word) :
    (getTimeMs r.highFirst store (answers clock r ++ later)).outcome =
      .returned store (KrvUtils.getTimeMs clock r) later := by
  rw [getTimeMs, bind_of_returned (readTime_answers clock r store later)]
  rfl

end Clock

/-! ## Rules -/

section Rules

variable {σ : Type} {C : Contract Access Word σ} {store : γ} {s : σ}

theorem wp_get32 {address : Word} {Q : Word → γ → σ → Prop}
    (hallowed : C.allowed s (.get32 address))
    (hstep : ∀ value s', C.step s (.get32 address) value s' → Q value store s') :
    wp C (get32 address) Q store s :=
  wp_call hallowed hstep

theorem wp_put32 {address data : Word} {Q : Unit → γ → σ → Prop}
    (hallowed : C.allowed s (.put32 address data))
    (hstep : ∀ answer s', C.step s (.put32 address data) answer s' → Q () store s') :
    wp C (put32 address data) Q store s :=
  wp_bind (wp_call hallowed fun answer s' hs' => wp_pure (hstep answer s' hs'))

/-- A poll keeps what each of its loads keeps. -/
theorem wp_poll {address : Word} {ready : Word → Bool} {Q : Unit → γ → σ → Prop} (I : σ → Prop)
    (hI : I s) (hallowed : ∀ s, I s → C.allowed s (.get32 address))
    (hstep : ∀ s value s', I s → C.step s (.get32 address) value s' →
      if ready value then Q () store s' else I s') :
    wp C (poll address ready) Q store s := by
  refine wp_loop (fun store' s => store' = store ∧ I s) ?_ ⟨rfl, hI⟩
  rintro _ s ⟨rfl, hs⟩
  apply wp_bind
  apply wp_get32 (hallowed s hs)
  intro value s' hs'
  have hnext := hstep s value s' hs hs'
  apply wp_pure
  by_cases hready : ready value
  · simp only [hready, if_true] at hnext
    simp [hready, hnext]
  · simp only [hready] at hnext
    simpa [hready] using hnext

/-- The time CSRs move nothing. -/
def Timed (C : Contract Access Word σ) : Prop :=
  ∀ s, (C.allowed s .getTimel ∧ ∀ answer s', C.step s .getTimel answer s' → s' = s) ∧
    C.allowed s .getTimeh ∧ ∀ answer s', C.step s .getTimeh answer s' → s' = s

theorem wp_readTime (hC : Timed C) {highFirst : Bool} {Q : BitVec 64 → γ → σ → Prop}
    (h : ∀ time, Q time store s) : wp C (readTime highFirst) Q store s := by
  have hlow {R : Word → γ → σ → Prop} (hR : ∀ timel, R timel store s) :
      wp C getTimel R store s :=
    wp_call (hC s).1.1 fun answer s' hs' => (hC s).1.2 answer s' hs' ▸ hR answer
  have hhigh {R : Word → γ → σ → Prop} (hR : ∀ timeh, R timeh store s) :
      wp C getTimeh R store s :=
    wp_call (hC s).2.1 fun answer s' hs' => (hC s).2.2 answer s' hs' ▸ hR answer
  cases highFirst
  · exact wp_bind (hlow fun _ => wp_bind (hhigh fun _ => wp_pure (h _)))
  · exact wp_bind (hhigh fun _ => wp_bind (hlow fun _ => wp_pure (h _)))

theorem wp_getTimeMs (hC : Timed C) {highFirst : Bool} {Q : BitVec 64 → γ → σ → Prop}
    (h : ∀ time, Q time store s) : wp C (getTimeMs highFirst) Q store s :=
  wp_bind (wp_readTime hC fun _ => wp_pure (h _))

theorem wp_waitMs (hC : Timed C) {highFirst : Bool} {msec : BitVec 64} {Q : Unit → γ → σ → Prop}
    (h : Q () store s) : wp C (waitMs highFirst msec) Q store s := by
  apply wp_bind
  apply wp_readTime hC
  intro oldtime
  refine wp_loop (fun store' s' => store' = store ∧ s' = s) ?_ ⟨rfl, rfl⟩
  rintro _ _ ⟨rfl, rfl⟩
  exact wp_bind (wp_readTime hC fun _ => wp_pure ⟨fun _ _ => h, fun _ => ⟨rfl, rfl⟩⟩)

end Rules

end Firmware

end KyogenRV
