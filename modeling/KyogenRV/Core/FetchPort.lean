import KyogenRV.Core.InOrder

/-!
# The instruction port

An instruction port accepts a request in every cycle in which the request is up
and the port does not wait, and answers the accepted requests in order, each
once and after any number of cycles.  The core pairs the word that arrives with
the pc of its fetch stage.  What ID receives is recorded next to the core.
-/

namespace KyogenRV

open ScalarOpConstants MemoryOpConstants

/-- The instruction that the memory holds at an address. -/
def Slot.fetch (memory : Word → Word) (addr : Word) : Slot := ⟨addr, addr + 4, memory addr⟩

/-- Nothing, or a word of the memory with its own pc and the next one. -/
def Slot.Fetched (memory : Word → Word) (slot : Slot) : Prop :=
  slot = .bubble ∨ slot = .fetch memory slot.pc

/-- The core and the addresses of the requests that its instruction port has
accepted and not yet answered. -/
structure FetchPort where
  cpu : KyogenRVCpu
  pending : List Word

/-- The port, where the fetch was last sent to, what ID has received from there,
and whether a word that was due has met a kill in a waiting cycle since. -/
structure FetchTrace where
  port : FetchPort
  start : Word
  received : List Slot
  lost : Bool

namespace FetchPort

section Port

variable (memory : Word → Word) (p : FetchPort) (io : HostIf)

/-- The port answers its oldest request, if it has one, when `rImemAck` is set. -/
def answered : Bool := io.rImemAck && !p.pending.isEmpty

/-- What the core sees. -/
def hostIf : HostIf :=
  { io with
    rImemAck := p.answered io
    rImemData := if p.answered io then memory (p.pending.headD 0) else io.rImemData }

/-- The addresses answered and accepted in this cycle. -/
def answers : List Word := if p.answered io then p.pending.take 1 else []
def accepts : List Word := if p.cpu.imemReq && !io.wWaitrequestSig then [p.cpu.imemAddr] else []

def step : FetchPort where
  cpu := p.cpu.step (p.hostIf memory io)
  pending := (if p.answered io then p.pending.tail else p.pending) ++ p.accepts io

/-- The fetch stage has moved on to a word, and the port owes an answer. -/
def due : Bool :=
  p.cpu.imemReq && p.cpu.validImem && !p.cpu.inLoadstore && !p.pending.isEmpty

/-- The instruction in EX is killed, and ID cannot take an instruction. -/
def kills : Bool := p.cpu.instKill (p.hostIf memory io)
def holds : Bool := p.cpu.holdId (p.hostIf memory io)

/-- The fetch goes on at another address and ID is emptied. -/
def redirects : Bool :=
  p.kills memory io && !p.cpu.waitrequest (p.hostIf memory io) && p.cpu.imemReq

/-- The instruction that ID receives at this edge. -/
def receives : List Slot :=
  if (p.step memory io).cpu.id = p.cpu.id then []
  else [(p.step memory io).cpu.id].filter (· != .bubble)

/-- The port answers in time. -/
structure InTime : Prop where
  /-- A word that is due is answered. -/
  answered : p.due = true → p.kills memory io = false → p.answered io = true
  /-- The word behind an access is answered before the fetch starts again. -/
  late : p.cpu.imemReq = false → p.cpu.inLoadstore = true → p.cpu.loadstoreInPipe = false →
    p.holds memory io = false → p.cpu.tempLock = false → p.answered io = true
  /-- A word that is taken or saved is that of the newest request. -/
  newest : p.answered io = true → p.kills memory io = false →
    p.due = true ∨ p.cpu.imemReq = false ∧ p.cpu.tempLock = false →
    p.pending.head? = p.pending.getLast?

/-- The front end keeps what the port answers. -/
structure Kept : Prop where
  /-- The lock is off when a word that is due is to be saved. -/
  unlocked : p.due = true → p.kills memory io = false → p.holds memory io = true →
    p.cpu.tempLock = false
  /-- When the fetch starts again behind an access, ID is held. -/
  held : p.cpu.imemReq = true → p.cpu.inLoadstore = true → p.kills memory io = false →
    p.holds memory io = true
  /-- No word is saved late behind the instruction at address 0. -/
  nonzero : p.cpu.imemReq = false → p.answered io = true → p.kills memory io = false →
    p.cpu.tempLock = false → p.cpu.ifPc ≠ pcStart
  /-- While the request is down nothing is killed, unless the pipeline waits and
  no late word arrives. -/
  requested : p.cpu.imemReq = false → p.kills memory io = true →
    p.cpu.waitrequest (p.hostIf memory io) = true ∧
      (p.answered io = false ∨ p.cpu.tempLock = true)

set_option synthInstance.maxSize 400 in
instance : Decidable (p.InTime memory io) :=
  decidable_of_iff
    ((p.due = true → p.kills memory io = false → p.answered io = true) ∧
      (p.cpu.imemReq = false → p.cpu.inLoadstore = true → p.cpu.loadstoreInPipe = false →
        p.holds memory io = false → p.cpu.tempLock = false → p.answered io = true) ∧
      (p.answered io = true → p.kills memory io = false →
        p.due = true ∨ p.cpu.imemReq = false ∧ p.cpu.tempLock = false →
        p.pending.head? = p.pending.getLast?))
    ⟨fun ⟨answered, late, newest⟩ => ⟨answered, late, newest⟩,
      fun h => ⟨h.answered, h.late, h.newest⟩⟩

set_option synthInstance.maxSize 400 in
instance : Decidable (p.Kept memory io) :=
  decidable_of_iff
    ((p.due = true → p.kills memory io = false → p.holds memory io = true →
        p.cpu.tempLock = false) ∧
      (p.cpu.imemReq = true → p.cpu.inLoadstore = true → p.kills memory io = false →
        p.holds memory io = true) ∧
      (p.cpu.imemReq = false → p.answered io = true → p.kills memory io = false →
        p.cpu.tempLock = false → p.cpu.ifPc ≠ pcStart) ∧
      (p.cpu.imemReq = false → p.kills memory io = true →
        p.cpu.waitrequest (p.hostIf memory io) = true ∧
          (p.answered io = false ∨ p.cpu.tempLock = true)))
    ⟨fun ⟨unlocked, held, nonzero, requested⟩ => ⟨unlocked, held, nonzero, requested⟩,
      fun h => ⟨h.unlocked, h.held, h.nonzero, h.requested⟩⟩

/-- The word at `c` is to be fetched again, is saved, or is owed by the port. -/
def OnItsWay (c : Word) : Prop :=
  p.cpu.pcCntr = c ∨
    p.cpu.pcCntr = c + 4 ∧ (p.cpu.restored = .fetch memory c ∨ c ∈ p.pending)

@[simp] theorem step_cpu : (p.step memory io).cpu = p.cpu.step (p.hostIf memory io) := rfl

end Port

/-- The requests accepted so far are those answered, in this order, and those
that are pending. -/
theorem answers_append_pending (memory : Word → Word) (p : FetchPort) (inputs : List HostIf) :
    Machine.outputs (step memory) answers p inputs ++ (Machine.run (step memory) p inputs).pending =
      p.pending ++ Machine.outputs (step memory) accepts p inputs := by
  induction inputs generalizing p with
  | nil => simp
  | cons io inputs ih =>
      have hserved : p.answers io ++ (if p.answered io then p.pending.tail else p.pending) =
          p.pending := by
        rw [answers]
        split_ifs
        · exact (congrArg _ List.drop_one.symm).trans (List.take_append_drop 1 _)
        · rfl
      rw [Machine.outputs_cons, Machine.outputs_cons, Machine.run_cons, List.append_assoc, ih,
        step, ← List.append_assoc, ← List.append_assoc, hserved, List.append_assoc]

end FetchPort

namespace FetchTrace

section Trace

variable (memory : Word → Word) (t : FetchTrace) (io : HostIf)

def step : FetchTrace where
  port := t.port.step memory io
  start := if t.port.redirects memory io then (t.port.step memory io).cpu.pcCntr else t.start
  received := if t.port.redirects memory io then [] else t.received ++ t.port.receives memory io
  lost := t.port.kills memory io && t.port.cpu.waitrequest (t.port.hostIf memory io) &&
    (t.lost || t.port.due)

/-- Reset with nothing pending, and any number of cycles in halt. -/
def Released : Prop :=
  ∃ p₀ loads, p₀.cpu.IsReset ∧ p₀.pending = [] ∧ (∀ io ∈ loads, io.halt = true) ∧
    t = ⟨Machine.run (FetchPort.step memory) p₀ loads,
      (Machine.run (FetchPort.step memory) p₀ loads).cpu.pcCntr, [], false⟩

/-- ID and EX hold words of the memory with their own pc, or nothing. -/
def Paired : Prop := t.port.cpu.id.Fetched memory ∧ t.port.cpu.exSlot.Fetched memory

/-- The first `n` words of the memory from an address on, apart from a bubble. -/
def inOrder (start : Word) (n : ℕ) : List Slot :=
  ((List.range n).map fun k => Slot.fetch memory (CpuBus.wordAddr start k)).filter (· != .bubble)

/-- ID has received consecutive words since the last redirect, and the next one is
on its way unless a kill is present. -/
def Gapless : Prop :=
  ∃ n, t.received = inOrder memory t.start n ∧
    (t.lost = true ∨ t.port.OnItsWay memory (CpuBus.wordAddr t.start n))

/-- The port is in time, the front end keeps its words, and a kill that was
present when a word was lost does not go away. -/
def Admits : Prop :=
  t.port.InTime memory io ∧ t.port.Kept memory io ∧
    (t.lost = true → t.port.kills memory io = true)

instance : Decidable (t.Admits memory io) := inferInstanceAs (Decidable (_ ∧ _ ∧ _))

end Trace

end FetchTrace

end KyogenRV
