import KyogenRV.Core.CsrAccess
import KyogenRV.Core.TrapCause

/-!
# The interrupt enable bit

Trap entry pushes `IE` and clears it, but the interrupt source is `MEIP` and
`MEIE` alone: while the pin is high each edge records the interrupt again.  In
the runs in which no interrupt is pending while `IE` is clear, the first trap
stays recorded until software changes it.
-/

namespace KyogenRV

namespace Csr

section Law

variable (c : Csr) (ports : CsrIO × Bool)

/-- A trap is recorded at this edge. -/
def TrapEntered : Prop := ports.2 = false ∧ c.expt ports.1 = true

/-- The trap recorded at this edge is that of the external interrupt. -/
def InterruptTaken : Prop := c.TrapEntered ports ∧ c.mepcCause ports.1 = .extInt

/-- What the registers tell of the last trap. -/
def trapRecord : Word × Word × Word × BitVec 2 × Bool :=
  (c.mepc, c.mcause, c.mtval, c.prv1, c.ie1)

/-- No exception of an instruction is raised, and software writes none of the
registers of the last trap. -/
def HandlerStep : Prop :=
  ports.2 = false →
    (∀ cause, cause ≠ .extInt → c.raised ports.1 cause = false) ∧
    (wen ports.1 = true →
      ports.1.addr ∉ [CsrAddr.mstatus, CsrAddr.mepc, CsrAddr.mcause])

/-- An interrupt is taken only with `IE` set. -/
def InterruptEnabled : Prop := c.InterruptTaken ports → c.ie = true

/-- The edge takes no interrupt and leaves what is told of the last trap. -/
def KeepsTrap : Prop :=
  ¬c.InterruptTaken ports ∧ (c.step ports).trapRecord = c.trapRecord

/-- In a run, interrupts are taken only with `IE` set, and every trap is kept
through the steps of its handler. -/
structure InterruptLaw (inputs : List ( CsrIO × Bool)) : Prop where
  enabled : Machine.Along step InterruptEnabled c inputs
  kept : ∀ before entry handler after, inputs = before ++ entry :: (handler ++ after) →
    (Machine.run step c before).TrapEntered entry →
    Machine.Along step HandlerStep (Machine.run step c (before ++ [entry])) handler →
    Machine.Along step KeepsTrap (Machine.run step c (before ++ [entry])) handler

/-- While `IE` is clear and the module is not stalled, `MEIE` is clear or the
pin was low in the cycle before. -/
def PendingEnabled : Prop :=
  ports.2 = false → c.ie = false → c.meie = true → c.meip = false

end Law

section Step

variable {c d : Csr} {ports : CsrIO × Bool}

theorem interruptTaken_iff :
    c.InterruptTaken ports ↔ ports.2 = false ∧ c.isExtInt = true := by
  constructor
  · rintro ⟨⟨hstall, _⟩, hcause⟩
    refine ⟨hstall, ?_⟩
    by_contra hint
    rw [mepcCause, if_neg hint] at hcause
    split_ifs at hcause
  · rintro ⟨hstall, hint⟩
    refine ⟨⟨hstall, ?_⟩, ?_⟩
    · simp [expt, hint]
    · rw [mepcCause, if_pos hint]

theorem interruptEnabled_iff : c.InterruptEnabled ports ↔ c.PendingEnabled ports := by
  rw [InterruptEnabled, PendingEnabled, interruptTaken_iff, isExtInt]
  cases ports.2 <;> cases c.ie <;> cases c.meie <;> cases c.meip <;> decide

theorem expt_of_raised {io : CsrIO} (hint : c.isExtInt = false)
    (hquiet : ∀ cause, cause ≠ .extInt → c.raised io cause = false) : c.expt io = false := by
  rw [expt, hint]
  have hecall := hquiet .ecall (by decide)
  have hebreak := hquiet .ebreak (by decide)
  have hillegal := hquiet .illegal (by decide)
  have hjump := hquiet .iaddrInvalidJ (by decide)
  have hfetch := hquiet .iaddrInvalidB (by decide)
  have hload := hquiet .laddrInvalid (by decide)
  have hstore := hquiet .saddrInvalid (by decide)
  simp only [raised] at hecall hebreak hillegal hjump hfetch hload hstore
  rw [hecall, hebreak, hillegal, hjump, hfetch, hload, hstore]
  rfl

/-- The other registers' writes leave what is told of the last trap, and `IE`. -/
theorem write_trapRecord {addr : BitVec 12} (wdata : Word)
    (haddr : addr ∉ [CsrAddr.mstatus, CsrAddr.mepc, CsrAddr.mcause]) :
    (write addr wdata d).trapRecord = d.trapRecord ∧ (write addr wdata d).ie = d.ie := by
  simp only [List.mem_cons, List.not_mem_nil, or_false, not_or] at haddr
  refine muxCase_of_forall
    (P := fun c : Csr => c.trapRecord = d.trapRecord ∧ c.ie = d.ie) ⟨rfl, rfl⟩ ?_
  simp only [List.forall_mem_cons, beq_iff_eq, haddr, false_imp_iff, List.not_mem_nil,
    implies_true, true_and, and_true]
  simp only [trapRecord, implies_true, and_self]

/-- The step lemma: with `IE` clear, a step of the handler keeps the trap. -/
theorem keepsTrap_of_handler (hie : c.ie = false) (hstep : c.HandlerStep ports)
    (hcond : c.PendingEnabled ports) :
    c.KeepsTrap ports ∧ (c.step ports).ie = false := by
  obtain ⟨io, stall⟩ := ports
  cases stall with
  | true =>
      refine ⟨⟨?_, rfl⟩, hie⟩
      rw [interruptTaken_iff]
      exact fun h => Bool.noConfusion h.1
  | false =>
      have hint : c.isExtInt = false := by
        rw [isExtInt, Bool.and_eq_false_iff]
        cases hmeie : c.meie with
        | false => exact Or.inr rfl
        | true => exact Or.inl (hcond rfl hie hmeie)
      obtain ⟨hquiet, hwrite⟩ := hstep rfl
      have hexpt : c.expt io = false := expt_of_raised hint hquiet
      have hnext : c.step (io, false) =
          if wen io then write io.addr (c.wdata io) (c.tick io false) else c.tick io false :=
        next_of_not_expt c io hexpt
      have hkept : (c.step (io, false)).trapRecord = c.trapRecord ∧
          (c.step (io, false)).ie = c.ie := by
        rw [hnext]
        split_ifs with hwen
        · exact write_trapRecord (c.wdata io) (hwrite hwen)
        · exact ⟨rfl, rfl⟩
      refine ⟨⟨?_, hkept.1⟩, hkept.2.trans hie⟩
      rw [interruptTaken_iff, hint]
      exact fun h => Bool.noConfusion h.2

theorem ie_of_trapEntered (hentry : c.TrapEntered ports) : (c.step ports).ie = false := by
  obtain ⟨io, stall⟩ := ports
  obtain ⟨rfl, hexpt⟩ := hentry
  have hnext : c.step (io, false) = c.trap io (c.tick io false) := if_pos hexpt
  rw [hnext]
  rfl

end Step

/-- A handler keeps the trap that it was entered by. -/
theorem keepsTrap_of_entry {c : Csr} {entry : CsrIO × Bool} {handler : List ( CsrIO × Bool)}
    (hentry : c.TrapEntered entry)
    (hhandler : Machine.Along step HandlerStep (c.step entry) handler)
    (hcond : Machine.Along step PendingEnabled (c.step entry) handler) :
    Machine.Along step KeepsTrap (c.step entry) handler := by
  refine Machine.along_of_invariant (I := fun d => d.ie = false) ?_ ?_
    (ie_of_trapEntered hentry) (hhandler.and hcond)
  · intro d ports hie hstep
    exact (keepsTrap_of_handler hie hstep.1 hstep.2).2
  · intro d ports hie hstep
    exact (keepsTrap_of_handler hie hstep.1 hstep.2).1

/-- Over every run from every state, interrupts are taken only with `IE` set and
leave the last trap alone, exactly if in each unstalled cycle with `IE` clear
either `MEIE` is clear or the pin was low one cycle before. -/
theorem interrupt_enabled_iff {c : Csr} {inputs : List ( CsrIO × Bool)} :
    c.InterruptLaw inputs ↔ Machine.Along step PendingEnabled c inputs := by
  constructor
  · intro hlaw
    exact hlaw.enabled.mono fun _ _ => interruptEnabled_iff.mp
  · intro hcond
    refine ⟨hcond.mono fun _ _ => interruptEnabled_iff.mpr, ?_⟩
    rintro before entry handler after rfl hentry hhandler
    rw [Machine.run_concat] at hhandler ⊢
    refine keepsTrap_of_entry hentry hhandler ?_
    exact (Machine.along_append.mp (Machine.along_append.mp hcond).2.2).1

/-- `MEIE` is set and the pin comes up while `IE` is clear, as after reset. -/
theorem interrupt_without_enable :
    ¬∀ (c : Csr) (inputs : List ( CsrIO × Bool)), c.Reachable → c.InterruptLaw inputs := by
  intro h
  let s := KyogenRVCpu.sample [.fetch 0xfff00093, .fetch 0x30409073,
    { HostIf.fetch 0x00000013 with wInterruptSig := true }, .fetch 0x00000013]
  have hreach : s.csr.Reachable := (KyogenRVCpu.reachable_sample _).csr
  have hlaw := h s.csr [(s.csrPorts .idle, s.stall .idle)] hreach
  have hie := hlaw.enabled.1 (by unfold InterruptTaken TrapEntered; decide +kernel)
  revert hie
  decide +kernel

end Csr

end KyogenRV
