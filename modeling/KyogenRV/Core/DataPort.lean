import KyogenRV.Core.Access

/-!
# The acknowledge of a load

A data port accepts a read in every cycle with the request up and no data wait,
and answers the accepted reads in order.  The core listens to an answer only in
the one cycle in which it arrives.  Loads are numbered by how often the
pipeline has moved, which tells the answers of one load from those of another.
-/

namespace KyogenRV

open ScalarOpConstants MemoryOpConstants

/-! ## The data port -/

/-- The core with a data port that answers accepted reads in order. -/
structure DataPort where
  cpu : KyogenRVCpu
  /-- How often the pipeline has moved: the number of the instruction in WB.
  The instruction in MEM has the next number. -/
  moves : ℕ
  /-- The numbers of the loads whose accepted reads are unanswered, oldest
  first. -/
  unanswered : List ℕ

namespace DataPort

variable (p : DataPort) (io : HostIf)

/-- What an answer in this cycle leaves unanswered. -/
def rest : List ℕ := if io.rDmemAck then p.unanswered.tail else p.unanswered

/-- A read accepted in this cycle. -/
def accepted : List ℕ :=
  if p.cpu.rDmemReq io && !io.wDatawaitreqSig then [p.moves + 1] else []

def step : DataPort where
  cpu := p.cpu.step io
  moves := if p.cpu.waitrequest io then p.moves else p.moves + 1
  unanswered := p.rest io ++ p.accepted io

def start (s : KyogenRVCpu) : DataPort := ⟨s, 0, []⟩

/-- Each answer is that of an accepted read, and the instruction port makes the
core wait only while it is requested. -/
def Obeys : Prop :=
  (io.rDmemAck = true → p.unanswered ≠ []) ∧
    (io.wWaitrequestSig = true → p.cpu.imemReq = true)

/-- A load in WB without an answer has a read of its own unanswered.  When it
leaves, the answer of this cycle is its own, and `rd` takes the lane-extended
data that came with it. -/
def AckHeard : Prop :=
  p.cpu.wb.ctrl.memWr = mXrd →
    (io.rDmemAck = false → p.moves ∈ p.unanswered) ∧
    (p.cpu.waitrequest io = false →
      io.rDmemAck = true ∧ p.unanswered.head? = some p.moves ∧
      (p.cpu.wb.regWaddr ≠ 0 → (p.step io).cpu.rv32iReg p.cpu.wb.regWaddr =
        loadValue p.cpu.wb.ctrl.maskType p.cpu.wb.aluOut io.rDmemData))

/-- An answer to the load in WB that arrives while something else makes the
pipeline wait leaves another read of that load unanswered; and when a load leaves
MEM, halt is low and no read of an earlier load is unanswered. -/
def AckInTime : Prop :=
  (p.cpu.wb.ctrl.memWr = mXrd → io.rDmemAck = true → p.cpu.waitrequest io = true →
      p.moves ∈ p.unanswered.tail) ∧
    (p.cpu.mem.ctrl.memWr = mXrd → p.cpu.waitrequest io = false →
      io.halt = false ∧ ∀ load ∈ p.rest io, load = p.moves + 1)

/-! ## Whose reads are unanswered -/

/-- With a load in WB, its own unanswered reads come first, at least one, and
only reads of the load in MEM follow. -/
structure PortInv : Prop where
  coherent : p.cpu.Coherent
  aligned : p.cpu.AccessesAligned
  own : p.cpu.wb.ctrl.memWr = mXrd → ∃ own next,
    p.unanswered = List.replicate (own + 1) p.moves ++ List.replicate next (p.moves + 1)

section Port

variable {p : DataPort} {io : HostIf}

theorem accepted_eq_replicate (p : DataPort) (io : HostIf) :
    ∃ n, p.accepted io = List.replicate n (p.moves + 1) := by
  rw [accepted]
  split_ifs
  · exact ⟨1, rfl⟩
  · exact ⟨0, rfl⟩

/-- While a load waits in WB, it keeps a read of its own unanswered. -/
theorem own_of_wait (hinv : p.PortInv) (htime : p.AckInTime io)
    (hload : p.cpu.wb.ctrl.memWr = mXrd) (hwait : p.cpu.waitrequest io = true) :
    ∃ own next, (p.step io).unanswered =
      List.replicate (own + 1) p.moves ++ List.replicate next (p.moves + 1) := by
  obtain ⟨own, next, hown⟩ := hinv.own hload
  obtain ⟨n, haccepted⟩ := p.accepted_eq_replicate io
  have hstep : (p.step io).unanswered = p.rest io ++ List.replicate n (p.moves + 1) := by
    rw [step, haccepted]
  rw [hstep, rest]
  cases hack : io.rDmemAck with
  | false =>
      refine ⟨own, next + n, ?_⟩
      rw [if_neg (by decide), hown, List.append_assoc, List.replicate_append_replicate]
  | true =>
      have htail := htime.1 hload hack hwait
      rw [if_pos rfl]
      rw [hown] at htail ⊢
      cases own with
      | zero => simp at htail
      | succ own =>
          refine ⟨own, next + n, ?_⟩
          rw [List.replicate_succ, List.cons_append, List.tail_cons, List.append_assoc,
            List.replicate_append_replicate]

/-- A load that leaves MEM has its read accepted at this edge at the latest. -/
theorem own_of_leave (htime : p.AckInTime io) (hload : p.cpu.mem.ctrl.memWr = mXrd)
    (hwait : p.cpu.waitrequest io = false) :
    ∃ own, (p.step io).unanswered = List.replicate (own + 1) (p.moves + 1) := by
  obtain ⟨hhalt, hearlier⟩ := htime.2 hload hwait
  have haccepted : p.accepted io = [p.moves + 1] := by
    have hready : io.wDatawaitreqSig = false := by
      simp only [KyogenRVCpu.waitrequest, Bool.or_eq_false_iff] at hwait
      exact hwait.1.2
    simp [accepted, KyogenRVCpu.rDmemReq, hhalt, hload, hready]
  have hrest := List.eq_replicate_of_mem hearlier
  refine ⟨(p.rest io).length, ?_⟩
  rw [step, haccepted, List.replicate_succ', ← hrest]

theorem portInv_step (hinv : p.PortInv) (htime : p.AckInTime io) : (p.step io).PortInv where
  coherent := KyogenRVCpu.coherent_step hinv.coherent io
  aligned := KyogenRVCpu.accessesAligned_step hinv.aligned hinv.coherent io
  own := by
    intro hload
    cases hwait : p.cpu.waitrequest io with
    | true =>
        have hwb := (KyogenRVCpu.stages_of_wait hwait).2.2
        have hmoves : (p.step io).moves = p.moves := by simp [step, hwait]
        have hload' : p.cpu.wb.ctrl.memWr = mXrd := by rw [← hwb]; exact hload
        rw [hmoves]
        exact own_of_wait hinv htime hload' hwait
    | false =>
        have hwb := KyogenRVCpu.wb_of_move hwait
        have hmoves : (p.step io).moves = p.moves + 1 := by simp [step, hwait]
        have hload' : p.cpu.mem.ctrl.memWr = mXrd := by
          have hissue : (p.cpu.wbIssue).ctrl.memWr = mXrd := by rw [← hwb]; exact hload
          exact hissue
        obtain ⟨own, hown⟩ := own_of_leave htime hload' hwait
        rw [hmoves, hown]
        exact ⟨own, 0, (List.append_nil _).symm⟩

theorem ackHeard_of_inv (hinv : p.PortInv) : p.AckHeard io := by
  intro hload
  obtain ⟨own, next, hown⟩ := hinv.own hload
  refine ⟨fun _ => by simp [hown, List.replicate_succ], fun hwait => ?_⟩
  refine ⟨?_, by simp [hown, List.replicate_succ], ?_⟩
  · simp only [KyogenRVCpu.waitrequest, KyogenRVCpu.dmemRdWait, hload, beq_self_eq_true,
      Bool.true_and, Bool.or_eq_false_iff, Bool.not_eq_false'] at hwait
    exact hwait.2
  · exact KyogenRVCpu.rv32iReg_of_load hinv.coherent hload
      (hinv.aligned.wb (by rw [hload]; decide))

end Port

/-- In every run from reset whose cycles meet `AckInTime` no acknowledge of a
load is lost. -/
theorem ack_heard {s : KyogenRVCpu} {inputs : List HostIf} (hs : s.IsReset)
    (hrun : Machine.Along step AckInTime (start s) inputs) :
    Machine.Along step AckHeard (start s) inputs := by
  have hnop : nopCtrl.memWr ≠ mXrd := by decide
  have hwb : s.wb.ctrl = nopCtrl := by
    obtain ⟨_, _, _, _, _, _, _, rfl⟩ := hs
    rfl
  refine Machine.along_of_invariant (I := PortInv)
    (fun _ _ hinv htime => portInv_step hinv htime)
    (fun _ _ hinv _ => ackHeard_of_inv hinv) ?_ hrun
  exact ⟨KyogenRVCpu.coherent_reset hs, KyogenRVCpu.accessesAligned_reset hs,
    fun hload => absurd (hwb ▸ hload : nopCtrl.memWr = mXrd) hnop⟩

/-- The data port answers, and with `wait` makes the core wait. -/
def answer (data : Word) (wait : Bool) : HostIf :=
  { HostIf.fetch Instructions.nop with
    rDmemAck := true
    rDmemData := data
    wDatawaitreqSig := wait }

/-- A byte load, answered one cycle after its read was accepted. -/
theorem ack_heard_lb :
    Machine.Along step AckHeard (start KyogenRVCpu.zeroReset)
      (List.replicate 11 .idle ++ .fetch 0x00100083 :: List.replicate 3 (.fetch Instructions.nop) ++
        [answer 0x8000 false, .fetch Instructions.nop]) :=
  ack_heard KyogenRVCpu.isReset_zeroReset (by unfold AckInTime; decide)

/-- Two loads in a row: the answer to the first one arrives while the read of
the second one is not accepted yet.  The first load waits for ever. -/
theorem ack_lost :
    ¬∀ (s : KyogenRVCpu) (inputs : List HostIf), s.IsReset →
      Machine.Along step (fun p io => io.halt = false ∧ p.Obeys io) (start s) inputs →
      Machine.Along step AckHeard (start s) inputs := by
  intro h
  have hheard := h KyogenRVCpu.zeroReset
    (List.replicate 11 .idle ++
      [.fetch 0x00002083, .fetch 0x00402103, .fetch Instructions.nop, .fetch Instructions.nop,
        answer 0 true, .fetch Instructions.nop])
    KyogenRVCpu.isReset_zeroReset (by unfold Obeys; decide +kernel)
  revert hheard
  unfold AckHeard
  decide

end DataPort

end KyogenRV
