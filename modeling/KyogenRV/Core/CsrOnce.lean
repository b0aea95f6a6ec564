import KyogenRV.Core.Forwarding

/-!
# A CSR instruction in EX

The CSR module writes in every cycle in which a CSR command is in EX and the
hazard stall is low, whether or not the instruction leaves EX at that edge.  A
CSR instruction therefore takes effect exactly once when, in each cycle of its
stay in EX, the hazard stall is on exactly if the pipeline waits.
-/

namespace KyogenRV

open ScalarOpConstants MemoryOpConstants

namespace KyogenRVCpu

section CsrWrite

variable (s : KyogenRVCpu) (io : HostIf)

/-- EX holds a CSR read-modify-write. -/
def CsrInEx : Prop := s.ex.csrCmd = CSR.w ∨ s.ex.csrCmd = CSR.s ∨ s.ex.csrCmd = CSR.c

/-- Its write is enabled: CSRRW, or a nonzero rs1 field. -/
def csrWriteEnabled : Bool :=
  s.ex.csrCmd == CSR.w || s.ex.csrCmd.getLsbD 1 && IDModule.rs1 s.ex.inst != 0

/-- The value held so far by the CSR that this edge overwrites by software. -/
def csrWritten : List Word :=
  if !s.stall io && !s.expt io && s.csrWriteEnabled then [s.csr.out s.ex.csrAddr] else []

/-- The instruction in ID enters EX at this edge. -/
def Issues : Prop :=
  s.waitrequest io = false ∧ s.instKill io = false ∧ s.holdIssue io = false

end CsrWrite

/-- `csrWritten` is not empty exactly at the edges where the CSR module writes
`wdata`; at all others it traps or only ticks. -/
theorem next_csr_of_csrWritten (s : KyogenRVCpu) (io : HostIf) :
    (s.step io).csr =
      if s.csrWritten io ≠ [] then
        Csr.write s.ex.csrAddr (s.csr.wdata (s.csrPorts io))
          (s.csr.tick (s.csrPorts io) (s.stall io))
      else if !s.stall io && s.expt io then
        s.csr.trap (s.csrPorts io) (s.csr.tick (s.csrPorts io) (s.stall io))
      else s.csr.tick (s.csrPorts io) (s.stall io) := by
  have hwen : Csr.wen (s.csrPorts io) = s.csrWriteEnabled := rfl
  have haddr : (s.csrPorts io).addr = s.ex.csrAddr := rfl
  have hexpt : s.csr.expt (s.csrPorts io) = s.expt io := rfl
  rw [step_csr, Csr.next, hwen, haddr, hexpt, csrWritten]
  cases s.stall io <;> cases s.expt io <;> cases s.csrWriteEnabled <;> rfl

/-- A CSR instruction passes through EX on the committed path without an
exception: it enters with `issue`, waits through `holds` and moves to MEM with
`leave`. -/
structure CsrPass (s : KyogenRVCpu) (issue : HostIf) (holds : List HostIf)
    (leave : HostIf) : Prop where
  issues : s.Issues issue
  instr : (s.step issue).CsrInEx
  held : Machine.Along step (fun t io => t.waitrequest io = true ∧ t.expt io = false)
    (s.step issue) holds
  leaves : (Machine.run step (s.step issue) holds).waitrequest leave = false
  committed : (Machine.run step (s.step issue) holds).instKill leave = false

/-- It performs its write exactly once if the write is enabled and never
otherwise, and it moves on to write to `rd` the value the CSR held before. -/
structure CsrOnce (s : KyogenRVCpu) (holds : List HostIf) (leave : HostIf) : Prop where
  writes : Machine.outputs step csrWritten s (holds ++ [leave]) =
    if s.csrWriteEnabled then
      [(Machine.run step s holds).csr.out s.ex.csrAddr]
    else []
  rd : (Machine.run step s (holds ++ [leave])).mem.ctrl.rfWen = true ∧
    (Machine.run step s (holds ++ [leave])).mem.regWaddr = IDModule.rd s.ex.inst
  result : (Machine.run step s (holds ++ [leave])).memResult =
    some ((Machine.run step s holds).csr.out s.ex.csrAddr)

section Stay

variable {s : KyogenRVCpu} {io leave : HostIf} {holds : List HostIf}

/-- EX does not change while the pipeline waits. -/
theorem ex_of_held
    (hheld : Machine.Along step (fun t io => t.waitrequest io = true) s holds) :
    (Machine.run step s holds).ex = s.ex :=
  Machine.run_invariant (I := fun t => t.ex = s.ex)
    (fun _ _ ht hwait => (stages_of_wait hwait).1.trans ht) rfl hheld

/-- A cycle with a hazard stall writes no CSR. -/
theorem csrWritten_of_stall (hstall : s.stall io = true) : s.csrWritten io = [] := by
  simp [csrWritten, hstall]

/-- Nor does an instruction whose write is not enabled. -/
theorem csrWritten_of_not_enabled (henabled : s.csrWriteEnabled = false) :
    s.csrWritten io = [] := by
  simp [csrWritten, henabled]

theorem outputs_csrWritten_eq_nil
    (hquiet : Machine.Along step (fun t io => t.csrWritten io = []) s holds) :
    Machine.outputs step csrWritten s holds = [] := by
  induction holds generalizing s with
  | nil => rfl
  | cons io holds ih =>
      rw [Machine.outputs_cons, hquiet.1, ih hquiet.2, List.nil_append]

/-- The write stays enabled, or not, while the instruction waits. -/
theorem along_csrWriteEnabled
    (hheld : Machine.Along step (fun t io => t.waitrequest io = true) s holds) :
    Machine.Along step (fun t _ => t.csrWriteEnabled = s.csrWriteEnabled) s holds :=
  Machine.along_of_invariant (I := fun t => t.ex = s.ex)
    (fun _ _ ht hwait => (stages_of_wait hwait).1.trans ht)
    (fun _ _ ht _ => by rw [csrWriteEnabled, csrWriteEnabled, ht]) rfl hheld

/-- The register and immediate forms write the CSR value to `rd`. -/
theorem csrInEx_ctrl (hex : s.ex.Coherent) (hcsr : s.CsrInEx) :
    s.ex.ctrl.rfWen = true ∧ s.ex.ctrl.wbSel = wbCsr := by
  rw [CsrInEx, hex.csrCmd] at hcsr
  rw [hex.ctrl] at hcsr ⊢
  exact idDecode_of_ctrlRows (P := fun ctrl =>
    (ctrl.csrCmd = CSR.w ∨ ctrl.csrCmd = CSR.s ∨ ctrl.csrCmd = CSR.c) →
      ctrl.rfWen = true ∧ ctrl.wbSel = wbCsr) (by decide) s.ex.inst hcsr

end Stay

/-- Every CSR instruction that passes EX after entering it in a reachable state
takes effect exactly once, provided that its write is not enabled or in each
cycle of its stay the hazard stall is on exactly if the pipeline waits. -/
theorem csrPass_once {s : KyogenRVCpu} {issue : HostIf} {holds : List HostIf}
    {leave : HostIf} (hs : s.Reachable) (hpass : s.CsrPass issue holds leave)
    (hcond : (s.step issue).csrWriteEnabled = true →
      Machine.Along step (fun t io => t.stall io = t.waitrequest io)
        (s.step issue) (holds ++ [leave])) :
    (s.step issue).CsrOnce holds leave := by
  obtain ⟨_, hinstr, hheld, hleaves, hcommitted⟩ := hpass
  have hex := (Reachable.coherent (hs.next issue)).ex
  generalize s.step issue = t at *
  have hwaits : Machine.Along step (fun t io => t.waitrequest io = true) t holds :=
    hheld.mono fun _ _ h => h.1
  have hkeep : (Machine.run step t holds).ex = t.ex := ex_of_held hwaits
  have henabledAll := along_csrWriteEnabled hwaits
  set last := Machine.run step t holds with hlast
  have hfree : last.expt leave = false := by
    simp only [instKill, Bool.or_eq_false_iff] at hcommitted
    exact hcommitted.2
  have hsame : last.csrWriteEnabled = t.csrWriteEnabled := by
    rw [csrWriteEnabled, csrWriteEnabled, hkeep]
  have hmem : (last.step leave).mem = last.memIssue leave := by
    simp [memNext, hcommitted, hleaves]
  obtain ⟨hwen, hsel⟩ := csrInEx_ctrl hex hinstr
  refine ⟨?_, ?_, ?_⟩
  · rw [Machine.outputs_append, Machine.outputs_cons, Machine.outputs_nil, List.append_nil,
      ← hlast]
    cases henabled : t.csrWriteEnabled with
    | false =>
        rw [outputs_csrWritten_eq_nil, csrWritten_of_not_enabled (hsame.trans henabled)]
        · rfl
        · exact henabledAll.mono fun _ _ h => csrWritten_of_not_enabled (h.trans henabled)
    | true =>
        obtain ⟨hholds, hstall, _⟩ := Machine.along_append.mp (hcond henabled)
        rw [outputs_csrWritten_eq_nil, List.nil_append]
        · have hgo : last.stall leave = false := hstall.trans hleaves
          simp [csrWritten, hgo, hfree, hsame, henabled, hkeep]
        · exact (hholds.and hwaits).mono fun _ _ h => csrWritten_of_stall (h.1.trans h.2)
  · rw [Machine.run_concat, ← hlast, hmem]
    exact ⟨by rw [memIssue, hkeep, hwen], by rw [memIssue, hkeep, hex.regWaddr]⟩
  · rw [Machine.run_concat, ← hlast, memResult, hmem]
    simp [memIssue, hsel, hkeep]

/-- A `csrrw x5, mscratch, x1` that neither waits nor meets a hazard. -/
theorem csrPass_once_csrrw :
    ((sample [.fetch 0x340092f3]).step (.fetch 0x00000013)).CsrOnce [] .idle :=
  csrPass_once (reachable_sample _)
    ⟨by unfold Issues; decide, Or.inl (by decide +kernel), trivial,
      by decide, by decide +kernel⟩
    fun _ => ⟨by decide +kernel, trivial⟩

/-- The pipeline waits for one cycle. -/
def waiting : HostIf := { HostIf.idle with wWaitrequestSig := true }

/-- With -1 in x1, a `csrrw x5, mscratch, x1` held in EX for one cycle writes twice:
over the 0 that mscratch held, and over the -1 that x5 then receives. -/
theorem csrrw_waiting_writes_twice :
    ¬∀ (s : KyogenRVCpu) (issue : HostIf) (holds : List HostIf) (leave : HostIf),
      s.Reachable → s.CsrPass issue holds leave → (s.step issue).CsrOnce holds leave := by
  intro h
  have honce := h (sample [.fetch 0xfff00093, .fetch 0x340092f3]) (.fetch 0x00000013) [waiting]
    .idle (reachable_sample _)
    ⟨by unfold Issues; decide +kernel, Or.inl (by decide +kernel),
      ⟨by decide +kernel, trivial⟩, by decide +kernel, by decide +kernel⟩
  have hwrites := honce.writes
  revert hwrites
  decide +kernel

end KyogenRVCpu

end KyogenRV
