import KyogenRV.Core.Decode

/-!
# How the stages move

One clock edge moves EX, MEM and WB in one of four ways.  With the case
distinction stated once, every invariant of these stages is proved by following
the four cases.  The first invariant is that the fields of a stage belong to
one instruction word.
-/

namespace KyogenRV

open ScalarOpConstants MemoryOpConstants

namespace KyogenRVCpu

section StepFields

variable (s : KyogenRVCpu) (io : HostIf)

@[simp] theorem step_ifPc : (s.step io).ifPc = (s.ifStage io).ifPc := by
  simp only [step]
@[simp] theorem step_ifNpc : (s.step io).ifNpc = (s.ifStage io).ifNpc := by
  simp only [step]
@[simp] theorem step_id : (s.step io).id = (s.idStage io).id := by
  simp only [step]
@[simp] theorem step_idTemp : (s.step io).idTemp = (s.idStage io).idTemp := by
  simp only [step]
@[simp] theorem step_id2Temp : (s.step io).id2Temp = (s.idStage io).id2Temp := by
  simp only [step]
@[simp] theorem step_tempLock : (s.step io).tempLock = (s.idStage io).tempLock := by
  simp only [step]
@[simp] theorem step_ex : (s.step io).ex = s.exNext io := by
  simp only [step]
@[simp] theorem step_mem : (s.step io).mem = s.memNext io := by
  simp only [step]
@[simp] theorem step_wb : (s.step io).wb = s.wbNext io := by
  simp only [step]
@[simp] theorem step_pcCntr : (s.step io).pcCntr = s.pcCntrNext io := by
  simp only [step]
@[simp] theorem step_wReq : (s.step io).wReq = io.halt := by
  simp only [step]
@[simp] theorem step_imemReadSig : (s.step io).imemReadSig = !s.wReq := by
  simp only [step]
@[simp] theorem step_imemReadSigFetch :
    (s.step io).imemReadSigFetch = s.imemReadSig := by
  simp only [step]
@[simp] theorem step_imemReadSigKill :
    (s.step io).imemReadSigKill = s.imemReadSig := by
  simp only [step]
@[simp] theorem step_delayStall : (s.step io).delayStall = s.delayStallNext := by
  simp only [step]
@[simp] theorem step_validImem : (s.step io).validImem = (s.ifStage io).validImem := by
  simp only [step]
@[simp] theorem step_imemReq : (s.step io).imemReq = (s.ifStage io).imemReq := by
  simp only [step]
@[simp] theorem step_inLoadstore : (s.step io).inLoadstore = s.inLoadstoreNext := by
  simp only [step]
@[simp] theorem step_rv32iReg : (s.step io).rv32iReg = s.rv32iRegNext io := by
  simp only [step]
@[simp] theorem step_interruptSig : (s.step io).interruptSig = io.wInterruptSig := by
  simp only [step]
@[simp] theorem step_csr :
    (s.step io).csr = s.csr.next (s.csrPorts io) (s.stall io) := by
  simp only [step]

end StepFields

/-! ## The four ways EX, MEM and WB move -/

/-- ID may not issue although nothing is killed and nothing waits. -/
def holdIssue (s : KyogenRVCpu) (io : HostIf) : Bool :=
  s.stall io || s.loadstoreProc || s.inLoadstore

/-- What one clock edge does to EX, MEM and WB. -/
inductive StageStep (s : KyogenRVCpu) (io : HostIf) : Prop
  | held (hwait : s.waitrequest io = true)
      (hex : (s.step io).ex = s.ex) (hmem : (s.step io).mem = s.mem)
      (hwb : (s.step io).wb = s.wb)
  | killed (hwait : s.waitrequest io = false) (hkill : s.instKill io = true)
      (hex : (s.step io).ex = .bubble) (hmem : (s.step io).mem = .bubble)
      (hwb : (s.step io).wb = s.wbIssue)
  | drained (hwait : s.waitrequest io = false) (hkill : s.instKill io = false)
      (hhold : s.holdIssue io = true)
      (hex : (s.step io).ex = .bubble) (hmem : (s.step io).mem = s.memIssue io)
      (hwb : (s.step io).wb = s.wbIssue)
  | issued (hwait : s.waitrequest io = false) (hkill : s.instKill io = false)
      (hhold : s.holdIssue io = false)
      (hex : (s.step io).ex = s.exIssue) (hmem : (s.step io).mem = s.memIssue io)
      (hwb : (s.step io).wb = s.wbIssue)

section Stages

variable {s : KyogenRVCpu} {io : HostIf}

/-- While the pipeline waits the stages keep their contents. -/
theorem stages_of_wait (hwait : s.waitrequest io = true) :
    (s.step io).ex = s.ex ∧ (s.step io).mem = s.mem ∧ (s.step io).wb = s.wb := by
  simp [exNext, memNext, wbNext, hwait]

/-- A kill leaves only what goes on to WB. -/
theorem stages_of_kill (hwait : s.waitrequest io = false) (hkill : s.instKill io = true) :
    (s.step io).ex = .bubble ∧ (s.step io).mem = .bubble ∧ (s.step io).wb = s.wbIssue := by
  simp [exNext, memNext, wbNext, hwait, hkill]

/-- Otherwise the stages move on, and EX takes ID unless ID is held. -/
theorem stages_of_move (hwait : s.waitrequest io = false) (hkill : s.instKill io = false) :
    (s.step io).ex = (if s.holdIssue io then .bubble else s.exIssue) ∧
      (s.step io).mem = s.memIssue io ∧ (s.step io).wb = s.wbIssue := by
  refine ⟨?_, by simp [memNext, hwait, hkill], by simp [wbNext, hwait]⟩
  rw [step_ex, exNext, holdIssue, hwait, hkill]
  cases s.stall io <;> cases s.loadstoreProc <;> cases s.inLoadstore <;> rfl

theorem stageStep (s : KyogenRVCpu) (io : HostIf) : StageStep s io := by
  cases hwait : s.waitrequest io with
  | true =>
      obtain ⟨hex, hmem, hwb⟩ := stages_of_wait hwait
      exact .held hwait hex hmem hwb
  | false =>
      cases hkill : s.instKill io with
      | true =>
          obtain ⟨hex, hmem, hwb⟩ := stages_of_kill hwait hkill
          exact .killed hwait hkill hex hmem hwb
      | false =>
          obtain ⟨hex, hmem, hwb⟩ := stages_of_move hwait hkill
          cases hhold : s.holdIssue io with
          | true =>
              rw [hhold, if_pos rfl] at hex
              exact .drained hwait hkill hhold hex hmem hwb
          | false =>
              rw [hhold, if_neg Bool.false_ne_true] at hex
              exact .issued hwait hkill hhold hex hmem hwb

theorem wb_of_move (hwait : s.waitrequest io = false) : (s.step io).wb = s.wbIssue := by
  rw [step_wb, wbNext, hwait]
  rfl

/-- EX is emptied, takes the instruction in ID or keeps its contents. -/
theorem ex_step_forall {P : ExStage → Prop} (hbubble : P .bubble) (hissue : P s.exIssue)
    (hex : P s.ex) : P (s.step io).ex := by
  cases s.stageStep io with
  | held _ hex' _ _ => rw [hex']; exact hex
  | killed _ _ hex' _ _ | drained _ _ _ hex' _ _ => rw [hex']; exact hbubble
  | issued _ _ _ hex' _ _ => rw [hex']; exact hissue

/-- MEM is emptied, takes the results of EX or keeps its contents. -/
theorem mem_step_forall {P : MemStage → Prop} (hbubble : P .bubble)
    (hissue : s.instKill io = false → P (s.memIssue io)) (hmem : P s.mem) :
    P (s.step io).mem := by
  cases s.stageStep io with
  | held _ _ hmem' _ => rw [hmem']; exact hmem
  | killed _ _ _ hmem' _ => rw [hmem']; exact hbubble
  | drained _ hkill _ _ hmem' _ | issued _ hkill _ _ hmem' _ => rw [hmem']; exact hissue hkill

/-- WB takes the contents of MEM or keeps its own. -/
theorem wb_step_forall {P : WbStage → Prop} (hissue : P s.wbIssue) (hwb : P s.wb) :
    P (s.step io).wb := by
  rw [step_wb, wbNext]
  split_ifs
  · exact hissue
  · exact hwb

end Stages

/-! ## What the ID stage holds -/

section IdStage

variable {s : KyogenRVCpu} {io : HostIf} {P : Slot → Prop}

theorem restored_of_bubble (htemp : s.idTemp = .bubble) : s.restored = .bubble := by
  simp [restored, htemp, Slot.bubble]

/-- What holds of the bubble, of a word that is taken from the instruction port
and of what ID and the save registers hold, holds of the next ID and of the
next saved instruction. -/
theorem idStage_forall (hbubble : P .bubble)
    (hfetched : io.rImemAck = true → (s.imemReq = true → s.validImem = true) → P (s.fetched io))
    (hrestored : P s.restored) (hid : P s.id) (htemp : P s.idTemp)
    (htemp2 : s.inLoadstore = true → P s.id2Temp) :
    P (s.idStage io).id ∧ P (s.idStage io).idTemp := by
  have hvalid (h : s.validIdInst io = true) : P (s.fetched io) := by
    rw [validIdInst, Bool.and_eq_true] at h
    exact hfetched h.2 fun _ => h.1
  have hsave : P (s.idSave io).id ∧ P (s.idSave io).idTemp := by
    rw [idSave]
    split_ifs with hlate
    · simp only [Bool.and_eq_true, Bool.not_eq_true'] at hlate
      obtain ⟨⟨⟨-, hreq⟩, hack⟩, -⟩ := hlate
      exact ⟨hbubble, hfetched hack fun h => absurd (hreq.symm.trans h) Bool.false_ne_true⟩
    · exact ⟨hid, htemp⟩
  rw [idStage]
  split_ifs with hlocked htaken _ _ hls _
  · simp only [Bool.and_eq_true] at hlocked
    exact ⟨hsave.1, hvalid hlocked.1.1.2⟩
  · simp only [Bool.and_eq_true] at htaken
    exact ⟨hvalid htaken.1.1.1.1, hsave.2⟩
  · exact ⟨hbubble, hbubble⟩
  · exact ⟨htemp2 hls, hsave.2⟩
  · exact ⟨hrestored, hbubble⟩
  · exact hsave
  · exact ⟨hid, hsave.2⟩

theorem idStage_id2Temp_forall (hbubble : P .bubble) (hid : P s.id) (htemp2 : P s.id2Temp) :
    P (s.idStage io).id2Temp := by
  have hsave : P (s.idSave io).id2Temp := by
    rw [idSave]
    split_ifs
    · exact hid
    · exact htemp2
  rw [idStage]
  split_ifs
  · exact hid
  · exact hsave
  · exact hbubble
  · exact hsave
  · exact hbubble
  · exact hsave
  · exact hsave

end IdStage

end KyogenRVCpu

/-! ## Stage contents belong to one instruction word -/

/-- Apart from the operands, the fields of EX are those of its word. -/
structure ExStage.Coherent (ex : ExStage) : Prop where
  ctrl : ex.ctrl = idDecode ex.inst
  regRaddr1 : ex.regRaddr1 = IDModule.rs1 ex.inst
  regRaddr2 : ex.regRaddr2 = IDModule.rs2 ex.inst
  regWaddr : ex.regWaddr = IDModule.rd ex.inst
  csrAddr : ex.csrAddr = IDModule.csr ex.inst
  csrCmd : ex.csrCmd = ex.ctrl.csrCmd
  bCheck : ex.bCheck = decide (ex.ctrl.brType > 3)
  jCheck : ex.jCheck = (ex.ctrl.brType == brJ || ex.ctrl.brType == brJr)

theorem ExStage.coherent_bubble : ExStage.bubble.Coherent := by
  constructor <;> decide

theorem KyogenRVCpu.exIssue_coherent (s : KyogenRVCpu) : s.exIssue.Coherent where
  ctrl := rfl
  regRaddr1 := rfl
  regRaddr2 := rfl
  regWaddr := rfl
  csrAddr := rfl
  csrCmd := rfl
  bCheck := by rw [exIssue]
  jCheck := by rw [exIssue]

/-- A control bundle and a destination decoded from one word. -/
def DecodedFrom (ctrl : IntCtrlSigs) (regWaddr : BitVec 5) : Prop :=
  ∃ inst, ctrl = idDecode inst ∧ regWaddr = IDModule.rd inst

theorem decodedFrom_nop : DecodedFrom nopCtrl 0 :=
  ⟨Instructions.nop, rfl, by decide⟩

theorem KyogenRVCpu.nop_noAccess : nopCtrl.memWr = mX := by decide

theorem KyogenRVCpu.nop_noTransfer : nopCtrl.brType = brN := by decide

theorem ExStage.Coherent.decodedFrom {ex : ExStage} (hex : ex.Coherent) :
    DecodedFrom ex.ctrl ex.regWaddr :=
  ⟨ex.inst, hex.ctrl, hex.regWaddr⟩

namespace KyogenRVCpu

/-- Each stage holds the decoded fields of some instruction word. -/
structure Coherent (s : KyogenRVCpu) : Prop where
  ex : s.ex.Coherent
  mem : DecodedFrom s.mem.ctrl s.mem.regWaddr
  wb : DecodedFrom s.wb.ctrl s.wb.regWaddr

theorem coherent_reset {s : KyogenRVCpu} (hs : s.IsReset) : s.Coherent := by
  obtain ⟨_, _, _, _, _, _, _, rfl⟩ := hs
  exact ⟨ExStage.coherent_bubble, decodedFrom_nop, decodedFrom_nop⟩

theorem coherent_step {s : KyogenRVCpu} (hs : s.Coherent) (io : HostIf) :
    (s.step io).Coherent where
  ex := ex_step_forall (P := ExStage.Coherent) ExStage.coherent_bubble s.exIssue_coherent hs.ex
  mem := mem_step_forall (P := fun mem => DecodedFrom mem.ctrl mem.regWaddr) decodedFrom_nop
    (fun _ => hs.ex.decodedFrom) hs.mem
  wb := wb_step_forall (P := fun wb => DecodedFrom wb.ctrl wb.regWaddr) hs.mem hs.wb

theorem Reachable.coherent {s : KyogenRVCpu} (hs : s.Reachable) : s.Coherent :=
  Machine.Reachable.invariant (fun _ => coherent_reset)
    (fun _ io h => coherent_step h io) hs

end KyogenRVCpu

/-! ## The next pc goes along with the pc -/

/-- The slot holds its pc and the next one. -/
def Slot.Paired (slot : Slot) : Prop := slot.npc = slot.pc + 4

theorem Slot.paired_bubble : Slot.bubble.Paired := rfl

namespace KyogenRVCpu

/-- Every pc on its way to EX is followed by its next pc. -/
structure PcPaired (s : KyogenRVCpu) : Prop where
  fetch : s.ifNpc = s.ifPc + 4
  id : s.id.Paired
  idTemp : s.idTemp.Paired
  id2Temp : s.id2Temp.Paired
  ex : s.ex.npc = s.ex.pc + 4

theorem pcPaired_reset {s : KyogenRVCpu} (hs : s.IsReset) : s.PcPaired := by
  obtain ⟨_, _, _, _, _, _, _, rfl⟩ := hs
  exact ⟨rfl, rfl, rfl, rfl, rfl⟩

section Paired

variable {s : KyogenRVCpu} {io : HostIf}

theorem PcPaired.restored (hs : s.PcPaired) : s.restored.Paired := by
  rw [KyogenRVCpu.restored]
  split_ifs
  · exact congrArg (· + 4) hs.idTemp
  · exact hs.idTemp

theorem PcPaired.idStage (hs : s.PcPaired) :
    (s.idStage io).id.Paired ∧ (s.idStage io).idTemp.Paired ∧ (s.idStage io).id2Temp.Paired := by
  obtain ⟨hid, htemp⟩ := idStage_forall (P := Slot.Paired) (s := s) Slot.paired_bubble
    (fun _ _ => hs.fetch) hs.restored hs.id hs.idTemp fun _ => hs.id2Temp
  exact ⟨hid, htemp, idStage_id2Temp_forall Slot.paired_bubble hs.id hs.id2Temp⟩

theorem pcPaired_step (hs : s.PcPaired) (io : HostIf) : (s.step io).PcPaired where
  fetch := by
    rw [step_ifPc, step_ifNpc, ifStage]
    split_ifs
    · rfl
    · rfl
    · exact hs.fetch
    · exact hs.fetch
  id := by rw [step_id]; exact hs.idStage.1
  idTemp := by rw [step_idTemp]; exact hs.idStage.2.1
  id2Temp := by rw [step_id2Temp]; exact hs.idStage.2.2
  ex := ex_step_forall (P := fun ex => ex.npc = ex.pc + 4) rfl hs.id hs.ex

end Paired

theorem Reachable.pcPaired {s : KyogenRVCpu} (hs : s.Reachable) : s.PcPaired :=
  Machine.Reachable.invariant (fun _ => pcPaired_reset) (fun _ io h => pcPaired_step h io) hs

end KyogenRVCpu

end KyogenRV
