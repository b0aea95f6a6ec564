import KyogenRV.Core.CpuBus
import KyogenRV.Core.Redirect
import KyogenRV.Isa.Rv32i

/-!
# The front end

Between the instruction memory and EX stand the fetch stage, ID and two save
registers.  Without a kill and without a data access around, one clock edge
treats the word on the instruction port in one of five ways, of which one drops
it.  In the other four the front end keeps delivering the consecutive words of
the image.
-/

namespace KyogenRV

open ScalarOpConstants MemoryOpConstants

theorem misaligned_eq_false_iff (addr : Word) :
    Csr.misaligned addr = false ↔ addr.extractLsb' 0 2 = 0 := by
  rw [Csr.misaligned, bne_eq_false_iff_eq]

theorem misaligned_add_four (addr : Word) : Csr.misaligned (addr + 4) = Csr.misaligned addr := by
  rw [Csr.misaligned, Rv32i.add_four_aligned, Csr.misaligned]

namespace KyogenRVCpu

/-! ## One edge of the front end -/

/-- ID cannot take the next instruction. -/
def holdId (s : KyogenRVCpu) (io : HostIf) : Bool := s.stall io || s.waitrequest io

section Front

variable {s : KyogenRVCpu} {io : HostIf}

theorem holdIssue_of_hold (hhold : s.holdId io = true) (hwait : s.waitrequest io = false) :
    s.holdIssue io = true := by
  rw [holdId, hwait, Bool.or_false] at hhold
  rw [holdIssue, hhold]
  rfl

theorem idSave_of_req (io : HostIf) (hreq : s.imemReq = true) :
    s.idSave io = ⟨s.id, s.idTemp, s.id2Temp, s.tempLock && !io.rImemAck⟩ := by
  simp [idSave, hreq]

/-- A word on the port enters ID. -/
theorem id_of_taken (hreq : s.imemReq = true) (hkill : s.instKill io = false)
    (hvalid : s.validIdInst io = true) (hgo : s.holdId io = false) :
    (s.step io).id = s.fetched io ∧ (s.step io).idTemp = s.idTemp := by
  obtain ⟨hstall, hwait⟩ := Bool.or_eq_false_iff.mp hgo
  constructor <;>
    simp [idStage, hreq, hkill, hvalid, hstall, hwait, idSave_of_req io hreq]

/-- A word that ID cannot take is saved, unless the lock is on. -/
theorem id_of_saved (hreq : s.imemReq = true) (hkill : s.instKill io = false)
    (hvalid : s.validIdInst io = true) (hhold : s.holdId io = true)
    (hlock : s.tempLock = false) :
    (s.step io).id = s.id ∧ (s.step io).idTemp = s.fetched io ∧
      (s.step io).id2Temp = s.id := by
  refine ⟨?_, ?_, ?_⟩ <;> rcases Bool.or_eq_true_iff.mp hhold with hheld | hheld <;>
    simp [idStage, hreq, hkill, hvalid, hlock, hheld, idSave_of_req io hreq]

theorem restored_congr {t : KyogenRVCpu} (htemp : t.idTemp = s.idTemp)
    (htemp2 : t.id2Temp = s.id2Temp) : t.restored = s.restored := by
  rw [restored, htemp, htemp2, restored]

/-- A word saved beside an instruction at another address comes back as it is. -/
theorem restored_of_saved {slot : Slot} (htemp : s.idTemp = slot)
    (hother : s.id2Temp.pc = slot.pc → slot.pc = pcStart) : s.restored = slot := by
  rw [restored, htemp]
  refine if_neg fun hsame => ?_
  rw [Bool.and_eq_true, beq_iff_eq, bne_iff_ne] at hsame
  exact hsame.2 (hother hsame.1)

/-- Saved with the pc of that instruction it comes back as the next one. -/
theorem restored_of_late {slot : Slot} (htemp : s.idTemp = slot) (hsame : s.id2Temp.pc = slot.pc)
    (hpos : slot.pc ≠ pcStart) : s.restored = ⟨slot.pc + 4, slot.npc + 4, slot.inst⟩ := by
  rw [restored, htemp]
  refine if_pos ?_
  rw [Bool.and_eq_true, beq_iff_eq, bne_iff_ne]
  exact ⟨hsame, hpos⟩

/-- Without an access in MEM none is remembered, or the request forgets it. -/
theorem inLoadstore_of_noAccess (hmem : s.mem.ctrl.memWr = mX)
    (hforgets : s.inLoadstore = false ∨ s.imemReq = true) : (s.step io).inLoadstore = false := by
  rw [step_inLoadstore, inLoadstoreNext, hmem, bne_self_eq_false, if_neg Bool.false_ne_true]
  rcases hforgets with hls | hreq
  · rw [hls, ite_self]
  · rw [hreq, if_pos rfl]

/-- Without a word on the port ID takes the saved one. -/
theorem id_of_restored (hreq : s.imemReq = true) (hkill : s.instKill io = false)
    (hls : s.inLoadstore = false) (hinvalid : s.validIdInst io = false)
    (hgo : s.holdId io = false) :
    (s.step io).id = s.restored ∧ (s.step io).idTemp = .bubble := by
  obtain ⟨hstall, hwait⟩ := Bool.or_eq_false_iff.mp hgo
  constructor <;>
    simp [idStage, hreq, hkill, hinvalid, hstall, hwait, hls, idSave_of_req io hreq]

theorem id_of_kept (hreq : s.imemReq = true) (hkill : s.instKill io = false)
    (hls : s.inLoadstore = false) (hinvalid : s.validIdInst io = false)
    (hhold : s.holdId io = true) :
    (s.step io).id = s.id ∧ (s.step io).idTemp = s.idTemp ∧
      (s.step io).id2Temp = s.id2Temp := by
  have hsave := idSave_of_req io hreq
  refine ⟨?_, ?_, ?_⟩ <;> cases hstall : s.stall io <;> cases hwait : s.waitrequest io <;>
    simp_all [idStage, holdId]

/-- While ID is held it keeps its instruction. -/
theorem id_of_hold (hkill : s.instKill io = false) (hls : s.inLoadstore = false)
    (hhold : s.holdId io = true) : (s.step io).id = s.id := by
  rw [step_id, idStage]
  cases hreq : s.imemReq with
  | false => simp
  | true =>
      rw [idSave_of_req io hreq, hkill, hls]
      rcases Bool.or_eq_true_iff.mp hhold with hheld | hheld <;> rw [hheld] <;> split_ifs <;>
        simp_all

/-- The fetch stage and `pc_cntr` while ID can take an instruction. -/
theorem ifStage_of_go (hgo : s.holdId io = false) (hkill : s.instKill io = false)
    (hpipe : s.loadstoreInPipe = false) :
    s.ifStage io = ⟨s.pcCntr, s.pcCntr + 4, s.imemReadSigFetch, true⟩ := by
  obtain ⟨hstall, hwait⟩ := Bool.or_eq_false_iff.mp hgo
  simp [ifStage, hstall, hwait, hkill, hpipe]

/-- An edge at which ID can take an instruction raises the request. -/
theorem imemReq_of_go (hboot : s.BootInv) (hgo : s.holdId io = false)
    (hkill : s.instKill io = false) (hpipe : s.loadstoreInPipe = false) :
    (s.step io).imemReq = true := by
  rw [step_imemReq, ifStage_of_go hgo hkill hpipe]
  exact hboot.readSigFetch (Bool.or_eq_false_iff.mp hgo).1

theorem ifStage_of_hold (hhold : s.holdId io = true) (hkill : s.instKill io = false)
    (hpipe : s.loadstoreInPipe = false) :
    s.ifStage io = ⟨s.ifPc, s.ifNpc, s.imemReq, false⟩ := by
  rcases Bool.or_eq_true_iff.mp hhold with hheld | hheld <;>
    simp [ifStage, hheld, hkill, hpipe]

theorem pcTarget_of_not_kill (hkill : s.instKill io = false) : s.pcTarget io = s.pcCntr + 4 := by
  simp only [instKill, instKillBranch, Bool.or_eq_false_iff] at hkill
  obtain ⟨⟨⟨⟨htaken, hjr⟩, hj⟩, hret⟩, hexpt⟩ := hkill
  simp only [pcTarget, hexpt, hret, htaken, hj, hjr, Bool.false_eq_true, if_false]

theorem pcCntr_of_go (hhalt : io.halt = false) (hreq : s.imemReq = true)
    (hgo : s.holdId io = false) (hkill : s.instKill io = false) :
    (s.step io).pcCntr = s.pcCntr + 4 := by
  obtain ⟨hstall, hwait⟩ := Bool.or_eq_false_iff.mp hgo
  simp [pcCntrNext, hhalt, hreq, hstall, hwait, pcTarget_of_not_kill hkill]

theorem pcCntr_of_hold (hhalt : io.halt = false) (hhold : s.holdId io = true) :
    (s.step io).pcCntr = s.pcCntr := by
  rcases Bool.or_eq_true_iff.mp hhold with hheld | hheld <;> simp [pcCntrNext, hhalt, hheld]

/-- While ID is held the fetch stage keeps its request and offers no word. -/
theorem ifStep_of_hold (hhold : s.holdId io = true) (hkill : s.instKill io = false)
    (hpipe : s.loadstoreInPipe = false) :
    (s.step io).imemReq = s.imemReq ∧ (s.step io).validImem = false := by
  have hif := ifStage_of_hold hhold hkill hpipe
  rw [step_imemReq, step_validImem, hif]
  exact ⟨rfl, rfl⟩

/-- The empty slot issues the empty EX stage. -/
theorem exIssue_of_bubble (hid : s.id = .bubble) : s.exIssue = .bubble := by
  have hread : s.readReg 0 = 0 := rfl
  have hfields : IDModule.rs1 Instructions.nop = 0 ∧ IDModule.rs2 Instructions.nop = 0 ∧
      IDModule.rd Instructions.nop = 0 ∧ IDModule.csr Instructions.nop = 0 ∧
      nopCtrl.csrCmd = 0 ∧ nopCtrl.brType = brN := by decide
  obtain ⟨hrs1, hrs2, hrd, hcsr, hcmd, hbr⟩ := hfields
  have hctrl : idDecode Instructions.nop = nopCtrl := rfl
  simp only [exIssue, idCtrl, idRaddr1, idRaddr2, hid, Slot.bubble, hrs1, hrs2, hrd, hcsr, hctrl,
    hcmd, hbr, hread]
  rfl

end Front

end KyogenRVCpu

namespace CpuBus

/-! ## The image -/

/-- The instruction memory at an address. -/
def image (b : CpuBus) (addr : Word) : Word := b.imem.word (Banks.addrAlign addr)

/-- The instruction at an address. -/
def slotAt (b : CpuBus) (addr : Word) : Slot := ⟨addr, addr + 4, b.image addr⟩

/-- After release the core is not in halt and the image is not written. -/
structure Running (b : CpuBus) : Prop where
  swHalt : b.swHalt = false
  wReq : b.cpu.wReq = false
  reachable : b.cpu.Reachable
  boot : b.cpu.BootInv

section Image

variable {b : CpuBus} {sw : TestIf}

theorem running_step (hb : b.Running) (hhalt : sw.halt = false) : (b.step sw).Running where
  swHalt := hhalt
  wReq := by simpa [step, hostIf] using hb.swHalt
  reachable := hb.reachable.next _
  boot := KyogenRVCpu.bootInv_step hb.boot _ (Or.inl hb.swHalt)

/-- What the instruction memory does while it is not written. -/
theorem imem_step (hb : b.Running) (sw : TestIf) :
    (b.step sw).imem.rAck = (b.cpu.imemReq && decide (b.cpu.pcCntr ≤ 0x3000)) ∧
      (b.step sw).imem.word = b.imem.word ∧
      ((b.step sw).imem.rAck = true →
        (b.step sw).imem.rAddr = Banks.addrAlign b.cpu.pcCntr) := by
  have haddr : b.imemReq.addr = b.cpu.pcCntr := by simp [imemReq, KyogenRVCpu.imemAddr, hb.wReq]
  have hread : Banks.acceptRead b.imemReq =
      (b.cpu.imemReq && decide (b.cpu.pcCntr ≤ 0x3000)) := by
    rw [Banks.acceptRead, Banks.validAddress, haddr]
    rfl
  have hwrite : Banks.acceptWrite b.imemReq = false := by
    simp [Banks.acceptWrite, imemReq, hb.wReq]
  have hstep : (b.step sw).imem = b.imem.step b.imemReq := rfl
  rw [hstep, Banks.step, hread, hwrite]
  cases b.cpu.imemReq && decide (b.cpu.pcCntr ≤ 0x3000) with
  | false => exact ⟨rfl, rfl, fun h => Bool.noConfusion h⟩
  | true => exact ⟨rfl, rfl, fun _ => by rw [if_pos rfl, haddr]; rfl⟩

theorem rAck_of_noReq (hb : b.Running) (hreq : b.cpu.imemReq = false) :
    (b.step sw).imem.rAck = false := by
  rw [(imem_step hb sw).1, hreq, Bool.false_and]

theorem rAck_of_req (hb : b.Running) (hreq : b.cpu.imemReq = true)
    (hrange : b.cpu.pcCntr ≤ 0x3000) : (b.step sw).imem.rAck = true := by
  rw [(imem_step hb sw).1, hreq, decide_eq_true hrange, Bool.and_self]

theorem rAck_of_beyond (hb : b.Running) (hpc : 0x3000 < b.cpu.pcCntr) :
    (b.step sw).imem.rAck = false := by
  rw [(imem_step hb sw).1, decide_eq_false (BitVec.not_le.mpr hpc), Bool.and_false]

/-- While ID is held the fetch stays where it is and offers no word. -/
theorem fetch_of_hold (hb : b.Running) (hhold : b.cpu.holdId (b.hostIf sw) = true)
    (hkill : b.cpu.instKill (b.hostIf sw) = false) (hpipe : b.cpu.loadstoreInPipe = false) :
    (b.step sw).cpu.imemReq = b.cpu.imemReq ∧
      ((b.step sw).cpu.validImem && (b.step sw).imem.rAck) = false ∧
      (b.step sw).cpu.pcCntr = b.cpu.pcCntr := by
  obtain ⟨hreq', hvalid'⟩ := KyogenRVCpu.ifStep_of_hold hhold hkill hpipe
  have hport : ((b.step sw).cpu.validImem && (b.step sw).imem.rAck) = false := by
    rw [step_cpu, hvalid', Bool.false_and]
  exact ⟨hreq', hport, KyogenRVCpu.pcCntr_of_hold hb.swHalt hhold⟩

/-- Without a kill a fetch beyond the memory stays beyond it. -/
theorem beyond_step (hb : b.Running) (hkill : b.cpu.instKill (b.hostIf sw) = false)
    (hwrap : b.cpu.pcCntr < 0xfffffffc) (hpc : 0x3000 < b.cpu.pcCntr) :
    0x3000 < (b.step sw).cpu.pcCntr := by
  have hhalt : (b.hostIf sw).halt = false := hb.swHalt
  rw [step_cpu, KyogenRVCpu.step_pcCntr, KyogenRVCpu.pcCntrNext, hhalt,
    KyogenRVCpu.pcTarget_of_not_kill hkill, if_neg Bool.false_ne_true]
  split_ifs
  · bv_omega
  · exact hpc

theorem image_step (hb : b.Running) (sw : TestIf) : (b.step sw).image = b.image := by
  funext addr
  rw [image, image, (imem_step hb sw).2.1]

theorem slotAt_step (hb : b.Running) (sw : TestIf) : (b.step sw).slotAt = b.slotAt := by
  funext addr
  rw [slotAt, image_step hb, slotAt]

end Image

/-! ## Delivering consecutive words -/

/-- The word at `c` is on the port, or the fetch has run beyond the memory. -/
inductive Streaming (b : CpuBus) (c : Word) : Prop
  | stream (hreq : b.cpu.imemReq = true) (hvalid : b.cpu.validImem = true)
      (hack : b.imem.rAck = true) (hword : b.imem.rAddr = Banks.addrAlign c)
      (hifPc : b.cpu.ifPc = c) (hifNpc : b.cpu.ifNpc = c + 4)
      (htemp : b.cpu.idTemp = .bubble) (hpc : b.cpu.pcCntr = c + 4) (hrange : c ≤ 0x3000)
  | beyond (hreq : b.cpu.imemReq = true) (hinvalid : (b.cpu.validImem && b.imem.rAck) = false)
      (htemp : b.cpu.idTemp = .bubble) (hpc : 0x3000 < b.cpu.pcCntr) (hrange : 0x3000 < c)

/-- The next word that ID receives is the one at `c`: the fetch has it, it is in
the save register, or it is still to be fetched. -/
inductive FetchAt (b : CpuBus) (c : Word) : Prop
  | boot (hreq : b.cpu.imemReq = false) (hack : b.imem.rAck = false)
      (hid : b.cpu.id = .bubble) (htemp : b.cpu.idTemp = .bubble) (hpc : b.cpu.pcCntr = c)
  | streaming (hstream : b.Streaming c)
  | saved (hreq : b.cpu.imemReq = true) (hinvalid : (b.cpu.validImem && b.imem.rAck) = false)
      (htemp : b.cpu.restored = b.slotAt c) (hpc : b.cpu.pcCntr = c + 4) (hrange : c ≤ 0x3000)
  | empty (hreq : b.cpu.imemReq = true) (hinvalid : (b.cpu.validImem && b.imem.rAck) = false)
      (htemp : b.cpu.idTemp = .bubble) (hpc : b.cpu.pcCntr = c)

section Deliver

variable {b : CpuBus} {sw : TestIf} {c : Word}

theorem fetched_of_stream (hword : b.imem.rAddr = Banks.addrAlign c) (hifPc : b.cpu.ifPc = c)
    (hifNpc : b.cpu.ifNpc = c + 4) : b.cpu.fetched (b.hostIf sw) = b.slotAt c := by
  rw [KyogenRVCpu.fetched, hifPc, hifNpc, slotAt, image, ← hword]
  rfl

/-- With the request up, an edge at which ID can take an instruction fetches
the word at `pc_cntr`. -/
theorem streaming_of_go (hb : b.Running) (hreq : b.cpu.imemReq = true)
    (hgo : b.cpu.holdId (b.hostIf sw) = false) (hkill : b.cpu.instKill (b.hostIf sw) = false)
    (hpipe : b.cpu.loadstoreInPipe = false) (hwrap : b.cpu.pcCntr < 0xfffffffc)
    (htemp : (b.step sw).cpu.idTemp = .bubble)
    (hc : c = b.cpu.pcCntr ∨ 0x3000 < c ∧ 0x3000 < b.cpu.pcCntr) : (b.step sw).Streaming c := by
  have hif := KyogenRVCpu.ifStage_of_go hgo hkill hpipe
  have hreq' := KyogenRVCpu.imemReq_of_go hb.boot hgo hkill hpipe
  have hvalid' : (b.step sw).cpu.validImem = true := by
    rw [step_cpu, KyogenRVCpu.step_validImem, hif]
  have hpc' : (b.step sw).cpu.pcCntr = b.cpu.pcCntr + 4 :=
    KyogenRVCpu.pcCntr_of_go hb.swHalt hreq hgo hkill
  obtain ⟨hack, _, hword⟩ := imem_step hb sw
  rw [hreq, Bool.true_and] at hack
  by_cases hrange : b.cpu.pcCntr ≤ 0x3000
  · rw [decide_eq_true hrange] at hack
    obtain rfl := hc.resolve_right fun h => absurd hrange (BitVec.not_le.mpr h.2)
    refine .stream hreq' hvalid' hack (hword hack) ?_ ?_ htemp hpc' hrange
    · rw [step_cpu, KyogenRVCpu.step_ifPc, hif]
    · rw [step_cpu, KyogenRVCpu.step_ifNpc, hif]
  · rw [decide_eq_false hrange] at hack
    have hbeyond : 0x3000 < b.cpu.pcCntr := BitVec.not_le.mp hrange
    refine .beyond hreq' (by rw [hack, Bool.and_false]) htemp
      (beyond_step hb hkill hwrap hbeyond) ?_
    rcases hc with rfl | hc
    · exact hbeyond
    · exact hc.1

/-- Before the first fetch ID stays empty. -/
theorem id_of_boot (sw : TestIf) (hreq : b.cpu.imemReq = false) (hack : b.imem.rAck = false) :
    (b.step sw).cpu.id = b.cpu.id ∧ (b.step sw).cpu.idTemp = b.cpu.idTemp := by
  have hack' : (b.hostIf sw).rImemAck = false := hack
  have hsave : b.cpu.idSave (b.hostIf sw) =
      ⟨b.cpu.id, b.cpu.idTemp, b.cpu.id2Temp, b.cpu.tempLock⟩ := by
    simp [KyogenRVCpu.idSave, hack']
  rw [step_cpu, KyogenRVCpu.step_id, KyogenRVCpu.step_idTemp, KyogenRVCpu.idStage, hsave]
  simp [hreq]

/-- When ID can take an instruction, it takes the word at `c` or none, and the
fetch moves on. -/
theorem fetchAt_advance (hb : b.Running) (hfetch : b.FetchAt c)
    (hgo : b.cpu.holdId (b.hostIf sw) = false) (hkill : b.cpu.instKill (b.hostIf sw) = false)
    (hpipe : b.cpu.loadstoreInPipe = false) (hls : b.cpu.inLoadstore = false)
    (hwrap : 0x3000 < c → b.cpu.pcCntr < 0xfffffffc) :
    (b.step sw).cpu.id = b.slotAt c ∧ c ≤ 0x3000 ∧ (b.step sw).Streaming (c + 4) ∨
      (b.step sw).cpu.id = .bubble ∧ (b.step sw).FetchAt c ∧
        (b.cpu.imemReq = true → (b.step sw).Streaming c) := by
  have hsmall (hrange : c ≤ 0x3000) : c + 4 < 0xfffffffc ∧ c < 0xfffffffc := by
    constructor <;> bv_omega
  have hnone (hid : (b.step sw).cpu.id = .bubble) (hstream : (b.step sw).Streaming c) :
      (b.step sw).cpu.id = .bubble ∧ (b.step sw).FetchAt c ∧
        (b.cpu.imemReq = true → (b.step sw).Streaming c) :=
    ⟨hid, .streaming hstream, fun _ => hstream⟩
  cases hfetch with
  | boot hreq hack hid htemp hpc =>
      obtain ⟨hid', htemp'⟩ := id_of_boot sw hreq hack
      refine Or.inr ⟨hid'.trans hid, .empty ?_ ?_ (htemp'.trans htemp) ?_, fun h => ?_⟩
      · exact KyogenRVCpu.imemReq_of_go hb.boot hgo hkill hpipe
      · rw [rAck_of_noReq hb hreq, Bool.and_false]
      · rw [step, KyogenRVCpu.step_pcCntr, KyogenRVCpu.pcCntrNext, hreq]
        simpa [hb.swHalt, hostIf] using hpc
      · exact absurd (hreq.symm.trans h) Bool.false_ne_true
  | streaming hstream =>
      cases hstream with
      | stream hreq hvalid hack hword hifPc hifNpc htemp hpc hrange =>
          have hport : b.cpu.validIdInst (b.hostIf sw) = true :=
            Bool.and_eq_true_iff.mpr ⟨hvalid, hack⟩
          obtain ⟨hid, htemp'⟩ := KyogenRVCpu.id_of_taken hreq hkill hport hgo
          refine Or.inl ⟨hid.trans (fetched_of_stream hword hifPc hifNpc), hrange, ?_⟩
          exact streaming_of_go hb hreq hgo hkill hpipe (by rw [hpc]; exact (hsmall hrange).1)
            (htemp'.trans htemp) (Or.inl hpc.symm)
      | beyond hreq hinvalid htemp hpc hrange =>
          obtain ⟨hid, htemp'⟩ := KyogenRVCpu.id_of_restored hreq hkill hls hinvalid hgo
          exact Or.inr (hnone (hid.trans (KyogenRVCpu.restored_of_bubble htemp))
            (streaming_of_go hb hreq hgo hkill hpipe (hwrap hrange) htemp'
              (Or.inr ⟨hrange, hpc⟩)))
  | saved hreq hinvalid htemp hpc hrange =>
      obtain ⟨hid, htemp'⟩ := KyogenRVCpu.id_of_restored hreq hkill hls hinvalid hgo
      refine Or.inl ⟨hid.trans htemp, hrange, ?_⟩
      exact streaming_of_go hb hreq hgo hkill hpipe (by rw [hpc]; exact (hsmall hrange).1) htemp'
        (Or.inl hpc.symm)
  | empty hreq hinvalid htemp hpc =>
      obtain ⟨hid, htemp'⟩ := KyogenRVCpu.id_of_restored hreq hkill hls hinvalid hgo
      refine Or.inr (hnone (hid.trans (KyogenRVCpu.restored_of_bubble htemp)) ?_)
      refine streaming_of_go hb hreq hgo hkill hpipe ?_ htemp' (Or.inl hpc.symm)
      by_cases hrange : c ≤ 0x3000
      · rw [hpc]
        exact (hsmall hrange).2
      · exact hwrap (BitVec.not_le.mp hrange)

/-- When ID is held, the word at `c` stays the next one: a word on the port is
saved, unless the lock drops it. -/
theorem fetchAt_hold (hb : b.Running) (hfetch : b.FetchAt c)
    (hhold : b.cpu.holdId (b.hostIf sw) = true) (hkill : b.cpu.instKill (b.hostIf sw) = false)
    (hpipe : b.cpu.loadstoreInPipe = false) (hls : b.cpu.inLoadstore = false)
    (hlock : b.cpu.imemReq = true → b.cpu.validIdInst (b.hostIf sw) = true →
      b.cpu.tempLock = false)
    (hid : b.cpu.id.pc = c → c = 0) :
    (b.step sw).cpu.id = b.cpu.id ∧ FetchAt (b.step sw) c := by
  obtain ⟨hreq', hinvalid', hpc'⟩ := fetch_of_hold hb hhold hkill hpipe
  have hslot : (b.step sw).slotAt c = b.slotAt c := by rw [slotAt_step hb]
  cases hfetch with
  | boot hreq hack hid htemp hpc =>
      obtain ⟨hid', htemp'⟩ := id_of_boot sw hreq hack
      exact ⟨hid', .boot (hreq'.trans hreq) (rAck_of_noReq hb hreq) (hid'.trans hid)
        (htemp'.trans htemp) (hpc'.trans hpc)⟩
  | streaming hstream =>
      cases hstream with
      | stream hreq hvalid hack hword hifPc hifNpc htemp hpc hrange =>
          have hport : b.cpu.validIdInst (b.hostIf sw) = true :=
            Bool.and_eq_true_iff.mpr ⟨hvalid, hack⟩
          obtain ⟨hid', htemp', htemp2'⟩ :=
            KyogenRVCpu.id_of_saved hreq hkill hport hhold (hlock hreq hport)
          refine ⟨hid', .saved (hreq'.trans hreq) hinvalid' ?_ (hpc'.trans hpc) hrange⟩
          rw [hslot]
          refine KyogenRVCpu.restored_of_saved
            (htemp'.trans (fetched_of_stream hword hifPc hifNpc)) ?_
          rw [step_cpu, htemp2']
          exact hid
      | beyond hreq hinvalid htemp hpc hrange =>
          obtain ⟨hid', htemp', _⟩ := KyogenRVCpu.id_of_kept hreq hkill hls hinvalid hhold
          exact ⟨hid', .streaming (.beyond (hreq'.trans hreq) hinvalid' (htemp'.trans htemp)
            (by rw [hpc']; exact hpc) hrange)⟩
  | saved hreq hinvalid htemp hpc hrange =>
      obtain ⟨hid', htemp', htemp2'⟩ :=
        KyogenRVCpu.id_of_kept hreq hkill hls hinvalid hhold
      refine ⟨hid', .saved (hreq'.trans hreq) hinvalid' ?_ (hpc'.trans hpc) hrange⟩
      rw [hslot, ← htemp, step_cpu, KyogenRVCpu.restored_congr htemp' htemp2']
  | empty hreq hinvalid htemp hpc =>
      obtain ⟨hid', htemp', _⟩ := KyogenRVCpu.id_of_kept hreq hkill hls hinvalid hhold
      exact ⟨hid', .empty (hreq'.trans hreq) hinvalid' (htemp'.trans htemp) (hpc'.trans hpc)⟩

/-- A kill empties ID and the save register and sends the fetch to the target. -/
theorem fetchAt_kill (hb : b.Running) (hreq : b.cpu.imemReq = true)
    (hbranch : b.cpu.instKillBranch = true) (hexpt : b.cpu.expt (b.hostIf sw) = false)
    (hwait : b.cpu.waitrequest (b.hostIf sw) = false) :
    (b.step sw).cpu.id = .bubble ∧ FetchAt (b.step sw) b.cpu.transferTarget := by
  have hkill : b.cpu.instKill (b.hostIf sw) = true := by
    rw [KyogenRVCpu.instKill, hbranch, Bool.true_or]
  have hstall := hb.boot.stall_of_kill hkill
  have hif : b.cpu.ifStage (b.hostIf sw) = ⟨pcStart, pcStart + 4, true, false⟩ := by
    simp [KyogenRVCpu.ifStage, hstall, hkill, hwait, hb.boot.readSigKill hkill]
  refine ⟨KyogenRVCpu.id_of_kill hkill hwait hreq, .empty ?_ ?_ ?_ ?_⟩
  · rw [step_cpu, KyogenRVCpu.step_imemReq, hif]
  · rw [step_cpu, KyogenRVCpu.step_validImem, hif, Bool.false_and]
  · simp [step_cpu, KyogenRVCpu.idStage, hkill, hwait, hreq]
  · have hhalt : (b.hostIf sw).halt = false := hb.swHalt
    rw [step_cpu, KyogenRVCpu.step_pcCntr, KyogenRVCpu.pcCntrNext_of_not_expt hbranch hexpt, hhalt,
      hstall, hwait, hreq]
    rfl

end Deliver

end CpuBus

end KyogenRV
