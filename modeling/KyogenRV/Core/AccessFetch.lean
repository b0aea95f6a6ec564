import KyogenRV.Core.Fetch
import KyogenRV.Core.Access

/-!
# The front end around a data access

A load or store in EX takes the fetch request down.  The word that is still on
its way is saved; ID is frozen until the access has left MEM, and in one
further cycle the fetch starts again while the saved word is put back.
-/

namespace KyogenRV

open ScalarOpConstants MemoryOpConstants

namespace KyogenRVCpu

/-! ## One edge without the request -/

section Edge

variable {s : KyogenRVCpu} {io : HostIf}

/-- A word that arrives after the request went down is saved. -/
theorem id_of_late (hreq : s.imemReq = false) (hkill : s.instKill io = false)
    (hack : io.rImemAck = true) (hlock : s.tempLock = false) :
    (s.step io).id = s.id ∧ (s.step io).idTemp = s.fetched io ∧ (s.step io).id2Temp = s.id ∧
      (s.step io).tempLock = true := by
  refine ⟨?_, ?_, ?_, ?_⟩ <;> simp [idStage, idSave, hreq, hkill, hack, hlock]

/-- Otherwise ID and the save registers are frozen. -/
theorem id_of_frozen (io : HostIf) (hreq : s.imemReq = false)
    (hquiet : io.rImemAck = false ∨ s.tempLock = true) :
    (s.step io).id = s.id ∧ (s.step io).idTemp = s.idTemp ∧
      (s.step io).id2Temp = s.id2Temp ∧ (s.step io).tempLock = s.tempLock := by
  refine ⟨?_, ?_, ?_, ?_⟩ <;> rcases hquiet with h | h <;> simp [idStage, idSave, hreq, h]

/-- In the cycle in which the fetch starts again ID is loaded from the second
save register, unless it is held by a hazard. -/
theorem id_of_return (io : HostIf) (hreq : s.imemReq = true) (hkill : s.instKill io = false)
    (hls : s.inLoadstore = true) (hack : io.rImemAck = false) :
    (s.step io).id = (if s.stall io then s.id else s.id2Temp) ∧
      (s.step io).idTemp = s.idTemp ∧ (s.step io).id2Temp = s.id2Temp := by
  have hinvalid : s.validIdInst io = false := by rw [validIdInst, hack, Bool.and_false]
  refine ⟨?_, ?_, ?_⟩ <;> cases hstall : s.stall io <;>
    simp [idStage, idSave, hreq, hkill, hls, hinvalid, hstall]

/-- While an access is in EX or MEM the fetch stage stops. -/
theorem ifStage_of_access (hkill : s.instKill io = false) (hpipe : s.loadstoreInPipe = true) :
    s.ifStage io = ⟨s.ifPc, s.ifNpc, false, false⟩ := by
  simp [ifStage, hkill, hpipe]

theorem pcCntr_of_noReq (hhalt : io.halt = false) (hreq : s.imemReq = false) :
    (s.step io).pcCntr = s.pcCntr := by
  simp [pcCntrNext, hhalt, hreq]

/-- The lock is set by a save and released by the next word. -/
theorem tempLock_of_req (hreq : s.imemReq = true) (hls : s.inLoadstore = false)
    (hkill : s.instKill io = false) :
    (s.step io).tempLock =
      (s.holdId io && s.validIdInst io && !s.tempLock || s.tempLock && !io.rImemAck) := by
  rw [step_tempLock, idStage, idSave_of_req io hreq, holdId]
  cases s.stall io <;> cases s.waitrequest io <;> cases s.validIdInst io <;>
    cases s.tempLock <;> simp [hreq, hls, hkill]

end Edge

/-! ## Accesses in the pipeline -/

section Access

variable {s : KyogenRVCpu} {io : HostIf}

theorem imemReq_of_access (hkill : s.instKill io = false)
    (hpipe : s.loadstoreInPipe = true) : (s.step io).imemReq = false := by
  rw [step_imemReq, ifStage_of_access hkill hpipe]

theorem loadstoreInPipe_of_ex (hex : s.ex.ctrl.memWr ≠ mX) : s.loadstoreInPipe = true :=
  Bool.or_eq_true_iff.mpr (Or.inl (bne_iff_ne.mpr hex))

/-- An access stays in EX or moves on to MEM. -/
theorem pipe_of_exAccess (hkill : s.instKill io = false)
    (hex : s.ex.ctrl.memWr ≠ mX) : (s.step io).loadstoreInPipe = true := by
  rw [loadstoreInPipe]
  cases hwait : s.waitrequest io with
  | true =>
      rw [(stages_of_wait hwait).1]
      exact Bool.or_eq_true_iff.mpr (Or.inl (bne_iff_ne.mpr hex))
  | false =>
      rw [(stages_of_move hwait hkill).2.1]
      exact Bool.or_eq_true_iff.mpr (Or.inr (bne_iff_ne.mpr hex))

theorem loadstoreInPipe_eq_false_iff (s : KyogenRVCpu) :
    s.loadstoreInPipe = false ↔ s.ex.ctrl.memWr = mX ∧ s.mem.ctrl.memWr = mX := by
  rw [loadstoreInPipe, Bool.or_eq_false_iff, bne_eq_false_iff_eq, bne_eq_false_iff_eq]

/-- Without the request an access stays noticed until it has left MEM, and is
remembered afterwards. -/
theorem access_remembered (hreq : s.imemReq = false) (hkill : s.instKill io = false)
    (haccess : s.loadstoreInPipe = true ∨ s.inLoadstore = true) :
    (s.step io).loadstoreInPipe = true ∨ (s.step io).inLoadstore = true := by
  by_cases hex : s.ex.ctrl.memWr = mX
  · refine Or.inr ?_
    rw [step_inLoadstore, inLoadstoreNext, hreq]
    rcases haccess with hpipe | hls
    · rw [loadstoreInPipe, hex, bne_self_eq_false, Bool.false_or] at hpipe
      rw [hpipe]
      rfl
    · rw [if_neg Bool.false_ne_true, hls, ite_self]
  · exact Or.inl (pipe_of_exAccess hkill hex)

/-- EX has no access unless it keeps one or ID issues one. -/
theorem noAccess_step (hkill : s.instKill io = false)
    (hissue : s.waitrequest io = false → s.holdIssue io = true)
    (hex : s.ex.ctrl.memWr = mX) : (s.step io).ex.ctrl.memWr = mX := by
  cases hwait : s.waitrequest io with
  | true => rw [(stages_of_wait hwait).1, hex]
  | false =>
      rw [(stages_of_move hwait hkill).1, hissue hwait, if_pos rfl]
      exact nop_noAccess

/-- Accesses reach MEM from EX only, and WB from MEM. -/
theorem noAccess_behind (hkill : s.instKill io = false)
    (hex : s.ex.ctrl.memWr = mX) (hmem : s.mem.ctrl.memWr = mX)
    (hwb : s.wb.ctrl.memWr = mX ∨ s.waitrequest io = false) :
    (s.step io).mem.ctrl.memWr = mX ∧ (s.step io).wb.ctrl.memWr = mX := by
  cases hwait : s.waitrequest io with
  | true =>
      obtain ⟨_, hmem', hwb'⟩ := stages_of_wait hwait
      rw [hmem', hwb']
      exact ⟨hmem, hwb.resolve_right (by simp [hwait])⟩
  | false =>
      obtain ⟨_, hmem', hwb'⟩ := stages_of_move hwait hkill
      rw [hmem', hwb']
      exact ⟨hex, hmem⟩

/-- When nothing is issued, no access follows. -/
theorem noAccess_stages (hkill : s.instKill io = false)
    (hissue : s.waitrequest io = false → s.holdIssue io = true)
    (hex : s.ex.ctrl.memWr = mX) (hmem : s.mem.ctrl.memWr = mX)
    (hwb : s.wb.ctrl.memWr = mX ∨ s.waitrequest io = false) :
    (s.step io).ex.ctrl.memWr = mX ∧ (s.step io).mem.ctrl.memWr = mX ∧
      (s.step io).wb.ctrl.memWr = mX :=
  ⟨noAccess_step hkill hissue hex, noAccess_behind hkill hex hmem hwb⟩

/-- Nothing is issued behind an access that is remembered. -/
theorem holdIssue_of_inLoadstore (hls : s.inLoadstore = true) : s.holdIssue io = true := by
  rw [holdIssue, hls, Bool.or_true]

/-- Without the request it is raised again when the access has left MEM and ID
can take an instruction. -/
theorem request_step (hboot : s.BootInv) (hreq : s.imemReq = false) (hkill : s.instKill io = false)
    (haccess : s.loadstoreInPipe = true ∨ s.inLoadstore = true) :
    (s.step io).imemReq = false ∨
      (s.step io).imemReq = true ∧ (s.step io).inLoadstore = true ∧
        (s.step io).ex.ctrl.memWr = mX ∧ (s.step io).mem.ctrl.memWr = mX ∧
        (s.step io).wb.ctrl.memWr = mX := by
  cases hpipe : s.loadstoreInPipe with
  | true => exact Or.inl (imemReq_of_access hkill hpipe)
  | false =>
      cases hhold : s.holdId io with
      | true =>
          refine Or.inl ?_
          exact (ifStep_of_hold hhold hkill hpipe).1.trans hreq
      | false =>
          have hls : s.inLoadstore = true := haccess.resolve_left (by simp [hpipe])
          obtain ⟨hex, hmem⟩ := (loadstoreInPipe_eq_false_iff s).mp hpipe
          have hwait := (Bool.or_eq_false_iff.mp hhold).2
          refine Or.inr ⟨imemReq_of_go hboot hhold hkill hpipe, ?_,
            noAccess_stages hkill (fun _ => holdIssue_of_inLoadstore hls) hex hmem (Or.inr hwait)⟩
          simp [inLoadstoreNext, hmem, hreq, hls]

end Access

end KyogenRVCpu

namespace CpuBus

/-! ## Where the next word is -/

/-- No access is around ID: the fetch runs as in a program without accesses. -/
structure Undisturbed (b : CpuBus) (c : Word) : Prop where
  fetch : b.FetchAt c
  inLoadstore : b.cpu.inLoadstore = false
  lock : b.cpu.tempLock = true →
    (b.cpu.validImem && b.imem.rAck) = false ∧ (b.cpu.pcCntr ≤ 0x3000 → b.imem.rAck = true)
  inEx : b.cpu.ex.ctrl.memWr ≠ mX → b.Streaming c
  mem : b.cpu.mem.ctrl.memWr = mX
  wb : b.cpu.wb.ctrl.memWr = mX

/-- The next word for ID is the one at `c`, and an access is on its way: the
word arrives late, is saved, is about to be put back, or is beyond the memory. -/
inductive AccessAt (b : CpuBus) (c : Word) : Prop
  | late (p : Word) (hreq : b.cpu.imemReq = false) (hpos : p ≠ 0) (hprev : p ≤ 0x3000)
      (hnext : c = p + 4) (hid : b.cpu.id = b.slotAt p) (hifPc : b.cpu.ifPc = p)
      (hifNpc : b.cpu.ifNpc = p + 4)
      (hack : b.imem.rAck = decide (c ≤ 0x3000))
      (hword : b.imem.rAck = true → b.imem.rAddr = Banks.addrAlign c)
      (htemp : b.cpu.idTemp = .bubble) (hlock : b.cpu.tempLock = false)
      (hpc : b.cpu.pcCntr = c + 4) (hpipe : b.cpu.loadstoreInPipe = true)
  | kept (hreq : b.cpu.imemReq = false) (hlock : b.cpu.tempLock = true) (hpos : c ≠ 0)
      (htemp : b.cpu.restored = b.slotAt c) (hid : b.cpu.id2Temp = b.cpu.id)
      (hpc : b.cpu.pcCntr = c + 4) (hrange : c ≤ 0x3000)
      (haccess : b.cpu.loadstoreInPipe = true ∨ b.cpu.inLoadstore = true)
  | beyond (hreq : b.cpu.imemReq = false) (hack : b.imem.rAck = false)
      (htemp : b.cpu.idTemp = .bubble) (hpc : 0x3000 < b.cpu.pcCntr) (hrange : 0x3000 < c)
      (haccess : b.cpu.loadstoreInPipe = true ∨ b.cpu.inLoadstore = true)
  | returning (hreq : b.cpu.imemReq = true) (hls : b.cpu.inLoadstore = true)
      (hack : b.imem.rAck = false) (hpos : c ≠ 0) (htemp : b.cpu.restored = b.slotAt c)
      (hid : b.cpu.id2Temp = b.cpu.id) (hpc : b.cpu.pcCntr = c + 4) (hrange : c ≤ 0x3000)
      (hex : b.cpu.ex.ctrl.memWr = mX) (hmem : b.cpu.mem.ctrl.memWr = mX)
      (hwb : b.cpu.wb.ctrl.memWr = mX)
  | returnBeyond (hreq : b.cpu.imemReq = true) (hls : b.cpu.inLoadstore = true)
      (hack : b.imem.rAck = false) (htemp : b.cpu.idTemp = .bubble)
      (hpc : 0x3000 < b.cpu.pcCntr) (hrange : 0x3000 < c)
      (hex : b.cpu.ex.ctrl.memWr = mX) (hmem : b.cpu.mem.ctrl.memWr = mX)
      (hwb : b.cpu.wb.ctrl.memWr = mX)

inductive NextAt (b : CpuBus) (c : Word) : Prop
  | undisturbed (h : b.Undisturbed c)
  | access (h : b.AccessAt c)

/-- ID is not issued twice or replaced, and the saved word is not overtaken. -/
structure AccessKept (b : CpuBus) (sw : TestIf) : Prop where
  /-- Nothing issues from ID while the fetch request is down. -/
  once : b.cpu.imemReq = false → b.cpu.waitrequest (b.hostIf sw) = false →
    b.cpu.holdIssue (b.hostIf sw) = false → b.cpu.id = .bubble
  /-- When the fetch starts again behind an access, ID is put back as it was. -/
  restored : b.cpu.imemReq = true → b.cpu.inLoadstore = true →
    b.cpu.stall (b.hostIf sw) = false → b.cpu.id2Temp = b.cpu.id
  /-- The fetch then does not move on before the saved word is put back. -/
  saved : b.cpu.imemReq = true → b.cpu.inLoadstore = true →
    b.cpu.holdId (b.hostIf sw) = true ∨ b.cpu.idTemp = .bubble
  /-- The fetch does not run through the whole address space. -/
  wrap : b.cpu.pcCntr < 0xfffffffc

instance (b : CpuBus) (sw : TestIf) : Decidable (b.AccessKept sw) :=
  decidable_of_iff
    ((b.cpu.imemReq = false → b.cpu.waitrequest (b.hostIf sw) = false →
        b.cpu.holdIssue (b.hostIf sw) = false → b.cpu.id = .bubble) ∧
      (b.cpu.imemReq = true → b.cpu.inLoadstore = true →
        b.cpu.stall (b.hostIf sw) = false → b.cpu.id2Temp = b.cpu.id) ∧
      (b.cpu.imemReq = true → b.cpu.inLoadstore = true →
        b.cpu.holdId (b.hostIf sw) = true ∨ b.cpu.idTemp = .bubble) ∧
      b.cpu.pcCntr < 0xfffffffc)
    ⟨fun ⟨once, restored, saved, wrap⟩ => ⟨once, restored, saved, wrap⟩,
      fun h => ⟨h.once, h.restored, h.saved, h.wrap⟩⟩

section Step

variable {b : CpuBus} {sw : TestIf} {c : Word}

/-! ## An access in EX -/

/-- While an access in EX takes the request down and ID is held, the word on
the port is saved. -/
theorem accessAt_of_hold (hb : b.Running) (hnext : b.Undisturbed c) (hpos : c ≠ 0)
    (hex : b.cpu.ex.ctrl.memWr ≠ mX) (hhold : b.cpu.holdId (b.hostIf sw) = true)
    (hkill : b.cpu.instKill (b.hostIf sw) = false) (hid : b.cpu.id.pc ≠ c) :
    (b.step sw).cpu.id = b.cpu.id ∧ (b.step sw).AccessAt c := by
  have hpipe' := KyogenRVCpu.pipe_of_exAccess hkill hex
  have hpipe := KyogenRVCpu.loadstoreInPipe_of_ex hex
  have hreq' := KyogenRVCpu.imemReq_of_access hkill hpipe
  have hpc' : (b.step sw).cpu.pcCntr = b.cpu.pcCntr := KyogenRVCpu.pcCntr_of_hold hb.swHalt hhold
  cases hnext.inEx hex with
  | stream hreq hvalid hack hword hifPc hifNpc htemp hpc hrange =>
      have hport : b.cpu.validIdInst (b.hostIf sw) = true :=
        Bool.and_eq_true_iff.mpr ⟨hvalid, hack⟩
      have hlock : b.cpu.tempLock = false := by
        by_contra hlock
        rw [Bool.not_eq_false] at hlock
        exact absurd (hnext.lock hlock).1 (by simp [hvalid, hack])
      obtain ⟨hid', htemp', htemp2'⟩ := KyogenRVCpu.id_of_saved hreq hkill hport hhold hlock
      refine ⟨hid', .kept hreq' ?_ hpos ?_ (htemp2'.trans hid'.symm) (hpc'.trans hpc) hrange
        (Or.inl hpipe')⟩
      · rw [step_cpu, KyogenRVCpu.tempLock_of_req hreq hnext.inLoadstore hkill, hhold, hport, hlock]
        rfl
      · rw [slotAt_step hb]
        refine KyogenRVCpu.restored_of_saved
          (htemp'.trans (fetched_of_stream hword hifPc hifNpc)) ?_
        rw [step_cpu, htemp2']
        exact fun hsame => absurd hsame hid
  | beyond hreq hinvalid htemp hpc hrange =>
      obtain ⟨hid', htemp', _⟩ :=
        KyogenRVCpu.id_of_kept hreq hkill hnext.inLoadstore hinvalid hhold
      exact ⟨hid', .beyond hreq' (rAck_of_beyond hb hpc) (htemp'.trans htemp)
        (by rw [hpc']; exact hpc) hrange (Or.inl hpipe')⟩

/-- When ID can take an instruction it takes the word on the port, and the next
one is already on its way. -/
theorem accessAt_of_go (hb : b.Running) (hnext : b.Undisturbed c) (hpos : c ≠ 0)
    (hex : b.cpu.ex.ctrl.memWr ≠ mX) (hgo : b.cpu.holdId (b.hostIf sw) = false)
    (hkill : b.cpu.instKill (b.hostIf sw) = false) (hwrap : b.cpu.pcCntr < 0xfffffffc) :
    (b.step sw).cpu.id = b.slotAt c ∧ c ≤ 0x3000 ∧ (b.step sw).AccessAt (c + 4) ∨
      (b.step sw).cpu.id = .bubble ∧ (b.step sw).AccessAt c := by
  have hpipe' := KyogenRVCpu.pipe_of_exAccess hkill hex
  have hpipe := KyogenRVCpu.loadstoreInPipe_of_ex hex
  have hreq' := KyogenRVCpu.imemReq_of_access hkill hpipe
  have hif := KyogenRVCpu.ifStage_of_access hkill hpipe
  obtain ⟨hack', _, hword'⟩ := imem_step hb sw
  cases hnext.inEx hex with
  | stream hreq hvalid hack hword hifPc hifNpc htemp hpc hrange =>
      have hport : b.cpu.validIdInst (b.hostIf sw) = true :=
        Bool.and_eq_true_iff.mpr ⟨hvalid, hack⟩
      have hpc' := KyogenRVCpu.pcCntr_of_go hb.swHalt hreq hgo hkill
      obtain ⟨hid', htemp'⟩ := KyogenRVCpu.id_of_taken hreq hkill hport hgo
      rw [fetched_of_stream hword hifPc hifNpc] at hid'
      rw [hpc] at hpc' hack' hword'
      rw [hreq, Bool.true_and] at hack'
      refine Or.inl ⟨hid', hrange, .late c hreq' hpos hrange rfl ?_ ?_ ?_ hack' hword'
        (htemp'.trans htemp) ?_ hpc' hpipe'⟩
      · rw [slotAt_step hb]
        exact hid'
      · rw [step_cpu, KyogenRVCpu.step_ifPc, hif]
        exact hifPc
      · rw [step_cpu, KyogenRVCpu.step_ifNpc, hif]
        exact hifNpc
      · have hack'' : (b.hostIf sw).rImemAck = true := hack
        rw [step_cpu, KyogenRVCpu.tempLock_of_req hreq hnext.inLoadstore hkill, hgo, hack'']
        simp
  | beyond hreq hinvalid htemp hpc hrange =>
      obtain ⟨hid', htemp'⟩ :=
        KyogenRVCpu.id_of_restored hreq hkill hnext.inLoadstore hinvalid hgo
      exact Or.inr ⟨hid'.trans (KyogenRVCpu.restored_of_bubble htemp),
        .beyond hreq' (rAck_of_beyond hb hpc) htemp' (beyond_step hb hkill hwrap hpc) hrange
          (Or.inl hpipe')⟩

/-! ## No access in EX -/

theorem Undisturbed.inLoadstore_step (hnext : b.Undisturbed c) :
    (b.step sw).cpu.inLoadstore = false :=
  KyogenRVCpu.inLoadstore_of_noAccess hnext.mem (Or.inl hnext.inLoadstore)

/-- With the lock on no word is on the port, and one is on its way unless the
fetch is beyond the memory. -/
theorem Undisturbed.lock_step (hb : b.Running) (hnext : b.Undisturbed c)
    (hpipe : b.cpu.loadstoreInPipe = false) (hkill : b.cpu.instKill (b.hostIf sw) = false)
    (hwrap : b.cpu.pcCntr < 0xfffffffc) (hlock' : (b.step sw).cpu.tempLock = true) :
    ((b.step sw).cpu.validImem && (b.step sw).imem.rAck) = false ∧
      ((b.step sw).cpu.pcCntr ≤ 0x3000 → (b.step sw).imem.rAck = true) := by
  have hbeyond (hack : b.imem.rAck = false) (hlock : b.cpu.tempLock = true) :
      0x3000 < b.cpu.pcCntr := by
    by_contra hpc
    have hack'' := (hnext.lock hlock).2 (BitVec.not_lt.mp hpc)
    exact absurd (hack.symm.trans hack'') Bool.false_ne_true
  have hstay (hpc : 0x3000 < b.cpu.pcCntr) :
      ((b.step sw).cpu.validImem && (b.step sw).imem.rAck) = false ∧
        ((b.step sw).cpu.pcCntr ≤ 0x3000 → (b.step sw).imem.rAck = true) := by
    have hpc' := beyond_step hb hkill hwrap hpc
    refine ⟨?_, fun h => absurd hpc' (BitVec.not_lt.mpr h)⟩
    rw [rAck_of_beyond hb hpc, Bool.and_false]
  cases hreq : b.cpu.imemReq with
  | false =>
      cases hnext.fetch with
      | boot _ hack _ _ _ =>
          have hlock := (KyogenRVCpu.id_of_frozen (b.hostIf sw) hreq (Or.inl hack)).2.2.2
          exact hstay (hbeyond hack (hlock.symm.trans hlock'))
      | streaming hstream => cases hstream <;> simp_all
      | saved hreq' => exact absurd (hreq.symm.trans hreq') Bool.false_ne_true
      | empty hreq' => exact absurd (hreq.symm.trans hreq') Bool.false_ne_true
  | true =>
      rw [step_cpu, KyogenRVCpu.tempLock_of_req hreq hnext.inLoadstore hkill, Bool.or_eq_true_iff,
        Bool.and_eq_true_iff, Bool.and_eq_true_iff, Bool.and_eq_true_iff] at hlock'
      rcases hlock' with ⟨⟨hhold, _⟩, _⟩ | ⟨hlock, hack⟩
      · obtain ⟨_, hport, hpc'⟩ := fetch_of_hold hb hhold hkill hpipe
        rw [hpc']
        exact ⟨hport, rAck_of_req hb hreq⟩
      · exact hstay (hbeyond ((Bool.not_eq_true' _).mp hack) hlock)

/-- Without an access in EX the fetch goes on undisturbed while ID is held. -/
theorem undisturbed_hold (hb : b.Running) (hnext : b.Undisturbed c)
    (hex : b.cpu.ex.ctrl.memWr = mX) (hhold : b.cpu.holdId (b.hostIf sw) = true)
    (hkill : b.cpu.instKill (b.hostIf sw) = false) (hwrap : b.cpu.pcCntr < 0xfffffffc)
    (hid : b.cpu.id.pc = c → c = 0) :
    (b.step sw).cpu.id = b.cpu.id ∧ (b.step sw).Undisturbed c := by
  have hpipe := (KyogenRVCpu.loadstoreInPipe_eq_false_iff b.cpu).mpr ⟨hex, hnext.mem⟩
  have hlock (_ : b.cpu.imemReq = true) (hport : b.cpu.validIdInst (b.hostIf sw) = true) :
      b.cpu.tempLock = false := by
    by_contra hlock
    rw [Bool.not_eq_false] at hlock
    exact absurd ((hnext.lock hlock).1.symm.trans hport) Bool.false_ne_true
  obtain ⟨hid', hfetch'⟩ :=
    fetchAt_hold hb hnext.fetch hhold hkill hpipe hnext.inLoadstore hlock hid
  obtain ⟨hex', hmem', hwb'⟩ := KyogenRVCpu.noAccess_stages hkill
    (KyogenRVCpu.holdIssue_of_hold hhold) hex hnext.mem (Or.inl hnext.wb)
  exact ⟨hid', hfetch', hnext.inLoadstore_step, hnext.lock_step hb hpipe hkill hwrap,
    fun h => absurd hex' h, hmem', hwb'⟩

/-- When ID can take an instruction it takes the next word or none. -/
theorem undisturbed_advance (hb : b.Running) (hnext : b.Undisturbed c)
    (hex : b.cpu.ex.ctrl.memWr = mX) (hgo : b.cpu.holdId (b.hostIf sw) = false)
    (hkill : b.cpu.instKill (b.hostIf sw) = false) (hwrap : b.cpu.pcCntr < 0xfffffffc)
    (hissued : (b.step sw).cpu.ex = b.cpu.exIssue) :
    (b.step sw).cpu.id = b.slotAt c ∧ c ≤ 0x3000 ∧ (b.step sw).Undisturbed (c + 4) ∨
      (b.step sw).cpu.id = .bubble ∧ (b.step sw).Undisturbed c := by
  have hpipe := (KyogenRVCpu.loadstoreInPipe_eq_false_iff b.cpu).mpr ⟨hex, hnext.mem⟩
  have hlock' := hnext.lock_step hb hpipe hkill hwrap
  obtain ⟨hmem', hwb'⟩ := KyogenRVCpu.noAccess_behind hkill hex hnext.mem (Or.inl hnext.wb)
  rcases fetchAt_advance hb hnext.fetch hgo hkill hpipe hnext.inLoadstore fun _ => hwrap with
    ⟨hid, hrange, hstream⟩ | ⟨hid, hfetch', hstream⟩
  · exact Or.inl ⟨hid, hrange, .streaming hstream, hnext.inLoadstore_step, hlock',
      fun _ => hstream, hmem', hwb'⟩
  · refine Or.inr ⟨hid, hfetch', hnext.inLoadstore_step, hlock', fun hex' => ?_, hmem', hwb'⟩
    cases hreq : b.cpu.imemReq with
    | true => exact hstream hreq
    | false =>
        -- the first fetch: ID is still empty
        cases hnext.fetch with
        | boot _ _ hid _ _ =>
            rw [hissued, KyogenRVCpu.exIssue_of_bubble hid] at hex'
            exact absurd KyogenRVCpu.nop_noAccess hex'
        | streaming h => cases h <;> simp_all
        | saved h => exact absurd (hreq.symm.trans h) Bool.false_ne_true
        | empty h => exact absurd (hreq.symm.trans h) Bool.false_ne_true

/-! ## An access on its way -/

/-- The cycle in which the fetch starts again ends the disturbance. -/
theorem undisturbed_of_return (hreq : b.cpu.imemReq = true) (hls : b.cpu.inLoadstore = true)
    (hkill : b.cpu.instKill (b.hostIf sw) = false) (hex : b.cpu.ex.ctrl.memWr = mX)
    (hmem : b.cpu.mem.ctrl.memWr = mX) (hwb : b.cpu.wb.ctrl.memWr = mX)
    (hfetch : (b.step sw).FetchAt c)
    (hport : ((b.step sw).cpu.validImem && (b.step sw).imem.rAck) = false)
    (hack : (b.step sw).cpu.pcCntr ≤ 0x3000 → (b.step sw).imem.rAck = true) :
    (b.step sw).Undisturbed c := by
  obtain ⟨hex', hmem', hwb'⟩ := KyogenRVCpu.noAccess_stages hkill
    (fun _ => KyogenRVCpu.holdIssue_of_inLoadstore hls) hex hmem (Or.inl hwb)
  exact {
    fetch := hfetch
    inLoadstore := KyogenRVCpu.inLoadstore_of_noAccess hmem (Or.inr hreq)
    lock := fun _ => ⟨hport, hack⟩
    inEx := fun h => absurd hex' h
    mem := hmem'
    wb := hwb' }

/-- Save registers that stay hold the word that was saved for ID. -/
theorem restored_step (hb : b.Running) (hrestored : b.cpu.restored = b.slotAt c)
    (htemp' : (b.step sw).cpu.idTemp = b.cpu.idTemp)
    (htemp2' : (b.step sw).cpu.id2Temp = b.cpu.id2Temp) :
    (b.step sw).cpu.restored = (b.step sw).slotAt c := by
  rw [slotAt_step hb, ← hrestored, KyogenRVCpu.restored_congr htemp' htemp2']

/-- The word behind `p` that arrives late is the one put back behind `p`. -/
theorem restored_of_late (hb : b.Running) {p : Word} (hpos : p ≠ 0)
    (hid : b.cpu.id = b.slotAt p) (hifPc : b.cpu.ifPc = p) (hifNpc : b.cpu.ifNpc = p + 4)
    (hword : b.imem.rAddr = Banks.addrAlign (p + 4))
    (htemp' : (b.step sw).cpu.idTemp = b.cpu.fetched (b.hostIf sw))
    (htemp2' : (b.step sw).cpu.id2Temp = b.cpu.id) :
    (b.step sw).cpu.restored = (b.step sw).slotAt (p + 4) := by
  have hdata : (b.hostIf sw).rImemData = b.image (p + 4) := by
    rw [image, ← hword]
    rfl
  have hfetched : b.cpu.fetched (b.hostIf sw) = ⟨p, p + 4, b.image (p + 4)⟩ := by
    rw [KyogenRVCpu.fetched, hifPc, hifNpc, hdata]
  have hsame : (b.step sw).cpu.id2Temp.pc = p := by rw [htemp2', hid, slotAt]
  rw [KyogenRVCpu.restored_of_late (htemp'.trans hfetched) hsame hpos, slotAt_step hb, slotAt]

/-- A word that arrives late is saved, unless it lies beyond the memory. -/
theorem accessAt_of_late (hb : b.Running) {p : Word} (hreq : b.cpu.imemReq = false)
    (hpos : p ≠ 0) (hprev : p ≤ 0x3000) (hnext : c = p + 4) (hid : b.cpu.id = b.slotAt p)
    (hifPc : b.cpu.ifPc = p) (hifNpc : b.cpu.ifNpc = p + 4)
    (hack : b.imem.rAck = decide (c ≤ 0x3000))
    (hword : b.imem.rAck = true → b.imem.rAddr = Banks.addrAlign c)
    (htemp : b.cpu.idTemp = .bubble) (hlock : b.cpu.tempLock = false)
    (hpc : b.cpu.pcCntr = c + 4) (hpipe : b.cpu.loadstoreInPipe = true)
    (hkill : b.cpu.instKill (b.hostIf sw) = false) :
    (b.step sw).cpu.id = b.cpu.id ∧ (b.step sw).AccessAt c := by
  have hreq' := KyogenRVCpu.imemReq_of_access hkill hpipe
  have haccess' := KyogenRVCpu.access_remembered hreq hkill (Or.inl hpipe)
  have hpc' : (b.step sw).cpu.pcCntr = c + 4 :=
    (KyogenRVCpu.pcCntr_of_noReq hb.swHalt hreq).trans hpc
  by_cases hrange : c ≤ 0x3000
  · have hport : b.imem.rAck = true := hack.trans (decide_eq_true hrange)
    have hc : c ≠ 0 := by bv_omega
    subst hnext
    obtain ⟨hid', htemp', htemp2', hlock'⟩ := KyogenRVCpu.id_of_late hreq hkill hport hlock
    exact ⟨hid', .kept hreq' hlock' hc
      (restored_of_late hb hpos hid hifPc hifNpc (hword hport) htemp' htemp2')
      (htemp2'.trans hid'.symm) hpc' hrange haccess'⟩
  · have hack' : b.imem.rAck = false := hack.trans (decide_eq_false hrange)
    obtain ⟨hid', htemp', _⟩ := KyogenRVCpu.id_of_frozen (b.hostIf sw) hreq (Or.inl hack')
    have hpc'' : 0x3000 < (b.step sw).cpu.pcCntr := by
      rw [hpc']
      bv_omega
    exact ⟨hid', .beyond hreq' (rAck_of_noReq hb hreq) (htemp'.trans htemp) hpc''
      (BitVec.not_le.mp hrange) haccess'⟩

/-- A saved word waits until the fetch starts again. -/
theorem accessAt_of_kept (hb : b.Running) (hreq : b.cpu.imemReq = false)
    (hlock : b.cpu.tempLock = true) (hpos : c ≠ 0) (htemp : b.cpu.restored = b.slotAt c)
    (hid : b.cpu.id2Temp = b.cpu.id) (hpc : b.cpu.pcCntr = c + 4) (hrange : c ≤ 0x3000)
    (haccess : b.cpu.loadstoreInPipe = true ∨ b.cpu.inLoadstore = true)
    (hkill : b.cpu.instKill (b.hostIf sw) = false) :
    (b.step sw).cpu.id = b.cpu.id ∧ (b.step sw).AccessAt c := by
  obtain ⟨hid', htemp', htemp2', hlock'⟩ :=
    KyogenRVCpu.id_of_frozen (b.hostIf sw) hreq (Or.inr hlock)
  have hpc' : (b.step sw).cpu.pcCntr = c + 4 :=
    (KyogenRVCpu.pcCntr_of_noReq hb.swHalt hreq).trans hpc
  have hrestored := restored_step hb htemp htemp' htemp2'
  have hid2 : (b.step sw).cpu.id2Temp = (b.step sw).cpu.id := by
    rw [step_cpu, htemp2', hid', hid]
  refine ⟨hid', ?_⟩
  rcases KyogenRVCpu.request_step hb.boot hreq hkill haccess with
    hreq' | ⟨hreq', hls', hex', hmem', hwb'⟩
  · exact .kept hreq' (hlock'.trans hlock) hpos hrestored hid2 hpc' hrange
      (KyogenRVCpu.access_remembered hreq hkill haccess)
  · exact .returning hreq' hls' (rAck_of_noReq hb hreq) hpos hrestored hid2 hpc' hrange
      hex' hmem' hwb'

/-- Beyond the memory there is no word to wait for. -/
theorem accessAt_of_beyond (hb : b.Running) (hreq : b.cpu.imemReq = false)
    (hack : b.imem.rAck = false) (htemp : b.cpu.idTemp = .bubble) (hpc : 0x3000 < b.cpu.pcCntr)
    (hrange : 0x3000 < c) (haccess : b.cpu.loadstoreInPipe = true ∨ b.cpu.inLoadstore = true)
    (hkill : b.cpu.instKill (b.hostIf sw) = false) :
    (b.step sw).cpu.id = b.cpu.id ∧ (b.step sw).AccessAt c := by
  obtain ⟨hid', htemp', _⟩ := KyogenRVCpu.id_of_frozen (b.hostIf sw) hreq (Or.inl hack)
  have hpc' : 0x3000 < (b.step sw).cpu.pcCntr := by
    rw [step_cpu, KyogenRVCpu.pcCntr_of_noReq hb.swHalt hreq]
    exact hpc
  have hack' : (b.step sw).imem.rAck = false := rAck_of_noReq hb hreq
  refine ⟨hid', ?_⟩
  rcases KyogenRVCpu.request_step hb.boot hreq hkill haccess with
    hreq' | ⟨hreq', hls', hex', hmem', hwb'⟩
  · exact .beyond hreq' hack' (htemp'.trans htemp) hpc' hrange
      (KyogenRVCpu.access_remembered hreq hkill haccess)
  · exact .returnBeyond hreq' hls' hack' (htemp'.trans htemp) hpc' hrange hex' hmem' hwb'

/-- When the fetch starts again the saved word stays the next one for ID. -/
theorem undisturbed_of_returning (hb : b.Running) (hreq : b.cpu.imemReq = true)
    (hls : b.cpu.inLoadstore = true) (hack : b.imem.rAck = false) (hpos : c ≠ 0)
    (htemp : b.cpu.restored = b.slotAt c) (hid : b.cpu.id2Temp = b.cpu.id)
    (hpc : b.cpu.pcCntr = c + 4) (hrange : c ≤ 0x3000) (hex : b.cpu.ex.ctrl.memWr = mX)
    (hmem : b.cpu.mem.ctrl.memWr = mX) (hwb : b.cpu.wb.ctrl.memWr = mX)
    (hkept : b.AccessKept sw) (hkill : b.cpu.instKill (b.hostIf sw) = false) :
    (b.step sw).cpu.id = b.cpu.id ∧ (b.step sw).Undisturbed c := by
  have hpipe := (KyogenRVCpu.loadstoreInPipe_eq_false_iff b.cpu).mpr ⟨hex, hmem⟩
  -- a saved word is not empty, so the fetch does not move on
  have hhold : b.cpu.holdId (b.hostIf sw) = true := by
    refine (hkept.saved hreq hls).resolve_right fun hbubble => ?_
    rw [KyogenRVCpu.restored_of_bubble hbubble] at htemp
    exact hpos (congrArg Slot.pc htemp).symm
  obtain ⟨hid', htemp', htemp2'⟩ := KyogenRVCpu.id_of_return (b.hostIf sw) hreq hkill hls hack
  rw [hid, ite_self] at hid'
  obtain ⟨hreq', hport, hpc'⟩ := fetch_of_hold hb hhold hkill hpipe
  have hfetch' : (b.step sw).FetchAt c :=
    .saved (hreq'.trans hreq) hport (restored_step hb htemp htemp' htemp2') (hpc'.trans hpc) hrange
  refine ⟨hid', undisturbed_of_return hreq hls hkill hex hmem hwb hfetch' hport ?_⟩
  rw [hpc']
  exact rAck_of_req hb hreq

/-- Beyond the memory the fetch starts again with nothing saved. -/
theorem undisturbed_of_returnBeyond (hb : b.Running) (hreq : b.cpu.imemReq = true)
    (hls : b.cpu.inLoadstore = true) (hack : b.imem.rAck = false)
    (htemp : b.cpu.idTemp = .bubble) (hpc : 0x3000 < b.cpu.pcCntr) (hrange : 0x3000 < c)
    (hex : b.cpu.ex.ctrl.memWr = mX) (hmem : b.cpu.mem.ctrl.memWr = mX)
    (hwb : b.cpu.wb.ctrl.memWr = mX) (hkept : b.AccessKept sw)
    (hkill : b.cpu.instKill (b.hostIf sw) = false) :
    (b.step sw).cpu.id = b.cpu.id ∧ (b.step sw).Undisturbed c := by
  have hpipe := (KyogenRVCpu.loadstoreInPipe_eq_false_iff b.cpu).mpr ⟨hex, hmem⟩
  obtain ⟨hid', htemp', _⟩ := KyogenRVCpu.id_of_return (b.hostIf sw) hreq hkill hls hack
  have hsame : (b.step sw).cpu.id = b.cpu.id := by
    rw [step_cpu, hid']
    cases hstall : b.cpu.stall (b.hostIf sw) with
    | true => rfl
    | false => exact hkept.restored hreq hls hstall
  have hack' : (b.step sw).imem.rAck = false := rAck_of_beyond hb hpc
  have hport : ((b.step sw).cpu.validImem && (b.step sw).imem.rAck) = false := by
    rw [hack', Bool.and_false]
  have hreq' : (b.step sw).cpu.imemReq = true := by
    cases hhold : b.cpu.holdId (b.hostIf sw) with
    | true => exact (fetch_of_hold hb hhold hkill hpipe).1.trans hreq
    | false => exact KyogenRVCpu.imemReq_of_go hb.boot hhold hkill hpipe
  have hpc' := beyond_step hb hkill hkept.wrap hpc
  have hfetch' : (b.step sw).FetchAt c :=
    .streaming (.beyond hreq' hport (htemp'.trans htemp) hpc' hrange)
  exact ⟨hsame, undisturbed_of_return hreq hls hkill hex hmem hwb hfetch' hport
    fun h => absurd hpc' (BitVec.not_lt.mpr h)⟩

/-- While an access is on its way ID keeps its instruction, and the word behind
it stays the next one. -/
theorem accessAt_step (hb : b.Running) (hnext : b.AccessAt c) (hkept : b.AccessKept sw)
    (hkill : b.cpu.instKill (b.hostIf sw) = false) :
    (b.step sw).cpu.id = b.cpu.id ∧ (b.step sw).NextAt c := by
  cases hnext with
  | late p hreq hpos hprev hnext hid hifPc hifNpc hack hword htemp hlock hpc hpipe =>
      exact (accessAt_of_late hb hreq hpos hprev hnext hid hifPc hifNpc hack hword htemp hlock
        hpc hpipe hkill).imp_right .access
  | kept hreq hlock hpos htemp hid hpc hrange haccess =>
      exact (accessAt_of_kept hb hreq hlock hpos htemp hid hpc hrange haccess
        hkill).imp_right .access
  | beyond hreq hack htemp hpc hrange haccess =>
      exact (accessAt_of_beyond hb hreq hack htemp hpc hrange haccess hkill).imp_right .access
  | returning hreq hls hack hpos htemp hid hpc hrange hex hmem hwb =>
      exact (undisturbed_of_returning hb hreq hls hack hpos htemp hid hpc hrange hex hmem hwb
        hkept hkill).imp_right .undisturbed
  | returnBeyond hreq hls hack htemp hpc hrange hex hmem hwb =>
      exact (undisturbed_of_returnBeyond hb hreq hls hack htemp hpc hrange hex hmem hwb
        hkept hkill).imp_right .undisturbed

end Step

end CpuBus

end KyogenRV
