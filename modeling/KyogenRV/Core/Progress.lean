import KyogenRV.Core.MemRefinement

/-!
# Progress

As long as the fetch keeps its words the pipeline never locks up.  A bound on
the cycles until the next instruction leaves EX goes down in each cycle in
which the pipeline moves and does not go up while it waits: it adds up the
instructions ahead in MEM and WB, the data access that keeps the fetch down,
and the cycles that the fetch takes from a new address to ID.
-/

namespace KyogenRV

open ScalarOpConstants MemoryOpConstants

namespace KyogenRVCpu

section Rank

variable (s : KyogenRVCpu)

/-- The cycles until the start-up delay is over. -/
def bootRank : ℕ := if s.imemReadSig then (7 - s.delayStall).toNat else 8

/-- The cycles until MEM and WB can no longer hold back ID. -/
def drainRank : ℕ :=
  if s.mem.regWaddr != 0 || s.mem.ctrl.memWr != mX then 2
  else if s.wb.regWaddr != 0 || s.wb.ctrl.memWr != mX then 1
  else 0

/-- Whether a data access keeps the fetch request down, or has just done so. -/
def accessRank : ℕ :=
  if !s.imemReq && (s.loadstoreInPipe || s.inLoadstore) then 2
  else if s.inLoadstore then 1
  else 0

/-- The cycles that the word at `c` takes to ID. -/
def fetchRank (c : Word) : ℕ :=
  if s.pcCntr = c then if s.imemReq then 2 else 3 else 1

end Rank

section Step

variable {s : KyogenRVCpu} {io : HostIf}

theorem drainRank_le (s : KyogenRVCpu) : s.drainRank ≤ 2 := by
  rw [drainRank]
  split_ifs <;> decide

theorem accessRank_le (s : KyogenRVCpu) : s.accessRank ≤ 2 := by
  rw [accessRank]
  split_ifs <;> decide

theorem fetchRank_le (s : KyogenRVCpu) (c : Word) : 1 ≤ s.fetchRank c ∧ s.fetchRank c ≤ 3 := by
  rw [fetchRank]
  split_ifs <;> decide

theorem drainRank_eq_zero (h : s.drainRank = 0) :
    s.mem.ctrl.memWr = mX ∧ s.wb.regWaddr = 0 ∧ s.wb.ctrl.memWr = mX := by
  rw [drainRank] at h
  split_ifs at h with hmem hwb
  simp only [Bool.or_eq_true, bne_iff_ne, not_or, ne_eq, not_not] at hmem hwb
  exact ⟨hmem.2, hwb⟩

theorem accessRank_of_none (hls : s.inLoadstore = false) (hpipe : s.loadstoreInPipe = false) :
    s.accessRank = 0 := by
  rw [accessRank, hls, hpipe]
  simp

/-- When the pipeline moves and nothing enters MEM, what is ahead moves on. -/
theorem drainRank_of_move (hmem : (s.step io).mem.regWaddr = 0)
    (hacc : (s.step io).mem.ctrl.memWr = mX) (hwb : (s.step io).wb = s.wbIssue) :
    (s.step io).drainRank ≤ 1 ∧
      ((s.step io).drainRank < s.drainRank ∨ (s.step io).drainRank = 0) := by
  have hctrl : (s.step io).wb.ctrl = s.mem.ctrl := by rw [hwb]; rfl
  have hrd : (s.step io).wb.regWaddr = s.mem.regWaddr := by rw [hwb]; rfl
  rw [drainRank, drainRank, hmem, hacc, hctrl, hrd]
  simp only [bne_self_eq_false, Bool.or_self, Bool.false_eq_true, if_false]
  split_ifs <;> simp

theorem drainRank_of_held (hmem : (s.step io).mem = s.mem) (hwb : (s.step io).wb = s.wb) :
    (s.step io).drainRank = s.drainRank := by
  rw [drainRank, drainRank, hmem, hwb]

/-- With EX empty and no access in MEM, ID is held only by a register that WB
writes. -/
theorem stall_of_empty (io : HostIf) (hdelay : s.delayStall = 7) (hex : s.ex.ctrl = nopCtrl)
    (hmem : s.mem.ctrl.memWr = mX) (hraddr1 : s.idRaddr1 = 0 ∨ s.idRaddr1 ≠ s.wb.regWaddr)
    (hraddr2 : s.idRaddr2 = 0 ∨ s.idRaddr2 ≠ s.wb.regWaddr) : s.stall io = false := by
  have hread {r : BitVec 5} (h : r = 0 ∨ r ≠ s.wb.regWaddr) :
      (r != 0 && r == s.wb.regWaddr) = false := by
    rw [Bool.and_eq_false_iff, bne_eq_false_iff_eq, beq_eq_false_iff_ne]
    exact h
  rw [stall, hread hraddr1, hread hraddr2, hdelay, hex, hmem, nop_noAccess, nop_noTransfer]
  simp

/-- The start-up delay counts down. -/
theorem bootRank_step (hreq : s.wReq = false) (hdelay : s.delayStall ≠ 7) :
    (s.step io).bootRank < s.bootRank := by
  have hsig : (s.step io).imemReadSig = true := by rw [step_imemReadSig, hreq]; rfl
  rw [bootRank, hsig, if_pos rfl, step_delayStall, delayStallNext, bootRank]
  cases hnow : s.imemReadSig with
  | false => simp
  | true =>
      rw [bne_iff_ne.mpr hdelay]
      simp only [if_true]
      bv_omega

theorem delayStall_kept (hboot : s.BootInv) (hdelay : s.delayStall = 7) :
    (s.step io).delayStall = 7 := by
  have hsig := (hboot.counting (by rw [hdelay]; decide)).1
  rw [step_delayStall, delayStallNext, hsig, hdelay]
  rfl

end Step

end KyogenRVCpu

namespace CpuBus

section Access

variable {b : CpuBus} {sw : TestIf} {c : Word}

/-- Behind an access the fetch starts again as soon as MEM and WB let it. -/
theorem accessRank_step (hb : b.Running) (hnext : b.AccessAt c)
    (hkill : b.cpu.instKill (b.hostIf sw) = false) (hex : b.cpu.ex.ctrl.memWr = mX)
    (hstall : b.cpu.drainRank = 0 → b.cpu.stall (b.hostIf sw) = false) :
    (b.step sw).cpu.accessRank < b.cpu.accessRank ∨
      (b.step sw).cpu.accessRank = b.cpu.accessRank ∧
        (b.cpu.waitrequest (b.hostIf sw) = false → 0 < b.cpu.drainRank) := by
  have hle := KyogenRVCpu.accessRank_le (b.step sw).cpu
  -- without the request the rank is the largest one
  have hdown (hreq : b.cpu.imemReq = false)
      (haccess : b.cpu.loadstoreInPipe = true ∨ b.cpu.inLoadstore = true) :
      (b.step sw).cpu.accessRank < b.cpu.accessRank ∨
        (b.step sw).cpu.accessRank = b.cpu.accessRank ∧
          (b.cpu.waitrequest (b.hostIf sw) = false → 0 < b.cpu.drainRank) := by
    have hrank : b.cpu.accessRank = 2 := by
      rw [KyogenRVCpu.accessRank, hreq, Bool.or_eq_true_iff.mpr haccess]
      rfl
    rw [hrank]
    refine (Nat.lt_or_eq_of_le hle).imp id fun heq => ⟨heq, fun hwait => ?_⟩
    by_contra hdrained
    have hzero := Nat.eq_zero_of_not_pos hdrained
    have hpipe := (KyogenRVCpu.loadstoreInPipe_eq_false_iff b.cpu).mpr
      ⟨hex, (KyogenRVCpu.drainRank_eq_zero hzero).1⟩
    have hgo : b.cpu.holdId (b.hostIf sw) = false := by
      rw [KyogenRVCpu.holdId, hstall hzero, hwait]
      rfl
    have hreq' : (b.step sw).cpu.imemReq = true :=
      KyogenRVCpu.imemReq_of_go hb.boot hgo hkill hpipe
    rw [KyogenRVCpu.accessRank, hreq', Bool.not_true, Bool.false_and, if_neg Bool.false_ne_true]
      at heq
    split_ifs at heq
    exact absurd heq (by decide)
  have hback (hreq : b.cpu.imemReq = true) (hls : b.cpu.inLoadstore = true)
      (hmem : b.cpu.mem.ctrl.memWr = mX) (hwb : b.cpu.wb.ctrl.memWr = mX) :
      (b.step sw).cpu.accessRank < b.cpu.accessRank := by
    have hrank : b.cpu.accessRank = 1 := by
      rw [KyogenRVCpu.accessRank, hreq, hls]
      rfl
    have hissue (_ : b.cpu.waitrequest (b.hostIf sw) = false) :
        b.cpu.holdIssue (b.hostIf sw) = true := KyogenRVCpu.holdIssue_of_inLoadstore hls
    obtain ⟨hex', hmem', _⟩ := KyogenRVCpu.noAccess_stages hkill hissue hex hmem (Or.inl hwb)
    have hzero : (b.step sw).cpu.accessRank = 0 :=
      KyogenRVCpu.accessRank_of_none (KyogenRVCpu.inLoadstore_of_noAccess hmem (Or.inr hreq))
        ((KyogenRVCpu.loadstoreInPipe_eq_false_iff _).mpr ⟨hex', hmem'⟩)
    rw [hrank, hzero]
    decide
  cases hnext with
  | late _ hreq _ _ _ _ _ _ _ _ _ _ _ hpipe => exact hdown hreq (Or.inl hpipe)
  | kept hreq _ _ _ _ _ _ haccess => exact hdown hreq haccess
  | beyond hreq _ _ _ _ haccess => exact hdown hreq haccess
  | returning hreq hls _ _ _ _ _ _ _ hmem hwb => exact Or.inl (hback hreq hls hmem hwb)
  | returnBeyond hreq hls _ _ _ _ _ hmem hwb => exact Or.inl (hback hreq hls hmem hwb)

/-- Where the fetch stands, an undisturbed one apart from an access in EX. -/
theorem accessRank_of_undisturbed (h : b.Undisturbed c) (hex : b.cpu.ex.ctrl.memWr = mX) :
    b.cpu.accessRank = 0 :=
  KyogenRVCpu.accessRank_of_none h.inLoadstore
    ((KyogenRVCpu.loadstoreInPipe_eq_false_iff b.cpu).mpr ⟨hex, h.mem⟩)

/-- Without an access around, the fetch of a word of the memory is at its
address or one further. -/
theorem pcCntr_of_fetchAt (h : b.FetchAt c) (hrange : c ≤ 0x3000) :
    b.cpu.pcCntr = c ∨ b.cpu.pcCntr = c + 4 := by
  cases h with
  | boot _ _ _ _ hpc => exact Or.inl hpc
  | empty _ _ _ hpc => exact Or.inl hpc
  | saved _ _ _ hpc => exact Or.inr hpc
  | streaming hstream =>
      cases hstream with
      | stream _ _ _ _ _ _ _ hpc => exact Or.inr hpc
      | beyond _ _ _ _ hbeyond => exact absurd hrange (BitVec.not_le.mpr hbeyond)

/-- Behind an access the word is one further than the fetch, or beyond the
memory. -/
theorem pcCntr_of_accessAt (h : b.AccessAt c) (hrange : c ≤ 0x3000) : b.cpu.pcCntr = c + 4 := by
  cases h with
  | late _ _ _ _ _ _ _ _ _ _ _ _ hpc => exact hpc
  | kept _ _ _ _ _ hpc => exact hpc
  | returning _ _ _ _ _ _ hpc => exact hpc
  | beyond _ _ _ _ hbeyond => exact absurd hrange (BitVec.not_le.mpr hbeyond)
  | returnBeyond _ _ _ _ _ hbeyond => exact absurd hrange (BitVec.not_le.mpr hbeyond)

theorem add_four_ne (c : Word) : c + 4 ≠ c := by bv_omega

/-- One more cycle brings a word that is being fetched closer to ID. -/
theorem fetchRank_of_go (hb : b.Running) (hfetch : b.FetchAt c) (hrange : c ≤ 0x3000)
    (hgo : b.cpu.holdId (b.hostIf sw) = false) (hkill : b.cpu.instKill (b.hostIf sw) = false)
    (hpipe : b.cpu.loadstoreInPipe = false) (hnext : (b.step sw).FetchAt c) :
    (b.step sw).cpu.fetchRank c < b.cpu.fetchRank c := by
  have hreq' : (b.step sw).cpu.imemReq = true :=
    KyogenRVCpu.imemReq_of_go hb.boot hgo hkill hpipe
  cases hreq : b.cpu.imemReq with
  | false =>
      have hpc : b.cpu.pcCntr = c := by
        cases hfetch with
        | boot _ _ _ _ hpc => exact hpc
        | empty hreq' => exact absurd (hreq.symm.trans hreq') Bool.false_ne_true
        | saved hreq' => exact absurd (hreq.symm.trans hreq') Bool.false_ne_true
        | streaming h => cases h <;> simp_all
      have hle : (b.step sw).cpu.fetchRank c ≤ 2 := by
        simp only [KyogenRVCpu.fetchRank, hreq', if_true]
        split_ifs <;> decide
      have hrank : b.cpu.fetchRank c = 3 := by
        rw [KyogenRVCpu.fetchRank, hpc, hreq, if_pos rfl]
        rfl
      omega
  | true =>
      have hpc' : (b.step sw).cpu.pcCntr = b.cpu.pcCntr + 4 :=
        KyogenRVCpu.pcCntr_of_go hb.swHalt hreq hgo hkill
      have hplace := pcCntr_of_fetchAt hnext hrange
      rw [hpc'] at hplace
      have hpc : b.cpu.pcCntr = c := by
        rcases pcCntr_of_fetchAt hfetch hrange with h | h
        · exact h
        · rw [h] at hplace
          exact absurd hplace (by bv_omega)
      rw [KyogenRVCpu.fetchRank, KyogenRVCpu.fetchRank, hpc', hpc, hreq, if_neg (add_four_ne c),
        if_pos rfl]
      decide

/-! ## The next instruction to leave EX -/

/-- The word at `c` is the next one to leave EX, within `k` cycles in which the
pipeline moves. -/
inductive ExWithin (b : CpuBus) (c : Word) : ℕ → Prop
  | inEx (hex : b.cpu.exSlot = b.slotAt c) (hid : b.IdNext (c + 4)) : ExWithin b c 0
  | inId (hex : b.cpu.exSlot = .bubble) (hid : b.cpu.id = b.slotAt c)
      (hnext : b.NextAt (c + 4)) :
      ExWithin b c (3 * b.cpu.accessRank + b.cpu.drainRank + 1)
  | fetching (hex : b.cpu.exSlot = .bubble) (hid : b.cpu.id = .bubble) (hnext : b.NextAt c) :
      ExWithin b c (3 * (b.cpu.accessRank + b.cpu.fetchRank c) + b.cpu.drainRank + 1)

theorem exCtrl_of_bubble (hb : b.Running) (hex : b.cpu.exSlot = .bubble) :
    b.cpu.ex.ctrl = nopCtrl := by
  have hinst : b.cpu.ex.inst = Instructions.nop := congrArg Slot.inst hex
  rw [hb.reachable.coherent.ex.ctrl, hinst]
  rfl

/-- The bound is never large. -/
theorem exWithin_of_exNext (hb : b.Running) (hrange : c ≤ 0x3000) (hnext : b.ExNext c) :
    ∃ k ≤ 12, b.ExWithin c k := by
  have hdrain := KyogenRVCpu.drainRank_le b.cpu
  have haccess := KyogenRVCpu.accessRank_le b.cpu
  rcases hnext with ⟨hex, ⟨hid, hnext⟩ | ⟨hid, _, hnext⟩⟩ | ⟨hex, _, hid⟩
  · have hsum : b.cpu.accessRank + b.cpu.fetchRank c ≤ 3 := by
      have hfetch := (KyogenRVCpu.fetchRank_le b.cpu c).2
      cases hnext with
      | undisturbed h =>
          rw [accessRank_of_undisturbed h (exAccess_of_bubble hb hex)]
          omega
      | access h =>
          have hrank : b.cpu.fetchRank c = 1 := by
            rw [KyogenRVCpu.fetchRank, pcCntr_of_accessAt h hrange, if_neg (add_four_ne c)]
          omega
    exact ⟨_, by omega, .fetching hex hid hnext⟩
  · exact ⟨_, by omega, .inId hex hid hnext⟩
  · exact ⟨0, by omega, .inEx hex hid⟩

theorem stall_of_drained (sw : TestIf) (hb : b.Running) (hdelay : b.cpu.delayStall = 7)
    (hex : b.cpu.exSlot = .bubble) (hdrain : b.cpu.drainRank = 0) :
    b.cpu.stall (b.hostIf sw) = false := by
  obtain ⟨hmem, hwb, _⟩ := KyogenRVCpu.drainRank_eq_zero hdrain
  have hother (r : BitVec 5) : r = 0 ∨ r ≠ b.cpu.wb.regWaddr := by
    rw [hwb]
    exact eq_or_ne r 0
  exact KyogenRVCpu.stall_of_empty _ hdelay (exCtrl_of_bubble hb hex) hmem (hother _) (hother _)

theorem stall_of_noInstr (sw : TestIf) (hb : b.Running) (hdelay : b.cpu.delayStall = 7)
    (hex : b.cpu.exSlot = .bubble) (hid : b.cpu.id = .bubble) (hmem : b.cpu.mem.ctrl.memWr = mX) :
    b.cpu.stall (b.hostIf sw) = false := by
  have hraddr1 : b.cpu.idRaddr1 = 0 := by
    rw [KyogenRVCpu.idRaddr1, hid]
    exact (by decide : IDModule.rs1 Instructions.nop = 0)
  have hraddr2 : b.cpu.idRaddr2 = 0 := by
    rw [KyogenRVCpu.idRaddr2, hid]
    exact (by decide : IDModule.rs2 Instructions.nop = 0)
  exact KyogenRVCpu.stall_of_empty _ hdelay (exCtrl_of_bubble hb hex) hmem (Or.inl hraddr1)
    (Or.inl hraddr2)

/-- With EX empty, what is ahead in MEM and WB moves on unless the pipeline
waits. -/
theorem drainRank_step (hb : b.Running) (hex : b.cpu.exSlot = .bubble)
    (hkill : b.cpu.instKill (b.hostIf sw) = false) :
    (b.step sw).cpu.drainRank ≤ b.cpu.drainRank ∧
      (b.cpu.waitrequest (b.hostIf sw) = false → 0 < b.cpu.drainRank →
        (b.step sw).cpu.drainRank < b.cpu.drainRank) := by
  cases hwait : b.cpu.waitrequest (b.hostIf sw) with
  | true =>
      obtain ⟨_, hmem, hwb⟩ := KyogenRVCpu.stages_of_wait hwait
      refine ⟨Nat.le_of_eq (KyogenRVCpu.drainRank_of_held hmem hwb), fun h => ?_⟩
      exact Bool.noConfusion h
  | false =>
      obtain ⟨_, hmem, hwb⟩ := KyogenRVCpu.stages_of_move hwait hkill
      have hco := hb.reachable.coherent.ex
      have hnop : b.cpu.ex.inst = Instructions.nop := congrArg Slot.inst hex
      have hzero : (b.cpu.step (b.hostIf sw)).mem.regWaddr = 0 := by
        rw [hmem, KyogenRVCpu.memIssue, hco.regWaddr, hnop]
        exact (by decide : IDModule.rd Instructions.nop = 0)
      have hacc : (b.cpu.step (b.hostIf sw)).mem.ctrl.memWr = mX := by
        rw [hmem]
        exact exAccess_of_bubble hb hex
      obtain ⟨_, hrank⟩ := KyogenRVCpu.drainRank_of_move hzero hacc hwb
      rw [step_cpu]
      refine ⟨?_, fun _ hpos => ?_⟩
      · rcases hrank with h | h
        · exact Nat.le_of_lt h
        · rw [h]
          exact Nat.zero_le _
      · rcases hrank with h | h
        · exact h
        · rw [h]
          exact hpos

/-- While ID keeps its instruction, the fetch comes closer unless what is ahead
still has to move on. -/
theorem accessRank_stay (hb : b.Running) (hnext : b.NextAt c) (hdelay : b.cpu.delayStall = 7)
    (hkill : b.cpu.instKill (b.hostIf sw) = false) (hex : b.cpu.exSlot = .bubble)
    (hex' : (b.step sw).cpu.exSlot = .bubble) (hb' : (b.step sw).Running)
    (hissue : b.cpu.waitrequest (b.hostIf sw) = false → b.cpu.holdIssue (b.hostIf sw) = true) :
    (b.step sw).cpu.accessRank < b.cpu.accessRank ∨
      (b.step sw).cpu.accessRank = b.cpu.accessRank ∧
        (b.cpu.waitrequest (b.hostIf sw) = false → 0 < b.cpu.drainRank) := by
  have hnone := exAccess_of_bubble hb hex
  have hdrained := stall_of_drained sw hb hdelay hex
  cases hnext with
  | access h => exact accessRank_step hb h hkill hnone hdrained
  | undisturbed h =>
      refine Or.inr ⟨?_, fun hwait => ?_⟩
      · have hmem' : (b.step sw).cpu.mem.ctrl.memWr = mX :=
          (KyogenRVCpu.noAccess_behind hkill hnone h.mem (Or.inl h.wb)).1
        rw [accessRank_of_undisturbed h hnone,
          KyogenRVCpu.accessRank_of_none h.inLoadstore_step
            ((KyogenRVCpu.loadstoreInPipe_eq_false_iff _).mpr
              ⟨exAccess_of_bubble hb' hex', hmem'⟩)]
      · by_contra hpos
        have hhold := hissue hwait
        rw [KyogenRVCpu.holdIssue, hdrained (Nat.eq_zero_of_not_pos hpos),
          KyogenRVCpu.loadstoreProc, h.mem, h.wb, h.inLoadstore] at hhold
        exact absurd hhold (by decide)

/-- An instruction in ID enters EX, or what holds it back gets less. -/
theorem exWithin_of_inId (hb : b.Running) (hb' : (b.step sw).Running)
    (hkept : b.AccessKept sw) (hdelay : b.cpu.delayStall = 7)
    (hkill : b.cpu.instKill (b.hostIf sw) = false) (hrange : c ≤ 0x3000)
    (hex : b.cpu.exSlot = .bubble) (hid : b.cpu.id = b.slotAt c) (hnext : b.NextAt (c + 4)) :
    ∃ k', (b.step sw).ExWithin c k' ∧ k' ≤ 3 * b.cpu.accessRank + b.cpu.drainRank + 1 ∧
      (b.cpu.waitrequest (b.hostIf sw) = false →
        k' < 3 * b.cpu.accessRank + b.cpu.drainRank + 1) := by
  have hpos (_ : b.cpu.ex.ctrl.memWr ≠ mX) : c + 4 ≠ 0 := by bv_omega
  by_cases hgo : b.cpu.waitrequest (b.hostIf sw) = false ∧ b.cpu.holdIssue (b.hostIf sw) = false
  · obtain ⟨hwait, hhold⟩ := hgo
    have hissued := (KyogenRVCpu.stages_of_move hwait hkill).1
    rw [hhold, if_neg Bool.false_ne_true] at hissued
    refine ⟨0, .inEx ?_ (nextAt_issue hb hnext hkept hkill hwait hhold hissued hpos), by omega,
      fun _ => by omega⟩
    rw [slotAt_step hb, ← hid, KyogenRVCpu.exSlot, step_cpu, hissued]
    rfl
  · have hissue (hwait : b.cpu.waitrequest (b.hostIf sw) = false) :
        b.cpu.holdIssue (b.hostIf sw) = true := by
      by_contra hhold
      exact hgo ⟨hwait, Bool.not_eq_true _ ▸ hhold⟩
    have hother : b.cpu.id.pc ≠ c + 4 := by
      rw [hid, slotAt]
      exact (add_four_ne c).symm
    obtain ⟨hsame, hnext'⟩ := nextAt_stay hb hnext hkept hkill hissue
      (fun h => absurd h hother) hpos
    have hex' : (b.step sw).cpu.exSlot = .bubble := by
      cases hwait : b.cpu.waitrequest (b.hostIf sw) with
      | true =>
          rw [KyogenRVCpu.exSlot, step_cpu, (KyogenRVCpu.stages_of_wait hwait).1]
          exact hex
      | false =>
          rw [KyogenRVCpu.exSlot, step_cpu, (KyogenRVCpu.stages_of_move hwait hkill).1,
            hissue hwait]
          rfl
    have hid' : (b.step sw).cpu.id = (b.step sw).slotAt c := by
      rw [slotAt_step hb, hsame, hid]
    obtain ⟨hle, hlt⟩ := drainRank_step hb hex hkill
    refine ⟨_, .inId hex' hid' hnext', ?_, fun hwait => ?_⟩
    · rcases accessRank_stay hb hnext hdelay hkill hex hex' hb' hissue with h | ⟨h, _⟩ <;> omega
    · rcases accessRank_stay hb hnext hdelay hkill hex hex' hb' hissue with h | ⟨h, hbusy⟩
      · omega
      · have hless := hlt hwait (hbusy hwait)
        omega

/-- Behind an access the fetch stays where it is. -/
theorem pcCntr_stay (hb : b.Running) (hnext : b.AccessAt c) (hkept : b.AccessKept sw)
    (hrange : c ≤ 0x3000) : (b.step sw).cpu.pcCntr = c + 4 := by
  have hpc := pcCntr_of_accessAt hnext hrange
  cases hreq : b.cpu.imemReq with
  | false => exact (KyogenRVCpu.pcCntr_of_noReq hb.swHalt hreq).trans hpc
  | true =>
      refine (KyogenRVCpu.pcCntr_of_hold hb.swHalt ?_).trans hpc
      cases hnext with
      | returning _ hls _ hpos htemp =>
          refine (hkept.saved hreq hls).resolve_right fun hbubble => ?_
          rw [KyogenRVCpu.restored_of_bubble hbubble] at htemp
          exact hpos (congrArg Slot.pc htemp).symm
      | returnBeyond _ _ _ _ _ hbeyond => exact absurd hrange (BitVec.not_le.mpr hbeyond)
      | late _ hreq' | kept hreq' | beyond hreq' =>
          exact absurd (hreq.symm.trans hreq') (by decide)

/-- With nothing in ID, EX stays empty. -/
theorem exSlot_of_idle (hkill : b.cpu.instKill (b.hostIf sw) = false)
    (hex : b.cpu.exSlot = .bubble) (hid : b.cpu.id = .bubble) :
    (b.step sw).cpu.exSlot = .bubble := by
  cases hwait : b.cpu.waitrequest (b.hostIf sw) with
  | true =>
      rw [KyogenRVCpu.exSlot, step_cpu, (KyogenRVCpu.stages_of_wait hwait).1]
      exact hex
  | false =>
      rw [KyogenRVCpu.exSlot, step_cpu, (KyogenRVCpu.stages_of_move hwait hkill).1,
        KyogenRVCpu.exIssue_of_bubble hid, ite_self]
      rfl

/-- With EX empty and no access around, none is waited for. -/
theorem accessRank_of_idle (hco : b.cpu.Coherent) (hex : b.cpu.exSlot = .bubble)
    (h : b.Undisturbed c) : b.cpu.accessRank = 0 := by
  refine KyogenRVCpu.accessRank_of_none h.inLoadstore
    ((KyogenRVCpu.loadstoreInPipe_eq_false_iff _).mpr ⟨?_, h.mem⟩)
  have hinst : b.cpu.ex.inst = Instructions.nop := congrArg Slot.inst hex
  rw [hco.ex.ctrl, hinst]
  exact KyogenRVCpu.nop_noAccess

section Fetching

variable (hb : b.Running) (hkept : b.AccessKept sw) (hdelay : b.cpu.delayStall = 7)
  (hkill : b.cpu.instKill (b.hostIf sw) = false) (hrange : c ≤ 0x3000)
  (hex : b.cpu.exSlot = .bubble) (hid : b.cpu.id = .bubble)

include hb hkept hdelay hkill hrange hex hid

/-- An access on its way is left behind. -/
theorem exWithin_of_accessAt (h : b.AccessAt c) :
    ∃ k', (b.step sw).ExWithin c k' ∧
      k' ≤ 3 * (b.cpu.accessRank + b.cpu.fetchRank c) + b.cpu.drainRank + 1 ∧
      (b.cpu.waitrequest (b.hostIf sw) = false →
        k' < 3 * (b.cpu.accessRank + b.cpu.fetchRank c) + b.cpu.drainRank + 1) := by
  have hex' := exSlot_of_idle hkill hex hid
  obtain ⟨hle, hlt⟩ := drainRank_step hb hex hkill
  have hfetch : (b.step sw).cpu.fetchRank c = 1 ∧ b.cpu.fetchRank c = 1 := by
    rw [KyogenRVCpu.fetchRank, KyogenRVCpu.fetchRank, pcCntr_stay hb h hkept hrange,
      pcCntr_of_accessAt h hrange]
    exact ⟨if_neg (add_four_ne c), if_neg (add_four_ne c)⟩
  have hrank := accessRank_step hb h hkill (exAccess_of_bubble hb hex)
    (stall_of_drained sw hb hdelay hex)
  obtain ⟨hid', hnext'⟩ := accessAt_step hb h hkept hkill
  refine ⟨_, .fetching hex' (hid'.trans hid) hnext', ?_, fun hwait => ?_⟩
  · rcases hrank with h | ⟨h, _⟩ <;> omega
  · rcases hrank with h | ⟨h, hbusy⟩
    · omega
    · have hless := hlt hwait (hbusy hwait)
      omega

/-- Without one ID keeps waiting, receives the word, or the fetch gets closer to it. -/
theorem exWithin_of_undisturbed (h : b.Undisturbed c) :
    ∃ k', (b.step sw).ExWithin c k' ∧
      k' ≤ 3 * (b.cpu.accessRank + b.cpu.fetchRank c) + b.cpu.drainRank + 1 ∧
      (b.cpu.waitrequest (b.hostIf sw) = false →
        k' < 3 * (b.cpu.accessRank + b.cpu.fetchRank c) + b.cpu.drainRank + 1) := by
  have hnone := exAccess_of_bubble hb hex
  have hex' := exSlot_of_idle hkill hex hid
  obtain ⟨hle, hlt⟩ := drainRank_step hb hex hkill
  have hpipe := (KyogenRVCpu.loadstoreInPipe_eq_false_iff b.cpu).mpr ⟨hnone, h.mem⟩
  have hrank' {d : Word} (h' : (b.step sw).Undisturbed d) : (b.step sw).cpu.accessRank = 0 :=
    accessRank_of_idle (KyogenRVCpu.Reachable.coherent (hb.reachable.next (b.hostIf sw))) hex' h'
  have hpos := (KyogenRVCpu.fetchRank_le b.cpu c).1
  cases hwait : b.cpu.waitrequest (b.hostIf sw) with
  | true =>
      have hhold : b.cpu.holdId (b.hostIf sw) = true := by
        rw [KyogenRVCpu.holdId, hwait, Bool.or_true]
      obtain ⟨hid', h'⟩ := undisturbed_hold hb h hnone hhold hkill hkept.wrap fun hpc => by
        rw [← hpc, hid]
        rfl
      obtain ⟨hreq', _, hpc'⟩ := fetch_of_hold hb hhold hkill hpipe
      have hfetch : (b.step sw).cpu.fetchRank c = b.cpu.fetchRank c := by
        rw [KyogenRVCpu.fetchRank, KyogenRVCpu.fetchRank, hpc', hreq']
      have hzero' := hrank' h'
      refine ⟨_, .fetching hex' (hid'.trans hid) (.undisturbed h'), by omega, fun h => ?_⟩
      exact Bool.noConfusion h
  | false =>
      have hgo : b.cpu.holdId (b.hostIf sw) = false := by
        rw [KyogenRVCpu.holdId, stall_of_noInstr sw hb hdelay hex hid h.mem, hwait]
        rfl
      have hissued : (b.step sw).cpu.ex = b.cpu.exIssue := by
        rw [step_cpu, (KyogenRVCpu.stages_of_move hwait hkill).1,
          KyogenRVCpu.exIssue_of_bubble hid, ite_self]
      rcases undisturbed_advance hb h hnone hgo hkill hkept.wrap hissued with
        ⟨hid', _, h'⟩ | ⟨hid', h'⟩
      · have hzero' := hrank' h'
        rw [← slotAt_step hb sw] at hid'
        exact ⟨_, .inId hex' hid' (.undisturbed h'), by omega, fun _ => by omega⟩
      · have hzero' := hrank' h'
        have hless := fetchRank_of_go hb h.fetch hrange hgo hkill hpipe h'.fetch
        exact ⟨_, .fetching hex' hid' (.undisturbed h'), by omega, fun _ => by omega⟩

/-- A word that ID is still to receive comes closer. -/
theorem exWithin_of_fetching (hnext : b.NextAt c) :
    ∃ k', (b.step sw).ExWithin c k' ∧
      k' ≤ 3 * (b.cpu.accessRank + b.cpu.fetchRank c) + b.cpu.drainRank + 1 ∧
      (b.cpu.waitrequest (b.hostIf sw) = false →
        k' < 3 * (b.cpu.accessRank + b.cpu.fetchRank c) + b.cpu.drainRank + 1) := by
  cases hnext with
  | access h => exact exWithin_of_accessAt hb hkept hdelay hkill hrange hex hid h
  | undisturbed h => exact exWithin_of_undisturbed hb hkept hdelay hkill hrange hex hid h

end Fetching

/-- While the pipeline waits, the instruction in EX stays. -/
theorem exWithin_of_inEx (hb : b.Running) (hkept : b.AccessKept sw)
    (hkill : b.cpu.instKill (b.hostIf sw) = false)
    (hwait : b.cpu.waitrequest (b.hostIf sw) = true) (hrange : c ≤ 0x3000)
    (hex : b.cpu.exSlot = b.slotAt c) (hid : b.IdNext (c + 4)) : (b.step sw).ExWithin c 0 := by
  have hissue (h : b.cpu.waitrequest (b.hostIf sw) = false) :
      b.cpu.holdIssue (b.hostIf sw) = true :=
    absurd (hwait.symm.trans h) (by decide)
  refine .inEx ?_ (idNext_stay hb hid hkept hkill hissue fun _ => by bv_omega)
  rw [slotAt_step hb, ← hex, KyogenRVCpu.exSlot, step_cpu, (KyogenRVCpu.stages_of_wait hwait).1]
  rfl

end Access

end CpuBus

/-! ## Runs -/

namespace FlatBus

/-- The cycles in which the pipeline has moved. -/
def moveCount (cycles : List (Bool × List (BitVec 5 × Word))) : ℕ :=
  (cycles.map Prod.fst).count false

/-- One cycle: whether the pipeline waits, and what leaves WB. -/
def cycle (f : FlatBus) (sw : TestIf) : Bool × List (BitVec 5 × Word) :=
  (f.waits sw, f.bus.cpu.written (f.bus.hostIf sw))

/-- `n` instructions have left EX in the cycles in which the pipeline moved. -/
structure Advances (image : Word → Word) (mem : ByteMem)
    (cycles : List (Bool × List (BitVec 5 × Word))) (f : FlatBus) (w m n : ℕ) : Prop
    extends f.Simulates image mem (cycles.flatMap Prod.snd) w m n where
  booting : f.bus.cpu.delayStall ≠ 7 → moveCount cycles + f.bus.cpu.bootRank + 12 ≤ 20 + 13 * n
  killing : f.bus.cpu.delayStall = 7 → f.bus.cpu.instKillBranch = true →
    moveCount cycles + 9 ≤ 20 + 13 * n
  leaving : f.bus.cpu.delayStall = 7 → f.bus.cpu.instKillBranch = false →
    ∃ k, f.bus.ExWithin (execution image mem n).pc k ∧ moveCount cycles + k ≤ 20 + 13 * n

section Step

variable {image : Word → Word} {mem : ByteMem}
variable {cycles : List (Bool × List (BitVec 5 × Word))} {f : FlatBus} {sw : TestIf} {w m n : ℕ}

theorem moveCount_concat (cycles : List (Bool × List (BitVec 5 × Word))) (f : FlatBus)
    (sw : TestIf) :
    moveCount (cycles ++ [f.cycle sw]) = moveCount cycles + if f.waits sw then 0 else 1 := by
  rw [moveCount, List.map_append, List.count_append, moveCount]
  cases hwait : f.waits sw <;> simp [cycle, hwait]

theorem flatMap_concat (cycles : List (Bool × List (BitVec 5 × Word))) (f : FlatBus)
    (sw : TestIf) : (cycles ++ [f.cycle sw]).flatMap Prod.snd =
      cycles.flatMap Prod.snd ++ f.bus.cpu.written (f.bus.hostIf sw) := by
  simp [cycle]

/-- Within the largest bound nothing has to be known about the fetch. -/
theorem Simulates.advances (hf : f.Simulates image mem (cycles.flatMap Prod.snd) w m n)
    (hprog : MemProgram image mem)
    (hboot : f.bus.cpu.delayStall ≠ 7 → moveCount cycles + f.bus.cpu.bootRank + 12 ≤ 20 + 13 * n)
    (hbound : moveCount cycles + 12 ≤ 20 + 13 * n) : f.Advances image mem cycles w m n where
  toSimulates := hf
  booting := hboot
  killing := fun _ _ => by omega
  leaving := by
    intro _ hbranch
    obtain ⟨k, hk, hwithin⟩ :=
      CpuBus.exWithin_of_exNext hf.inv.running (hprog.inRange n) (hf.chain hbranch)
    exact ⟨k, hwithin, by omega⟩

/-- One cycle takes the simulation on, and no instruction is taken back. -/
theorem simulates_mono (hf : f.Simulates image mem (cycles.flatMap Prod.snd) w m n)
    (hprog : MemProgram image mem) (hkept : f.bus.Kept sw) :
    ∃ w' m' n', n ≤ n' ∧
      (f.step sw).Simulates image mem ((cycles ++ [f.cycle sw]).flatMap Prod.snd) w' m' n' := by
  rw [flatMap_concat]
  cases hwait : f.waits sw with
  | true => exact ⟨w, m, n, Nat.le_refl n, hf.waits_step hprog hkept hwait⟩
  | false =>
      cases hbranch : f.bus.cpu.instKillBranch with
      | true => exact ⟨m, n, n, Nat.le_refl n, hf.kills hprog hkept hwait hbranch⟩
      | false =>
          rcases hf.chain hbranch with ⟨hbubble, hid⟩ | ⟨hslot, _, hid⟩
          · exact ⟨m, n, n, Nat.le_refl n,
              hf.moves_bubble hprog hkept hwait hbranch hbubble hid⟩
          · exact ⟨m, n, n + 1, Nat.le_succ n,
              hf.moves_instr hprog hkept hwait hbranch hslot hid⟩

/-- During the start-up delay. -/
theorem Advances.boot_step (hf : f.Advances image mem cycles w m n)
    (hprog : MemProgram image mem) (hkept : f.bus.Kept sw) (hdelay : f.bus.cpu.delayStall ≠ 7) :
    ∃ w' m' n', (f.step sw).Advances image mem (cycles ++ [f.cycle sw]) w' m' n' := by
  obtain ⟨w', m', n', hle, hsim⟩ := simulates_mono hf.toSimulates hprog hkept
  have hbound := hf.booting hdelay
  have hrank : (f.step sw).bus.cpu.bootRank < f.bus.cpu.bootRank :=
    KyogenRVCpu.bootRank_step hf.inv.running.wReq hdelay
  have hmoved : moveCount (cycles ++ [f.cycle sw]) ≤ moveCount cycles + 1 := by
    rw [moveCount_concat]
    split_ifs <;> omega
  exact ⟨w', m', n', hsim.advances hprog (fun _ => by omega) (by omega)⟩

/-- While the pipeline waits the bound does not go up. -/
theorem Advances.waits_step (hf : f.Advances image mem cycles w m n)
    (hprog : MemProgram image mem) (hkept : f.bus.Kept sw) (hdelay : f.bus.cpu.delayStall = 7)
    (hwait : f.waits sw = true) :
    (f.step sw).Advances image mem (cycles ++ [f.cycle sw]) w m n := by
  have hwait' : f.bus.cpu.waitrequest (f.bus.hostIf sw) = true := hwait
  have hrunning := hf.inv.running
  have hdelay' : (f.step sw).bus.cpu.delayStall = 7 :=
    KyogenRVCpu.delayStall_kept hrunning.boot hdelay
  have hmem : (f.step sw).bus.cpu.mem = f.bus.cpu.mem := (KyogenRVCpu.stages_of_wait hwait').2.1
  have hbranch : (f.step sw).bus.cpu.instKillBranch = f.bus.cpu.instKillBranch := by
    rw [KyogenRVCpu.instKillBranch, hmem, KyogenRVCpu.instKillBranch]
  have hsim := hf.toSimulates.waits_step hprog hkept hwait
  rw [← flatMap_concat] at hsim
  have hsame : moveCount (cycles ++ [f.cycle sw]) = moveCount cycles := by
    rw [moveCount_concat, hwait]
    rfl
  refine { hsim with
    booting := fun h => absurd hdelay' h
    killing := fun _ hkill => by
      rw [hsame]
      exact hf.killing hdelay (hbranch.symm.trans hkill)
    leaving := fun _ hnone => ?_ }
  have hnone' := hbranch.symm.trans hnone
  have hkill := (hf.toSimulates.instKill hprog hkept.transfer).trans hnone'
  have hrange : (execution image mem n).pc ≤ 0x3000 := hprog.inRange n
  obtain ⟨k, hwithin, hbound⟩ := hf.leaving hdelay hnone'
  rw [hsame]
  cases hwithin with
  | inEx hex hid =>
      exact ⟨0, CpuBus.exWithin_of_inEx hrunning hkept.access hkill hwait' hrange hex hid, hbound⟩
  | inId hex hid hnext =>
      obtain ⟨k', hwithin', hle, _⟩ := CpuBus.exWithin_of_inId hrunning hsim.inv.running
        hkept.access hdelay hkill hrange hex hid hnext
      exact ⟨k', hwithin', by omega⟩
  | fetching hex hid hnext =>
      obtain ⟨k', hwithin', hle, _⟩ := CpuBus.exWithin_of_fetching hrunning hkept.access hdelay
        hkill hrange hex hid hnext
      exact ⟨k', hwithin', by omega⟩

/-- Behind a kill the fetch starts at the target. -/
theorem Advances.kills (hf : f.Advances image mem cycles w m n) (hprog : MemProgram image mem)
    (hkept : f.bus.Kept sw) (hdelay : f.bus.cpu.delayStall = 7) (hwait : f.waits sw = false)
    (hbranch : f.bus.cpu.instKillBranch = true) :
    (f.step sw).Advances image mem (cycles ++ [f.cycle sw]) m n n := by
  have hwait' : f.bus.cpu.waitrequest (f.bus.hostIf sw) = false := hwait
  have hrunning := hf.inv.running
  have hdelay' : (f.step sw).bus.cpu.delayStall = 7 :=
    KyogenRVCpu.delayStall_kept hrunning.boot hdelay
  have hkill := (hf.toSimulates.instKill hprog hkept.transfer).trans hbranch
  have hsim := hf.toSimulates.kills hprog hkept hwait hbranch
  rw [← flatMap_concat] at hsim
  have hreq := hf.transfer.inMem hbranch
  have hnext := CpuBus.undisturbed_of_kill hrunning hreq hbranch
    (hf.toSimulates.expt hprog hkept.transfer) hwait' (hkept.transfer.lock hbranch hwait')
  rw [hf.target hbranch] at hnext
  obtain ⟨hex, hmem, hwb⟩ := KyogenRVCpu.stages_of_kill hwait' hkill
  have hctrl : (f.step sw).bus.cpu.mem.ctrl = nopCtrl := by
    rw [step, CpuBus.step_cpu, hmem]
    rfl
  have hid : (f.step sw).bus.cpu.id = .bubble := KyogenRVCpu.id_of_kill hkill hwait' hreq
  have hslot : (f.step sw).bus.cpu.exSlot = .bubble := by
    rw [KyogenRVCpu.exSlot, step, CpuBus.step_cpu, hex]
    rfl
  have hdrain : (f.step sw).bus.cpu.drainRank ≤ 1 :=
    (KyogenRVCpu.drainRank_of_move (by rw [hmem]; rfl)
      (by rw [hmem]; exact KyogenRVCpu.nop_noAccess) hwb).1
  have haccess : (f.step sw).bus.cpu.accessRank = 0 :=
    CpuBus.accessRank_of_undisturbed hnext (CpuBus.exAccess_of_bubble hsim.inv.running hslot)
  have hfetch : (f.step sw).bus.cpu.fetchRank (execution image mem n).pc ≤ 2 := by
    have hreq' : (f.step sw).bus.cpu.imemReq = true := by
      rw [step, CpuBus.step_cpu, KyogenRVCpu.step_imemReq]
      simp [KyogenRVCpu.ifStage, hkill, hwait', hrunning.boot.stall_of_kill hkill,
        hrunning.boot.readSigKill hkill]
    simp only [KyogenRVCpu.fetchRank, hreq', if_true]
    split_ifs <;> decide
  have hbound := hf.killing hdelay hbranch
  have hmoved : moveCount (cycles ++ [f.cycle sw]) = moveCount cycles + 1 := by
    rw [moveCount_concat, hwait]
    rfl
  refine { hsim with
    booting := fun h => absurd hdelay' h
    killing := fun _ h => ?_
    leaving := fun _ _ => ⟨_, .fetching hslot hid (.undisturbed hnext), by omega⟩ }
  rw [KyogenRVCpu.instKillBranch_of_nop hctrl] at h
  exact absurd h Bool.false_ne_true

/-- When the pipeline moves, the next instruction leaves EX or comes closer. -/
theorem Advances.moves (hf : f.Advances image mem cycles w m n) (hprog : MemProgram image mem)
    (hkept : f.bus.Kept sw) (hdelay : f.bus.cpu.delayStall = 7) (hwait : f.waits sw = false)
    (hbranch : f.bus.cpu.instKillBranch = false) :
    ∃ n', (f.step sw).Advances image mem (cycles ++ [f.cycle sw]) m n n' := by
  have hwait' : f.bus.cpu.waitrequest (f.bus.hostIf sw) = false := hwait
  have hrunning := hf.inv.running
  have hdelay' : (f.step sw).bus.cpu.delayStall = 7 :=
    KyogenRVCpu.delayStall_kept hrunning.boot hdelay
  have hkill := (hf.toSimulates.instKill hprog hkept.transfer).trans hbranch
  have hrange : (execution image mem n).pc ≤ 0x3000 := hprog.inRange n
  have hmoved : moveCount (cycles ++ [f.cycle sw]) = moveCount cycles + 1 := by
    rw [moveCount_concat, hwait]
    rfl
  -- behind an empty EX the same instruction is next
  have hcloser (hex : f.bus.cpu.exSlot = .bubble)
      (hid : f.bus.IdNext (execution image mem n).pc) {k k' : ℕ}
      (hwithin : (f.step sw).bus.ExWithin (execution image mem n).pc k') (hlt : k' < k)
      (hbound : moveCount cycles + k ≤ 20 + 13 * n) :
      (f.step sw).Advances image mem (cycles ++ [f.cycle sw]) m n n := by
    have hsim := hf.toSimulates.moves_bubble hprog hkept hwait hbranch hex hid
    rw [← flatMap_concat] at hsim
    have hctrl : (f.step sw).bus.cpu.mem.ctrl = nopCtrl := by
      rw [step, CpuBus.step_cpu, (KyogenRVCpu.stages_of_move hwait' hkill).2.1]
      exact CpuBus.exCtrl_of_bubble hrunning hex
    refine { hsim with
      booting := fun h => absurd hdelay' h
      killing := fun _ h => ?_
      leaving := fun _ _ => ⟨k', hwithin, by omega⟩ }
    rw [KyogenRVCpu.instKillBranch_of_nop hctrl] at h
    exact absurd h Bool.false_ne_true
  obtain ⟨k, hwithin, hbound⟩ := hf.leaving hdelay hbranch
  cases hwithin with
  | inEx hex hid =>
      have hsim := hf.toSimulates.moves_instr hprog hkept hwait hbranch hex hid
      rw [← flatMap_concat] at hsim
      exact ⟨n + 1, hsim.advances hprog (fun h => absurd hdelay' h) (by omega)⟩
  | inId hex hid hnext =>
      have hrunning' := CpuBus.running_step hrunning hkept.halt
      obtain ⟨k', hwithin', _, hlt⟩ := CpuBus.exWithin_of_inId hrunning hrunning' hkept.access
        hdelay hkill hrange hex hid hnext
      exact ⟨n, hcloser hex (Or.inr ⟨hid, hrange, hnext⟩) hwithin' (hlt hwait') hbound⟩
  | fetching hex hid hnext =>
      obtain ⟨k', hwithin', _, hlt⟩ := CpuBus.exWithin_of_fetching hrunning hkept.access hdelay
        hkill hrange hex hid hnext
      exact ⟨n, hcloser hex (Or.inl ⟨hid, hnext⟩) hwithin' (hlt hwait') hbound⟩

/-- Whatever comes next, the instructions that have left EX account for the cycles. -/
theorem Advances.bound (hf : f.Advances image mem cycles w m n) :
    moveCount cycles ≤ 20 + 13 * n := by
  by_cases hdelay : f.bus.cpu.delayStall = 7
  · cases hbranch : f.bus.cpu.instKillBranch with
    | true =>
        have hbound := hf.killing hdelay hbranch
        omega
    | false =>
        obtain ⟨_, _, hbound⟩ := hf.leaving hdelay hbranch
        omega
  · have hbound := hf.booting hdelay
    omega

theorem advances_step (hf : f.Advances image mem cycles w m n) (hprog : MemProgram image mem)
    (hkept : f.bus.Kept sw) :
    ∃ w' m' n', (f.step sw).Advances image mem (cycles ++ [f.cycle sw]) w' m' n' := by
  by_cases hdelay : f.bus.cpu.delayStall = 7
  · cases hwait : f.waits sw with
    | true => exact ⟨w, m, n, hf.waits_step hprog hkept hdelay hwait⟩
    | false =>
        cases hbranch : f.bus.cpu.instKillBranch with
        | true => exact ⟨m, n, n, hf.kills hprog hkept hdelay hwait hbranch⟩
        | false => exact ⟨m, n, hf.moves hprog hkept hdelay hwait hbranch⟩
  · exact hf.boot_step hprog hkept hdelay

/-- The load in WB has its answer. -/
def Answered (f : FlatBus) : Prop := f.bus.cpu.wb.ctrl.memWr = mXrd → f.bus.dmem.rAck = true

end Step

end FlatBus

/-- A wait pin is up. -/
def TestIf.waits (sw : TestIf) : Bool := sw.wWaitrequestSig || sw.wDatawaitreqSig

namespace CpuBus

/-- The pins do not make the core wait while a load is in WB: its answer would
be missed. -/
def LoadUnhindered (b : CpuBus) (sw : TestIf) : Prop :=
  b.cpu.wb.ctrl.memWr = mXrd → sw.waits = false

instance (b : CpuBus) (sw : TestIf) : Decidable (b.LoadUnhindered sw) := by
  unfold LoadUnhindered
  infer_instance

end CpuBus

namespace FlatBus

section Answer

variable {image : Word → Word} {f : FlatBus} {sw : TestIf}

/-- Only the pins make the core wait. -/
theorem Answered.waits_eq (hf : f.Answered) (sw : TestIf) : f.waits sw = sw.waits := by
  have hanswer : f.bus.cpu.dmemRdWait (f.bus.hostIf sw) = false := by
    have hack : (f.bus.hostIf sw).rDmemAck = f.bus.dmem.rAck := rfl
    rw [KyogenRVCpu.dmemRdWait, hack]
    by_cases hload : f.bus.cpu.wb.ctrl.memWr = mXrd
    · rw [hf hload]
      exact Bool.and_false _
    · rw [beq_eq_false_iff_ne.mpr hload]
      exact Bool.false_and _
  rw [waits, KyogenRVCpu.waitrequest, hanswer, Bool.or_false]
  rfl

theorem Answered.step (hf : f.Answered) (hsettled : f.Settled image)
    (hun : f.bus.LoadUnhindered sw) :
    (f.step sw).Answered := by
  intro hload
  cases hwait : f.waits sw with
  | true =>
      have hwb : (f.step sw).bus.cpu.wb = f.bus.cpu.wb := (KyogenRVCpu.stages_of_wait hwait).2.2
      rw [hwb] at hload
      rw [hf.waits_eq, hun hload] at hwait
      exact absurd hwait Bool.false_ne_true
  | false =>
      have hwb : (f.step sw).bus.cpu.wb = f.bus.cpu.wbIssue := KyogenRVCpu.wb_of_move hwait
      have hmem : f.bus.cpu.mem.ctrl.memWr = mXrd := by
        rw [hwb] at hload
        exact hload
      exact (CpuBus.dmem_of_load sw hsettled.inv.running.swHalt hmem
        (hsettled.accepted (by rw [hmem]; decide))).2.1

end Answer

end FlatBus

/-! ## The main theorem -/

namespace CpuBus

variable {b : CpuBus} {inputs : List TestIf}

/-- At release the start-up delay is ahead. -/
theorem Released.advances (hb : b.Released) (hpc : b.cpu.pcCntr = 0) :
    (FlatBus.start b).Advances b.image b.dmem.bytes [] 0 0 0 := by
  obtain ⟨hidle, _⟩ := hb.idle
  have hdelay : b.cpu.delayStall ≠ 7 := by
    rw [hidle.delay]
    decide
  have hrank : b.cpu.bootRank ≤ 8 := by
    rw [KyogenRVCpu.bootRank, hidle.delay]
    split_ifs <;> decide
  refine {
    toSimulates := hb.simulates hpc
    booting := fun _ => ?_
    killing := fun h => absurd h hdelay
    leaving := fun h => absurd h hdelay }
  have hnone : FlatBus.moveCount [] = 0 := rfl
  have hbus : (FlatBus.start b).bus = b := rfl
  rw [hnone, hbus]
  omega

/-- What each cycle shows: whether a wait pin is up, and what leaves WB. -/
def cycles (b : CpuBus) (inputs : List TestIf) : List (Bool × List (BitVec 5 × Word)) :=
  Machine.outputs step (fun t sw => [(sw.waits, t.cpu.written (t.hostIf sw))]) b inputs

theorem flatMap_cycles (b : CpuBus) (inputs : List TestIf) :
    (b.cycles inputs).flatMap Prod.snd = b.writes inputs := by
  rw [cycles, Machine.outputs_flatMap, writes]
  simp only [List.flatMap_cons, List.flatMap_nil, List.append_nil]

theorem moveCount_cycles (b : CpuBus) (inputs : List TestIf) :
    FlatBus.moveCount (b.cycles inputs) = inputs.countP fun sw => !sw.waits := by
  induction inputs generalizing b with
  | nil => rfl
  | cons sw inputs ih =>
      have hrest : ((b.step sw).cycles inputs |>.map Prod.fst).count false =
          inputs.countP fun sw => !sw.waits := ih (b.step sw)
      rw [cycles, Machine.outputs_cons, ← cycles, FlatBus.moveCount, List.map_append,
        List.count_append, hrest, List.countP_cons, Nat.add_comm]
      cases hwait : sw.waits <;> simp

theorem memTrace_prefix (image : Word → Word) (σ : Rv32i.MemState) {n w : ℕ} (hle : n ≤ w) :
    Rv32i.memTrace image σ n <+: Rv32i.memTrace image σ w := by
  induction w, hle using Nat.le_induction with
  | base => exact List.prefix_rfl
  | succ w _ ih => exact ih.trans (List.prefix_append _ _)

/-- In every run from release whose cycles keep the words of the fetch and the
answers of the data port, the first `n` instructions have written their
registers after `13 * n + 46` cycles without a wait pin. -/
theorem written_within (n : ℕ) (hb : b.Released) (hpc : b.cpu.pcCntr = 0)
    (hprog : MemProgram b.image b.dmem.bytes)
    (hrun : Machine.Along step (fun t sw => t.Kept sw ∧ t.LoadUnhindered sw) b inputs)
    (hlong : 13 * n + 46 ≤ inputs.countP fun sw => !sw.waits) :
    Rv32i.memTrace b.image (.start b.dmem.bytes) n <+: b.writes inputs := by
  have hend : ∃ (f : FlatBus) (w m k : ℕ), f.bus = Machine.run step b inputs ∧ f.Answered ∧
      f.Advances b.image b.dmem.bytes ([] ++ b.cycles inputs) w m k := by
    refine Machine.outputs_invariant (H := fun cycles (t : CpuBus) =>
        ∃ (f : FlatBus) (w m k : ℕ), f.bus = t ∧ f.Answered ∧
          f.Advances b.image b.dmem.bytes cycles w m k)
      (fun cycles t sw ht hkept => ?_) ?_ hrun
    · obtain ⟨f, w, m, k, rfl, hanswered, hadv⟩ := ht
      obtain ⟨w', m', k', hstep⟩ := FlatBus.advances_step hadv hprog hkept.1
      rw [FlatBus.cycle, hanswered.waits_eq] at hstep
      exact ⟨f.step sw, w', m', k', rfl, hanswered.step hadv.toSettled hkept.2, hstep⟩
    · obtain ⟨hidle, _⟩ := hb.idle
      have hnoLoad : b.cpu.wb.ctrl.memWr ≠ mXrd := by
        rw [hidle.wb.1]
        decide
      exact ⟨FlatBus.start b, 0, 0, 0, rfl, fun h => absurd h hnoLoad, hb.advances hpc⟩
  obtain ⟨f, w, m, k, -, -, hadv⟩ := hend
  rw [List.nil_append] at hadv
  obtain ⟨_, hmw, _, hkm⟩ := hadv.order
  have hwritten := hadv.written
  rw [flatMap_cycles] at hwritten
  have hbound := hadv.bound
  rw [moveCount_cycles] at hbound
  rw [hwritten]
  exact memTrace_prefix _ _ (by omega)

theorem written_within_copyWord :
    let inputs := (List.range 100).map fun cycle => go (cycle == 18)
    let start : Rv32i.MemState := .start (loaded copyWord).dmem.bytes
    Rv32i.memTrace (loaded copyWord).image start 4 = [(1, 7), (2, 7), (3, 8)] ∧
      Rv32i.memTrace (loaded copyWord).image start 4 <+: (loaded copyWord).writes inputs :=
  ⟨by decide +kernel, written_within 4 (released_loaded copyWord) rfl (memProgram_copyWord _)
    (by decide +kernel) (by decide +kernel)⟩

end CpuBus

end KyogenRV
