import KyogenRV.Core.AccessFetch
import KyogenRV.Core.DecodeRv32i
import KyogenRV.Core.Release

/-!
# Straight-line programs leave EX in order

A program of ALU instructions, loads and stores without control transfers and
system instructions.  As long as the front end keeps its words around the data
accesses, the instructions that leave EX are those of the memory in address
order, each once and with its own pc.
-/

namespace KyogenRV

open ScalarOpConstants MemoryOpConstants

/-- The decoder accepts the word, and it is neither a control transfer nor a
system instruction. -/
def StraightLine (inst : Word) : Prop :=
  (idDecode inst).legal = true ∧ (idDecode inst).brType = brN ∧ (idDecode inst).csrCmd = CSR.n

theorem straightLine_nop : StraightLine Instructions.nop := by
  unfold StraightLine
  decide

/-- The RV32I register instructions that are no jump or branch are straight-line. -/
theorem straightLine_of_decode {w : Word} {instr : Rv32i.Instr}
    (hinstr : Rv32i.decode w = some instr) (hplain : instr.isTransfer = false) :
    StraightLine w := by
  rw [StraightLine, idDecode_of_decode hinstr]
  cases instr with
  | lui | auipc | opImm | opReg => exact ⟨rfl, rfl, rfl⟩
  | jal | jalr | branch => exact Bool.noConfusion hplain

/-- So are the loads and stores of each width. -/
theorem straightLine_of_access {w : Word}
    (haccess : Rv32i.opcode w = 0x03 ∧ Rv32i.funct3 w ∈ [0, 1, 2, 4, 5] ∨
      Rv32i.opcode w = 0x23 ∧ Rv32i.funct3 w ∈ [0, 1, 2]) : StraightLine w := by
  have hselected : ∀ (f7 : BitVec 7) (f3 : BitVec 3),
      (f3 ∈ ([0, 1, 2, 4, 5] : List (BitVec 3)) → (selected f7 f3 0x03).legal = true ∧
        (selected f7 f3 0x03).brType = brN ∧ (selected f7 f3 0x03).csrCmd = CSR.n) ∧
      (f3 ∈ ([0, 1, 2] : List (BitVec 3)) → (selected f7 f3 0x23).legal = true ∧
        (selected f7 f3 0x23).brType = brN ∧ (selected f7 f3 0x23).csrCmd = CSR.n) := by
    decide +kernel
  obtain ⟨hload, hstore⟩ := hselected (Rv32i.funct7 w) (Rv32i.funct3 w)
  rcases haccess with ⟨hop, hf3⟩ | ⟨hop, hf3⟩
  · rw [StraightLine, idDecode_eq_selected (by rw [hop]; decide), hop]
    exact hload hf3
  · rw [StraightLine, idDecode_eq_selected (by rw [hop]; decide), hop]
    exact hstore hf3

namespace KyogenRVCpu

/-- The instruction in EX. -/
def exSlot (s : KyogenRVCpu) : Slot := ⟨s.ex.pc, s.ex.npc, s.ex.inst⟩

/-- The non-bubble instruction that leaves EX for MEM at this edge. -/
def leaving (s : KyogenRVCpu) (io : HostIf) : List Slot :=
  if s.waitrequest io || s.instKill io then [] else [s.exSlot].filter (· != .bubble)

/-- A load or store in EX is aligned. -/
def AccessAligned (s : KyogenRVCpu) (io : HostIf) : Prop :=
  s.ex.ctrl.memWr ≠ mX → Aligned s.ex.ctrl.maskType (s.aluOut io)

section Straight

variable {s : KyogenRVCpu} {io : HostIf}

/-- A straight-line instruction does not trap. -/
theorem expt_of_straightLine (hco : s.ex.Coherent) (hinst : StraightLine s.ex.inst)
    (hpc : Csr.misaligned s.ex.pc = false) (hmeie : s.csr.meie = false)
    (haligned : s.AccessAligned io) : s.expt io = false := by
  obtain ⟨hlegal, hbr, hcmd⟩ := hinst
  rw [← hco.ctrl] at hlegal hbr hcmd
  have hjump := iaddrInvalidJ_of_noTransfer io hco hbr
  have hdata : Csr.laddrInvalid (s.csrPorts io) = false ∧
      Csr.saddrInvalid (s.csrPorts io) = false := by
    by_cases hacc : s.ex.ctrl.memWr = mX
    · exact addrInvalid_of_noAccess io hacc
    · exact (aligned_iff hco hacc).mp (haligned hacc)
  rw [expt_of_plain io hlegal (hco.csrCmd.trans hcmd) hpc hmeie, hjump, hdata.1, hdata.2]
  rfl

end Straight

end KyogenRVCpu

namespace CpuBus

/-! ## The instructions in flight -/

section Flight

variable (b : CpuBus) (c : Word)

/-- The word at `c` is in ID, or the next one that ID receives. -/
def IdNext : Prop :=
  b.cpu.id = .bubble ∧ b.NextAt c ∨
    b.cpu.id = b.slotAt c ∧ c ≤ 0x3000 ∧ b.NextAt (c + 4)

/-- The word at `c` is the next one that leaves EX. -/
def ExNext : Prop :=
  b.cpu.exSlot = .bubble ∧ b.IdNext c ∨
    b.cpu.exSlot = b.slotAt c ∧ c ≤ 0x3000 ∧ b.IdNext (c + 4)

end Flight

section Step

variable {b : CpuBus} {sw : TestIf} {c : Word}

theorem exAccess_of_bubble (hb : b.Running) (hex : b.cpu.exSlot = .bubble) :
    b.cpu.ex.ctrl.memWr = mX := by
  have hinst : b.cpu.ex.inst = Instructions.nop := congrArg Slot.inst hex
  rw [hb.reachable.coherent.ex.ctrl, hinst]
  exact KyogenRVCpu.nop_noAccess

/-- Unless ID issues, it keeps its instruction and the next word stays next. -/
theorem nextAt_stay (hb : b.Running) (hnext : b.NextAt c) (hkept : b.AccessKept sw)
    (hkill : b.cpu.instKill (b.hostIf sw) = false)
    (hissue : b.cpu.waitrequest (b.hostIf sw) = false → b.cpu.holdIssue (b.hostIf sw) = true)
    (hid : b.cpu.id.pc = c → c = 0) (hpos : b.cpu.ex.ctrl.memWr ≠ mX → c ≠ 0) :
    (b.step sw).cpu.id = b.cpu.id ∧ (b.step sw).NextAt c := by
  cases hnext with
  | access h => exact accessAt_step hb h hkept hkill
  | undisturbed h =>
      have hhold : b.cpu.holdId (b.hostIf sw) = true := by
        rw [KyogenRVCpu.holdId]
        cases hwait : b.cpu.waitrequest (b.hostIf sw) with
        | true => rw [Bool.or_true]
        | false =>
            have hstall := hissue hwait
            rw [KyogenRVCpu.holdIssue, KyogenRVCpu.loadstoreProc, h.mem, h.wb, h.inLoadstore]
              at hstall
            simpa using hstall
      by_cases hex : b.cpu.ex.ctrl.memWr = mX
      · obtain ⟨hsame, hnext'⟩ := undisturbed_hold hb h hex hhold hkill hkept.wrap hid
        exact ⟨hsame, .undisturbed hnext'⟩
      · obtain ⟨hsame, hnext'⟩ := accessAt_of_hold hb h (hpos hex) hex hhold hkill
          fun hpc => hpos hex (hid hpc)
        exact ⟨hsame, .access hnext'⟩

/-- When ID issues, it receives the next word or none. -/
theorem nextAt_issue (hb : b.Running) (hnext : b.NextAt c) (hkept : b.AccessKept sw)
    (hkill : b.cpu.instKill (b.hostIf sw) = false)
    (hwait : b.cpu.waitrequest (b.hostIf sw) = false)
    (hhold : b.cpu.holdIssue (b.hostIf sw) = false)
    (hissued : (b.step sw).cpu.ex = b.cpu.exIssue)
    (hpos : b.cpu.ex.ctrl.memWr ≠ mX → c ≠ 0) : (b.step sw).IdNext c := by
  obtain ⟨⟨hstall, _⟩, hls⟩ : (b.cpu.stall (b.hostIf sw) = false ∧
      b.cpu.loadstoreProc = false) ∧ b.cpu.inLoadstore = false := by
    simpa [KyogenRVCpu.holdIssue] using hhold
  have hgo : b.cpu.holdId (b.hostIf sw) = false := by
    rw [KyogenRVCpu.holdId, hstall, hwait]
    rfl
  rw [IdNext, slotAt_step hb]
  cases hnext with
  | access h =>
      have hreq : b.cpu.imemReq = false := by
        cases h with
        | late _ hreq => exact hreq
        | kept hreq => exact hreq
        | beyond hreq => exact hreq
        | returning _ h => exact absurd (hls.symm.trans h) Bool.false_ne_true
        | returnBeyond _ h => exact absurd (hls.symm.trans h) Bool.false_ne_true
      obtain ⟨hid, hnext'⟩ := accessAt_step hb h hkept hkill
      exact Or.inl ⟨hid.trans (hkept.once hreq hwait hhold), hnext'⟩
  | undisturbed h =>
      by_cases hex : b.cpu.ex.ctrl.memWr = mX
      · rcases undisturbed_advance hb h hex hgo hkill hkept.wrap hissued with
          ⟨hid, hrange, hnext'⟩ | ⟨hid, hnext'⟩
        · exact Or.inr ⟨hid, hrange, .undisturbed hnext'⟩
        · exact Or.inl ⟨hid, .undisturbed hnext'⟩
      · rcases accessAt_of_go hb h (hpos hex) hex hgo hkill hkept.wrap with
          ⟨hid, hrange, hnext'⟩ | ⟨hid, hnext'⟩
        · exact Or.inr ⟨hid, hrange, .access hnext'⟩
        · exact Or.inl ⟨hid, .access hnext'⟩

/-- Unless ID issues, what it holds stays next. -/
theorem idNext_stay (hb : b.Running) (hnext : b.IdNext c) (hkept : b.AccessKept sw)
    (hkill : b.cpu.instKill (b.hostIf sw) = false)
    (hissue : b.cpu.waitrequest (b.hostIf sw) = false → b.cpu.holdIssue (b.hostIf sw) = true)
    (hpos : b.cpu.ex.ctrl.memWr ≠ mX → c ≠ 0) : (b.step sw).IdNext c := by
  rw [IdNext, slotAt_step hb]
  rcases hnext with ⟨hid, hnext⟩ | ⟨hid, hrange, hnext⟩
  · obtain ⟨hsame, hnext'⟩ := nextAt_stay hb hnext hkept hkill hissue
      (fun h => by rw [← h, hid]; rfl) hpos
    exact Or.inl ⟨hsame.trans hid, hnext'⟩
  · have hother : b.cpu.id.pc ≠ c + 4 := by
      rw [hid, slotAt]
      simp
    obtain ⟨hsame, hnext'⟩ := nextAt_stay hb hnext hkept hkill hissue
      (fun h => absurd h hother) fun _ => by bv_omega
    exact Or.inr ⟨hsame.trans hid, hrange, hnext'⟩

/-- When the pipeline moves on, EX receives what ID holds or nothing. -/
theorem exNext_of_idNext (hb : b.Running) (hnext : b.IdNext c) (hkept : b.AccessKept sw)
    (hkill : b.cpu.instKill (b.hostIf sw) = false)
    (hwait : b.cpu.waitrequest (b.hostIf sw) = false)
    (hpos : b.cpu.ex.ctrl.memWr ≠ mX → c ≠ 0) : (b.step sw).ExNext c := by
  rw [ExNext, slotAt_step hb]
  have hex := (KyogenRVCpu.stages_of_move hwait hkill).1
  cases hhold : b.cpu.holdIssue (b.hostIf sw) with
  | true =>
      rw [hhold, if_pos rfl] at hex
      refine Or.inl ⟨?_, idNext_stay hb hnext hkept hkill (fun _ => hhold) hpos⟩
      rw [KyogenRVCpu.exSlot, step_cpu, hex]
      rfl
  | false =>
      rw [hhold, if_neg Bool.false_ne_true] at hex
      have hslot' : (b.step sw).cpu.exSlot = b.cpu.id := by
        rw [KyogenRVCpu.exSlot, step_cpu, hex]
        rfl
      rw [hslot']
      rcases hnext with ⟨hid, hnext⟩ | ⟨hid, hrange, hnext⟩
      · exact Or.inl ⟨hid, nextAt_issue hb hnext hkept hkill hwait hhold hex hpos⟩
      · exact Or.inr ⟨hid, hrange, nextAt_issue hb hnext hkept hkill hwait hhold hex
          fun _ => by bv_omega⟩

end Step

/-! ## The program in address order -/

/-- The address of the `k`-th word of a program that begins at `start`. -/
def wordAddr (start : Word) (k : ℕ) : Word := start + BitVec.ofNat 32 (4 * k)

theorem wordAddr_succ (start : Word) (k : ℕ) : wordAddr start (k + 1) = wordAddr start k + 4 := by
  rw [wordAddr, wordAddr, Nat.mul_add, Nat.mul_one, BitVec.ofNat_add, BitVec.add_assoc]
  rfl

theorem wordAddr_aligned {start : Word} (hstart : Csr.misaligned start = false) (k : ℕ) :
    Csr.misaligned (wordAddr start k) = false := by
  induction k with
  | zero => simpa [wordAddr] using hstart
  | succ k ih => rw [wordAddr_succ, misaligned_add_four, ih]

/-- The first `n` words of the program, apart from a bubble. -/
def program (b : CpuBus) (start : Word) (n : ℕ) : List Slot :=
  ((List.range n).map fun k => b.slotAt (wordAddr start k)).filter (· != .bubble)

theorem program_succ (b : CpuBus) (start : Word) (n : ℕ) :
    b.program start (n + 1) =
      b.program start n ++ [b.slotAt (wordAddr start n)].filter (· != .bubble) := by
  rw [program, List.range_succ, List.map_append, List.filter_append]
  rfl

theorem program_mono (b : CpuBus) (start : Word) {m n : ℕ} (hmn : m ≤ n) :
    b.program start m <+: b.program start n := by
  induction hmn with
  | refl => exact List.prefix_rfl
  | step _ ih =>
      rw [program_succ]
      exact ih.trans (List.prefix_append ..)

/-- `n` words of the program have left EX, which are `history`, and the next
one follows. -/
structure Delivers (image : Word → Word) (start : Word) (history : List Slot) (b : CpuBus)
    (n : ℕ) : Prop where
  running : b.Running
  image_eq : b.image = image
  meie : b.cpu.csr.meie = false
  mem : b.cpu.mem.ctrl.brType = brN
  inRange : ∀ k < n, wordAddr start k ≤ 0x3000
  history_eq : history = b.program start n
  next : b.ExNext (wordAddr start n)

section Deliver

variable {image : Word → Word} {start : Word} {history : List Slot} {b : CpuBus} {sw : TestIf}
variable {n : ℕ}

/-- EX holds a straight-line instruction at an aligned pc. -/
theorem Delivers.inEx (hb : b.Delivers image start history n)
    (hstart : Csr.misaligned start = false)
    (himage : ∀ addr ≤ 0x3000, StraightLine (image addr)) :
    StraightLine b.cpu.ex.inst ∧ Csr.misaligned b.cpu.ex.pc = false := by
  rcases hb.next with ⟨hex, _⟩ | ⟨hex, hrange, _⟩
  · have hinst : b.cpu.ex.inst = Instructions.nop := congrArg Slot.inst hex
    have hpc : b.cpu.ex.pc = pcStart := congrArg Slot.pc hex
    rw [hinst, hpc]
    exact ⟨straightLine_nop, rfl⟩
  · have hinst : b.cpu.ex.inst = image (wordAddr start n) := by
      rw [← hb.image_eq]
      exact congrArg Slot.inst hex
    have hpc : b.cpu.ex.pc = wordAddr start n := congrArg Slot.pc hex
    rw [hinst, hpc]
    exact ⟨himage _ hrange, wordAddr_aligned hstart n⟩

theorem Delivers.instKill (hb : b.Delivers image start history n)
    (hstart : Csr.misaligned start = false)
    (himage : ∀ addr ≤ 0x3000, StraightLine (image addr))
    (haligned : b.cpu.AccessAligned (b.hostIf sw)) :
    b.cpu.instKill (b.hostIf sw) = false ∧ b.cpu.expt (b.hostIf sw) = false := by
  obtain ⟨hinst, hpc⟩ := hb.inEx hstart himage
  have hexpt := KyogenRVCpu.expt_of_straightLine hb.running.reachable.coherent.ex hinst hpc
    hb.meie haligned
  have hbranch : b.cpu.instKillBranch = false := by
    by_contra hbranch
    rw [Bool.not_eq_false] at hbranch
    exact KyogenRVCpu.brType_of_instKillBranch hbranch hb.mem
  exact ⟨by rw [KyogenRVCpu.instKill, hbranch, hexpt]; rfl, hexpt⟩

theorem delivers_step (hb : b.Delivers image start history n)
    (hstart : Csr.misaligned start = false)
    (himage : ∀ addr ≤ 0x3000, StraightLine (image addr)) (hhalt : sw.halt = false)
    (haligned : b.cpu.AccessAligned (b.hostIf sw)) (hkept : b.AccessKept sw) :
    ∃ m, (b.step sw).Delivers image start (history ++ b.cpu.leaving (b.hostIf sw)) m := by
  obtain ⟨hkill, hexpt⟩ := hb.instKill hstart himage haligned
  obtain ⟨⟨_, hbr, hcmd⟩, _⟩ := hb.inEx hstart himage
  have hco := hb.running.reachable.coherent.ex
  rw [← hco.ctrl] at hbr hcmd
  have hrun' := running_step hb.running hhalt
  have himage' := (image_step hb.running sw).trans hb.image_eq
  have hmeie' : (b.step sw).cpu.csr.meie = false :=
    (KyogenRVCpu.meie_of_plain (hco.csrCmd.trans hcmd) hexpt).trans hb.meie
  have hmem' : (b.step sw).cpu.mem.ctrl.brType = brN := by
    exact KyogenRVCpu.mem_step_forall (P := fun mem => mem.ctrl.brType = brN)
      KyogenRVCpu.nop_noTransfer (fun _ => hbr) hb.mem
  have hprogram (m : ℕ) : (b.step sw).program start m = b.program start m := by
    rw [program, slotAt_step hb.running, program]
  have hbubble (hex : b.cpu.exSlot = .bubble) : b.cpu.leaving (b.hostIf sw) = [] := by
    rw [KyogenRVCpu.leaving, hex]
    split_ifs <;> rfl
  cases hwait : b.cpu.waitrequest (b.hostIf sw) with
  | true =>
      have hsame : (b.step sw).cpu.exSlot = b.cpu.exSlot := by
        rw [KyogenRVCpu.exSlot, step_cpu, (KyogenRVCpu.stages_of_wait hwait).1, KyogenRVCpu.exSlot]
      have hissue (h : b.cpu.waitrequest (b.hostIf sw) = false) :
          b.cpu.holdIssue (b.hostIf sw) = true :=
        absurd (hwait.symm.trans h) (by decide)
      refine ⟨n, hrun', himage', hmeie', hmem', hb.inRange, ?_, ?_⟩
      · rw [KyogenRVCpu.leaving, hwait, Bool.true_or, if_pos rfl, List.append_nil, hprogram,
          hb.history_eq]
      · rw [ExNext, hsame, slotAt_step hb.running]
        rcases hb.next with ⟨hex, hnext⟩ | ⟨hex, hrange, hnext⟩
        · exact Or.inl ⟨hex, idNext_stay hb.running hnext hkept hkill hissue
            fun h => absurd (exAccess_of_bubble hb.running hex) h⟩
        · exact Or.inr ⟨hex, hrange, idNext_stay hb.running hnext hkept hkill hissue
            fun _ => by bv_omega⟩
  | false =>
      rcases hb.next with ⟨hex, hnext⟩ | ⟨hex, hrange, hnext⟩
      · refine ⟨n, hrun', himage', hmeie', hmem', hb.inRange, ?_, ?_⟩
        · rw [hbubble hex, List.append_nil, hprogram, hb.history_eq]
        · exact exNext_of_idNext hb.running hnext hkept hkill hwait
            fun h => absurd (exAccess_of_bubble hb.running hex) h
      · refine ⟨n + 1, hrun', himage', hmeie', hmem', fun k hk => ?_, ?_, ?_⟩
        · rcases Nat.lt_succ_iff_lt_or_eq.mp hk with hk | rfl
          · exact hb.inRange k hk
          · exact hrange
        · rw [hprogram, program_succ, ← hb.history_eq, KyogenRVCpu.leaving, hwait, hkill, hex,
            Bool.or_self, if_neg Bool.false_ne_true]
        · rw [wordAddr_succ]
          exact exNext_of_idNext hb.running hnext hkept hkill hwait fun _ => by bv_omega

/-- After release nothing has left EX. -/
theorem Released.delivers (hb : b.Released) : b.Delivers b.image b.cpu.pcCntr [] 0 := by
  obtain ⟨hidle, hhalt, hreq⟩ := hb.idle
  obtain ⟨hfetch, hex, hmem, hmeie⟩ := hidle.boot.idle (by rw [hidle.delay]; decide)
  have hnext : b.NextAt b.cpu.pcCntr := .undisturbed {
    fetch := .boot hfetch hidle.ack hidle.id hidle.idTemp rfl
    inLoadstore := hidle.inLoadstore
    lock := fun h => absurd (hidle.tempLock.symm.trans h) Bool.false_ne_true
    inEx := fun h => absurd (by rw [hex]; exact KyogenRVCpu.nop_noAccess) h
    mem := by rw [hmem, KyogenRVCpu.nop_noAccess]
    wb := by rw [hidle.wb.1, KyogenRVCpu.nop_noAccess] }
  exact {
    running := ⟨hhalt, hreq, hidle.reachable, hidle.boot⟩
    image_eq := rfl
    meie := hmeie
    mem := by rw [hmem, KyogenRVCpu.nop_noTransfer]
    inRange := fun k hk => absurd hk (Nat.not_lt_zero k)
    history_eq := rfl
    next := by
      have hzero : wordAddr b.cpu.pcCntr 0 = b.cpu.pcCntr := by simp [wordAddr]
      rw [hzero]
      refine Or.inl ⟨?_, Or.inl ⟨hidle.id, hnext⟩⟩
      rw [KyogenRVCpu.exSlot, hex]
      rfl }

end Deliver

/-- The instructions that leave EX in a run. -/
def leaves (b : CpuBus) (inputs : List TestIf) : List Slot :=
  Machine.outputs step (fun t sw => t.cpu.leaving (t.hostIf sw)) b inputs

/-- On a straight-line program with aligned accesses, in every run from release
with halt low that keeps the instructions around the accesses, whatever the
wait pins do, the instructions that leave EX are the words of the program in
address order, each once and with its own pc. -/
theorem leaves_in_order {b : CpuBus} {inputs : List TestIf} (hb : b.Released)
    (hstart : Csr.misaligned b.cpu.pcCntr = false)
    (himage : ∀ addr ≤ 0x3000, StraightLine (b.image addr))
    (hrun : Machine.Along step (fun t sw =>
      sw.halt = false ∧ t.cpu.AccessAligned (t.hostIf sw) ∧ t.AccessKept sw) b inputs) :
    ∃ n, (∀ k < n, wordAddr b.cpu.pcCntr k ≤ 0x3000) ∧
      b.leaves inputs = b.program b.cpu.pcCntr n := by
  obtain ⟨n, hdelivers⟩ := Machine.outputs_invariant
    (H := fun history (t : CpuBus) => ∃ n, t.Delivers b.image b.cpu.pcCntr history n)
    (fun history t sw ⟨n, ht⟩ ⟨hhalt, haligned, hkept⟩ =>
      delivers_step ht hstart himage hhalt haligned hkept)
    ⟨0, hb.delivers⟩ hrun
  refine ⟨n, hdelivers.inRange, ?_⟩
  have hslots : (Machine.run step b inputs).program b.cpu.pcCntr n = b.program b.cpu.pcCntr n := by
    simp only [program, slotAt, hdelivers.image_eq]
  rw [leaves, ← hslots, ← hdelivers.history_eq, List.nil_append]

/-! ### Sample program -/

/-- `lw x1, 0(x0)` in front of `addi x2, x0, 1`. -/
def lwAddi (index : BitVec 14) : Word := if index = 0 then 0x00002083 else 0x00100113

theorem straightLine_lwAddi (addr : Word) : StraightLine ((loaded lwAddi).image addr) := by
  rw [image_loaded, lwAddi, StraightLine]
  split_ifs <;> decide

/-- Waiting in the cycle in which the fetch starts again keeps the saved word. -/
theorem leaves_in_order_lwAddi :
    ∃ n, (∀ k < n, wordAddr 0 k ≤ 0x3000) ∧
      (loaded lwAddi).leaves ((List.range 24).map fun cycle => go (cycle == 16)) =
        (loaded lwAddi).program 0 n :=
  leaves_in_order (released_loaded lwAddi) rfl (fun addr _ => straightLine_lwAddi addr)
    (by unfold KyogenRVCpu.AccessAligned Aligned; decide +kernel)

/-- Without waiting the fetch moves on first: the third word, saved behind the
load, is dropped. -/
theorem word_dropped :
    ¬∀ (b : CpuBus) (inputs : List TestIf), b.Released →
      Csr.misaligned b.cpu.pcCntr = false →
      (∀ addr ≤ 0x3000, StraightLine (b.image addr)) →
      Machine.Along step (fun t sw =>
        sw.halt = false ∧ sw.wInterruptSig = false ∧ t.cpu.AccessAligned (t.hostIf sw) ∧
          (t.cpu.ex.ctrl.memWr ≠ mX → t.cpu.aluOut (t.hostIf sw) ≤ 0x3000)) b inputs →
      ∃ n, b.leaves inputs = b.program b.cpu.pcCntr n := by
  intro h
  obtain ⟨n, hleaves⟩ := h (loaded lwAddi) (List.replicate 20 (go false)) (released_loaded lwAddi)
    rfl (fun addr _ => straightLine_lwAddi addr)
    (by unfold KyogenRVCpu.AccessAligned Aligned; decide +kernel)
  have hpcs : ((loaded lwAddi).leaves (List.replicate 20 (go false))).map Slot.pc = [0, 4, 12] := by
    decide +kernel
  have hthird : ((loaded lwAddi).program 0 3).map Slot.pc = [0, 4, 8] := by decide
  have hstart : (loaded lwAddi).cpu.pcCntr = 0 := rfl
  rw [hleaves, hstart] at hpcs
  have hprefix : ([0, 4, 8] : List Word) <+: [0, 4, 12] ∨
      ([0, 4, 12] : List Word) <+: [0, 4, 8] := by
    rw [← hthird, ← hpcs]
    rcases Nat.le_total 3 n with hle | hle
    · exact Or.inl ((program_mono _ _ hle).map _)
    · exact Or.inr ((program_mono _ _ hle).map _)
  revert hprefix
  decide

end CpuBus

end KyogenRV
