import KyogenRV.Core.Counters
import KyogenRV.Core.Pipeline

/-!
# Retired instructions

`instret` counts what the CSR module sees of EX: a word other than NOP that
raises nothing, or an ecall or ebreak, without a hazard stall.  Whether the
instruction in EX goes on to MEM depends on `waitrequest` and `inst_kill`
instead.  A record next to the core marks the registers that hold a fetched
word, since a fetched NOP looks like a bubble, and counts those that pass EX.
-/

namespace KyogenRV

namespace KyogenRVCpu

section Retire

variable (s : KyogenRVCpu) (io : HostIf)

/-- What EX holds goes on to MEM. -/
def passesEx : Bool := !s.waitrequest io && !s.instKill io

/-- Software writes neither `instret` nor `instreth` at this edge. -/
def SparesInstret : Prop :=
  ∀ access ∈ s.csr.counterWrite (s.csrPorts io, s.stall io), access.1 ≠ .instret

instance : Decidable (s.SparesInstret io) := inferInstanceAs (Decidable (∀ _ ∈ _, _))

/-- `isInstRet` in the core. -/
def isInstRet : Bool := s.csr.isInstRet (s.csrPorts io) (s.stall io)

variable {s io}

/-- Unless it is written, `instret` only counts. -/
theorem counter_instret (hspares : s.SparesInstret io) :
    (s.step io).csr.counter .instret =
      if s.isInstRet io then s.csr.counter .instret + 1 else s.csr.counter .instret := by
  have hstep : (s.step io).csr = s.csr.step (s.csrPorts io, s.stall io) := step_csr s io
  rw [hstep, Csr.counter_step, SplitCounter.count_of_ne fun half word haccess =>
    hspares _ haccess rfl]
  rfl

end Retire

end KyogenRVCpu

/-- Which registers of the ID stage hold a fetched word. -/
structure IdMarks where
  id : Bool
  idTemp : Bool
  id2Temp : Bool

/-- The core with a record of the instructions that pass EX. -/
structure RetireTrace where
  cpu : KyogenRVCpu
  marks : IdMarks
  /-- EX holds a fetched word. -/
  fetched : Bool
  /-- The fetched words that have gone on from EX to MEM. -/
  retired : ℕ

namespace RetireTrace

section Trace

variable (h : RetireTrace) (io : HostIf)

def start (s : KyogenRVCpu) : RetireTrace := ⟨s, ⟨false, false, false⟩, false, 0⟩

/-- The marks behind `idSave`. -/
def saveMarks : IdMarks :=
  if !h.cpu.instKill io && !h.cpu.imemReq && io.rImemAck && !h.cpu.tempLock then
    ⟨false, true, h.marks.id⟩
  else h.marks

/-- The marks behind `idStage`. -/
def idMarks : IdMarks :=
  if (h.cpu.stall io || h.cpu.waitrequest io) && !h.cpu.instKill io && h.cpu.validIdInst io &&
      h.cpu.imemReq && !h.cpu.tempLock then
    { h.saveMarks io with idTemp := true, id2Temp := h.marks.id }
  else if h.cpu.validIdInst io && !h.cpu.stall io && !h.cpu.waitrequest io &&
      !h.cpu.instKill io && h.cpu.imemReq then
    { h.saveMarks io with id := true }
  else if h.cpu.instKill io && !h.cpu.waitrequest io && h.cpu.imemReq then
    ⟨false, false, false⟩
  else if !h.cpu.instKill io && !h.cpu.stall io && !h.cpu.validIdInst io && h.cpu.imemReq then
    if h.cpu.inLoadstore then { h.saveMarks io with id := h.marks.id2Temp }
    else if !h.cpu.waitrequest io then ⟨h.marks.idTemp, false, false⟩
    else h.saveMarks io
  else { h.saveMarks io with id := h.marks.id }

/-- A fetched word passes EX on the committed path at this edge. -/
def retires : Bool := h.fetched && h.cpu.passesEx io

def step : RetireTrace where
  cpu := h.cpu.step io
  marks := h.idMarks io
  fetched :=
    if h.cpu.waitrequest io then h.fetched
    else if h.cpu.instKill io || h.cpu.holdIssue io then false
    else h.marks.id
  retired := if h.retires io then h.retired + 1 else h.retired

/-- The pair `instreth`, `instret` is the number of retired instructions. -/
def Counted : Prop := h.cpu.csr.counter .instret = BitVec.ofNat (32 + 32) h.retired

/-- When `isInstRet` is what it should be: no fetched NOP passes EX, another
word passes it without a hazard stall, and while a word is held or killed in EX
there is a hazard stall or an exception that is neither ecall nor ebreak. -/
structure CountedOnce : Prop where
  nop : h.fetched = true → h.cpu.ex.inst = Instructions.nop → h.cpu.passesEx io = false
  passed : h.cpu.ex.inst ≠ Instructions.nop → h.cpu.passesEx io = true → h.cpu.stall io = false
  kept : h.cpu.ex.inst ≠ Instructions.nop → h.cpu.passesEx io = false →
    h.cpu.stall io = true ∨ h.cpu.expt io = true ∧
      Csr.isEcall (h.cpu.csrPorts io) = false ∧ Csr.isEbreak (h.cpu.csrPorts io) = false

instance : Decidable (h.CountedOnce io) :=
  decidable_of_iff (_ ∧ _ ∧ _)
    ⟨fun ⟨hnop, hpassed, hkept⟩ => ⟨hnop, hpassed, hkept⟩,
      fun honce => ⟨honce.nop, honce.passed, honce.kept⟩⟩

/-! ## What the marks say -/

/-- Unmarked registers hold the bubble. -/
structure Marked : Prop where
  id : h.marks.id = false → h.cpu.id = .bubble
  idTemp : h.marks.idTemp = false → h.cpu.idTemp = .bubble
  id2Temp : h.marks.id2Temp = false → h.cpu.id2Temp = .bubble
  ex : h.fetched = false → h.cpu.ex.inst = Instructions.nop

end Trace

variable {h : RetireTrace} {io : HostIf}

theorem marked_start {s : KyogenRVCpu} (hs : s.IsReset) : (start s).Marked := by
  obtain ⟨_, _, _, _, _, _, _, rfl⟩ := hs
  exact ⟨fun _ => rfl, fun _ => rfl, fun _ => rfl, fun _ => rfl⟩

theorem Marked.idSave (hmarked : h.Marked) (io : HostIf) :
    ((h.saveMarks io).id = false → (h.cpu.idSave io).id = .bubble) ∧
      ((h.saveMarks io).idTemp = false → (h.cpu.idSave io).idTemp = .bubble) ∧
      ((h.saveMarks io).id2Temp = false → (h.cpu.idSave io).id2Temp = .bubble) := by
  rw [saveMarks, KyogenRVCpu.idSave]
  split_ifs
  · exact ⟨fun _ => rfl, False.elim, hmarked.id⟩
  · exact ⟨hmarked.id, hmarked.idTemp, hmarked.id2Temp⟩

theorem Marked.idStage (hmarked : h.Marked) (io : HostIf) :
    ((h.idMarks io).id = false → (h.cpu.idStage io).id = .bubble) ∧
      ((h.idMarks io).idTemp = false → (h.cpu.idStage io).idTemp = .bubble) ∧
      ((h.idMarks io).id2Temp = false → (h.cpu.idStage io).id2Temp = .bubble) := by
  obtain ⟨hid, htemp, htemp2⟩ := hmarked.idSave io
  rw [idMarks, KyogenRVCpu.idStage]
  split_ifs
  · exact ⟨hid, False.elim, hmarked.id⟩
  · exact ⟨False.elim, htemp, htemp2⟩
  · exact ⟨fun _ => rfl, fun _ => rfl, fun _ => rfl⟩
  · exact ⟨hmarked.id2Temp, htemp, htemp2⟩
  · exact ⟨fun hmark => KyogenRVCpu.restored_of_bubble (hmarked.idTemp hmark), fun _ => rfl,
      fun _ => rfl⟩
  · exact ⟨hid, htemp, htemp2⟩
  · exact ⟨hmarked.id, htemp, htemp2⟩

theorem marked_step (hmarked : h.Marked) (io : HostIf) : (h.step io).Marked where
  id := by
    change (h.idMarks io).id = false → (h.cpu.step io).id = .bubble
    rw [KyogenRVCpu.step_id]
    exact (hmarked.idStage io).1
  idTemp := by
    change (h.idMarks io).idTemp = false → (h.cpu.step io).idTemp = .bubble
    rw [KyogenRVCpu.step_idTemp]
    exact (hmarked.idStage io).2.1
  id2Temp := by
    change (h.idMarks io).id2Temp = false → (h.cpu.step io).id2Temp = .bubble
    rw [KyogenRVCpu.step_id2Temp]
    exact (hmarked.idStage io).2.2
  ex := by
    intro hfetched
    change (h.cpu.step io).ex.inst = Instructions.nop
    rw [step] at hfetched
    cases h.cpu.stageStep io with
    | held hwait hex _ _ =>
        rw [hex]
        simp only [hwait, if_true] at hfetched
        exact hmarked.ex hfetched
    | killed _ _ hex _ _ | drained _ _ _ hex _ _ => rw [hex]; rfl
    | issued hwait hkill hhold hex _ _ =>
        rw [hex]
        simp only [hwait, hkill, hhold, Bool.or_self, Bool.false_eq_true, if_false] at hfetched
        exact congrArg Slot.inst (hmarked.id hfetched)

/-! ## The count -/

/-- An instruction that passes EX raises nothing. -/
theorem expt_of_passesEx {s : KyogenRVCpu} (hpasses : s.passesEx io = true) :
    s.expt io = false := by
  rw [KyogenRVCpu.passesEx, Bool.and_eq_true, Bool.not_eq_true', Bool.not_eq_true',
    KyogenRVCpu.instKill, Bool.or_eq_false_iff] at hpasses
  exact hpasses.2.2

theorem isInstRet_nop {s : KyogenRVCpu} (hinst : s.ex.inst = Instructions.nop) :
    s.isInstRet io = false := by
  have hbne : (s.ex.inst != Instructions.nop) = false := by rw [hinst]; rfl
  change (s.ex.inst != Instructions.nop && _ && _) = false
  rw [hbne, Bool.false_and, Bool.false_and]

theorem isInstRet_iff {s : KyogenRVCpu} (hinst : s.ex.inst ≠ Instructions.nop) :
    s.isInstRet io = true ↔ s.stall io = false ∧
      ¬(s.expt io = true ∧ Csr.isEcall (s.csrPorts io) = false ∧
        Csr.isEbreak (s.csrPorts io) = false) := by
  have hbne : (s.ex.inst != Instructions.nop) = true := bne_iff_ne.mpr hinst
  change (s.ex.inst != Instructions.nop && (!s.expt io || _ || _) && !s.stall io) = true ↔ _
  rw [hbne]
  cases s.expt io <;> cases s.stall io <;> simp [← Bool.not_eq_true, or_iff_not_imp_left]

/-- With NOP in EX only the first clause is open. -/
theorem countedOnce_nop (hinst : h.cpu.ex.inst = Instructions.nop) :
    h.CountedOnce io ↔ h.retires io = false := by
  rw [retires]
  constructor
  · intro honce
    cases hfetched : h.fetched with
    | false => rfl
    | true => rw [honce.nop hfetched hinst, Bool.and_false]
  · intro hretires
    refine ⟨fun hfetched _ => ?_, absurd hinst, absurd hinst⟩
    rwa [hfetched, Bool.true_and] at hretires

/-- With another word in EX the other two are. -/
theorem countedOnce_word (hinst : h.cpu.ex.inst ≠ Instructions.nop) :
    h.CountedOnce io ↔ (h.cpu.isInstRet io = true ↔ h.cpu.passesEx io = true) := by
  rw [isInstRet_iff hinst]
  cases hpasses : h.cpu.passesEx io with
  | true =>
      have hexpt := expt_of_passesEx hpasses
      constructor
      · intro honce
        refine iff_of_true ⟨honce.passed hinst hpasses, fun hraised => ?_⟩ rfl
        exact absurd (hexpt.symm.trans hraised.1) Bool.false_ne_true
      · intro hiff
        obtain ⟨hstall, _⟩ := hiff.mpr rfl
        exact ⟨fun _ h => absurd h hinst, fun _ _ => hstall,
          fun _ h => absurd (h.symm.trans hpasses) Bool.false_ne_true⟩
  | false =>
      constructor
      · intro honce
        refine iff_of_false (fun ⟨hstall, hraised⟩ => ?_) Bool.false_ne_true
        rcases honce.kept hinst hpasses with hstalled | hkept
        · exact absurd (hstall.symm.trans hstalled) Bool.false_ne_true
        · exact hraised hkept
      · intro hiff
        refine ⟨fun _ h => absurd h hinst,
          fun _ h => absurd (hpasses.symm.trans h) Bool.false_ne_true, fun _ _ => ?_⟩
        by_contra hkept
        rw [not_or, Bool.not_eq_true] at hkept
        exact absurd (hiff.mp hkept) Bool.false_ne_true

/-- `isInstRet` tells the retired instructions exactly under the condition. -/
theorem isInstRet_eq_retires_iff (hmarked : h.Marked) :
    h.cpu.isInstRet io = h.retires io ↔ h.CountedOnce io := by
  by_cases hinst : h.cpu.ex.inst = Instructions.nop
  · rw [countedOnce_nop hinst, isInstRet_nop hinst, eq_comm]
  · have hfetched : h.fetched = true := by
      rw [← Bool.not_eq_false]
      exact fun hmark => hinst (hmarked.ex hmark)
    rw [countedOnce_word hinst, retires, hfetched, Bool.true_and, Bool.eq_iff_iff]

/-- A counter that stands at the count stays there if it advances when the count does. -/
theorem advance_eq_iff (n : ℕ) (a b : Bool) :
    (if a then BitVec.ofNat (32 + 32) n + 1 else BitVec.ofNat (32 + 32) n) =
        BitVec.ofNat (32 + 32) (if b then n + 1 else n) ↔ a = b := by
  cases a <;> cases b <;> simp [BitVec.ofNat_add]

theorem counted_step_iff (hmarked : h.Marked) (hcounted : h.Counted)
    (hspares : h.cpu.SparesInstret io) : (h.step io).Counted ↔ h.CountedOnce io := by
  have hcounter := KyogenRVCpu.counter_instret hspares
  rw [hcounted] at hcounter
  rw [← isInstRet_eq_retires_iff hmarked, ← advance_eq_iff h.retired, ← hcounter]
  rfl

theorem counted_start {s : KyogenRVCpu} (hs : s.IsReset) : (start s).Counted := by
  obtain ⟨_, _, _, _, _, _, _, rfl⟩ := hs
  change (0 : Word) ++ (0 : Word) = BitVec.ofNat (32 + 32) 0
  decide

/-- Over every run from reset without writes to it, the counter is the number
of instructions that have passed EX on the committed path in every state
exactly if each cycle meets the condition. -/
theorem counted_iff {s : KyogenRVCpu} {inputs : List HostIf} (hs : s.IsReset)
    (hspares : Machine.Along step (fun h io => h.cpu.SparesInstret io) (start s) inputs) :
    Machine.Along step (fun h io => (h.step io).Counted) (start s) inputs ↔
      Machine.Along step CountedOnce (start s) inputs := by
  have hstart : (start s).Marked ∧ (start s).Counted := ⟨marked_start hs, counted_start hs⟩
  constructor
  · intro hcounted
    exact Machine.along_of_invariant (I := fun h => h.Marked ∧ h.Counted)
      (fun _ io hinv hcycle => ⟨marked_step hinv.1 io, hcycle.2⟩)
      (fun _ _ hinv hcycle => (counted_step_iff hinv.1 hinv.2 hcycle.1).mp hcycle.2)
      hstart (hspares.and hcounted)
  · intro honce
    exact Machine.along_of_invariant (I := fun h => h.Marked ∧ h.Counted)
      (fun _ io hinv hcycle =>
        ⟨marked_step hinv.1 io, (counted_step_iff hinv.1 hinv.2 hcycle.1).mpr hcycle.2⟩)
      (fun _ _ hinv hcycle => (counted_step_iff hinv.1 hinv.2 hcycle.1).mpr hcycle.2)
      hstart (hspares.and honce)

/-- The core fetches `inst` behind the start-up delay, and receives nothing
after it. -/
def fetching (insts : List Word) (rest : List HostIf) : List HostIf :=
  List.replicate 11 .idle ++ insts.map .fetch ++ rest

/-- `addi x1, x0, 0` without waits. -/
theorem counted_addi :
    Machine.Along step (fun h io => (h.step io).Counted) (start KyogenRVCpu.zeroReset)
      (fetching (List.replicate 3 0x00000093) (List.replicate 3 .idle)) :=
  (counted_iff KyogenRVCpu.isReset_zeroReset (by decide)).mpr (by decide)

/-- `addi x1, x0, 0` held in EX by a wait counts twice. -/
theorem counted_twice :
    ¬∀ (s : KyogenRVCpu) (inputs : List HostIf), s.IsReset →
      Machine.Along step (fun h io => h.cpu.SparesInstret io) (start s) inputs →
      Machine.Along step (fun h io => (h.step io).Counted) (start s) inputs := by
  intro h
  have hcounted := h _ (fetching [0x00000093] [.idle, { HostIf.idle with wDatawaitreqSig := true },
    .idle]) KyogenRVCpu.isReset_zeroReset (by decide)
  revert hcounted
  unfold Counted
  decide

end RetireTrace

end KyogenRV
