import KyogenRV.Core.Fetch

/-!
# Loading and release

While the core is in halt the load port writes the instruction memory and
nothing is fetched.  Halt reaches the core one cycle late, and the last word is
written one cycle later still: the run of a program begins two cycles after the
pin went low.
-/

namespace KyogenRV

open ScalarOpConstants MemoryOpConstants

namespace CpuBus

/-- Reset, any number of cycles in halt that load the memory, and the two
cycles that the low halt pin takes to reach the core. -/
def Released (b : CpuBus) : Prop :=
  ∃ b₀ loads go₁ go₂, IsReset b₀ ∧ (∀ sw ∈ loads, sw.halt = true) ∧ go₁.halt = false ∧
    go₂.halt = false ∧ Machine.run step b₀ (loads ++ [go₁, go₂]) = b

/-- Nothing has been fetched since reset. -/
structure Idle (b : CpuBus) : Prop where
  reachable : b.cpu.Reachable
  boot : b.cpu.BootInv
  delay : b.cpu.delayStall = 0
  readSig : b.cpu.imemReadSig = false
  ifPc : b.cpu.ifPc = pcStart
  id : b.cpu.id = .bubble
  idTemp : b.cpu.idTemp = .bubble
  tempLock : b.cpu.tempLock = false
  mem : b.cpu.mem.regWaddr = 0
  wb : b.cpu.wb.ctrl = nopCtrl ∧ b.cpu.wb.regWaddr = 0
  regs : ∀ r, b.cpu.rv32iReg r = 0
  inLoadstore : b.cpu.inLoadstore = false
  ack : b.imem.rAck = false

section Release

variable {b : CpuBus} {sw : TestIf}

theorem idle_reset (hb : b.IsReset) : b.Idle := by
  obtain ⟨_, _, _, _, hcpu, hack, _⟩ := hb
  have hboot := KyogenRVCpu.bootInv_reset hcpu
  have hreach : b.cpu.Reachable := Machine.Reachable.of_init hcpu
  obtain ⟨_, _, _, _, _, _, _, hcpu⟩ := hcpu
  constructor
  case reachable => exact hreach
  case boot => exact hboot
  case ack => exact hack
  case wb => rw [hcpu]; exact ⟨rfl, rfl⟩
  case regs => intro r; rw [hcpu]; rfl
  all_goals rw [hcpu]; rfl

/-- While the core loads it stays idle. -/
theorem idle_step (hb : b.Idle) (hreq : b.cpu.wReq = true) (sw : TestIf) : (b.step sw).Idle := by
  have hdelay : b.cpu.delayStall ≠ 7 := by rw [hb.delay]; decide
  obtain ⟨hkill, hstall⟩ := hb.boot.quiet (b.hostIf sw) hdelay
  obtain ⟨hfetch, hex, hmem, _⟩ := hb.boot.idle hdelay
  obtain ⟨hid, htemp⟩ := id_of_boot sw hfetch hb.ack
  constructor
  case reachable => exact hb.reachable.next _
  case boot => exact KyogenRVCpu.bootInv_step hb.boot _ (Or.inr hreq)
  case delay => simp [step_cpu, KyogenRVCpu.delayStallNext, hb.readSig]
  case readSig => simp [step_cpu, hreq]
  case ifPc => simp [step_cpu, KyogenRVCpu.ifStage, hstall, hkill, hb.ifPc]
  case id => exact hid.trans hb.id
  case idTemp => exact htemp.trans hb.idTemp
  case tempLock =>
    have hack : (b.hostIf sw).rImemAck = false := hb.ack
    simp [step_cpu, KyogenRVCpu.idStage, KyogenRVCpu.idSave, hfetch, hack, hb.tempLock]
  case mem =>
    refine KyogenRVCpu.mem_step_forall (P := fun mem => mem.regWaddr = 0) rfl (fun _ => ?_) hb.mem
    rw [KyogenRVCpu.memIssue, hex]
    rfl
  case wb =>
    exact KyogenRVCpu.wb_step_forall (P := fun wb => wb.ctrl = nopCtrl ∧ wb.regWaddr = 0)
      ⟨hmem, hb.mem⟩ hb.wb
  case regs =>
    intro r
    rw [step_cpu, KyogenRVCpu.step_rv32iReg, KyogenRVCpu.rv32iRegNext, hb.wb.2, bne_self_eq_false,
      Bool.and_false, if_neg Bool.false_ne_true, hb.regs]
  case inLoadstore =>
    exact KyogenRVCpu.inLoadstore_of_noAccess (by rw [hmem, KyogenRVCpu.nop_noAccess])
      (Or.inl hb.inLoadstore)
  case ack =>
    have hread : Banks.acceptRead b.imemReq = false := by
      rw [Banks.acceptRead, imemReq, hfetch, Bool.false_and]
    have hstep : (b.step sw).imem = b.imem.step b.imemReq := rfl
    rw [hstep, Banks.step, hread, if_neg Bool.false_ne_true]
    split_ifs <;> rfl

/-- The core is being loaded since reset. -/
structure Loading (b : CpuBus) : Prop where
  idle : b.Idle
  wReq : b.cpu.wReq = true
  swHalt : b.swHalt = true

theorem loading_reset (hb : b.IsReset) : b.Loading := by
  refine ⟨idle_reset hb, ?_, hb.1⟩
  obtain ⟨_, _, _, _, ⟨_, _, _, _, _, _, _, hcpu⟩, _⟩ := hb
  rw [hcpu]
  rfl

theorem loading_step (hb : b.Loading) (hhalt : sw.halt = true) : (b.step sw).Loading :=
  ⟨idle_step hb.idle hb.wReq sw, hb.swHalt, hhalt⟩

theorem Released.idle (hb : b.Released) : b.Idle ∧ b.swHalt = false ∧ b.cpu.wReq = false := by
  obtain ⟨b₀, loads, go₁, go₂, hreset, hloads, hgo₁, hgo₂, rfl⟩ := hb
  have hloading : (Machine.run step b₀ loads).Loading :=
    Machine.run_invariant (I := Loading) (fun _ _ ht hsw => loading_step ht hsw)
      (loading_reset hreset) (Machine.along_of_mem hloads)
  rw [Machine.run_append, Machine.run_cons, Machine.run_cons, Machine.run_nil]
  exact ⟨idle_step (idle_step hloading.idle hloading.wReq go₁) hloading.swHalt go₂, hgo₂, hgo₁⟩

/-- Unless the core fetches, the word it has registered is written. -/
theorem imem_word_of_write (hreq : b.cpu.wReq = true) (hfetch : b.cpu.imemReq = false)
    (haddr : b.cpu.wAddr ≤ 0x3000) (sw : TestIf) :
    (b.step sw).imem.word =
      Function.update b.imem.word (Banks.addrAlign b.cpu.wAddr) b.cpu.wData := by
  have himem : b.imemReq = ⟨b.cpu.wAddr, false, true, b.cpu.wData, 15⟩ := by
    rw [imemReq, KyogenRVCpu.imemAddr, hreq, hfetch]
    rfl
  have hwrite : Banks.acceptWrite b.imemReq = true := by
    rw [himem]
    exact decide_eq_true haddr
  have hstep : (b.step sw).imem = b.imem.step b.imemReq := rfl
  rw [hstep, Banks.word_step_of_write (by rw [himem]; rfl) hwrite (by rw [himem]), himem]

/-- What the load port has registered is written to the memory. -/
theorem word_of_load (hb : b.Idle) (hreq : b.cpu.wReq = true) (haddr : b.cpu.wAddr ≤ 0x3000)
    (sw : TestIf) :
    (b.step sw).imem.word =
      Function.update b.imem.word (Banks.addrAlign b.cpu.wAddr) b.cpu.wData :=
  imem_word_of_write hreq (hb.boot.idle (by rw [hb.delay]; decide)).1 haddr sw

end Release

/-! ## Sample images -/

/-- Reset with the given words in the memory. -/
def resetWith (words : BitVec 14 → Word) : CpuBus :=
  ⟨true, 0, 0, 0, KyogenRVCpu.zeroReset, .ofWords words, .ofWords fun _ => 0⟩

/-- A cycle that loads a word to address 0. -/
def load (word : Word) : TestIf := ⟨true, 0, word, 0, false, false, false⟩

/-- A cycle with the halt and interrupt pins low. -/
def go (wait : Bool) : TestIf := ⟨false, 0, 0, 0, false, wait, false⟩

/-- Release with the given words in the memory.  Reset overwrites the first one
and the load port restores it. -/
def loaded (words : BitVec 14 → Word) : CpuBus :=
  Machine.run step (resetWith words) [load (words 0), load (words 0), go false, go false]

theorem isReset_resetWith (words : BitVec 14 → Word) : (resetWith words).IsReset :=
  ⟨rfl, rfl, rfl, rfl, KyogenRVCpu.isReset_zeroReset, rfl, rfl, rfl, rfl⟩

theorem released_loaded (words : BitVec 14 → Word) : (loaded words).Released :=
  ⟨resetWith words, [load (words 0), load (words 0)], go false, go false,
    isReset_resetWith words, by simp [load], rfl, rfl, rfl⟩

theorem image_loaded (words : BitVec 14 → Word) (addr : Word) :
    (loaded words).image addr = words (Banks.addrAlign addr) := by
  have hload {b : CpuBus} {value : Word} (hb : b.Idle) (hreq : b.cpu.wReq = true)
      (haddr : b.cpu.wAddr = 0) (hdata : b.cpu.wData = value) (sw : TestIf) :
      (b.step sw).imem.word = Function.update b.imem.word 0 value := by
    rw [word_of_load hb hreq (by rw [haddr]; decide) sw, haddr, hdata]
    rfl
  have h₀ := idle_reset (isReset_resetWith words)
  have h₁ := idle_step h₀ rfl (load (words 0))
  have h₂ := idle_step h₁ rfl (load (words 0))
  have h₃ := idle_step h₂ rfl (go false)
  have hword : (loaded words).imem.word = words := by
    rw [loaded, Machine.run_cons, Machine.run_cons, Machine.run_cons, Machine.run_cons,
      Machine.run_nil, hload h₃ rfl rfl rfl (go false), hload h₂ rfl rfl rfl (go false),
      hload h₁ rfl rfl rfl (load (words 0)), hload h₀ rfl rfl rfl (load (words 0)), resetWith,
      Banks.word_ofWords, Function.update_idem, Function.update_idem, Function.update_idem]
    exact Function.update_eq_self ..
  rw [image, hword]

end CpuBus

end KyogenRV
