import KyogenRV.Core.Loading
import KyogenRV.Core.MemRefinement

/-!
# From reset to the program

The whole start of the simulation top: the pins hold the core in halt from reset
on, show a program at the load port, and let it go.  Of everything that is in
the memories at reset only what the load has left counts, and all register
writes from the first clock on are those of that program.
-/

namespace KyogenRV

open MemoryOpConstants

/-! ## Words -/

/-- The instructions at the addresses of an image. -/
def imageOf (words : BitVec 14 → Word) (addr : Word) : Word := words (Banks.addrAlign addr)

/-- The words of a memory as bytes. -/
def bytesOf (words : BitVec 14 → Word) : ByteMem := fun addr =>
  (words (BitVec.ofNat 14 (addr / 4))).extractLsb' (8 * (addr % 4)) 8

/-- What a memory holds after a load from reset on.  The load port comes out of
reset with a write of 0 to the first word. -/
def loadedWords (words : BitVec 14 → Word) (pairs : List (Word × Word)) : BitVec 14 → Word :=
  install (Function.update words 0 0) pairs

namespace CpuBus

section Boot

variable {b : CpuBus} {loads : List TestIf} {sw : TestIf} {pairs : List (Word × Word)}

/-! ## Before the fetch -/

theorem written_of_idle (hb : b.Idle) (sw : TestIf) : b.cpu.written (b.hostIf sw) = [] := by
  have hpending : b.cpu.wbPending (b.hostIf sw) = [] := by
    rw [KyogenRVCpu.wbPending, hb.wb.2, bne_self_eq_false, Bool.and_false]
    rfl
  rw [KyogenRVCpu.written, hpending, ite_self]

/-- No register is written while the core loads. -/
theorem writes_of_loads (hb : b.IsReset) (hhalt : ∀ sw ∈ loads, sw.halt = true) :
    b.writes loads = [] ∧ (Machine.run step b loads).Loading := by
  have hend : [] ++ b.writes loads = [] ∧ (Machine.run step b loads).Loading := by
    refine Machine.outputs_invariant (H := fun history (t : CpuBus) => history = [] ∧ t.Loading)
      (fun history t sw ht hsw => ?_) ⟨rfl, loading_reset hb⟩ (Machine.along_of_mem hhalt)
    rw [ht.1, written_of_idle ht.2.idle]
    exact ⟨rfl, loading_step ht.2 hsw⟩
  exact hend

/-- Nor is the data memory written while the halt is off and nothing is in MEM. -/
theorem dmem_word_of_idle (hb : b.Idle) (hhalt : b.swHalt = false) (sw : TestIf) :
    (b.step sw).dmem.word = b.dmem.word := by
  obtain ⟨_, _, hmem, _⟩ := hb.boot.idle (by rw [hb.delay]; decide)
  have hwrite : Banks.acceptWrite (b.dmemReq sw) = false := by
    have hreq : b.cpu.wDmemReq (b.hostIf sw) = false := by
      have hhost : (b.hostIf sw).halt = false := hhalt
      rw [KyogenRVCpu.wDmemReq, hhost, hmem]
      rfl
    rw [Banks.acceptWrite, dmemReq, hreq, Bool.false_and]
  exact Banks.word_step_of_read hwrite

/-! ## Release -/

/-- The two clocks of the release store what is on its way. -/
theorem words_release (hb : b.Loading) (go₁ go₂ : TestIf) (hgo₁ : go₁.halt = false)
    (haddr : ∀ pair ∈ b.inCore ++ b.inPort, pair.1 ≤ 0x3000) :
    ((b.step go₁).step go₂).imem.word = install b.imem.word (b.inCore ++ b.inPort) ∧
      ((b.step go₁).step go₂).dmem.word = install b.dmem.word b.inPort := by
  rw [List.forall_mem_append] at haddr
  have hidle : (b.step go₁).Idle := idle_step hb.idle hb.wReq go₁
  have hclear : (b.step go₁).LoadClear := by
    obtain ⟨hfetch, _, hmem, _⟩ := hidle.boot.idle (by rw [hidle.delay]; decide)
    refine ⟨fun _ => hfetch, ?_⟩
    rw [hmem, KyogenRVCpu.nop_noAccess]
    decide
  have hcore : ∀ pair ∈ (b.step go₁).inCore, pair.1 ≤ 0x3000 := by
    rw [inCore_step]
    exact haddr.2
  constructor
  · rw [imem_word_step hclear hcore, imem_word_step hb.loadClear haddr.1, inCore_step,
      install_append]
  · rw [dmem_word_of_idle hidle hgo₁, dmem_word_step hb.swHalt hb.loadClear haddr.2]

/-- The fetch starts at the address that the last clock in halt has shown. -/
theorem pcCntr_release (hb : b.Loading) (hpc : b.wPc = 0) (go₁ go₂ : TestIf)
    (hgo₁ : go₁.halt = false) : ((b.step go₁).step go₂).cpu.pcCntr = 0 := by
  have hidle : (b.step go₁).Idle := idle_step hb.idle hb.wReq go₁
  have hreq : (b.step go₁).cpu.imemReq = false :=
    (hidle.boot.idle (by rw [hidle.delay]; decide)).1
  have hhalt : (b.hostIf go₁).halt = true := hb.swHalt
  calc ((b.step go₁).step go₂).cpu.pcCntr = (b.step go₁).cpu.pcCntr :=
        KyogenRVCpu.pcCntr_of_noReq hgo₁ hreq
    _ = b.wPc := if_pos hhalt
    _ = 0 := hpc

theorem wPc_loads (hb : b.IsReset) (hpc : ∀ sw ∈ loads.getLast?, sw.wPc = 0) :
    (Machine.run step b loads).wPc = 0 := by
  obtain rfl | ⟨shown, sw, rfl⟩ := List.eq_nil_or_concat loads
  · exact hb.2.2.2.1
  · rw [List.concat_eq_append] at hpc ⊢
    rw [Machine.run_concat]
    exact hpc sw (by simp)

/-- After the load and the release both memories hold the pairs. -/
theorem words_boot (hreset : b.IsReset) (hhalt : ∀ sw ∈ loads, sw.halt = true)
    (hpresents : Presents pairs (loads.map TestIf.pair)) (haddr : ∀ pair ∈ pairs, pair.1 ≤ 0x3000)
    (go₁ go₂ : TestIf) (hgo₁ : go₁.halt = false) :
    (Machine.run step b (loads ++ [go₁, go₂])).imem.word = loadedWords b.imem.word pairs ∧
      (Machine.run step b (loads ++ [go₁, go₂])).dmem.word = loadedWords b.dmem.word pairs := by
  obtain ⟨-, hloading⟩ := writes_of_loads hreset hhalt
  obtain ⟨hswHalt, hdata, hwaddr, -, ⟨_, _, _, _, _, _, _, hcpu⟩, -⟩ := id hreset
  have hport : b.inPort = [(0, 0)] := by
    rw [inPort, if_pos hswHalt, hdata, hwaddr]
  have hcore : b.inCore = [(0, 0)] := by
    rw [inCore, hcpu]
    rfl
  have hshown := hpresents.forall_fst (P := (· ≤ 0x3000)) haddr
  have hall : ∀ pair ∈ b.inCore ++ b.inPort ++ loads.map TestIf.pair, pair.1 ≤ 0x3000 := by
    rw [hport, hcore, List.forall_mem_append]
    refine ⟨?_, hshown⟩
    simp only [List.cons_append, List.nil_append, List.forall_mem_cons, List.not_mem_nil,
      false_imp_iff, implies_true, and_true]
    decide
  obtain ⟨himem, hdmem⟩ := words_run hswHalt hhalt hall (loadClear_of_reset hreset hhalt)
  have hflight := inFlight_run (b := b) hhalt
  obtain ⟨himem', hdmem'⟩ := words_release hloading go₁ go₂ hgo₁ fun pair hpair =>
    hall pair (hflight.subset hpair)
  have htwice (words : BitVec 14 → Word) :
      install words [(0, 0), (0, 0)] = Function.update words 0 0 := Function.update_idem ..
  rw [Machine.run_append, Machine.run_cons, Machine.run_cons, Machine.run_nil]
  constructor
  · calc _ = install b.imem.word (b.inCore ++ b.inPort ++ loads.map TestIf.pair) :=
          himem'.trans himem
      _ = install (Function.update b.imem.word 0 0) (loads.map TestIf.pair) := by
        rw [hport, hcore, install_append]
        exact congrArg (install · _) (htwice _)
      _ = loadedWords b.imem.word pairs := install_presents hpresents
  · calc _ = install b.dmem.word (b.inPort ++ loads.map TestIf.pair) := hdmem'.trans hdmem
      _ = install (Function.update b.dmem.word 0 0) (loads.map TestIf.pair) := by
        rw [hport]
        rfl
      _ = loadedWords b.dmem.word pairs := install_presents hpresents

/-- From reset on, whatever the memories hold: a program that is shown at the
load port in halt is executed after the release.  In every run whose cycles keep
the words of the fetch and the answers of the data port, all registers written
since reset are those of the first `w` instructions of what was loaded, and the
data memory holds the bytes left by them or by at most two more. -/
theorem boots_program {go₁ go₂ : TestIf} {inputs : List TestIf} (hreset : b.IsReset)
    (hhalt : ∀ sw ∈ loads, sw.halt = true) (hpresents : Presents pairs (loads.map TestIf.pair))
    (haddr : ∀ pair ∈ pairs, pair.1 ≤ 0x3000) (hpc : ∀ sw ∈ loads.getLast?, sw.wPc = 0)
    (hgo₁ : go₁.halt = false) (hgo₂ : go₂.halt = false)
    (hprog : MemProgram (imageOf (loadedWords b.imem.word pairs))
      (bytesOf (loadedWords b.dmem.word pairs)))
    (hrun : Machine.Along step Kept (Machine.run step b (loads ++ [go₁, go₂])) inputs) :
    ∃ w m, w ≤ m ∧ m ≤ w + 2 ∧
      b.writes (loads ++ [go₁, go₂] ++ inputs) =
        Rv32i.memTrace (imageOf (loadedWords b.imem.word pairs))
          (.start (bytesOf (loadedWords b.dmem.word pairs))) w ∧
      (Machine.run step b (loads ++ [go₁, go₂] ++ inputs)).dmem.bytes.AgreeBelow
        (execution (imageOf (loadedWords b.imem.word pairs))
          (bytesOf (loadedWords b.dmem.word pairs)) m).mem Banks.size := by
  obtain ⟨hnone, hloading⟩ := writes_of_loads hreset hhalt
  obtain ⟨himem, hdmem⟩ := words_boot hreset hhalt hpresents haddr go₁ go₂ hgo₁
  have hidle : ((Machine.run step b loads).step go₁).Idle :=
    idle_step hloading.idle hloading.wReq go₁
  have hwrites : b.writes (loads ++ [go₁, go₂]) = [] := by
    rw [writes, Machine.outputs_append, ← writes, hnone, Machine.outputs_cons,
      Machine.outputs_cons, Machine.outputs_nil, written_of_idle hloading.idle,
      written_of_idle hidle]
    rfl
  have hstart : (Machine.run step b (loads ++ [go₁, go₂])).cpu.pcCntr = 0 := by
    rw [Machine.run_append]
    exact pcCntr_release hloading (wPc_loads hreset hpc) go₁ go₂ hgo₁
  have hreleased : (Machine.run step b (loads ++ [go₁, go₂])).Released :=
    ⟨b, loads, go₁, go₂, hreset, hhalt, hgo₁, hgo₂, rfl⟩
  have himage : (Machine.run step b (loads ++ [go₁, go₂])).image =
      imageOf (loadedWords b.imem.word pairs) := by
    rw [← himem]
    rfl
  have hbytes : (Machine.run step b (loads ++ [go₁, go₂])).dmem.bytes =
      bytesOf (loadedWords b.dmem.word pairs) := by
    rw [← hdmem]
    rfl
  have hall : b.writes (loads ++ [go₁, go₂] ++ inputs) =
      [] ++ (Machine.run step b (loads ++ [go₁, go₂])).writes inputs := by
    rw [writes, Machine.outputs_append, ← writes, hwrites, ← writes]
  rw [← himage, ← hbytes] at hprog ⊢
  obtain ⟨f, _, _, _, hbus, hsim⟩ := hreleased.simulates_run hstart hprog hrun
  have hend : Machine.run step b (loads ++ [go₁, go₂] ++ inputs) = f.bus :=
    Machine.run_append.trans hbus.symm
  rw [hall, hend]
  exact hsim.executed

end Boot

/-! ### Sample start -/

/-- The clocks in which the tester loads `copyWord` up to its loop. -/
def copyLoads : List TestIf :=
  (testerPins 0 [(0, copyWord 0), (4, copyWord 1), (8, copyWord 2), (12, copyWord 3)]).map loadPair

theorem loadedWords_copyWord :
    loadedWords (fun _ => 0x0000006f)
      [(0, copyWord 0), (4, copyWord 1), (8, copyWord 2), (12, copyWord 3)] = copyWord := by
  funext index
  have h₀ : Banks.addrAlign 0 = 0 := rfl
  have h₁ : Banks.addrAlign 4 = 1 := rfl
  have h₂ : Banks.addrAlign 8 = 2 := rfl
  have h₃ : Banks.addrAlign 12 = 3 := rfl
  simp only [loadedWords, install_cons, install_nil, Function.update_apply, h₀, h₁, h₂, h₃,
    copyWord]
  split_ifs <;> simp_all

/-- Over a memory full of loops. -/
theorem boots_program_copyWord :
    let b := resetWith fun _ => 0x0000006f
    let inputs := (List.range 30).map fun cycle => go (cycle == 18)
    let image := imageOf (loadedWords b.imem.word
      [(0, copyWord 0), (4, copyWord 1), (8, copyWord 2), (12, copyWord 3)])
    let mem := bytesOf (loadedWords b.dmem.word
      [(0, copyWord 0), (4, copyWord 1), (8, copyWord 2), (12, copyWord 3)])
    b.writes (copyLoads ++ [go false, go false] ++ inputs) = [(1, 7), (2, 7), (3, 8)] ∧
      ∃ w m, w ≤ m ∧ m ≤ w + 2 ∧
        b.writes (copyLoads ++ [go false, go false] ++ inputs) =
          Rv32i.memTrace image (.start mem) w ∧
        (Machine.run step b (copyLoads ++ [go false, go false] ++ inputs)).dmem.bytes.AgreeBelow
          (execution image mem m).mem Banks.size := by
  intro b inputs image mem
  have himage : image = (loaded copyWord).image := by
    have hwords : b.imem.word = fun _ => 0x0000006f := Banks.word_ofWords _
    funext addr
    rw [image_loaded]
    change imageOf (loadedWords b.imem.word _) addr = _
    rw [hwords, loadedWords_copyWord]
    rfl
  have hprog : MemProgram image mem := by
    rw [himage]
    exact memProgram_copyWord mem
  refine ⟨by decide +kernel, boots_program (isReset_resetWith _) (by decide)
    (presents_testerPins 0 _) ?_ (by decide) rfl rfl hprog (by decide +kernel)⟩
  simp only [List.forall_mem_cons, List.not_mem_nil, false_imp_iff, implies_true, and_true]
  decide

end CpuBus

end KyogenRV
