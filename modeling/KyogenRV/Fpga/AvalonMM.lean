import KyogenRV.Core.Access

/-!
# The Avalon wrapper

`kyogenrv_fpga_avalonMM` makes the core wait for a port only while that port is
requested, and holds it in halt for the first cycle after reset.  The data port
accepts a write in every cycle with the request up and no data wait, whatever
else holds the store in MEM.
-/

namespace KyogenRV

open ScalarOpConstants MemoryOpConstants

/-- The inputs of the wrapper in one clock cycle. -/
structure AvalonIf where
  rImemDataAck : Bool
  rImemData : Word
  imemWaitrequest : Bool
  rDmemDataAck : Bool
  rDmemData : Word
  dmemWaitrequest : Bool
  swWPc : Word -- `io_sw_w_pc` is left unconnected

structure AvalonMM where
  resetHalt : Bool
  cpu : KyogenRVCpu

namespace AvalonMM

def IsReset (b : AvalonMM) : Prop := b.resetHalt = true ∧ b.cpu.IsReset

section Wiring

variable (b : AvalonMM) (io : AvalonIf)

def halted : HostIf := { HostIf.idle with halt := b.resetHalt }

def rDmemDataReq : Bool := b.cpu.rDmemReq b.halted
def wDmemDataReq : Bool := b.cpu.wDmemReq b.halted

def waitrequest : Bool := b.cpu.imemReq && io.imemWaitrequest
def datawaitreq : Bool := (b.rDmemDataReq || b.wDmemDataReq) && io.dmemWaitrequest

/-- What the core sees in this cycle. -/
def hostIf : HostIf where
  rImemAck := io.rImemDataAck
  rImemData := io.rImemData
  rDmemAck := io.rDmemDataAck
  rDmemData := io.rDmemData
  halt := b.resetHalt
  wAdd := 0
  wDat := 0
  wPc := io.swWPc
  wInterruptSig := false
  wWaitrequestSig := b.waitrequest io
  wDatawaitreqSig := b.datawaitreq io

def step : AvalonMM where
  resetHalt := false
  cpu := b.cpu.step (b.hostIf io)

/-- The data port accepts a write. -/
def accepted : List Write :=
  if b.wDmemDataReq && !b.datawaitreq io then [b.cpu.busWrite (b.hostIf io)] else []

/-- A store leaves MEM. -/
def retired : List Write :=
  if b.cpu.mem.ctrl.memWr == mXwr && !b.cpu.waitrequest (b.hostIf io) then
    [storeWrite b.cpu.mem.ctrl.maskType b.cpu.mem.aluOut b.cpu.mem.rs2]
  else []

/-- The halt cycle after reset is made to wait by the data port, and a store
whose write is accepted is held in MEM by nothing else. -/
def WritesOnce : Prop :=
  (b.resetHalt = true → io.dmemWaitrequest = true) ∧
    (b.cpu.mem.ctrl.memWr = mXwr → b.datawaitreq io = false →
      b.waitrequest io = false ∧ b.cpu.dmemRdWait (b.hostIf io) = false)

end Wiring

/-- Accesses are aligned, and in halt MEM is empty. -/
structure StoreInv (b : AvalonMM) : Prop where
  coherent : b.cpu.Coherent
  aligned : b.cpu.AccessesAligned
  halted : b.resetHalt = true → b.cpu.mem.ctrl.memWr = mX

section Stores

variable {b : AvalonMM} {io : AvalonIf}

theorem storeInv_step (hinv : b.StoreInv) (io : AvalonIf) : (b.step io).StoreInv where
  coherent := KyogenRVCpu.coherent_step hinv.coherent _
  aligned := KyogenRVCpu.accessesAligned_step hinv.aligned hinv.coherent _
  halted := fun hhalt => Bool.noConfusion hhalt

theorem storeInv_reset (hb : b.IsReset) : b.StoreInv where
  coherent := KyogenRVCpu.coherent_reset hb.2
  aligned := KyogenRVCpu.accessesAligned_reset hb.2
  halted := by
    intro _
    have hmem : b.cpu.mem = .bubble := by
      obtain ⟨_, _, _, _, _, _, _, _, hcpu⟩ := hb
      rw [hcpu]
      rfl
    rw [hmem]
    decide

theorem waitrequest_eq : b.cpu.waitrequest (b.hostIf io) =
    (b.waitrequest io || b.datawaitreq io || b.cpu.dmemRdWait (b.hostIf io)) := rfl

theorem resetHalt_of_store (hinv : b.StoreInv) (hstore : b.cpu.mem.ctrl.memWr = mXwr) :
    b.resetHalt = false := by
  by_contra hhalt
  rw [Bool.not_eq_false] at hhalt
  exact absurd (hstore.symm.trans (hinv.halted hhalt)) (by decide)

/-- With a store in MEM, a write is accepted unless the data port waits. -/
theorem accepted_of_store (hinv : b.StoreInv) (hstore : b.cpu.mem.ctrl.memWr = mXwr) :
    b.accepted io = if b.datawaitreq io then [] else
      [storeWrite b.cpu.mem.ctrl.maskType b.cpu.mem.aluOut b.cpu.mem.rs2] := by
  have hhalt := resetHalt_of_store hinv hstore
  have hreq : b.wDmemDataReq = true := by
    simp [wDmemDataReq, KyogenRVCpu.wDmemReq, halted, hhalt, hstore]
  have hwrite := KyogenRVCpu.busWrite_eq_storeWrite (b.hostIf io) hhalt hstore
    (hinv.aligned.mem (by rw [hstore]; decide))
  rw [accepted, hreq, hwrite]
  cases b.datawaitreq io <;> rfl

/-- Without one, a write is accepted only in halt. -/
theorem accepted_of_not_store (hstore : b.cpu.mem.ctrl.memWr ≠ mXwr) :
    b.accepted io = if b.resetHalt && !io.dmemWaitrequest then [b.cpu.busWrite (b.hostIf io)]
      else [] := by
  have hreq : b.wDmemDataReq = b.resetHalt := by
    rw [wDmemDataReq, KyogenRVCpu.wDmemReq, beq_eq_false_iff_ne.mpr hstore]
    cases hhalt : b.resetHalt <;> simp [halted, hhalt]
  rw [accepted, datawaitreq, hreq]
  cases b.resetHalt <;> simp

theorem retired_of_not_store (hstore : b.cpu.mem.ctrl.memWr ≠ mXwr) : b.retired io = [] := by
  rw [retired, beq_eq_false_iff_ne.mpr hstore]
  rfl

theorem retired_of_store (hstore : b.cpu.mem.ctrl.memWr = mXwr) :
    b.retired io = if b.cpu.waitrequest (b.hostIf io) then [] else
      [storeWrite b.cpu.mem.ctrl.maskType b.cpu.mem.aluOut b.cpu.mem.rs2] := by
  rw [retired, hstore]
  cases b.cpu.waitrequest (b.hostIf io) <;> rfl

/-- In each cycle as many writes are accepted as stores leave MEM, or more. -/
theorem retired_or_lt (hinv : b.StoreInv) :
    b.retired io = b.accepted io ∨ (b.retired io).length < (b.accepted io).length := by
  by_cases hstore : b.cpu.mem.ctrl.memWr = mXwr
  · rw [accepted_of_store hinv hstore, retired_of_store hstore, waitrequest_eq]
    cases b.datawaitreq io <;> cases b.waitrequest io <;>
      cases b.cpu.dmemRdWait (b.hostIf io) <;> simp
  · rw [accepted_of_not_store hstore, retired_of_not_store hstore]
    cases b.resetHalt <;> cases io.dmemWaitrequest <;> simp

theorem retired_eq_iff (hinv : b.StoreInv) : b.retired io = b.accepted io ↔ b.WritesOnce io := by
  by_cases hstore : b.cpu.mem.ctrl.memWr = mXwr
  · have hhalt := resetHalt_of_store hinv hstore
    rw [accepted_of_store hinv hstore, retired_of_store hstore, waitrequest_eq, WritesOnce]
    cases b.datawaitreq io <;> cases b.waitrequest io <;>
      cases b.cpu.dmemRdWait (b.hostIf io) <;> simp [hstore, hhalt]
  · have hvacuous : b.WritesOnce io ↔ (b.resetHalt = true → io.dmemWaitrequest = true) :=
      ⟨And.left, fun hhalt => ⟨hhalt, fun hstore' => absurd hstore' hstore⟩⟩
    rw [accepted_of_not_store hstore, retired_of_not_store hstore, hvacuous]
    cases b.resetHalt <;> cases io.dmemWaitrequest <;> simp

end Stores

/-- Over every run from reset, the writes that the data port accepts are those
of the stores that leave MEM, one for each and in order, exactly if every cycle
meets `WritesOnce`. -/
theorem writes_eq_stores_iff {b : AvalonMM} {inputs : List AvalonIf} (hb : b.IsReset) :
    Machine.outputs step retired b inputs = Machine.outputs step accepted b inputs ↔
      Machine.Along step WritesOnce b inputs := by
  rw [Machine.outputs_eq_iff (I := StoreInv) (fun _ io hinv => storeInv_step hinv io)
    (fun _ _ hinv => retired_or_lt hinv) (storeInv_reset hb)]
  exact Machine.along_congr (I := StoreInv) (fun _ io hinv => storeInv_step hinv io)
    (fun _ _ hinv => retired_eq_iff hinv) (storeInv_reset hb)

/-- The instruction port answers with `inst` and the data port with `ack`. -/
def cycle (inst : Word) (ack : Bool) : AvalonIf := ⟨true, inst, false, ack, 0, false, 0⟩

/-- The data port waits in the first cycle, the answer to the first fetch comes
in the twelfth. -/
def boot : List AvalonIf :=
  { cycle Instructions.nop false with dmemWaitrequest := true } ::
    List.replicate 12 (cycle Instructions.nop false)

def zeroReset : AvalonMM := ⟨true, KyogenRVCpu.zeroReset⟩

/-- A byte store is written once. -/
theorem writes_eq_stores_iff_sb :
    let inputs := boot ++ cycle 0x000000a3 false :: List.replicate 4 (cycle Instructions.nop false)
    Machine.outputs step retired zeroReset inputs =
      Machine.outputs step accepted zeroReset inputs :=
  (writes_eq_stores_iff ⟨rfl, KyogenRVCpu.isReset_zeroReset⟩).mpr
    (by unfold WritesOnce; decide +kernel)

/-- A store behind a load that is answered late: the write is accepted in every
cycle in which the load waits. -/
theorem store_written_twice :
    ¬∀ (b : AvalonMM) (inputs : List AvalonIf), b.IsReset →
      Machine.outputs step retired b inputs = Machine.outputs step accepted b inputs := by
  intro h
  have heq := congrArg List.length (h zeroReset
    (boot ++ [cycle 0x00002083 false, cycle 0x00002023 false] ++
      List.replicate 2 (cycle Instructions.nop false) ++
      [cycle Instructions.nop false, cycle Instructions.nop true, cycle Instructions.nop false])
    ⟨rfl, KyogenRVCpu.isReset_zeroReset⟩)
  revert heq
  decide

end AvalonMM

end KyogenRV
