import KyogenRV.Core.Access

/-!
# Requests that a port makes wait

An Avalon master keeps a request and what goes with it until the port stops
waiting.  The data port reads its request off MEM, which a wait holds.  The
request of the instruction port is a register of its own, and a load or store
in EX or MEM takes it back whether or not the port has accepted it.
-/

namespace KyogenRV

open ScalarOpConstants MemoryOpConstants

namespace KyogenRVCpu

section Hold

variable (s : KyogenRVCpu) (io : HostIf)

/-- A fetch that waits is requested again at the same address. -/
def HoldsFetch : Prop :=
  s.imemReq = true → io.wWaitrequestSig = true →
    (s.step io).imemReq = true ∧ (s.step io).imemAddr = s.imemAddr

/-- A data access that waits is requested again: a read with its address and
byte enables, a write with its data as well. -/
def HoldsAccess : Prop :=
  io.wDatawaitreqSig = true → ∀ io' : HostIf, io'.halt = false →
    (s.rDmemReq io = true → (s.step io).rDmemReq io' = true ∧
      (s.step io).dmemAddr io' = s.dmemAddr io ∧
      (s.step io).wDmemByteenable = s.wDmemByteenable) ∧
    (s.wDmemReq io = true → (s.step io).wDmemReq io' = true ∧
      (s.step io).busWrite io' = s.busWrite io)

/-- With halt low both ports hold their requests. -/
def PortsHold : Prop := io.halt = false → s.HoldsFetch io ∧ s.HoldsAccess io

/-- While a fetch waits no load or store is in EX or MEM, and the write address
of a halt that has just ended is the pc. -/
def FetchUndisturbed : Prop :=
  io.halt = false → s.imemReq = true → io.wWaitrequestSig = true →
    s.loadstoreInPipe = false ∧ (s.wReq = true → s.wAddr = s.pcCntr)

end Hold

section Step

variable {s : KyogenRVCpu} {io : HostIf}

theorem waitrequest_of_fetch (hwait : io.wWaitrequestSig = true) : s.waitrequest io = true := by
  rw [waitrequest, hwait, Bool.true_or, Bool.true_or]

theorem waitrequest_of_access (hwait : io.wDatawaitreqSig = true) : s.waitrequest io = true := by
  rw [waitrequest, hwait, Bool.or_true, Bool.true_or]

/-- Under a wait the fetch request falls exactly with an access in the pipeline. -/
theorem imemReq_of_wait (hwait : s.waitrequest io = true) :
    (s.step io).imemReq = (!s.loadstoreInPipe && s.imemReq) := by
  rw [step_imemReq, ifStage, hwait]
  cases s.loadstoreInPipe <;> simp

/-- Under a wait the next fetch address is the pc. -/
theorem imemAddr_of_wait (hhalt : io.halt = false) (hwait : s.waitrequest io = true) :
    (s.step io).imemAddr = s.pcCntr := by
  simp [imemAddr, pcCntrNext, hhalt, hwait]

theorem holdsFetch_iff (hhalt : io.halt = false) :
    s.HoldsFetch io ↔ (s.imemReq = true → io.wWaitrequestSig = true →
      s.loadstoreInPipe = false ∧ (s.wReq = true → s.wAddr = s.pcCntr)) := by
  refine forall_congr' fun hreq => forall_congr' fun hfetch => ?_
  have hwait := waitrequest_of_fetch (s := s) hfetch
  rw [imemReq_of_wait hwait, imemAddr_of_wait hhalt hwait, hreq, Bool.and_true,
    Bool.not_eq_true', imemAddr]
  cases s.wReq with
  | false => simp
  | true => exact and_congr_right fun _ => ⟨fun h _ => h.symm, fun h => (h rfl).symm⟩

/-- The data port always holds its request. -/
theorem holdsAccess (haligned : s.AccessesAligned) (hhalt : io.halt = false) :
    s.HoldsAccess io := by
  intro hdata io' hhalt'
  have hmem : (s.step io).mem = s.mem := (stages_of_wait (waitrequest_of_access hdata)).2.1
  constructor
  · intro hread
    refine ⟨?_, ?_, ?_⟩
    · rw [rDmemReq, hhalt] at hread
      rw [rDmemReq, hhalt', hmem]
      exact hread
    · rw [dmemAddr, dmemAddr, hhalt, hhalt', hmem]
      rfl
    · rw [wDmemByteenable, memLane, hmem]
      rfl
  · intro hwrite
    rw [wDmemReq, hhalt, if_neg Bool.false_ne_true] at hwrite
    have hstore : s.mem.ctrl.memWr = mXwr := beq_iff_eq.mp hwrite
    have hlane := haligned.mem (by rw [hstore]; decide)
    constructor
    · rw [wDmemReq, hhalt', hmem, if_neg Bool.false_ne_true]
      exact hwrite
    · rw [busWrite_eq_storeWrite io hhalt hstore hlane,
        busWrite_eq_storeWrite io' hhalt' (by rw [hmem]; exact hstore) (by rw [hmem]; exact hlane),
        hmem]

theorem portsHold_iff (haligned : s.AccessesAligned) :
    s.PortsHold io ↔ s.FetchUndisturbed io := by
  refine forall_congr' fun hhalt => ?_
  rw [holdsFetch_iff hhalt]
  exact and_iff_left (holdsAccess haligned hhalt)

end Step

/-- Over every run from reset, both ports hold the requests that they make
wait in every cycle with halt low, exactly if every cycle leaves the waiting
fetch undisturbed. -/
theorem ports_hold_iff {s : KyogenRVCpu} {inputs : List HostIf} (hs : s.IsReset) :
    Machine.Along step PortsHold s inputs ↔ Machine.Along step FetchUndisturbed s inputs :=
  Machine.along_congr (I := fun t => t.Coherent ∧ t.AccessesAligned)
    (fun _ io h => ⟨coherent_step h.1 io, accessesAligned_step h.2 h.1 io⟩)
    (fun _ _ h => portsHold_iff h.2) ⟨coherent_reset hs, accessesAligned_reset hs⟩

/-- A fetch that waits behind an addition is held. -/
theorem ports_hold_iff_addi :
    Machine.Along step PortsHold zeroReset
      (List.replicate 11 .idle ++
        [.fetch 0x00108093, .fetch 0x00000013,
          { HostIf.fetch 0x00000013 with wWaitrequestSig := true }, .fetch 0x00000013]) :=
  (ports_hold_iff isReset_zeroReset).mpr (by unfold FetchUndisturbed; decide)

/-- A fetch that waits with a load in EX is taken back. -/
theorem fetch_taken_back :
    ¬∀ (s : KyogenRVCpu) (io : HostIf), s.Reachable → io.halt = false → s.PortsHold io := by
  intro h
  have hholds := h (sample [.fetch 0x00002083, .fetch 0x00000013])
    { HostIf.fetch 0x00000013 with wWaitrequestSig := true } (reachable_sample _) rfl
  have hreq := ((hholds rfl).1 (by decide +kernel) rfl).1
  revert hreq
  decide +kernel

end KyogenRVCpu

end KyogenRV
