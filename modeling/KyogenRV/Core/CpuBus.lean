import KyogenRV.Core.Cpu
import KyogenRV.Mem.Banks

/-!
# The simulation top

`CpuBus` wires the core to its instruction and data memory and registers the
test interface: halt and the load port reach the core one cycle late, the
interrupt and wait pins directly.
-/

namespace KyogenRV

/-- The inputs of the test interface in one clock cycle. -/
structure TestIf where
  halt : Bool
  wAdd : Word
  wDat : Word
  wPc : Word
  wInterruptSig : Bool
  wWaitrequestSig : Bool
  wDatawaitreqSig : Bool

structure CpuBus where
  swHalt : Bool
  swWdata : Word
  swWaddr : Word
  wPc : Word
  cpu : KyogenRVCpu
  imem : IMem
  dmem : DMem

namespace CpuBus

/-- The registers after reset: the core is reset, the memories hold anything. -/
def IsReset (b : CpuBus) : Prop :=
  b.swHalt = true ∧ b.swWdata = 0 ∧ b.swWaddr = 0 ∧ b.wPc = 0 ∧ b.cpu.IsReset ∧
    b.imem.rAck = false ∧ b.imem.wAck = false ∧ b.dmem.rAck = false ∧ b.dmem.wAck = false

variable (b : CpuBus) (sw : TestIf)

/-- What the core sees in this cycle. -/
def hostIf : HostIf where
  rImemAck := b.imem.rAck
  rImemData := b.imem.rData 15
  rDmemAck := b.dmem.rAck
  rDmemData := b.dmem.rData b.cpu.wDmemByteenable
  halt := b.swHalt
  wAdd := b.swWaddr
  wDat := b.swWdata
  wPc := b.wPc
  wInterruptSig := sw.wInterruptSig
  wWaitrequestSig := sw.wWaitrequestSig
  wDatawaitreqSig := sw.wDatawaitreqSig

def imemReq : MemReq where
  addr := b.cpu.imemAddr
  rReq := b.cpu.imemReq
  wReq := b.cpu.wReq
  data := b.cpu.wData
  byteenable := 15

def dmemReq : MemReq where
  addr := b.cpu.dmemAddr (b.hostIf sw)
  rReq := b.cpu.rDmemReq (b.hostIf sw)
  wReq := b.cpu.wDmemReq (b.hostIf sw)
  data := b.cpu.wDmemData (b.hostIf sw)
  byteenable := b.cpu.wDmemByteenable

def step : CpuBus where
  swHalt := sw.halt
  swWdata := sw.wDat
  swWaddr := sw.wAdd
  wPc := sw.wPc
  cpu := b.cpu.step (b.hostIf sw)
  imem := b.imem.step b.imemReq
  dmem := b.dmem.step (b.dmemReq sw)

@[simp] theorem step_cpu : (b.step sw).cpu = b.cpu.step (b.hostIf sw) := rfl

end CpuBus

end KyogenRV
