import Mathlib.Tactic.IntervalCases
import KyogenRV.Core.Kill

/-!
# Reading and writing CSRs

What the addresses of the CSR file stand for, and the law of a CSR instruction:
it reads the addressed register, and its write is visible at every alias of the
address and nowhere else.
-/

namespace KyogenRV

namespace Csr

/-! ## The module by itself -/

/-- A clock edge under the inputs `io` and `io.stall`. -/
def step (c : Csr) (ports : CsrIO × Bool) : Csr := c.next ports.1 ports.2

/-- The module is in a state that reset can leave it in. -/
def IsReset (c : Csr) : Prop :=
  ∃ mtimecmp mscratch mepc mcause mfromhost, c = reset mtimecmp mscratch mepc mcause mfromhost

/-- Reachable from reset under any inputs. -/
abbrev Reachable (c : Csr) : Prop := Machine.Reachable step IsReset c

/-! ## The register file -/

/-- What an address of the CSR file stands for. -/
inductive Reg where
  | cycle | time | instret | cycleh | timeh | instreth
  | mcpuid | mimpid | mhartid | medeleg | satp | misa
  | mtvec | mie | mtimecmp | mscratch | mepc | mcause | mip | mstatus | mtval
  deriving DecidableEq

/-- The readable addresses. -/
def readable : List (BitVec 12 × Reg) := [
  (CsrAddr.cycle, .cycle), (CsrAddr.time, .time), (CsrAddr.instret, .instret),
  (CsrAddr.cycleh, .cycleh), (CsrAddr.timeh, .timeh), (CsrAddr.instreth, .instreth),
  (CsrAddr.cyclew, .cycle), (CsrAddr.satp, .satp), (CsrAddr.timew, .time),
  (CsrAddr.instretw, .instret), (CsrAddr.cyclehw, .cycleh), (CsrAddr.timehw, .timeh),
  (CsrAddr.instrethw, .instreth), (CsrAddr.mcpuid, .mcpuid), (CsrAddr.mimpid, .mimpid),
  (CsrAddr.mhartid, .mhartid), (CsrAddr.mtvec, .mtvec), (CsrAddr.medeleg, .medeleg),
  (CsrAddr.mie, .mie), (CsrAddr.mtimecmp, .mtimecmp), (CsrAddr.mtime, .time),
  (CsrAddr.mtimeh, .timeh), (CsrAddr.mscratch, .mscratch), (CsrAddr.mepc, .mepc),
  (CsrAddr.mcause, .mcause), (CsrAddr.mip, .mip), (CsrAddr.mstatus, .mstatus),
  (CsrAddr.misa, .misa), (CsrAddr.mtval, .mtval)]

/-- The register read at an address. -/
def regOf (addr : BitVec 12) : Option Reg := readable.lookup addr

/-- The addresses that software can write. -/
def writable : List (BitVec 12) := [
  CsrAddr.mstatus, CsrAddr.mip, CsrAddr.mie, CsrAddr.mtvec, CsrAddr.mscratch, CsrAddr.mepc,
  CsrAddr.mcause, CsrAddr.mtime, CsrAddr.timew, CsrAddr.mtimeh, CsrAddr.timehw,
  CsrAddr.cyclew, CsrAddr.cyclehw, CsrAddr.instretw, CsrAddr.instrethw]

section Values

variable (c : Csr) (io : CsrIO)

/-- What a register reads as. -/
def value : Reg → Word
  | .cycle => c.cycle
  | .time => c.time
  | .instret => c.instret
  | .cycleh => c.cycleh
  | .timeh => c.timeh
  | .instreth => c.instreth
  | .mcpuid => mcpuid
  | .mimpid => mimpid
  | .mhartid => mhartid
  | .medeleg => medeleg
  | .satp => satp
  | .misa => misa
  | .mtvec => c.mtvec
  | .mie => c.mie
  | .mtimecmp => c.mtimecmp
  | .mscratch => c.mscratch
  | .mepc => c.mepc
  | .mcause => c.mcause
  | .mip => c.mip
  | .mstatus => c.mstatus
  | .mtval => c.mtval

/-- What an address reads as; unlisted addresses read as 0. -/
def valueAt (addr : BitVec 12) : Word := (regOf addr).elim 0 c.value

/-- The interrupt pin in its place in `mip`. -/
def meipBit (pin : Bool) : Word := if pin then 0x800 else 0

/-- What a register reads as after an edge without trap and write: the counters
advance and `MEIP` follows its pin. -/
def advanced : Reg → Word
  | .cycle => c.cycle + 1
  | .time => c.time + 1
  | .instret => if io.inst = Instructions.nop then c.instret else c.instret + 1
  | .cycleh => if c.cycle = BitVec.allOnes 32 then c.cycleh + 1 else c.cycleh
  | .timeh => if c.time = BitVec.allOnes 32 then c.timeh + 1 else c.timeh
  | .instreth =>
      if io.inst ≠ Instructions.nop ∧ c.instret = BitVec.allOnes 32 then c.instreth + 1
      else c.instreth
  | .mip => c.mip &&& ~~~0x800 ||| meipBit io.interruptSig
  | r => c.value r

/-- What a CSR instruction computes from the old value and its operand. -/
def newValue : Word :=
  if io.cmd = CSR.w then io.csrIn
  else if io.cmd = CSR.s then c.valueAt io.addr ||| io.csrIn
  else c.valueAt io.addr &&& ~~~io.csrIn

/-- What a register keeps of a value written to it, with `PRV` at M and `MEIP`
at its pin. -/
def legalised (pin : Bool) (new : Word) : Reg → Word
  | .mstatus => new &&& 0x39 ||| 0x6
  | .mip => new &&& 0x88 ||| meipBit pin
  | .mie => new &&& 0x888
  | .mepc => new &&& ~~~0x3
  | .mcause => new &&& 0x8000000f
  | _ => new

/-- The write of a CSR instruction is enabled: CSRRW, or a nonzero rs1 field. -/
def Enabled : Prop := io.cmd = CSR.w ∨ io.rs1Addr ≠ 0

instance : Decidable (Enabled io) := inferInstanceAs (Decidable (_ ∨ _))

/-- A CSR instruction reads the addressed register; an enabled write to a
writable address is read back, legalised, at each alias of the address, and
every other address reads as if nothing had been written. -/
structure RmwLaw : Prop where
  read : c.out io.addr = c.valueAt io.addr
  written : Enabled io → io.addr ∈ writable → ∀ addr, regOf addr = regOf io.addr →
    ∃ r, regOf addr = some r ∧
      (c.next io false).out addr = legalised io.interruptSig (c.newValue io) r
  kept : ∀ addr, ¬(Enabled io ∧ io.addr ∈ writable ∧ regOf addr = regOf io.addr) →
    (c.next io false).out addr = (regOf addr).elim 0 (c.advanced io)

end Values

section Access

variable (c d : Csr) (io : CsrIO) (addr : BitVec 12) (wdata : Word)

theorem muxCase_lookup {A B : Type*} [BEq A] (default : B) (f : Reg → B) (key : A)
    (entries : List (A × Reg)) :
    muxCase default (entries.map fun entry => (key == entry.1, f entry.2)) =
      (entries.lookup key).elim default f := by
  induction entries with
  | nil => rfl
  | cons entry entries ih =>
      obtain ⟨a, r⟩ := entry
      rw [List.map_cons, muxCase_cons, List.lookup_cons, ih]
      cases key == a <;> rfl

theorem out_eq_valueAt : c.out addr = c.valueAt addr := by
  have hfile : c.csrFile = readable.map fun entry => (entry.1, c.value entry.2) := rfl
  rw [out, hfile, List.map_map, valueAt, regOf, ← muxCase_lookup]
  rfl

/-! ## What a write changes -/

/-- The register that a write to an address reaches. -/
def writes : Option Reg := if addr ∈ writable then regOf addr else none

theorem mstatus_bits (pin : Bool) (hprv : d.prv = privM) :
    mstatus { d with
      prv1 := wdata.extractLsb' 4 2
      ie1 := wdata.getLsbD 3
      ie := wdata.getLsbD 0 } = legalised pin wdata .mstatus := by
  refine BitVec.eq_of_getLsbD_eq fun i hi => ?_
  simp only [mstatus, legalised, hprv, BitVec.getLsbD_append, BitVec.getLsbD_extractLsb',
    BitVec.getLsbD_or, BitVec.getLsbD_and, BitVec.getLsbD_ofBool]
  interval_cases i <;> simp

theorem mip_bits :
    mip { d with mtip := wdata.getLsbD 7, msip := wdata.getLsbD 3 } =
      legalised d.meip wdata .mip := by
  refine BitVec.eq_of_getLsbD_eq fun i hi => ?_
  simp only [mip, legalised, meipBit, BitVec.getLsbD_append, BitVec.getLsbD_or,
    BitVec.getLsbD_and, BitVec.getLsbD_ofBool]
  cases d.meip <;> interval_cases i <;> simp

theorem mie_bits (pin : Bool) :
    mie { d with
      meie := wdata.getLsbD 11
      mtie := wdata.getLsbD 7
      msie := wdata.getLsbD 3 } = legalised pin wdata .mie := by
  refine BitVec.eq_of_getLsbD_eq fun i hi => ?_
  simp only [mie, legalised, BitVec.getLsbD_append, BitVec.getLsbD_and, BitVec.getLsbD_ofBool]
  interval_cases i <;> simp

theorem clearLow2_bits : clearLow2 wdata = wdata &&& ~~~0x3 := by
  refine BitVec.eq_of_getLsbD_eq fun i hi => ?_
  simp only [clearLow2, BitVec.getLsbD_and, BitVec.getLsbD_shiftLeft, BitVec.getLsbD_ushiftRight]
  interval_cases i <;> simp

variable {addr wdata d}

/-- A write that leaves every register but one alone. -/
theorem value_write_of (pin : Bool) {reached : Reg} (hreached : writes addr = some reached)
    (hchanged : (write addr wdata d).value reached = legalised pin wdata reached)
    (hkept : ∀ r, r ≠ reached → (write addr wdata d).value r = d.value r) (r : Reg) :
    (write addr wdata d).value r =
      if writes addr = some r then legalised pin wdata r else d.value r := by
  rw [hreached]
  by_cases hr : r = reached
  · rw [hr, if_pos rfl, hchanged]
  · rw [if_neg fun h => hr (Option.some.inj h).symm, hkept r hr]

variable (addr wdata d)

theorem write_unlisted (haddr : addr ∉ CsrAddr.mtohost :: CsrAddr.mfromhost :: writable) :
    write addr wdata d = d := by
  simp only [writable, List.mem_cons, List.not_mem_nil, or_false, not_or] at haddr
  refine muxCase_of_forall (P := fun c : Csr => c = d) rfl ?_
  simp only [List.forall_mem_cons, beq_iff_eq, haddr, false_imp_iff, List.not_mem_nil,
    implies_true, and_self]

theorem write_prv : (write addr wdata d).prv = d.prv := by
  refine muxCase_of_forall (P := fun c : Csr => c.prv = d.prv) rfl ?_
  simp only [List.forall_mem_cons, List.not_mem_nil, false_imp_iff, implies_true, and_true]

/-- A write changes the register it reaches, and no other. -/
theorem value_write (hprv : d.prv = privM) (r : Reg) :
    (write addr wdata d).value r =
      if writes addr = some r then legalised d.meip wdata r else d.value r := by
  by_cases hlisted : addr ∈ CsrAddr.mtohost :: CsrAddr.mfromhost :: writable
  · simp only [writable, List.mem_cons, List.not_mem_nil, or_false] at hlisted
    rcases hlisted with rfl | rfl | rfl | rfl | rfl | rfl | rfl | rfl | rfl | rfl | rfl | rfl |
      rfl | rfl | rfl | rfl | rfl
    · cases r <;> rfl
    · cases r <;> rfl
    · refine value_write_of d.meip rfl ?_ (fun r hr => ?_) r
      · exact mstatus_bits d wdata d.meip hprv
      · cases r <;> first | rfl | exact absurd rfl hr
    · refine value_write_of d.meip rfl ?_ (fun r hr => ?_) r
      · exact mip_bits d wdata
      · cases r <;> first | rfl | exact absurd rfl hr
    · refine value_write_of d.meip rfl ?_ (fun r hr => ?_) r
      · exact mie_bits d wdata d.meip
      · cases r <;> first | rfl | exact absurd rfl hr
    · refine value_write_of d.meip rfl rfl (fun r hr => ?_) r
      cases r <;> first | rfl | exact absurd rfl hr
    · refine value_write_of d.meip rfl rfl (fun r hr => ?_) r
      cases r <;> first | rfl | exact absurd rfl hr
    · refine value_write_of d.meip rfl ?_ (fun r hr => ?_) r
      · exact clearLow2_bits wdata
      · cases r <;> first | rfl | exact absurd rfl hr
    all_goals
      refine value_write_of d.meip rfl rfl (fun r hr => ?_) r
      cases r <;> first | rfl | exact absurd rfl hr
  · have hunlisted : addr ∉ writable := fun h =>
      hlisted (List.mem_cons_of_mem _ (List.mem_cons_of_mem _ h))
    rw [write_unlisted d addr wdata hlisted, writes, if_neg hunlisted, if_neg (by simp)]

end Access

/-! ## The law -/

section Law

variable {c : Csr} {io : CsrIO}

theorem prv_of_reachable (hc : c.Reachable) : c.prv = privM := by
  refine hc.invariant (I := fun c => c.prv = privM) ?_ ?_
  · rintro _ ⟨_, _, _, _, _, rfl⟩
    rfl
  · rintro c ⟨io, stall⟩ hprv
    rw [step, next]
    split_ifs
    · exact hprv
    · rfl
    · exact (write_prv _ _ _).trans hprv
    · exact hprv

theorem mip_tick (c : Csr) (io : CsrIO) : (c.tick io false).mip = c.advanced io .mip := by
  refine BitVec.eq_of_getLsbD_eq fun i hi => ?_
  simp only [mip, tick, advanced, meipBit, BitVec.getLsbD_append, BitVec.getLsbD_or,
    BitVec.getLsbD_and, BitVec.getLsbD_not, BitVec.getLsbD_ofBool]
  cases io.interruptSig <;> interval_cases i <;> simp

/-- Without a trap the edge advances the counters and samples the pin. -/
theorem value_tick (hexpt : c.expt io = false) (r : Reg) :
    (c.tick io false).value r = c.advanced io r := by
  cases r with
  | time | cycle => rfl
  | timeh | cycleh => simp [value, advanced, tick]
  | instret => simp [value, advanced, tick, isInstRet, hexpt]
  | instreth => simp [value, advanced, tick, isInstRet, hexpt]
  | mip => exact mip_tick c io
  | _ => rfl

theorem wen_iff (hcmd : io.cmd = CSR.w ∨ io.cmd = CSR.s ∨ io.cmd = CSR.c) :
    wen io = true ↔ Enabled io := by
  rcases hcmd with hcmd | hcmd | hcmd <;> simp [wen, Enabled, hcmd]

theorem wdata_eq_newValue (hcmd : io.cmd = CSR.w ∨ io.cmd = CSR.s ∨ io.cmd = CSR.c) :
    c.wdata io = c.newValue io := by
  rcases hcmd with hcmd | hcmd | hcmd <;>
    simp [wdata, newValue, out_eq_valueAt, hcmd]

/-- A register after a CSR instruction. -/
theorem value_next (hprv : c.prv = privM)
    (hcmd : io.cmd = CSR.w ∨ io.cmd = CSR.s ∨ io.cmd = CSR.c) (hexpt : c.expt io = false)
    (r : Reg) :
    (c.next io false).value r =
      if Enabled io ∧ writes io.addr = some r then
        legalised io.interruptSig (c.newValue io) r
      else c.advanced io r := by
  have hnext : c.next io false =
      if !false && wen io then write io.addr (c.wdata io) (c.tick io false) else c.tick io false :=
    next_of_not_expt c io hexpt
  by_cases henabled : Enabled io
  · have hwen := (wen_iff hcmd).mpr henabled
    have hwrite := value_write (c.tick io false) io.addr (c.wdata io) hprv r
    rw [value_tick hexpt] at hwrite
    rw [hnext, hwen]
    refine hwrite.trans ?_
    rw [wdata_eq_newValue hcmd]
    simp only [henabled, true_and]
    rfl
  · have hwen : wen io = false := by
      simpa using mt (wen_iff hcmd).mp henabled
    have hunwritten : ¬(Enabled io ∧ writes io.addr = some r) := fun h => henabled h.1
    rw [hnext, hwen, if_neg hunwritten]
    exact value_tick hexpt r

theorem writes_eq_some {addr : BitVec 12} {r : Reg} :
    writes addr = some r ↔ addr ∈ writable ∧ regOf addr = some r := by
  simp [writes]

/-- Every writable address can be read. -/
theorem regOf_of_writable {addr : BitVec 12} (haddr : addr ∈ writable) :
    ∃ r, regOf addr = some r := by
  simp only [writable, List.mem_cons, List.not_mem_nil, or_false] at haddr
  rcases haddr with rfl | rfl | rfl | rfl | rfl | rfl | rfl | rfl | rfl | rfl | rfl | rfl |
    rfl | rfl | rfl <;> exact ⟨_, rfl⟩

end Law

/-- In every reachable state, CSRRW, CSRRS and CSRRC with any address, operand
and rs1 field read the old value and write the new one, in a cycle in which the
module is not stalled and nothing traps. -/
theorem rmw_law {c : Csr} {io : CsrIO} (hc : c.Reachable)
    (hcmd : io.cmd = CSR.w ∨ io.cmd = CSR.s ∨ io.cmd = CSR.c) (hexpt : c.expt io = false) :
    c.RmwLaw io := by
  have hnext (addr : BitVec 12) :
      (c.next io false).out addr = (regOf addr).elim 0 (c.next io false).value :=
    out_eq_valueAt (c.next io false) addr
  have hvalue := value_next (prv_of_reachable hc) hcmd hexpt
  constructor
  · exact out_eq_valueAt c io.addr
  · intro henabled hwritable addr hsame
    obtain ⟨r, hr⟩ := regOf_of_writable hwritable
    have haddr : regOf addr = some r := hsame.trans hr
    refine ⟨r, haddr, ?_⟩
    rw [hnext, haddr, Option.elim_some, hvalue,
      if_pos ⟨henabled, writes_eq_some.mpr ⟨hwritable, hr⟩⟩]
  · intro addr hother
    rw [hnext]
    cases haddr : regOf addr with
    | none => rfl
    | some r =>
        have hunwritten : ¬(Enabled io ∧ writes io.addr = some r) := by
          rintro ⟨henabled, hwrites⟩
          obtain ⟨hwritable, hr⟩ := writes_eq_some.mp hwrites
          exact hother ⟨henabled, hwritable, haddr.trans hr.symm⟩
        rw [Option.elim_some, Option.elim_some, hvalue, if_neg hunwritten]

/-- CSRRW writes `mscratch` of a module that comes out of reset. -/
theorem rmw_law_mscratch :
    (reset 0 0 0 0 0).RmwLaw {
      addr := CsrAddr.mscratch, csrIn := 5, cmd := CSR.w, rs1Addr := 1, legal := true
      interruptSig := false, pc := 4, pcInvalid := false, jCheck := false, bCheck := false
      inst := 0x340092f3, memWr := MemoryOpConstants.mX, maskType := 0, aluOp1 := 0, aluOp2 := 0 } :=
  rmw_law (.of_init ⟨0, 0, 0, 0, 0, rfl⟩) (Or.inl rfl) (by decide)

end Csr

/-- The CSR module of a reachable core is reachable by itself. -/
theorem KyogenRVCpu.Reachable.csr {s : KyogenRVCpu} (hs : s.Reachable) : s.csr.Reachable := by
  refine Machine.Reachable.map KyogenRVCpu.csr (fun s io => (s.csrPorts io, s.stall io)) ?_
    (fun _ _ => rfl) hs
  rintro _ ⟨mtimecmp, mscratch, mepc, mcause, mfromhost, _, _, rfl⟩
  exact ⟨mtimecmp, mscratch, mepc, mcause, mfromhost, rfl⟩

end KyogenRV
