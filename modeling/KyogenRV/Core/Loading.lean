import KyogenRV.Core.Release

/-!
# Loading in halt

The load port is registered twice: a pair that the pins show in one clock is
written to the data memory in the next one and to the instruction memory in the
one after.  The writes share the ports with whatever the pipeline held when the
halt took effect: a fetch request takes precedence over the write, and a store
in MEM puts its own data and byte lanes on the data port.
-/

namespace KyogenRV

open MemoryOpConstants

/-- The address and the word on the pins of the load port. -/
def TestIf.pair (sw : TestIf) : Word × Word := (sw.wAdd, sw.wDat)

/-! ## Images -/

/-- The words of the pairs stored one after the other. -/
def install (words : BitVec 14 → Word) (pairs : List (Word × Word)) : BitVec 14 → Word :=
  pairs.foldl (fun words pair => Function.update words (Banks.addrAlign pair.1) pair.2) words

section Install

variable {words : BitVec 14 → Word} {pairs more : List (Word × Word)}

@[simp]
theorem install_nil : install words [] = words := rfl

@[simp]
theorem install_cons (pair : Word × Word) :
    install words (pair :: pairs) =
      install (Function.update words (Banks.addrAlign pair.1) pair.2) pairs := rfl

theorem install_append : install words (pairs ++ more) = install (install words pairs) more :=
  List.foldl_append

/-- An index that no pair addresses keeps its word. -/
theorem install_of_ne {index : BitVec 14} (hne : ∀ pair ∈ pairs, Banks.addrAlign pair.1 ≠ index) :
    install words pairs index = words index := by
  induction pairs generalizing words with
  | nil => rfl
  | cons pair pairs ih =>
      rw [install_cons, ih fun other hother => hne other (List.mem_cons_of_mem _ hother)]
      exact Function.update_of_ne (hne pair (List.mem_cons_self ..)).symm ..

/-- What it means that the pairs are installed over `base`: each address holds
the last word given for it, and every other one what it held. -/
structure Installed (base : BitVec 14 → Word) (pairs : List (Word × Word))
    (words : BitVec 14 → Word) : Prop where
  last : ∀ before pair later, pairs = before ++ pair :: later →
    (∀ other ∈ later, Banks.addrAlign other.1 ≠ Banks.addrAlign pair.1) →
    words (Banks.addrAlign pair.1) = pair.2
  others : ∀ index, (∀ pair ∈ pairs, Banks.addrAlign pair.1 ≠ index) → words index = base index

theorem installed_install (base : BitVec 14 → Word) (pairs : List (Word × Word)) :
    Installed base pairs (install base pairs) where
  last := by
    rintro before pair later rfl hlater
    rw [install_append, install_cons, install_of_ne hlater, Function.update_self]
  others := fun _ hne => install_of_ne hne

/-- Storing the last pair once more changes nothing. -/
theorem install_again {pair : Word × Word} (hlast : pairs.getLast? = some pair) :
    install (install words pairs) [pair] = install words pairs := by
  obtain ⟨before, rfl⟩ := List.getLast?_eq_some_iff.mp hlast
  rw [install_append, install_cons, install_nil, install_cons, install_nil,
    Function.update_idem]

/-- Of several words at one address the last one stays. -/
theorem install_address (addr word : Word) (before : List Word) :
    install words ((before ++ [word]).map (addr, ·)) =
      Function.update words (Banks.addrAlign addr) word := by
  induction before generalizing words with
  | nil => rfl
  | cons old before ih =>
      rw [List.cons_append, List.map_cons, install_cons, ih, Function.update_idem]

end Install

/-- The pins show the pairs in order: each address for one or more clocks, in
the last of them with its word. -/
inductive Presents : List (Word × Word) → List (Word × Word) → Prop
  | nil : Presents [] []
  | cons {pairs shown : List (Word × Word)} (addr word : Word) (before : List Word)
      (hpairs : Presents pairs shown) :
      Presents ((addr, word) :: pairs) ((before ++ [word]).map (addr, ·) ++ shown)

section Presents

variable {pairs shown : List (Word × Word)} {words : BitVec 14 → Word}

theorem install_presents (hpairs : Presents pairs shown) :
    install words shown = install words pairs := by
  induction hpairs generalizing words with
  | nil => rfl
  | cons addr word before _ ih => rw [install_append, install_address, ih, install_cons]

theorem Presents.forall_fst {P : Word → Prop} (hpairs : Presents pairs shown)
    (haddr : ∀ pair ∈ pairs, P pair.1) : ∀ pair ∈ shown, P pair.1 := by
  induction hpairs with
  | nil => exact haddr
  | cons addr word before _ ih =>
      rw [List.forall_mem_cons] at haddr
      rw [List.forall_mem_append, List.forall_mem_map]
      exact ⟨fun _ _ => haddr.1, ih haddr.2⟩

/-- The load loop of `CpuBusTester`: each address is up one clock ahead of its
word. -/
def testerPins : Word → List (Word × Word) → List (Word × Word)
  | _, [] => []
  | old, (addr, word) :: pairs => (addr, old) :: (addr, word) :: testerPins word pairs

theorem presents_testerPins (old : Word) (pairs : List (Word × Word)) :
    Presents pairs (testerPins old pairs) := by
  induction pairs generalizing old with
  | nil => exact .nil
  | cons pair pairs ih => exact .cons pair.1 pair.2 [old] (ih pair.2)

end Presents

namespace CpuBus

section Load

variable (b : CpuBus)

/-- The pair registered at the load port, on its way to the data memory. -/
def inPort : List (Word × Word) := if b.swHalt then [(b.swWaddr, b.swWdata)] else []

/-- The pair registered in the core, on its way to the instruction memory. -/
def inCore : List (Word × Word) := if b.cpu.wReq then [(b.cpu.wAddr, b.cpu.wData)] else []

/-- Nothing that the pipeline holds competes with the load port. -/
structure LoadClear : Prop where
  fetch : b.cpu.wReq = true → b.cpu.imemReq = false
  store : b.cpu.mem.ctrl.memWr ≠ mXwr

variable {b} {sw : TestIf}

theorem inPort_step (hhalt : sw.halt = true) : (b.step sw).inPort = [sw.pair] := if_pos hhalt

theorem inCore_step (b : CpuBus) (sw : TestIf) : (b.step sw).inCore = b.inPort := by
  have hreq : (b.step sw).cpu.wReq = b.swHalt := rfl
  have haddr : (b.step sw).cpu.wAddr = if b.swHalt then b.swWaddr else b.cpu.wAddr := rfl
  have hdata : (b.step sw).cpu.wData = if b.swHalt then b.swWdata else b.cpu.wData := rfl
  rw [inCore, inPort, hreq, haddr, hdata]
  cases b.swHalt <;> rfl

/-- One clock stores what the core has registered. -/
theorem imem_word_step (hclear : b.LoadClear) (haddr : ∀ pair ∈ b.inCore, pair.1 ≤ 0x3000) :
    (b.step sw).imem.word = install b.imem.word b.inCore := by
  rw [inCore] at haddr ⊢
  cases hreq : b.cpu.wReq with
  | true =>
      rw [hreq, if_pos rfl, List.forall_mem_singleton] at haddr
      exact imem_word_of_write hreq (hclear.fetch hreq) haddr sw
  | false =>
      have hwrite : Banks.acceptWrite b.imemReq = false := by
        rw [Banks.acceptWrite, imemReq, hreq, Bool.false_and]
      exact Banks.word_step_of_read hwrite

/-- One clock in halt stores what the load port has registered. -/
theorem dmem_word_step (hhalt : b.swHalt = true) (hclear : b.LoadClear)
    (haddr : ∀ pair ∈ b.inPort, pair.1 ≤ 0x3000) :
    (b.step sw).dmem.word = install b.dmem.word b.inPort := by
  rw [inPort, hhalt, if_pos rfl] at haddr ⊢
  rw [List.forall_mem_singleton] at haddr
  have hstore : (b.cpu.mem.ctrl.memWr == mXwr) = false := beq_eq_false_iff_ne.mpr hclear.store
  have hhost : (b.hostIf sw).halt = true := hhalt
  have hdmem : b.dmemReq sw = ⟨b.swWaddr, false, true, b.swWdata, 15⟩ := by
    rw [dmemReq, KyogenRVCpu.dmemAddr, KyogenRVCpu.rDmemReq, KyogenRVCpu.wDmemReq,
      KyogenRVCpu.wDmemData, KyogenRVCpu.wDmemByteenable, hhost, hstore]
    rfl
  have hwrite : Banks.acceptWrite (b.dmemReq sw) = true := by
    rw [hdmem]
    exact decide_eq_true haddr
  have hstep : (b.step sw).dmem = b.dmem.step (b.dmemReq sw) := rfl
  rw [hstep, Banks.word_step_of_write (by rw [hdmem]; rfl) hwrite (by rw [hdmem]), hdmem]
  rfl

/-- Over a run in halt the memories, with what is on its way to them, receive
the pairs that the pins show. -/
theorem words_run {clocks : List TestIf} (hswHalt : b.swHalt = true)
    (hhalt : ∀ sw ∈ clocks, sw.halt = true)
    (haddr : ∀ pair ∈ b.inCore ++ b.inPort ++ clocks.map TestIf.pair, pair.1 ≤ 0x3000)
    (hclear : Machine.Along step (fun t _ => t.LoadClear) b clocks) :
    install (Machine.run step b clocks).imem.word
          ((Machine.run step b clocks).inCore ++ (Machine.run step b clocks).inPort) =
        install b.imem.word (b.inCore ++ b.inPort ++ clocks.map TestIf.pair) ∧
      install (Machine.run step b clocks).dmem.word (Machine.run step b clocks).inPort =
        install b.dmem.word (b.inPort ++ clocks.map TestIf.pair) := by
  induction clocks generalizing b with
  | nil => simp
  | cons sw clocks ih =>
      rw [List.forall_mem_cons] at hhalt
      have hport : (b.step sw).inPort = [sw.pair] := inPort_step hhalt.1
      simp only [List.forall_mem_append] at haddr
      obtain ⟨⟨hcore, hin⟩, hclocks⟩ := haddr
      rw [List.map_cons, List.forall_mem_cons] at hclocks
      have hrun := ih (b := b.step sw) hhalt.1 hhalt.2 (by
        rw [inCore_step, hport]
        simp only [List.forall_mem_append, List.forall_mem_singleton]
        exact ⟨⟨hin, hclocks.1⟩, hclocks.2⟩) hclear.2
      rw [Machine.run_cons, hrun.1, hrun.2, inCore_step, hport, imem_word_step hclear.1 hcore,
        dmem_word_step hswHalt hclear.1 hin, ← install_append, ← install_append]
      simp

/-- What is on its way after a run in halt has been shown last. -/
theorem inFlight_run {clocks : List TestIf} (hhalt : ∀ sw ∈ clocks, sw.halt = true) :
    (Machine.run step b clocks).inCore ++ (Machine.run step b clocks).inPort <:+
      b.inCore ++ b.inPort ++ clocks.map TestIf.pair := by
  induction clocks generalizing b with
  | nil => simp
  | cons sw clocks ih =>
      rw [List.forall_mem_cons] at hhalt
      have hrun := ih (b := b.step sw) hhalt.2
      rw [inCore_step, inPort_step hhalt.1] at hrun
      refine hrun.trans ⟨b.inCore, ?_⟩
      simp

/-- Two clocks in halt store what is on its way to the instruction memory; the
data memory has received the first pair shown in them by then. -/
theorem words_two_clocks (sw' : TestIf) (hswHalt : b.swHalt = true) (hhalt : sw.halt = true)
    (haddr : ∀ pair ∈ b.inCore ++ b.inPort, pair.1 ≤ 0x3000) (hpair : sw.pair.1 ≤ 0x3000)
    (hclear : b.LoadClear) (hclear' : (b.step sw).LoadClear) :
    ((b.step sw).step sw').imem.word = install b.imem.word (b.inCore ++ b.inPort) ∧
      ((b.step sw).step sw').dmem.word = install (install b.dmem.word b.inPort) [sw.pair] := by
  rw [List.forall_mem_append] at haddr
  have hcore : ∀ pair ∈ (b.step sw).inCore, pair.1 ≤ 0x3000 := by
    rw [inCore_step]
    exact haddr.2
  have hport : ∀ pair ∈ (b.step sw).inPort, pair.1 ≤ 0x3000 := by
    rw [inPort_step hhalt, List.forall_mem_singleton]
    exact hpair
  constructor
  · rw [imem_word_step hclear' hcore, imem_word_step hclear haddr.1, inCore_step, install_append]
  · rw [dmem_word_step hhalt hclear' hport, dmem_word_step hswHalt hclear haddr.2,
      inPort_step hhalt]

/-- The words of both memories two clocks after the last pair of a load. -/
theorem words_loaded {pairs : List (Word × Word)} {first : TestIf} {shown : List TestIf}
    {hold₁ hold₂ : TestIf} (hhalt : ∀ sw ∈ first :: shown ++ [hold₁, hold₂], sw.halt = true)
    (hpresents : Presents pairs ((first :: shown).map TestIf.pair))
    (hhold : pairs.getLast? = some hold₁.pair)
    (haddr : ∀ pair ∈ b.inPort ++ pairs, pair.1 ≤ 0x3000)
    (hclear : Machine.Along step (fun t _ => t.LoadClear) (b.step first)
      (shown ++ [hold₁, hold₂])) :
    (Machine.run step b (first :: shown ++ [hold₁, hold₂])).imem.word =
        install (b.step first).imem.word (b.inPort ++ pairs) ∧
      (Machine.run step b (first :: shown ++ [hold₁, hold₂])).dmem.word =
        install (b.step first).dmem.word pairs := by
  simp only [List.cons_append, List.forall_mem_cons, List.forall_mem_append] at hhalt
  obtain ⟨hfirst, hshown, hhalt₁, -⟩ := hhalt
  rw [List.forall_mem_append] at haddr
  rw [Machine.along_append, Machine.along_cons, Machine.along_cons] at hclear
  obtain ⟨hclear, hclear₁, hclear₂, -⟩ := hclear
  have hpins := hpresents.forall_fst (P := (· ≤ 0x3000)) haddr.2
  have hport : (b.step first).inPort = [first.pair] := inPort_step hfirst
  have hhalted : (Machine.run step (b.step first) shown).swHalt = true :=
    Machine.run_invariant (I := fun t : CpuBus => t.swHalt = true)
      (fun _ _ _ hsw => hsw) hfirst (Machine.along_of_mem hshown)
  have hflight := inFlight_run (b := b.step first) hshown
  obtain ⟨himem, hdmem⟩ := words_run (b := b.step first) hfirst hshown (by
    rw [inCore_step, hport, List.append_assoc, List.forall_mem_append]
    exact ⟨haddr.1, hpins⟩) hclear
  rw [inCore_step, hport, List.append_assoc] at himem hflight
  rw [hport] at hdmem
  rw [List.cons_append, Machine.run_cons, Machine.run_append, Machine.run_cons, Machine.run_cons,
    Machine.run_nil]
  generalize Machine.run step (b.step first) shown = u at *
  obtain ⟨himem', hdmem'⟩ := words_two_clocks hold₂ hhalted hhalt₁ (fun pair hpair =>
    List.forall_mem_append.mpr ⟨haddr.1, hpins⟩ pair (hflight.subset hpair))
    (haddr.2 _ (List.mem_of_getLast? hhold)) hclear₁ hclear₂
  have hshow (words : BitVec 14 → Word) :
      install words ([first.pair] ++ shown.map TestIf.pair) = install words pairs :=
    install_presents hpresents
  constructor
  · calc ((u.step hold₁).step hold₂).imem.word
        = install u.imem.word (u.inCore ++ u.inPort) := himem'
      _ = install (install (b.step first).imem.word b.inPort)
            ([first.pair] ++ shown.map TestIf.pair) := by rw [himem, install_append]
      _ = install (b.step first).imem.word (b.inPort ++ pairs) := by rw [hshow, install_append]
  · calc ((u.step hold₁).step hold₂).dmem.word
        = install (install u.dmem.word u.inPort) [hold₁.pair] := hdmem'
      _ = install (install (b.step first).dmem.word pairs) [hold₁.pair] := by rw [hdmem, hshow]
      _ = install (b.step first).dmem.word pairs := install_again hhold

/-- From any state, with halt held high from the clock `first` on: if the pins
show the pairs in order and keep the last one for two more clocks, and in every
cycle in which the halt is in effect nothing in the pipeline competes with the
load port, the pairs are installed in both memories over what these held when
the halt took effect.  If halt was high before, the pair registered then
reaches the instruction memory only now. -/
theorem image_installed {pairs : List (Word × Word)} {first : TestIf} {shown : List TestIf}
    {hold₁ hold₂ : TestIf} (hhalt : ∀ sw ∈ first :: shown ++ [hold₁, hold₂], sw.halt = true)
    (hpresents : Presents pairs ((first :: shown).map TestIf.pair))
    (hhold : pairs.getLast? = some hold₁.pair)
    (haddr : ∀ pair ∈ b.inPort ++ pairs, pair.1 ≤ 0x3000)
    (hclear : Machine.Along step (fun t _ => t.LoadClear) (b.step first)
      (shown ++ [hold₁, hold₂])) :
    Installed (b.step first).imem.word (b.inPort ++ pairs)
        (Machine.run step b (first :: shown ++ [hold₁, hold₂])).imem.word ∧
      Installed (b.step first).dmem.word pairs
        (Machine.run step b (first :: shown ++ [hold₁, hold₂])).dmem.word := by
  obtain ⟨himem, hdmem⟩ := words_loaded hhalt hpresents hhold haddr hclear
  rw [himem, hdmem]
  exact ⟨installed_install .., installed_install ..⟩

theorem Loading.loadClear (hb : b.Loading) : b.LoadClear := by
  have hdelay : b.cpu.delayStall ≠ 7 := by rw [hb.idle.delay]; decide
  obtain ⟨hfetch, _, hmem, _⟩ := hb.idle.boot.idle hdelay
  refine ⟨fun _ => hfetch, ?_⟩
  rw [hmem, KyogenRVCpu.nop_noAccess]
  decide

/-- From reset on the pipeline stays empty, so that every load is clear. -/
theorem loadClear_of_reset {clocks : List TestIf} (hb : b.IsReset)
    (hhalt : ∀ sw ∈ clocks, sw.halt = true) :
    Machine.Along step (fun t _ => t.LoadClear) b clocks :=
  Machine.along_of_invariant (I := Loading) (fun _ _ ht hsw => loading_step ht hsw)
    (fun _ _ ht _ => ht.loadClear) (loading_reset hb) (Machine.along_of_mem hhalt)

/-! ### Sample loads -/

/-- A clock in halt with the pair on the pins. -/
def loadPair (pair : Word × Word) : TestIf := ⟨true, pair.1, pair.2, 0, false, false, false⟩

/-- The clocks behind the first one in which `CpuBusTester` loads two words. -/
def twoWords : List TestIf :=
  [loadPair (0, 0x00100093), loadPair (4, 0x00100093), loadPair (4, 0x0000006f)]

theorem presents_twoWords :
    Presents [(0, 0x00100093), (4, 0x0000006f)]
      ((loadPair (0, 0) :: twoWords).map TestIf.pair) :=
  presents_testerPins 0 [(0, 0x00100093), (4, 0x0000006f)]

/-- Two words loaded from reset on. -/
theorem image_installed_twoWords :
    let b := resetWith fun _ => 0
    let hold := loadPair (4, 0x0000006f)
    let final := Machine.run step b (loadPair (0, 0) :: twoWords ++ [hold, hold])
    Installed (b.step (loadPair (0, 0))).imem.word
        (b.inPort ++ [(0, 0x00100093), (4, 0x0000006f)]) final.imem.word ∧
      Installed (b.step (loadPair (0, 0))).dmem.word
        [(0, 0x00100093), (4, 0x0000006f)] final.dmem.word := by
  have hreset := isReset_resetWith fun _ => 0
  have hhalt : ∀ sw ∈ loadPair (0, 0) :: twoWords ++ List.replicate 2 (loadPair (4, 0x0000006f)),
      sw.halt = true := by decide
  have haddr : ∀ pair ∈ [((0 : Word), (0 : Word)), (0, 0x00100093), (4, 0x0000006f)],
      pair.1 ≤ 0x3000 := by
    simp only [List.forall_mem_cons, List.not_mem_nil, false_imp_iff, implies_true, and_true]
    decide
  exact image_installed hhalt presents_twoWords rfl haddr (loadClear_of_reset hreset hhalt).2

/-- A core that has run NOPs since release. -/
def ranNops : CpuBus :=
  Machine.run step (loaded fun _ => Instructions.nop) (List.replicate 12 (go false))

theorem reachable_ranNops : Machine.Reachable step IsReset ranNops := by
  have hreset : Machine.Reachable step IsReset (resetWith fun _ => Instructions.nop) :=
    .of_init (isReset_resetWith _)
  exact (hreset.run _).run _

/-- The fetch request of the running core stays up in halt: the word shown for
address 0 does not reach the instruction memory. -/
theorem image_not_installed :
    ¬∀ (b : CpuBus) (pairs : List (Word × Word)) (first : TestIf) (shown : List TestIf)
      (hold₁ hold₂ : TestIf), Machine.Reachable step IsReset b →
      (∀ sw ∈ first :: shown ++ [hold₁, hold₂], sw.halt = true) →
      Presents pairs ((first :: shown).map TestIf.pair) →
      pairs.getLast? = some hold₁.pair →
      (∀ pair ∈ b.inPort ++ pairs, pair.1 ≤ 0x3000 ∧ Csr.misaligned pair.1 = false) →
      Installed (b.step first).imem.word (b.inPort ++ pairs)
          (Machine.run step b (first :: shown ++ [hold₁, hold₂])).imem.word ∧
        Installed (b.step first).dmem.word pairs
          (Machine.run step b (first :: shown ++ [hold₁, hold₂])).dmem.word := by
  intro h
  have haddr : ∀ pair ∈ ranNops.inPort ++ [((0 : Word), (0x0000006f : Word))],
      pair.1 ≤ 0x3000 ∧ Csr.misaligned pair.1 = false := by
    have hport : ranNops.inPort = [] := rfl
    rw [hport, List.nil_append, List.forall_mem_singleton]
    decide
  have hloaded := (h ranNops [(0, 0x0000006f)] (loadPair (0, 0)) [loadPair (0, 0x0000006f)]
    (loadPair (0, 0x0000006f)) (loadPair (0, 0x0000006f)) reachable_ranNops (by decide)
    (presents_testerPins 0 [(0, 0x0000006f)]) rfl haddr).1
  have hword := hloaded.last [] (0, 0x0000006f) [] rfl (List.forall_mem_nil _)
  revert hword
  decide +kernel

end Load

end CpuBus

end KyogenRV
