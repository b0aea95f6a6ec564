import KyogenRV.Core.CsrAccess
import KyogenRV.SplitCounter

/-!
# The 64-bit counters

`time`, `cycle` and `instret` are kept in two 32-bit registers each, and every
half can be written through one or two addresses.  Each pair is a 64-bit
counter: an edge increments it as a whole, and a write replaces one half of
what the increment gives.
-/

namespace KyogenRV

open SplitCounter (Half)

inductive Counter where
  | time | cycle | instret
  deriving DecidableEq

namespace Csr

/-- The addresses at which software can write a half of a counter. -/
def counterAliases : List (BitVec 12 × Counter × Half) := [
  (CsrAddr.mtime, .time, .low), (CsrAddr.timew, .time, .low),
  (CsrAddr.mtimeh, .time, .high), (CsrAddr.timehw, .time, .high),
  (CsrAddr.cyclew, .cycle, .low), (CsrAddr.cyclehw, .cycle, .high),
  (CsrAddr.instretw, .instret, .low), (CsrAddr.instrethw, .instret, .high)]

def halfOf (addr : BitVec 12) : Option (Counter × Half) := counterAliases.lookup addr

section Counters

variable (c d : Csr)

/-- The counters, upper half first. -/
def counter : Counter → BitVec (32 + 32)
  | .time => c.timeh ++ c.time
  | .cycle => c.cycleh ++ c.cycle
  | .instret => c.instreth ++ c.instret

/-- The half that a write-enabled access replaces, and its new value. -/
def counterWrite (ports : CsrIO × Bool) : Option (Counter × Half × Word) :=
  if !ports.2 && !c.expt ports.1 && wen ports.1 then
    (halfOf ports.1.addr).map fun half => (half.1, half.2, c.wdata ports.1)
  else none

/-- What a clock edge does to the counters. -/
def counterEdge (ports : CsrIO × Bool) : SplitCounter.Edge Counter 32 where
  advances := fun k => k != .instret || c.isInstRet ports.1 ports.2
  access := c.counterWrite ports

/-! ## One edge -/

variable {c d}

/-- The increments of an edge carry from the lower half into the upper one. -/
theorem counter_tick (io : CsrIO) (stall : Bool) :
    (c.tick io stall).counter = SplitCounter.advance c.counter (c.counterEdge (io, stall)) := by
  funext k
  cases k with
  | time =>
      refine Eq.trans ?_ (SplitCounter.append_add_one c.timeh c.time).symm
      simp only [counter, tick, beq_iff_eq]
  | cycle =>
      refine Eq.trans ?_ (SplitCounter.append_add_one c.cycleh c.cycle).symm
      simp only [counter, tick, beq_iff_eq]
  | instret =>
      have hadvances : (c.counterEdge (io, stall)).advances .instret = c.isInstRet io stall := rfl
      rw [SplitCounter.advance, hadvances]
      cases hret : c.isInstRet io stall with
      | false => simp [counter, tick, hret]
      | true =>
          refine Eq.trans ?_ (SplitCounter.append_add_one c.instreth c.instret).symm
          simp [counter, tick, hret]

/-- A write elsewhere leaves the counters alone. -/
theorem counter_write_of_none {addr : BitVec 12} (wdata : Word) (haddr : halfOf addr = none) :
    (write addr wdata d).counter = d.counter := by
  have hne : ∀ entry ∈ counterAliases, addr ≠ entry.1 := fun entry hentry =>
    bne_iff_ne.mp (List.lookup_eq_none_iff.mp haddr entry hentry)
  simp only [counterAliases, List.forall_mem_cons, List.not_mem_nil, false_imp_iff,
    implies_true, and_true] at hne
  refine muxCase_of_forall (P := fun c : Csr => c.counter = d.counter) rfl ?_
  simp only [List.forall_mem_cons, List.not_mem_nil, false_imp_iff, implies_true, and_true,
    true_and, beq_iff_eq, hne]
  and_intros <;> exact fun _ => rfl

/-- The registers with one half of a counter replaced. -/
def setHalf (d : Csr) (word : Word) : Counter → Half → Csr
  | .time, .low => { d with time := word }
  | .time, .high => { d with timeh := word }
  | .cycle, .low => { d with cycle := word }
  | .cycle, .high => { d with cycleh := word }
  | .instret, .low => { d with instret := word }
  | .instret, .high => { d with instreth := word }

theorem counter_setHalf (word : Word) (k : Counter) (half : Half) :
    (d.setHalf word k half).counter =
      Function.update d.counter k (SplitCounter.put (d.counter k) word half) := by
  funext j
  by_cases hj : j = k
  · subst hj
    rw [Function.update_self]
    cases j <;> cases half
    case time.low | cycle.low | instret.low => exact (SplitCounter.put_low ..).symm
    case time.high | cycle.high | instret.high => exact (SplitCounter.put_high ..).symm
  · rw [Function.update_of_ne hj]
    cases k <;> cases half <;> cases j <;> first | exact absurd rfl hj | rfl

/-- A write at an alias of a half replaces that half. -/
theorem write_of_halfOf {addr : BitVec 12} (wdata : Word) {k : Counter} {half : Half}
    (haddr : halfOf addr = some (k, half)) : write addr wdata d = d.setHalf wdata k half := by
  have hmem : (addr, k, half) ∈ counterAliases := by
    obtain ⟨_, _, hentry, _⟩ := List.lookup_eq_some_iff.mp haddr
    rw [hentry]
    simp
  simp only [counterAliases, List.mem_cons, Prod.mk.injEq, List.not_mem_nil, or_false] at hmem
  rcases hmem with ⟨rfl, rfl, rfl⟩ | ⟨rfl, rfl, rfl⟩ | ⟨rfl, rfl, rfl⟩ | ⟨rfl, rfl, rfl⟩ |
    ⟨rfl, rfl, rfl⟩ | ⟨rfl, rfl, rfl⟩ | ⟨rfl, rfl, rfl⟩ | ⟨rfl, rfl, rfl⟩ <;>
  simp [write, setHalf]

/-- A clock edge counts, then replaces the half that is written. -/
theorem counter_step (c : Csr) (ports : CsrIO × Bool) :
    (c.step ports).counter = SplitCounter.count c.counter (c.counterEdge ports) := by
  obtain ⟨io, stall⟩ := ports
  have htick := counter_tick (c := c) io stall
  rw [SplitCounter.count]
  change (c.next io stall).counter = (c.counterWrite (io, stall)).elim _ _
  rw [← htick, counterWrite, next]
  cases stall with
  | true => rfl
  | false =>
      cases hexpt : c.expt io with
      | true => rfl
      | false =>
          cases hwen : wen io with
          | false => rfl
          | true =>
              cases hhalf : halfOf io.addr with
              | none => exact counter_write_of_none _ hhalf
              | some half =>
                  change (write io.addr (c.wdata io) (c.tick io false)).counter = _
                  rw [write_of_halfOf _ hhalf, counter_setHalf]
                  rfl

/-! ## Every run -/

/-- What the edges of a run do to the counters. -/
def counterEdges (c : Csr) (inputs : List ( CsrIO × Bool)) :
    List (SplitCounter.Edge Counter 32) :=
  Machine.outputs step (fun d ports => [d.counterEdge ports]) c inputs

theorem counter_run (c : Csr) (inputs : List ( CsrIO × Bool)) :
    (Machine.run step c inputs).counter =
      Machine.run SplitCounter.count c.counter (c.counterEdges inputs) := by
  induction inputs generalizing c with
  | nil => rfl
  | cons ports inputs ih =>
      rw [Machine.run_cons, ih, counter_step, counterEdges, counterEdges, Machine.outputs_cons,
        Machine.run_append, Machine.run_cons, Machine.run_nil]

/-- Over every run from every state the pairs are the 64-bit counters that
advance on each edge, `instret` when an instruction retires, and then have the
written half replaced. -/
theorem counters_refine (c : Csr) (inputs : List ( CsrIO × Bool)) :
    Machine.Along step
        (fun d ports => (d.step ports).counter =
          SplitCounter.count d.counter (d.counterEdge ports)) c inputs ∧
      (Machine.run step c inputs).counter =
        Machine.run SplitCounter.count c.counter (c.counterEdges inputs) :=
  ⟨Machine.along_of_forall counter_step, counter_run c inputs⟩

end Counters

end Csr

end KyogenRV
