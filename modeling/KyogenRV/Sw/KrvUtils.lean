import KyogenRV.Core.Counters

/-!
# `krv_utils.c`

Software reads the 64-bit `time` as two words, one after the other in either
order, and composes them.  The composed value is one that the counter had in
between, exactly as long as neither half falls from the first read to the
second.  `wait_ms` and `get_time_ms` inherit this, and the first also depends on
its product being below `2 ^ 64`.
-/

namespace KyogenRV.KrvUtils

/-! ## The counter that is read -/

/-- The CSR module in every cycle of a run that never writes `time` or
`timeh`. -/
structure Clock where
  csr : ℕ → Csr
  ports : ℕ → CsrIO × Bool
  edge : ∀ n, csr (n + 1) = (csr n).step (ports n)
  unwritten : ∀ n half word, (csr n).counterWrite (ports n) ≠ some (.time, half, word)

namespace Clock

variable (clock : Clock)

/-- `{timeh, time}` in a cycle. -/
def time (n : ℕ) : BitVec 64 := (clock.csr n).counter .time

/-- `csrr x10, time` in a cycle. -/
def getTimel (n : ℕ) : Word := (clock.csr n).out CsrAddr.time

/-- `csrr x10, timeh` in a cycle. -/
def getTimeh (n : ℕ) : Word := (clock.csr n).out CsrAddr.timeh

theorem time_succ (n : ℕ) : clock.time (n + 1) = clock.time n + 1 := by
  rw [time, clock.edge, Csr.counter_step, SplitCounter.count_of_ne (clock.unwritten n)]
  rfl

theorem time_add (n ticks : ℕ) :
    clock.time (n + ticks) = clock.time n + BitVec.ofNat 64 ticks := by
  induction ticks with
  | zero => simp
  | succ ticks ih =>
      rw [← Nat.add_assoc, time_succ, ih, BitVec.ofNat_add, BitVec.add_assoc]
      rfl

/-- The counter from the first cycle on. -/
theorem time_eq (n : ℕ) : clock.time n = clock.time 0 + BitVec.ofNat 64 n := by
  have hadd := clock.time_add 0 n
  rwa [Nat.zero_add] at hadd

end Clock

/-! ## The functions -/

/-- The evaluation order of `get_timeh()` and `get_timel()`, and the cycles of
the two CSR reads. -/
structure Reading where
  highFirst : Bool
  start : ℕ
  stop : ℕ
  ordered : start ≤ stop
  deriving DecidableEq

def xtalFreqKhz : BitVec 64 := 70000

section Functions

variable (clock : Clock)

/-- `((uint64_t)get_timeh() * 4294967296UL) + (uint64_t)get_timel()`. -/
def compose (timeh timel : Word) : BitVec 64 :=
  timeh.setWidth 64 * 4294967296 + timel.setWidth 64

def Reading.value (r : Reading) : BitVec 64 :=
  if r.highFirst then compose (clock.getTimeh r.start) (clock.getTimel r.stop)
  else compose (clock.getTimeh r.stop) (clock.getTimel r.start)

/-- The `while(1)` loop of `wait_ms`: the poll that ends it. -/
def waitLoop (oldtime comp : BitVec 64) : List Reading → Option Reading
  | [] => none
  | poll :: polls =>
      if poll.value clock - oldtime > comp then some poll else waitLoop oldtime comp polls

def waitMs (msec : BitVec 64) (entry : Reading) (polls : List Reading) : Option Reading :=
  waitLoop clock (entry.value clock) (xtalFreqKhz * msec) polls

def getTimeMs (r : Reading) : BitVec 64 := r.value clock / xtalFreqKhz

end Functions

/-! ## Programs -/

/-- A call in a program: `get_time_ms`, a `wait_ms` that returns with the poll
`last`, or a `wait_ms` that is still polling. -/
inductive Call where
  | getTimeMs (r : Reading)
  | waitMs (msec : BitVec 64) (entry : Reading) (polls : List Reading) (last : Reading)
  | waiting (msec : BitVec 64) (entry : Reading) (polls : List Reading)

namespace Call

/-- The readings of a call, in order. -/
def readings : Call → List Reading
  | getTimeMs r => [r]
  | waitMs _ entry polls last => entry :: polls ++ [last]
  | waiting _ entry polls => entry :: polls

/-- The call runs as `krv_utils.c` says. -/
def Runs (clock : Clock) : Call → Prop
  | getTimeMs _ => True
  | waitMs msec entry polls last =>
      KrvUtils.waitMs clock msec entry polls = none ∧
        KrvUtils.waitMs clock msec entry (polls ++ [last]) = some last
  | waiting msec entry polls => KrvUtils.waitMs clock msec entry polls = none

/-- The result of `get_time_ms`. -/
def result (clock : Clock) : Call → Option (BitVec 64)
  | getTimeMs r => some (KrvUtils.getTimeMs clock r)
  | _ => none

/-- A `wait_ms` that returns has let its ticks pass. -/
def NotEarly : Call → Prop
  | waitMs msec entry _ last => 70000 * msec.toNat ≤ last.stop - entry.start
  | _ => True

/-- The ticks that a `wait_ms` that returns is to wait for fit into 64 bits. -/
def Fits : Call → Prop
  | waitMs msec _ _ _ => 70000 * msec.toNat < 2 ^ 64
  | _ => True

end Call

section Programs

variable (clock : Clock) (calls : List Call)

/-- All readings of a program. -/
def readings : List Reading := calls.flatMap Call.readings

/-- The calls run one after the other. -/
structure Executes : Prop where
  runs : ∀ call ∈ calls, call.Runs clock
  chronological : (readings calls).Pairwise fun r r' => r.stop ≤ r'.start

/-- The 64-bit counter does not wrap before the last reading. -/
def NoWrap : Prop := ∀ r ∈ readings calls, (clock.time 0).toNat + r.stop < 2 ^ 64

/-- Every composed value lies between the values of the counter at the two
reads, no wait returns early, and the results of `get_time_ms` do not fall
unless the counter wraps. -/
structure TimeConsistent : Prop where
  between : ∀ r ∈ readings calls,
    clock.time r.start ≤ r.value clock ∧ r.value clock ≤ clock.time r.stop
  waits : ∀ call ∈ calls, call.NotEarly
  monotone : NoWrap clock calls → (calls.filterMap (Call.result clock)).Pairwise (· ≤ ·)

/-- In every reading neither half of the counter falls, and no wait overflows. -/
structure ReadsWhole : Prop where
  rises : ∀ r ∈ readings calls, SplitCounter.Rises (w := 32) (clock.time r.start) (clock.time r.stop)
  fits : ∀ call ∈ calls, call.Fits

end Programs

/-! ## One reading -/

section Reading

variable {clock : Clock} {r : Reading}

theorem compose_eq_append (timeh timel : Word) : compose timeh timel = timeh ++ timel := by
  have hhigh := timeh.isLt
  have hlow := timel.isLt
  have hshift : (4294967296 : BitVec 64).toNat = 2 ^ 32 := rfl
  apply BitVec.eq_of_toNat_eq
  rw [SplitCounter.toNat_append timeh timel, compose, BitVec.toNat_add, BitVec.toNat_mul,
    BitVec.toNat_setWidth, BitVec.toNat_setWidth, hshift]
  omega

theorem getTimeh_eq (clock : Clock) (n : ℕ) :
    clock.getTimeh n = SplitCounter.high (w := 32) (clock.time n) :=
  (SplitCounter.high_append ..).symm

theorem getTimel_eq (clock : Clock) (n : ℕ) :
    clock.getTimel n = SplitCounter.low (w := 32) (clock.time n) :=
  (SplitCounter.low_append ..).symm

/-- A composed value lies in between exactly if neither half falls. -/
theorem between_iff :
    clock.time r.start ≤ r.value clock ∧ r.value clock ≤ clock.time r.stop ↔
      SplitCounter.Rises (w := 32) (clock.time r.start) (clock.time r.stop) := by
  rw [Reading.value, compose_eq_append, compose_eq_append, getTimeh_eq, getTimeh_eq,
    getTimel_eq, getTimel_eq]
  cases r.highFirst with
  | true => exact SplitCounter.between_iff_high_first (w := 32) _ _
  | false => exact SplitCounter.between_iff_low_first (w := 32) _ _

/-- Such a value is one that the counter had during the reading. -/
theorem exists_time
    (hrises : SplitCounter.Rises (w := 32) (clock.time r.start) (clock.time r.stop)) :
    ∃ n, r.start ≤ n ∧ n ≤ r.stop ∧ r.value clock = clock.time n := by
  obtain ⟨hfirst, hsecond⟩ := between_iff.mpr hrises
  obtain ⟨ticks, hticks⟩ := Nat.exists_eq_add_of_le r.ordered
  rw [hticks, clock.time_add] at hsecond
  obtain ⟨passed, hpassed, hvalue⟩ := SplitCounter.exists_tick hfirst hsecond
  refine ⟨r.start + passed, by omega, by omega, ?_⟩
  rw [hvalue, clock.time_add]

end Reading

/-! ## Programs -/

section Programs

variable {clock : Clock} {calls : List Call}

theorem waitLoop_eq_some {oldtime comp : BitVec 64} {polls : List Reading} {last : Reading}
    (hloop : waitLoop clock oldtime comp polls = some last) :
    last ∈ polls ∧ comp < last.value clock - oldtime := by
  induction polls with
  | nil => exact absurd hloop (by simp [waitLoop])
  | cons poll polls ih =>
      rw [waitLoop] at hloop
      split_ifs at hloop with hexit
      · obtain rfl := Option.some.inj hloop
        exact ⟨List.mem_cons_self .., hexit⟩
      · exact ⟨List.mem_cons_of_mem _ (ih hloop).1, (ih hloop).2⟩

/-- A product below `2 ^ 64` is what `wait_ms` compares with. -/
theorem toNat_comp {msec : BitVec 64} (hfits : 70000 * msec.toNat < 2 ^ 64) :
    (xtalFreqKhz * msec).toNat = 70000 * msec.toNat := by
  rw [BitVec.toNat_mul]
  exact Nat.mod_eq_of_lt hfits

/-- With whole readings a wait lets its ticks pass. -/
theorem notEarly_of_rises {msec : BitVec 64} {entry last : Reading} {polls : List Reading}
    (hfits : 70000 * msec.toNat < 2 ^ 64)
    (hentry : SplitCounter.Rises (w := 32) (clock.time entry.start) (clock.time entry.stop))
    (hlast : SplitCounter.Rises (w := 32) (clock.time last.start) (clock.time last.stop))
    (hafter : entry.stop ≤ last.start)
    (hreturns : waitMs clock msec entry polls = some last) :
    70000 * msec.toNat ≤ last.stop - entry.start := by
  obtain ⟨old, hstart, hold, holdtime⟩ := exists_time hentry
  obtain ⟨now, hnow, hstop, hnowtime⟩ := exists_time hlast
  have hexit := (waitLoop_eq_some hreturns).2
  have helapsed := SplitCounter.toNat_sub_le (clock.time 0) (show old ≤ now by omega)
  rw [hnowtime, holdtime, clock.time_eq now, clock.time_eq old, BitVec.lt_def,
    toNat_comp hfits] at hexit
  omega

/-- Unless the counter wraps, later whole readings give no smaller results. -/
theorem getTimeMs_le {r r' : Reading}
    (hrises : SplitCounter.Rises (w := 32) (clock.time r.start) (clock.time r.stop))
    (hrises' : SplitCounter.Rises (w := 32) (clock.time r'.start) (clock.time r'.stop))
    (hafter : r.stop ≤ r'.start) (hwrap : (clock.time 0).toNat + r'.stop < 2 ^ 64) :
    getTimeMs clock r ≤ getTimeMs clock r' := by
  obtain ⟨n, _, hn, hvalue⟩ := exists_time hrises
  obtain ⟨n', hn', hstop, hvalue'⟩ := exists_time hrises'
  have htime (n : ℕ) (hn : (clock.time 0).toNat + n < 2 ^ 64) :
      (clock.time n).toNat = (clock.time 0).toNat + n := by
    rw [clock.time_eq, BitVec.toNat_add, BitVec.toNat_ofNat, Nat.add_mod_mod,
      Nat.mod_eq_of_lt hn]
  rw [getTimeMs, getTimeMs, hvalue, hvalue', BitVec.le_def, BitVec.toNat_udiv,
    BitVec.toNat_udiv, htime n (by omega), htime n' (by omega)]
  exact Nat.div_le_div_right (by omega)

theorem mem_readings {call : Call} {r : Reading} (hcall : call ∈ calls)
    (hr : r ∈ call.readings) : r ∈ readings calls :=
  List.mem_flatMap.mpr ⟨call, hcall, hr⟩

/-- The readings of one call are in order. -/
theorem Executes.chronological_call (hexec : Executes clock calls) {call : Call}
    (hcall : call ∈ calls) : call.readings.Pairwise fun r r' => r.stop ≤ r'.start :=
  (List.pairwise_flatMap.mp hexec.chronological).1 call hcall

theorem results_le (hexec : Executes clock calls) (hwhole : ReadsWhole clock calls)
    (hwrap : NoWrap clock calls) :
    (calls.filterMap (Call.result clock)).Pairwise (· ≤ ·) := by
  rw [List.pairwise_filterMap]
  refine (List.pairwise_flatMap.mp hexec.chronological).2.imp_of_mem ?_
  intro call call' hcall hcall' hafter value hvalue value' hvalue'
  cases call with
  | waitMs => exact absurd hvalue (by simp [Call.result])
  | waiting => exact absurd hvalue (by simp [Call.result])
  | getTimeMs r =>
      cases call' with
      | waitMs => exact absurd hvalue' (by simp [Call.result])
      | waiting => exact absurd hvalue' (by simp [Call.result])
      | getTimeMs r' =>
          obtain rfl := Option.some.inj hvalue
          obtain rfl := Option.some.inj hvalue'
          have hr := mem_readings hcall (List.mem_singleton_self r)
          have hr' := mem_readings hcall' (List.mem_singleton_self r')
          exact getTimeMs_le (hwhole.rises r hr) (hwhole.rises r' hr')
            (hafter r (List.mem_singleton_self r) r' (List.mem_singleton_self r')) (hwrap r' hr')

theorem notEarly (hexec : Executes clock calls) (hwhole : ReadsWhole clock calls) {call : Call}
    (hcall : call ∈ calls) : call.NotEarly := by
  cases call with
  | getTimeMs => trivial
  | waiting => trivial
  | waitMs msec entry polls last =>
      have hentry : entry ∈ (Call.waitMs msec entry polls last).readings :=
        List.mem_cons_self ..
      have hlast : last ∈ polls ++ [last] := List.mem_append_right _ (List.mem_singleton_self last)
      have hafter := (List.pairwise_cons.mp (hexec.chronological_call hcall)).1 last hlast
      exact notEarly_of_rises (hwhole.fits _ hcall) (hwhole.rises _ (mem_readings hcall hentry))
        (hwhole.rises _ (mem_readings hcall (List.mem_cons_of_mem _ hlast))) hafter
        (hexec.runs _ hcall).2

/-- Whole readings without overflow are enough for software time to be
consistent, and unless the counter wraps they are needed. -/
theorem time_consistent (hexec : Executes clock calls) :
    (ReadsWhole clock calls → TimeConsistent clock calls) ∧
      (NoWrap clock calls → TimeConsistent clock calls → ReadsWhole clock calls) := by
  constructor
  · intro hwhole
    exact ⟨fun r hr => between_iff.mpr (hwhole.rises r hr), fun _ => notEarly hexec hwhole,
      results_le hexec hwhole⟩
  · intro hwrap hconsistent
    refine ⟨fun r hr => between_iff.mp (hconsistent.between r hr), fun call hcall => ?_⟩
    cases call with
    | getTimeMs => trivial
    | waiting => trivial
    | waitMs msec entry polls last =>
        have hlast : last ∈ (Call.waitMs msec entry polls last).readings :=
          List.mem_cons_of_mem _ (List.mem_append_right _ (List.mem_singleton_self last))
        have hwaits : 70000 * msec.toNat ≤ last.stop - entry.start := hconsistent.waits _ hcall
        have hstop := hwrap last (mem_readings hcall hlast)
        change 70000 * msec.toNat < 2 ^ 64
        omega

/-! ## Sample programs -/

/-- The ports while a NOP is in EX. -/
def nopPorts : CsrIO × Bool :=
  (⟨0, 0, CSR.n, 0, true, false, 4, false, false, false, Instructions.nop, 0, 0, 0, 0⟩, false)

/-- A clock that starts with the given registers and executes NOPs. -/
def nopClock (c : Csr) : Clock where
  csr := fun n => (fun d : Csr => d.step nopPorts)^[n] c
  ports := fun _ => nopPorts
  edge := fun n => Function.iterate_succ_apply' ..
  unwritten := by
    intro n half word
    have hwen : Csr.wen nopPorts.1 = false := by decide
    rw [Csr.counterWrite, hwen, Bool.and_false]
    simp

def sampleCalls : List Call :=
  [.getTimeMs ⟨false, 2, 3, by decide⟩,
    .waitMs 0 ⟨true, 5, 6, by decide⟩ [⟨true, 6, 6, by decide⟩] ⟨true, 7, 9, by decide⟩]

/-- After reset `get_time_ms` is called, then a wait of 0 ms ends with its second
poll. -/
theorem time_consistent_reset :
    TimeConsistent (nopClock (.reset 0 0 0 0 0)) sampleCalls := by
  have hexec : Executes (nopClock (.reset 0 0 0 0 0)) sampleCalls := by
    refine ⟨?_, by simp [sampleCalls, readings, Call.readings]⟩
    simp only [sampleCalls, List.forall_mem_cons, List.not_mem_nil, false_imp_iff, implies_true,
      and_true]
    refine ⟨trivial, ?_, ?_⟩
    · decide
    · decide
  refine (time_consistent hexec).1 ⟨?_, ?_⟩
  · simp only [sampleCalls, readings, Call.readings, List.flatMap_cons, List.flatMap_nil,
      List.cons_append, List.nil_append, List.append_nil, List.forall_mem_cons, List.not_mem_nil,
      false_imp_iff, implies_true, and_true]
    decide
  · simp [sampleCalls, Call.Fits]

/-- The lower word rolls over between the two reads. -/
theorem time_torn :
    ¬∀ (clock : Clock) (calls : List Call), Executes clock calls →
      TimeConsistent clock calls := by
  intro h
  let clock := nopClock { Csr.reset 0 0 0 0 0 with time := 0xffffffff }
  let r : Reading := ⟨true, 0, 1, by decide⟩
  have hexec : Executes clock [.getTimeMs r] :=
    ⟨by simp [Call.Runs], by simp [readings, Call.readings]⟩
  have hbetween := ((h clock _ hexec).between r (by simp [readings, Call.readings])).1
  revert hbetween
  decide

end Programs

end KyogenRV.KrvUtils
