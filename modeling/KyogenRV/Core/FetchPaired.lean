import KyogenRV.Core.FetchPort

/-!
# Words and their pcs

The word that the port owes for a fetch arrives while `if_pc` still holds its
address, or it is saved with the pc that ID will put back.  As long as the port
answers in time and the front end keeps what it answers, ID and EX hold words
with their own pcs, and no word on the way to ID is dropped.
-/

namespace KyogenRV

open ScalarOpConstants MemoryOpConstants

namespace KyogenRVCpu

section Edge

variable {s : KyogenRVCpu} {io : HostIf}

/-- While the pipeline waits, a kill changes neither ID nor the save registers. -/
theorem id_of_killWait (hkill : s.instKill io = true) (hwait : s.waitrequest io = true) :
    (s.step io).id = s.id ∧ (s.step io).idTemp = s.idTemp ∧
      (s.step io).id2Temp = s.id2Temp := by
  refine ⟨?_, ?_, ?_⟩ <;> simp [idStage, idSave, hkill, hwait]

theorem ifStage_of_killWait (hkill : s.instKill io = true) (hwait : s.waitrequest io = true) :
    s.ifStage io = ⟨s.ifPc, s.ifNpc, if s.loadstoreInPipe then false else s.imemReq, false⟩ := by
  simp [ifStage, hkill, hwait]

theorem pcCntr_of_wait (hhalt : io.halt = false) (hwait : s.waitrequest io = true) :
    (s.step io).pcCntr = s.pcCntr :=
  pcCntr_of_hold hhalt (by rw [holdId, hwait, Bool.or_true])

/-- With the lock on, ID stays as it was when the fetch starts again and ID is
held. -/
theorem id_of_heldReturn (hreq : s.imemReq = true) (hkill : s.instKill io = false)
    (hls : s.inLoadstore = true) (hlock : s.tempLock = true) (hhold : s.holdId io = true)
    (hid : s.id2Temp = s.id) :
    (s.step io).id = s.id ∧ (s.step io).idTemp = s.idTemp ∧
      (s.step io).id2Temp = s.id2Temp := by
  refine ⟨?_, ?_, ?_⟩ <;> cases hstall : s.stall io <;> cases hwait : s.waitrequest io <;>
    cases hvalid : s.validIdInst io <;>
    simp_all [idStage, idSave, holdId]

/-- EX keeps its instruction, is emptied, or takes that of ID. -/
theorem exSlot_step (s : KyogenRVCpu) (io : HostIf) :
    (s.step io).exSlot = s.exSlot ∨ (s.step io).exSlot = .bubble ∨
      (s.step io).exSlot = s.id := by
  rw [exSlot]
  cases s.stageStep io with
  | held _ hex _ _ => rw [hex]; exact Or.inl rfl
  | killed _ _ hex _ _ | drained _ _ _ hex _ _ => rw [hex]; exact Or.inr (Or.inl rfl)
  | issued _ _ _ hex _ _ => rw [hex]; exact Or.inr (Or.inr rfl)

/-- The request rises only when the accesses have left MEM and ID is not held. -/
theorem go_of_imemReq_step (hreq : s.imemReq = false) (hkill : s.instKill io = false)
    (hreq' : (s.step io).imemReq = true) : s.loadstoreInPipe = false ∧ s.holdId io = false := by
  have hpipe : s.loadstoreInPipe = false := by
    by_contra hpipe
    rw [Bool.not_eq_false] at hpipe
    exact absurd ((imemReq_of_access hkill hpipe).symm.trans hreq') Bool.false_ne_true
  refine ⟨hpipe, ?_⟩
  by_contra hhold
  rw [Bool.not_eq_false] at hhold
  rw [step_imemReq, ifStage_of_hold hhold hkill hpipe] at hreq'
  exact absurd (hreq.symm.trans hreq') Bool.false_ne_true

/-- A fetch stage that makes no request keeps its pc. -/
theorem ifPc_of_noReq (hboot : s.BootInv) (hkill : s.instKill io = false)
    (hreq' : (s.step io).imemReq = false) :
    (s.step io).ifPc = s.ifPc ∧ (s.step io).ifNpc = s.ifNpc := by
  rw [step_ifPc, step_ifNpc]
  cases hpipe : s.loadstoreInPipe with
  | true =>
      rw [ifStage_of_access hkill hpipe]
      exact ⟨rfl, rfl⟩
  | false =>
      cases hhold : s.holdId io with
      | true =>
          rw [ifStage_of_hold hhold hkill hpipe]
          exact ⟨rfl, rfl⟩
      | false =>
          have hrises := imemReq_of_go hboot hhold hkill hpipe
          exact absurd (hreq'.symm.trans hrises) Bool.false_ne_true

/-- A kill that is heard empties ID and sends the fetch on. -/
theorem stages_of_redirect (hboot : s.BootInv) (hkill : s.instKill io = true)
    (hwait : s.waitrequest io = false) (hreq : s.imemReq = true) :
    (s.step io).id = .bubble ∧ (s.step io).idTemp = .bubble ∧ (s.step io).imemReq = true ∧
      (s.step io).validImem = false := by
  have hstall := hboot.stall_of_kill hkill
  have hsig := hboot.readSigKill hkill
  refine ⟨id_of_kill hkill hwait hreq, ?_, ?_, ?_⟩ <;>
    simp [idStage, ifStage, hkill, hwait, hreq, hstall, hsig]

/-- The request is made at `pc_cntr`. -/
theorem imemAddr_of_req (hboot : s.BootInv) (hreq : s.imemReq = true) :
    s.imemAddr = s.pcCntr := by
  have hdelay : s.delayStall = 7 := by
    by_contra hdelay
    exact absurd ((hboot.idle hdelay).1.symm.trans hreq) Bool.false_ne_true
  have hsig := (hboot.counting (by rw [hdelay]; decide)).1
  rw [imemAddr, hboot.readSig hsig]
  rfl

end Edge

end KyogenRVCpu

namespace FetchPort

section Place

variable (memory : Word → Word) (p : FetchPort) (c : Word)

/-- The port owes the word at `c`, and `if_pc` holds its address. -/
structure Streaming : Prop where
  req : p.cpu.imemReq = true
  valid : p.cpu.validImem = true
  newest : p.pending.getLast? = some c
  ifPc : p.cpu.ifPc = c
  ifNpc : p.cpu.ifNpc = c + 4
  pcCntr : p.cpu.pcCntr = c + 4

/-- The next word that ID receives is the one at `c`. -/
inductive FetchAt : Prop
  | boot (hreq : p.cpu.imemReq = false) (hpending : p.pending = []) (hid : p.cpu.id = .bubble)
      (htemp : p.cpu.idTemp = .bubble) (hpc : p.cpu.pcCntr = c)
  | streaming (hstream : p.Streaming c)
  | saved (hreq : p.cpu.imemReq = true) (hinvalid : p.cpu.validImem = false)
      (htemp : p.cpu.restored = .fetch memory c) (hpc : p.cpu.pcCntr = c + 4)
  | empty (hreq : p.cpu.imemReq = true) (hinvalid : p.cpu.validImem = false ∨ p.pending = [])
      (htemp : p.cpu.idTemp = .bubble) (hpc : p.cpu.pcCntr = c)

/-- No access is around ID. -/
structure Undisturbed : Prop where
  fetch : p.FetchAt memory c
  inLoadstore : p.cpu.inLoadstore = false
  inEx : p.cpu.ex.ctrl.memWr ≠ mX → p.Streaming c
  mem : p.cpu.mem.ctrl.memWr = mX
  wb : p.cpu.wb.ctrl.memWr = mX

/-- An access is on its way: the word at `c` is owed, saved, or about to be put
back. -/
inductive AccessAt : Prop
  | late (q : Word) (hreq : p.cpu.imemReq = false) (hnext : c = q + 4)
      (hid : p.cpu.id = .fetch memory q) (hifPc : p.cpu.ifPc = q) (hifNpc : p.cpu.ifNpc = q + 4)
      (hnewest : p.pending.getLast? = some c) (hlock : p.cpu.tempLock = false)
      (hpc : p.cpu.pcCntr = c + 4)
      (haccess : p.cpu.loadstoreInPipe = true ∨ p.cpu.inLoadstore = true)
  | kept (hreq : p.cpu.imemReq = false) (hlock : p.cpu.tempLock = true)
      (htemp : p.cpu.restored = .fetch memory c) (hid : p.cpu.id2Temp = p.cpu.id)
      (hpc : p.cpu.pcCntr = c + 4)
      (haccess : p.cpu.loadstoreInPipe = true ∨ p.cpu.inLoadstore = true)
  | returning (hreq : p.cpu.imemReq = true) (hls : p.cpu.inLoadstore = true)
      (hlock : p.cpu.tempLock = true) (htemp : p.cpu.restored = .fetch memory c)
      (hid : p.cpu.id2Temp = p.cpu.id) (hpc : p.cpu.pcCntr = c + 4)
      (hex : p.cpu.ex.ctrl.memWr = mX) (hmem : p.cpu.mem.ctrl.memWr = mX)
      (hwb : p.cpu.wb.ctrl.memWr = mX)

inductive NextAt : Prop
  | undisturbed (h : p.Undisturbed memory c)
  | access (h : p.AccessAt memory c)

/-- The word that was due has met a kill in a waiting cycle. -/
structure Lost : Prop where
  valid : p.cpu.validImem = false
  inLoadstore : p.cpu.inLoadstore = false
  mem : p.cpu.mem.ctrl.memWr = mX
  wb : p.cpu.wb.ctrl.memWr = mX

/-- ID keeps what it holds, is emptied, or receives the word at `c`, and the next
word follows. -/
inductive Moves (p' : FetchPort) : Prop
  | keeps (hid : p'.cpu.id = p.cpu.id) (hnext : p'.NextAt memory c)
  | empties (hid : p'.cpu.id = .bubble) (hnext : p'.NextAt memory c)
  | takes (hid : p'.cpu.id = .fetch memory c) (hnext : p'.NextAt memory (c + 4))

end Place

section Step

variable {memory : Word → Word} {p : FetchPort} {io : HostIf} {c : Word}

/-! ## The port -/

/-- What the port owes while the request is up and nothing waits. -/
theorem newest_of_go (hboot : p.cpu.BootInv) (hreq : p.cpu.imemReq = true)
    (hwait : p.cpu.waitrequest (p.hostIf memory io) = false) :
    (p.step memory io).pending.getLast? = some p.cpu.pcCntr := by
  have hwait' : io.wWaitrequestSig = false := by
    simp only [KyogenRVCpu.waitrequest, Bool.or_eq_false_iff] at hwait
    exact hwait.1.1
  have haccepts : p.accepts io = [p.cpu.pcCntr] := by
    rw [accepts, hreq, hwait', KyogenRVCpu.imemAddr_of_req hboot hreq]
    rfl
  rw [step, haccepts, List.getLast?_concat]

theorem pending_of_noReq (hreq : p.cpu.imemReq = false) :
    (p.step memory io).pending = if p.answered io then p.pending.tail else p.pending := by
  rw [step, accepts, hreq]
  exact List.append_nil _

/-- The word on the port is that of the newest request. -/
theorem fetched_of_newest (hanswered : p.answered io = true)
    (hhead : p.pending.head? = p.pending.getLast?) (hlast : p.pending.getLast? = some c) :
    (p.hostIf memory io).rImemAck = true ∧ (p.hostIf memory io).rImemData = memory c := by
  refine ⟨hanswered, ?_⟩
  have haddr : p.pending.headD 0 = c := by
    rw [List.headD_eq_head?_getD, hhead, hlast]
    rfl
  rw [hostIf, hanswered, if_pos rfl, haddr]

theorem answered_of_pending_nil (hpending : p.pending = []) : p.answered io = false := by
  rw [answered, hpending]
  exact Bool.and_false _

theorem Streaming.due (hs : p.Streaming c) (hls : p.cpu.inLoadstore = false) :
    p.due = true := by
  have hpending : p.pending.isEmpty = false := by
    cases hp : p.pending with
    | nil => simpa [hp] using hs.newest
    | cons => rfl
  rw [FetchPort.due, hs.req, hs.valid, hls, hpending]
  rfl

theorem Streaming.live (hs : p.Streaming c) : ¬(p.cpu.validImem = false ∨ p.pending = []) := by
  rintro (hinvalid | hnone)
  · exact absurd (hinvalid.symm.trans hs.valid) Bool.false_ne_true
  · have hnewest := hs.newest
    rw [hnone] at hnewest
    exact absurd hnewest (by simp)

/-- Nothing that ID could take is on the port. -/
theorem validIdInst_eq_false (hinvalid : p.cpu.validImem = false ∨ p.pending = []) :
    p.cpu.validIdInst (p.hostIf memory io) = false := by
  rw [KyogenRVCpu.validIdInst]
  rcases hinvalid with h | h
  · rw [h, Bool.false_and]
  · have hack : (p.hostIf memory io).rImemAck = false := answered_of_pending_nil h
    rw [hack, Bool.and_false]

/-- The word that is due arrives in time, with its pc in the fetch stage. -/
theorem Streaming.arrives (hs : p.Streaming c) (hls : p.cpu.inLoadstore = false)
    (htime : p.InTime memory io) (hkill : p.kills memory io = false) :
    p.cpu.validIdInst (p.hostIf memory io) = true ∧
      p.cpu.fetched (p.hostIf memory io) = .fetch memory c := by
  have hdue := hs.due hls
  have hanswered := htime.answered hdue hkill
  have hhead := htime.newest hanswered hkill (Or.inl hdue)
  obtain ⟨hack, hdata⟩ := fetched_of_newest hanswered hhead hs.newest
  constructor
  · rw [KyogenRVCpu.validIdInst, hs.valid, hack]
    rfl
  · rw [KyogenRVCpu.fetched, hs.ifPc, hs.ifNpc, hdata, Slot.fetch]

/-- An access enters EX only while the fetch is streaming. -/
theorem Undisturbed.noAccess (hnext : p.Undisturbed memory c) (hnone : ¬p.Streaming c) :
    p.cpu.ex.ctrl.memWr = mX := by
  by_contra hne
  exact hnone (hnext.inEx hne)

/-! ## Kills -/

/-- A kill that is heard empties ID and sends the fetch to the target. -/
theorem undisturbed_of_redirect (hboot : p.cpu.BootInv)
    (hredirect : p.redirects memory io = true) (hmem : p.cpu.mem.ctrl.memWr = mX) :
    (p.step memory io).cpu.id = .bubble ∧
      (p.step memory io).Undisturbed memory (p.step memory io).cpu.pcCntr := by
  simp only [redirects, kills, Bool.and_eq_true, Bool.not_eq_true'] at hredirect
  obtain ⟨⟨hkill, hwait⟩, hreq⟩ := hredirect
  obtain ⟨hid, htemp, hreq', hvalid⟩ :=
    KyogenRVCpu.stages_of_redirect hboot hkill hwait hreq
  obtain ⟨hex', hmem', hwb'⟩ := KyogenRVCpu.stages_of_kill hwait hkill
  refine ⟨hid, .empty hreq' (Or.inl hvalid) htemp rfl, ?_, fun h => ?_, ?_, ?_⟩
  · exact KyogenRVCpu.inLoadstore_of_noAccess hmem (Or.inr hreq)
  · rw [step_cpu, hex'] at h
    exact absurd KyogenRVCpu.nop_noAccess h
  · rw [step_cpu, hmem']
    exact KyogenRVCpu.nop_noAccess
  · rw [step_cpu, hwb']
    exact hmem

section Waiting

variable (hkill : p.cpu.instKill (p.hostIf memory io) = true)
  (hwait : p.cpu.waitrequest (p.hostIf memory io) = true)

include hkill hwait

/-- Without an access around, a kill in a waiting cycle loses at most the word
that is due. -/
theorem Undisturbed.killWait (hhalt : io.halt = false) (hnext : p.Undisturbed memory c) :
    (p.step memory io).cpu.id = p.cpu.id ∧
      if p.due then (p.step memory io).Lost else (p.step memory io).Undisturbed memory c := by
  obtain ⟨hid, htemp, htemp2⟩ := KyogenRVCpu.id_of_killWait hkill hwait
  obtain ⟨hex', hmem', hwb'⟩ := KyogenRVCpu.stages_of_wait hwait
  have hif := KyogenRVCpu.ifStage_of_killWait hkill hwait
  have hvalid : (p.step memory io).cpu.validImem = false := by simp [hif]
  have hls : (p.step memory io).cpu.inLoadstore = false :=
    KyogenRVCpu.inLoadstore_of_noAccess hnext.mem (Or.inl hnext.inLoadstore)
  have hmem : (p.step memory io).cpu.mem.ctrl.memWr = mX := by rw [step_cpu, hmem', hnext.mem]
  have hwb : (p.step memory io).cpu.wb.ctrl.memWr = mX := by rw [step_cpu, hwb', hnext.wb]
  have hpc : (p.step memory io).cpu.pcCntr = p.cpu.pcCntr :=
    KyogenRVCpu.pcCntr_of_wait hhalt hwait
  refine ⟨hid, ?_⟩
  cases hdue : p.due with
  | true => exact ⟨hvalid, hls, hmem, hwb⟩
  | false =>
      have hnone : ¬p.Streaming c := fun h => by
        rw [h.due hnext.inLoadstore] at hdue
        exact absurd hdue (by decide)
      have hex := hnext.noAccess hnone
      have hpipe := (KyogenRVCpu.loadstoreInPipe_eq_false_iff p.cpu).mpr ⟨hex, hnext.mem⟩
      have hreq : (p.step memory io).cpu.imemReq = p.cpu.imemReq := by simp [hif, hpipe]
      refine ⟨?_, hls, fun h => ?_, hmem, hwb⟩
      · cases hnext.fetch with
        | boot hdown hpending hidle hempty hat =>
            refine .boot (hreq.trans hdown) ?_ (hid.trans hidle) (htemp.trans hempty)
              (hpc.trans hat)
            rw [pending_of_noReq hdown, answered_of_pending_nil hpending]
            exact hpending
        | streaming h => exact absurd h hnone
        | saved hup _ hsaved hat =>
            refine .saved (hreq.trans hup) hvalid ?_ (hpc.trans hat)
            exact (KyogenRVCpu.restored_congr htemp htemp2).trans hsaved
        | empty hup _ hempty hat =>
            exact .empty (hreq.trans hup) (Or.inl hvalid) (htemp.trans hempty) (hpc.trans hat)
      · rw [step_cpu, hex'] at h
        exact absurd hex h

/-- Around an access it loses nothing, if no late word arrives. -/
theorem AccessAt.killWait (hhalt : io.halt = false) (hnext : p.AccessAt memory c)
    (hkept : p.Kept memory io) :
    (p.step memory io).cpu.id = p.cpu.id ∧ (p.step memory io).NextAt memory c := by
  obtain ⟨hid, htemp, htemp2⟩ := KyogenRVCpu.id_of_killWait hkill hwait
  obtain ⟨hex', hmem', hwb'⟩ := KyogenRVCpu.stages_of_wait hwait
  have hif := KyogenRVCpu.ifStage_of_killWait hkill hwait
  have hpc : (p.step memory io).cpu.pcCntr = p.cpu.pcCntr :=
    KyogenRVCpu.pcCntr_of_wait hhalt hwait
  have hrestored : (p.step memory io).cpu.restored = p.cpu.restored :=
    KyogenRVCpu.restored_congr htemp htemp2
  have hdown (hreq : p.cpu.imemReq = false) : (p.step memory io).cpu.imemReq = false := by
    simp [hif, hreq]
  have hquiet (hreq : p.cpu.imemReq = false) :=
    (hkept.requested hreq hkill).2
  have hlock (hreq : p.cpu.imemReq = false) :
      (p.step memory io).cpu.tempLock = p.cpu.tempLock :=
    (KyogenRVCpu.id_of_frozen (p.hostIf memory io) hreq (hquiet hreq)).2.2.2
  have haccess (hreq : p.cpu.imemReq = false)
      (h : p.cpu.loadstoreInPipe = true ∨ p.cpu.inLoadstore = true) :
      (p.step memory io).cpu.loadstoreInPipe = true ∨
        (p.step memory io).cpu.inLoadstore = true := by
    refine h.imp (fun hpipe => ?_) fun hls => ?_
    · rw [step_cpu, KyogenRVCpu.loadstoreInPipe, hex', hmem']
      exact hpipe
    · simp [KyogenRVCpu.inLoadstoreNext, hreq, hls]
  refine ⟨hid, ?_⟩
  cases hnext with
  | late q hreq hnext hq hifPc hifNpc hnewest hunlocked hat hacc =>
      refine .access (.late q (hdown hreq) hnext (hid.trans hq) ?_ ?_ ?_
        ((hlock hreq).trans hunlocked) (hpc.trans hat) (haccess hreq hacc))
      · simp [hif, hifPc]
      · simp [hif, hifNpc]
      · have hnone := (hquiet hreq).resolve_right (by simp [hunlocked])
        rw [pending_of_noReq hreq, hnone]
        exact hnewest
  | kept hreq hlocked hsaved hsame hat hacc =>
      refine .access (.kept (hdown hreq) ((hlock hreq).trans hlocked) (hrestored.trans hsaved) ?_
        (hpc.trans hat) (haccess hreq hacc))
      rw [step_cpu, htemp2, hid, hsame]
  | returning hreq hls hlocked hsaved hsame hat hex hmem hwb =>
      have hpipe := (KyogenRVCpu.loadstoreInPipe_eq_false_iff p.cpu).mpr ⟨hex, hmem⟩
      refine .undisturbed ⟨.saved ?_ ?_ (hrestored.trans hsaved) (hpc.trans hat), ?_, fun h => ?_,
        ?_, ?_⟩
      · simp [hif, hpipe, hreq]
      · simp [hif]
      · exact KyogenRVCpu.inLoadstore_of_noAccess hmem (Or.inr hreq)
      · rw [step_cpu, hex'] at h
        exact absurd hex h
      · rw [step_cpu, hmem', hmem]
      · rw [step_cpu, hwb', hwb]

/-- A lost word stays lost. -/
theorem Lost.killWait (hlost : p.Lost) : (p.step memory io).cpu.id = p.cpu.id ∧
    (p.step memory io).Lost := by
  obtain ⟨hid, _⟩ := KyogenRVCpu.id_of_killWait hkill hwait
  obtain ⟨_, hmem', hwb'⟩ := KyogenRVCpu.stages_of_wait hwait
  have hif := KyogenRVCpu.ifStage_of_killWait hkill hwait
  refine ⟨hid, ?_, ?_, ?_, ?_⟩
  · simp [hif]
  · exact KyogenRVCpu.inLoadstore_of_noAccess hlost.mem (Or.inl hlost.inLoadstore)
  · rw [step_cpu, hmem', hlost.mem]
  · rw [step_cpu, hwb', hlost.wb]

end Waiting

/-! ## Without a kill -/

section Moving

variable (hhalt : io.halt = false) (hkill : p.cpu.instKill (p.hostIf memory io) = false)

include hhalt hkill

/-- The fetch moves on with ID. -/
theorem streaming_of_go (hboot : p.cpu.BootInv) (hreq : p.cpu.imemReq = true)
    (hgo : p.cpu.holdId (p.hostIf memory io) = false)
    (hpipe : p.cpu.loadstoreInPipe = false) : (p.step memory io).Streaming p.cpu.pcCntr := by
  have hif := KyogenRVCpu.ifStage_of_go hgo hkill hpipe
  have hwait := (Bool.or_eq_false_iff.mp hgo).2
  refine ⟨KyogenRVCpu.imemReq_of_go hboot hgo hkill hpipe, ?_, newest_of_go hboot hreq hwait, ?_,
    ?_, KyogenRVCpu.pcCntr_of_go hhalt hreq hgo hkill⟩
  · rw [step_cpu, KyogenRVCpu.step_validImem, hif]
  · rw [step_cpu, KyogenRVCpu.step_ifPc, hif]
  · rw [step_cpu, KyogenRVCpu.step_ifNpc, hif]

omit hhalt in
/-- While ID is held, without an access in EX the fetch stage keeps what it has. -/
theorem Undisturbed.stay (hnext : p.Undisturbed memory c)
    (hhold : p.cpu.holdId (p.hostIf memory io) = true) (hex : p.cpu.ex.ctrl.memWr = mX)
    (hfetch : (p.step memory io).cpu.imemReq = p.cpu.imemReq →
      (p.step memory io).cpu.validImem = false → (p.step memory io).FetchAt memory c) :
    (p.step memory io).NextAt memory c := by
  have hpipe := (KyogenRVCpu.loadstoreInPipe_eq_false_iff p.cpu).mpr ⟨hex, hnext.mem⟩
  obtain ⟨hreq', hvalid'⟩ := KyogenRVCpu.ifStep_of_hold hhold hkill hpipe
  obtain ⟨hex', hmem', hwb'⟩ := KyogenRVCpu.noAccess_stages hkill
    (KyogenRVCpu.holdIssue_of_hold hhold) hex hnext.mem (Or.inl hnext.wb)
  have hls' : (p.step memory io).cpu.inLoadstore = false :=
    KyogenRVCpu.inLoadstore_of_noAccess hnext.mem (Or.inl hnext.inLoadstore)
  exact .undisturbed ⟨hfetch hreq' hvalid', hls', fun h => absurd hex' h, hmem', hwb'⟩

/-- While ID is held, the word that arrives is saved. -/
theorem Undisturbed.hold_streaming (hnext : p.Undisturbed memory c) (hstream : p.Streaming c)
    (htime : p.InTime memory io) (hkept : p.Kept memory io)
    (hhold : p.cpu.holdId (p.hostIf memory io) = true) (hother : p.cpu.id.pc = c → c = 0) :
    (p.step memory io).cpu.id = p.cpu.id ∧ (p.step memory io).NextAt memory c := by
  have hpc : (p.step memory io).cpu.pcCntr = p.cpu.pcCntr :=
    KyogenRVCpu.pcCntr_of_hold hhalt hhold
  obtain ⟨hvalid, hfetched⟩ := hstream.arrives hnext.inLoadstore htime hkill
  have hlock := hkept.unlocked (hstream.due hnext.inLoadstore) hkill hhold
  obtain ⟨hid, htemp, htemp2⟩ :=
    KyogenRVCpu.id_of_saved hstream.req hkill hvalid hhold hlock
  have hrestored : (p.step memory io).cpu.restored = .fetch memory c := by
    refine KyogenRVCpu.restored_of_saved (htemp.trans hfetched) ?_
    rw [step_cpu, htemp2]
    exact hother
  refine ⟨hid, ?_⟩
  by_cases hex : p.cpu.ex.ctrl.memWr = mX
  · refine hnext.stay hkill hhold hex fun hreq' hvalid' => ?_
    exact .saved (hreq'.trans hstream.req) hvalid' hrestored (hpc.trans hstream.pcCntr)
  · have hpipe := KyogenRVCpu.loadstoreInPipe_of_ex hex
    refine .access (.kept (KyogenRVCpu.imemReq_of_access hkill hpipe) ?_ hrestored
      (htemp2.trans hid.symm) (hpc.trans hstream.pcCntr)
      (Or.inl (KyogenRVCpu.pipe_of_exAccess hkill hex)))
    rw [step_cpu, KyogenRVCpu.tempLock_of_req hstream.req hnext.inLoadstore hkill, hhold,
      hvalid, hlock]
    rfl

/-- While ID is held, the word that is due is saved. -/
theorem Undisturbed.hold (hnext : p.Undisturbed memory c) (htime : p.InTime memory io)
    (hkept : p.Kept memory io) (hhold : p.cpu.holdId (p.hostIf memory io) = true)
    (hother : p.cpu.id.pc = c → c = 0) :
    (p.step memory io).cpu.id = p.cpu.id ∧ (p.step memory io).NextAt memory c := by
  have hpc : (p.step memory io).cpu.pcCntr = p.cpu.pcCntr :=
    KyogenRVCpu.pcCntr_of_hold hhalt hhold
  cases hnext.fetch with
  | boot hreq hpending hidle hempty hat =>
      have hack : p.answered io = false := answered_of_pending_nil hpending
      obtain ⟨hid, htemp, _⟩ :=
        KyogenRVCpu.id_of_frozen (p.hostIf memory io) hreq (Or.inl hack)
      have hnone : ¬p.Streaming c := fun h => h.live (Or.inr hpending)
      refine ⟨hid, hnext.stay hkill hhold (hnext.noAccess hnone) fun hreq' _ => ?_⟩
      refine .boot (hreq'.trans hreq) ?_ (hid.trans hidle) (htemp.trans hempty) (hpc.trans hat)
      rw [pending_of_noReq hreq, hack]
      exact hpending
  | streaming hstream =>
      exact hnext.hold_streaming hhalt hkill hstream htime hkept hhold hother
  | saved hreq hinvalid hsaved hat =>
      obtain ⟨hid, htemp, htemp2⟩ := KyogenRVCpu.id_of_kept hreq hkill hnext.inLoadstore
        (validIdInst_eq_false (Or.inl hinvalid)) hhold
      have hnone : ¬p.Streaming c := fun h => h.live (Or.inl hinvalid)
      refine ⟨hid, hnext.stay hkill hhold (hnext.noAccess hnone) fun hreq' hvalid' => ?_⟩
      refine .saved (hreq'.trans hreq) hvalid' ?_ (hpc.trans hat)
      exact (KyogenRVCpu.restored_congr htemp htemp2).trans hsaved
  | empty hreq hinvalid hempty hat =>
      obtain ⟨hid, htemp, _⟩ := KyogenRVCpu.id_of_kept hreq hkill hnext.inLoadstore
        (validIdInst_eq_false hinvalid) hhold
      have hnone : ¬p.Streaming c := fun h => h.live hinvalid
      refine ⟨hid, hnext.stay hkill hhold (hnext.noAccess hnone) fun hreq' hvalid' => ?_⟩
      exact .empty (hreq'.trans hreq) (Or.inl hvalid') (htemp.trans hempty) (hpc.trans hat)

omit hhalt in
/-- Without an access in EX none is around ID after the edge. -/
theorem Undisturbed.move {d : Word} (hnext : p.Undisturbed memory c)
    (hex : p.cpu.ex.ctrl.memWr = mX) (hfetch : (p.step memory io).FetchAt memory d)
    (hinEx : (p.step memory io).cpu.ex.ctrl.memWr ≠ mX → (p.step memory io).Streaming d) :
    (p.step memory io).NextAt memory d := by
  have hls : (p.step memory io).cpu.inLoadstore = false :=
    KyogenRVCpu.inLoadstore_of_noAccess hnext.mem (Or.inl hnext.inLoadstore)
  obtain ⟨hmem', hwb'⟩ := KyogenRVCpu.noAccess_behind hkill hex hnext.mem (Or.inl hnext.wb)
  exact .undisturbed ⟨hfetch, hls, hinEx, hmem', hwb'⟩

/-- Without an access in EX the fetch moves on. -/
theorem Undisturbed.fetchOn (hboot : p.cpu.BootInv) (hnext : p.Undisturbed memory c)
    (hgo : p.cpu.holdId (p.hostIf memory io) = false) (hreq : p.cpu.imemReq = true)
    (hex : p.cpu.ex.ctrl.memWr = mX) : (p.step memory io).NextAt memory p.cpu.pcCntr := by
  have hpipe := (KyogenRVCpu.loadstoreInPipe_eq_false_iff p.cpu).mpr ⟨hex, hnext.mem⟩
  have h := streaming_of_go hhalt hkill hboot hreq hgo hpipe
  exact hnext.move hkill hex (.streaming h) fun _ => h

/-- The first fetch: ID is still empty. -/
theorem Undisturbed.go_boot (hboot : p.cpu.BootInv) (hnext : p.Undisturbed memory c)
    (hgo : p.cpu.holdId (p.hostIf memory io) = false) (hreq : p.cpu.imemReq = false)
    (hpending : p.pending = []) (hidle : p.cpu.id = .bubble) (hempty : p.cpu.idTemp = .bubble)
    (hat : p.cpu.pcCntr = c) :
    (p.step memory io).cpu.id = .bubble ∧ (p.step memory io).NextAt memory c := by
  obtain ⟨hstall, hwait⟩ := Bool.or_eq_false_iff.mp hgo
  have hack : p.answered io = false := answered_of_pending_nil hpending
  obtain ⟨hid, htemp, _⟩ := KyogenRVCpu.id_of_frozen (p.hostIf memory io) hreq (Or.inl hack)
  have hex := hnext.noAccess fun h => h.live (Or.inr hpending)
  have hpipe := (KyogenRVCpu.loadstoreInPipe_eq_false_iff p.cpu).mpr ⟨hex, hnext.mem⟩
  refine ⟨hid.trans hidle, hnext.move hkill hex ?_ fun h => ?_⟩
  · refine .empty (KyogenRVCpu.imemReq_of_go hboot hgo hkill hpipe) (Or.inr ?_)
      (htemp.trans hempty) ((KyogenRVCpu.pcCntr_of_noReq hhalt hreq).trans hat)
    rw [pending_of_noReq hreq, hack]
    exact hpending
  · have hissue : p.cpu.holdIssue (p.hostIf memory io) = false := by
      rw [KyogenRVCpu.holdIssue, hstall, KyogenRVCpu.loadstoreProc, hnext.mem, hnext.wb,
        hnext.inLoadstore]
      rfl
    rw [step_cpu, (KyogenRVCpu.stages_of_move hwait hkill).1, hissue, if_neg Bool.false_ne_true,
      KyogenRVCpu.exIssue_of_bubble hidle] at h
    exact absurd KyogenRVCpu.nop_noAccess h

/-- When an access in EX takes the request down, the word behind the one that ID takes
is late. -/
theorem Undisturbed.late_of_go (hboot : p.cpu.BootInv) (hnext : p.Undisturbed memory c)
    (hs : p.Streaming c) (hgo : p.cpu.holdId (p.hostIf memory io) = false)
    (hack : (p.hostIf memory io).rImemAck = true)
    (hid : (p.step memory io).cpu.id = .fetch memory c) (hex : p.cpu.ex.ctrl.memWr ≠ mX) :
    (p.step memory io).AccessAt memory (c + 4) := by
  have hwait := (Bool.or_eq_false_iff.mp hgo).2
  have hpipe := KyogenRVCpu.loadstoreInPipe_of_ex hex
  have hif := KyogenRVCpu.ifStage_of_access hkill hpipe
  refine .late c (KyogenRVCpu.imemReq_of_access hkill hpipe) rfl hid ?_ ?_ ?_ ?_ ?_
    (Or.inl (KyogenRVCpu.pipe_of_exAccess hkill hex))
  · rw [step_cpu, KyogenRVCpu.step_ifPc, hif]
    exact hs.ifPc
  · rw [step_cpu, KyogenRVCpu.step_ifNpc, hif]
    exact hs.ifNpc
  · rw [newest_of_go hboot hs.req hwait, hs.pcCntr]
  · rw [step_cpu, KyogenRVCpu.tempLock_of_req hs.req hnext.inLoadstore hkill, hgo, hack]
    simp
  · exact (KyogenRVCpu.pcCntr_of_go hhalt hs.req hgo hkill).trans (congrArg (· + 4) hs.pcCntr)

/-- When ID can take an instruction, it takes the next word or none. -/
theorem Undisturbed.go (hboot : p.cpu.BootInv) (hnext : p.Undisturbed memory c)
    (htime : p.InTime memory io) (hgo : p.cpu.holdId (p.hostIf memory io) = false) :
    (p.step memory io).cpu.id = .bubble ∧ (p.step memory io).NextAt memory c ∨
      (p.step memory io).cpu.id = .fetch memory c ∧
        (p.step memory io).NextAt memory (c + 4) := by
  cases hnext.fetch with
  | boot hreq hpending hidle hempty hat =>
      exact Or.inl (hnext.go_boot hhalt hkill hboot hgo hreq hpending hidle hempty hat)
  | streaming hs =>
      obtain ⟨hvalid, hfetched⟩ := hs.arrives hnext.inLoadstore htime hkill
      have hid := (KyogenRVCpu.id_of_taken hs.req hkill hvalid hgo).1.trans hfetched
      refine Or.inr ⟨hid, ?_⟩
      by_cases hex : p.cpu.ex.ctrl.memWr = mX
      · rw [← hs.pcCntr]
        exact hnext.fetchOn hhalt hkill hboot hgo hs.req hex
      · have hack := (Bool.and_eq_true_iff.mp hvalid).2
        exact .access (hnext.late_of_go hhalt hkill hboot hs hgo hack hid hex)
  | saved hreq hinvalid hsaved hat =>
      obtain ⟨hid, _⟩ := KyogenRVCpu.id_of_restored hreq hkill hnext.inLoadstore
        (validIdInst_eq_false (Or.inl hinvalid)) hgo
      refine Or.inr ⟨hid.trans hsaved, ?_⟩
      rw [← hat]
      have hex := hnext.noAccess fun h => h.live (Or.inl hinvalid)
      exact hnext.fetchOn hhalt hkill hboot hgo hreq hex
  | empty hreq hinvalid hempty hat =>
      obtain ⟨hid, _⟩ := KyogenRVCpu.id_of_restored hreq hkill hnext.inLoadstore
        (validIdInst_eq_false hinvalid) hgo
      refine Or.inl ⟨hid.trans (KyogenRVCpu.restored_of_bubble hempty), ?_⟩
      rw [← hat]
      exact hnext.fetchOn hhalt hkill hboot hgo hreq (hnext.noAccess fun h => h.live hinvalid)

/-- A saved word is kept until the fetch starts again. -/
theorem nextAt_of_saved (hboot : p.cpu.BootInv) (hreq : p.cpu.imemReq = false)
    (haccess : p.cpu.loadstoreInPipe = true ∨ p.cpu.inLoadstore = true)
    (hlock : (p.step memory io).cpu.tempLock = true)
    (hrestored : (p.step memory io).cpu.restored = .fetch memory c)
    (hid : (p.step memory io).cpu.id2Temp = (p.step memory io).cpu.id)
    (hpc : p.cpu.pcCntr = c + 4) : (p.step memory io).NextAt memory c := by
  have hpc' : (p.step memory io).cpu.pcCntr = c + 4 :=
    (KyogenRVCpu.pcCntr_of_noReq hhalt hreq).trans hpc
  rcases KyogenRVCpu.request_step hboot hreq hkill haccess with
    hreq' | ⟨hreq', hls', hex', hmem', hwb'⟩
  · exact .access (.kept hreq' hlock hrestored hid hpc'
      (KyogenRVCpu.access_remembered hreq hkill haccess))
  · exact .access (.returning hreq' hls' hlock hrestored hid hpc' hex' hmem' hwb')

omit hhalt in
/-- The late word is saved with the pc that ID will put back. -/
theorem saved_of_late {q : Word} (hreq : p.cpu.imemReq = false) (hnext : c = q + 4)
    (hq : p.cpu.id = .fetch memory q) (hifPc : p.cpu.ifPc = q) (hifNpc : p.cpu.ifNpc = q + 4)
    (hnewest : p.pending.getLast? = some c) (hlock : p.cpu.tempLock = false)
    (htime : p.InTime memory io) (hkept : p.Kept memory io) (hanswered : p.answered io = true) :
    (p.step memory io).cpu.id = p.cpu.id ∧ (p.step memory io).cpu.tempLock = true ∧
      (p.step memory io).cpu.id2Temp = p.cpu.id ∧
      (p.step memory io).cpu.restored = .fetch memory c := by
  have hhead := htime.newest hanswered hkill (Or.inr ⟨hreq, hlock⟩)
  obtain ⟨hack, hdata⟩ := fetched_of_newest hanswered hhead hnewest
  obtain ⟨hid, htemp, htemp2, hlock'⟩ := KyogenRVCpu.id_of_late hreq hkill hack hlock
  refine ⟨hid, hlock', htemp2, ?_⟩
  have hpos : q ≠ pcStart := by
    rw [← hifPc]
    exact hkept.nonzero hreq hanswered hkill hlock
  have hfetched : p.cpu.fetched (p.hostIf memory io) = ⟨q, q + 4, memory c⟩ := by
    rw [KyogenRVCpu.fetched, hifPc, hifNpc, hdata]
  have hsame : (p.cpu.step (p.hostIf memory io)).id2Temp.pc = q := by
    rw [htemp2, hq, Slot.fetch]
  rw [step_cpu, KyogenRVCpu.restored_of_late (htemp.trans hfetched) hsame hpos, Slot.fetch, hnext]

omit hhalt in
/-- The fetch does not start again before the late word is there. -/
theorem noReq_of_late (hreq : p.cpu.imemReq = false) (hlock : p.cpu.tempLock = false)
    (haccess : p.cpu.loadstoreInPipe = true ∨ p.cpu.inLoadstore = true)
    (htime : p.InTime memory io) (hanswered : p.answered io = false) :
    (p.step memory io).cpu.imemReq = false := by
  by_contra hreq'
  rw [Bool.not_eq_false] at hreq'
  obtain ⟨hpipe, hgo⟩ := KyogenRVCpu.go_of_imemReq_step hreq hkill hreq'
  have hls := haccess.resolve_left (by simp [hpipe])
  have hlate := htime.late hreq hls hpipe hgo hlock
  exact absurd (hanswered.symm.trans hlate) Bool.false_ne_true

/-- While an access is on its way ID keeps its instruction, and the word behind
it stays the next one. -/
theorem AccessAt.advance (hboot : p.cpu.BootInv) (hnext : p.AccessAt memory c)
    (htime : p.InTime memory io) (hkept : p.Kept memory io) :
    (p.step memory io).cpu.id = p.cpu.id ∧ (p.step memory io).NextAt memory c := by
  cases hnext with
  | late q hreq hnext hq hifPc hifNpc hnewest hlock hpc haccess =>
      cases hanswered : p.answered io with
      | true =>
          obtain ⟨hid, hlock', htemp2, hrestored⟩ := saved_of_late hkill hreq hnext hq hifPc hifNpc
            hnewest hlock htime hkept hanswered
          exact ⟨hid, nextAt_of_saved hhalt hkill hboot hreq haccess hlock' hrestored
            (htemp2.trans hid.symm) hpc⟩
      | false =>
          obtain ⟨hid, _, _, hlock'⟩ :=
            KyogenRVCpu.id_of_frozen (p.hostIf memory io) hreq (Or.inl hanswered)
          have hreq' := noReq_of_late hkill hreq hlock haccess htime hanswered
          obtain ⟨hifPc', hifNpc'⟩ := KyogenRVCpu.ifPc_of_noReq hboot hkill hreq'
          refine ⟨hid, .access (.late q hreq' hnext (hid.trans hq) (hifPc'.trans hifPc)
            (hifNpc'.trans hifNpc) ?_ (hlock'.trans hlock)
            ((KyogenRVCpu.pcCntr_of_noReq hhalt hreq).trans hpc)
            (KyogenRVCpu.access_remembered hreq hkill haccess))⟩
          rw [pending_of_noReq hreq, hanswered]
          exact hnewest
  | kept hreq hlock hsaved hsame hpc haccess =>
      obtain ⟨hid, htemp, htemp2, hlock'⟩ :=
        KyogenRVCpu.id_of_frozen (p.hostIf memory io) hreq (Or.inr hlock)
      refine ⟨hid, nextAt_of_saved hhalt hkill hboot hreq haccess (hlock'.trans hlock) ?_ ?_ hpc⟩
      · exact (KyogenRVCpu.restored_congr htemp htemp2).trans hsaved
      · exact htemp2.trans (hsame.trans hid.symm)
  | returning hreq hls hlock hsaved hsame hpc hex hmem hwb =>
      have hhold := hkept.held hreq hls hkill
      have hpipe := (KyogenRVCpu.loadstoreInPipe_eq_false_iff p.cpu).mpr ⟨hex, hmem⟩
      obtain ⟨hreq', hvalid'⟩ := KyogenRVCpu.ifStep_of_hold hhold hkill hpipe
      obtain ⟨hid, htemp, htemp2⟩ :=
        KyogenRVCpu.id_of_heldReturn hreq hkill hls hlock hhold hsame
      have hsaved' := (KyogenRVCpu.restored_congr htemp htemp2).trans hsaved
      have hpc' := (KyogenRVCpu.pcCntr_of_hold hhalt hhold).trans hpc
      obtain ⟨hex', hmem', hwb'⟩ := KyogenRVCpu.noAccess_stages hkill
        (fun _ => KyogenRVCpu.holdIssue_of_inLoadstore hls) hex hmem (Or.inl hwb)
      have hls' : (p.step memory io).cpu.inLoadstore = false :=
        KyogenRVCpu.inLoadstore_of_noAccess hmem (Or.inr hreq)
      exact ⟨hid, .undisturbed ⟨.saved (hreq'.trans hreq) hvalid' hsaved' hpc', hls',
        fun h => absurd hex' h, hmem', hwb'⟩⟩

/-- Without a kill ID keeps its instruction, is emptied or takes the next word. -/
theorem moves_of_noKill (hboot : p.cpu.BootInv) (hnext : p.NextAt memory c)
    (htime : p.InTime memory io) (hkept : p.Kept memory io) (hother : p.cpu.id.pc = c → c = 0) :
    p.Moves memory c (p.step memory io) := by
  cases hnext with
  | access h =>
      obtain ⟨hid, hnext'⟩ := h.advance hhalt hkill hboot htime hkept
      exact .keeps hid hnext'
  | undisturbed h =>
      cases hhold : p.cpu.holdId (p.hostIf memory io) with
      | true =>
          obtain ⟨hid, hnext'⟩ := h.hold hhalt hkill htime hkept hhold hother
          exact .keeps hid hnext'
      | false =>
          rcases h.go hhalt hkill hboot htime hhold with ⟨hid, hnext'⟩ | ⟨hid, hnext'⟩
          · exact .empties hid hnext'
          · exact .takes hid hnext'

/-- Unless ID issues, it keeps its instruction and the next word stays next. -/
theorem NextAt.stay (hnext : p.NextAt memory c) (hboot : p.cpu.BootInv)
    (htime : p.InTime memory io) (hkept : p.Kept memory io) (hother : p.cpu.id.pc = c → c = 0)
    (hissue : p.cpu.waitrequest (p.hostIf memory io) = false →
      p.cpu.holdIssue (p.hostIf memory io) = true) :
    (p.step memory io).cpu.id = p.cpu.id ∧ (p.step memory io).NextAt memory c := by
  cases hnext with
  | access h => exact h.advance hhalt hkill hboot htime hkept
  | undisturbed h =>
      have hhold : p.cpu.holdId (p.hostIf memory io) = true := by
        rw [KyogenRVCpu.holdId]
        cases hwait : p.cpu.waitrequest (p.hostIf memory io) with
        | true => rw [Bool.or_true]
        | false =>
            have hstall := hissue hwait
            rw [KyogenRVCpu.holdIssue, KyogenRVCpu.loadstoreProc, h.mem, h.wb, h.inLoadstore]
              at hstall
            simpa using hstall
      exact h.hold hhalt hkill htime hkept hhold hother

/-- When ID issues, it takes the next word or none. -/
theorem NextAt.issue (hnext : p.NextAt memory c) (hboot : p.cpu.BootInv)
    (htime : p.InTime memory io) (hkept : p.Kept memory io)
    (hwait : p.cpu.waitrequest (p.hostIf memory io) = false)
    (hhold : p.cpu.holdIssue (p.hostIf memory io) = false)
    (honce : p.cpu.imemReq = false → p.cpu.id = .bubble) :
    (p.step memory io).cpu.id = .bubble ∧ (p.step memory io).NextAt memory c ∨
      (p.step memory io).cpu.id = .fetch memory c ∧
        (p.step memory io).NextAt memory (c + 4) := by
  simp only [KyogenRVCpu.holdIssue, Bool.or_eq_false_iff] at hhold
  cases hnext with
  | access h =>
      have hreq : p.cpu.imemReq = false := by
        cases h with
        | late _ hreq | kept hreq => exact hreq
        | returning _ hls => exact absurd (hhold.2.symm.trans hls) Bool.false_ne_true
      obtain ⟨hid, hnext'⟩ := h.advance hhalt hkill hboot htime hkept
      exact Or.inl ⟨hid.trans (honce hreq), hnext'⟩
  | undisturbed h =>
      have hgo : p.cpu.holdId (p.hostIf memory io) = false := by
        rw [KyogenRVCpu.holdId, hhold.1.1, hwait]
        rfl
      exact h.go hhalt hkill hboot htime hgo

end Moving

/-! ## What ID receives -/

theorem receives_of_keeps (hid : (p.step memory io).cpu.id = p.cpu.id) :
    p.receives memory io = [] := by
  rw [receives, if_pos hid]

theorem receives_of_empties (hid : (p.step memory io).cpu.id = .bubble) :
    p.receives memory io = [] := by
  rw [receives, hid]
  split_ifs <;> rfl

/-- A word other than that in ID is received, unless it is the bubble itself. -/
theorem receives_of_takes (hid : (p.step memory io).cpu.id = .fetch memory c)
    (hother : p.cpu.id = .bubble ∨ p.cpu.id ≠ .fetch memory c) :
    p.receives memory io = [Slot.fetch memory c].filter (· != .bubble) := by
  rw [receives, hid]
  split_ifs with hsame
  · have hbubble := hother.resolve_right (not_not.mpr hsame.symm)
    rw [hsame, hbubble]
    rfl
  · rfl

theorem NextAt.due_of_access (hnext : p.AccessAt memory c) : p.due = false := by
  cases hnext with
  | late _ hreq | kept hreq => simp [FetchPort.due, hreq]
  | returning _ hls => simp [FetchPort.due, hls]

/-- With the request up no access is in MEM. -/
theorem NextAt.mem (hnext : p.NextAt memory c) (hreq : p.cpu.imemReq = true) :
    p.cpu.mem.ctrl.memWr = mX := by
  cases hnext with
  | undisturbed h => exact h.mem
  | access h =>
      cases h with
      | late _ hdown | kept hdown => exact absurd (hdown.symm.trans hreq) Bool.false_ne_true
      | returning _ _ _ _ _ _ _ hmem _ => exact hmem

theorem NextAt.onItsWay (hnext : p.NextAt memory c) : p.OnItsWay memory c := by
  cases hnext with
  | undisturbed h =>
      cases h.fetch with
      | boot _ _ _ _ hpc | empty _ _ _ hpc => exact Or.inl hpc
      | streaming h => exact Or.inr ⟨h.pcCntr, Or.inr (List.mem_of_getLast? h.newest)⟩
      | saved _ _ hsaved hpc => exact Or.inr ⟨hpc, Or.inl hsaved⟩
  | access h =>
      cases h with
      | late _ _ _ _ _ _ hnewest _ hpc =>
          exact Or.inr ⟨hpc, Or.inr (List.mem_of_getLast? hnewest)⟩
      | kept _ _ hsaved _ hpc | returning _ _ _ hsaved _ hpc =>
          exact Or.inr ⟨hpc, Or.inl hsaved⟩

end Step

end FetchPort

namespace FetchTrace

theorem inOrder_succ (memory : Word → Word) (start : Word) (n : ℕ) :
    inOrder memory start (n + 1) =
      inOrder memory start n ++
        [Slot.fetch memory (CpuBus.wordAddr start n)].filter (· != .bubble) := by
  rw [inOrder, List.range_succ, List.map_append, List.filter_append]
  rfl

/-- ID has received `n` words since the last redirect, and the next one follows
unless a kill is present. -/
structure Delivers (memory : Word → Word) (t : FetchTrace) (n : ℕ) : Prop where
  boot : t.port.cpu.BootInv
  id : t.port.cpu.id.Fetched memory
  ex : t.port.cpu.exSlot.Fetched memory
  received : t.received = inOrder memory t.start n
  behind : t.lost = false →
    t.port.cpu.id = .bubble ∨ CpuBus.wordAddr t.start n = t.port.cpu.id.pc + 4
  next : if t.lost then t.port.Lost else t.port.NextAt memory (CpuBus.wordAddr t.start n)

section Run

variable {memory : Word → Word} {t : FetchTrace} {io : HostIf} {n : ℕ}

theorem Delivers.gapless (ht : t.Delivers memory n) : t.Gapless memory := by
  refine ⟨n, ht.received, ?_⟩
  have hnext := ht.next
  cases hlost : t.lost with
  | true => exact Or.inl rfl
  | false =>
      rw [hlost, if_neg Bool.false_ne_true] at hnext
      exact Or.inr hnext.onItsWay

/-- EX holds a word of the memory after the edge as well. -/
theorem Delivers.ex_step (ht : t.Delivers memory n) :
    (t.step memory io).port.cpu.exSlot.Fetched memory := by
  rcases t.port.cpu.exSlot_step (t.port.hostIf memory io) with hsame | hbubble | hissued
  · exact hsame ▸ ht.ex
  · exact Or.inl hbubble
  · exact hissued ▸ ht.id

/-- A kill that is heard restarts the record. -/
theorem delivers_of_redirect (ht : t.Delivers memory n) (hhalt : io.halt = false)
    (hredirect : t.port.redirects memory io = true) : (t.step memory io).Delivers memory 0 := by
  have hguards := hredirect
  simp only [FetchPort.redirects, Bool.and_eq_true, Bool.not_eq_true'] at hguards
  obtain ⟨⟨_, hwait⟩, hreq⟩ := hguards
  have hmem : t.port.cpu.mem.ctrl.memWr = mX := by
    have hnext := ht.next
    split_ifs at hnext
    · exact hnext.mem
    · exact hnext.mem hreq
  obtain ⟨hid, hnext⟩ := FetchPort.undisturbed_of_redirect ht.boot hredirect hmem
  have hstart : (t.step memory io).start = (t.port.step memory io).cpu.pcCntr := by
    rw [step, hredirect, if_pos rfl]
  have hlost : (t.step memory io).lost = false := by simp [step, hwait]
  refine ⟨KyogenRVCpu.bootInv_step ht.boot _ (Or.inl hhalt), Or.inl hid, ht.ex_step, ?_,
    fun _ => Or.inl hid, ?_⟩
  · simp [step, hredirect, inOrder]
  · have hzero : CpuBus.wordAddr (t.step memory io).start 0 =
        (t.port.step memory io).cpu.pcCntr := by
      rw [hstart]
      simp [CpuBus.wordAddr]
    rw [hlost, if_neg Bool.false_ne_true, hzero]
    exact .undisturbed hnext

/-- A kill in a waiting cycle leaves the record as it is. -/
theorem delivers_of_killWait (ht : t.Delivers memory n) (hhalt : io.halt = false)
    (hkept : t.port.Kept memory io) (hkill : t.port.kills memory io = true)
    (hwait : t.port.cpu.waitrequest (t.port.hostIf memory io) = true) :
    (t.step memory io).Delivers memory n := by
  have hredirect : t.port.redirects memory io = false := by simp [FetchPort.redirects, hwait]
  have hstart : (t.step memory io).start = t.start := by simp [step, hredirect]
  have hlost : (t.step memory io).lost = (t.lost || t.port.due) := by simp [step, hkill, hwait]
  have hid := (KyogenRVCpu.id_of_killWait hkill hwait).1
  refine ⟨KyogenRVCpu.bootInv_step ht.boot _ (Or.inl hhalt), hid ▸ ht.id, ht.ex_step, ?_,
    fun h => ?_, ?_⟩
  · rw [hstart, ← ht.received]
    simp [step, hredirect, FetchPort.receives_of_keeps hid]
  · rw [hlost, Bool.or_eq_false_iff] at h
    rw [hstart]
    exact hid ▸ ht.behind h.1
  · have hnext := ht.next
    rw [hlost, hstart]
    cases hold : t.lost with
    | true =>
        rw [hold, if_pos rfl] at hnext
        exact (hnext.killWait hkill hwait).2
    | false =>
        rw [hold, if_neg Bool.false_ne_true] at hnext
        rw [Bool.false_or]
        cases hnext with
        | undisturbed h =>
            have hafter := (h.killWait hkill hwait hhalt).2
            split_ifs at hafter ⊢
            · exact hafter
            · exact .undisturbed hafter
        | access h =>
            rw [FetchPort.NextAt.due_of_access h, if_neg Bool.false_ne_true]
            exact (h.killWait hkill hwait hhalt hkept).2

theorem Delivers.nextAt (ht : t.Delivers memory n) (hlost : t.lost = false) :
    t.port.NextAt memory (CpuBus.wordAddr t.start n) := by
  have hnext := ht.next
  rwa [hlost, if_neg Bool.false_ne_true] at hnext

/-- The word that follows is not the one in ID. -/
theorem Delivers.idPc_ne (ht : t.Delivers memory n) (hlost : t.lost = false)
    (h : t.port.cpu.id.pc = CpuBus.wordAddr t.start n) : CpuBus.wordAddr t.start n = 0 := by
  rcases ht.behind hlost with hbubble | hpc
  · rw [← h, hbubble]
    rfl
  · rw [h] at hpc
    exact absurd hpc (by simp)

/-- Without a kill no word is lost. -/
theorem Admits.lost (hadmits : t.Admits memory io) (hkill : t.port.kills memory io = false) :
    t.lost = false := by
  by_contra hlost
  rw [Bool.not_eq_false] at hlost
  exact absurd (hkill.symm.trans (hadmits.2.2 hlost)) Bool.false_ne_true

theorem start_of_noKill (hkill : t.port.kills memory io = false) :
    (t.step memory io).start = t.start := by
  simp [step, FetchPort.redirects, hkill]

theorem received_of_noKill (ht : t.Delivers memory n) (hkill : t.port.kills memory io = false) :
    (t.step memory io).received =
      inOrder memory (t.step memory io).start n ++ t.port.receives memory io := by
  rw [start_of_noKill hkill]
  simp [step, FetchPort.redirects, hkill, ht.received]

/-! Without a kill the record is continued. -/

section NoKill

variable (ht : t.Delivers memory n) (hhalt : io.halt = false) (hlost : t.lost = false)
  (hkill : t.port.kills memory io = false)

include ht hhalt hlost hkill

theorem delivers_of_keeps (hid : (t.port.step memory io).cpu.id = t.port.cpu.id)
    (hnext : (t.port.step memory io).NextAt memory (CpuBus.wordAddr t.start n)) :
    (t.step memory io).Delivers memory n := by
  have hstart := start_of_noKill hkill
  have hlost' : (t.step memory io).lost = false := by simp [step, hkill]
  refine ⟨KyogenRVCpu.bootInv_step ht.boot _ (Or.inl hhalt), hid ▸ ht.id, ht.ex_step, ?_,
    fun _ => ?_, ?_⟩
  · rw [received_of_noKill ht hkill, FetchPort.receives_of_keeps hid, List.append_nil]
  · rw [hstart]
    exact hid ▸ ht.behind hlost
  · rw [hlost', if_neg Bool.false_ne_true, hstart]
    exact hnext

omit hlost in
theorem delivers_of_empties (hid : (t.port.step memory io).cpu.id = .bubble)
    (hnext : (t.port.step memory io).NextAt memory (CpuBus.wordAddr t.start n)) :
    (t.step memory io).Delivers memory n := by
  have hlost' : (t.step memory io).lost = false := by simp [step, hkill]
  refine ⟨KyogenRVCpu.bootInv_step ht.boot _ (Or.inl hhalt), Or.inl hid, ht.ex_step, ?_,
    fun _ => Or.inl hid, ?_⟩
  · rw [received_of_noKill ht hkill, FetchPort.receives_of_empties hid,
      List.append_nil]
  · rw [hlost', if_neg Bool.false_ne_true, start_of_noKill hkill]
    exact hnext

theorem delivers_of_takes
    (hid : (t.port.step memory io).cpu.id = .fetch memory (CpuBus.wordAddr t.start n))
    (hnext : (t.port.step memory io).NextAt memory (CpuBus.wordAddr t.start n + 4)) :
    (t.step memory io).Delivers memory (n + 1) := by
  have hstart := start_of_noKill hkill
  have hlost' : (t.step memory io).lost = false := by simp [step, hkill]
  have hpc := congrArg Slot.pc hid
  refine ⟨KyogenRVCpu.bootInv_step ht.boot _ (Or.inl hhalt), Or.inr ?_, ht.ex_step, ?_,
    fun _ => Or.inr ?_, ?_⟩
  · exact hid.trans (congrArg (Slot.fetch memory) hpc.symm)
  · rw [received_of_noKill ht hkill, hstart, inOrder_succ,
      FetchPort.receives_of_takes hid]
    refine (ht.behind hlost).imp_right fun hpc hsame => ?_
    have hsame' := congrArg Slot.pc hsame
    rw [hsame'] at hpc
    exact absurd hpc (by simp [Slot.fetch])
  · rw [hstart, CpuBus.wordAddr_succ]
    exact congrArg (· + 4) hpc.symm
  · rw [hlost', if_neg Bool.false_ne_true, hstart, CpuBus.wordAddr_succ]
    exact hnext

theorem delivers_of_noKill (hadmits : t.Admits memory io) :
    ∃ m, (t.step memory io).Delivers memory m := by
  cases FetchPort.moves_of_noKill hhalt hkill ht.boot (ht.nextAt hlost) hadmits.1 hadmits.2.1
    (ht.idPc_ne hlost) with
  | keeps hid hnext => exact ⟨n, delivers_of_keeps ht hhalt hlost hkill hid hnext⟩
  | empties hid hnext => exact ⟨n, delivers_of_empties ht hhalt hkill hid hnext⟩
  | takes hid hnext => exact ⟨n + 1, delivers_of_takes ht hhalt hlost hkill hid hnext⟩

end NoKill

/-- The step lemma. -/
theorem delivers_step (ht : t.Delivers memory n) (hhalt : io.halt = false)
    (hadmits : t.Admits memory io) : ∃ m, (t.step memory io).Delivers memory m := by
  cases hkill : t.port.kills memory io with
  | false => exact delivers_of_noKill ht hhalt (hadmits.lost hkill) hkill hadmits
  | true =>
      cases hwait : t.port.cpu.waitrequest (t.port.hostIf memory io) with
      | true => exact ⟨n, delivers_of_killWait ht hhalt hadmits.2.1 hkill hwait⟩
      | false =>
          -- the request is up, or the pipeline would wait
          have hreq : t.port.cpu.imemReq = true := by
            by_contra hreq
            rw [Bool.not_eq_true] at hreq
            exact absurd (hwait.symm.trans (hadmits.2.1.requested hreq hkill).1) Bool.false_ne_true
          exact ⟨0, delivers_of_redirect ht hhalt (by simp [FetchPort.redirects, hkill, hwait,
            hreq])⟩

end Run

/-! ## Runs from release -/

/-- In halt nothing is fetched. -/
structure Idle (p : FetchPort) : Prop where
  halt : p.cpu.HaltInv
  pending : p.pending = []
  id : p.cpu.id = .bubble
  idTemp : p.cpu.idTemp = .bubble
  inLoadstore : p.cpu.inLoadstore = false
  wb : p.cpu.wb.ctrl.memWr = mX

section Release

variable {memory : Word → Word} {p : FetchPort} {t : FetchTrace} {io : HostIf}

theorem idle_reset (hcpu : p.cpu.IsReset) (hpending : p.pending = []) : Idle p := by
  have hreleased : p.cpu.Released := ⟨p.cpu, [], hcpu, by simp, rfl⟩
  have hhalt := hreleased.haltInv
  obtain ⟨_, _, _, _, _, _, _, hcpu⟩ := hcpu
  refine ⟨hhalt, hpending, ?_, ?_, ?_, ?_⟩ <;> rw [hcpu]
  · rfl
  · rfl
  · rfl
  · exact KyogenRVCpu.nop_noAccess

theorem Idle.down (hp : Idle p) :
    p.cpu.imemReq = false ∧ p.cpu.ex = .bubble ∧ p.cpu.mem.ctrl = nopCtrl := by
  obtain ⟨hreq, hex, hmem, _⟩ := hp.halt.boot.idle (by rw [hp.halt.delay]; decide)
  exact ⟨hreq, hex, hmem⟩

theorem idle_step (hp : Idle p) (hhalt : io.halt = true) : Idle (p.step memory io) := by
  obtain ⟨hreq, _, hmem⟩ := hp.down
  have hack : p.answered io = false := FetchPort.answered_of_pending_nil hp.pending
  have hnone : p.cpu.mem.ctrl.memWr = mX := by rw [hmem, KyogenRVCpu.nop_noAccess]
  obtain ⟨hid, htemp, _⟩ :=
    KyogenRVCpu.id_of_frozen (p.hostIf memory io) hreq (Or.inl hack)
  refine ⟨KyogenRVCpu.haltInv_step hp.halt hhalt, ?_, hid.trans hp.id, htemp.trans hp.idTemp,
    ?_, ?_⟩
  · rw [FetchPort.pending_of_noReq hreq, hack]
    exact hp.pending
  · exact KyogenRVCpu.inLoadstore_of_noAccess hnone (Or.inl hp.inLoadstore)
  · exact KyogenRVCpu.wb_step_forall (P := fun wb => wb.ctrl.memWr = mX) hnone hp.wb

/-- After release ID has received nothing. -/
theorem Released.delivers (ht : t.Released memory) : t.Delivers memory 0 := by
  obtain ⟨p₀, loads, hcpu, hpending, hloads, rfl⟩ := ht
  have hidle : Idle (Machine.run (FetchPort.step memory) p₀ loads) :=
    Machine.run_invariant (fun _ _ => idle_step) (idle_reset hcpu hpending)
      (Machine.along_of_mem hloads)
  obtain ⟨hreq, hex, hmem⟩ := hidle.down
  have hzero (start : Word) : CpuBus.wordAddr start 0 = start := by simp [CpuBus.wordAddr]
  refine ⟨hidle.halt.boot, Or.inl hidle.id, Or.inl ?_, rfl, fun _ => Or.inl hidle.id, ?_⟩
  · rw [KyogenRVCpu.exSlot, hex]
    rfl
  · rw [if_neg Bool.false_ne_true, hzero]
    refine .undisturbed ⟨.boot hreq hidle.pending hidle.id hidle.idTemp rfl, hidle.inLoadstore,
      fun h => ?_, ?_, hidle.wb⟩
    · rw [hex] at h
      exact absurd KyogenRVCpu.nop_noAccess h
    · rw [hmem]
      exact KyogenRVCpu.nop_noAccess

end Release

/-- In every run from release with halt low in which the port answers in time
and the front end keeps what it answers, ID and EX hold words of the memory with
their own pc, and no word on the way to ID is dropped. -/
theorem fetch_paired {memory : Word → Word} {t : FetchTrace} {inputs : List HostIf}
    (ht : t.Released memory)
    (hrun : Machine.Along (step memory) (fun t io => io.halt = false ∧ t.Admits memory io) t
      inputs) :
    (Machine.run (step memory) t inputs).Paired memory ∧
      (Machine.run (step memory) t inputs).Gapless memory := by
  obtain ⟨n, hdelivers⟩ := Machine.run_invariant (I := fun t => ∃ n, Delivers memory t n)
    (fun _ _ ⟨_, ht⟩ ⟨hhalt, hadmits⟩ => delivers_step ht hhalt hadmits) ⟨0, ht.delivers⟩ hrun
  exact ⟨⟨hdelivers.id, hdelivers.ex⟩, hdelivers.gapless⟩

/-! ### Sample runs -/

/-- The core after reset with nothing pending. -/
def resetTrace : FetchTrace := ⟨⟨KyogenRVCpu.zeroReset, []⟩, 0, [], false⟩

theorem released_resetTrace (memory : Word → Word) : resetTrace.Released memory :=
  ⟨⟨KyogenRVCpu.zeroReset, []⟩, [], KyogenRVCpu.isReset_zeroReset, rfl, by simp, rfl⟩

/-- A cycle in which both ports answer, and the data port waits. -/
def answering (wait : Bool) : HostIf :=
  { HostIf.idle with rImemAck := true, rDmemAck := true, wDatawaitreqSig := wait }

/-- `lw x1, 0(x0)`, two `addi` and `jal x0, 8`. -/
def lwAddiJal (addr : Word) : Word :=
  if addr = 0 then 0x00002083 else if addr = 0xc then 0x0080006f else 0x00100113

/-- With answers in the next cycle, and a wait when the fetch starts again. -/
theorem fetch_paired_lwAddiJal :
    let inputs := (List.range 28).map fun cycle => answering (cycle == 17)
    (Machine.run (step lwAddiJal) resetTrace inputs).Paired lwAddiJal ∧
      (Machine.run (step lwAddiJal) resetTrace inputs).Gapless lwAddiJal :=
  fetch_paired (released_resetTrace _) (by decide +kernel)

/-- With answers after two cycles the word at 0 is taken for that at 4. -/
theorem fetch_mispaired :
    ¬∀ (memory : Word → Word) (t : FetchTrace) (inputs : List HostIf), t.Released memory →
      Machine.Along (step memory) (fun _ io => io.halt = false) t inputs →
      (Machine.run (step memory) t inputs).Paired memory := by
  intro h
  have hpaired := h lwAddiJal resetTrace
    ((List.range 13).map fun cycle => { answering false with rImemAck := cycle != 11 })
    (released_resetTrace _) (by decide)
  have hid := hpaired.1
  revert hid
  unfold Slot.Fetched
  decide +kernel

end FetchTrace

end KyogenRV
