import KyogenRV.Core.Constant
import Mathlib.Logic.Function.Basic

/-!
# Banked synchronous memory

`IMem` and `DMem` are the same circuit: four byte banks with a registered read
address, an address check, and one-cycle acknowledges.  Requests above 0x3000
are neither served nor acknowledged; a read takes precedence over a write.
-/

namespace KyogenRV

/-- One request to the memory. -/
structure MemReq where
  addr : Word
  rReq : Bool
  wReq : Bool
  data : Word
  byteenable : BitVec 4

/-- The registers of the memory; `rAddr` is the read address that the banks
have latched. -/
structure Banks where
  rAck : Bool
  wAck : Bool
  mem3 : BitVec 14 → BitVec 8
  mem2 : BitVec 14 → BitVec 8
  mem1 : BitVec 14 → BitVec 8
  mem0 : BitVec 14 → BitVec 8
  rAddr : BitVec 14

namespace Banks

/-- A memory after reset that holds the given words. -/
def ofWords (words : BitVec 14 → Word) : Banks where
  rAck := false
  wAck := false
  mem3 := fun index => (words index).extractLsb' 24 8
  mem2 := fun index => (words index).extractLsb' 16 8
  mem1 := fun index => (words index).extractLsb' 8 8
  mem0 := fun index => (words index).extractLsb' 0 8
  rAddr := 0

variable (m : Banks) (req : MemReq)

/-- The word at a bank index. -/
def word (index : BitVec 14) : Word :=
  m.mem3 index ++ m.mem2 index ++ m.mem1 index ++ m.mem0 index

def validAddress : Bool := decide (req.addr ≤ 0x3000)
def acceptRead : Bool := req.rReq && validAddress req
def acceptWrite : Bool := req.wReq && validAddress req

/-- `addr_align` as the banks see it. -/
def addrAlign (addr : Word) : BitVec 14 := (addr >>> 2).setWidth 14

/-- `r_dat.data`. -/
def rData (byteenable : BitVec 4) : Word := if byteenable == 15 then m.word m.rAddr else 0

/-- One bank under a write. -/
def writeBank (bank : BitVec 14 → BitVec 8) (enable : Bool) (index : BitVec 14)
    (value : BitVec 8) : BitVec 14 → BitVec 8 :=
  if enable then Function.update bank index value else bank

def step : Banks :=
  if acceptRead req then
    { m with
      rAck := true
      wAck := false
      rAddr := if req.byteenable == 15 then addrAlign req.addr else m.rAddr }
  else if acceptWrite req then
    { m with
      rAck := false
      wAck := true
      mem3 := writeBank m.mem3 (req.byteenable.getLsbD 3) (addrAlign req.addr)
        (req.data.extractLsb' 24 8)
      mem2 := writeBank m.mem2 (req.byteenable.getLsbD 2) (addrAlign req.addr)
        (req.data.extractLsb' 16 8)
      mem1 := writeBank m.mem1 (req.byteenable.getLsbD 1) (addrAlign req.addr)
        (req.data.extractLsb' 8 8)
      mem0 := writeBank m.mem0 (req.byteenable.getLsbD 0) (addrAlign req.addr)
        (req.data.extractLsb' 0 8) }
  else { m with rAck := false, wAck := false }

/-! ## Full words -/

/-- The four bytes of a word make up the word. -/
theorem append_bytes (value : Word) :
    value.extractLsb' 24 8 ++ value.extractLsb' 16 8 ++ value.extractLsb' 8 8 ++
      value.extractLsb' 0 8 = value := by
  rw [BitVec.extractLsb'_append_extractLsb'_eq_extractLsb' (by decide : 24 = 16 + 8),
    BitVec.extractLsb'_append_extractLsb'_eq_extractLsb' (by decide : 16 = 8 + 8),
    BitVec.extractLsb'_append_extractLsb'_eq_extractLsb' (by decide : 8 = 0 + 8)]
  exact BitVec.extractLsb'_eq_self

theorem word_ofWords (words : BitVec 14 → Word) : (ofWords words).word = words :=
  funext fun index => append_bytes (words index)

/-- Only an accepted write changes the words. -/
theorem word_step_of_read {m : Banks} {req : MemReq} (hwrite : acceptWrite req = false) :
    (m.step req).word = m.word := by
  rw [step, hwrite, if_neg Bool.false_ne_true]
  split_ifs <;> rfl

/-- A write of a full word. -/
theorem word_step_of_write {m : Banks} {req : MemReq} (hread : acceptRead req = false)
    (hwrite : acceptWrite req = true) (hfull : req.byteenable = 15) :
    (m.step req).word = Function.update m.word (addrAlign req.addr) req.data := by
  funext index
  rw [step, hread, hwrite, hfull, if_neg Bool.false_ne_true, if_pos rfl]
  by_cases hindex : index = addrAlign req.addr
  · subst hindex
    rw [Function.update_self]
    simpa [word, writeBank] using append_bytes req.data
  · rw [Function.update_of_ne hindex]
    simp [word, writeBank, hindex]

end Banks

/-- The instruction memory. -/
abbrev IMem := Banks

/-- The data memory. -/
abbrev DMem := Banks

end KyogenRV
