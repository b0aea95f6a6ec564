import KyogenRV.Sw.Board
import Mathlib.Data.Set.Function

/-!
# `sdram_test`

The test of `main.c` stores in every word of the SDRAM its own offset, then
loads all of them.  A faulty memory is one whose cells change what is stored in
them, or where two addresses select one cell.  The test finds exactly these
faults.
-/

namespace KyogenRV.Board

open Dialogue Firmware Xprintf

/-! ## The test -/

/-- `SDRAM_0_END` is the last byte, so the length is one less than the span. -/
def sdramLength : Word := sdram0End - sdram0Base

theorem offset_not_wrapped {k : Word} (h : k < sdramLength) : (k + 4).toNat = k.toNat + 4 := by
  rw [BitVec.lt_def] at h
  change k.toNat < 0x7fffff at h
  rw [BitVec.toNat_add]
  change (k.toNat + 4) % 2 ^ 32 = _
  omega

section Program

variable {γ : Type}

/-- The first loop: an `int` is compared with a `uint32_t` without its sign. -/
def writeWords (k : Word) : Firmware γ Unit :=
  if k < sdramLength then do
    put32 (sdram0Base + k) k
    writeWords (k + 4)
  else pure ()
termination_by 2 ^ 32 - k.toNat
decreasing_by
  rename_i h
  have hnext := offset_not_wrapped h
  omega

/-- The second loop. -/
def readWords (k : Word) : Firmware γ Word :=
  if k < sdramLength then do
    let data ← get32 (sdram0Base + k)
    if data ≠ k then do
      xprintf "error fount at 0x%x: expecting %d but got %d\r\n" [.int k, .int k, .int data]
      pure (-1)
    else readWords (k + 4)
  else pure 0
termination_by 2 ^ 32 - k.toNat
decreasing_by
  rename_i h _
  have hnext := offset_not_wrapped h
  omega

def sdramTest : Firmware γ Word := do
  xprintf "SDRAM write start\r\n" []
  writeWords 0
  xprintf "SDRAM read start\r\n" []
  readWords 0

end Program

/-! ## Words -/

/-- The number of words. -/
def wordCount : ℕ := 2 ^ 21

def offset (n : ℕ) : Word := BitVec.ofNat 32 (4 * n)

def wordAt (n : ℕ) : Word := sdram0Base + offset n

section Words

variable {n m : ℕ}

theorem toNat_offset (hn : n ≤ wordCount) : (offset n).toNat = 4 * n := by
  rw [wordCount] at hn
  rw [offset, BitVec.toNat_ofNat]
  omega

theorem offset_succ (n : ℕ) : offset n + 4 = offset (n + 1) := by
  rw [offset, offset, Nat.mul_succ, BitVec.ofNat_add]
  rfl

theorem offset_lt_iff (hn : n ≤ wordCount) : offset n < sdramLength ↔ n < wordCount := by
  rw [BitVec.lt_def, toNat_offset hn]
  rw [wordCount] at hn ⊢
  change 4 * n < 0x7fffff ↔ _
  omega

theorem offset_injective (hn : n ≤ wordCount) (hm : m ≤ wordCount) (h : offset n = offset m) :
    n = m := by
  have hnat : (offset n).toNat = (offset m).toNat := congrArg BitVec.toNat h
  rw [toNat_offset hn, toNat_offset hm] at hnat
  omega

theorem isSdram_wordAt (hn : n < wordCount) : IsSdram (wordAt n) := by
  have hnat : (wordAt n).toNat = 0x800000 + 4 * n := by
    rw [wordAt, BitVec.toNat_add, toNat_offset hn.le]
    rw [wordCount] at hn
    change (0x800000 + 4 * n) % 2 ^ 32 = _
    omega
  rw [wordCount] at hn
  refine ⟨?_, ?_, by omega⟩
  · rw [BitVec.le_def, hnat]
    exact Nat.le_add_right _ _
  · rw [BitVec.le_def, hnat]
    change _ ≤ 0xffffff
    omega

/-- Every word is tested. -/
theorem exists_wordAt {address : Word} (h : IsSdram address) :
    ∃ n < wordCount, address = wordAt n := by
  obtain ⟨hlow, hhigh, haligned⟩ := h
  rw [BitVec.le_def] at hlow hhigh
  change 0x800000 ≤ address.toNat at hlow
  change address.toNat ≤ 0xffffff at hhigh
  have hn : (address.toNat - 0x800000) / 4 < wordCount := by
    rw [wordCount]
    omega
  refine ⟨_, hn, ?_⟩
  apply BitVec.eq_of_toNat_eq
  rw [wordAt, BitVec.toNat_add, toNat_offset hn.le]
  change _ = (0x800000 + _) % 2 ^ 32
  omega

end Words

/-! ## What it finds -/

/-- The offset of the first word that is not as it was stored, and that word. -/
abbrev Fault := Word × Word

def faultText (k data : Word) : List Byte :=
  literalText "error fount at 0x" ++ (numberText true 16 k.toNat ++
    (literalText ": expecting " ++ (signedText k ++
      (literalText " but got " ++ (signedText data ++ literalText "\r\n")))))

def faultSigns : Option Fault → List Sign
  | none => []
  | some (k, data) => said (faultText k data)

/-- What the test shows. -/
def testSigns (fault : Option Fault) : List Sign :=
  said (literalText "SDRAM write start\r\n") ++
    (said (literalText "SDRAM read start\r\n") ++ faultSigns fault)

def testResult : Option Fault → Word
  | none => 0
  | some _ => -1

theorem means_faultText (k data : Word) :
    Means (literal "error fount at 0x%x: expecting %d but got %d\r\n")
      [.int k, .int k, .int data] (faultText k data) := by
  have hfmt : literal "error fount at 0x%x: expecting %d but got %d\r\n" =
      literalText "error fount at 0x" ++ (chr '%' :: chr 'x' ::
        (literalText ": expecting " ++ (chr '%' :: chr 'd' ::
          (literalText " but got " ++ (chr '%' :: chr 'd' :: literal "\r\n"))))) := by
    decide +kernel
  rw [hfmt]
  apply means_append _ (by decide +kernel)
  apply means_x
  apply means_append _ (by decide +kernel)
  apply means_d
  apply means_append _ (by decide +kernel)
  apply means_d
  exact means_literal _ (by decide +kernel)

section Loops

variable {γ ρ : Type} {Log : List Sign → Prop} {ram : Ram ρ} {store : γ} {s : Console}

/-- The first loop, with an invariant of the words written so far. -/
theorem wp_writeWords {W : ℕ → ρ → Prop} {Q : Unit → γ → ρ → Prop}
    (hstep : ∀ n < wordCount, ∀ r r', W n r → ram.store (wordAt n) (offset n) r r' → W (n + 1) r')
    (hdone : ∀ r, W wordCount r → Q () store r) {n : ℕ} (hn : n ≤ wordCount) {r : ρ} (h : W n r) :
    wp ram.contract (writeWords (offset n)) Q store r := by
  induction hn using Nat.decreasingInduction generalizing r with
  | self =>
      rw [writeWords, if_neg (by simp [offset_lt_iff le_rfl])]
      exact wp_pure (hdone r h)
  | of_succ n hn ih =>
      rw [writeWords, if_pos ((offset_lt_iff hn.le).mpr hn), offset_succ]
      apply wp_bind
      apply wp_put32 (isSdram_wordAt hn)
      intro answer r' hstore
      exact ih (hstep n hn r r' h hstore)

/-- The second loop, with an invariant of the words that were as they were
stored. -/
theorem wp_readWords {R : ℕ → ρ → Prop} {found : Option Fault → Prop}
    {Q : Word → γ → Console × ρ → Prop}
    (hstep : ∀ n < wordCount, ∀ r data r', R n r → ram.load (wordAt n) data r r' →
      if data = offset n then R (n + 1) r' else found (some (offset n, data)))
    (hpass : ∀ r, R wordCount r → found none)
    (hlog : ∀ fault, found fault → Begins Log (s.shown ++ faultSigns fault))
    (hQ : ∀ fault ready r, found fault →
      Q (testResult fault) store (⟨ready, s.shown ++ faultSigns fault⟩, r))
    {n : ℕ} (hn : n ≤ wordCount) {r : ρ} (h : R n r) :
    wp (outputs Log ram) (readWords (offset n)) Q store (s, r) := by
  induction hn using Nat.decreasingInduction generalizing r with
  | self =>
      rw [readWords, if_neg (by simp [offset_lt_iff le_rfl])]
      have hend := hQ none s.ready r (hpass r h)
      rw [faultSigns, List.append_nil] at hend
      exact wp_pure hend
  | of_succ n hn ih =>
      rw [readWords, if_pos ((offset_lt_iff hn.le).mpr hn), offset_succ]
      apply wp_bind
      apply wp_onRam
      apply wp_get32 (isSdram_wordAt hn)
      intro data r' hload
      have hnext := hstep n hn r data r' h hload
      by_cases hdata : data = offset n
      · rw [if_pos hdata] at hnext
        rw [if_neg (not_not_intro hdata)]
        exact ih hnext
      · rw [if_neg hdata] at hnext
        rw [if_pos hdata]
        apply wp_bind
        apply wp_onConsole
        apply wp_xprintf (means_faultText _ data) (hlog _ hnext)
        intro ready
        exact wp_pure (hQ _ ready r' hnext)

/-- Invariants of the two loops, and the faults that can be found with them. -/
structure Tested (ram : Ram ρ) (W R : ℕ → ρ → Prop) (found : Option Fault → Prop) : Prop where
  store : ∀ n < wordCount, ∀ r r', W n r → ram.store (wordAt n) (offset n) r r' → W (n + 1) r'
  turn : ∀ r, W wordCount r → R 0 r
  load : ∀ n < wordCount, ∀ r data r', R n r → ram.load (wordAt n) data r r' →
    if data = offset n then R (n + 1) r' else found (some (offset n, data))
  pass : ∀ r, R wordCount r → found none
  possible : ∃ fault, found fault

/-- The test ends with one of the faults that can be found, or without one, and
says so. -/
theorem wp_sdramTest {W R : ℕ → ρ → Prop} {found : Option Fault → Prop} {r : ρ}
    (h : Tested ram W R found) (hstart : W 0 r)
    (hlog : ∀ fault, found fault → Begins Log (s.shown ++ testSigns fault)) :
    wp (outputs Log ram) sdramTest (fun result store' st => store' = store ∧
      ∃ fault, found fault ∧ result = testResult fault ∧
        st.1.shown = s.shown ++ testSigns fault) store (s, r) := by
  obtain ⟨fault₀, hfound₀⟩ := h.possible
  have hlog₀ := hlog fault₀ hfound₀
  rw [testSigns, ← List.append_assoc, ← List.append_assoc] at hlog₀
  apply wp_bind
  apply wp_onConsole
  apply wp_xprintf (means_literal _ (by decide +kernel)) hlog₀.append_left.append_left
  intro ready
  apply wp_bind
  apply wp_onRam
  apply wp_writeWords h.store _ (Nat.zero_le _) hstart
  intro r' hwritten
  apply wp_bind
  apply wp_onConsole
  apply wp_xprintf (means_literal _ (by decide +kernel)) hlog₀.append_left
  intro ready
  apply wp_readWords h.load h.pass _ _ (Nat.zero_le _) (h.turn r' hwritten)
  · intro fault hfault
    simpa only [testSigns, List.append_assoc] using hlog fault hfault
  · intro fault ready r hfault
    exact ⟨rfl, fault, hfault, rfl, by simp only [testSigns, List.append_assoc]⟩

/-- Of a memory that answers what it likes nothing is known. -/
theorem tested_any (ram : Ram ρ) :
    Tested ram (fun _ _ => True) (fun _ _ => True) (fun _ => True) where
  store _ _ _ _ _ _ := trivial
  turn _ _ := trivial
  load n _ r data r' _ _ := by
    split
    all_goals trivial
  pass _ _ := trivial
  possible := ⟨none, trivial⟩

end Loops

/-! ## Memories with faults -/

section Cells

variable {γ κ : Type}

/-- A memory of cells: an address selects one, which keeps what it makes of a
word. -/
def cells [DecidableEq κ] (decode : Word → κ) (latch : κ → Word → Word) : Ram (κ → Word) where
  store address data t t' :=
    t' = Function.update t (decode address) (latch (decode address) data)
  load address data t t' := data = t (decode address) ∧ t' = t

/-- No two words share a cell, and every cell can keep the offset of its word. -/
def Sound (decode : Word → κ) (latch : κ → Word → Word) : Prop :=
  Set.InjOn decode {address | IsSdram address} ∧
    ∀ address, IsSdram address →
      latch (decode address) (address - sdram0Base) = address - sdram0Base

/-- At this offset is what the cell of the word has made of an offset, its own or
another one. -/
def Broken (decode : Word → κ) (latch : κ → Word → Word) (k data : Word) : Prop :=
  data ≠ k ∧ IsSdram (sdram0Base + k) ∧
    ∃ k', IsSdram (sdram0Base + k') ∧ decode (sdram0Base + k') = decode (sdram0Base + k) ∧
      data = latch (decode (sdram0Base + k)) k'

/-- What is said of the memory is true. -/
structure Diagnosed (decode : Word → κ) (latch : κ → Word → Word) (fault : Option Fault) :
    Prop where
  sound : fault = none ↔ Sound decode latch
  broken : ∀ k data, fault = some (k, data) → Broken decode latch k data

variable {decode : Word → κ} {latch : κ → Word → Word} {t : κ → Word} {n : ℕ}

theorem base_add_sub (address : Word) : sdram0Base + (address - sdram0Base) = address := by
  rw [BitVec.add_comm, BitVec.sub_add_cancel]

theorem Broken.not_sound {k data : Word} (h : Broken decode latch k data) :
    ¬Sound decode latch := by
  intro hsound
  obtain ⟨hdata, hk, k', hk', hcell, rfl⟩ := h
  obtain rfl : k' = k := add_left_cancel (hsound.1 hk' hk hcell)
  have hlatch := hsound.2 _ hk
  rw [BitVec.add_comm, BitVec.add_sub_cancel, BitVec.add_comm] at hlatch
  exact hdata hlatch

/-- A memory that is not sound is broken somewhere. -/
theorem exists_broken (h : ¬Sound decode latch) : ∃ k data, Broken decode latch k data := by
  by_contra hnone
  have hlatch : ∀ address, IsSdram address →
      latch (decode address) (address - sdram0Base) = address - sdram0Base := by
    intro a ha
    by_contra hne
    have ha' := base_add_sub a
    exact hnone ⟨_, _, hne, ha'.symm ▸ ha, _, ha'.symm ▸ ha, rfl, by rw [ha']⟩
  apply h
  refine ⟨?_, hlatch⟩
  intro a ha b hb hcell
  by_contra hne
  have ha' := base_add_sub a
  have hb' := base_add_sub b
  refine hnone ⟨b - sdram0Base, a - sdram0Base, ?_, hb'.symm ▸ hb, a - sdram0Base, ha'.symm ▸ ha,
    by rw [ha', hb', hcell], by rw [hb', ← hcell, hlatch a ha]⟩
  intro heq
  exact hne (by rw [← ha', heq, hb'])

theorem diagnosed_broken {k data : Word} (h : Broken decode latch k data) :
    Diagnosed decode latch (some (k, data)) where
  sound := iff_of_false nofun h.not_sound
  broken := by
    rintro _ _ ⟨⟩
    exact h

/-- After `n` words the cell of each of them holds the last one that selects
it. -/
def Written (decode : Word → κ) (latch : κ → Word → Word) (n : ℕ) (t : κ → Word) : Prop :=
  ∀ m < n, ∃ k < n, decode (wordAt k) = decode (wordAt m) ∧
    t (decode (wordAt m)) = latch (decode (wordAt m)) (offset k)

theorem Written.store [DecidableEq κ] (h : Written decode latch n t) :
    Written decode latch (n + 1) (Function.update t (decode (wordAt n))
      (latch (decode (wordAt n)) (offset n))) := by
  intro m hm
  by_cases hcell : decode (wordAt m) = decode (wordAt n)
  · exact ⟨n, Nat.lt_succ_self n, hcell.symm, by rw [hcell, Function.update_self]⟩
  · have hlt : m < n := by
      apply Nat.lt_of_le_of_ne (Nat.le_of_lt_succ hm)
      rintro rfl
      exact hcell rfl
    obtain ⟨k, hk, hsame, heq⟩ := h m hlt
    exact ⟨k, Nat.lt_succ_of_lt hk, hsame, by rw [Function.update_of_ne hcell, heq]⟩

theorem wordAt_sub (n : ℕ) : wordAt n - sdram0Base = offset n := by
  rw [wordAt, BitVec.add_comm, BitVec.add_sub_cancel]

/-- Where every word is as it was stored, the memory is sound. -/
theorem sound_of_holds (h : Written decode latch wordCount t)
    (hholds : ∀ n < wordCount, t (decode (wordAt n)) = offset n) : Sound decode latch := by
  have hinj : Set.InjOn decode {address | IsSdram address} := by
    intro a ha b hb hcell
    obtain ⟨n, hn, rfl⟩ := exists_wordAt ha
    obtain ⟨m, hm, rfl⟩ := exists_wordAt hb
    have hoffset : offset n = offset m := by rw [← hholds n hn, ← hholds m hm, hcell]
    rw [offset_injective hn.le hm.le hoffset]
  refine ⟨hinj, ?_⟩
  intro a ha
  obtain ⟨n, hn, rfl⟩ := exists_wordAt ha
  obtain ⟨k, hk, hsame, heq⟩ := h n hn
  have haddress : wordAt k = wordAt n := hinj (isSdram_wordAt hk) ha hsame
  have hoffset : offset k = offset n := by rw [← wordAt_sub, haddress, wordAt_sub]
  rw [wordAt_sub, ← hoffset, ← heq, hholds n hn, hoffset]

theorem tested_cells [DecidableEq κ] (decode : Word → κ) (latch : κ → Word → Word) :
    Tested (cells decode latch) (Written decode latch)
      (fun n t => Written decode latch wordCount t ∧ ∀ m < n, t (decode (wordAt m)) = offset m)
      (Diagnosed decode latch) where
  store := by
    rintro n hn t _ hwritten rfl
    exact hwritten.store
  turn t hwritten := ⟨hwritten, nofun⟩
  load := by
    rintro n hn t data _ ⟨hwritten, hholds⟩ ⟨rfl, rfl⟩
    split
    case isTrue hdata =>
      refine ⟨hwritten, fun m hm => ?_⟩
      obtain hlt | rfl := Nat.lt_succ_iff_lt_or_eq.mp hm
      · exact hholds m hlt
      · exact hdata
    case isFalse hdata =>
      obtain ⟨k, hk, hsame, heq⟩ := hwritten n hn
      exact diagnosed_broken
        ⟨hdata, isSdram_wordAt hn, offset k, isSdram_wordAt hk, hsame, heq⟩
  pass := by
    rintro t ⟨hwritten, hholds⟩
    exact ⟨iff_of_true rfl (sound_of_holds hwritten hholds), nofun⟩
  possible := by
    by_cases hsound : Sound decode latch
    · exact ⟨none, iff_of_true rfl hsound, nofun⟩
    · obtain ⟨k, data, hbroken⟩ := exists_broken hsound
      exact ⟨some (k, data), diagnosed_broken hbroken⟩

/-- In every run that ends, whatever the UART answers, the test succeeds exactly
if the memory is sound, and otherwise it says where it is broken. -/
theorem sdramTest_finds [DecidableEq κ] (decode : Word → κ) (latch : κ → Word → Word)
    (store : γ) (s : Console) (t : κ → Word) :
    wp (outputs (fun _ => True) (cells decode latch)) sdramTest
      (fun result store' st => store' = store ∧
        ∃ fault : Option Fault, Diagnosed decode latch fault ∧
          result = testResult fault ∧ st.1.shown = s.shown ++ testSigns fault) store (s, t) :=
  wp_sdramTest (tested_cells decode latch) nofun fun _ _ => ⟨_, trivial, List.prefix_rfl⟩

end Cells

end KyogenRV.Board
