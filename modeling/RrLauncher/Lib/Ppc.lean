/-
# A little of the PowerPC

The processor as far as a jump to an arbitrary address needs it: the address is put together
in a register with `addis` and `ori`, goes to the counter register with `mtctr`, and `bctr`
goes there.  All other instructions are a parameter, what each does to the processor.

Four such words in a row are a jump (`Jump.iterate`).  Instructions that neither branch nor
look at where they stand can be moved: followed by a jump back they do what they did in
their old place (`Movable.iterate`).
-/

import Mathlib.Data.Set.Basic
import Mathlib.Logic.Function.Iterate
import RrLauncher.Lib.Memory.Words

/-- The registers and the memory. -/
structure Ppc where
  gpr : Fin 32 → UInt32
  ctr : UInt32
  lr : UInt32
  pc : UInt32
  mem : Memory

namespace Ppc

open Memory (InRange next_word word_congr wordsAt_cons)

/-- An instruction, with its immediate as it stands in the word. -/
inductive Insn
  | addis (rt ra : Fin 32) (imm : ℕ)
  | ori (ra rs : Fin 32) (imm : ℕ)
  | mtctr (rs : Fin 32)
  | bctr
  | other (word : UInt32)
  deriving DecidableEq

/-- The `n` bits of a word from bit `lo` on. -/
def field (w : UInt32) (lo n : ℕ) : ℕ := w.toNat / 2 ^ lo % 2 ^ n

/-- The register whose number is in the five bits from bit `lo` on. -/
def regField (w : UInt32) (lo : ℕ) : Fin 32 := ⟨field w lo 5, Nat.mod_lt _ (by decide)⟩

/-- Which instruction a word is. -/
def decode (w : UInt32) : Insn :=
  if field w 26 6 = 15 then .addis (regField w 21) (regField w 16) (field w 0 16)
  else if field w 26 6 = 24 then .ori (regField w 16) (regField w 21) (field w 0 16)
  -- the number of the special register has its halves exchanged: 9 is `9 << 5` here
  else if field w 26 6 = 31 ∧ field w 1 10 = 467 ∧ field w 11 10 = 288 then .mtctr (regField w 21)
  else if field w 26 6 = 19 ∧ field w 1 10 = 528 ∧ field w 21 5 = 20 ∧ field w 0 1 = 0 then .bctr
  else .other w

/-- What a register has plus a shifted immediate; register 0 stands for zero. -/
def addisValue (c : Ppc) (ra : Fin 32) (imm : ℕ) : UInt32 :=
  (if ra = 0 then 0 else c.gpr ra) + UInt32.ofNat (imm * 2 ^ 16)

/-- What an instruction does to the processor; those that are not decoded are the parameter's. -/
def exec (other : UInt32 → Ppc → Ppc) (c : Ppc) : Insn → Ppc
  | .addis rt ra imm =>
    { c with gpr := Function.update c.gpr rt (c.addisValue ra imm), pc := c.pc + 4 }
  | .ori ra rs imm =>
    { c with gpr := Function.update c.gpr ra (c.gpr rs ||| UInt32.ofNat imm), pc := c.pc + 4 }
  | .mtctr rs => { c with ctr := c.gpr rs, pc := c.pc + 4 }
  | .bctr => { c with pc := c.ctr }
  | .other w => other w c

/-- The instruction at `pc` is executed. -/
def step (other : UInt32 → Ppc → Ppc) (c : Ppc) : Ppc := c.exec other (decode (c.mem.word c.pc))

/-! ### Words -/

/-- A word of the form with two registers and an immediate. -/
def dForm (op rx ry imm : ℕ) : UInt32 :=
  UInt32.ofNat (op * 2 ^ 26 + rx * 2 ^ 21 + ry * 2 ^ 16 + imm)

section Words

variable {rx ry imm : ℕ}

/-- The fields of an instruction word are added without a carry, if each of them fits into its bits.
-/
theorem toNat_dForm {k : ℕ} (hop : k < 2 ^ 6) (hrx : rx < 32) (hry : ry < 32) (himm : imm < 2 ^ 16) :
    (dForm k rx ry imm).toNat = k * 2 ^ 26 + rx * 2 ^ 21 + ry * 2 ^ 16 + imm :=
  UInt32.toNat_ofNat_of_lt' (show _ < 2 ^ 32 by omega)

/-- The word that is put together for `addis` is decoded as that instruction, with its registers and
its immediate. -/
theorem decode_addis (hrx : rx < 32) (hry : ry < 32) (himm : imm < 2 ^ 16) :
    decode (dForm 15 rx ry imm) = .addis ⟨rx, hrx⟩ ⟨ry, hry⟩ imm := by
  have hword := toNat_dForm (k := 15) (by omega) hrx hry himm
  have hop : field (dForm 15 rx ry imm) 26 6 = 15 := by rw [field, hword]; omega
  have hrt : field (dForm 15 rx ry imm) 21 5 = rx := by rw [field, hword]; omega
  have hra : field (dForm 15 rx ry imm) 16 5 = ry := by rw [field, hword]; omega
  have hval : field (dForm 15 rx ry imm) 0 16 = imm := by rw [field, hword]; omega
  rw [decode, if_pos hop, hval]
  simp only [regField, hrt, hra]

/-- The word that is put together for `ori` is decoded as that instruction. Its two registers stand
in the other order in the word. -/
theorem decode_ori (hrx : rx < 32) (hry : ry < 32) (himm : imm < 2 ^ 16) :
    decode (dForm 24 rx ry imm) = .ori ⟨ry, hry⟩ ⟨rx, hrx⟩ imm := by
  have hword := toNat_dForm (k := 24) (by omega) hrx hry himm
  have hop : field (dForm 24 rx ry imm) 26 6 = 24 := by rw [field, hword]; omega
  have hrs : field (dForm 24 rx ry imm) 21 5 = rx := by rw [field, hword]; omega
  have hra : field (dForm 24 rx ry imm) 16 5 = ry := by rw [field, hword]; omega
  have hval : field (dForm 24 rx ry imm) 0 16 = imm := by rw [field, hword]; omega
  rw [decode, hop, if_neg (by omega), if_pos rfl, hval]
  simp only [regField, hrs, hra]

/-- Numbers with no bit in common are or'ed by adding: one has nothing below a power of two, the
other nothing from it on. -/
theorem toNat_or_of_lt {a b : UInt32} {k : ℕ} (ha : a.toNat % 2 ^ k = 0) (hb : b.toNat < 2 ^ k) :
    (a ||| b).toNat = a.toNat + b.toNat := by
  have hdiv : a.toNat = (a.toNat / 2 ^ k) <<< k := by
    rw [Nat.shiftLeft_eq, Nat.div_mul_cancel (Nat.dvd_of_mod_eq_zero ha)]
  rw [UInt32.toNat_or, hdiv, Nat.shiftLeft_add_eq_or_of_lt hb]

/-- An address is put together from its two halves, the upper one shifted and the lower one or'ed to
it. -/
theorem halves (a : UInt32) :
    UInt32.ofNat (a.toNat / 2 ^ 16 * 2 ^ 16) ||| UInt32.ofNat (a.toNat % 2 ^ 16) = a := by
  have ha := a.toNat_lt
  have hhigh : (UInt32.ofNat (a.toNat / 2 ^ 16 * 2 ^ 16)).toNat = a.toNat / 2 ^ 16 * 2 ^ 16 :=
    UInt32.toNat_ofNat_of_lt' (show _ < 2 ^ 32 by omega)
  have hlow : (UInt32.ofNat (a.toNat % 2 ^ 16)).toNat = a.toNat % 2 ^ 16 :=
    UInt32.toNat_ofNat_of_lt' (show _ < 2 ^ 32 by omega)
  rw [← UInt32.toNat_inj, toNat_or_of_lt (k := 16) (by omega) (by omega), hhigh, hlow]
  omega

end Words

/-! ### Words in a row -/

section Run

variable (other : UInt32 → Ppc → Ppc)

/-- What the instructions do one after the other. -/
def execAll (c : Ppc) (words : List UInt32) : Ppc :=
  words.foldl (fun c w => c.exec other (decode w)) c

/-- The instruction goes on behind itself. -/
def GoesOn (w : UInt32) : Prop := ∀ c : Ppc, (c.exec other (decode w)).pc = c.pc + 4

/-- Executed from here on, the instructions leave the area alone. -/
def Keeps (area : Set UInt32) : Ppc → List UInt32 → Prop
  | _, [] => True
  | c, w :: words => (∀ a ∈ area, (c.exec other (decode w)).mem a = c.mem a) ∧
      Keeps area (c.exec other (decode w)) words

variable {other}

/-- **Instructions that stand in a row are executed one after the other.** -/
theorem iterate_eq_execAll {area : Set UInt32} {words : List UInt32}
    (hon : ∀ w ∈ words, GoesOn other w) {c : Ppc} (hkeeps : Keeps other area c words)
    (h : c.mem.WordsAt c.pc words) (harea : ∀ a, InRange c.pc (4 * words.length) a → a ∈ area) :
    (step other)^[words.length] c = execAll other c words := by
  induction words generalizing c with
  | nil => rfl
  | cons w words ih =>
    rw [List.forall_mem_cons] at hon
    obtain ⟨hword, hrest⟩ := wordsAt_cons.mp h
    have hstep : step other c = c.exec other (decode w) := by rw [step, hword]
    -- what is behind the instruction is in the area
    have hbehind : ∀ a, InRange (c.pc + 4) (4 * words.length) a → a ∈ area := fun a ha =>
      harea a (InRange.of_offset (show InRange (c.pc + UInt32.ofNat 4) _ a from ha)
        (by rw [List.length_cons]; omega))
    rw [List.length_cons, Function.iterate_succ_apply, hstep, ih hon.2 hkeeps.2]
    · rfl
    · rw [hon.1 c]
      exact hrest.congr fun a ha => hkeeps.1 a (hbehind a ha)
    · rw [hon.1 c]
      exact hbehind

/-- Where instructions end that go on behind themselves: four bytes further on for each of them. -/
theorem pc_execAll {words : List UInt32} (hon : ∀ w ∈ words, GoesOn other w) (c : Ppc) :
    (execAll other c words).pc = c.pc + UInt32.ofNat (4 * words.length) := by
  induction words generalizing c with
  | nil => exact (UInt32.add_zero c.pc).symm
  | cons w words ih =>
    rw [List.forall_mem_cons] at hon
    have hrest := ih hon.2 (c.exec other (decode w))
    rw [hon.1 c, next_word] at hrest
    exact hrest

/-- An area that instructions keep has the same bytes after all of them were executed. -/
theorem Keeps.mem_execAll {area : Set UInt32} {words : List UInt32} {c : Ppc}
    (h : Keeps other area c words) {a : UInt32} (ha : a ∈ area) :
    (execAll other c words).mem a = c.mem a := by
  induction words generalizing c with
  | nil => rfl
  | cons w words ih => exact (ih h.2).trans (h.1 a ha)

/-! ### A jump -/

/-- Four words that jump to `target` through register `r`. -/
structure Jump (r : Fin 32) (target : UInt32) (words : List UInt32) : Prop where
  insns : words.map decode =
    [.addis r 0 (target.toNat / 2 ^ 16), .ori r r (target.toNat % 2 ^ 16), .mtctr r, .bctr]

/-- The registers after a jump. -/
def jumped (c : Ppc) (r : Fin 32) (target : UInt32) : Ppc :=
  { c with gpr := Function.update c.gpr r target, ctr := target, pc := target }

/-- The words of a jump are four instructions: the upper half of the target, the lower half, the
move to the counter register, and the branch. -/
theorem Jump.exists_words {r : Fin 32} {target : UInt32} {words : List UInt32}
    (h : Jump r target words) : ∃ w₀ w₁ w₂ w₃, words = [w₀, w₁, w₂, w₃] ∧
      decode w₀ = .addis r 0 (target.toNat / 2 ^ 16) ∧
      decode w₁ = .ori r r (target.toNat % 2 ^ 16) ∧ decode w₂ = .mtctr r ∧ decode w₃ = .bctr := by
  have hlen : words.length = 4 := by
    have hmap := congrArg List.length h.insns
    rwa [List.length_map] at hmap
  obtain ⟨w₀, w₁, w₂, w₃, rfl⟩ := List.length_eq_four.mp hlen
  have hinsns := h.insns
  simp only [List.map_cons, List.map_nil, List.cons.injEq, and_true] at hinsns
  exact ⟨w₀, w₁, w₂, w₃, rfl, hinsns⟩

/-- **A jump goes to its target**, and changes its register and the counter register only. -/
theorem Jump.iterate {r : Fin 32} {target : UInt32} {words : List UInt32}
    (hjump : Jump r target words) {c : Ppc} (h : c.mem.WordsAt c.pc words) :
    (step other)^[4] c = c.jumped r target := by
  obtain ⟨w₀, w₁, w₂, w₃, rfl, h₀, h₁, h₂, h₃⟩ := hjump.exists_words
  have hon : ∀ w ∈ [w₀, w₁, w₂], GoesOn other w := by
    simp only [List.forall_mem_cons, List.not_mem_nil, false_imp_iff, implies_true, and_true]
    refine ⟨fun c => ?_, fun c => ?_, fun c => ?_⟩
    · rw [h₀, exec]
    · rw [h₁, exec]
    · rw [h₂, exec]
  -- the words before the branch change no memory
  have hkeeps : Keeps other Set.univ c [w₀, w₁, w₂] := by
    simp only [Keeps, h₀, h₁, h₂, exec, implies_true, and_self]
  obtain ⟨hfirst, hbranch⟩ :=
    Memory.WordsAt.split (show c.mem.WordsAt c.pc ([w₀, w₁, w₂] ++ [w₃]) from h)
  have hiter := iterate_eq_execAll hon hkeeps hfirst fun _ _ => Set.mem_univ _
  have hlast : (execAll other c [w₀, w₁, w₂]).mem.word (execAll other c [w₀, w₁, w₂]).pc = w₃ := by
    rw [pc_execAll hon, word_congr fun a _ => hkeeps.mem_execAll (Set.mem_univ a)]
    exact (wordsAt_cons.mp hbranch).1
  have hvalue : c.addisValue 0 (target.toNat / 2 ^ 16) |||
      UInt32.ofNat (target.toNat % 2 ^ 16) = target := by
    rw [addisValue, if_pos rfl, UInt32.zero_add, halves]
  rw [Function.iterate_succ_apply', show (step other)^[3] c = _ from hiter, step, hlast, h₃]
  simp only [execAll, List.foldl_cons, List.foldl_nil, h₀, h₁, h₂, exec, Function.update_self,
    Function.update_idem, hvalue, jumped]

/-! ### Moving instructions -/

/-- The instruction does the same wherever it stands, and goes on behind itself. -/
def Movable (other : UInt32 → Ppc → Ppc) (w : UInt32) : Prop :=
  ∀ (c : Ppc) (p : UInt32), ({ c with pc := p } : Ppc).exec other (decode w) =
    { c.exec other (decode w) with pc := p + 4 }

/-- An instruction that can be moved goes on behind itself, wherever it stands. -/
theorem Movable.goesOn {w : UInt32} (h : Movable other w) : GoesOn other w := fun c =>
  congrArg Ppc.pc (h c c.pc)

/-- Instructions that can be moved do in another place what they do in their own: only the program
counter tells where they were executed. -/
theorem execAll_moved {words : List UInt32} (hm : ∀ w ∈ words, Movable other w) (c : Ppc)
    (p : UInt32) :
    execAll other { c with pc := p } words =
      { execAll other c words with pc := p + UInt32.ofNat (4 * words.length) } := by
  induction words generalizing c p with
  | nil =>
    rw [List.length_nil, show p + UInt32.ofNat (4 * 0) = p from UInt32.add_zero p]
    rfl
  | cons w words ih =>
    rw [List.forall_mem_cons] at hm
    have hhead := hm.1 c p
    have htail := ih hm.2 (c.exec other (decode w)) (p + 4)
    rw [next_word] at htail
    calc execAll other { c with pc := p } (w :: words)
        = execAll other (({ c with pc := p } : Ppc).exec other (decode w)) words := rfl
      _ = execAll other { c.exec other (decode w) with pc := p + 4 } words := by rw [hhead]
      _ = _ := htail

/-- **Instructions that were moved**, with a jump back behind them, do what they did in their
old place and go on behind that, with the register of the jump and the counter register lost. -/
theorem Movable.iterate {area : Set UInt32} {words back : List UInt32} {r : Fin 32} {old : UInt32}
    (hm : ∀ w ∈ words, Movable other w)
    (hback : Jump r (old + UInt32.ofNat (4 * words.length)) back) {c : Ppc}
    (hkeeps : Keeps other area c words) (h : c.mem.WordsAt c.pc (words ++ back))
    (harea : ∀ a, InRange c.pc (4 * (words ++ back).length) a → a ∈ area) :
    (step other)^[words.length + 4] c =
      (execAll other { c with pc := old } words).jumped r
        (old + UInt32.ofNat (4 * words.length)) := by
  have hon : ∀ w ∈ words, GoesOn other w := fun w hw => (hm w hw).goesOn
  obtain ⟨hfirst, hbehind⟩ := h.split
  have hiter := iterate_eq_execAll hon hkeeps hfirst fun a ha =>
    harea a (Nat.lt_of_lt_of_le ha (by rw [List.length_append]; omega))
  -- the words of the jump are as they were
  have hrest : (execAll other c words).mem.WordsAt (execAll other c words).pc back := by
    rw [pc_execAll hon]
    refine hbehind.congr fun a ha => hkeeps.mem_execAll (harea a (ha.of_offset ?_))
    rw [List.length_append]
    omega
  rw [Nat.add_comm, Function.iterate_add_apply, hiter, hback.iterate hrest,
    execAll_moved hm c old]
  rfl

end Run

end Ppc
