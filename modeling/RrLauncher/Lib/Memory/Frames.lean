/-
# What is left alone

Two memories are compared on a set of addresses, with `Set.EqOn`.  A write leaves every set alone
that has none of its addresses (`eqOn_write`), and so do assignments in a row
(`eqOn_assignAll`), after which each address that is assigned to last has its value
(`word_assignAll`).
-/

import Mathlib.Data.Set.Function
import RrLauncher.Lib.Memory.Words

namespace Memory

open ByteReader (be32)

/-- The addresses below `lo`, and those from `hi` on. -/
def outside (lo hi : ℕ) : Set UInt32 := {a | a.toNat < lo ∨ hi ≤ a.toNat}

/-- Outside of a larger area is outside of every smaller one in it. -/
theorem outside_subset {lo hi lo' hi' : ℕ} (hlo : lo' ≤ lo) (hhi : hi ≤ hi') :
    outside lo' hi' ⊆ outside lo hi := by
  intro a ha
  rcases ha with hlt | hle
  · exact Or.inl (hlt.trans_le hlo)
  · exact Or.inr (hhi.trans hle)

/-- The addresses of a range that does not go over the highest one. -/
theorem bounds_of_inRange {p a : UInt32} {n : ℕ} (h : InRange p n a) (hend : p.toNat + n ≤ 2 ^ 32) :
    p.toNat ≤ a.toNat ∧ a.toNat < p.toNat + n := by
  have ha := a.toNat_lt
  rw [InRange, UInt32.toNat_sub] at h
  omega

section Write

variable (m : Memory) {p : UInt32} {bytes : List UInt8}

/-- **A write** leaves a set alone that it does not write to. -/
theorem eqOn_write {kept : Set UInt32} (h : ∀ a ∈ kept, ¬ InRange p bytes.length a) :
    Set.EqOn (m.write p bytes) m kept := fun a ha => write_of_notInRange m (h a ha)

/-- A write to an area leaves everything outside of it as it was, if the area does not reach over
the highest address. -/
theorem eqOn_write_outside {lo hi : ℕ} (hlo : lo ≤ p.toNat) (hhi : p.toNat + bytes.length ≤ hi)
    (hle : hi ≤ 2 ^ 32) : Set.EqOn (m.write p bytes) m (outside lo hi) := by
  intro a ha
  refine write_of_outside m (hhi.trans hle) ?_
  rcases ha with hlt | hge
  · exact Or.inl (hlt.trans_le hlo)
  · exact Or.inr (hhi.trans hge)

end Write

/-! ### Assignments in a row -/

/-- An assignment, with the bytes of its right-hand side. -/
structure Assignment where
  addr : UInt32
  value : Memory → List UInt8

/-- The assignment writes from `lo` on and below `hi`. -/
def Assignment.Within (s : Assignment) (lo hi : ℕ) : Prop :=
  lo ≤ s.addr.toNat ∧ ∀ m, s.addr.toNat + (s.value m).length ≤ hi

/-- The addresses that an assignment within an area writes to lie in that area. -/
theorem Assignment.Within.bounds {s : Assignment} {lo hi : ℕ} (h : s.Within lo hi)
    (hhi : hi ≤ 2 ^ 32) {m : Memory} {a : UInt32} (ha : InRange s.addr (s.value m).length a) :
    lo ≤ a.toNat ∧ a.toNat < hi := by
  have hend := h.2 m
  have hbounds := bounds_of_inRange ha (hend.trans hhi)
  exact ⟨h.1.trans hbounds.1, hbounds.2.trans_le hend⟩

/-- An assignment of a word, most significant byte first. -/
def setWord (p w : UInt32) : Assignment := ⟨p, fun _ => be32 w⟩

/-- Setting a word is within an area if its four bytes are. -/
theorem setWord_within {p : UInt32} (w : UInt32) {lo hi : ℕ} (hlo : lo ≤ p.toNat)
    (hhi : p.toNat + 4 ≤ hi) : (setWord p w).Within lo hi := ⟨hlo, fun _ => hhi⟩

/-- The assignments, one after the other. -/
def assignAll (m : Memory) (assignments : List Assignment) : Memory :=
  assignments.foldl (fun m s => m.write s.addr (s.value m)) m

/-- Two lists of assignments are made one after the other. -/
theorem assignAll_append (m : Memory) (before after : List Assignment) :
    m.assignAll (before ++ after) = (m.assignAll before).assignAll after := List.foldl_append

/-- **Assignments** leave a set alone that none of them writes to. -/
theorem eqOn_assignAll (m : Memory) {assignments : List Assignment} {kept : Set UInt32}
    (h : ∀ s ∈ assignments, ∀ m, ∀ a ∈ kept, ¬ InRange s.addr (s.value m).length a) :
    Set.EqOn (m.assignAll assignments) m kept := by
  induction assignments generalizing m with
  | nil => exact Set.eqOn_refl m kept
  | cons s rest ih =>
    rw [List.forall_mem_cons] at h
    exact (ih (m.write s.addr (s.value m)) h.2).trans (eqOn_write m (h.1 m))

/-- **The last assignment** to a word is what is there. -/
theorem word_assignAll (m : Memory) {assignments : List Assignment} {k : ℕ} {p w : UInt32}
    (hk : assignments[k]? = some (setWord p w))
    (h : ∀ s ∈ assignments.drop (k + 1), ∀ m a, InRange p 4 a →
      ¬ InRange s.addr (s.value m).length a) : (m.assignAll assignments).word p = w := by
  obtain ⟨hlt, hget⟩ := List.getElem?_eq_some_iff.mp hk
  have hsplit : assignments =
      assignments.take k ++ setWord p w :: assignments.drop (k + 1) := by
    rw [← hget, List.getElem_cons_drop, List.take_append_drop]
  rw [hsplit, assignAll_append]
  refine (word_congr fun a ha => ?_).trans
    (word_of_holds (holds_write (m.assignAll (assignments.take k)) p ?_))
  · have hkept : Set.EqOn
        (((m.assignAll (assignments.take k)).write p (be32 w)).assignAll (assignments.drop (k + 1)))
        ((m.assignAll (assignments.take k)).write p (be32 w)) {a | InRange p 4 a} :=
      eqOn_assignAll _ h
    exact hkept ha
  · show 4 ≤ 2 ^ 32
    omega

end Memory
