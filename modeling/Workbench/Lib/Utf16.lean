import Mathlib.Data.List.Basic
import Mathlib.Tactic.Lemma
import Workbench.Lib.Utf8

/-!
Texts as the code units of UTF-16.

A character outside the basic plane has two units, and the first of them never stands for anything
else. So a pair of units in a text is a character of it.
-/

namespace Workbench.Lib.Utf16

def isLead (u : ℕ) : Bool := 0xd800 ≤ u && u < 0xdc00

/-- The units of a code point. -/
def unitsOfPoint (n : ℕ) : List ℕ :=
  if n < 0x10000 then [n]
  else [0xd800 + (n - 0x10000) / 0x400, 0xdc00 + (n - 0x10000) % 0x400]

def unitsOf (c : Char) : List ℕ := unitsOfPoint c.toNat

def encode (cs : List Char) : List ℕ := cs.flatMap unitsOf

variable {c d : Char} {cs : List Char} {front back ms ns : List ℕ} {high low : ℕ}

@[simp] lemma encode_nil : encode [] = [] := rfl

@[simp] lemma encode_cons : encode (c :: cs) = unitsOf c ++ encode cs := rfl

@[simp] lemma encode_append (cs ds : List Char) : encode (cs ++ ds) = encode cs ++ encode ds :=
  List.flatMap_append

lemma unitsOf_of_basic (h : c.toNat < 0x10000) : unitsOf c = [c.toNat] := if_pos h

lemma unitsOf_ne_nil (c : Char) : unitsOf c ≠ [] := by
  unfold unitsOf unitsOfPoint
  split_ifs <;> simp

lemma unitsOf_append_inj (h : unitsOf c ++ ms = unitsOf d ++ ns) : c = d ∧ ms = ns := by
  have hc := Utf8.toNat_bounds c
  have hd := Utf8.toNat_bounds d
  unfold unitsOf unitsOfPoint at h
  split_ifs at h with hcs hds hds
  · obtain ⟨hfirst, hrest⟩ := List.cons.inj h
    exact ⟨Char.toNat_inj.mp hfirst, hrest⟩
  · have hfirst := (List.cons.inj h).1
    omega
  · have hfirst := (List.cons.inj h).1
    omega
  · obtain ⟨hfirst, hrest⟩ := List.cons.inj h
    obtain ⟨hsecond, hrest⟩ := List.cons.inj hrest
    exact ⟨Char.toNat_inj.mp (by omega), hrest⟩

lemma encode_injective : Function.Injective encode := by
  intro cs
  induction cs with
  | nil =>
    rintro (_ | ⟨d, ds⟩) h
    · rfl
    · rw [encode_nil, encode_cons, eq_comm, List.append_eq_nil_iff] at h
      exact absurd h.1 (unitsOf_ne_nil d)
  | cons c cs ih =>
    rintro (_ | ⟨d, ds⟩) h
    · rw [encode_nil, encode_cons, List.append_eq_nil_iff] at h
      exact absurd h.1 (unitsOf_ne_nil c)
    · obtain ⟨rfl, hrest⟩ := unitsOf_append_inj h
      rw [ih hrest]

/-- **A pair of units is a character**, and the text can be cut on both sides of it. -/
theorem exists_of_pair (hhigh : isLead high)
    (h : encode cs = front ++ high :: low :: back) :
    ∃ before c after, cs = before ++ c :: after ∧ front = encode before ∧
      unitsOf c = [high, low] ∧ back = encode after := by
  simp only [isLead, Bool.and_eq_true, decide_eq_true_eq] at hhigh
  induction cs generalizing front with
  | nil => simp at h
  | cons c cs ih =>
    have hc := Utf8.toNat_bounds c
    rw [encode_cons] at h
    by_cases hbasic : c.toNat < 0x10000
    · rw [unitsOf_of_basic hbasic, List.singleton_append] at h
      cases front with
      | nil =>
        have hfirst := (List.cons.inj h).1
        omega
      | cons u front =>
        obtain ⟨rfl, hrest⟩ := List.cons.inj h
        obtain ⟨before, d, after, rfl, rfl, hd, hback⟩ := ih hrest
        exact ⟨c :: before, d, after, rfl, by rw [encode_cons, unitsOf_of_basic hbasic]; rfl, hd,
          hback⟩
    · have hunits : unitsOf c = [0xd800 + (c.toNat - 0x10000) / 0x400,
          0xdc00 + (c.toNat - 0x10000) % 0x400] := if_neg hbasic
      rw [hunits, List.cons_append, List.singleton_append] at h
      match front, h with
      | [], h =>
        obtain ⟨hfirst, hrest⟩ := List.cons.inj h
        obtain ⟨hsecond, hrest⟩ := List.cons.inj hrest
        exact ⟨[], c, cs, rfl, rfl, by rw [hunits, hfirst, hsecond], hrest.symm⟩
      | [u], h =>
        obtain ⟨-, hrest⟩ := List.cons.inj h
        have hsecond := (List.cons.inj hrest).1
        omega
      | u :: v :: front, h =>
        simp only [List.cons_append, List.cons.injEq] at h
        obtain ⟨rfl, rfl, hrest⟩ := h
        obtain ⟨before, d, after, rfl, rfl, hd, hback⟩ := ih hrest
        exact ⟨c :: before, d, after, rfl, by rw [encode_cons, hunits]; rfl, hd, hback⟩

end Workbench.Lib.Utf16
