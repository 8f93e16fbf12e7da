import Workbench.Lib.Json

/-!
A JSON text as an expression of JavaScript.

It has the value it has as JSON, but for an own key `__proto__`: in an object literal that names the
prototype, so that the object made has no such key.
-/

namespace Workbench.Lib.Json

variable {ν : Type*} {num : Numerals ν}

def protoKey : String := "__proto__"

mutual

/-- The value of the text of a value, taken as an expression. -/
def literal : Json ν → Json ν
  | array vs => array (literalElements vs)
  | object ms => object (literalMembers ms)
  | null => null
  | bool b => bool b
  | number n => number n
  | string text => string text

def literalElements : List (Json ν) → List (Json ν)
  | [] => []
  | v :: vs => v.literal :: literalElements vs

def literalMembers : List (String × Json ν) → List (String × Json ν)
  | [] => []
  | (key, v) :: ms =>
    if key = protoKey then literalMembers ms else (key, v.literal) :: literalMembers ms

end

mutual

/-- No object in the value has a key `__proto__`. -/
def Plain : Json ν → Prop
  | array vs => PlainElements vs
  | object ms => PlainMembers ms
  | _ => True

def PlainElements : List (Json ν) → Prop
  | [] => True
  | v :: vs => v.Plain ∧ PlainElements vs

def PlainMembers : List (String × Json ν) → Prop
  | [] => True
  | (key, v) :: ms => (key ≠ protoKey ∧ v.Plain) ∧ PlainMembers ms

end

lemma length_literalMembers_le (ms : List (String × Json ν)) :
    (literalMembers ms).length ≤ ms.length := by
  induction ms with
  | nil => exact Nat.le_refl 0
  | cons m ms ih =>
    obtain ⟨key, v⟩ := m
    rw [literalMembers]
    split_ifs
    · exact Nat.le_succ_of_le ih
    · exact Nat.succ_le_succ ih

mutual

/-- **A value is that of its text as an expression** exactly when it has no key `__proto__`. -/
theorem literal_eq_self_iff : (v : Json ν) → (v.literal = v ↔ v.Plain)
  | null | bool _ | number _ | string _ => by simp [literal, Plain]
  | array vs => by rw [literal, Plain, array.injEq, literalElements_eq_self_iff vs]
  | object ms => by rw [literal, Plain, object.injEq, literalMembers_eq_self_iff ms]

lemma literalElements_eq_self_iff :
    (vs : List (Json ν)) → (literalElements vs = vs ↔ PlainElements vs)
  | [] => by simp [literalElements, PlainElements]
  | v :: vs => by
    rw [literalElements, PlainElements, List.cons.injEq, literal_eq_self_iff v,
      literalElements_eq_self_iff vs]

lemma literalMembers_eq_self_iff :
    (ms : List (String × Json ν)) → (literalMembers ms = ms ↔ PlainMembers ms)
  | [] => by simp [literalMembers, PlainMembers]
  | (key, v) :: ms => by
    have hv := literal_eq_self_iff v
    have hms := literalMembers_eq_self_iff ms
    rw [literalMembers, PlainMembers]
    split_ifs with hkey
    · -- the member is lost
      constructor
      · intro h
        have hlength := congrArg List.length h
        have hle := length_literalMembers_le ms
        rw [List.length_cons] at hlength
        omega
      · exact fun h => absurd hkey h.1.1
    · rw [List.cons.injEq, Prod.mk.injEq, hv, hms]
      simp [hkey]

end

mutual

/-- A value all of whose numbers are read as they are written. -/
lemma reads_of_numerals (hnum : ∀ n, num.Reads n) : (v : Json ν) → v.Reads num
  | null | bool _ | string _ => trivial
  | number n => hnum n
  | array vs => readsElements_of_numerals hnum vs
  | object ms => readsMembers_of_numerals hnum ms

lemma readsElements_of_numerals (hnum : ∀ n, num.Reads n) :
    (vs : List (Json ν)) → ReadsElements num vs
  | [] => trivial
  | v :: vs => ⟨reads_of_numerals hnum v, readsElements_of_numerals hnum vs⟩

lemma readsMembers_of_numerals (hnum : ∀ n, num.Reads n) :
    (ms : List (String × Json ν)) → ReadsMembers num ms
  | [] => trivial
  | (_, v) :: ms => ⟨reads_of_numerals hnum v, readsMembers_of_numerals hnum ms⟩

end

end Workbench.Lib.Json
