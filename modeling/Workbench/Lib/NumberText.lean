import Mathlib.Algebra.Group.Nat.Defs
import Mathlib.Algebra.Group.Int.Defs
import Mathlib.Data.List.Basic
import Mathlib.Data.Int.Basic
import Mathlib.Tactic.Lemma
import Workbench.Lib.Strip

/-!
Reading and writing integers as JavaScript does with `Number(text)` and `String(n)`.

`integerOf text` is the value of `Number(text)` when that value is an integer, and nothing
when `Number.isInteger` refuses it. Values are exact: the rounding of a numeral with more
digits than a double holds is not modelled.
-/

namespace Workbench.Lib.NumberText

/-- The characters `String.prototype.trim` removes. -/
def isTrimmed (c : Char) : Bool :=
  [0x09, 0x0a, 0x0b, 0x0c, 0x0d, 0x20, 0xa0, 0x1680, 0x2028, 0x2029, 0x202f, 0x205f, 0x3000,
    0xfeff].contains c.toNat || (0x2000 ≤ c.toNat && c.toNat ≤ 0x200a)

def trim (cs : List Char) : List Char :=
  ((cs.dropWhile isTrimmed).reverse.dropWhile isTrimmed).reverse

/-- The value of a digit in a base up to 16. -/
def digitOf (base : ℕ) (c : Char) : Option ℕ :=
  let d :=
    if c.isDigit then c.toNat - '0'.toNat
    else if 'a' ≤ c ∧ c ≤ 'f' then c.toNat - 'a'.toNat + 10
    else if 'A' ≤ c ∧ c ≤ 'F' then c.toNat - 'A'.toNat + 10
    else base
  if d < base then some d else none

/-- The value of a non-empty run of digits. -/
def digitsOf (base : ℕ) : List Char → Option ℕ
  | [] => none
  | cs => cs.foldlM (fun n c => (digitOf base c).map (base * n + ·)) 0

/-- A sign in front of a numeral; none means plus. -/
def signOf : List Char → Bool × List Char
  | '-' :: cs => (true, cs)
  | '+' :: cs => (false, cs)
  | cs => (false, cs)

/-- The exponent of a decimal numeral, what stands from its `e` on. -/
def exponentOf : List Char → Option ℤ
  | [] => some 0
  | _ :: cs =>
    let (negative, ds) := signOf cs
    (digitsOf 10 ds).map fun n => if negative then -(n : ℤ) else n

/-- `digits × 10 ^ scale`, if that is an integer. -/
def scaled (digits : ℕ) (scale : ℤ) : Option ℕ :=
  if 0 ≤ scale then some (digits * 10 ^ scale.toNat)
  else if digits % 10 ^ (-scale).toNat = 0 then some (digits / 10 ^ (-scale).toNat)
  else none

/-- An unsigned decimal numeral with an optional fraction and exponent. -/
def decimalOf (cs : List Char) : Option ℕ :=
  let isExponent := fun c => c = 'e' ∨ c = 'E'
  let mantissa := cs.takeWhile fun c => ¬ isExponent c
  let whole := mantissa.takeWhile (· ≠ '.')
  let fraction := (mantissa.dropWhile (· ≠ '.')).drop 1
  match digitsOf 10 (whole ++ fraction), exponentOf (cs.dropWhile fun c => ¬ isExponent c) with
  | some digits, some exponent => scaled digits (exponent - fraction.length)
  | _, _ => none

def signedOf (cs : List Char) : Option ℤ :=
  let (negative, ds) := signOf cs
  (decimalOf ds).map fun n => if negative then -(n : ℤ) else n

/-- The integer that `Number(text)` is, if it is one. -/
def integerOf (text : List Char) : Option ℤ :=
  match trim text with
  | [] => some 0
  | '0' :: 'x' :: cs | '0' :: 'X' :: cs => (digitsOf 16 cs).map Int.ofNat
  | '0' :: 'o' :: cs | '0' :: 'O' :: cs => (digitsOf 8 cs).map Int.ofNat
  | '0' :: 'b' :: cs | '0' :: 'B' :: cs => (digitsOf 2 cs).map Int.ofNat
  | cs => signedOf cs

/-- `String(n)` for a natural number. -/
def digits (n : ℕ) : List Char := Nat.toDigits 10 n

lemma toList_toString (n : ℕ) : (toString n).toList = digits n := by
  rw [Nat.toString_eq_ofList_toDigits, String.toList_ofList, digits]

lemma isDigit_of_mem_digits {n : ℕ} {c : Char} (h : c ∈ digits n) : c.isDigit :=
  Nat.isDigit_of_mem_toDigits (by decide) (by decide) h

lemma digits_ne_nil (n : ℕ) : digits n ≠ [] := Nat.toDigits_ne_nil

lemma not_mem_digits {n : ℕ} {c : Char} (h : c.isDigit = false) : c ∉ digits n := fun hm => by
  simp [isDigit_of_mem_digits hm] at h

lemma isDigit_bounds {c : Char} (h : c.isDigit) : 48 ≤ c.toNat ∧ c.toNat ≤ 57 := by
  simp only [Char.isDigit, Bool.and_eq_true, decide_eq_true_eq, ge_iff_le] at h
  exact ⟨h.1, h.2⟩

lemma isTrimmed_of_isDigit {c : Char} (h : c.isDigit) : isTrimmed c = false := by
  obtain ⟨h1, h2⟩ := isDigit_bounds h
  simp only [isTrimmed, Bool.or_eq_false_iff, List.contains_eq_mem, decide_eq_false_iff_not,
    List.mem_cons, List.not_mem_nil, or_false, not_or, Bool.and_eq_false_iff]
  omega

lemma isTrimmed_of_isAlpha {c : Char} (h : c.isAlpha) : isTrimmed c = false := by
  have hbounds : (65 ≤ c.toNat ∧ c.toNat ≤ 90) ∨ (97 ≤ c.toNat ∧ c.toNat ≤ 122) := by
    rcases Bool.or_eq_true_iff.mp h with hupper | hlower
    · exact .inl (decide_eq_true_iff.mp hupper)
    · obtain ⟨hle, hle'⟩ := Bool.and_eq_true_iff.mp hlower
      exact .inr ⟨decide_eq_true_iff.mp hle, decide_eq_true_iff.mp hle'⟩
  simp only [isTrimmed, Bool.or_eq_false_iff, List.contains_eq_mem, decide_eq_false_iff_not,
    List.mem_cons, List.not_mem_nil, or_false, not_or, Bool.and_eq_false_iff]
  omega

/-- A text that neither begins nor ends with white space. -/
def Bare (cs : List Char) : Prop :=
  (∀ c ∈ cs.head?, isTrimmed c = false) ∧ ∀ c ∈ cs.getLast?, isTrimmed c = false

lemma bare_of_all {cs : List Char} (h : ∀ c ∈ cs, isTrimmed c = false) : Bare cs :=
  Strip.bare_of_all h

/-- White space at the end of a text is trimmed off. -/
lemma trim_append {cs ws : List Char} (h : Bare cs) (hw : ∀ c ∈ ws, isTrimmed c) :
    trim (cs ++ ws) = cs :=
  Strip.strip_append h hw

lemma trim_eq_self {cs : List Char} (h : Bare cs) : trim cs = cs := Strip.strip_eq_self h

lemma bare_trim (cs : List Char) : Bare (trim cs) := Strip.bare_strip isTrimmed cs

/-- What is trimmed off a text stands around the rest of it. -/
lemma exists_trim (cs : List Char) : ∃ before after, cs = before ++ trim cs ++ after ∧
    (∀ c ∈ before, isTrimmed c) ∧ ∀ c ∈ after, isTrimmed c :=
  Strip.exists_strip isTrimmed cs

/-- What stands between white space and is bare itself is what is left of a text. -/
lemma trim_of_bare {before cs after : List Char} (hbefore : ∀ c ∈ before, isTrimmed c)
    (h : Bare cs) (hafter : ∀ c ∈ after, isTrimmed c) : trim (before ++ cs ++ after) = cs :=
  Strip.strip_of_bare hbefore h hafter

/-- A text is trimmed to an end of what a longer text is trimmed to, and to less than that if what
is in front of it shows something. -/
lemma exists_trim_append (m cs : List Char) : ∃ v, trim (m ++ cs) = v ++ trim cs ∧
    ((∃ c ∈ m, isTrimmed c = false) → v ≠ []) :=
  Strip.exists_strip_append isTrimmed m cs

lemma trim_trim (cs : List Char) : trim (trim cs) = trim cs := Strip.strip_strip isTrimmed cs

lemma digitOf_isDigit {c : Char} (h : c.isDigit) : digitOf 10 c = some (c.toNat - 48) := by
  obtain ⟨h1, h2⟩ := isDigit_bounds h
  have : '0'.toNat = 48 := rfl
  simp only [digitOf, h, if_true, this]
  rw [if_pos (by omega)]

lemma foldlM_digits {cs : List Char} (h : ∀ c ∈ cs, c.isDigit) (n : ℕ) :
    cs.foldlM (fun n c => (digitOf 10 c).map (10 * n + ·)) n = some (Nat.ofDigitChars 10 cs n) := by
  induction cs generalizing n with
  | nil => simp
  | cons c cs ih =>
    rw [List.foldlM_cons, digitOf_isDigit (h c (by simp)), Nat.ofDigitChars_cons]
    exact ih (fun d hd => h d (by simp [hd])) _

lemma digitsOf_digits (n : ℕ) : digitsOf 10 (digits n) = some n := by
  obtain ⟨a, l, hal⟩ := List.exists_cons_of_ne_nil (digits_ne_nil n)
  have h := @foldlM_digits (digits n) (fun c hc => isDigit_of_mem_digits hc) 0
  rw [digits, Nat.ofDigitChars_ten_toDigits, ← digits] at h
  rw [hal] at h ⊢
  exact h

lemma takeWhile_digits {p : Char → Bool} (hp : ∀ c, c.isDigit → p c) (n : ℕ) :
    (digits n).takeWhile p = digits n ∧ (digits n).dropWhile p = [] := by
  have h : ∀ c ∈ digits n, p c := fun c hc => hp c (isDigit_of_mem_digits hc)
  exact ⟨List.takeWhile_eq_self_iff.mpr h, List.dropWhile_eq_nil_iff.mpr h⟩

lemma decimalOf_digits (n : ℕ) : decimalOf (digits n) = some n := by
  have he : ∀ c : Char, c.isDigit → (decide ¬(c = 'e' ∨ c = 'E')) = true := by
    intro c hc
    have := isDigit_bounds hc
    have h1 : c ≠ 'e' := by rintro rfl; simp at this
    have h2 : c ≠ 'E' := by rintro rfl; simp at this
    simp [h1, h2]
  have hdot : ∀ c : Char, c.isDigit → (decide (c ≠ '.')) = true := by
    intro c hc
    have := isDigit_bounds hc
    have h1 : c ≠ '.' := by rintro rfl; simp at this
    simp [h1]
  simp only [decimalOf, takeWhile_digits he, takeWhile_digits hdot, List.drop_nil,
    List.append_nil, digitsOf_digits, exponentOf, List.length_nil]
  simp [scaled]

lemma signedOf_digits (n : ℕ) : signedOf (digits n) = some (n : ℤ) := by
  obtain ⟨a, l, hal⟩ := List.exists_cons_of_ne_nil (digits_ne_nil n)
  have ha : a.isDigit := isDigit_of_mem_digits (n := n) (by simp [hal])
  have hsign : signOf (digits n) = (false, digits n) := by
    rw [hal]
    unfold signOf
    split
    · rename_i h; obtain ⟨rfl, -⟩ := List.cons.inj h; simp at ha
    · rename_i h; obtain ⟨rfl, -⟩ := List.cons.inj h; simp at ha
    · rfl
  simp [signedOf, hsign, decimalOf_digits]

/-- A numeral has no zero in front. -/
lemma eq_zero_of_head_digits {n : ℕ} (h : (digits n).head? = some '0') : n = 0 := by
  induction n using Nat.strong_induction_on with
  | _ n ih =>
    by_cases hn : n < 10
    · rw [digits, Nat.toDigits_of_lt_base hn] at h
      have hall : ∀ m < 10, Nat.digitChar m = '0' → m = 0 := by decide
      exact hall n hn (by simpa using h)
    · rw [digits, Nat.toDigits_of_base_le (by omega) (not_lt.mp hn), ← digits,
        List.head?_append_of_ne_nil _ (digits_ne_nil _)] at h
      have := ih (n / 10) (by omega) h
      omega

/-- **`Number(String(n))` is `n`.** -/
theorem integerOf_digits (n : ℕ) : integerOf (digits n) = some (n : ℤ) := by
  have ht : trim (digits n) = digits n :=
    trim_eq_self (bare_of_all fun c hc => isTrimmed_of_isDigit (isDigit_of_mem_digits hc))
  have hs := signedOf_digits n
  have hx : ∀ {c : Char} {l : List Char}, digits n = '0' :: c :: l → c.isDigit := fun h =>
    isDigit_of_mem_digits (n := n) (by simp [h])
  unfold integerOf
  rw [ht]
  split
  · rename_i h; exact absurd h (digits_ne_nil n)
  all_goals first
    | exact hs
    | (rename_i h; exact absurd (hx h) (by decide))

lemma integerOf_digits_append {ws : List Char} (hw : ∀ c ∈ ws, isTrimmed c) (n : ℕ) :
    integerOf (digits n ++ ws) = some (n : ℤ) := by
  have h := integerOf_digits n
  have hd : ∀ c ∈ digits n, isTrimmed c = false := fun c hc =>
    isTrimmed_of_isDigit (isDigit_of_mem_digits hc)
  unfold integerOf at h ⊢
  rw [trim_append (bare_of_all hd) hw]
  rwa [trim_eq_self (bare_of_all hd)] at h

lemma toString_injective {m n : ℕ} (h : toString m = toString n) : m = n := by
  have : digits m = digits n := by rw [← toList_toString, ← toList_toString, h]
  have := congrArg integerOf this
  rw [integerOf_digits, integerOf_digits] at this
  exact_mod_cast Option.some.inj this

end Workbench.Lib.NumberText
