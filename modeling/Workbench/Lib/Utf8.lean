import Mathlib.Data.List.Basic
import Mathlib.Tactic.Lemma

/-!
Texts as bytes, as `TextEncoder` writes and `TextDecoder` reads them.

The decoder goes through the bytes one at a time. Bytes that are no text become replacement
characters, and a byte order mark at the start is dropped.
-/

namespace Workbench.Lib.Utf8

def encodeChar (c : Char) : List UInt8 :=
  let n := c.toNat
  if n < 0x80 then [.ofNat n]
  else if n < 0x800 then [.ofNat (0xc0 + n / 64), .ofNat (0x80 + n % 64)]
  else if n < 0x10000 then
    [.ofNat (0xe0 + n / 4096), .ofNat (0x80 + n / 64 % 64), .ofNat (0x80 + n % 64)]
  else
    [.ofNat (0xf0 + n / 262144), .ofNat (0x80 + n / 4096 % 64), .ofNat (0x80 + n / 64 % 64),
      .ofNat (0x80 + n % 64)]

def encode (text : String) : List UInt8 := text.toList.flatMap encodeChar

/-- The inside of a character: how many bytes are to come, what it is so far, and the bounds of the
next byte. -/
structure Pending where
  needed : ℕ
  point : ℕ
  lower : ℕ
  upper : ℕ

def replacement : Char := '\ufffd'

def byteOrderMark : Char := '\ufeff'

/-- The first byte of a character. -/
def lead (b : ℕ) : List Char × Option Pending :=
  if b < 0x80 then ([Char.ofNat b], none)
  else if 0xc2 ≤ b ∧ b ≤ 0xdf then ([], some ⟨1, b - 0xc0, 0x80, 0xbf⟩)
  else if 0xe0 ≤ b ∧ b ≤ 0xef then
    ([], some ⟨2, b - 0xe0, if b = 0xe0 then 0xa0 else 0x80, if b = 0xed then 0x9f else 0xbf⟩)
  else if 0xf0 ≤ b ∧ b ≤ 0xf4 then
    ([], some ⟨3, b - 0xf0, if b = 0xf0 then 0x90 else 0x80, if b = 0xf4 then 0x8f else 0xbf⟩)
  else ([replacement], none)

/-- A byte that cannot go on with the character begins the next one. -/
def next : Option Pending → ℕ → List Char × Option Pending
  | none, b => lead b
  | some p, b =>
    if p.lower ≤ b ∧ b ≤ p.upper then
      let point := p.point * 64 + (b - 0x80)
      if p.needed = 1 then ([Char.ofNat point], none)
      else ([], some ⟨p.needed - 1, point, 0x80, 0xbf⟩)
    else (replacement :: (lead b).1, (lead b).2)

def decodeFrom : Option Pending → List UInt8 → List Char
  | none, [] => []
  | some _, [] => [replacement]
  | state, b :: bs => (next state b.toNat).1 ++ decodeFrom (next state b.toNat).2 bs

def withoutMark : List Char → List Char
  | [] => []
  | c :: cs => if c = byteOrderMark then cs else c :: cs

def decode (bytes : List UInt8) : String := String.ofList (withoutMark (decodeFrom none bytes))

variable {c : Char} {rest : List UInt8} {text : String} {b n : ℕ} {p : Pending}

/-! ### Reading what was written -/

lemma decodeFrom_cons {state : Option Pending} (hb : b < 256) :
    decodeFrom state (.ofNat b :: rest) = (next state b).1 ++ decodeFrom (next state b).2 rest := by
  rw [decodeFrom, UInt8.toNat_ofNat', Nat.mod_eq_of_lt hb]

lemma next_last (hp : p.needed = 1) (hb : p.lower ≤ b ∧ b ≤ p.upper) :
    next (some p) b = ([Char.ofNat (p.point * 64 + (b - 0x80))], none) := by
  simp [next, hb, hp]

lemma next_more (hp : p.needed ≠ 1) (hb : p.lower ≤ b ∧ b ≤ p.upper) :
    next (some p) b =
      ([], some ⟨p.needed - 1, p.point * 64 + (b - 0x80), 0x80, 0xbf⟩) := by
  simp [next, hb, hp]

lemma lead_one (hb : b < 0x80) : lead b = ([Char.ofNat b], none) := by
  simp [lead, hb]

lemma lead_two (hb : 0xc2 ≤ b ∧ b ≤ 0xdf) : lead b = ([], some ⟨1, b - 0xc0, 0x80, 0xbf⟩) := by
  rw [lead, if_neg (by omega), if_pos hb]

lemma lead_three (hb : 0xe0 ≤ b ∧ b ≤ 0xef) : lead b =
    ([], some ⟨2, b - 0xe0, if b = 0xe0 then 0xa0 else 0x80, if b = 0xed then 0x9f else 0xbf⟩) := by
  rw [lead, if_neg (by omega), if_neg (by omega), if_pos hb]

lemma lead_four (hb : 0xf0 ≤ b ∧ b ≤ 0xf4) : lead b =
    ([], some ⟨3, b - 0xf0, if b = 0xf0 then 0x90 else 0x80, if b = 0xf4 then 0x8f else 0xbf⟩) := by
  rw [lead, if_neg (by omega), if_neg (by omega), if_neg (by omega), if_pos hb]

/-- A surrogate is no character. -/
lemma toNat_bounds (c : Char) : c.toNat < 0xd800 ∨ (0xdfff < c.toNat ∧ c.toNat < 0x110000) := by
  rcases c.valid with h | h
  · exact .inl h
  · exact .inr h

lemma decodeFrom_encodeChar :
    decodeFrom none (encodeChar c ++ rest) = c :: decodeFrom none rest := by
  have hc := toNat_bounds c
  have hback : ∀ n, n = c.toNat → Char.ofNat n = c := by
    rintro n rfl
    exact Char.ofNat_toNat c
  unfold encodeChar
  simp only
  split_ifs with h1 h2 h3
  · rw [List.singleton_append, decodeFrom_cons (by omega), next, lead_one h1, hback _ rfl]
    rfl
  · rw [List.cons_append, List.singleton_append, decodeFrom_cons (by omega), next,
      lead_two (by omega), List.nil_append, decodeFrom_cons (by omega),
      next_last rfl (by simp only; omega),
      hback _ (by simp only; omega)]
    rfl
  · rw [List.cons_append, List.cons_append, List.singleton_append, decodeFrom_cons (by omega), next,
      lead_three (by omega), List.nil_append, decodeFrom_cons (by omega),
      next_more (by simp) (by simp only; split_ifs <;> omega), List.nil_append,
      decodeFrom_cons (by omega), next_last rfl (by simp only; omega),
      hback _ (by simp only; omega)]
    rfl
  · rw [List.cons_append, List.cons_append, List.cons_append, List.singleton_append,
      decodeFrom_cons (by omega), next, lead_four (by omega), List.nil_append,
      decodeFrom_cons (by omega), next_more (by simp) (by simp only; split_ifs <;> omega),
      List.nil_append, decodeFrom_cons (by omega), next_more (by simp) (by simp only; omega),
      List.nil_append, decodeFrom_cons (by omega), next_last rfl (by simp only; omega),
      hback _ (by simp only; omega)]
    rfl

lemma decodeFrom_encode (cs : List Char) : decodeFrom none (cs.flatMap encodeChar) = cs := by
  induction cs with
  | nil => rfl
  | cons c cs ih => rw [List.flatMap_cons, decodeFrom_encodeChar, ih]

/-- **A text without a byte order mark in front is read as it was written.** -/
theorem decode_encode (h : ∀ c ∈ text.toList.head?, c ≠ byteOrderMark) :
    decode (encode text) = text := by
  have hmark : withoutMark text.toList = text.toList := by
    cases hcs : text.toList with
    | nil => rfl
    | cons c cs =>
      rw [withoutMark, if_neg (h c (by rw [hcs]; rfl))]
  rw [decode, encode, decodeFrom_encode, hmark, String.ofList_toList]

lemma toNat_ofNat (h : n < 0xd800) : (Char.ofNat n).toNat = n := by
  rw [Char.ofNat, dif_pos (.inl h)]
  rfl

/-- ASCII is read byte by byte. -/
lemma decodeFrom_ascii {bytes : List UInt8} (h : ∀ b ∈ bytes, b.toNat < 0x80) :
    decodeFrom none bytes = bytes.map fun b => Char.ofNat b.toNat := by
  induction bytes with
  | nil => rfl
  | cons b bytes ih =>
    obtain ⟨hb, hbytes⟩ := List.forall_mem_cons.mp h
    rw [decodeFrom, next, lead_one hb, ih hbytes]
    rfl

lemma encode_ascii {cs : List Char} (h : ∀ c ∈ cs, c.toNat < 0x80) :
    cs.flatMap encodeChar = cs.map fun c => UInt8.ofNat c.toNat := by
  induction cs with
  | nil => rfl
  | cons c cs ih =>
    obtain ⟨hc, hcs⟩ := List.forall_mem_cons.mp h
    rw [List.flatMap_cons, ih hcs, encodeChar, if_pos hc]
    rfl

end Workbench.Lib.Utf8
