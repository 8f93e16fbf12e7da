import Workbench.Lib.NumberText
import Workbench.Lib.Utf8

/-!
Percent-encoded texts, as `encodeURIComponent` writes and `decodeURIComponent` reads them.

An escape stands for a byte, and the escapes of one character stand one behind the other. Escapes
that are cut off, or are those of no character, are an error.
-/

namespace Workbench.Lib.Percent

/-! ### Writing -/

def hexDigit (n : ℕ) : Char := if n < 10 then Char.ofNat (0x30 + n) else Char.ofNat (0x37 + n)

def encodeByte (b : UInt8) : List Char := ['%', hexDigit (b.toNat / 16), hexDigit (b.toNat % 16)]

def isUnreserved (c : Char) : Bool :=
  c.isAlphanum || ['-', '_', '.', '!', '~', '*', '\'', '(', ')'].contains c

def encodeURIComponent (text : String) : String :=
  String.ofList (text.toList.flatMap fun c =>
    if isUnreserved c then [c] else (Utf8.encodeChar c).flatMap encodeByte)

/-! ### Reading -/

inductive URIError
  | malformed
  deriving DecidableEq, Repr

def byteOf (high low : Char) : Option ℕ := do
  let h ← NumberText.digitOf 16 high
  let l ← NumberText.digitOf 16 low
  return 16 * h + l

/-- How many bytes a character has that begins with this one. -/
def lengthFrom (b : ℕ) : Option ℕ :=
  if b < 0x80 then some 1
  else if b < 0xc0 then none
  else if b < 0xe0 then some 2
  else if b < 0xf0 then some 3
  else if b < 0xf8 then some 4
  else none

/-- The character that has these bytes. -/
def charOf (bytes : List UInt8) : Option Char :=
  match Utf8.decodeFrom none bytes with
  | [c] => if Utf8.encodeChar c = bytes then some c else none
  | _ => none

/-- `pending` are the bytes of a character so far, and `needed` is how many are to come. -/
def decodeFrom (pending : List UInt8) (needed : ℕ) : List Char → Option (List Char)
  | '%' :: high :: low :: rest => do
    let b ← byteOf high low
    let needed ← if pending.length = 0 then lengthFrom b else some needed
    if needed = 1 then
      let c ← charOf (pending ++ [.ofNat b])
      let cs ← decodeFrom [] 0 rest
      return c :: cs
    else decodeFrom (pending ++ [.ofNat b]) (needed - 1) rest
  | c :: rest =>
    if pending.length = 0 ∧ c ≠ '%' then (decodeFrom [] 0 rest).map (c :: ·) else none
  | [] => if pending.length = 0 then some [] else none

def decodeURIComponent (text : String) : Except URIError String :=
  match decodeFrom [] 0 text.toList with
  | some cs => .ok (String.ofList cs)
  | none => .error .malformed

variable {b : UInt8} {bytes pending : List UInt8} {rest word : List Char} {c : Char} {needed : ℕ}

/-! ### Reading what was written -/

lemma digitOf_hexDigit : ∀ n < 16, NumberText.digitOf 16 (hexDigit n) = some n := by decide

lemma byteOf_hexDigit (b : UInt8) :
    byteOf (hexDigit (b.toNat / 16)) (hexDigit (b.toNat % 16)) = some b.toNat := by
  have hb := b.toNat_lt
  rw [byteOf, digitOf_hexDigit _ (by omega), digitOf_hexDigit _ (by omega)]
  simp only [Option.bind_eq_bind, Option.bind_some, Option.pure_def, Option.some.injEq]
  omega

/-- One byte of a character, the first of which says how many there are. -/
lemma decodeFrom_byte : decodeFrom pending needed (encodeByte b ++ rest) =
    (if pending.length = 0 then lengthFrom b.toNat else some needed).bind fun needed =>
      if needed = 1 then (charOf (pending ++ [b])).bind fun c => (decodeFrom [] 0 rest).map (c :: ·)
      else decodeFrom (pending ++ [b]) (needed - 1) rest := by
  rw [encodeByte, List.cons_append, List.cons_append, List.cons_append, decodeFrom, byteOf_hexDigit]
  simp only [Option.bind_eq_bind, Option.bind_some, UInt8.ofNat_toNat, Option.pure_def,
    Option.map_eq_bind]
  cases pending <;> rfl

lemma decodeFrom_first (hneeded : lengthFrom b.toNat = some needed) :
    decodeFrom [] 0 (encodeByte b ++ rest) =
      if needed = 1 then (charOf [b]).bind fun c => (decodeFrom [] 0 rest).map (c :: ·)
      else decodeFrom [b] (needed - 1) rest := by
  rw [decodeFrom_byte, if_pos List.length_nil, hneeded, Option.bind_some, List.nil_append]

lemma decodeFrom_next (hpending : pending ≠ []) :
    decodeFrom pending needed (encodeByte b ++ rest) =
      if needed = 1 then (charOf (pending ++ [b])).bind fun c => (decodeFrom [] 0 rest).map (c :: ·)
      else decodeFrom (pending ++ [b]) (needed - 1) rest := by
  have hlength : ¬ pending.length = 0 := by simpa using hpending
  rw [decodeFrom_byte, if_neg hlength, Option.bind_some]

/-- The rest of a character is read up to its last byte. -/
lemma decodeFrom_rest (hpending : pending ≠ []) (hbytes : bytes ≠ []) :
    decodeFrom pending bytes.length (bytes.flatMap encodeByte ++ rest) =
      (charOf (pending ++ bytes)).bind fun c => (decodeFrom [] 0 rest).map (c :: ·) := by
  induction bytes generalizing pending with
  | nil => exact absurd rfl hbytes
  | cons b bytes ih =>
    rw [List.flatMap_cons, List.append_assoc, decodeFrom_next hpending]
    by_cases hlast : bytes = []
    · subst hlast
      simp
    · have hlength : ¬ (b :: bytes).length = 1 := by simpa using hlast
      rw [if_neg hlength, List.length_cons, Nat.add_sub_cancel, ih (by simp) hlast,
        List.append_assoc, List.singleton_append]

lemma lengthFrom_encodeChar (c : Char) : ∃ b bytes, Utf8.encodeChar c = b :: bytes ∧
    lengthFrom b.toNat = some (bytes.length + 1) := by
  have hc := Utf8.toNat_bounds c
  unfold Utf8.encodeChar
  simp only
  split_ifs with h1 h2 h3
  all_goals
    refine ⟨_, _, rfl, ?_⟩
    rw [lengthFrom, UInt8.toNat_ofNat']
    simp only [List.length_cons, List.length_nil]
    split_ifs <;> first | rfl | omega

lemma charOf_encodeChar (c : Char) : charOf (Utf8.encodeChar c) = some c := by
  have hread : Utf8.decodeFrom none (Utf8.encodeChar c ++ []) = c :: Utf8.decodeFrom none [] :=
    Utf8.decodeFrom_encodeChar
  rw [List.append_nil] at hread
  rw [charOf, hread]
  simp [Utf8.decodeFrom]

lemma decodeFrom_escaped : decodeFrom [] 0 ((Utf8.encodeChar c).flatMap encodeByte ++ rest) =
    (decodeFrom [] 0 rest).map (c :: ·) := by
  obtain ⟨b, bytes, hbytes, hlength⟩ := lengthFrom_encodeChar c
  have hchar := charOf_encodeChar c
  rw [hbytes] at hchar ⊢
  rw [List.flatMap_cons, List.append_assoc, decodeFrom_first hlength]
  by_cases hlast : bytes = []
  · subst hlast
    simp [hchar]
  · have hmore : ¬ bytes.length + 1 = 1 := by simpa using hlast
    rw [if_neg hmore, Nat.add_sub_cancel, decodeFrom_rest (by simp) hlast, List.singleton_append,
      hchar, Option.bind_some]

lemma decodeFrom_plain (h : c ≠ '%') :
    decodeFrom [] 0 (c :: rest) = (decodeFrom [] 0 rest).map (c :: ·) := by
  rw [decodeFrom.eq_def]
  split
  · next heq =>
    exact absurd (List.cons.inj heq).1 h
  · next heq =>
    obtain ⟨rfl, rfl⟩ := List.cons.inj heq
    simp [h]
  · next heq => cases heq

lemma decodeFrom_written (cs rest : List Char) : decodeFrom [] 0 (cs.flatMap (fun c =>
    if isUnreserved c then [c] else (Utf8.encodeChar c).flatMap encodeByte) ++ rest) =
      (decodeFrom [] 0 rest).map (cs ++ ·) := by
  induction cs with
  | nil => simp
  | cons c cs ih =>
    rw [List.flatMap_cons, List.append_assoc]
    by_cases hc : isUnreserved c
    · have hpercent : c ≠ '%' := by
        rintro rfl
        exact absurd hc (by decide)
      rw [if_pos hc, List.singleton_append, decodeFrom_plain hpercent, ih, Option.map_map]
      rfl
    · rw [if_neg hc, decodeFrom_escaped, ih, Option.map_map]
      rfl

/-- **`decodeURIComponent` gives back what `encodeURIComponent` was given.** -/
theorem decodeURIComponent_encodeURIComponent (text : String) :
    decodeURIComponent (encodeURIComponent text) = .ok text := by
  have hread := decodeFrom_written text.toList []
  rw [List.append_nil] at hread
  rw [decodeURIComponent, encodeURIComponent, String.toList_ofList, hread]
  simp [decodeFrom]

/-! ### What is written -/

lemma toList_encodeURIComponent (text : String) : (encodeURIComponent text).toList =
    text.toList.flatMap fun c =>
      if isUnreserved c then [c] else (Utf8.encodeChar c).flatMap encodeByte :=
  String.toList_ofList

lemma encodeURIComponent_ne_empty {text : String} (h : text ≠ "") :
    encodeURIComponent text ≠ "" := by
  intro hempty
  have hback := decodeURIComponent_encodeURIComponent text
  rw [hempty] at hback
  exact h (Except.ok.inj hback).symm

lemma hexDigit_ne_slash : ∀ n < 16, hexDigit n ≠ '/' := by decide

lemma slash_not_mem_encodeURIComponent (text : String) :
    '/' ∉ (encodeURIComponent text).toList := by
  rw [toList_encodeURIComponent]
  intro hmem
  obtain ⟨c, -, hc⟩ := List.mem_flatMap.mp hmem
  split at hc
  · next hunreserved =>
    obtain rfl := List.mem_singleton.mp hc
    exact absurd hunreserved (by decide)
  · obtain ⟨b, -, hb⟩ := List.mem_flatMap.mp hc
    have hlt := b.toNat_lt
    simp only [encodeByte, List.mem_cons, List.not_mem_nil, or_false] at hb
    rcases hb with hb | hb | hb
    · exact absurd hb (by decide)
    · exact hexDigit_ne_slash _ (by omega) hb.symm
    · exact hexDigit_ne_slash _ (by omega) hb.symm

/-- A text of unreserved characters begins what is written exactly when it begins the text. -/
lemma prefix_encodeURIComponent (text : String) (hword : ∀ c ∈ word, isUnreserved c) :
    word <+: (encodeURIComponent text).toList ↔ word <+: text.toList := by
  rw [toList_encodeURIComponent]
  generalize text.toList = cs
  induction word generalizing cs with
  | nil => simp
  | cons d word ih =>
    obtain ⟨hd, hword⟩ := List.forall_mem_cons.mp hword
    cases cs with
    | nil => simp
    | cons c cs =>
      rw [List.flatMap_cons]
      by_cases hc : isUnreserved c
      · rw [if_pos hc, List.singleton_append, List.cons_prefix_cons, List.cons_prefix_cons,
          ih hword]
      · -- an escape begins with a sign that is reserved itself
        obtain ⟨b, bytes, hbytes, -⟩ := lengthFrom_encodeChar c
        rw [if_neg hc, hbytes, List.flatMap_cons, encodeByte, List.cons_append, List.cons_append,
          List.cons_prefix_cons, List.cons_prefix_cons]
        constructor
        · rintro ⟨rfl, -⟩
          exact absurd hd (by decide)
        · rintro ⟨rfl, -⟩
          exact absurd hd hc

end Workbench.Lib.Percent
