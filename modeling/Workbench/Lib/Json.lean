import Workbench.Lib.NumberText

/-!
JSON as `JSON.stringify` writes it, on one line or indented, and `JSON.parse` reads it.

How a number is written and which number a numeral is are parameters: a user of the library
says what its numbers are and shows that those it writes are read back. A string is a list of
characters; an escape of half a surrogate pair, which no such string holds, is read as U+FFFD.
-/

namespace Workbench.Lib

/-- A value; an object has its members in the order of the text, with every key that stands
there. -/
inductive Json (ν : Type*)
  | null
  | bool (value : Bool)
  | number (value : ν)
  | string (value : String)
  | array (elements : List (Json ν))
  | object (members : List (String × Json ν))

/-- How the numbers of a value are written and read. -/
structure Numerals (ν : Type*) where
  write : ν → List Char
  read : List Char → ν

namespace Json

open NumberText

variable {ν : Type*}

/-- The member of an object with a key; of several the last counts. -/
def member (key : String) : Json ν → Option (Json ν)
  | object members => (members.reverse.find? (·.1 = key)).map Prod.snd
  | _ => none

/-! ### Writing -/

def hexDigit (n : ℕ) : Char := Nat.digitChar n

/-- A character in a string literal. -/
def quoteChar (c : Char) : List Char :=
  if c = '"' then ['\\', '"']
  else if c = '\\' then ['\\', '\\']
  else if c.toNat = 8 then ['\\', 'b']
  else if c.toNat = 9 then ['\\', 't']
  else if c.toNat = 10 then ['\\', 'n']
  else if c.toNat = 12 then ['\\', 'f']
  else if c.toNat = 13 then ['\\', 'r']
  else if c.toNat < 32 then
    ['\\', 'u', '0', '0', hexDigit (c.toNat / 16), hexDigit (c.toNat % 16)]
  else [c]

def quote (text : String) : List Char := '"' :: (text.toList.flatMap quoteChar ++ ['"'])

def newline (indent : ℕ) : List Char := '\n' :: List.replicate indent ' '

section

variable (num : Numerals ν)

mutual

def write (indent : ℕ) : Json ν → List Char
  | null => ['n', 'u', 'l', 'l']
  | bool true => ['t', 'r', 'u', 'e']
  | bool false => ['f', 'a', 'l', 's', 'e']
  | number value => num.write value
  | string value => quote value
  | array [] => ['[', ']']
  | array (v :: vs) => '[' :: (newline (indent + 2) ++ (write (indent + 2) v ++
      (writeElements (indent + 2) vs ++ (newline indent ++ [']']))))
  | object [] => ['{', '}']
  | object ((key, v) :: ms) => '{' :: (newline (indent + 2) ++ (quote key ++ (':' :: ' ' ::
      (write (indent + 2) v ++ (writeMembers (indent + 2) ms ++ (newline indent ++ ['}']))))))

def writeElements (indent : ℕ) : List (Json ν) → List Char
  | [] => []
  | v :: vs => ',' :: (newline indent ++ (write indent v ++ writeElements indent vs))

def writeMembers (indent : ℕ) : List (String × Json ν) → List Char
  | [] => []
  | (key, v) :: ms => ',' :: (newline indent ++ (quote key ++ (':' :: ' ' ::
      (write indent v ++ writeMembers indent ms))))

end

def isWhitespace (c : Char) : Bool := c = ' ' || c = '\t' || c = '\n' || c = '\r'

/-- The white space between the tokens: where a line can end, and behind a colon. -/
structure Layout where
  gap : ℕ → List Char
  colon : List Char
  gap_blank : ∀ indent, ∀ c ∈ gap indent, isWhitespace c
  colon_blank : ∀ c ∈ colon, isWhitespace c

/-- `JSON.stringify(value, null, 2)` -/
def indented : Layout where
  gap := newline
  colon := [' ']
  gap_blank indent c hc := by
    rcases List.mem_cons.mp hc with rfl | hc
    · rfl
    · obtain rfl := List.eq_of_mem_replicate hc
      rfl
  colon_blank c hc := by
    obtain rfl := List.mem_singleton.mp hc
    rfl

/-- `JSON.stringify(value)` -/
def compact : Layout where
  gap _ := []
  colon := []
  gap_blank _ _ hc := absurd hc List.not_mem_nil
  colon_blank _ hc := absurd hc List.not_mem_nil

section

variable (layout : Layout)

mutual

def layOut (indent : ℕ) : Json ν → List Char
  | null => ['n', 'u', 'l', 'l']
  | bool true => ['t', 'r', 'u', 'e']
  | bool false => ['f', 'a', 'l', 's', 'e']
  | number value => num.write value
  | string value => quote value
  | array [] => ['[', ']']
  | array (v :: vs) => '[' :: (layout.gap (indent + 2) ++ (layOut (indent + 2) v ++
      (layOutElements (indent + 2) vs ++ (layout.gap indent ++ [']']))))
  | object [] => ['{', '}']
  | object ((key, v) :: ms) => '{' :: (layout.gap (indent + 2) ++ (quote key ++ (':' ::
      (layout.colon ++ (layOut (indent + 2) v ++ (layOutMembers (indent + 2) ms ++
        (layout.gap indent ++ ['}'])))))))

def layOutElements (indent : ℕ) : List (Json ν) → List Char
  | [] => []
  | v :: vs => ',' :: (layout.gap indent ++ (layOut indent v ++ layOutElements indent vs))

def layOutMembers (indent : ℕ) : List (String × Json ν) → List Char
  | [] => []
  | (key, v) :: ms => ',' :: (layout.gap indent ++ (quote key ++ (':' ::
      (layout.colon ++ (layOut indent v ++ layOutMembers indent ms)))))

end

end

def stringify (v : Json ν) : List Char := layOut num compact 0 v

/-- The text of an object stands between its braces. -/
lemma stringify_object (ms : List (String × Json ν)) :
    ∃ body, stringify num (object ms) = '{' :: (body ++ ['}']) := by
  cases ms with
  | nil => exact ⟨[], rfl⟩
  | cons m ms =>
    obtain ⟨key, v⟩ := m
    refine ⟨compact.gap 2 ++ (quote key ++ (':' :: (compact.colon ++ (layOut num compact 2 v ++
      (layOutMembers num compact 2 ms ++ compact.gap 0))))), ?_⟩
    simp only [stringify, layOut, List.append_assoc, List.cons_append]

mutual

lemma write_eq_layOut (indent : ℕ) : (v : Json ν) →
    write num indent v = layOut num indented indent v
  | null | bool true | bool false | number _ | string _ | array [] | object [] => rfl
  | array (v :: vs) => by
    rw [write, layOut, write_eq_layOut _ v, writeElements_eq_layOut _ vs]
    rfl
  | object ((key, v) :: ms) => by
    rw [write, layOut, write_eq_layOut _ v, writeMembers_eq_layOut _ ms]
    rfl

lemma writeElements_eq_layOut (indent : ℕ) : (vs : List (Json ν)) →
    writeElements num indent vs = layOutElements num indented indent vs
  | [] => rfl
  | v :: vs => by
    rw [writeElements, layOutElements, write_eq_layOut _ v, writeElements_eq_layOut _ vs]
    rfl

lemma writeMembers_eq_layOut (indent : ℕ) : (ms : List (String × Json ν)) →
    writeMembers num indent ms = layOutMembers num indented indent ms
  | [] => rfl
  | (key, v) :: ms => by
    rw [writeMembers, layOutMembers, write_eq_layOut _ v, writeMembers_eq_layOut _ ms]
    rfl

end

end

/-! ### Reading -/

def skip (cs : List Char) : List Char := cs.dropWhile isWhitespace

def unescape (c : Char) : Option ℕ :=
  match c with
  | '"' => some 34
  | '\\' => some 92
  | '/' => some 47
  | 'b' => some 8
  | 'f' => some 12
  | 'n' => some 10
  | 'r' => some 13
  | 't' => some 9
  | _ => none

/-- One code unit more in front of what was read. -/
def before (unit : ℕ) (read : List ℕ × List Char) : List ℕ × List Char :=
  (unit :: read.1, read.2)

/-- The rest of a string literal: its code units, a character being one whole. -/
def stringBody : List Char → Option (List ℕ × List Char)
  | [] => none
  | '"' :: cs => some ([], cs)
  | '\\' :: 'u' :: c₁ :: c₂ :: c₃ :: c₄ :: cs =>
    (digitsOf 16 [c₁, c₂, c₃, c₄]).bind fun unit => (stringBody cs).map (before unit)
  | '\\' :: c :: cs => (unescape c).bind fun unit => (stringBody cs).map (before unit)
  | c :: cs => if c.toNat < 32 then none else (stringBody cs).map (before c.toNat)

def isHigh (unit : ℕ) : Bool := 0xd800 ≤ unit && unit < 0xdc00
def isLow (unit : ℕ) : Bool := 0xdc00 ≤ unit && unit < 0xe000

def charOf (unit : ℕ) : Char := if unit.isValidChar then Char.ofNat unit else '\ufffd'

/-- The characters of code units: a high surrogate goes with the low one behind it. -/
def decode : List ℕ → List Char
  | [] => []
  | [unit] => [charOf unit]
  | unit :: unit' :: units =>
    if isHigh unit && isLow unit' then
      Char.ofNat (0x10000 + (unit - 0xd800) * 0x400 + (unit' - 0xdc00)) :: decode units
    else charOf unit :: decode (unit' :: units)

def stringOf (units : List ℕ) : String := String.ofList (decode units)

/-- The digits a numeral goes on with, if there are some. -/
def someDigits (cs : List Char) : Option (List Char) :=
  if cs.takeWhile Char.isDigit = [] then none else some (cs.dropWhile Char.isDigit)

def wholePart : List Char → Option (List Char)
  | '0' :: cs => some cs
  | cs => someDigits cs

def fractionPart : List Char → Option (List Char)
  | '.' :: cs => someDigits cs
  | cs => some cs

def exponentPart : List Char → Option (List Char)
  | c :: cs =>
    if c = 'e' || c = 'E' then
      match cs with
      | '+' :: cs | '-' :: cs => someDigits cs
      | cs => someDigits cs
    else some (c :: cs)
  | [] => some []

def unsigned : List Char → List Char
  | '-' :: cs => cs
  | cs => cs

def isNumeral (cs : List Char) : Bool :=
  (((wholePart (unsigned cs)).bind fractionPart).bind exponentPart) = some []

def isNumeralChar (c : Char) : Bool :=
  c.isDigit || c = '+' || c = '-' || c = '.' || c = 'e' || c = 'E'

section

variable (num : Numerals ν)

def number? (cs : List Char) : Option (Json ν × List Char) :=
  let numeral := cs.takeWhile isNumeralChar
  if isNumeral numeral then some (number (num.read numeral), cs.dropWhile isNumeralChar) else none

mutual

/-- A value at the front of the text; each nesting takes two units of fuel. -/
def value : ℕ → List Char → Option (Json ν × List Char)
  | 0, _ => none
  | fuel + 1, cs =>
    match skip cs with
    | 'n' :: 'u' :: 'l' :: 'l' :: cs => some (null, cs)
    | 't' :: 'r' :: 'u' :: 'e' :: cs => some (bool true, cs)
    | 'f' :: 'a' :: 'l' :: 's' :: 'e' :: cs => some (bool false, cs)
    | '"' :: cs => (stringBody cs).map fun (units, cs) => (string (stringOf units), cs)
    | '[' :: cs =>
      match skip cs with
      | ']' :: cs => some (array [], cs)
      | cs => (elements fuel cs).map fun (vs, cs) => (array vs, cs)
    | '{' :: cs =>
      match skip cs with
      | '}' :: cs => some (object [], cs)
      | cs => (members fuel cs).map fun (ms, cs) => (object ms, cs)
    | cs => number? num cs

def elements : ℕ → List Char → Option (List (Json ν) × List Char)
  | 0, _ => none
  | fuel + 1, cs =>
    match value fuel cs with
    | none => none
    | some (v, cs) =>
      match skip cs with
      | ',' :: cs => (elements fuel cs).map fun (vs, cs) => (v :: vs, cs)
      | ']' :: cs => some ([v], cs)
      | _ => none

def members : ℕ → List Char → Option (List (String × Json ν) × List Char)
  | 0, _ => none
  | fuel + 1, cs =>
    match skip cs with
    | '"' :: cs =>
      match stringBody cs with
      | none => none
      | some (units, cs) =>
        match skip cs with
        | ':' :: cs =>
          match value fuel cs with
          | none => none
          | some (v, cs) =>
            match skip cs with
            | ',' :: cs => (members fuel cs).map fun (ms, cs) => ((stringOf units, v) :: ms, cs)
            | '}' :: cs => some ([(stringOf units, v)], cs)
            | _ => none
        | _ => none
    | _ => none

end

/-- `JSON.parse`; none for a text that is no JSON. -/
def parse (text : List Char) : Option (Json ν) :=
  match value num (2 * text.length + 1) text with
  | some (v, rest) => if skip rest = [] then some v else none
  | none => none

end

/-! ### Strings are read as they were written -/

lemma digitsOf_hexDigit : ∀ n < 32,
    digitsOf 16 ['0', '0', hexDigit (n / 16), hexDigit (n % 16)] = some n := by
  decide

lemma stringBody_escape {e : Char} {unit : ℕ} (he : e ≠ 'u') (hu : unescape e = some unit)
    (cs : List Char) : stringBody ('\\' :: e :: cs) = (stringBody cs).map (before unit) := by
  rw [stringBody, hu, Option.bind_some]
  rintro c₁ c₂ c₃ c₄ cs' rfl
  exact absurd rfl he

lemma stringBody_plain {c : Char} (hq : c ≠ '"') (hb : c ≠ '\\') (hc : ¬ c.toNat < 32)
    (cs : List Char) : stringBody (c :: cs) = (stringBody cs).map (before c.toNat) := by
  rw [stringBody, if_neg hc]
  · exact hq
  · exact fun _ _ _ _ _ h _ => hb h
  · exact fun _ _ h _ => hb h

lemma stringBody_quoteChar (c : Char) (cs : List Char) :
    stringBody (quoteChar c ++ cs) = (stringBody cs).map (before c.toNat) := by
  unfold quoteChar
  split_ifs with h1 h2 h3 h4 h5 h6 h7 h8
  · subst h1; exact stringBody_escape (by decide) rfl cs
  · subst h2; exact stringBody_escape (by decide) rfl cs
  · rw [h3]; exact stringBody_escape (by decide) rfl cs
  · rw [h4]; exact stringBody_escape (by decide) rfl cs
  · rw [h5]; exact stringBody_escape (by decide) rfl cs
  · rw [h6]; exact stringBody_escape (by decide) rfl cs
  · rw [h7]; exact stringBody_escape (by decide) rfl cs
  · simp only [List.cons_append, List.nil_append, stringBody, digitsOf_hexDigit _ h8,
      Option.bind_some]
  · exact stringBody_plain h1 h2 h8 cs

/-- The characters of a string literal are those it was written from. -/
lemma stringBody_quote (text rest : List Char) :
    stringBody (text.flatMap quoteChar ++ '"' :: rest) = some (text.map Char.toNat, rest) := by
  induction text with
  | nil => rfl
  | cons c text ih =>
    rw [List.flatMap_cons, List.append_assoc, stringBody_quoteChar, ih]
    rfl

lemma decode_toNat (text : List Char) : decode (text.map Char.toNat) = text := by
  have whole : ∀ c : Char, charOf c.toNat = c := by
    intro c
    rw [charOf, if_pos (by exact c.valid), Char.ofNat_toNat]
  have high : ∀ c : Char, isHigh c.toNat = false := by
    intro c
    have := c.valid
    simp only [UInt32.isValidChar, Nat.isValidChar] at this
    simp only [isHigh, Bool.and_eq_false_iff, decide_eq_false_iff_not]
    change ¬ 55296 ≤ c.val.toNat ∨ ¬ c.val.toNat < 56320
    omega
  induction text with
  | nil => rfl
  | cons c text ih =>
    cases text with
    | nil => simp [decode, whole]
    | cons c' text =>
      rw [List.map_cons, List.map_cons] at *
      rw [decode, high]
      simp [whole, ih]

lemma stringOf_toNat (text : String) : stringOf (text.toList.map Char.toNat) = text := by
  rw [stringOf, decode_toNat, String.ofList_toList]

/-! ### Values are read as they were written -/

end Json

/-- A number whose numeral is one of JSON, and is read as the number. -/
structure Numerals.Reads {ν : Type*} (num : Numerals ν) (n : ν) : Prop where
  numeral : Json.isNumeral (num.write n)
  chars : ∀ c ∈ num.write n, Json.isNumeralChar c
  read : num.read (num.write n) = n

namespace Json

open NumberText

variable {ν : Type*} (num : Numerals ν)

mutual

/-- Every number of a value is read as it was written. -/
def Reads : Json ν → Prop
  | number n => num.Reads n
  | array vs => ReadsElements vs
  | object ms => ReadsMembers ms
  | _ => True

def ReadsElements : List (Json ν) → Prop
  | [] => True
  | v :: vs => v.Reads ∧ ReadsElements vs

def ReadsMembers : List (String × Json ν) → Prop
  | [] => True
  | (_, v) :: ms => v.Reads ∧ ReadsMembers ms

end

variable {num} {layout : Layout} {v : Json ν} {vs : List (Json ν)} {ms : List (String × Json ν)}
  {cs rest : List Char} {indent : ℕ}

lemma skip_cons {c : Char} (h : isWhitespace c = false) : skip (c :: cs) = c :: cs := by
  simp [skip, h]

lemma skip_blank {ws : List Char} (h : ∀ c ∈ ws, isWhitespace c) : skip (ws ++ cs) = skip cs :=
  List.dropWhile_append_of_pos h

lemma skip_gap : skip (layout.gap indent ++ cs) = skip cs := skip_blank (layout.gap_blank indent)

lemma skip_colon : skip (layout.colon ++ cs) = skip cs := skip_blank layout.colon_blank

/-- What stands behind a value does not go on with a numeral. -/
def Ends (rest : List Char) : Prop := ∀ c ∈ rest.head?, isNumeralChar c = false

lemma isNumeralChar_plain {c : Char} (h : isNumeralChar c) :
    isWhitespace c = false ∧ c ∉ ['n', 't', 'f', '"', '[', '{', ']', '}'] := by
  constructor
  · by_contra hw
    simp only [isWhitespace, Bool.not_eq_false, Bool.or_eq_true, decide_eq_true_eq] at hw
    rcases hw with ((rfl | rfl) | rfl) | rfl <;> simp [isNumeralChar] at h
  · intro hm
    simp only [List.mem_cons, List.not_mem_nil, or_false] at hm
    rcases hm with rfl | rfl | rfl | rfl | rfl | rfl | rfl | rfl <;> simp [isNumeralChar] at h

lemma number_cons {n : ν} (h : num.Reads n) :
    ∃ c cs, num.write n = c :: cs ∧ isNumeralChar c := by
  cases hw : num.write n with
  | nil =>
    have := h.numeral
    rw [hw] at this
    simp [isNumeral, unsigned, wholePart, someDigits] at this
  | cons c cs => exact ⟨c, cs, rfl, h.chars c (by simp [hw])⟩

/-- A value starts with a character of its own. -/
lemma layOut_cons (layout : Layout) (indent : ℕ) (h : v.Reads num) : ∃ c cs,
    layOut num layout indent v = c :: cs ∧ isWhitespace c = false ∧ c ≠ ']' := by
  cases v with
  | null => exact ⟨_, _, rfl, rfl, by decide⟩
  | bool b => cases b <;> exact ⟨_, _, rfl, rfl, by decide⟩
  | number n =>
    obtain ⟨c, cs, hw, hc⟩ := number_cons h
    obtain ⟨h1, h2⟩ := isNumeralChar_plain hc
    exact ⟨c, cs, hw, h1, by rintro rfl; simp at h2⟩
  | string text => exact ⟨_, _, rfl, rfl, by decide⟩
  | array vs => cases vs <;> exact ⟨_, _, rfl, rfl, by decide⟩
  | object ms => rcases ms with _ | ⟨⟨key, v⟩, ms⟩ <;> exact ⟨_, _, rfl, rfl, by decide⟩

lemma skip_layOut (h : v.Reads num) :
    skip (layOut num layout indent v ++ rest) = layOut num layout indent v ++ rest := by
  obtain ⟨c, cs, hw, hc, -⟩ := layOut_cons layout indent h
  rw [hw, List.cons_append, skip_cons hc]

lemma skip_quote {key : String} : skip (quote key ++ cs) = quote key ++ cs := skip_cons rfl

lemma number?_write {n : ν} (h : num.Reads n) (hr : Ends rest) :
    number? num (num.write n ++ rest) = some (number n, rest) := by
  have htake : (num.write n ++ rest).takeWhile isNumeralChar = num.write n := by
    rw [List.takeWhile_append_of_pos h.chars]
    cases rest with
    | nil => simp
    | cons c rest => simp [hr c (by simp)]
  have hdrop : (num.write n ++ rest).dropWhile isNumeralChar = rest := by
    rw [List.dropWhile_append_of_pos h.chars]
    cases rest with
    | nil => simp
    | cons c rest => simp [hr c (by simp)]
  simp [number?, htake, hdrop, h.numeral, h.read]

lemma ends_cons {c : Char} (h : isNumeralChar c = false) : Ends (c :: cs) := by
  intro d hd
  obtain rfl : c = d := by simpa using hd
  exact h

lemma ends_gap {c : Char} (h : isNumeralChar c = false) : Ends (layout.gap indent ++ c :: cs) := by
  cases hgap : layout.gap indent with
  | nil => exact ends_cons h
  | cons d ds =>
    refine ends_cons ?_
    by_contra hd
    have hblank := layout.gap_blank indent d (by simp [hgap])
    simp [(isNumeralChar_plain (by simpa using hd)).1] at hblank

/-- What the three readers do with enough fuel. -/
structure ReadsBack (num : Numerals ν) (layout : Layout) (fuel : ℕ) : Prop where
  value : ∀ {v : Json ν} {indent : ℕ} {cs rest : List Char}, v.Reads num →
    skip cs = layOut num layout indent v ++ rest →
    2 * (layOut num layout indent v).length + 1 ≤ fuel →
      Ends rest → value num fuel cs = some (v, rest)
  elements : ∀ {v : Json ν} {vs : List (Json ν)} {indent outer : ℕ} {cs rest : List Char},
    v.Reads num → ReadsElements num vs →
    skip cs = layOut num layout indent v ++ (layOutElements num layout indent vs ++
      (layout.gap outer ++ ']' :: rest)) →
    2 * ((layOut num layout indent v).length + (layOutElements num layout indent vs).length) + 2
      ≤ fuel →
      elements num fuel cs = some (v :: vs, rest)
  members : ∀ {key : String} {v : Json ν} {ms : List (String × Json ν)} {indent outer : ℕ}
    {cs rest : List Char}, v.Reads num → ReadsMembers num ms →
    skip cs = quote key ++ (':' :: (layout.colon ++ (layOut num layout indent v ++
      (layOutMembers num layout indent ms ++ (layout.gap outer ++ '}' :: rest))))) →
    2 * ((layOut num layout indent v).length + (layOutMembers num layout indent ms).length) + 2
      ≤ fuel →
      members num fuel cs = some ((key, v) :: ms, rest)

lemma readsBack_elements {fuel : ℕ} (ih : ReadsBack num layout fuel) {outer : ℕ}
    (hv : v.Reads num) (hvs : ReadsElements num vs)
    (hcs : skip cs = layOut num layout indent v ++ (layOutElements num layout indent vs ++
      (layout.gap outer ++ ']' :: rest)))
    (hf : 2 * ((layOut num layout indent v).length + (layOutElements num layout indent vs).length)
      + 2 ≤ fuel + 1) :
    elements num (fuel + 1) cs = some (v :: vs, rest) := by
  have hlen : 0 < (layOut num layout indent v).length := by
    obtain ⟨c, l, hw, -⟩ := layOut_cons layout indent hv
    simp [hw]
  cases vs with
  | nil =>
    have hread := ih.value hv hcs (by omega) (ends_gap rfl)
    rw [elements, hread]
    simp [layOutElements, skip_gap, skip_cons (show isWhitespace ']' = false from rfl)]
  | cons v' vs =>
    obtain ⟨hv', hvs⟩ := hvs
    have hread := ih.value hv hcs (by omega) (ends_cons rfl)
    rw [elements, hread]
    simp only [layOutElements, List.cons_append, List.append_assoc,
      skip_cons (show isWhitespace ',' = false from rfl)]
    simp only [layOutElements, List.length_cons, List.length_append] at hf
    have hrest : elements num fuel (layout.gap indent ++ (layOut num layout indent v' ++
        (layOutElements num layout indent vs ++ (layout.gap outer ++ ']' :: rest)))) =
        some (v' :: vs, rest) :=
      ih.elements hv' hvs (by rw [skip_gap, skip_layOut hv']) (by omega)
    rw [hrest]
    rfl

lemma readsBack_members {fuel : ℕ} (ih : ReadsBack num layout fuel) {outer : ℕ} {key : String}
    (hv : v.Reads num) (hms : ReadsMembers num ms)
    (hcs : skip cs = quote key ++ (':' :: (layout.colon ++ (layOut num layout indent v ++
      (layOutMembers num layout indent ms ++ (layout.gap outer ++ '}' :: rest))))))
    (hf : 2 * ((layOut num layout indent v).length + (layOutMembers num layout indent ms).length)
      + 2 ≤ fuel + 1) :
    members num (fuel + 1) cs = some ((key, v) :: ms, rest) := by
  have hlen : 0 < (layOut num layout indent v).length := by
    obtain ⟨c, l, hw, -⟩ := layOut_cons layout indent hv
    simp [hw]
  have hspace : skip (layout.colon ++ (layOut num layout indent v ++
      (layOutMembers num layout indent ms ++ (layout.gap outer ++ '}' :: rest)))) =
      layOut num layout indent v ++
        (layOutMembers num layout indent ms ++ (layout.gap outer ++ '}' :: rest)) := by
    rw [skip_colon, skip_layOut hv]
  have hquote : skip cs = '"' :: (key.toList.flatMap quoteChar ++ '"' :: (':' ::
      (layout.colon ++ (layOut num layout indent v ++
        (layOutMembers num layout indent ms ++ (layout.gap outer ++ '}' :: rest)))))) := by
    rw [hcs, quote]
    simp
  rw [members, hquote]
  simp only [stringBody_quote, skip_cons (show isWhitespace ':' = false from rfl)]
  cases ms with
  | nil =>
    rw [ih.value hv hspace (by omega) (ends_gap rfl)]
    simp [layOutMembers, skip_gap, skip_cons (show isWhitespace '}' = false from rfl),
      stringOf_toNat]
  | cons m ms =>
    obtain ⟨key', v'⟩ := m
    obtain ⟨hv', hms⟩ := hms
    rw [ih.value hv hspace (by omega) (ends_cons rfl)]
    simp only [layOutMembers, List.cons_append, List.append_assoc,
      skip_cons (show isWhitespace ',' = false from rfl)]
    simp only [layOutMembers, List.length_cons, List.length_append] at hf
    have hrest : members num fuel (layout.gap indent ++ (quote key' ++ (':' :: (layout.colon ++
        (layOut num layout indent v' ++ (layOutMembers num layout indent ms ++
          (layout.gap outer ++ '}' :: rest))))))) = some ((key', v') :: ms, rest) :=
      ih.members hv' hms (by rw [skip_gap, skip_quote]) (by omega)
    rw [hrest, stringOf_toNat]
    rfl

lemma readsBack_value {fuel : ℕ} (ih : ReadsBack num layout fuel) (hv : v.Reads num)
    (hcs : skip cs = layOut num layout indent v ++ rest)
    (hf : 2 * (layOut num layout indent v).length + 1 ≤ fuel + 1) (hr : Ends rest) :
    value num (fuel + 1) cs = some (v, rest) := by
  cases v with
  | null => rw [value, hcs]; rfl
  | bool b => cases b <;> · rw [value, hcs]; rfl
  | number n =>
    obtain ⟨c, l, hw, hc⟩ := number_cons hv
    obtain ⟨-, hc⟩ := isNumeralChar_plain hc
    simp only [List.mem_cons, List.not_mem_nil, or_false, not_or] at hc
    have hn : number? num (num.write n ++ rest) = some (number n, rest) := number?_write hv hr
    rw [value, hcs, layOut, ← hn, hw]
    split <;> simp_all
  | string text =>
    have hquote : skip cs = '"' :: (text.toList.flatMap quoteChar ++ '"' :: rest) := by
      rw [hcs, layOut, quote]
      simp
    rw [value, hquote]
    simp [stringBody_quote, stringOf_toNat]
  | array vs =>
    cases vs with
    | nil =>
      rw [value, hcs]
      simp [layOut, skip_cons (show isWhitespace ']' = false from rfl)]
    | cons v vs =>
      obtain ⟨hv, hvs⟩ := hv
      obtain ⟨c, l, hw, hc, hne⟩ := layOut_cons layout (indent + 2) hv
      simp only [layOut, List.length_cons, List.length_append] at hf
      rw [value, hcs, layOut]
      simp only [List.cons_append, List.append_assoc, skip_gap]
      rw [skip_layOut hv]
      have hread : elements num fuel (layOut num layout (indent + 2) v ++
          (layOutElements num layout (indent + 2) vs ++ (layout.gap indent ++ ']' :: rest))) =
          some (v :: vs, rest) :=
        ih.elements hv hvs (skip_layOut hv) (by omega)
      simp only [List.nil_append, hw, List.cons_append] at hread ⊢
      split
      · simp_all
      · rw [hread]
        rfl
  | object ms =>
    cases ms with
    | nil =>
      rw [value, hcs]
      simp [layOut, skip_cons (show isWhitespace '}' = false from rfl)]
    | cons m ms =>
      obtain ⟨key, v⟩ := m
      obtain ⟨hv, hms⟩ := hv
      simp only [layOut, List.length_cons, List.length_append] at hf
      rw [value, hcs, layOut]
      simp only [List.cons_append, List.append_assoc, skip_gap]
      have hread : members num fuel (quote key ++ (':' :: (layout.colon ++
          (layOut num layout (indent + 2) v ++ (layOutMembers num layout (indent + 2) ms ++
            (layout.gap indent ++ '}' :: rest)))))) = some ((key, v) :: ms, rest) :=
        ih.members hv hms skip_quote (by omega)
      rw [skip_quote]
      simp only [List.nil_append]
      rw [quote] at hread ⊢
      simp only [List.cons_append] at hread ⊢
      split
      · simp_all
      · rw [hread]
        rfl

/-- With enough fuel each of the readers gives back what was written. -/
lemma readsBack (layout : Layout) (fuel : ℕ) : ReadsBack num layout fuel := by
  induction fuel with
  | zero => exact ⟨fun _ _ h => by omega, fun _ _ _ h => by omega, fun _ _ _ h => by omega⟩
  | succ fuel ih =>
    exact ⟨readsBack_value ih, readsBack_elements ih, readsBack_members ih⟩

/-- What is laid out is read, white space after it or not. -/
lemma parse_layOut {ws : List Char} (hv : v.Reads num) (hw : ∀ c ∈ ws, isWhitespace c) :
    parse num (layOut num layout indent v ++ ws) = some v := by
  have hr : Ends ws := by
    intro c hc
    by_contra hn
    have := (isNumeralChar_plain (by simpa using hn)).1
    simp [hw c (List.mem_of_mem_head? hc)] at this
  have hskip : skip ws = [] := List.dropWhile_eq_nil_iff.mpr hw
  have hlen : 2 * (layOut num layout indent v).length + 1 ≤
      2 * (layOut num layout indent v ++ ws).length + 1 := by
    simp only [List.length_append]
    omega
  rw [parse, (readsBack layout _).value hv (skip_layOut hv) hlen hr]
  simp [hskip]

/-- **`JSON.parse` reads what `JSON.stringify` wrote** with an indent, white space after it or
not. -/
theorem parse_write {ws : List Char} (hv : v.Reads num) (hw : ∀ c ∈ ws, isWhitespace c) :
    parse num (write num indent v ++ ws) = some v := by
  rw [write_eq_layOut]
  exact parse_layOut hv hw

/-- **`JSON.parse` reads what `JSON.stringify` wrote** on one line, white space after it or not. -/
theorem parse_stringify {ws : List Char} (hv : v.Reads num) (hw : ∀ c ∈ ws, isWhitespace c) :
    parse num (stringify num v ++ ws) = some v :=
  parse_layOut hv hw

/-- Values with one text are one value. -/
lemma stringify_injective {w : Json ν} (hv : v.Reads num) (hw : w.Reads num)
    (h : stringify num v = stringify num w) : v = w := by
  have hread := @parse_stringify _ num v [] hv (by simp)
  rw [h, parse_stringify hw (by simp)] at hread
  exact (Option.some.inj hread).symm

/-- The decimal numeral of a natural number is one of JSON. -/
lemma isNumeral_digits (n : ℕ) : isNumeral (digits n) ∧ ∀ c ∈ digits n, isNumeralChar c := by
  have hd : ∀ c ∈ digits n, c.isDigit := fun c hc => isDigit_of_mem_digits hc
  have hsome : someDigits (digits n) = some [] := by
    rw [someDigits, List.takeWhile_eq_self_iff.mpr hd, List.dropWhile_eq_nil_iff.mpr hd,
      if_neg (digits_ne_nil n)]
  refine ⟨?_, fun c hc => by simp [isNumeralChar, hd c hc]⟩
  obtain ⟨c, cs, hcs⟩ := List.exists_cons_of_ne_nil (digits_ne_nil n)
  have hunsigned : unsigned (digits n) = digits n := by
    rw [hcs]
    unfold unsigned
    split
    · rename_i heq
      obtain ⟨rfl, rfl⟩ := List.cons.inj heq
      simpa using hd '-' (by simp [hcs])
    · rfl
  have hwhole : wholePart (digits n) = some [] := by
    by_cases hz : n = 0
    · subst hz
      rfl
    · unfold wholePart
      split
      · rename_i heq
        exact absurd (eq_zero_of_head_digits (by rw [heq]; rfl)) hz
      · exact hsome
  simp [isNumeral, hunsigned, hwhole, fractionPart, exponentPart]

end Json

end Workbench.Lib
