import Workbench.Lib.NumberText
import Workbench.Lib.Utf8
import Mathlib.Data.List.ReduceOption
import Mathlib.Logic.Relation

/-!
The packet lines of the git wire.

A line is its length in four hexadecimal digits, themselves counted, and then its text; `0000` is a
flush packet. The reader hands the four bytes to `parseInt`, which takes what number it finds at
their start, and takes the payload with `subarray`, which is content with less than it was asked
for. So it refuses a body only at a header in which `parseInt` finds no number.
-/

namespace Workbench.Web.PktLine

open Workbench.Lib

/-! ### Writing -/

/-- `length.toString(16).padStart(4, "0")` -/
def header (length : ℕ) : List Char :=
  List.replicate (4 - (Nat.toDigits 16 length).length) '0' ++ Nat.toDigits 16 length

def pktLine (text : String) : List UInt8 :=
  let payload := Utf8.encode text
  Utf8.encode (String.ofList (header (payload.length + 4))) ++ payload

def flushPkt : List UInt8 := Utf8.encode "0000"

/-! ### Reading -/

/-- Where a relative index of `subarray` points to. -/
def clamp (length : ℕ) (i : ℤ) : ℕ :=
  if i < 0 then (length + i).toNat else min i.toNat length

def subarray (body : List UInt8) (first last : ℤ) : List UInt8 :=
  (body.take (clamp body.length last)).drop (clamp body.length first)

/-- `0x` in front of a number to the base 16 -/
def stripPrefix : List Char → List Char
  | '0' :: 'x' :: cs => cs
  | '0' :: 'X' :: cs => cs
  | cs => cs

/-- `parseInt(text, 16)`; nothing is `NaN`. -/
def parseInt (text : String) : Option ℤ :=
  let (negative, cs) := NumberText.signOf (text.toList.dropWhile NumberText.isTrimmed)
  let digits := (stripPrefix cs).takeWhile fun c => (NumberText.digitOf 16 c).isSome
  (NumberText.digitsOf 16 digits).map fun n => if negative then -(n : ℤ) else n

def lengthAt (body : List UInt8) (offset : ℤ) : Option ℤ :=
  parseInt (Utf8.decode (subarray body offset (offset + 4)))

/-- The loop of the reader, so many rounds of it. -/
def readFrom (body : List UInt8) : ℕ → ℤ → List String → Option (Except String (List String))
  | 0, _, _ => none
  | fuel + 1, offset, lines =>
    if offset + 4 ≤ body.length then
      match lengthAt body offset with
      | none => some (.error "malformed pkt-line header from the hub")
      | some length =>
        if length = 0 then readFrom body fuel (offset + 4) lines
        else readFrom body fuel (offset + length)
          (lines ++ [Utf8.decode (subarray body (offset + 4) (offset + length))])
    else some (.ok lines)

def readPktLines (fuel : ℕ) (body : List UInt8) : Option (Except String (List String)) :=
  readFrom body fuel 0 []

/-! ### The format -/

/-- Four hexadecimal digits and what they say. -/
structure IsHeader (bytes : List UInt8) (length : ℕ) : Prop where
  four : bytes.length = 4
  digits : NumberText.digitsOf 16 (bytes.map fun b => Char.ofNat b.toNat) = some length

/-- The bytes are complete packet lines with these payloads. -/
inductive Packets : List UInt8 → List (List UInt8) → Prop
  | nil : Packets [] []
  | flush {bytes rest payloads} (header : IsHeader bytes 0) (more : Packets rest payloads) :
    Packets (bytes ++ rest) payloads
  | line {bytes payload rest payloads} (header : IsHeader bytes (payload.length + 4))
    (more : Packets rest payloads) : Packets (bytes ++ (payload ++ rest)) (payload :: payloads)

def WellFormed (body : List UInt8) : Prop := ∃ payloads, Packets body payloads

def Returns (body : List UInt8) : Prop := ∃ fuel lines, readPktLines fuel body = some (.ok lines)

def Throws (body : List UInt8) : Prop :=
  ∃ fuel message, readPktLines fuel body = some (.error message)

/-- The reader takes the body for what it is. -/
def Judged (body : List UInt8) : Prop :=
  (Returns body ↔ WellFormed body) ∧ (Throws body ↔ ¬ WellFormed body)

/-- There is still a header at an offset. -/
abbrev HeaderAt (body : List UInt8) (offset : ℤ) : Prop := offset + 4 ≤ body.length

/-- From one header the next is reached by the length that `parseInt` finds in it. -/
def Follows (body : List UInt8) (offset after : ℤ) : Prop :=
  HeaderAt body offset ∧ ∃ length ∈ lengthAt body offset,
    after = if length = 0 then offset + 4 else offset + length

/-- Going on by these lengths from the start, a header is reached that `parseInt` cannot read. -/
def ReachesUnreadable (body : List UInt8) : Prop :=
  ∃ offset, Relation.ReflTransGen (Follows body) 0 offset ∧ HeaderAt body offset ∧
    lengthAt body offset = none

variable {body bytes rest payload : List UInt8} {payloads : List (List UInt8)} {fuel fuel' : ℕ}
  {offset : ℤ} {lines : List String} {result : Except String (List String)} {length n : ℕ}

/-! ### One round -/

lemma readFrom_succ : readFrom body (fuel + 1) offset lines =
    if offset + 4 ≤ body.length then
      match lengthAt body offset with
      | none => some (.error "malformed pkt-line header from the hub")
      | some length =>
        if length = 0 then readFrom body fuel (offset + 4) lines
        else readFrom body fuel (offset + length)
          (lines ++ [Utf8.decode (subarray body (offset + 4) (offset + length))])
    else some (.ok lines) := rfl

lemma readFrom_end (h : ¬ HeaderAt body offset) :
    readFrom body (fuel + 1) offset lines = some (.ok lines) := by
  rw [readFrom_succ, if_neg h]

lemma readFrom_unreadable (h : HeaderAt body offset) (hnone : lengthAt body offset = none) :
    readFrom body (fuel + 1) offset lines =
      some (.error "malformed pkt-line header from the hub") := by
  rw [readFrom_succ, if_pos h, hnone]

lemma readFrom_flush (h : HeaderAt body offset) (hlength : lengthAt body offset = some 0) :
    readFrom body (fuel + 1) offset lines = readFrom body fuel (offset + 4) lines := by
  rw [readFrom_succ, if_pos h, hlength]
  rfl

lemma readFrom_line {length : ℤ} (h : HeaderAt body offset)
    (hlength : lengthAt body offset = some length) (hne : length ≠ 0) :
    readFrom body (fuel + 1) offset lines = readFrom body fuel (offset + length)
      (lines ++ [Utf8.decode (subarray body (offset + 4) (offset + length))]) := by
  rw [readFrom_succ, if_pos h, hlength]
  simp only [if_neg hne]

/-- What one round does. -/
lemma readFrom_cases (body : List UInt8) (offset : ℤ) (lines : List String) :
    (¬ HeaderAt body offset ∧
      ∀ fuel, readFrom body (fuel + 1) offset lines = some (.ok lines)) ∨
    (HeaderAt body offset ∧ lengthAt body offset = none ∧ ∀ fuel,
      readFrom body (fuel + 1) offset lines =
        some (.error "malformed pkt-line header from the hub")) ∨
    ∃ after lines', Follows body offset after ∧
      (∀ other, Follows body offset other → other = after) ∧
      ∀ fuel, readFrom body (fuel + 1) offset lines = readFrom body fuel after lines' := by
  by_cases h : HeaderAt body offset
  · cases hlength : lengthAt body offset with
    | none => exact .inr (.inl ⟨h, rfl, fun fuel => readFrom_unreadable h hlength⟩)
    | some length =>
      refine .inr (.inr ?_)
      have honly : ∀ other, Follows body offset other →
          other = if length = 0 then offset + 4 else offset + length := by
        rintro other ⟨-, length', hlength', rfl⟩
        obtain rfl := Option.some.inj (hlength.symm.trans hlength')
        rfl
      by_cases hzero : length = 0
      · subst hzero
        exact ⟨_, lines, ⟨h, 0, hlength, rfl⟩, honly, fun fuel => readFrom_flush h hlength⟩
      · refine ⟨offset + length, _, ⟨h, length, hlength, (if_neg hzero).symm⟩, ?_, fun fuel =>
          readFrom_line h hlength hzero⟩
        rwa [if_neg hzero] at honly
  · exact .inl ⟨h, fun fuel => readFrom_end h⟩

/-- More rounds do not change the result. -/
lemma readFrom_mono (hle : fuel ≤ fuel') (h : readFrom body fuel offset lines = some result) :
    readFrom body fuel' offset lines = some result := by
  induction fuel generalizing fuel' offset lines with
  | zero => cases h
  | succ fuel ih =>
    obtain ⟨more, rfl⟩ : ∃ more, fuel' = more + 1 := ⟨fuel' - 1, by omega⟩
    rcases readFrom_cases body offset lines with
      ⟨-, hstop⟩ | ⟨-, -, hstop⟩ | ⟨after, lines', -, -, hgo⟩
    · rwa [hstop] at h ⊢
    · rwa [hstop] at h ⊢
    · rw [hgo] at h ⊢
      exact ih (by omega) h

lemma not_throws_of_returns (h : Returns body) : ¬ Throws body := by
  obtain ⟨fuel, lines, h⟩ := h
  rintro ⟨fuel', message, h'⟩
  have hok := readFrom_mono (Nat.le_max_left fuel fuel') h
  have herror := readFrom_mono (Nat.le_max_right fuel fuel') h'
  simp [hok] at herror

/-! ### Where the reader refuses -/

lemma throws_of_walk {stop : ℤ} (hwalk : Relation.ReflTransGen (Follows body) offset stop)
    (hheader : HeaderAt body stop) (hnone : lengthAt body stop = none) :
    ∃ fuel message, readFrom body fuel offset lines = some (.error message) := by
  induction hwalk using Relation.ReflTransGen.head_induction_on generalizing lines with
  | refl => exact ⟨1, _, readFrom_unreadable hheader hnone⟩
  | head hfollows _ ih =>
    rcases readFrom_cases body _ lines with ⟨hno, -⟩ | ⟨-, hno, -⟩ | ⟨after, lines', -, honly, hgo⟩
    · exact absurd hfollows.1 hno
    · obtain ⟨-, length, hlength, -⟩ := hfollows
      simp [hno] at hlength
    · obtain rfl := honly _ hfollows
      obtain ⟨fuel, message, hthrows⟩ := @ih lines'
      exact ⟨fuel + 1, message, (hgo fuel).trans hthrows⟩

lemma walk_of_throws {message : String}
    (h : readFrom body fuel offset lines = some (.error message)) :
    ∃ stop, Relation.ReflTransGen (Follows body) offset stop ∧ HeaderAt body stop ∧
      lengthAt body stop = none := by
  induction fuel generalizing offset lines with
  | zero => cases h
  | succ fuel ih =>
    rcases readFrom_cases body offset lines with
      ⟨-, hstop⟩ | ⟨hheader, hnone, -⟩ | ⟨after, lines', hfollows, -, hgo⟩
    · simp [hstop] at h
    · exact ⟨offset, .refl, hheader, hnone⟩
    · rw [hgo] at h
      obtain ⟨stop, hwalk, hstop⟩ := ih h
      exact ⟨stop, .head hfollows hwalk, hstop⟩

/-- **The reader throws** exactly when it comes to a header in which `parseInt` finds no number. -/
theorem throws_iff : Throws body ↔ ReachesUnreadable body := by
  constructor
  · rintro ⟨fuel, message, h⟩
    exact walk_of_throws h
  · rintro ⟨stop, hwalk, hheader, hnone⟩
    exact throws_of_walk hwalk hheader hnone

/-! ### What is well formed is read -/

/-- A digit to the base 16. -/
abbrev IsHexDigit (c : Char) : Prop := (NumberText.digitOf 16 c).isSome

lemma isHexDigit_bounds {c : Char} (h : IsHexDigit c) :
    (48 ≤ c.toNat ∧ c.toNat ≤ 57) ∨ (97 ≤ c.toNat ∧ c.toNat ≤ 102) ∨
      (65 ≤ c.toNat ∧ c.toNat ≤ 70) := by
  by_contra hno
  simp only [not_or] at hno
  have hdigit : c.isDigit = false := by
    rw [← Bool.not_eq_true]
    intro hc
    exact hno.1 (NumberText.isDigit_bounds hc)
  have hsmall : ¬ ('a' ≤ c ∧ c ≤ 'f') := hno.2.1
  have hlarge : ¬ ('A' ≤ c ∧ c ≤ 'F') := hno.2.2
  simp [IsHexDigit, NumberText.digitOf, hdigit, hsmall, hlarge] at h

lemma isHexDigit_of_foldlM {cs : List Char} {m : ℕ}
    (h : (cs.foldlM (fun n c => (NumberText.digitOf 16 c).map (16 * n + ·)) m).isSome) :
    ∀ c ∈ cs, IsHexDigit c := by
  induction cs generalizing m with
  | nil => simp
  | cons c cs ih =>
    rw [List.foldlM_cons] at h
    cases hc : NumberText.digitOf 16 c with
    | none => simp [hc] at h
    | some d =>
      exact List.forall_mem_cons.mpr ⟨by simp [IsHexDigit, hc], ih (by simpa [hc] using h)⟩

lemma isHexDigit_of_digitsOf {cs : List Char} (h : NumberText.digitsOf 16 cs = some n) :
    cs ≠ [] ∧ ∀ c ∈ cs, IsHexDigit c := by
  cases cs with
  | nil => simp [NumberText.digitsOf] at h
  | cons c cs =>
    refine ⟨List.cons_ne_nil c cs, @isHexDigit_of_foldlM _ 0 ?_⟩
    rw [NumberText.digitsOf] at h
    · rw [h]
      rfl
    · simp

lemma parseInt_of_digits {cs : List Char} (h : NumberText.digitsOf 16 cs = some n) :
    parseInt (String.ofList cs) = some (n : ℤ) := by
  obtain ⟨hne, hdigits⟩ := isHexDigit_of_digitsOf h
  obtain ⟨c, rest, rfl⟩ := List.exists_cons_of_ne_nil hne
  have hc := isHexDigit_bounds (hdigits c List.mem_cons_self)
  have hblank : NumberText.isTrimmed c = false := by
    simp only [NumberText.isTrimmed, Bool.or_eq_false_iff, List.contains_eq_mem,
      decide_eq_false_iff_not, List.mem_cons, List.not_mem_nil, or_false, not_or,
      Bool.and_eq_false_iff]
    omega
  have hsign : NumberText.signOf (c :: rest) = (false, c :: rest) := by
    unfold NumberText.signOf
    split
    · next h => obtain ⟨rfl, -⟩ := List.cons.inj h; simp at hc
    · next h => obtain ⟨rfl, -⟩ := List.cons.inj h; simp at hc
    · rfl
  have hstripped : stripPrefix (c :: rest) = c :: rest := by
    unfold stripPrefix
    split
    · next h => exact absurd (hdigits 'x' (by simp [h])) (by decide)
    · next h => exact absurd (hdigits 'X' (by simp [h])) (by decide)
    · rfl
  rw [parseInt, String.toList_ofList, List.dropWhile_cons_of_neg (by simp [hblank]), hsign]
  simp only [hstripped, List.takeWhile_eq_self_iff.mpr hdigits, h]
  rfl

lemma subarray_middle {before middle : List UInt8} (hbody : body = before ++ (middle ++ rest)) :
    subarray body before.length (before.length + middle.length) = middle := by
  have hfirst : clamp body.length before.length = before.length := by
    rw [clamp, if_neg (by omega), hbody, List.length_append]
    omega
  have hlast : clamp body.length (before.length + middle.length) =
      before.length + middle.length := by
    rw [clamp, if_neg (by omega), hbody, List.length_append, List.length_append]
    omega
  rw [subarray, hfirst, hlast, hbody, ← List.append_assoc,
    List.take_left' (by rw [List.length_append]), List.drop_left]

/-- The digits of a header are ASCII. -/
lemma decode_header (h : IsHeader bytes n) :
    Utf8.decode bytes = String.ofList (bytes.map fun b => Char.ofNat b.toNat) := by
  obtain ⟨hne, hdigits⟩ := isHexDigit_of_digitsOf h.digits
  have hbyte : ∀ b ∈ bytes, b.toNat < 0x80 := by
    intro b hb
    have hbounds := isHexDigit_bounds (hdigits _ (List.mem_map_of_mem hb))
    have hlt := b.toNat_lt
    rw [Utf8.toNat_ofNat (by omega)] at hbounds
    omega
  have hmark : ∀ cs : List Char, (∀ c ∈ cs, IsHexDigit c) → Utf8.withoutMark cs = cs := by
    intro cs hcs
    cases cs with
    | nil => rfl
    | cons c cs =>
      rw [Utf8.withoutMark, if_neg]
      rintro rfl
      exact absurd (hcs _ List.mem_cons_self) (by decide)
  rw [Utf8.decode, Utf8.decodeFrom_ascii hbyte, hmark _ hdigits]

lemma lengthAt_of_header {before : List UInt8} (h : IsHeader bytes n)
    (hbody : body = before ++ (bytes ++ rest)) :
    HeaderAt body before.length ∧ lengthAt body before.length = some (n : ℤ) := by
  have hbytes : subarray body before.length (before.length + 4) = bytes := by
    have hmiddle := subarray_middle hbody
    rwa [h.four] at hmiddle
  constructor
  · rw [HeaderAt, hbody, List.length_append, List.length_append, h.four]
    omega
  · rw [lengthAt, hbytes, decode_header h, parseInt_of_digits h.digits]

/-- From where the rest of the body is well formed, the rest is read. -/
lemma readFrom_of_packets (h : Packets rest payloads) (before : List UInt8) (lines : List String)
    (hbody : body = before ++ rest) :
    ∃ fuel, readFrom body fuel before.length lines =
      some (.ok (lines ++ payloads.map Utf8.decode)) := by
  induction h generalizing before lines with
  | nil =>
    refine ⟨1, ?_⟩
    have hend : ¬ HeaderAt body before.length := by
      rw [HeaderAt, hbody, List.append_nil]
      omega
    rw [readFrom_end hend, List.map_nil, List.append_nil]
  | @flush bytes rest payloads header more ih =>
    obtain ⟨hheader, hlength⟩ := lengthAt_of_header header hbody
    obtain ⟨fuel, hread⟩ := ih (before ++ bytes) lines (by rw [hbody, List.append_assoc])
    refine ⟨fuel + 1, ?_⟩
    rw [readFrom_flush hheader hlength, ← hread, List.length_append, header.four]
    rfl
  | @line bytes payload rest payloads header more ih =>
    obtain ⟨hheader, hlength⟩ := lengthAt_of_header header hbody
    have hbody' : body = (before ++ bytes) ++ (payload ++ rest) := by
      rw [hbody, List.append_assoc]
    have hbody'' : body = (before ++ bytes ++ payload) ++ rest := by
      rw [hbody', ← List.append_assoc]
    have hpayload := subarray_middle hbody'
    have hfirst : ((before ++ bytes).length : ℤ) = before.length + 4 := by
      rw [List.length_append, header.four]
      rfl
    have hlast : ((before ++ bytes).length + payload.length : ℤ) =
        before.length + (payload.length + 4 : ℕ) := by
      rw [hfirst]
      omega
    have hafter : ((before ++ bytes ++ payload).length : ℤ) =
        before.length + (payload.length + 4 : ℕ) := by
      rw [List.length_append, Int.natCast_add, hlast]
    obtain ⟨fuel, hread⟩ := ih (before ++ bytes ++ payload) (lines ++ [Utf8.decode payload]) hbody''
    refine ⟨fuel + 1, ?_⟩
    rw [hlast, hfirst] at hpayload
    rw [readFrom_line hheader hlength (by omega), hpayload, ← hafter, hread, List.map_cons,
      List.append_assoc, List.singleton_append]

lemma returns_of_wellFormed (h : WellFormed body) : Returns body := by
  obtain ⟨payloads, h⟩ := h
  obtain ⟨fuel, hread⟩ := readFrom_of_packets h [] [] rfl
  exact ⟨fuel, _, hread⟩

lemma judged_iff : Judged body ↔ WellFormed body ∨ ReachesUnreadable body := by
  rw [← throws_iff]
  constructor
  · rintro ⟨-, hthrows⟩
    by_cases hformed : WellFormed body
    · exact .inl hformed
    · exact .inr (hthrows.mpr hformed)
  · rintro (hformed | hthrows)
    · have hreturns := returns_of_wellFormed hformed
      exact ⟨iff_of_true hreturns hformed,
        iff_of_false (not_throws_of_returns hreturns) (not_not.mpr hformed)⟩
    · have hno : ¬ WellFormed body := fun hformed =>
        not_throws_of_returns (returns_of_wellFormed hformed) hthrows
      exact ⟨iff_of_false (fun hreturns => not_throws_of_returns hreturns hthrows) hno,
        iff_of_true hthrows hno⟩

/-! ### Reading what was written -/

lemma digitOf_digitChar : ∀ d < 16, NumberText.digitOf 16 (Nat.digitChar d) = some d ∧
    (Nat.digitChar d).toNat < 0x80 := by decide

lemma header_eq (h : n < 65536) : header n = [Nat.digitChar (n / 4096),
    Nat.digitChar (n / 256 % 16), Nat.digitChar (n / 16 % 16), Nat.digitChar (n % 16)] := by
  have hlow : ∀ m < 16, Nat.toDigits 16 m = [Nat.digitChar m] := fun m hm =>
    Nat.toDigits_of_lt_base hm
  have hhigh : ∀ m, 16 ≤ m → Nat.toDigits 16 m = Nat.toDigits 16 (m / 16) ++
      [Nat.digitChar (m % 16)] := fun m hm => Nat.toDigits_of_base_le (by omega) hm
  rw [header]
  by_cases h1 : n < 16
  · have h4096 : n / 4096 = 0 := by omega
    have h256 : n / 256 % 16 = 0 := by omega
    have h16 : n / 16 % 16 = 0 := by omega
    rw [hlow n h1, h4096, h256, h16, Nat.mod_eq_of_lt h1]
    rfl
  by_cases h2 : n < 256
  · have h4096 : n / 4096 = 0 := by omega
    have h256 : n / 256 % 16 = 0 := by omega
    have h16 : n / 16 % 16 = n / 16 := by omega
    rw [hhigh n (by omega), hlow (n / 16) (by omega), h4096, h256, h16]
    rfl
  by_cases h3 : n < 4096
  · have h4096 : n / 4096 = 0 := by omega
    have h256 : n / 256 % 16 = n / 16 / 16 := by omega
    rw [hhigh n (by omega), hhigh (n / 16) (by omega), hlow (n / 16 / 16) (by omega), h4096, h256]
    rfl
  · have h4096 : n / 4096 = n / 16 / 16 / 16 := by omega
    have h256 : n / 256 = n / 16 / 16 := by omega
    rw [hhigh n (by omega), hhigh (n / 16) (by omega), hhigh (n / 16 / 16) (by omega),
      hlow (n / 16 / 16 / 16) (by omega), h4096, h256]
    rfl

lemma isHeader_header (h : n < 65536) : IsHeader (Utf8.encode (String.ofList (header n))) n := by
  have hascii : ∀ c ∈ header n, c.toNat < 0x80 := by
    rw [header_eq h]
    simp only [List.mem_cons, List.not_mem_nil, or_false]
    rintro c (rfl | rfl | rfl | rfl)
    · exact (digitOf_digitChar _ (by omega)).2
    · exact (digitOf_digitChar _ (by omega)).2
    · exact (digitOf_digitChar _ (by omega)).2
    · exact (digitOf_digitChar _ (by omega)).2
  have hchar : ∀ c ∈ header n, Char.ofNat (UInt8.ofNat c.toNat).toNat = c := by
    intro c hc
    have hlt := hascii c hc
    rw [UInt8.toNat_ofNat', Nat.mod_eq_of_lt (by omega), Char.ofNat_toNat]
  have hback : ((header n).map fun c => UInt8.ofNat c.toNat).map (fun b => Char.ofNat b.toNat) =
      header n := by
    rw [List.map_map]
    exact (List.map_congr_left hchar).trans (List.map_id _)
  rw [Utf8.encode, String.toList_ofList, Utf8.encode_ascii hascii]
  constructor
  · rw [List.length_map, header_eq h]
    rfl
  · rw [hback, header_eq h]
    simp only [NumberText.digitsOf, List.foldlM_cons, List.foldlM_nil,
      (digitOf_digitChar (n / 4096) (by omega)).1, (digitOf_digitChar (n / 256 % 16) (by omega)).1,
      (digitOf_digitChar (n / 16 % 16) (by omega)).1, (digitOf_digitChar (n % 16) (by omega)).1,
      Option.map_some, Option.bind_eq_bind, Option.bind_some, Option.pure_def, Option.some.injEq]
    omega

/-- A line with a text in it, or a flush packet. -/
def encodeItem : Option String → List UInt8
  | some text => pktLine text
  | none => flushPkt

/-- Short enough for a line, and without a byte order mark in front. -/
def Fits (text : String) : Prop :=
  (Utf8.encode text).length ≤ 65516 ∧ ∀ c ∈ text.toList.head?, c ≠ Utf8.byteOrderMark

lemma packets_encodeItems {items : List (Option String)}
    (h : ∀ text ∈ items.reduceOption, Fits text) :
    Packets (items.flatMap encodeItem) (items.reduceOption.map Utf8.encode) := by
  induction items with
  | nil => exact .nil
  | cons item items ih =>
    rw [List.flatMap_cons]
    cases item with
    | none =>
      rw [List.reduceOption_cons_of_none] at h ⊢
      exact .flush ⟨rfl, by decide⟩ (ih h)
    | some text =>
      rw [List.reduceOption_cons_of_some] at h ⊢
      obtain ⟨htext, hrest⟩ := List.forall_mem_cons.mp h
      rw [encodeItem, pktLine, List.append_assoc]
      have hlength := htext.1
      exact .line (isHeader_header (by omega)) (ih hrest)

lemma read_written {items : List (Option String)}
    (h : ∀ text ∈ items.reduceOption, Fits text) :
    ∃ fuel, readPktLines fuel (items.flatMap encodeItem) = some (.ok items.reduceOption) := by
  obtain ⟨fuel, hread⟩ := readFrom_of_packets (packets_encodeItems h) [] [] rfl
  refine ⟨fuel, hread.trans ?_⟩
  have hback : ∀ text ∈ items.reduceOption, Utf8.decode (Utf8.encode text) = text :=
    fun text htext => Utf8.decode_encode (h text htext).2
  have hlines : (items.reduceOption.map Utf8.encode).map Utf8.decode = items.reduceOption := by
    rw [List.map_map]
    exact (List.map_congr_left hback).trans (List.map_id _)
  rw [List.nil_append, hlines]

/-- **The reader judges a body rightly** exactly when the body is well formed, or going through it
comes to a header without a number; and it reads what was written. -/
theorem readPktLines_judges_iff (body : List UInt8) :
    (Judged body ↔ WellFormed body ∨ ReachesUnreadable body) ∧
    ∀ items : List (Option String), (∀ text ∈ items.reduceOption, Fits text) →
      ∃ fuel, readPktLines fuel (items.flatMap encodeItem) = some (.ok items.reduceOption) :=
  ⟨judged_iff, fun _ h => read_written h⟩

/-- A report of one line and a flush packet. -/
theorem readPktLines_judges_iff_report : ∃ fuel, readPktLines fuel
    ([some "unpack ok\n", none].flatMap encodeItem) = some (.ok ["unpack ok\n"]) := by
  refine (readPktLines_judges_iff []).2 [some "unpack ok\n", none] fun text htext => ?_
  obtain rfl : text = "unpack ok\n" := List.mem_singleton.mp htext
  refine ⟨by decide, fun c hc => ?_⟩
  obtain rfl : 'u' = c := by simpa using hc
  decide

/-- A report whose last line is cut off: `000eunpack`, where six of ten bytes have come. -/
def cutOff : List UInt8 := Utf8.encode "000eunpack"

theorem cutOff_is_read : readPktLines 2 cutOff = some (.ok ["unpack"]) ∧ ¬ Judged cutOff := by
  have hread : readPktLines 2 cutOff = some (.ok ["unpack"]) := by decide +kernel
  refine ⟨hread, fun hjudged => ?_⟩
  obtain ⟨payloads, h⟩ := hjudged.1.mp ⟨2, _, hread⟩
  have htake : ∀ bytes rest, cutOff = bytes ++ rest → bytes.length = 4 → bytes = cutOff.take 4 := by
    intro bytes rest hbody hfour
    rw [hbody, ← hfour, List.take_left]
  have hlength : ∀ n, IsHeader (cutOff.take 4) n → n = 14 := by
    intro n h
    have hdigits : NumberText.digitsOf 16 ((cutOff.take 4).map fun b => Char.ofNat b.toNat) =
        some 14 := by decide +kernel
    exact Option.some.inj (h.digits.symm.trans hdigits)
  generalize hbody : cutOff = body at h
  cases h with
  | nil => exact absurd hbody (by decide)
  | flush header _ =>
    rw [htake _ _ hbody header.four] at header
    exact absurd (hlength _ header) (by decide)
  | @line bytes payload rest _ header _ =>
    have hten : cutOff.length = 10 := by decide
    have htotal := congrArg List.length hbody
    rw [List.length_append, List.length_append, header.four, hten] at htotal
    rw [htake _ _ hbody header.four] at header
    have := hlength _ header
    omega

end Workbench.Web.PktLine
