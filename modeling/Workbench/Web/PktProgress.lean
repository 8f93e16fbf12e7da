import Workbench.Web.PktLine

/-!
Whether the packet line reader gets on.

A round that does not throw moves the offset on by the number in the header, and by four when that
is zero. `parseInt` takes a minus sign as well, so a header such as `-004` sends the reader back, in
the worst case to a header it has come from.
-/

namespace Workbench.Web.PktProgress

open Workbench.Lib PktLine

/-- The offsets at which the loop is entered. -/
def Reached (body : List UInt8) (offset : ℤ) : Prop := Relation.ReflTransGen (Follows body) 0 offset

/-- Every round that does not throw moves the offset on. -/
def Progresses (body : List UInt8) : Prop :=
  ∀ offset after, Reached body offset → Follows body offset after → offset < after

def Terminates (body : List UInt8) : Prop := ∃ fuel result, readPktLines fuel body = some result

def headerText (body : List UInt8) (offset : ℤ) : String :=
  Utf8.decode (subarray body offset (offset + 4))

/-- Behind blanks a minus sign, and a number other than zero behind that. -/
def IsBelowZero (text : String) : Prop :=
  ∃ cs, text.toList.dropWhile NumberText.isTrimmed = '-' :: cs ∧
    ∃ n ∈ NumberText.digitsOf 16
      ((stripPrefix cs).takeWhile fun c => (NumberText.digitOf 16 c).isSome), n ≠ 0

/-- The reader comes to such a header. -/
def MeetsMinus (body : List UInt8) : Prop :=
  ∃ offset, Reached body offset ∧ HeaderAt body offset ∧ IsBelowZero (headerText body offset)

variable {body : List UInt8} {offset after : ℤ} {fuel : ℕ}

/-! ### What a header reads as -/

lemma parseInt_minus {text : String} {cs : List Char}
    (h : text.toList.dropWhile NumberText.isTrimmed = '-' :: cs) :
    parseInt text = (NumberText.digitsOf 16
      ((stripPrefix cs).takeWhile fun c => (NumberText.digitOf 16 c).isSome)).map
        fun n : ℕ => -(n : ℤ) := by
  have hsign : NumberText.signOf ('-' :: cs) = (true, cs) := rfl
  rw [parseInt, h, hsign]
  simp only
  cases NumberText.digitsOf 16
    ((stripPrefix cs).takeWhile fun c => (NumberText.digitOf 16 c).isSome) <;> rfl

lemma signOf_of_ne {cs : List Char} (h : ∀ rest, cs ≠ '-' :: rest) :
    ∃ rest, NumberText.signOf cs = (false, rest) := by
  unfold NumberText.signOf
  split
  · next rest => exact absurd rfl (h rest)
  · exact ⟨_, rfl⟩
  · exact ⟨_, rfl⟩

lemma parseInt_nonneg {text : String} {length : ℤ} (h : length ∈ parseInt text)
    (hno : ∀ cs, text.toList.dropWhile NumberText.isTrimmed ≠ '-' :: cs) : 0 ≤ length := by
  obtain ⟨rest, hsign⟩ := signOf_of_ne hno
  rw [parseInt, hsign] at h
  simp only at h
  cases hdigits : NumberText.digitsOf 16
      ((stripPrefix rest).takeWhile fun c => (NumberText.digitOf 16 c).isSome) with
  | none => simp [hdigits] at h
  | some n =>
    obtain rfl : (n : ℤ) = length := by simpa [hdigits] using h
    omega

/-- `parseInt` reads a number below zero exactly from such a text. -/
lemma parseInt_lt_zero_iff (text : String) :
    (∃ length ∈ parseInt text, length < 0) ↔ IsBelowZero text := by
  constructor
  · rintro ⟨length, hlength, hneg⟩
    by_cases hminus : ∃ cs, text.toList.dropWhile NumberText.isTrimmed = '-' :: cs
    · obtain ⟨cs, hcs⟩ := hminus
      rw [parseInt_minus hcs] at hlength
      obtain ⟨n, hn, rfl⟩ := Option.map_eq_some_iff.mp hlength
      exact ⟨cs, hcs, n, hn, by omega⟩
    · have hnonneg := parseInt_nonneg hlength (not_exists.mp hminus)
      omega
  · rintro ⟨cs, hcs, n, hn, hne⟩
    rw [parseInt_minus hcs]
    exact ⟨-(n : ℤ), Option.map_eq_some_iff.mpr ⟨n, hn, rfl⟩, by omega⟩

/-! ### One round and the whole loop -/

/-- A round goes back, or stands still, exactly from a header below zero. -/
lemma lt_of_follows (h : Follows body offset after)
    (hno : ¬ IsBelowZero (headerText body offset)) : offset < after := by
  obtain ⟨-, length, hlength, rfl⟩ := h
  have hnonneg : ¬ length < 0 := fun hneg =>
    hno ((parseInt_lt_zero_iff _).mp ⟨length, hlength, hneg⟩)
  split <;> omega

lemma exists_follows_back (hheader : HeaderAt body offset)
    (h : IsBelowZero (headerText body offset)) : ∃ after < offset, Follows body offset after := by
  obtain ⟨length, hlength, hneg⟩ := (parseInt_lt_zero_iff _).mpr h
  exact ⟨offset + length, by omega, hheader, length, hlength, (if_neg (by omega)).symm⟩

/-- While no header is below zero, a round for each byte that is left is enough. -/
lemma readFrom_isSome (hno : ¬ MeetsMinus body) (hreached : Reached body offset)
    (hfuel : body.length - offset < fuel) (hpos : 0 < fuel) (lines : List String) :
    ∃ result, readFrom body fuel offset lines = some result := by
  induction fuel generalizing offset lines with
  | zero => omega
  | succ fuel ih =>
    rcases readFrom_cases body offset lines with
      ⟨-, hstop⟩ | ⟨-, -, hstop⟩ | ⟨after, lines', hfollows, -, hgo⟩
    · exact ⟨_, hstop fuel⟩
    · exact ⟨_, hstop fuel⟩
    · have hheader : offset + 4 ≤ body.length := hfollows.1
      have hlt := lt_of_follows hfollows fun hbelow => hno ⟨offset, hreached, hheader, hbelow⟩
      rw [hgo]
      exact ih (hreached.tail hfollows) (by omega) (by omega) lines'

/-- The reader then takes no more rounds than there are bytes, and one. -/
theorem readPktLines_isSome (hno : ¬ MeetsMinus body) :
    ∃ result, readPktLines (body.length + 1) body = some result :=
  readFrom_isSome hno .refl (by omega) (by omega) []

/-- **The reader gets on and comes to an end** exactly when it comes to no header that reads as a
number below zero. -/
theorem terminates_and_progresses_iff (body : List UInt8) :
    Terminates body ∧ Progresses body ↔ ¬ MeetsMinus body := by
  constructor
  · rintro ⟨-, hprogresses⟩ ⟨offset, hreached, hheader, hbelow⟩
    obtain ⟨after, hback, hfollows⟩ := exists_follows_back hheader hbelow
    have := hprogresses offset after hreached hfollows
    omega
  · intro hno
    refine ⟨⟨_, readPktLines_isSome hno⟩, fun offset after hreached hfollows => ?_⟩
    exact lt_of_follows hfollows fun hbelow => hno ⟨offset, hreached, hfollows.1, hbelow⟩

/-- A flush packet, and a header that leads back to it. -/
def backToStart : List UInt8 := Utf8.encode "0000-004"

lemma lengthAt_backToStart :
    lengthAt backToStart 0 = some 0 ∧ lengthAt backToStart 4 = some (-4) := by decide +kernel

/-- The reader goes round for ever: at 0 it reads a flush packet, at 4 it is sent back to 0. -/
theorem backToStart_never_ends : (∀ fuel, readPktLines fuel backToStart = none) ∧
    ¬ (Terminates backToStart ∧ Progresses backToStart) := by
  obtain ⟨hzero, hfour⟩ := lengthAt_backToStart
  have hfirst : HeaderAt backToStart 0 := by decide
  have hsecond : HeaderAt backToStart 4 := by decide
  have hround : ∀ fuel lines, readFrom backToStart fuel 0 lines = none ∧
      readFrom backToStart fuel 4 lines = none := by
    intro fuel
    induction fuel with
    | zero => exact fun lines => ⟨rfl, rfl⟩
    | succ fuel ih =>
      intro lines
      constructor
      · rw [readFrom_flush hfirst hzero]
        exact (ih lines).2
      · rw [readFrom_line hsecond hfour (by decide)]
        exact (ih _).1
  have hnone : ∀ fuel, readPktLines fuel backToStart = none := fun fuel => (hround fuel []).1
  refine ⟨hnone, ?_⟩
  rintro ⟨⟨fuel, result, h⟩, -⟩
  rw [hnone] at h
  cases h

end Workbench.Web.PktProgress
