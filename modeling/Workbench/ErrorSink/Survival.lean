import Workbench.ErrorSink.Redact

/-!
Whether a secret in a text survives the passes.

The characters of the text carry the part they are from. A secret that stands in the text once is in
what is reported exactly when no pass drops a character of it, or a marker and the text next to it
happen to spell it.
-/

namespace Workbench.ErrorSink

open Workbench.Lib Workbench.Lib.Mask

/-- Where a character is from: the secret, the text that shows it to be one, the rest of the text,
or a marker. -/
inductive Part
  | aside
  | label
  | secret
  | marker
  deriving DecidableEq, Repr

abbrev Cell := Char × Part

def cells (part : Part) (cs : List Char) : List Cell := cs.map fun c => (c, part)

/-- A text with a secret and its label. -/
structure Labelled where
  before : List Char
  label : List Char
  secret : List Char
  after : List Char

namespace Labelled

def text (l : Labelled) : String := String.ofList (l.before ++ (l.label ++ (l.secret ++ l.after)))

def cells (l : Labelled) : List Cell :=
  ErrorSink.cells .aside l.before ++ (ErrorSink.cells .label l.label ++
    (ErrorSink.cells .secret l.secret ++ ErrorSink.cells .aside l.after))

/-- The secret stands nowhere else in the text. -/
def Once (l : Labelled) : Prop :=
  ∀ u v, l.text.toList = u ++ (l.secret ++ v) → u = l.before ++ l.label

/-- The secret is in what is reported. -/
def Survives (l : Labelled) : Prop := l.secret <:+: (redactText l.text).toList

end Labelled

/-! ### The passes over cells -/

/-- A pass and the text it works on. -/
abbrev Stage := Mask × List Cell

def replaceCells (m : Mask) (t : List Cell) : List Cell :=
  m.replaceAll Prod.fst (cells .marker marker) t

def stages : List Mask → List Cell → List Stage
  | [], _ => []
  | m :: ms, t => (m, t) :: stages ms (replaceCells m t)

def redactCells (ms : List Mask) (t : List Cell) : List Cell :=
  ms.foldl (fun t m => replaceCells m t) t

/-- A match of the pass drops a cell of this part. -/
def Stage.Drops (s : Stage) (part : Part) : Prop :=
  ∃ pc ∈ s.1.pieces Prod.fst s.2, ∃ c ∈ pc.dropped, c.2 = part

/-- A match of the pass ends in the label. -/
def Stage.EndsInLabel (s : Stage) : Prop :=
  ∃ pc ∈ s.1.pieces Prod.fst s.2, ∃ c ∈ pc.dropped.getLast?, c.2 = .label

/-- Some pass drops a character of the secret. -/
def Labelled.Taken (l : Labelled) : Prop := ∃ s ∈ stages passes l.cells, s.Drops .secret

/-- A marker and the text next to it spell the secret. -/
def Labelled.Spelled (l : Labelled) : Prop :=
  ∃ w, w <:+: redactCells passes l.cells ∧ w.map Prod.fst = l.secret ∧ ∃ c ∈ w, c.2 = .marker

variable {l : Labelled} {ms : List Mask} {t w : List Cell} {cs : List Char} {part : Part}

@[simp] lemma map_fst_cells : (cells part cs).map Prod.fst = cs := by
  simp [cells, Function.comp_def]

@[simp] lemma length_cells : (cells part cs).length = cs.length := by simp [cells]

lemma snd_of_mem_cells {c : Cell} (h : c ∈ cells part cs) : c.2 = part := by
  obtain ⟨d, -, rfl⟩ := List.mem_map.mp h
  rfl

lemma cells_marker (part : Part) : cells part marker =
    ('[', part) :: (cells part "redacted".toList ++ [(']', part)]) := rfl

/-- Passing over cells is passing over what they show. -/
lemma map_fst_redactCells (ms : List Mask) (t : List Cell) :
    (redactCells ms t).map Prod.fst =
      ms.foldl (fun text m => m.replaceAll id marker text) (t.map Prod.fst) := by
  induction ms generalizing t with
  | nil => rfl
  | cons m ms ih =>
    have hshow : ∀ c : Cell, id (Prod.fst c) = Prod.fst c := fun _ => rfl
    have h : (replaceCells m t).map Prod.fst =
        m.replaceAll id ((cells .marker marker).map Prod.fst) (t.map Prod.fst) :=
      map_replaceAll hshow (cells .marker marker) t
    rw [map_fst_cells] at h
    rw [redactCells, List.foldl_cons, List.foldl_cons, ← h]
    exact ih _

lemma toList_redactText (l : Labelled) :
    (redactText l.text).toList = (redactCells passes l.cells).map Prod.fst := by
  rw [map_fst_redactCells, redactText, String.toList_ofList, Labelled.text, String.toList_ofList,
    redact]
  simp [Labelled.cells]

lemma stages_append (ms ms' : List Mask) (t : List Cell) :
    stages (ms ++ ms') t = stages ms t ++ stages ms' (redactCells ms t) := by
  induction ms generalizing t with
  | nil => rfl
  | cons m ms ih => simp [stages, ih, redactCells]

/-- The passes write markers and nothing else. -/
lemma infix_of_infix_redactCells (hopen : ('[', .marker) ∉ w) (hclose : (']', .marker) ∉ w)
    (h : w <:+: redactCells ms t) : w <:+: t ∨ w <:+: cells .marker marker := by
  induction ms generalizing t with
  | nil => exact .inl h
  | cons m ms ih =>
    rcases ih h with h' | h'
    · exact infix_of_infix_replaceAll (cells_marker .marker) hopen hclose h'
    · exact .inr h'

def isSecret (c : Cell) : Bool := c.2 = .secret

/-- Every cell of the secret that is dropped is missing in the end. -/
lemma countP_redactCells (ms : List Mask) (t : List Cell) :
    (redactCells ms t).countP isSecret ≤ t.countP isSecret ∧
      ((∃ s ∈ stages ms t, s.Drops .secret) →
        (redactCells ms t).countP isSecret < t.countP isSecret) := by
  induction ms generalizing t with
  | nil => exact ⟨le_rfl, by simp [stages]⟩
  | cons m ms ih =>
    have hstep : (replaceCells m t).countP isSecret +
        ((m.pieces Prod.fst t).flatMap Piece.dropped).countP isSecret = t.countP isSecret :=
      countP_replaceAll (fun c hc => by simp [isSecret, snd_of_mem_cells hc]) t
    obtain ⟨hle, hlt⟩ := ih (replaceCells m t)
    have hle' : (replaceCells m t).countP isSecret ≤ t.countP isSecret := by omega
    refine ⟨hle.trans hle', ?_⟩
    rintro ⟨s, hs, hdrops⟩
    rcases List.mem_cons.mp hs with rfl | hs
    · obtain ⟨pc, hpc, c, hc, hsecret⟩ := hdrops
      have hpos : 0 < ((m.pieces Prod.fst t).flatMap Piece.dropped).countP isSecret :=
        List.countP_pos_iff.mpr ⟨c, List.mem_flatMap.mpr ⟨pc, hpc, hc⟩, by simp [isSecret, hsecret]⟩
      exact hle.trans_lt (by omega)
    · exact (hlt ⟨s, hs, hdrops⟩).trans_le hle'

/-- A secret of which no pass drops a character stays in one piece. -/
lemma infix_redactCells {S : List Cell} (hS : ∀ c ∈ S, c.2 = .secret) (hne : S ≠ [])
    (hkept : ∀ s ∈ stages ms t, ¬ s.Drops .secret) (h : S <:+: t) : S <:+: redactCells ms t := by
  induction ms generalizing t with
  | nil => exact h
  | cons m ms ih =>
    refine ih (t := replaceCells m t) (fun s hs => hkept s (List.mem_cons_of_mem _ hs)) ?_
    obtain ⟨A, B, rfl⟩ := h
    have hdropped : ∀ pc ∈ m.pieces Prod.fst (A ++ S ++ B), ∀ c ∈ pc.dropped, c ∉ S :=
      fun pc hpc c hc hcS => hkept (m, A ++ S ++ B) List.mem_cons_self ⟨pc, hpc, c, hc, hS c hcS⟩
    rw [List.append_assoc] at hdropped ⊢
    obtain ⟨A', B', hout, -, -⟩ := (cut_pieces (A ++ (S ++ B))).keeps
      (by simp [cells_marker] : cells .marker marker ≠ []) hdropped hne
    exact ⟨A', B', by rw [List.append_assoc, ← hout]; rfl⟩

lemma toList_text (l : Labelled) :
    l.text.toList = l.before ++ (l.label ++ (l.secret ++ l.after)) := String.toList_ofList

lemma map_fst_cells_of (l : Labelled) : l.cells.map Prod.fst = l.text.toList := by
  simp [Labelled.cells, toList_text]

lemma countP_isSecret (l : Labelled) : l.cells.countP isSecret = l.secret.length := by
  have hnone : ∀ part cs, part ≠ .secret → (cells part cs).countP isSecret = 0 := fun _ _ h =>
    List.countP_eq_zero.mpr fun c hc => by simp [isSecret, snd_of_mem_cells hc, h]
  have hall : (cells .secret l.secret).countP isSecret = l.secret.length := by
    rw [List.countP_eq_length.mpr fun c hc => by simp [isSecret, snd_of_mem_cells hc], cells,
      List.length_map]
  rw [Labelled.cells, List.countP_append, List.countP_append, List.countP_append, hall,
    hnone _ _ (by simp), hnone _ _ (by simp), hnone _ _ (by simp)]
  omega

/-- A secret stands once when it begins at one place only. -/
lemma once_of_drop (h : ∀ i ≤ l.text.toList.length, l.secret <+: l.text.toList.drop i →
    i = (l.before ++ l.label).length) : l.Once := by
  intro u v huv
  have hlen : u.length = (l.before ++ l.label).length := by
    refine h _ ?_ ?_
    · rw [huv]
      simp
    · rw [huv, List.drop_left]
      exact List.prefix_append ..
  have hsplit : u ++ (l.secret ++ v) = l.before ++ l.label ++ (l.secret ++ l.after) := by
    rw [← huv, toList_text, List.append_assoc]
  exact (List.append_inj hsplit hlen).1

/-- The cells that show a secret which stands once are its own. -/
lemma eq_cells_of_infix (honce : l.Once) (hw : w <:+: l.cells)
    (hsecret : w.map Prod.fst = l.secret) :
    w = cells .secret l.secret := by
  obtain ⟨u, v, huv⟩ := hw
  have htext : l.text.toList = u.map Prod.fst ++ (l.secret ++ v.map Prod.fst) := by
    rw [← map_fst_cells_of, ← huv, ← hsecret]
    simp
  have hu := honce _ _ htext
  have hlen : u.length = (cells .aside l.before ++ cells .label l.label).length := by
    have := congrArg List.length hu
    simpa [cells] using this
  have hsplit : u ++ (w ++ v) = cells .aside l.before ++ cells .label l.label ++
      (cells .secret l.secret ++ cells .aside l.after) := by
    rw [← List.append_assoc, huv, Labelled.cells, List.append_assoc]
  obtain ⟨-, hw⟩ := List.append_inj hsplit hlen
  refine (List.append_inj hw ?_).1
  rw [← hsecret]
  simp [cells]

/-- **A secret that stands once in a text survives** exactly when no pass drops a character of it,
or a marker and the text next to it spell it. -/
theorem survives_iff (hne : l.secret ≠ []) (honce : l.Once) :
    l.Survives ↔ ¬ l.Taken ∨ l.Spelled := by
  rw [Labelled.Survives, toList_redactText]
  constructor
  · rintro ⟨u, v, h⟩
    obtain ⟨uw, v', hsplit, huw, -⟩ := List.map_eq_append_iff.mp h.symm
    obtain ⟨u', w, rfl, -, hsecret⟩ := List.map_eq_append_iff.mp huw
    have hw : w <:+: redactCells passes l.cells := ⟨u', v', hsplit.symm⟩
    by_cases hmark : ∃ c ∈ w, c.2 = .marker
    · exact .inr ⟨w, hw, hsecret, hmark⟩
    -- then the cells are those of the secret, and none of them has been dropped
    refine .inl fun htaken => ?_
    have hown : w = cells .secret l.secret := by
      rcases infix_of_infix_redactCells (fun hm => hmark ⟨_, hm, rfl⟩)
        (fun hm => hmark ⟨_, hm, rfl⟩) hw with hw | hw
      · exact eq_cells_of_infix honce hw hsecret
      · rcases w with _ | ⟨c, w⟩
        · exact absurd hsecret.symm hne
        · exact absurd ⟨c, by simp, snd_of_mem_cells (hw.mem (by simp))⟩ hmark
    have hlt := (countP_redactCells passes l.cells).2 htaken
    have hle := hw.sublist.countP_le (p := isSecret)
    have hall : w.countP isSecret = l.secret.length := by
      rw [List.countP_eq_length.mpr fun c hc => by
        simp [isSecret, snd_of_mem_cells (hown ▸ hc)], ← hsecret, List.length_map]
    rw [countP_isSecret] at hlt
    omega
  · rintro (hkept | ⟨w, hw, hsecret, -⟩)
    · have hinfix : cells .secret l.secret <:+: l.cells :=
        ⟨cells .aside l.before ++ cells .label l.label, cells .aside l.after, by
          simp [Labelled.cells]⟩
      have hout : cells .secret l.secret <:+: redactCells passes l.cells :=
        infix_redactCells (fun c hc => snd_of_mem_cells hc) (by simpa [cells] using hne)
          (fun s hs hdrops => hkept ⟨s, hs, hdrops⟩) hinfix
      simpa using hout.map Prod.fst
    · exact hsecret ▸ hw.map Prod.fst

/-- A marker shows its brackets where it meets other text. -/
lemma not_spelled (hopen : '[' ∉ l.secret) (hclose : ']' ∉ l.secret)
    (hmarker : ¬ l.secret <:+: marker) : ¬ l.Spelled := by
  rintro ⟨w, hw, hsecret, c, hc, hmark⟩
  have hout : ∀ d : Char, d ∉ l.secret → (d, Part.marker) ∉ w := fun d hd hm =>
    hd (hsecret ▸ List.mem_map_of_mem hm)
  rcases infix_of_infix_redactCells (hout '[' hopen) (hout ']' hclose) hw with hw | hw
  · have hcells := hw.mem hc
    simp only [Labelled.cells, List.mem_append] at hcells
    rcases hcells with h | h | h | h <;> simp [snd_of_mem_cells h] at hmark
  · exact hmarker (by simpa [hsecret] using hw.map Prod.fst)

/-- A dropped text that is longer than the label drops some of the secret behind it. -/
lemma drops_secret {L dropped rest B : List Cell} {secret : List Char} (hne : secret ≠ [])
    (h : dropped ++ rest = L ++ (cells .secret secret ++ B)) (hlen : L.length < dropped.length) :
    ∃ c ∈ dropped, c.2 = .secret := by
  rcases List.append_eq_append_iff.mp h with ⟨u, rfl, -⟩ | ⟨u, rfl, hu⟩
  · rw [List.length_append] at hlen
    omega
  · rcases u with _ | ⟨c, u⟩
    · simp at hlen
    · obtain ⟨d, secret, rfl⟩ := List.exists_cons_of_ne_nil hne
      obtain ⟨rfl, -⟩ := List.cons.inj hu
      exact ⟨(d, .secret), by simp, rfl⟩

end Workbench.ErrorSink
