import Workbench.Lib.Client

/-!
Programs that talk to two servers, put together from programs that talk to one of them.

The requests of either server leave the other alone. What a program does against its own server it
does against both.
-/

namespace Workbench.Lib.Client

variable {Q Q' : Type} {A : Q → Type} {B : Q' → Type} {ε α β σ τ : Type}

/-- A program of the first server. -/
def left : Client A ε α → Client (Sum.elim A B) ε α
  | done result => done result
  | ask q next => ask (.inl q) fun reply => (next reply).left

/-- A program of the second server. -/
def right : Client B ε α → Client (Sum.elim A B) ε α
  | done result => done result
  | ask q next => ask (.inr q) fun reply => (next reply).right

/-- Two servers side by side. -/
def serveBoth (serve : (q : Q) → σ → A q × σ) (serve' : (q : Q') → τ → B q × τ) :
    (q : Q ⊕ Q') → σ × τ → Sum.elim A B q × (σ × τ)
  | .inl q, s => ((serve q s.1).1, ((serve q s.1).2, s.2))
  | .inr q, s => ((serve' q s.2).1, (s.1, (serve' q s.2).2))

/-- Some way the requests can fare makes the program end with the value. -/
inductive Ends : Client A ε α → α → Prop
  | done (a : α) : Ends (done (.ok a)) a
  | ask {q : Q} {next : Reply (A q) → Client A ε α} {a : α} (reply : Reply (A q))
    (rest : Ends (next reply) a) : Ends (ask q next) a

variable {serve : (q : Q) → σ → A q × σ} {serve' : (q : Q') → τ → B q × τ}
  {G : σ × τ → Q ⊕ Q' → Delivery → Prop} {R : σ × τ → σ × τ → Prop} {I : σ × τ → Prop}
  {s t : σ × τ}

/-- What a program of the first server does it does beside the second, which it leaves alone. -/
lemma ensures_left {G' : σ → Q → Delivery → Prop} {post : Except ε α → σ → Prop}
    (hG : ∀ s q d, G s (.inl q) d → G' s.1 q d) {p : Client A ε α}
    (h : Ensures serve G' p post s.1) : Ensures (serveBoth serve serve') G p.left
      (fun result t => post result t.1 ∧ t.2 = s.2) s := by
  induction p generalizing s with
  | done result => exact (ensures_done result).mpr ⟨(ensures_done result).mp h, rfl⟩
  | ask q next ih =>
    refine (ensures_ask _ _).mpr fun d hd => ?_
    have hnext := (ensures_ask _ _).mp h d (hG s q d hd)
    cases d <;> exact ih _ hnext

/-- What a program of the second server does it does beside the first, which it leaves alone. -/
lemma ensures_right {G' : τ → Q' → Delivery → Prop} {post : Except ε α → τ → Prop}
    (hG : ∀ s q d, G s (.inr q) d → G' s.2 q d) {p : Client B ε α}
    (h : Ensures serve' G' p post s.2) : Ensures (serveBoth serve serve') G p.right
      (fun result t => post result t.2 ∧ t.1 = s.1) s := by
  induction p generalizing s with
  | done result => exact (ensures_done result).mpr ⟨(ensures_done result).mp h, rfl⟩
  | ask q next ih =>
    refine (ensures_ask _ _).mpr fun d hd => ?_
    have hnext := (ensures_ask _ _).mp h d (hG s q d hd)
    cases d <;> exact ih _ hnext

lemma preserves_left {G' : σ → Q → Delivery → Prop} {J : σ → Prop}
    (hG : ∀ s q d, G s (.inl q) d → G' s.1 q d) {p : Client A ε α}
    (h : p.Preserves serve G' J) :
    p.left.Preserves (serveBoth serve serve') G fun s => J s.1 :=
  fun s hs => (ensures_left hG (h s.1 hs)).mono fun _ _ ht => ht.1

lemma preserves_right {G' : τ → Q' → Delivery → Prop} {J : τ → Prop}
    (hG : ∀ s q d, G s (.inr q) d → G' s.2 q d) {p : Client B ε α}
    (h : p.Preserves serve' G' J) :
    p.right.Preserves (serveBoth serve serve') G fun s => J s.2 :=
  fun s hs => (ensures_right hG (h s.2 hs)).mono fun _ _ ht => ht.1

/-- A program of one server keeps what is so of the other. -/
lemma left_preserves {J : τ → Prop} (p : Client A ε α) :
    p.left.Preserves (serveBoth serve serve') G fun s => J s.2 := by
  intro s hs
  have hany : Ensures serve anyDelivery p (fun _ _ => True) s.1 := fun _ _ _ => trivial
  refine (ensures_left (fun _ _ _ _ => trivial) hany).mono fun _ t ht => ?_
  rw [ht.2]
  exact hs

lemma right_preserves {J : σ → Prop} (p : Client B ε α) :
    p.right.Preserves (serveBoth serve serve') G fun s => J s.1 := by
  intro s hs
  have hany : Ensures serve' anyDelivery p (fun _ _ => True) s.2 := fun _ _ _ => trivial
  refine (ensures_right (fun _ _ _ _ => trivial) hany).mono fun _ t ht => ?_
  rw [ht.2]
  exact hs

/-- What a program of the first server leaves of the second, and what it ends with. -/
lemma respects_left (hrefl : ∀ s, R s s) (htrans : ∀ {a b c}, R a b → R b c → R a c)
    (hkeep : ∀ (q : Q) s, I s → I (serveBoth serve serve' (.inl q) s).2)
    (hstep : ∀ (q : Q) s, R s (serveBoth serve serve' (.inl q) s).2) (p : Client A ε α) :
    p.left.Respects (serveBoth serve serve') G R I
      (fun result t => R s t ∧ ∀ a, result = .ok a → p.Ends a) s := by
  induction p generalizing s with
  | done result =>
    refine ⟨hrefl s, ?_⟩
    rintro a rfl
    exact .done a
  | ask q next ih =>
    intro t hst ht
    refine ⟨hkeep q t ht, fun d _ => ?_⟩
    have hafter : R t (deliver (serveBoth serve serve') t (.inl q) d).2 := by
      cases d with
      | answered | lost => exact hstep q t
      | refused | unreached => exact hrefl t
    refine (ih _).mono fun result u h => ⟨htrans hst (htrans hafter h.1), fun a ha => ?_⟩
    exact .ask _ (h.2 a ha)

/-- What a program of the second server does it does beside the first. -/
lemma respects_right {G' : τ → Q' → Delivery → Prop} {R' : τ → τ → Prop} {I' : τ → Prop}
    {post : Except ε α → τ → Prop} (hG : ∀ s q d, G s (.inr q) d → G' s.2 q d)
    (hR : ∀ s t, R s t → R' s.2 t.2) (hI : ∀ s, I s ↔ I' s.2) {p : Client B ε α}
    (h : p.Respects serve' G' R' I' post s.2) :
    p.right.Respects (serveBoth serve serve') G R I (fun result t => post result t.2) s := by
  induction p generalizing s with
  | done result => exact h
  | ask q next ih =>
    intro t hst ht
    obtain ⟨hkeep, hrest⟩ := h t.2 (hR s t hst) ((hI t).mp ht)
    refine ⟨(hI _).mpr hkeep, fun d hd => ?_⟩
    have hnext := hrest d (hG t q d hd)
    cases d <;> exact ih _ hnext

end Workbench.Lib.Client
