import Mathlib.Tactic.Lemma

/-!
Programs that do their work by requests to a server, over a network on which requests fail.

A request is handled in one step. It can be refused, and it can be lost before or after it is
handled. A run of a program is a run against every answer it gets; a guard says which failures a
run may meet.
-/

namespace Workbench.Lib

/-- How a request fares. -/
inductive Delivery
  /-- it is handled and its answer arrives -/
  | answered
  /-- the server answers that it failed, and does nothing -/
  | refused
  /-- it does not arrive -/
  | unreached
  /-- it is handled and its answer does not arrive -/
  | lost
  deriving DecidableEq, Repr

/-- The server handles the request. -/
def Delivery.lands : Delivery → Bool
  | .answered | .lost => true
  | .refused | .unreached => false

/-- What a program sees of a request. -/
inductive Reply (α : Type)
  | answered (answer : α)
  | refused
  | threw
  deriving Repr

/-- A program that sends requests `q` and awaits their answers in `A q`. -/
inductive Client {Q : Type} (A : Q → Type) (ε α : Type)
  | done (result : Except ε α)
  | ask (q : Q) (next : Reply (A q) → Client A ε α)

namespace Client

variable {Q : Type} {A : Q → Type} {ε α β σ : Type}

def bind : Client A ε α → (α → Client A ε β) → Client A ε β
  | done (.ok a), f => f a
  | done (.error e), _ => done (.error e)
  | ask q next, f => ask q fun reply => (next reply).bind f

instance : Monad (Client A ε) where
  pure a := done (.ok a)
  bind := bind

/-- The program stops with an error. -/
abbrev fail (e : ε) : Client A ε α := done (.error e)

/-- A program whose error is caught. -/
def attempt : Client A ε α → Client A ε (Except ε α)
  | done result => done (.ok result)
  | ask q next => ask q fun reply => (next reply).attempt

/-- A program that goes on from the result of another, whatever that is. -/
def andThen (p : Client A ε α) (f : Except ε α → Client A ε β) : Client A ε β :=
  p.attempt.bind f

/-- `try … finally`. -/
def andFinally (p : Client A ε α) (last : Client A ε Unit) : Client A ε α :=
  p.andThen fun result => last.bind fun _ => done result

@[simp] lemma pure_eq (a : α) : (pure a : Client A ε α) = done (.ok a) := rfl

@[simp] lemma bind_eq (p : Client A ε α) (f : α → Client A ε β) : p >>= f = p.bind f := rfl

@[simp] lemma bind_ok (a : α) (f : α → Client A ε β) :
    (done (.ok a) : Client A ε α).bind f = f a := rfl

@[simp] lemma bind_error (e : ε) (f : α → Client A ε β) :
    (done (.error e) : Client A ε α).bind f = done (.error e) := rfl

@[simp] lemma bind_ask (q : Q) (next : Reply (A q) → Client A ε α) (f : α → Client A ε β) :
    (ask q next).bind f = ask q fun reply => (next reply).bind f := rfl

@[simp] lemma attempt_done (result : Except ε α) :
    (done result : Client A ε α).attempt = done (.ok result) := rfl

@[simp] lemma attempt_ask (q : Q) (next : Reply (A q) → Client A ε α) :
    (ask q next).attempt = ask q fun reply => (next reply).attempt := rfl

/-! ### Runs -/

section Runs

variable (serve : (q : Q) → σ → A q × σ)

/-- What comes of a request: the reply, and the server after it. -/
def deliver (s : σ) (q : Q) : Delivery → Reply (A q) × σ
  | .answered => (.answered (serve q s).1, (serve q s).2)
  | .refused => (.refused, s)
  | .unreached => (.threw, s)
  | .lost => (.threw, (serve q s).2)

/-- The runs of a program in which every request fares as `G` allows. -/
inductive Runs (G : σ → Q → Delivery → Prop) :
    Client A ε α → σ → Except ε α → σ → Prop
  | done (result : Except ε α) (s : σ) : Runs G (done result) s result s
  | ask {q : Q} {next : Reply (A q) → Client A ε α} {s t : σ} {result : Except ε α}
    (d : Delivery) (allowed : G s q d)
    (rest : Runs G (next (deliver serve s q d).1) (deliver serve s q d).2 result t) :
    Runs G (ask q next) s result t

/-- Every run ends with a result and a server as `post` says. -/
def Ensures (G : σ → Q → Delivery → Prop) (p : Client A ε α)
    (post : Except ε α → σ → Prop) (s : σ) : Prop :=
  ∀ result t, Runs serve G p s result t → post result t

/-- The run in which the requests fare one after the other as the list says, and those after it
are answered. -/
def exec : Client A ε α → List Delivery → σ → Except ε α × σ
  | done result, _, s => (result, s)
  | ask q next, ds, s =>
    (next (deliver serve s q (ds.headD .answered)).1).exec ds.tail
      (deliver serve s q (ds.headD .answered)).2

end Runs

/-- The guard allows what the list says. -/
def Follows (serve : (q : Q) → σ → A q × σ) (G : σ → Q → Delivery → Prop) :
    Client A ε α → List Delivery → σ → Prop
  | done _, _, _ => True
  | ask q next, ds, s => G s q (ds.headD .answered) ∧
    (next (deliver serve s q (ds.headD .answered)).1).Follows serve G ds.tail
      (deliver serve s q (ds.headD .answered)).2

instance Follows.decidable (serve : (q : Q) → σ → A q × σ) (G : σ → Q → Delivery → Prop)
    [∀ s q d, Decidable (G s q d)] : (p : Client A ε α) → (ds : List Delivery) → (s : σ) →
    Decidable (p.Follows serve G ds s)
  | done _, _, _ => inferInstanceAs (Decidable True)
  | ask q next, ds, s =>
    haveI := Follows.decidable serve G (next (deliver serve s q (ds.headD .answered)).1) ds.tail
      (deliver serve s q (ds.headD .answered)).2
    inferInstanceAs (Decidable (_ ∧ _))

/-- Whatever happens. -/
def anyDelivery (_ : σ) (_ : Q) (_ : Delivery) : Prop := True

variable {serve : (q : Q) → σ → A q × σ} {G H : σ → Q → Delivery → Prop}
  {post post' : Except ε α → σ → Prop} {s t : σ}

@[simp] lemma ensures_done (result : Except ε α) :
    Ensures serve G (done result) post s ↔ post result s := by
  constructor
  · exact fun h => h _ _ (.done result s)
  · rintro h _ _ (_ | _)
    exact h

@[simp] lemma ensures_ask (q : Q) (next : Reply (A q) → Client A ε α) :
    Ensures serve G (ask q next) post s ↔ ∀ d, G s q d →
      Ensures serve G (next (deliver serve s q d).1) post (deliver serve s q d).2 := by
  constructor
  · exact fun h d hd result t hrun => h result t (.ask d hd hrun)
  · rintro h result t hrun
    cases hrun with
    | ask d hd rest => exact h d hd result t rest

/-- A request whose reply does not matter. -/
lemma ensures_ask_keeps {q : Q} {next : Reply (A q) → Client A ε α} {I : σ → Prop} (before : I s)
    (after : I (serve q s).2)
    (rest : ∀ reply t, I t → Ensures serve G (next reply) post t) :
    Ensures serve G (ask q next) post s := by
  refine (ensures_ask q next).mpr fun d _ => rest _ _ ?_
  cases d with
  | answered | lost => exact after
  | refused | unreached => exact before

lemma Ensures.mono {p : Client A ε α} (h : Ensures serve G p post s)
    (himp : ∀ result t, post result t → post' result t) : Ensures serve G p post' s :=
  fun result t hrun => himp result t (h result t hrun)

/-- A program and then another: the first ends so that the second can go on. -/
lemma ensures_attempt (p : Client A ε α) {post : Except ε (Except ε α) → σ → Prop} :
    Ensures serve G p.attempt post s ↔ Ensures serve G p (fun result => post (.ok result)) s := by
  induction p generalizing s with
  | done result => simp
  | ask q next ih => simp [ih]

lemma ensures_bind (p : Client A ε α) (f : α → Client A ε β) {post : Except ε β → σ → Prop} :
    Ensures serve G (p.bind f) post s ↔ Ensures serve G p (fun result t =>
      match result with
      | .ok a => Ensures serve G (f a) post t
      | .error e => post (.error e) t) s := by
  induction p generalizing s with
  | done result => cases result <;> simp
  | ask q next ih => simp [ih]

lemma ensures_andThen (p : Client A ε α) (f : Except ε α → Client A ε β)
    {post : Except ε β → σ → Prop} :
    Ensures serve G (p.andThen f) post s ↔
      Ensures serve G p (fun result => Ensures serve G (f result) post) s := by
  rw [andThen, ensures_bind, ensures_attempt]

lemma runs_exec (p : Client A ε α) (ds : List Delivery) (s : σ) :
    Runs serve anyDelivery p s (p.exec serve ds s).1 (p.exec serve ds s).2 := by
  induction p generalizing s ds with
  | done result => exact .done result s
  | ask q next ih => exact .ask _ trivial (ih _ _ _)

lemma Follows.runs {p : Client A ε α} {ds : List Delivery} (h : p.Follows serve G ds s) :
    Runs serve G p s (p.exec serve ds s).1 (p.exec serve ds s).2 := by
  induction p generalizing s ds with
  | done result => exact .done result s
  | ask q next ih => exact .ask _ h.1 (ih _ h.2)

/-! ### Verdicts -/

/-- However the requests fare: the result, the server afterwards, and whether the guard was met all
along, are as `post` says. -/
def Decides (serve : (q : Q) → σ → A q × σ) (G : σ → Q → Delivery → Prop) (p : Client A ε α)
    (post : Except ε α → σ → Prop → Prop) (s : σ) : Prop :=
  ∀ ds, post (p.exec serve ds s).1 (p.exec serve ds s).2 (p.Follows serve G ds s)

section Decides

variable {verdict : Except ε α → σ → Prop → Prop}

@[simp] lemma decides_done (result : Except ε α) :
    Decides serve G (done result) verdict s ↔ verdict result s True := by
  constructor
  · exact fun h => h []
  · exact fun h _ => h

@[simp] lemma decides_ask (q : Q) (next : Reply (A q) → Client A ε α) :
    Decides serve G (ask q next) verdict s ↔ ∀ d, Decides serve G (next (deliver serve s q d).1)
      (fun result t met => verdict result t (G s q d ∧ met)) (deliver serve s q d).2 := by
  constructor
  · exact fun h d ds => h (d :: ds)
  · exact fun h ds => h (ds.headD .answered) ds.tail

lemma Decides.mono {verdict' : Except ε α → σ → Prop → Prop} {p : Client A ε α}
    (h : Decides serve G p verdict s)
    (himp : ∀ result t met, verdict result t met → verdict' result t met) :
    Decides serve G p verdict' s :=
  fun ds => himp _ _ _ (h ds)

lemma decides_bind (p : Client A ε α) (f : α → Client A ε β)
    {verdict : Except ε β → σ → Prop → Prop} :
    Decides serve G (p.bind f) verdict s ↔ Decides serve G p (fun result t met =>
      match result with
      | .ok a => Decides serve G (f a) (fun result u met' => verdict result u (met ∧ met')) t
      | .error e => verdict (.error e) t met) s := by
  induction p generalizing s verdict with
  | done result => cases result <;> simp
  | ask q next ih => simp only [bind_ask, decides_ask, ih, and_assoc]

lemma decides_attempt (p : Client A ε α) {verdict : Except ε (Except ε α) → σ → Prop → Prop} :
    Decides serve G p.attempt verdict s ↔
      Decides serve G p (fun result => verdict (.ok result)) s := by
  induction p generalizing s verdict with
  | done result => simp
  | ask q next ih => simp only [attempt_ask, decides_ask, ih]

lemma decides_andThen (p : Client A ε α) (f : Except ε α → Client A ε β)
    {verdict : Except ε β → σ → Prop → Prop} :
    Decides serve G (p.andThen f) verdict s ↔ Decides serve G p (fun result t met =>
      Decides serve G (f result) (fun result u met' => verdict result u (met ∧ met')) t) s := by
  rw [andThen, decides_bind, decides_attempt]

end Decides

/-! ### Programs amid others -/

/-- While others change the server as `R` says and keep `I`, every request of the program keeps
`I`, and the program ends as `post` says, if its requests fare as `G` allows. -/
def Respects (serve : (q : Q) → σ → A q × σ) (G : σ → Q → Delivery → Prop) (R : σ → σ → Prop)
    (I : σ → Prop) : Client A ε α → (Except ε α → σ → Prop) → σ → Prop
  | done result, post, s => post result s
  | ask q next, post, s => ∀ t, R s t → I t → I (serve q t).2 ∧ ∀ d, G t q d →
    (next (deliver serve t q d).1).Respects serve G R I post (deliver serve t q d).2

section Respects

variable {R : σ → σ → Prop} {I : σ → Prop}

@[simp] lemma respects_done (result : Except ε α) :
    (done result : Client A ε α).Respects serve G R I post s ↔ post result s := .rfl

lemma respects_ask (q : Q) (next : Reply (A q) → Client A ε α) :
    (ask q next).Respects serve G R I post s ↔ ∀ t, R s t → I t → I (serve q t).2 ∧
      ∀ d, G t q d → (next (deliver serve t q d).1).Respects serve G R I post
        (deliver serve t q d).2 := .rfl

lemma respects_bind (p : Client A ε α) (f : α → Client A ε β) {post : Except ε β → σ → Prop} :
    (p.bind f).Respects serve G R I post s ↔ p.Respects serve G R I (fun result t =>
      match result with
      | .ok a => (f a).Respects serve G R I post t
      | .error e => post (.error e) t) s := by
  induction p generalizing s with
  | done result => cases result <;> rfl
  | ask q next ih => simp only [bind_ask, respects_ask, ih]

lemma respects_attempt (p : Client A ε α) {post : Except ε (Except ε α) → σ → Prop} :
    p.attempt.Respects serve G R I post s ↔
      p.Respects serve G R I (fun result => post (.ok result)) s := by
  induction p generalizing s with
  | done result => rfl
  | ask q next ih => simp only [attempt_ask, respects_ask, ih]

lemma respects_andThen (p : Client A ε α) (f : Except ε α → Client A ε β)
    {post : Except ε β → σ → Prop} :
    (p.andThen f).Respects serve G R I post s ↔ p.Respects serve G R I (fun result =>
      (f result).Respects serve G R I post) s := by
  rw [andThen, respects_bind, respects_attempt]

lemma Respects.mono {p : Client A ε α} (h : p.Respects serve G R I post s)
    (himp : ∀ result t, post result t → post' result t) : p.Respects serve G R I post' s := by
  induction p generalizing s with
  | done result => exact himp _ _ h
  | ask q next ih =>
    intro t hR hI
    obtain ⟨hkeep, hrest⟩ := h t hR hI
    exact ⟨hkeep, fun d hd => ih _ (hrest d hd)⟩

/-- What is wanted of a program that ends with a value. -/
def Yields (good : α → σ → Prop) (result : Except ε α) (s : σ) : Prop :=
  ∀ a, result = .ok a → good a s

lemma yields_ok {good : α → σ → Prop} {a : α} (h : good a s) :
    Yields good (.ok a : Except ε α) s := by
  rintro _ ⟨⟩
  exact h

lemma yields_error {good : α → σ → Prop} {e : ε} : Yields good (.error e : Except ε α) s := by
  rintro _ ⟨⟩

/-- The values of a program in turn. -/
lemma respects_bind_yields (good : α → σ → Prop) {good' : β → σ → Prop} {p : Client A ε α}
    {f : α → Client A ε β} (hp : p.Respects serve G R I (Yields good) s)
    (hf : ∀ a t, good a t → (f a).Respects serve G R I (Yields good') t) :
    (p.bind f).Respects serve G R I (Yields good') s := by
  refine (respects_bind p f).mpr (hp.mono ?_)
  rintro (e | a) t h
  · exact yields_error
  · exact hf a t (h a rfl)

/-- What is done last keeps what the program before it has given. -/
lemma respects_andFinally {good : α → σ → Prop} {p : Client A ε α} {last : Client A ε Unit}
    (hp : p.Respects serve G R I (Yields good) s)
    (hlast : ∀ (result : Except ε α) t, Yields good result t → last.Respects serve G R I
      (fun _ u => Yields good result u) t) :
    (p.andFinally last).Respects serve G R I (Yields good) s := by
  refine (respects_andThen p _).mpr (hp.mono fun result t h => ?_)
  refine (respects_bind last _).mpr ((hlast result t h).mono ?_)
  rintro (e | _) u hu
  · exact yields_error
  · exact hu

/-- What others do leaves a program as it should be. -/
lemma Respects.stable {p : Client A ε α} (h : p.Respects serve G R I post s) (hst : R s t)
    (htrans : ∀ {a b c}, R a b → R b c → R a c)
    (hpost : ∀ result, post result s → post result t) : p.Respects serve G R I post t := by
  cases p with
  | done result => exact hpost result h
  | ask q next => exact fun u hR hI => h u (htrans hst hR) hI

end Respects

/-! ### Programs and what is noted of them -/

/-- Of every reply something is noted; every request is safe by what was noted before it, and the
program ends as `post` says. The server may be any at any time. -/
def Traces {γ : Type} (serve : (q : Q) → σ → A q × σ) (note : (q : Q) → Reply (A q) → γ → γ)
    (safe : Q → γ → Prop) : Client A ε α → (Except ε α → γ → Prop) → γ → Prop
  | done result, post, g => post result g
  | ask q next, post, g => safe q g ∧ ∀ s d, (next (deliver serve s q d).1).Traces serve note safe
    post (note q (deliver serve s q d).1 g)

section Traces

variable {γ : Type} {note : (q : Q) → Reply (A q) → γ → γ} {safe : Q → γ → Prop} {g : γ}
  {noted noted' : Except ε α → γ → Prop}

lemma traces_ask (q : Q) (next : Reply (A q) → Client A ε α) :
    (ask q next).Traces serve note safe noted g ↔ safe q g ∧ ∀ s d,
      (next (deliver serve s q d).1).Traces serve note safe noted
        (note q (deliver serve s q d).1 g) := .rfl

lemma traces_bind (p : Client A ε α) (f : α → Client A ε β) {noted : Except ε β → γ → Prop} :
    (p.bind f).Traces serve note safe noted g ↔ p.Traces serve note safe (fun result g =>
      match result with
      | .ok a => (f a).Traces serve note safe noted g
      | .error e => noted (.error e) g) g := by
  induction p generalizing g with
  | done result => cases result <;> rfl
  | ask q next ih => simp only [bind_ask, traces_ask, ih]

lemma traces_attempt (p : Client A ε α) {noted : Except ε (Except ε α) → γ → Prop} :
    p.attempt.Traces serve note safe noted g ↔
      p.Traces serve note safe (fun result => noted (.ok result)) g := by
  induction p generalizing g with
  | done result => rfl
  | ask q next ih => simp only [attempt_ask, traces_ask, ih]

lemma traces_andThen (p : Client A ε α) (f : Except ε α → Client A ε β)
    {noted : Except ε β → γ → Prop} :
    (p.andThen f).Traces serve note safe noted g ↔ p.Traces serve note safe (fun result =>
      (f result).Traces serve note safe noted) g := by
  rw [andThen, traces_bind, traces_attempt]

lemma Traces.mono {p : Client A ε α} (h : p.Traces serve note safe noted g)
    (himp : ∀ result g, noted result g → noted' result g) :
    p.Traces serve note safe noted' g := by
  induction p generalizing g with
  | done result => exact himp _ _ h
  | ask q next ih => exact ⟨h.1, fun s d => ih _ (h.2 s d)⟩

end Traces

/-! ### Invariants -/

/-- Every request the program can come to make is one of `P`. -/
def Asks (P : Q → Prop) : Client A ε α → Prop
  | done _ => True
  | ask q next => P q ∧ ∀ reply, (next reply).Asks P

lemma asks_bind {P : Q → Prop} {p : Client A ε α} {f : α → Client A ε β} (hp : p.Asks P)
    (hf : ∀ a, (f a).Asks P) : (p.bind f).Asks P := by
  induction p with
  | done result =>
    cases result with
    | ok a => exact hf a
    | error e => trivial
  | ask q next ih => exact ⟨hp.1, fun reply => ih reply (hp.2 reply)⟩

lemma asks_attempt {P : Q → Prop} {p : Client A ε α} (hp : p.Asks P) : p.attempt.Asks P := by
  induction p with
  | done result => trivial
  | ask q next ih => exact ⟨hp.1, fun reply => ih reply (hp.2 reply)⟩

lemma asks_andThen {P : Q → Prop} {p : Client A ε α} {f : Except ε α → Client A ε β}
    (hp : p.Asks P) (hf : ∀ result, (f result).Asks P) : (p.andThen f).Asks P :=
  asks_bind (asks_attempt hp) hf

lemma asks_all {P : Q → Prop} {p : Client A ε α} (h : ∀ q, P q) : p.Asks P := by
  induction p with
  | done result => trivial
  | ask q next ih => exact ⟨h q, ih⟩

/-- **What the requests of a program keep, its runs keep.** -/
lemma Runs.invariant {P : Q → Prop} {I : σ → Prop} {p : Client A ε α} {result : Except ε α}
    (h : Runs serve G p s result t) (hp : p.Asks P) (hs : I s)
    (hkeep : ∀ s q, P q → I s → I (serve q s).2) : I t := by
  induction h with
  | done result s => exact hs
  | @ask q next s t result d allowed rest ih =>
    refine ih (hp.2 _) ?_
    cases d with
    | answered | lost => exact hkeep s q hp.1 hs
    | refused | unreached => exact hs

/-- What every request keeps, every run keeps. -/
lemma Runs.keeps {I : σ → Prop} {p : Client A ε α} {result : Except ε α}
    (h : Runs serve G p s result t) (hs : I s) (hkeep : ∀ s q, I s → I (serve q s).2) : I t :=
  h.invariant (P := fun _ => True) (asks_all fun _ => trivial) hs fun s q _ => hkeep s q

/-- Every run of the program from where `I` holds ends where it holds. -/
def Preserves (serve : (q : Q) → σ → A q × σ) (G : σ → Q → Delivery → Prop) (I : σ → Prop)
    (p : Client A ε α) : Prop :=
  ∀ s, I s → Ensures serve G p (fun _ => I) s

section Preserves

variable {I : σ → Prop}

/-- A delivery keeps what the server keeps when it handles the request. -/
lemma deliver_keeps {q : Q} {d : Delivery} (before : I s) (after : d.lands → I (serve q s).2) :
    I (deliver serve s q d).2 := by
  cases d with
  | answered | lost => exact after rfl
  | refused | unreached => exact before

lemma preserves_done (result : Except ε α) :
    (done result : Client A ε α).Preserves serve G I :=
  fun _ hs => (ensures_done result).mpr hs

lemma preserves_ask {q : Q} {next : Reply (A q) → Client A ε α}
    (step : ∀ s d, I s → G s q d → d.lands → I (serve q s).2)
    (rest : ∀ reply, (next reply).Preserves serve G I) : (ask q next).Preserves serve G I :=
  fun s hs => (ensures_ask q next).mpr fun d hd =>
    rest _ _ (deliver_keeps hs fun hlands => step s d hs hd hlands)

lemma Preserves.bind {p : Client A ε α} {f : α → Client A ε β} (hp : p.Preserves serve G I)
    (hf : ∀ a, (f a).Preserves serve G I) : (p.bind f).Preserves serve G I := by
  intro s hs
  refine (ensures_bind p f).mpr ((hp s hs).mono ?_)
  rintro (e | a) t ht
  · exact ht
  · exact hf a t ht

lemma Preserves.andThen {p : Client A ε α} {f : Except ε α → Client A ε β}
    (hp : p.Preserves serve G I) (hf : ∀ result, (f result).Preserves serve G I) :
    (p.andThen f).Preserves serve G I :=
  fun s hs => (ensures_andThen p f).mpr ((hp s hs).mono fun result t ht => hf result t ht)

end Preserves

/-! ### Calls one after the other -/

/-- The servers that calls of `P`, one after the other, can leave behind. -/
inductive Sequence (serve : (q : Q) → σ → A q × σ) (G : σ → Q → Delivery → Prop)
    (P : Client A ε α → Prop) (s : σ) : σ → Prop
  | refl : Sequence serve G P s s
  | call {t u : σ} {p : Client A ε α} {result : Except ε α} :
    Sequence serve G P s t → P p → Runs serve G p t result u → Sequence serve G P s u

/-- What every call keeps holds after every sequence of calls. -/
lemma Sequence.invariant {P : Client A ε α → Prop} {I : σ → Prop} (h : Sequence serve G P s t)
    (hs : I s) (hcall : ∀ p s, P p → I s → Ensures serve G p (fun _ => I) s) : I t := by
  induction h with
  | refl => exact hs
  | call _ hp hrun ih => exact hcall _ _ hp ih _ _ hrun

end Client

end Workbench.Lib
