import Workbench.ErrorSink.Survival

/-!
The credentials of an authorization header.

The pattern for bearer tokens takes a scheme that ends in `bearer` with its credentials. The pattern
for the header takes one word behind the colon, which is the scheme, so that the credentials of any
other scheme are left to the patterns that may know them by themselves.
-/

namespace Workbench.ErrorSink

open Workbench.Lib Workbench.Lib.Regex Workbench.Lib.Mask

structure AuthorizationHeader where
  before : List Char
  name : List Char
  gap : List Char
  scheme : List Char
  space : List Char
  credentials : List Char
  after : List Char
  named : name.map Char.toLower = "authorization:".toList
  gapped : gap ≠ [] ∧ ∀ c ∈ gap, isSpace c
  word : scheme ≠ [] ∧ ∀ c ∈ scheme, isSpace c = false
  spaced : space ≠ [] ∧ ∀ c ∈ space, isSpace c
  run : credentials ≠ [] ∧ ∀ c ∈ credentials, isSpace c = false

namespace AuthorizationHeader

def labelled (h : AuthorizationHeader) : Labelled where
  before := h.before
  label := h.name ++ (h.gap ++ (h.scheme ++ h.space))
  secret := h.credentials
  after := h.after

/-- The scheme ends in `bearer`. -/
def IsBearer (h : AuthorizationHeader) : Prop :=
  ∃ start word, h.scheme = start ++ word ∧ word.map Char.toLower = "bearer".toList

end AuthorizationHeader

variable {p q : Place} {r : Regex} {hr : r.nullable = false} {k d : ℕ}

/-! ### The pattern for bearer tokens -/

/-- What the pattern for bearer tokens takes. -/
structure BearerToken (m : List Char) (word blank token : List Char) : Prop where
  parts : m = word ++ (blank ++ token)
  named : word.map Char.toLower = "bearer".toList
  blank : blank ≠ [] ∧ ∀ c ∈ blank, isSpace c
  token : token ≠ [] ∧ ∀ c ∈ token, isSpace c = false

lemma bearerToken_of_mem_ends {m : List Char} (h : q ∈ bearerPattern.ends p) (hm : Spans p m q) :
    ∃ word blank token, BearerToken m word blank token := by
  obtain ⟨x, hx, h⟩ := mem_ends_seq.1 h
  obtain ⟨y, hy, h⟩ := mem_ends_seq.1 h
  obtain ⟨z, hz, h⟩ := mem_ends_seq.1 h
  obtain rfl := mem_ends_empty.1 h
  obtain ⟨word, hword, hs⟩ := mem_ends_caseless.1 hx
  obtain ⟨blank, hs', hne, hall⟩ := mem_ends_plus_one hy
  obtain ⟨token, hs'', hne', hall'⟩ := mem_ends_plus_one hz
  refine ⟨word, blank, token, ?_, hword, ⟨hne, hall⟩, hne', fun c hc => by simpa using hall' c hc⟩
  exact List.append_cancel_right
    (hm.after.symm.trans (spans_append hs (spans_append hs' hs'')).after)

/-- Where a bearer token stands the pattern has a match. -/
lemma find_bearer {m word blank token : List Char} (h : BearerToken m word blank token)
    (hm : Spans p m q) : ∃ d, (whole bearerPattern rfl).find p = some (0, d) := by
  obtain ⟨rfl, hword, ⟨hblank, hblanks⟩, hne, htoken⟩ := h
  obtain ⟨x, hx, hm⟩ := spans_split hm
  obtain ⟨y, hy, hm⟩ := spans_split hm
  obtain ⟨c, token, rfl⟩ := List.exists_cons_of_ne_nil hne
  obtain ⟨z, hz, hm⟩ := spans_split (m := [c]) hm
  have hc : isSpace c = false := htoken c (by simp)
  have hhead : ∀ d ∈ y.after.head?, isSpace d = false := by
    intro d hd
    rw [hz.after] at hd
    obtain rfl : c = d := by simpa using hd
    exact hc
  have hfirst : First bearerPattern p (past (!isSpace ·) z) := by
    refine first_seq (first_of_all ?_ ?_)
      (first_seq (first_plus_one_of_spans hy hblank hblanks hhead)
      (first_seq (first_seq (first_one (by simp [hc]) hz) (first_star_one _ z)) (first_empty _)))
    · simp [ends_caseless hword hx]
    · simp [ends_caseless hword hx]
  exact ⟨_, find_of_first (m := whole bearerPattern rfl) (first_empty p) hfirst (spans_refl p)
    (spans_append hx (spans_append hy (spans_append hz (spans_past _ z))))⟩

/-- What a match of a pattern of which nothing is kept takes. -/
lemma mem_ends_of_find_whole (h : (whole r hr).find p = some (k, d)) :
    k = 0 ∧ ∃ x m, x ∈ r.ends p ∧ Spans p m x ∧ m.length = d := by
  obtain ⟨q, x, kept, dropped, hq, hx, hkept, hdropped, rfl, rfl, -⟩ := spans_of_find h
  obtain rfl := mem_ends_empty.1 hq
  have hlen := length_of_spans hkept
  exact ⟨by omega, x, dropped, hx, hdropped, rfl⟩

/-- A bearer token that begins with this word takes the blank and what follows it. -/
lemma length_lt_of_bearerToken {m word blank token word' blank' rest rest' : List Char} {c : Char}
    (h : BearerToken m word blank token) (hword : word'.map Char.toLower = "bearer".toList)
    (hblank : ∀ c ∈ blank', isSpace c) (hc : isSpace c = false)
    (htext : m ++ rest' = word' ++ (blank' ++ c :: rest)) :
    (word' ++ blank').length < m.length := by
  obtain ⟨rfl, hnamed, ⟨-, hblanks⟩, hne, htoken⟩ := h
  have hlen : word.length = word'.length := by
    have h1 := congrArg List.length hnamed
    have h2 := congrArg List.length hword
    simp only [List.length_map] at h1 h2
    omega
  rw [List.append_assoc, List.append_assoc] at htext
  obtain ⟨rfl, hrest⟩ := List.append_inj htext hlen
  obtain ⟨d, token, rfl⟩ := List.exists_cons_of_ne_nil hne
  obtain ⟨rfl, -⟩ := run_append_inj hrest hblanks hblank
    (by simpa using htoken d (by simp)) (by simpa using hc)
  simp

lemma toLower_of_isSpace {c : Char} (h : isSpace c) : c.toLower = c := by
  have hup : ¬ (65 ≤ c.toNat ∧ c.toNat ≤ 90) := by
    simp only [isSpace, NumberText.isTrimmed, Bool.or_eq_true, List.contains_eq_mem,
      decide_eq_true_eq, Bool.and_eq_true, List.mem_cons, List.not_mem_nil, or_false] at h
    omega
  exact toLower_of_not_isUpper (Bool.eq_false_iff.mpr fun hc => hup (isUpper_iff.1 hc))

/-- The last letter of a word in small letters. -/
lemma isSpace_of_getLast? {m init : List Char} {x : Char} (hm : m.map Char.toLower = init ++ [x])
    (hx : isSpace x = false) : ∀ c ∈ m.getLast?, isSpace c = false := by
  intro c hc
  have hlast : c.toLower = x := by
    have := congrArg List.getLast? hm
    rw [List.getLast?_map, Option.mem_def.mp hc, List.getLast?_append] at this
    simpa using this
  by_contra hspace
  rw [toLower_of_isSpace (by simpa using hspace)] at hlast
  simp [hlast, hx] at hspace

/-- No bearer token begins before the scheme of a header and reaches into its last six letters. -/
lemma not_bearerToken_of_straddle {u₁ u₂ v before name gap start word blank token m : List Char}
    {c : Char} (hname : name.map Char.toLower = "authorization:".toList)
    (hgap : gap ≠ [] ∧ ∀ c ∈ gap, isSpace c) (hstart : ∀ c ∈ start, isSpace c = false)
    (hc : c.toLower = 'b') (hu : before ++ (name ++ (gap ++ start)) = u₁ ++ u₂) (hune : u₂ ≠ [])
    (hm : m = u₂ ++ c :: v) : ¬ BearerToken m word blank token := by
  rintro ⟨hparts, hword, ⟨hblank, hblanks⟩, htokenne, htoken⟩
  have hcspace : c ∉ blank := fun h => by
    have := toLower_of_isSpace (hblanks c h)
    have hb := hblanks c h
    rw [← this, hc] at hb
    exact absurd hb (by decide)
  rw [hm] at hparts
  -- the token's blank and what follows it would be those of the header
  have hno : ∀ t, u₂ = word ++ (blank ++ t) → (∀ c ∈ t, isSpace c = false) → False := by
    rintro t rfl ht
    have hends : ∀ {l : List Char}, l ≠ [] → (∀ c ∈ l, isSpace c) → ∀ l', ∀ c ∈ (l' ++ l).getLast?,
        (!isSpace c) = false := by
      intro l hl hall l' c hc
      rw [List.getLast?_append_of_ne_nil _ hl] at hc
      simp [hall c (List.mem_of_getLast? hc)]
    have h1 : (before ++ name ++ gap) ++ start = (u₁ ++ word ++ blank) ++ t := by simpa using hu
    obtain ⟨h2, -⟩ := append_run_inj (f := (!isSpace ·)) h1 (by simpa using hstart)
      (by simpa using ht) (hends hgap.1 hgap.2 _) (hends hblank hblanks _)
    have hlast : ∀ {l init : List Char} {x : Char}, l.map Char.toLower = init ++ [x] →
        isSpace x = false → ∀ l', ∀ c ∈ (l' ++ l).getLast?, isSpace c = false := by
      intro l init x hl hx l' c hc
      rw [List.getLast?_append_of_ne_nil _ (by rintro rfl; simp at hl)] at hc
      exact isSpace_of_getLast? hl hx c hc
    obtain ⟨h3, -⟩ := append_run_inj h2 hgap.2 hblanks
      (hlast (show _ = "authorization".toList ++ [':'] from hname) (by decide) _)
      (hlast (show _ = "beare".toList ++ ['r'] from hword) (by decide) _)
    have h4 := congrArg (fun l => (l.map Char.toLower).getLast?) h3
    simp only [List.map_append, hname, hword] at h4
    rw [List.getLast?_append_of_ne_nil _ (by decide), List.getLast?_append_of_ne_nil _ (by decide)]
      at h4
    exact absurd h4 (by decide)
  rcases List.append_eq_append_iff.mp hparts with ⟨w, hw, hv⟩ | ⟨a, ha, hv⟩
  · rcases w with _ | ⟨d, w⟩
    · obtain ⟨b, blank, rfl⟩ := List.exists_cons_of_ne_nil hblank
      obtain ⟨rfl, -⟩ := List.cons.inj hv
      simp at hcspace
    · -- the letter `b` stands only at the front of the word
      obtain ⟨rfl, -⟩ := List.cons.inj hv
      obtain ⟨d, u, rfl⟩ := List.exists_cons_of_ne_nil hune
      have hword' : d.toLower :: (u.map Char.toLower ++ c.toLower :: w.map Char.toLower) =
          'b' :: "earer".toList := by
        rw [hw] at hword
        simpa using hword
      have hmem : c.toLower ∈ "earer".toList := (List.cons.inj hword').2 ▸ by simp
      rw [hc] at hmem
      exact absurd hmem (by decide)
  · rcases List.append_eq_append_iff.mp hv with ⟨t, rfl, ht⟩ | ⟨b, hb, hv'⟩
    · exact hno t ha fun d hd => htoken d (by simp [ht, hd])
    · rcases b with _ | ⟨d, b⟩
      · rw [List.append_nil] at hb
        exact hno [] (by rw [List.append_nil, hb, ha]) (by simp)
      · obtain ⟨rfl, -⟩ := List.cons.inj hv'
        simp [hb] at hcspace

/-! ### Headers -/

variable {h : AuthorizationHeader}

/-- **A bearer token's credentials are taken.** -/
theorem taken_of_isBearer (hb : h.IsBearer) : h.labelled.Taken := by
  obtain ⟨start, word, hscheme, hword⟩ := hb
  refine ⟨(whole bearerPattern rfl, h.labelled.cells),
    by simp [passes, secretValuePatterns, stages], ?_⟩
  -- the text up to the last six letters of the scheme, and the rest
  have hcells : h.labelled.cells =
      (cells .aside h.before ++ cells .label (h.name ++ (h.gap ++ start))) ++
        (cells .label (word ++ h.space) ++
          (cells .secret h.credentials ++ cells .aside h.after)) := by
    simp [Labelled.cells, AuthorizationHeader.labelled, hscheme, cells]
  rw [hcells]
  generalize hU : cells .aside h.before ++ cells .label (h.name ++ (h.gap ++ start)) = U
  generalize hV : cells .label (word ++ h.space) ++
    (cells .secret h.credentials ++ cells .aside h.after) = V
  have hUshow : U.map Prod.fst = h.before ++ (h.name ++ (h.gap ++ start)) := by simp [← hU]
  have hVshow : V.map Prod.fst = word ++ (h.space ++ (h.credentials ++ h.after)) := by simp [← hV]
  have hstart : ∀ c ∈ start, isSpace c = false := fun c hc => h.word.2 c (by simp [hscheme, hc])
  obtain ⟨d, t, hcredentials⟩ := List.exists_cons_of_ne_nil h.run.1
  have hd : isSpace d = false := h.run.2 d (by simp [hcredentials])
  -- a match from where the six letters stand drops the first of the credentials
  have hdrops : ∀ dropped rest, V = dropped ++ rest → (cells .label (word ++ h.space)).length <
      dropped.length → ∃ c ∈ dropped, c.2 = .secret := fun dropped rest hsplit hlen =>
    drops_secret h.run.1 (hsplit.symm.trans hV.symm) hlen
  have hpieces : Cut Prod.fst (whole bearerPattern rfl) [] (U ++ V)
    ((whole bearerPattern rfl).pieces Prod.fst (U ++ V)) := cut_pieces _
  rcases hpieces.split with
    ⟨ps₁, ps₂, hps, -, hcut⟩ |
    ⟨kept, dropped, hp, ⟨u₁, u₂, v₁, v₂, hu, rfl, hune, hvne, hkd, hfind⟩⟩
  · have hown : BearerToken (word ++ (h.space ++ h.credentials)) word h.space h.credentials :=
      ⟨rfl, hword, h.spaced, h.run⟩
    have hspan : Spans ⟨(U.map Prod.fst).reverse ++ [], V.map Prod.fst⟩
        (word ++ (h.space ++ h.credentials))
        ⟨(word ++ (h.space ++ h.credentials)).reverse ++ ((U.map Prod.fst).reverse ++ []),
          h.after⟩ :=
      ⟨by simp [hVshow], rfl⟩
    obtain ⟨n, hfind⟩ := find_bearer hown hspan
    obtain ⟨-, x, m, hx, hm, rfl⟩ := mem_ends_of_find_whole hfind
    obtain ⟨w, blank, token, htoken⟩ := bearerToken_of_mem_ends hx hm
    have htext : m ++ x.after = word ++ (h.space ++ d :: (t ++ h.after)) := by
      rw [← hm.after]
      simp [hVshow, hcredentials]
    have hlt := length_lt_of_bearerToken htoken hword h.spaced.2 hd htext
    have hle : m.length ≤ V.length := by
      have := length_of_spans hm
      simp only [List.length_map] at this
      omega
    have htake : (V.take m.length).length = m.length := by simp [hle]
    have hV' : V = [] ++ V.take m.length ++ V.drop m.length := by simp
    rw [hV'] at hcut
    have hmem := hcut.mem_of_find (by simpa [htake] using hfind)
    obtain ⟨c, hc, hsecret⟩ := hdrops (V.take m.length) (V.drop m.length) (by simp)
      (by rw [htake]; simpa [cells] using hlt)
    refine ⟨.found [] (V.take m.length), ?_, c, hc, hsecret⟩
    rw [hps]
    exact List.mem_append_right _ hmem
  · -- no match from before reaches into them
    exfalso
    obtain ⟨hk, x, m, hx, hm, hlen⟩ := mem_ends_of_find_whole hfind
    obtain rfl := List.length_eq_zero_iff.mp hk
    rw [List.nil_append] at hkd
    obtain ⟨w, blank, token, htoken⟩ := bearerToken_of_mem_ends hx hm
    obtain ⟨c, v, rfl⟩ := List.exists_cons_of_ne_nil hvne
    have hmshow : m = u₂.map Prod.fst ++ c.1 :: v.map Prod.fst := by
      have hafter : (u₂ ++ c :: v).map Prod.fst ++ v₂.map Prod.fst = m ++ x.after := by
        rw [← hm.after]
        simp
      have hlength : ((u₂ ++ c :: v).map Prod.fst).length = m.length := by
        rw [List.length_map, hlen, hkd]
      rw [← (List.append_inj hafter hlength).1, List.map_append, List.map_cons]
    obtain ⟨b, word, rfl⟩ : ∃ b l, word = b :: l :=
      List.exists_cons_of_ne_nil (by rintro rfl; exact absurd hword (by decide))
    have hc : c.1 = b := by
      have := congrArg List.head? hVshow
      simpa using this
    have hb : b.toLower = 'b' := (List.cons.inj hword).1
    exact not_bearerToken_of_straddle h.named h.gapped hstart (hc ▸ hb)
      (by rw [← hUshow, hu, List.map_append]) (by simpa using hune) hmshow htoken

/-- `Authorization: Bearer abc.def` -/
def bearerHeader : AuthorizationHeader where
  before := []
  name := "Authorization:".toList
  gap := [' ']
  scheme := "Bearer".toList
  space := [' ']
  credentials := "abc.def".toList
  after := []
  named := by decide
  gapped := by decide
  word := by decide
  spaced := by decide
  run := by decide

/-- `Authorization: Basic dXNlcjpwYXNz` -/
def basicHeader : AuthorizationHeader where
  before := []
  name := "Authorization:".toList
  gap := [' ']
  scheme := "Basic".toList
  space := [' ']
  credentials := "dXNlcjpwYXNz".toList
  after := []
  named := by decide
  gapped := by decide
  word := by decide
  spaced := by decide
  run := by decide

end Workbench.ErrorSink
