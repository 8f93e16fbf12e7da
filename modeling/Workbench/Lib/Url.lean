import Workbench.Lib.Percent

/-!
URLs as a browser reads them, as far as they are relative to an origin and begin with a slash, and
the parameters of a query.

White space at the end and tabs and line ends everywhere are dropped, a backslash is a slash, two
slashes at the front are followed by an authority, and dot segments may be percent-encoded. What
hosts there are is a parameter, and so is how the text of one is read.
-/

namespace Workbench.Lib.Url

/-! ### The parameters of a query -/

/-- The bytes that escapes and characters stand for; what is no escape stands for itself. -/
def bytesOf : List Char → List UInt8
  | [] => []
  | '%' :: high :: low :: rest =>
    match Percent.byteOf high low with
    | some b => .ofNat b :: bytesOf rest
    | none => Utf8.encodeChar '%' ++ bytesOf (high :: low :: rest)
  | c :: rest => Utf8.encodeChar c ++ bytesOf rest

/-- A name or a value of `application/x-www-form-urlencoded`. -/
def fieldText (cs : List Char) : String :=
  String.ofList (Utf8.decodeFrom none (bytesOf (cs.map fun c => if c = '+' then ' ' else c)))

def pairOf (cs : List Char) : String × String :=
  (fieldText (cs.takeWhile (· ≠ '=')), fieldText ((cs.dropWhile (· ≠ '=')).drop 1))

/-- `new URLSearchParams(search)` -/
def searchParams (search : String) : List (String × String) :=
  let query := match search.toList with
    | '?' :: rest => rest
    | cs => cs
  ((query.splitOn '&').filter (·.length ≠ 0)).map pairOf

/-- `URLSearchParams.get` -/
def getParam (params : List (String × String)) (name : String) : Option String :=
  (params.find? (·.1 = name)).map Prod.snd

/-! ### Origins -/

inductive Scheme
  | http
  | https
  deriving DecidableEq, Repr

def Scheme.defaultPort : Scheme → ℕ
  | .http => 80
  | .https => 443

/-- A default port is none. -/
structure Origin (η : Type) where
  scheme : Scheme
  host : η
  port : Option ℕ
  deriving DecidableEq

/-- The host of an authority, and the port if there is a colon behind it; a colon in brackets
belongs to the host. -/
def splitHost (inside : Bool) : List Char → List Char × Option (List Char)
  | [] => ([], none)
  | c :: cs =>
    if c = ':' && !inside then ([], some cs)
    else
      let inside := if c = '[' then true else if c = ']' then false else inside
      ((c :: (splitHost inside cs).1), (splitHost inside cs).2)

def portOf (scheme : Scheme) : Option (List Char) → Option (Option ℕ)
  | none | some [] => some none
  | some digits => do
    let port ← NumberText.digitsOf 10 digits
    if port ≤ 65535 then some (if port = scheme.defaultPort then none else some port) else none

/-- The authority of a URL; what stands before the last `@` is no part of the origin. -/
def authorityOf {η : Type} (parseHost : List Char → Option η) (scheme : Scheme)
    (authority : List Char) : Option (Origin η) := do
  let hostAndPort := (authority.reverse.takeWhile (· ≠ '@')).reverse
  let (hostText, portText) := splitHost false hostAndPort
  if hostText.length = 0 then none
  else
    let host ← parseHost hostText
    let port ← portOf scheme portText
    return ⟨scheme, host, port⟩

/-! ### Paths -/

def isSlash (c : Char) : Bool := c = '/' || c = '\\'

/-- What ends the path, and the authority too. -/
def isDelimiter (c : Char) : Bool := c = '?' || c = '#'

/-- The path percent-encode set. -/
def isEncoded (c : Char) : Bool :=
  c.toNat ≤ 0x1f || 0x7e < c.toNat ||
    [' ', '"', '#', '<', '>', '?', '^', '\x60', '{', '}'].contains c

def encodeInPath (c : Char) : List Char :=
  if isEncoded c then (Utf8.encodeChar c).flatMap Percent.encodeByte else [c]

def isSingleDot (segment : List Char) : Bool :=
  ["." , "%2e"].contains (String.ofList (segment.map Char.toLower))

def isDoubleDot (segment : List Char) : Bool :=
  ["..", ".%2e", "%2e.", "%2e%2e"].contains (String.ofList (segment.map Char.toLower))

/-- The path when a segment has been read: a dot segment at the end leaves an empty one. -/
def endSegment (path : List (List Char)) (segment : List Char) (last : Bool) : List (List Char) :=
  if isDoubleDot segment then if last then path.dropLast ++ [[]] else path.dropLast
  else if isSingleDot segment then if last then path ++ [[]] else path
  else path ++ [segment]

/-- The path state: `segment` is what has been read of the current segment. -/
def pathState (path : List (List Char)) (segment : List Char) : List Char → List (List Char)
  | [] => endSegment path segment true
  | c :: cs =>
    if isDelimiter c then endSegment path segment true
    else if isSlash c then pathState (endSegment path segment false) [] cs
    else pathState path (segment ++ encodeInPath c) cs

/-- The path of a text behind its first slash. -/
def pathOf (cs : List Char) : List (List Char) := pathState [] [] cs

/-! ### Resolving -/

/-- Where a URL leads. -/
structure Location (η : Type) where
  origin : Origin η
  path : List (List Char)

def Location.pathname {η : Type} (location : Location η) : String :=
  String.ofList (location.path.flatMap fun segment => '/' :: segment)

def isTabOrNewline (c : Char) : Bool := c = '\t' || c = '\n' || c = '\r'

def isControlOrSpace (c : Char) : Bool := c.toNat ≤ 0x20

/-- The text that is parsed. -/
def cleaned (text : String) : List Char :=
  (((text.toList.dropWhile isControlOrSpace).reverse.dropWhile isControlOrSpace).reverse).filter
    (! isTabOrNewline ·)

/-- The path behind an authority. -/
def afterAuthority : List Char → List Char
  | [] => []
  | c :: cs => if isSlash c then cs else c :: cs

def isAuthorityEnd (c : Char) : Bool := isSlash c || isDelimiter c

variable {η : Type} (parseHost : List Char → Option η) (base : Origin η)

/-- What stands behind the first slash, resolved: a second slash at the front is followed by an
authority. -/
def resolveRest : List Char → Option (Location η)
  | [] => some ⟨base, pathOf []⟩
  | c :: cs =>
    if isSlash c then
      let text := cs.dropWhile isSlash
      (authorityOf parseHost base.scheme (text.takeWhile (! isAuthorityEnd ·))).map fun origin =>
        ⟨origin, pathOf (afterAuthority (text.dropWhile (! isAuthorityEnd ·)))⟩
    else some ⟨base, pathOf (c :: cs)⟩

/-- `new URL(text, origin)` for a text that begins with a slash; other texts are not read here. -/
def resolve (text : String) : Option (Location η) :=
  match cleaned text with
  | c :: cs => if isSlash c then resolveRest parseHost base cs else none
  | [] => none

/-! ### Where a path leads -/

/-- The segments of a path as they are read, dot segments among them. -/
def segmentsFrom (segment : List Char) : List Char → List (List Char)
  | [] => [segment]
  | c :: cs =>
    if isDelimiter c then [segment]
    else if isSlash c then segment :: segmentsFrom [] cs
    else segmentsFrom (segment ++ encodeInPath c) cs

def segmentsOf (cs : List Char) : List (List Char) := segmentsFrom [] cs

/-- How deep a path is after one more segment. -/
def stepDepth (depth : ℕ) (segment : List Char) : ℕ :=
  if isDoubleDot segment then depth - 1 else if isSingleDot segment then depth else depth + 1

/-- The segments lead into a directory at the top: all before its name cancel out, and what
follows does not climb out of it again. -/
def LeadsInto (name : List Char) (segments : List (List Char)) : Prop :=
  ∃ before after, segments = before ++ name :: after ∧ before.foldl stepDepth 0 = 0 ∧
    ∀ inside, inside <+: after → 0 < inside.foldl stepDepth 1

variable {path segments : List (List Char)} {segment name : List Char}

/-- The path after a segment that is not the last. -/
def push (path : List (List Char)) (segment : List Char) : List (List Char) :=
  endSegment path segment false

lemma length_push : (push path segment).length = stepDepth path.length segment := by
  unfold push endSegment stepDepth
  split_ifs <;> simp_all

lemma length_foldl_push :
    (segments.foldl push path).length = segments.foldl stepDepth path.length := by
  induction segments generalizing path with
  | nil => rfl
  | cons segment segments ih => rw [List.foldl_cons, List.foldl_cons, ih, length_push]

lemma head?_dropLast (h : 1 < path.length) : path.dropLast.head? = path.head? := by
  match path, h with
  | first :: second :: rest, _ => rfl

/-- How one more segment leads there, or does not lead out again. -/
lemma leadsInto_concat (hdouble : isDoubleDot name = false) (hsingle : isSingleDot name = false) :
    LeadsInto name (segments ++ [segment]) ↔
      (segment = name ∧ segments.foldl stepDepth 0 = 0) ∨
        (LeadsInto name segments ∧ 0 < stepDepth (segments.foldl stepDepth 0) segment) := by
  have hname : stepDepth 0 name = 1 := by simp [stepDepth, hdouble, hsingle]
  have hdepth : ∀ before after : List (List Char), before.foldl stepDepth 0 = 0 →
      (before ++ name :: after).foldl stepDepth 0 = after.foldl stepDepth 1 := by
    intro before after hbefore
    rw [List.foldl_append, hbefore, List.foldl_cons, hname]
  constructor
  · rintro ⟨before, after, heq, hbefore, hinside⟩
    rcases List.eq_nil_or_concat after with rfl | ⟨after, last, rfl⟩
    · obtain ⟨rfl, hlast⟩ := List.append_inj' heq rfl
      exact .inl ⟨(List.cons.inj hlast).1, hbefore⟩
    · rw [List.concat_eq_append, ← List.cons_append, ← List.append_assoc] at heq
      obtain ⟨rfl, hlast⟩ := List.append_inj' heq rfl
      obtain rfl := (List.cons.inj hlast).1
      rw [List.concat_eq_append] at hinside
      refine .inr ⟨⟨before, after, rfl, hbefore, fun inside h => ?_⟩, ?_⟩
      · exact hinside inside (h.trans (List.prefix_append _ _))
      · rw [hdepth before after hbefore]
        simpa using hinside (after ++ [segment]) (List.prefix_refl _)
  · rintro (⟨rfl, hzero⟩ | ⟨⟨before, after, rfl, hbefore, hinside⟩, hpositive⟩)
    · refine ⟨segments, [], rfl, hzero, fun inside h => ?_⟩
      rw [List.prefix_nil.mp h]
      exact Nat.one_pos
    · refine ⟨before, after ++ [segment], by simp, hbefore, fun inside h => ?_⟩
      rcases List.prefix_concat_iff.mp h with rfl | h
      · rw [hdepth before after hbefore] at hpositive
        simpa using hpositive
      · exact hinside inside h

/-- **The first segment of a path** is the directory that its segments lead into. -/
theorem head?_foldl_push (hdouble : isDoubleDot name = false) (hsingle : isSingleDot name = false) :
    (segments.foldl push []).head? = some name ↔ LeadsInto name segments := by
  induction segments using List.reverseRecOn with
  | nil => simp [LeadsInto]
  | append_singleton segments segment ih =>
    have hlength : (segments.foldl push []).length = segments.foldl stepDepth 0 :=
      length_foldl_push
    rw [List.foldl_append, List.foldl_cons, List.foldl_nil, leadsInto_concat hdouble hsingle, ← ih,
      ← hlength]
    generalize segments.foldl push [] = path
    by_cases hd : isDoubleDot segment
    · have hne : segment ≠ name := by
        rintro rfl
        simp [hd] at hdouble
      have hpush : push path segment = path.dropLast := by simp [push, endSegment, hd]
      rw [hpush]
      simp only [hne, false_and, false_or, stepDepth, hd, if_true, Nat.sub_pos_iff_lt]
      constructor
      · intro hhead
        have hlong : 1 < path.length := by
          by_contra hshort
          match path, hshort with
          | [], _ => cases hhead
          | [_], _ => cases hhead
          | _ :: _ :: _, hshort => exact hshort (by simp)
        exact ⟨head?_dropLast hlong ▸ hhead, hlong⟩
      · rintro ⟨hhead, hlong⟩
        rw [head?_dropLast hlong, hhead]
    · by_cases hs : isSingleDot segment
      · have hne : segment ≠ name := by
          rintro rfl
          simp [hs] at hsingle
        simp only [push, endSegment, stepDepth, hd, hs, if_true, if_false, Bool.false_eq_true, hne,
          false_and, false_or]
        refine ⟨fun hhead => ⟨hhead, ?_⟩, And.left⟩
        exact List.length_pos_of_mem (List.mem_of_head? hhead)
      · have hpush : push path segment = path ++ [segment] := by simp [push, endSegment, hd, hs]
        rw [hpush]
        cases path with
        | nil => simp
        | cons first rest => simp [stepDepth, hd, hs]

/-- The path is that of its segments, but that a dot segment at its end leaves an empty one. -/
lemma head?_pathState {name : List Char} (hname : name ≠ []) (cs : List Char) :
    (pathState path segment cs).head? = some name ↔
      ((segmentsFrom segment cs).foldl push path).head? = some name := by
  have hlast : ∀ (path : List (List Char)) (segment : List Char),
      (endSegment path segment true).head? = some name ↔
        (push path segment).head? = some name := by
    intro path segment
    have hempty : ∀ path : List (List Char),
        (path ++ [[]]).head? = some name ↔ path.head? = some name := by
      rintro (_ | ⟨first, rest⟩)
      · simp [Ne.symm hname]
      · simp
    by_cases hd : isDoubleDot segment
    · simpa [push, endSegment, hd] using hempty path.dropLast
    · by_cases hs : isSingleDot segment
      · simpa [push, endSegment, hd, hs] using hempty path
      · simp [push, endSegment, hd, hs]
  induction cs generalizing path segment with
  | nil => exact hlast path segment
  | cons c cs ih =>
    rw [pathState, segmentsFrom]
    split_ifs
    · exact hlast path segment
    · exact ih
    · exact ih

/-- **Where a path leads** can be told from its segments. -/
theorem head?_pathOf {cs : List Char} (hname : name ≠ []) (hdouble : isDoubleDot name = false)
    (hsingle : isSingleDot name = false) :
    (pathOf cs).head? = some name ↔ LeadsInto name (segmentsOf cs) :=
  (head?_pathState hname cs).trans (head?_foldl_push hdouble hsingle)

/-! ### The text of a path -/

/-- No segment has a slash in it. -/
def Plain (path : List (List Char)) : Prop := ∀ segment ∈ path, '/' ∉ segment

lemma Plain.endSegment (h : Plain path) (hs : '/' ∉ segment) (last : Bool) :
    Plain (endSegment path segment last) := by
  have hdrop : Plain path.dropLast :=
    fun segment hmem => h segment ((List.dropLast_subset path) hmem)
  have hadd : ∀ {path : List (List Char)} {segment : List Char}, Plain path → '/' ∉ segment →
      Plain (path ++ [segment]) := by
    intro path segment hp hs other hmem
    rcases List.mem_append.mp hmem with hmem | hmem
    · exact hp other hmem
    · exact List.mem_singleton.mp hmem ▸ hs
  unfold Url.endSegment
  split_ifs
  · exact hadd hdrop List.not_mem_nil
  · exact hdrop
  · exact hadd h List.not_mem_nil
  · exact h
  · exact hadd h hs

lemma slash_not_mem_encodeInPath {c : Char} (h : isSlash c = false) : '/' ∉ encodeInPath c := by
  unfold encodeInPath
  split_ifs
  · have hdigit : ∀ n < 16, Percent.hexDigit n ≠ '/' := by decide
    intro hmem
    obtain ⟨b, -, hb⟩ := List.mem_flatMap.mp hmem
    have hb' := b.toNat_lt
    simp only [Percent.encodeByte, List.mem_cons, List.not_mem_nil, or_false] at hb
    rcases hb with hb | hb | hb
    · cases hb
    · exact hdigit _ (by omega) hb.symm
    · exact hdigit _ (by omega) hb.symm
  · rw [List.mem_singleton]
    rintro rfl
    simp [isSlash] at h

lemma plain_pathState {cs : List Char} (h : Plain path) (hs : '/' ∉ segment) :
    Plain (pathState path segment cs) := by
  induction cs generalizing path segment with
  | nil => exact h.endSegment hs true
  | cons c cs ih =>
    rw [pathState]
    split_ifs with hd hc
    · exact h.endSegment hs true
    · exact ih (h.endSegment hs false) List.not_mem_nil
    · refine ih h ?_
      rw [List.mem_append, not_or]
      exact ⟨hs, slash_not_mem_encodeInPath (by simpa using hc)⟩

lemma plain_pathOf (cs : List Char) : Plain (pathOf cs) :=
  plain_pathState (fun _ h => absurd h List.not_mem_nil) List.not_mem_nil

/-- The text of a path at or below a directory at the top. -/
lemma pathname_below_iff {location : Location η} (h : Plain location.path) (hname : '/' ∉ name) :
    (location.pathname.toList = '/' :: name ∨
      '/' :: (name ++ ['/']) <+: location.pathname.toList) ↔ location.path.head? = some name := by
  have htake : ∀ cs rest : List Char, '/' ∉ cs → (∀ c ∈ rest.head?, c = '/') →
      (cs ++ rest).takeWhile (· ≠ '/') = cs := by
    intro cs rest hcs hrest
    have hall : ∀ c ∈ cs, (decide (c ≠ '/')) = true := fun c hc =>
      decide_eq_true fun heq => hcs (heq ▸ hc)
    rw [List.takeWhile_append_of_pos hall]
    match rest, hrest with
    | [], _ => simp
    | c :: rest, hrest => simp [hrest c rfl]
  rw [Location.pathname, String.toList_ofList]
  cases hpath : location.path with
  | nil => simp
  | cons first rest =>
    have hfirst : '/' ∉ first := h first (by simp [hpath])
    have hslash : ∀ c ∈ (rest.flatMap fun segment => '/' :: segment).head?, c = '/' := by
      cases rest with
      | nil => simp
      | cons second rest => simp
    have hown := htake first (rest.flatMap fun segment => '/' :: segment) hfirst hslash
    simp only [List.flatMap_cons, List.cons_append, List.cons.injEq, true_and,
      List.cons_prefix_cons, List.head?_cons, Option.some.injEq]
    constructor
    · rintro (heq | ⟨tail, heq⟩)
      · rw [heq] at hown
        rw [← hown]
        simpa using htake name [] hname (by simp)
      · rw [← heq, List.append_assoc] at hown
        rw [← hown]
        exact htake name _ hname (by simp)
    · rintro rfl
      cases rest with
      | nil => simp
      | cons second rest =>
        refine .inr ⟨second ++ rest.flatMap fun segment => '/' :: segment, ?_⟩
        simp

/-- What begins with a slash does so when it has been cleaned. -/
lemma cleaned_of_slash {text : String} {cs : List Char} (h : text.toList = '/' :: cs) :
    ∃ rest, cleaned text = '/' :: rest := by
  have hkeep : ∀ l : List Char, (l ++ ['/']).dropWhile isControlOrSpace =
      l.dropWhile isControlOrSpace ++ ['/'] := by
    intro l
    induction l with
    | nil => rfl
    | cons c l ih =>
      rw [List.cons_append, List.dropWhile_cons, List.dropWhile_cons]
      split_ifs
      · exact ih
      · rfl
  have hfirst : ('/' :: cs).dropWhile isControlOrSpace = '/' :: cs := rfl
  rw [cleaned, h, hfirst, List.reverse_cons, hkeep, List.reverse_append]
  exact ⟨_, rfl⟩

end Workbench.Lib.Url
