import Workbench.Lib.Url

/-!
Where a login leads to.

The path behind `next=` is checked as a text, and then it is resolved by the browser, which reads
it otherwise: it drops tabs and line ends, takes a backslash for a slash, cancels dot segments and
stops at a fragment.
-/

namespace Workbench.Web.LoginNext

open Workbench.Lib Workbench.Lib.Url

def loginPath : String := "/login"

def startsWith (text part : String) : Bool := part.toList.isPrefixOf text.toList

def includes (text part : String) : Bool := text.toList.tails.any part.toList.isPrefixOf

def validatedNextPath (search : String) : String :=
  match getParam (searchParams search) "next" with
  | none => "/"
  | some next =>
    if ¬ startsWith next "/" then "/"
    else if startsWith next "//" || startsWith next "/\\" then "/"
    else if includes next "://" then "/"
    else if next = loginPath || startsWith next (loginPath ++ "/") then "/"
    else if startsWith next (loginPath ++ "?") then "/"
    else next

/-! ### Staying in the app -/

variable {η : Type} (parseHost : List Char → Option η) (origin : Origin η)

/-- The login path, or a path below it. -/
def IsLogin (pathname : String) : Prop :=
  pathname = loginPath ∨ startsWith pathname (loginPath ++ "/")

/-- After a login the browser is at a path of the app that is not the login path, nor below it. -/
def StaysInApp (search : String) : Prop :=
  ∃ location, resolve parseHost origin (validatedNextPath search) = some location ∧
    location.origin = origin ∧ ¬ IsLogin location.pathname

/-- A path that the checks turn down. -/
def IsRejected (next : String) : Bool :=
  !startsWith next "/" || startsWith next "//" || startsWith next "/\\" || includes next "://" ||
    next = loginPath || startsWith next (loginPath ++ "/") || startsWith next (loginPath ++ "?")

/-- The segment of the login path. -/
def loginSegment : List Char := "login".toList

/-- What stands behind the first slash keeps to the app: there is no second slash at its front, or
it is followed by the authority of the app itself; and its segments do not lead into `login`. -/
def KeepsToApp : List Char → Prop
  | [] => True
  | c :: cs =>
    if isSlash c then
      let text := cs.dropWhile isSlash
      authorityOf parseHost origin.scheme (text.takeWhile (! isAuthorityEnd ·)) = some origin ∧
        ¬ LeadsInto loginSegment
          (segmentsOf (afterAuthority (text.dropWhile (! isAuthorityEnd ·))))
    else ¬ LeadsInto loginSegment (segmentsOf (c :: cs))

variable {parseHost origin} {search next : String} {cs : List Char}

lemma validatedNextPath_of_none (h : getParam (searchParams search) "next" = none) :
    validatedNextPath search = "/" := by
  rw [validatedNextPath, h]

lemma validatedNextPath_of_some (h : getParam (searchParams search) "next" = some next) :
    validatedNextPath search = if IsRejected next then "/" else next := by
  rw [validatedNextPath, h]
  simp only [IsRejected, Bool.or_eq_true, Bool.not_eq_true', decide_eq_true_eq]
  split_ifs <;> simp_all

/-- What is not rejected begins with a slash. -/
lemma slash_of_not_rejected (h : ¬ IsRejected next) : ∃ rest, cleaned next = '/' :: rest := by
  have hslash : startsWith next "/" := by
    simp only [IsRejected, Bool.or_eq_true, not_or] at h
    simpa using h.1.1.1.1.1.1
  obtain ⟨tail, htail⟩ := List.isPrefixOf_iff_prefix.mp hslash
  have hnext : next.toList = '/' :: tail := htail.symm
  exact cleaned_of_slash hnext

lemma isLogin_iff {location : Location η} (h : Plain location.path) :
    IsLogin location.pathname ↔ location.path.head? = some loginSegment := by
  rw [← pathname_below_iff h (by decide)]
  have htext : location.pathname = loginPath ↔
      location.pathname.toList = '/' :: loginSegment := by
    rw [← String.toList_inj]
    rfl
  rw [IsLogin, htext, startsWith, List.isPrefixOf_iff_prefix]
  rfl

lemma leads_iff (cs : List Char) : (pathOf cs).head? = some loginSegment ↔
    LeadsInto loginSegment (segmentsOf cs) :=
  head?_pathOf (by decide) (by decide) (by decide)

/-- **Resolving** keeps to the app exactly when the text does. -/
lemma resolveRest_iff : (∃ location, resolveRest parseHost origin cs = some location ∧
    location.origin = origin ∧ ¬ IsLogin location.pathname) ↔ KeepsToApp parseHost origin cs := by
  have hlogin : ∀ (o : Origin η) (cs : List Char),
      IsLogin (Location.mk o (pathOf cs)).pathname ↔
        LeadsInto loginSegment (segmentsOf cs) := fun o cs =>
    (isLogin_iff (plain_pathOf cs)).trans (leads_iff cs)
  cases cs with
  | nil =>
    refine ⟨fun _ => trivial, fun _ => ⟨_, rfl, rfl, ?_⟩⟩
    rw [isLogin_iff (plain_pathOf [])]
    change ¬ (pathOf []).head? = some loginSegment
    decide
  | cons c cs =>
    rw [resolveRest, KeepsToApp]
    split_ifs with hc
    · dsimp only
      constructor
      · rintro ⟨location, hlocation, horigin, hnot⟩
        obtain ⟨o, ho, rfl⟩ := Option.map_eq_some_iff.mp hlocation
        obtain rfl : o = origin := horigin
        exact ⟨ho, (hlogin _ _).not.mp hnot⟩
      · rintro ⟨hauthority, hnot⟩
        exact ⟨_, Option.map_eq_some_iff.mpr ⟨origin, hauthority, rfl⟩, rfl,
          (hlogin _ _).not.mpr hnot⟩
    · constructor
      · rintro ⟨location, hlocation, -, hnot⟩
        obtain rfl := Option.some.inj hlocation
        exact (hlogin _ _).not.mp hnot
      · exact fun hnot => ⟨_, rfl, rfl, (hlogin _ _).not.mpr hnot⟩

/-- **When a login stays in the app**: when there is no path to return to, or it is rejected, or
what the browser reads behind its first slash keeps to the app. -/
theorem staysInApp_iff (parseHost : List Char → Option η) (origin : Origin η) (search : String) :
    StaysInApp parseHost origin search ↔
      ∀ next, getParam (searchParams search) "next" = some next → ¬ IsRejected next →
        KeepsToApp parseHost origin ((cleaned next).drop 1) := by
  have hroot : ∃ location, resolveRest parseHost origin [] = some location ∧
      location.origin = origin ∧ ¬ IsLogin location.pathname :=
    resolveRest_iff.2 trivial
  have hhome : ∃ location, resolve parseHost origin "/" = some location ∧
      location.origin = origin ∧ ¬ IsLogin location.pathname := hroot
  unfold StaysInApp
  cases hget : getParam (searchParams search) "next" with
  | none =>
    rw [validatedNextPath_of_none hget]
    simpa using hhome
  | some next =>
    rw [validatedNextPath_of_some hget]
    by_cases hrejected : IsRejected next
    · simpa [hrejected] using hhome
    · obtain ⟨rest, hrest⟩ := slash_of_not_rejected hrejected
      have hresolve : resolve parseHost origin next = resolveRest parseHost origin rest := by
        rw [resolve, hrest]
        rfl
      simp only [hrejected, Bool.false_eq_true, if_false, hresolve, resolveRest_iff,
        Option.some.injEq, forall_eq', not_false_eq_true, forall_const, hrest, List.drop_one,
        List.tail_cons]

/-- Hosts are texts that are not empty. -/
def hostText (cs : List Char) : Option String :=
  if cs.length = 0 then none else some (String.ofList cs)

/-- **A tab between two slashes** leads to another host. -/
theorem tab_leads_away :
    ¬ StaysInApp hostText ⟨.https, "app.example", none⟩ "?next=/%09/evil.example" := by
  rintro ⟨location, hlocation, horigin, -⟩
  have haway : (resolve hostText ⟨.https, "app.example", none⟩
      (validatedNextPath "?next=/%09/evil.example")).map (·.origin.host) =
        some "evil.example" := by decide
  rw [hlocation, Option.map_some, horigin] at haway
  exact absurd haway (by decide)

end Workbench.Web.LoginNext
