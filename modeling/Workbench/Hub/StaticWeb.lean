import Workbench.Lib.Path
import Workbench.Lib.Percent

/-!
The files of the web app that the hub serves.

The path of a request is decoded and resolved against the root of the build. What is not below the
root is answered with `index.html`, which leaves the route to the app.
-/

namespace Workbench.Hub.StaticWeb

open Workbench.Lib

/-- What the handler asks of the file system. -/
structure Files where
  existsSync : String → Bool
  /-- `Bun.file(path).exists()` -/
  isFile : String → Bool
  /-- `Bun.file(path).type` -/
  mimeType : String → String

structure Request where
  method : String
  pathname : String
  deriving DecidableEq, Repr

inductive Body
  | nothing
  | text (text : String)
  | file (path : String)
  deriving DecidableEq, Repr

structure Response where
  status : ℕ
  headers : List (String × String)
  body : Body
  deriving DecidableEq, Repr

/-- `path.resolve(base, text)` for an absolute base. -/
def resolve (base text : String) : String := Path.text (Path.resolve (Path.resolve [] base) text)

/-- `path.extname`: what stands from the last dot of the name on, unless the name begins with it. -/
def extname (text : String) : String :=
  let name := ((text.toList.reverse.dropWhile (· = '/')).takeWhile (· ≠ '/')).reverse
  let stem := (name.reverse.dropWhile (· ≠ '.')).drop 1
  if stem.length = 0 ∨ name = ['.', '.'] then "" else String.ofList (name.drop stem.length)

/-- The file that a decoded path stands for. -/
def assetPathOf (root indexPath decoded : String) : Option String :=
  if '\x00' ∈ decoded.toList then none
  else
    let candidate := resolve root ("." ++ decoded)
    if candidate = root ∨ candidate = indexPath then some indexPath
    else if (root.toList ++ ['/']).isPrefixOf candidate.toList then some candidate
    else none

/-- An error of the decoding is caught. -/
def resolveAssetPath (root indexPath pathname : String) :
    Except Percent.URIError (Option String) :=
  tryCatch ((Percent.decodeURIComponent pathname).map (assetPathOf root indexPath))
    fun _ => .ok none

def bodyOf (request : Request) (file : String) : Body :=
  if request.method = "HEAD" then .nothing else .file file

def cacheControl (pathname : String) : String :=
  if "/assets/".toList.isPrefixOf pathname.toList then "public, max-age=31536000, immutable"
  else "public, max-age=0, must-revalidate"

def assetResponse (files : Files) (request : Request) (file : String) : Response where
  status := 200
  headers :=
    (if files.mimeType file ≠ "" then [("Content-Type", files.mimeType file)] else []) ++
      [("Cache-Control", cacheControl request.pathname)]
  body := bodyOf request file

def notFound : Response :=
  ⟨404, [("Content-Type", "text/plain; charset=utf-8")], .text "Not Found"⟩

def indexResponse (request : Request) (indexPath : String) : Response where
  status := 200
  headers := [("Content-Type", "text/html; charset=utf-8"), ("Cache-Control", "no-cache")]
  body := bodyOf request indexPath

/-- The response to a request with the path that its own is resolved to. -/
def respond (files : Files) (indexPath : String) (request : Request) : Option String → Response
  | none => indexResponse request indexPath
  | some candidate =>
    if candidate = indexPath then indexResponse request indexPath
    else if files.isFile candidate then assetResponse files request candidate
    else if extname request.pathname ≠ "" then notFound
    else indexResponse request indexPath

def serveStaticWeb (files : Files) (root indexPath : String) (request : Request) :
    Except Percent.URIError Response :=
  (resolveAssetPath root indexPath request.pathname).map (respond files indexPath request)

def rootOf (cwd distDir : String) : String := resolve cwd distDir

def indexPathOf (cwd distDir : String) : String := resolve (rootOf cwd distDir) "index.html"

def createStaticWebHandler (files : Files) (cwd distDir : String) :
    Except String (Request → Except Percent.URIError Response) :=
  if files.existsSync (indexPathOf cwd distDir) then
    .ok (serveStaticWeb files (rootOf cwd distDir) (indexPathOf cwd distDir))
  else .error ("WEB_DIST_DIR has no index.html: " ++ rootOf cwd distDir)

/-! ### What is served -/

/-- A file that is resolved already, and strictly below the root. -/
structure Below (root file : String) : Prop where
  resolved : Path.text (Path.resolve [] file) = file
  below : Path.resolve [] root <+: Path.resolve [] file
  strict : Path.resolve [] root ≠ Path.resolve [] file

variable {files : Files} {cwd distDir root indexPath pathname base text : String}
  {request : Request}

lemma resolved_resolve : (Path.resolve (Path.resolve [] base) text).Resolved :=
  (Path.resolved_nil.resolve base).resolve text

/-- A resolved text is the text of the path it names. -/
lemma resolve_resolve : Path.resolve [] (resolve base text) =
    Path.resolve (Path.resolve [] base) text :=
  Path.resolve_text resolved_resolve

lemma resolve_eq_text : resolve base text = Path.text (Path.resolve [] (resolve base text)) := by
  rw [resolve_resolve, resolve]

/-- **The check of the prefix** is that of the place. -/
lemma below_of_isPrefixOf
    (h : ((rootOf cwd distDir).toList ++ ['/']).isPrefixOf (resolve base text).toList) :
    Below (rootOf cwd distDir) (resolve base text) := by
  have hprefix := List.isPrefixOf_iff_prefix.mp h
  have hroot : rootOf cwd distDir = Path.text (Path.resolve [] (rootOf cwd distDir)) :=
    resolve_eq_text
  rw [resolve_eq_text, hroot] at hprefix
  have hplace := Path.below_of_text (Path.resolved_nil.resolve _) (Path.resolved_nil.resolve _)
    hprefix
  exact ⟨resolve_eq_text.symm, hplace.1, hplace.2⟩

lemma assetPathOf_cases {decoded file : String}
    (h : assetPathOf (rootOf cwd distDir) indexPath decoded = some file) :
    file = indexPath ∨ Below (rootOf cwd distDir) file := by
  unfold assetPathOf at h
  dsimp only at h
  split_ifs at h with hnul hindex hbelow
  · exact .inl (Option.some.inj h).symm
  · obtain rfl := Option.some.inj h
    exact .inr (below_of_isPrefixOf hbelow)

/-- What a path is resolved to. -/
lemma resolveAssetPath_cases (cwd distDir indexPath pathname : String) :
    ∃ candidate, resolveAssetPath (rootOf cwd distDir) indexPath pathname = .ok candidate ∧
      ∀ file ∈ candidate, file = indexPath ∨ Below (rootOf cwd distDir) file := by
  unfold resolveAssetPath
  cases Percent.decodeURIComponent pathname with
  | error e => exact ⟨none, rfl, by simp⟩
  | ok decoded => exact ⟨_, rfl, fun file h => assetPathOf_cases h⟩

/-- The file that a response carries. -/
def Response.file (response : Response) : Option String :=
  match response.body with
  | .file path => some path
  | _ => none

lemma file_of_bodyOf {status : ℕ} {headers : List (String × String)} {file path : String}
    (h : path ∈ Response.file ⟨status, headers, bodyOf request file⟩) : path = file := by
  unfold bodyOf at h
  split_ifs at h
  · cases h
  · exact (Option.some.inj h).symm

lemma file_respond {candidate : Option String} {file : String}
    (h : file ∈ (respond files indexPath request candidate).file) :
    file = indexPath ∨ file ∈ candidate := by
  cases candidate with
  | none => exact .inl (file_of_bodyOf h)
  | some candidate =>
    rw [respond] at h
    split_ifs at h with hindex hfile hextname
    · exact .inl (file_of_bodyOf h)
    · exact .inr (congrArg some (file_of_bodyOf h).symm)
    · cases h
    · exact .inl (file_of_bodyOf h)

/-- **No path escapes.** Whatever the path of the request, the handler returns a response, and the
file in it is `index.html` or strictly below the root. -/
theorem served_below (files : Files) (cwd distDir : String) :
    (createStaticWebHandler files cwd distDir).isOk = false ∨
      ∃ handler, createStaticWebHandler files cwd distDir = .ok handler ∧
        ∀ request, ∃ response, handler request = .ok response ∧
          ∀ file ∈ response.file,
            file = indexPathOf cwd distDir ∨ Below (rootOf cwd distDir) file := by
  unfold createStaticWebHandler
  split_ifs with hexists
  · refine .inr ⟨_, rfl, fun request => ?_⟩
    obtain ⟨candidate, hresolve, hplace⟩ :=
      resolveAssetPath_cases cwd distDir (indexPathOf cwd distDir) request.pathname
    refine ⟨respond files (indexPathOf cwd distDir) request candidate, ?_, fun file hfile => ?_⟩
    · rw [serveStaticWeb, hresolve]
      rfl
    · rcases file_respond hfile with hindex | hcandidate
      · exact .inl hindex
      · exact hplace file hcandidate
  · exact .inl rfl

end Workbench.Hub.StaticWeb
