import Workbench.Lib.Json
import Workbench.Lib.OrderedMap
import Workbench.Lib.Path
import Workbench.Web.FenceLabel

/-!
An agent package in the fenced blocks of a message.

The reader goes through the lines once. Outside a fence nothing happens but that the last line is
kept in mind, so prose leaves the reader as it is; a fence is read to the first line that is only
backticks, and a block that has a name goes into the map of what is found. So what a message of two
fenced files and prose around them is read to is put together from one lemma about a line of prose
and one about a block.
-/

namespace Workbench.Web.ChatPackage

open List Workbench.Lib
open Workbench.Lib.NumberText (isTrimmed trim)

structure FencedBlockMatch where
  content : List Char
  start : ℕ
  stop : ℕ

abbrev Found := OrderedMap ContractFile FencedBlockMatch

def isBlank (line : Line) : Bool := (trim line).isEmpty

def isClosing (line : Line) : Bool := trim line = ticks

/-- The file a block names, whether the line above it says so, and the lines of its text. -/
def nameOfBlock (info : Line) (previous : Option Line) (contentLines : List Line) :
    Option (ContractFile × Bool × List Line) :=
  match namedFileFromInfoString info with
  | some file => some (file, false, contentLines)
  | none =>
    match previous.bind namedFile with
    | some file => some (file, true, contentLines)
    | none =>
      -- the first line that shows something, which is no part of the file if it is a label
      match contentLines.dropWhile isBlank with
      | [] => none
      | first :: text => (namedFile first).map fun file => (file, false, text)

/-- The first block of a file counts. -/
def record (found : Found) (fenceLine stop : ℕ) :
    Option (ContractFile × Bool × List Line) → Found
  | none => found
  | some (file, labelled, contentLines) =>
    if found.has file then found
    else found.set file ⟨['\n'].intercalate contentLines,
      if labelled then fenceLine - 1 else fenceLine, stop⟩

/-- The loop, with the lines that have been read, the last one first. Each round takes a line, so as
many rounds as lines are enough. -/
def scan : ℕ → List Line → List Line → Found → Found
  | 0, _, _, found => found
  | _, _, [], found => found
  | fuel + 1, before, line :: rest, found =>
    match fenceInfo line with
    | none => scan fuel (line :: before) rest found
    | some info =>
      let contentLines := rest.takeWhile fun l => !isClosing l
      let behind := rest.dropWhile fun l => !isClosing l
      let block := line :: (contentLines ++ behind.take 1)
      scan fuel (block.reverse ++ before) (behind.drop 1)
        (record found before.length (before.length + block.length)
          (nameOfBlock info before.head? contentLines))

def findNamedFencedBlocks (lines : List Line) : Found := scan lines.length [] lines OrderedMap.empty

/-! ### The contract files -/

structure ArkError where
  path : List String
  code : String
  problem : String

structure PackageManifest where
  name : Option String

structure AgentDefinition where
  name : Option String
  systemPrompt : String
  description : Option String
  schedule : Option String
  mcpHandles : Option (List String)

structure DeployablePackage where
  name : String
  systemPrompt : String
  description : Option String
  schedule : Option String
  mcpHandles : Option (List String)

/-- The two types that `arktype` checks a value against. -/
structure Shapes (ν : Type) where
  packageManifest : Json ν → Except (List ArkError) PackageManifest
  agentDefinition : Json ν → Except (List ArkError) AgentDefinition

section

variable {ν : Type} (num : Numerals ν) (shapes : Shapes ν)

def fieldOf (errors : List ArkError) : String :=
  ((errors.head?.bind fun error => error.path.getLast?).getD "value")

def definitionRejectionReason (errors : List ArkError) : String :=
  match errors.head? with
  | none => "definition.json's " ++ fieldOf errors ++ " is invalid"
  | some error =>
    if error.code = "required" then "definition.json is missing " ++ fieldOf errors
    else "definition.json's " ++ fieldOf errors ++ " " ++ error.problem

def trimmed (text : String) : String := String.ofList (trim text.toList)

/-- `definition.name?.trim() || manifest.name?.trim()`, nothing being the empty name. -/
def packageName (definition : AgentDefinition) (manifest : PackageManifest) : String :=
  let own := (definition.name.map trimmed).getD ""
  if own = "" then (manifest.name.map trimmed).getD "" else own

def parsePackageFiles (manifestText definitionText : List Char) : Except String DeployablePackage :=
  match Json.parse num manifestText with
  | none => .error "package.json is not valid JSON"
  | some manifestBody =>
    match shapes.packageManifest manifestBody with
    | .error errors => .error ("package.json's " ++ fieldOf errors ++ " is invalid")
    | .ok manifest =>
      match Json.parse num definitionText with
      | none => .error "definition.json is not valid JSON"
      | some definitionBody =>
        match shapes.agentDefinition definitionBody with
        | .error errors => .error (definitionRejectionReason errors)
        | .ok definition =>
          let name := packageName definition manifest
          if name = "" then .error "definition.json is missing name"
          else if trimmed definition.systemPrompt = "" then
            .error "definition.json is missing systemPrompt"
          else .ok
            { name
              systemPrompt := definition.systemPrompt
              description := definition.description
              schedule := definition.schedule
              mcpHandles := definition.mcpHandles.map fun handles =>
                (handles.map trimmed).filter (· ≠ "") }

/-- The lines outside the ranges, which are in order. -/
def keptLines (lines : List Line) (cursor : ℕ) : List FencedBlockMatch → List Line
  | [] => lines.drop cursor
  | range :: ranges =>
    (lines.drop cursor).take (range.start - cursor) ++ keptLines lines range.stop ranges

/-- `.replace(/\n{3,}/g, "\n\n")`, when as many line ends stand in front. -/
def collapseLineEnds : ℕ → List Char → List Char
  | _, [] => []
  | count, c :: cs =>
    if c = '\n' then
      if count < 2 then c :: collapseLineEnds (count + 1) cs else collapseLineEnds count cs
    else c :: collapseLineEnds 0 cs

def strippedBody (kept : List Line) : List Char :=
  trim (collapseLineEnds 0 (['\n'].intercalate kept))

def deployablePackageFromBody (body : List Char) :
    Option (Except String DeployablePackage × List Char) :=
  let lines := body.splitOn '\n'
  let blocks := findNamedFencedBlocks lines
  match blocks.get .manifest, blocks.get .definition with
  | some manifest, some definition =>
    let outcome := parsePackageFiles num shapes manifest.content definition.content
    let ranges :=
      if manifest.start ≤ definition.start then [manifest, definition]
      else [definition, manifest]
    some (outcome, strippedBody (keptLines lines 0 ranges))
  | _, _ => none

end

/-- What opens the block of a file: the lines above the fence, the fence, and the lines in it that
are not of the text. -/
inductive Opens (file : ContractFile) : List Line → Line → List Line → Prop
  | infoString {fence info : Line} (hfence : fenceInfo fence = some info)
      (hname : namedFileFromInfoString info = some file) : Opens file [] fence []
  | lineAbove {label fence info : Line} (hlabel : fenceInfo label = none)
      (hname : namedFile label = some file) (hfence : fenceInfo fence = some info)
      (hinfo : namedFileFromInfoString info = none) : Opens file [label] fence []
  | firstLine {fence info label : Line} (hfence : fenceInfo fence = some info)
      (hinfo : namedFileFromInfoString info = none) (hname : namedFile label = some file) :
      Opens file [] fence [label]

variable {file other : ContractFile}

section Rounds

variable {line fence close info label : Line}
  {before rest above inside text prose : List Line} {found : Found}

/-! ### Rounds of the loop -/

/-- All rounds over the lines that are left. -/
def scanAll (before rest : List Line) (found : Found) : Found := scan rest.length before rest found

lemma scan_of_length_le {fuel fuel' : ℕ} (h : rest.length ≤ fuel) (h' : rest.length ≤ fuel') :
    scan fuel before rest found = scan fuel' before rest found := by
  induction fuel generalizing fuel' before rest found with
  | zero =>
    obtain rfl := List.length_eq_zero_iff.mp (Nat.le_zero.mp h)
    cases fuel' <;> rfl
  | succ fuel ih =>
    cases rest with
    | nil => cases fuel' <;> rfl
    | cons line rest =>
      obtain ⟨fuel', rfl⟩ := Nat.exists_eq_add_one.mpr (lt_of_lt_of_le (Nat.succ_pos _) h')
      have hle : rest.length ≤ fuel := Nat.le_of_succ_le_succ h
      have hle' : rest.length ≤ fuel' := Nat.le_of_succ_le_succ h'
      rw [scan, scan]
      cases fenceInfo line with
      | none => exact ih hle hle'
      | some info =>
        have hshort : ((rest.dropWhile fun l => !isClosing l).drop 1).length ≤ rest.length :=
          ((List.drop_suffix _ _).trans (List.dropWhile_suffix _)).length_le
        exact ih (hshort.trans hle) (hshort.trans hle')

lemma scanAll_line (h : fenceInfo line = none) :
    scanAll before (line :: rest) found = scanAll (line :: before) rest found := by
  rw [scanAll, List.length_cons, scan, h]
  rfl

lemma scanAll_prose (h : ∀ l ∈ prose, fenceInfo l = none) :
    scanAll before (prose ++ rest) found = scanAll (prose.reverse ++ before) rest found := by
  induction prose generalizing before with
  | nil => rfl
  | cons line prose ih =>
    rw [List.cons_append, scanAll_line (h line List.mem_cons_self),
      ih fun l hl => h l (List.mem_cons_of_mem _ hl), List.reverse_cons, List.append_assoc]
    rfl

lemma scanAll_fence (h : fenceInfo fence = some info) (htext : ∀ l ∈ text, isClosing l = false)
    (hclose : isClosing close) :
    scanAll before (fence :: (text ++ close :: rest)) found =
      scanAll ((fence :: (text ++ [close])).reverse ++ before) rest
        (record found before.length (before.length + (text.length + 2))
          (nameOfBlock info before.head? text)) := by
  have htake : (text ++ close :: rest).takeWhile (fun l => !isClosing l) = text := by
    rw [List.takeWhile_append_of_pos fun l hl => by simp [htext l hl]]
    simp [hclose]
  have hdrop : (text ++ close :: rest).dropWhile (fun l => !isClosing l) = close :: rest := by
    rw [List.dropWhile_append_of_pos fun l hl => by simp [htext l hl]]
    simp [hclose]
  rw [scanAll, List.length_cons, scan, h]
  simp only [htake, hdrop, List.take_succ_cons, List.take_zero, List.drop_succ_cons, List.drop_zero,
    List.length_cons, List.length_append, List.length_nil]
  refine scan_of_length_le ?_ le_rfl
  omega

/-! ### Blocks -/

/-- The line above, if there is one, names nothing. -/
def Quiet (before : List Line) : Prop := ∀ l ∈ before.head?, namedFile l = none

lemma isClosing_of_namedFile (h : namedFile label = some file) : isClosing label = false :=
  decide_eq_false fun hticks => by simp [namedFile_of_ticks hticks] at h

/-- A line that names a file shows something. -/
lemma isBlank_of_namedFile (h : namedFile label = some file) : isBlank label = false := by
  by_contra hblank
  have htrim : trim label = [] := by simpa [isBlank] using hblank
  have hstripped : strippedLabel label = [] := by
    rw [strippedLabel, htrim]
    decide
  rw [namedFile_eq_some, hstripped, List.splitOn_nil] at h
  exact h.ne_nil rfl

/-- **The block of a file that is not found yet** is found, from its label to the line that closes
it. -/
theorem scanAll_block (h : Opens file above fence inside) (htext : ∀ l ∈ text, isClosing l = false)
    (hclose : isClosing close) (hnew : found.has file = false) (hquiet : Quiet before) :
    scanAll before (above ++ fence :: (inside ++ text ++ close :: rest)) found =
      scanAll ((above ++ fence :: (inside ++ text ++ [close])).reverse ++ before) rest
        (found.set file ⟨['\n'].intercalate text, before.length,
          before.length + (above ++ fence :: (inside ++ text ++ [close])).length⟩) := by
  have hnew' : ¬ found.has file := by simp [hnew]
  have hprevious : before.head?.bind namedFile = none := by
    refine Option.bind_eq_none_iff.mpr fun l hl => ?_
    exact hquiet l hl
  cases h with
  | @infoString _ info hfence hname =>
    have hblock : nameOfBlock info before.head? text = some (file, false, text) := by
      rw [nameOfBlock, hname]
    rw [List.nil_append, List.nil_append, scanAll_fence hfence htext hclose, hblock, record,
      if_neg hnew']
    simp
  | @lineAbove label _ info hlabel hname hfence hinfo =>
    have hblock : nameOfBlock info (label :: before).head? text = some (file, true, text) := by
      rw [nameOfBlock, hinfo, List.head?_cons, Option.bind_some, hname]
    have hstop : (label :: before).length + (text.length + 2) =
        before.length + ([label] ++ fence :: ([] ++ text ++ [close])).length := by
      simp only [List.length_append, List.length_cons, List.length_nil]
      omega
    rw [List.singleton_append, List.nil_append, scanAll_line hlabel,
      scanAll_fence hfence htext hclose, hblock, record, if_neg hnew', hstop]
    simp
  | @firstLine _ info label hfence hinfo hname =>
    have hblock : nameOfBlock info before.head? (label :: text) = some (file, false, text) := by
      have hkeep : (label :: text).dropWhile isBlank = label :: text :=
        List.dropWhile_cons_of_neg (by simp [isBlank_of_namedFile hname])
      rw [nameOfBlock, hinfo, hprevious, hkeep]
      simp only [hname, Option.map_some]
    have hall : ∀ l ∈ label :: text, isClosing l = false := by
      intro l hl
      rcases List.mem_cons.mp hl with rfl | hl
      · exact isClosing_of_namedFile hname
      · exact htext l hl
    rw [List.nil_append, List.singleton_append, scanAll_fence hfence hall hclose, hblock, record,
      if_neg hnew']
    simp

end Rounds

/-! ### Messages -/

/-- A line that opens a fence and names no file. -/
def Unnamed (fence : Line) : Prop :=
  '\n' ∉ fence ∧ ∃ info, fenceInfo fence = some info ∧ namedFileFromInfoString info = none

/-- How a block says which file it is: in the info string, in the info string behind a language, on
the line above the fence, or on the first line in it. -/
inductive Style (file : ContractFile)
  | infoString (label : Label file)
  | afterLanguage (language blanks : Line) (label : Label file)
      (isInfo : ∀ c ∈ language ++ blanks, isLineEnd c = false) (isGap : blanks ≠ [])
      (isBlank : ∀ c ∈ blanks, isTrimmed c) (isToken : ∀ c ∈ label.line, isTrimmed c = false)
  | lineAbove (label : Label file) (fence : Line) (isLine : fenceInfo label.line = none)
      (isFence : Unnamed fence)
  | firstLine (fence : Line) (label : Label file) (isFence : Unnamed fence)

namespace Style

def above : Style file → List Line
  | lineAbove label .. => [label.line]
  | _ => []

def fence : Style file → Line
  | infoString label => ticks ++ label.line
  | afterLanguage language blanks label .. => ticks ++ (language ++ blanks ++ label.line)
  | lineAbove _ fence .. => fence
  | firstLine fence .. => fence

def inside : Style file → List Line
  | firstLine _ label .. => [label.line]
  | _ => []

lemma opens (style : Style file) : Opens file style.above style.fence style.inside := by
  cases style with
  | infoString label =>
    exact .infoString (@fenceInfo_append_line _ [] label (by simp))
      (namedFileFromInfoString_line label)
  | afterLanguage language blanks label hinfo hgap hblank htoken =>
    exact .infoString (fenceInfo_append_line label hinfo)
      (namedFileFromInfoString_token label hgap hblank htoken)
  | lineAbove label fence hline hfence =>
    obtain ⟨-, info, hinfo, hnone⟩ := hfence
    exact .lineAbove hline (namedFile_line label) hinfo hnone
  | firstLine fence label hfence =>
    obtain ⟨-, info, hinfo, hnone⟩ := hfence
    exact .firstLine hinfo hnone (namedFile_line label)

lemma newline_not_mem (style : Style file) :
    ∀ l ∈ style.above ++ style.fence :: style.inside, '\n' ∉ l := by
  have hlabel (label : Label file) : '\n' ∉ label.line := fun hmem =>
    absurd (isLineEnd_line label '\n' hmem) (by decide)
  intro l hl hmem
  cases style with
  | infoString label =>
    obtain rfl : l = ticks ++ label.line := by simpa [above, fence, inside] using hl
    rcases List.mem_append.mp hmem with hmem | hmem
    · exact absurd hmem (by decide)
    · exact hlabel label hmem
  | afterLanguage language blanks label hinfo =>
    obtain rfl : l = ticks ++ (language ++ blanks ++ label.line) := by
      simpa [above, fence, inside] using hl
    rcases List.mem_append.mp hmem with hmem | hmem
    · exact absurd hmem (by decide)
    · rcases List.mem_append.mp hmem with hmem | hmem
      · exact absurd (hinfo '\n' hmem) (by decide)
      · exact hlabel label hmem
  | lineAbove label fence hline hfence =>
    obtain rfl | rfl : l = label.line ∨ l = fence := by simpa [above, Style.fence, inside] using hl
    · exact hlabel label hmem
    · exact hfence.1 hmem
  | firstLine fence label hfence =>
    obtain rfl | rfl : l = fence ∨ l = label.line := by simpa [above, Style.fence, inside] using hl
    · exact hfence.1 hmem
    · exact hlabel label hmem

end Style

/-- A fenced file. No line of its text closes the fence. -/
structure Fenced (file : ContractFile) where
  style : Style file
  text : List Char
  close : Line
  isText : ∀ l ∈ text.splitOn '\n', trim l ≠ ticks
  isClose : trim close = ticks
  inLine : '\n' ∉ close

def Fenced.lines (fenced : Fenced file) : List Line :=
  fenced.style.above ++
    fenced.style.fence :: (fenced.style.inside ++ fenced.text.splitOn '\n' ++ [fenced.close])

/-- Lines that neither open a fence nor look like a label. -/
structure Prose where
  lines : List Line
  noFence : ∀ l ∈ lines, fenceInfo l = none
  noLabel : ∀ l ∈ lines, namedFile l = none
  inLine : ∀ l ∈ lines, '\n' ∉ l

/-- A message of two fenced files and prose around them. -/
def render (front : Prose) (first : Fenced file) (between : Prose) (second : Fenced other)
    (behind : Prose) : List Char :=
  ['\n'].intercalate
    (front.lines ++ first.lines ++ between.lines ++ second.lines ++ behind.lines)

section Messages

variable {before rest : List Line} {found : Found}

lemma scanAll_fenced (fenced : Fenced file) (hnew : found.has file = false)
    (hquiet : Quiet before) :
    scanAll before (fenced.lines ++ rest) found = scanAll (fenced.lines.reverse ++ before) rest
      (found.set file ⟨fenced.text, before.length, before.length + fenced.lines.length⟩) := by
  have htext : ∀ l ∈ fenced.text.splitOn '\n', isClosing l = false := fun l hl =>
    decide_eq_false (fenced.isText l hl)
  have hlines : fenced.lines ++ rest = fenced.style.above ++ fenced.style.fence ::
      (fenced.style.inside ++ fenced.text.splitOn '\n' ++ fenced.close :: rest) := by
    simp [Fenced.lines]
  rw [hlines, scanAll_block fenced.style.opens htext (decide_eq_true fenced.isClose) hnew hquiet,
    List.intercalate_splitOn, Fenced.lines]

lemma quiet_prose (prose : Prose) (h : Quiet before) : Quiet (prose.lines.reverse ++ before) := by
  intro l hl
  by_cases hnil : prose.lines = []
  · rw [hnil] at hl
    exact h l hl
  · rw [List.head?_append_of_ne_nil _ (by simpa using hnil)] at hl
    exact prose.noLabel l (List.mem_reverse.mp (List.mem_of_mem_head? hl))

lemma quiet_fenced (fenced : Fenced file) : Quiet (fenced.lines.reverse ++ before) := by
  intro l hl
  obtain rfl : fenced.close = l := by simpa [Fenced.lines] using hl
  exact namedFile_of_ticks fenced.isClose

lemma find_fenced (front between behind : Prose) (first : Fenced file) (second : Fenced other)
    (hne : other ≠ file) :
    findNamedFencedBlocks
        (front.lines ++ first.lines ++ between.lines ++ second.lines ++ behind.lines) =
      ((OrderedMap.empty.set file ⟨first.text, front.lines.length,
          front.lines.length + first.lines.length⟩).set other
        ⟨second.text, front.lines.length + first.lines.length + between.lines.length,
          front.lines.length + first.lines.length + between.lines.length +
            second.lines.length⟩) := by
  have hnew (m : FencedBlockMatch) : (OrderedMap.empty.set file m).has other = false := by
    simp [OrderedMap.has, OrderedMap.get_set, hne]
  have hfront : Quiet (front.lines.reverse ++ []) := quiet_prose front (by simp [Quiet])
  have hbetween := quiet_prose between (@quiet_fenced _ (front.lines.reverse ++ []) first)
  rw [findNamedFencedBlocks, ← scanAll, List.append_assoc, List.append_assoc, List.append_assoc,
    scanAll_prose front.noFence, scanAll_fenced first rfl hfront, scanAll_prose between.noFence,
    scanAll_fenced second (hnew _) hbetween]
  have hbehind {before : List Line} {found : Found} :
      scanAll before behind.lines found = found := by
    have h := @scanAll_prose before [] behind.lines found behind.noFence
    rwa [List.append_nil] at h
  rw [hbehind]
  simp [Nat.add_assoc, Nat.add_comm]

lemma keptLines_between (front first between second behind : List Line) (m n : List Char) :
    keptLines (front ++ first ++ between ++ second ++ behind) 0
      [⟨m, front.length, front.length + first.length⟩,
        ⟨n, front.length + first.length + between.length,
          front.length + first.length + between.length + second.length⟩] =
      front ++ between ++ behind := by
  have hfront : ((front ++ first ++ between ++ second ++ behind).drop 0).take (front.length - 0) =
      front := by
    simp
  have hbetween : ((front ++ first ++ between ++ second ++ behind).drop
      (front.length + first.length)).take (front.length + first.length + between.length -
        (front.length + first.length)) = between := by
    have hdrop : (front ++ first ++ between ++ second ++ behind).drop
        (front.length + first.length) = between ++ (second ++ behind) := by
      rw [List.append_assoc, List.append_assoc]
      exact List.drop_left' List.length_append
    rw [hdrop, Nat.add_sub_cancel_left, List.take_left' rfl]
  have hbehind : (front ++ first ++ between ++ second ++ behind).drop
      (front.length + first.length + between.length + second.length) = behind :=
    List.drop_left' (by simp only [List.length_append])
  rw [keptLines, keptLines, keptLines, hfront, hbetween, hbehind, List.append_assoc]

/-- A fenced file has a line. -/
lemma lines_ne_nil (fenced : Fenced file) : fenced.lines ≠ [] := by
  simp [Fenced.lines]

lemma Fenced.newline_not_mem (fenced : Fenced file) : ∀ l ∈ fenced.lines, '\n' ∉ l := by
  intro l hl
  simp only [Fenced.lines, List.mem_append, List.mem_cons, List.not_mem_nil, or_false] at hl
  have hstyle := fenced.style.newline_not_mem l
  simp only [List.mem_append, List.mem_cons] at hstyle
  rcases hl with hl | hl | (hl | hl) | rfl
  · exact hstyle (.inl hl)
  · exact hstyle (.inr (.inl hl))
  · exact hstyle (.inr (.inr hl))
  · exact Path.not_mem_of_mem_splitOn hl
  · exact fenced.inLine

lemma splitOn_render (front between behind : Prose) (first : Fenced file) (second : Fenced other) :
    (render front first between second behind).splitOn '\n' =
      front.lines ++ first.lines ++ between.lines ++ second.lines ++ behind.lines := by
  refine List.splitOn_intercalate '\n' ?_ (by simp [lines_ne_nil])
  intro l hl
  simp only [List.mem_append] at hl
  rcases hl with (((hl | hl) | hl) | hl) | hl
  · exact front.inLine l hl
  · exact first.newline_not_mem l hl
  · exact between.inLine l hl
  · exact second.newline_not_mem l hl
  · exact behind.inLine l hl

end Messages

/-! ### Runs of blank lines -/

def showing (lines : List Line) : List Line := lines.filter fun l => !l.isEmpty

/-- The first line is the same with no line end in front, and the lines that show are the same
whatever is in front. -/
lemma collapseLineEnds_spec (cs : List Char) :
    (∃ first lines lines', (collapseLineEnds 0 cs).splitOn '\n' = first :: lines ∧
      cs.splitOn '\n' = first :: lines' ∧ showing lines = showing lines') ∧
    ∀ count, showing ((collapseLineEnds count cs).splitOn '\n') = showing (cs.splitOn '\n') := by
  induction cs with
  | nil => exact ⟨⟨[], [], [], rfl, rfl, rfl⟩, fun _ => rfl⟩
  | cons c cs ih =>
    obtain ⟨⟨first, lines, lines', hlines, hlines', hshowing⟩, ih⟩ := ih
    by_cases hc : c = '\n'
    · subst hc
      have hsplit (text : List Char) : ('\n' :: text).splitOn '\n' = [] :: text.splitOn '\n' := by
        rw [List.splitOn_cons_eq_if_modifyHead, if_pos (by decide)]
      -- the line that ends here is empty, so it counts for nothing if the line end goes
      refine ⟨⟨[], _, _, hsplit _, hsplit cs, ih 1⟩, fun count => ?_⟩
      rw [hsplit cs, collapseLineEnds, if_pos rfl]
      split_ifs
      · rw [hsplit, showing, List.filter_cons_of_neg (by simp), ← showing, ih, showing, showing,
          List.filter_cons_of_neg (by simp)]
      · rw [ih, showing, showing, List.filter_cons_of_neg (by simp)]
    · have hsplit {text first : List Char} {lines : List Line}
          (h : text.splitOn '\n' = first :: lines) :
          (c :: text).splitOn '\n' = (c :: first) :: lines := by
        rw [List.splitOn_cons_eq_if_modifyHead, if_neg (by simpa using hc), h]
        rfl
      have hshows (count : ℕ) :
          (collapseLineEnds count (c :: cs)).splitOn '\n' = (c :: first) :: lines := by
        rw [collapseLineEnds, if_neg hc, hsplit hlines]
      refine ⟨⟨_, _, _, hshows 0, hsplit hlines', hshowing⟩, fun count => ?_⟩
      rw [hshows, hsplit hlines', showing, showing, List.filter_cons_of_pos (by simp),
        List.filter_cons_of_pos (by simp), ← showing, ← showing, hshowing]

/-- **Collapsing takes away blank lines only.** -/
theorem showing_collapseLineEnds (cs : List Char) :
    showing ((collapseLineEnds 0 cs).splitOn '\n') = showing (cs.splitOn '\n') :=
  (collapseLineEnds_spec cs).2 0

end Workbench.Web.ChatPackage
