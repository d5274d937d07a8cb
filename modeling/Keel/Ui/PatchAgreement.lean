import Keel.Engine.DiffSync
import Keel.Foundation.Records
import Keel.Ui.Changes
import Mathlib.Data.Bool.AllAny

/-! # The parser reads what the engine writes

The section that the engine writes for an untracked file is a list of lines: five of
header, and one for each line of the content. The parser reads it as one file section,
after whatever it has read before. The paths agree when the engine has no need to quote
them, and the lines agree unless there are none.
-/

namespace Keel.Patch

open List Text

section Writing

theorem newline_notMem_of_mem_splitOn {text piece : List Char} (hpiece : piece ∈ text.splitOn '\n') :
    '\n' ∉ piece := by
  induction text generalizing piece with
  | nil =>
    obtain rfl : piece = [] := mem_singleton.mp hpiece
    exact not_mem_nil
  | cons c rest ih =>
    rw [splitOn_cons_eq_if_modifyHead] at hpiece
    split at hpiece
    · rcases mem_cons.mp hpiece with rfl | hrest
      · exact not_mem_nil
      · exact ih hrest
    next hc =>
      cases hpieces : rest.splitOn '\n' with
      | nil => exact absurd hpieces (splitOn_ne_nil _ _)
      | cons first others =>
        rw [hpieces] at hpiece ih
        rcases mem_cons.mp hpiece with rfl | hothers
        · rw [mem_cons, not_or]
          exact ⟨fun heq => hc (beq_iff_eq.mpr heq.symm), ih mem_cons_self⟩
        · exact ih (mem_cons_of_mem _ hothers)

theorem newline_notMem_contentLines {content line : List Char} (hline : line ∈ contentLines content) :
    '\n' ∉ line := by
  rw [contentLines] at hline
  split at hline
  · exact newline_notMem_of_mem_splitOn (mem_of_mem_dropLast hline)
  · exact newline_notMem_of_mem_splitOn hline

theorem hexDigit_printable : ∀ value < 16, hexDigit value ≠ '\n' ∧ hexDigit value ≠ '\r' := by
  decide

theorem printable_of_all {text : List Char} {c : Char}
    (hall : text.all fun c => c ≠ '\n' ∧ c ≠ '\r') (hc : c ∈ text) : c ≠ '\n' ∧ c ≠ '\r' :=
  all_iff_forall_prop.mp hall c hc

theorem escapeChar_printable {c d : Char} (hd : d ∈ escapeChar c) : d ≠ '\n' ∧ d ≠ '\r' := by
  rw [escapeChar] at hd
  split at hd
  · exact printable_of_all (by decide) hd
  next =>
  split at hd
  · exact printable_of_all (by decide) hd
  next =>
  split at hd
  · exact printable_of_all (by decide) hd
  next =>
  split at hd
  · exact printable_of_all (by decide) hd
  next =>
  split at hd
  · exact printable_of_all (by decide) hd
  next hnewline =>
  split at hd
  · exact printable_of_all (by decide) hd
  next hreturn =>
  split at hd
  · exact printable_of_all (by decide) hd
  next =>
  split at hd
  next hlow =>
    simp only [mem_cons, not_mem_nil, or_false] at hd
    rcases hd with rfl | rfl | rfl | rfl | rfl | rfl
    · decide
    · decide
    · decide
    · decide
    · exact hexDigit_printable _ (by omega)
    · exact hexDigit_printable _ (by omega)
  · obtain rfl := mem_singleton.mp hd
    exact ⟨hnewline, hreturn⟩

theorem quotePatchPath_printable {path : List Char} {c : Char} (hc : c ∈ quotePatchPath path) :
    c ≠ '\n' ∧ c ≠ '\r' := by
  rw [quotePatchPath] at hc
  split at hc
  · rw [jsonString, cons_append, mem_cons, mem_append, mem_singleton] at hc
    rcases hc with rfl | hc | rfl
    · decide
    · obtain ⟨_, -, hd⟩ := mem_flatMap.mp hc
      exact escapeChar_printable hd
    · decide
  next hplain =>
    constructor
    · rintro rfl
      exact hplain (any_eq_true.mpr ⟨_, hc, by decide⟩)
    · rintro rfl
      exact hplain (any_eq_true.mpr ⟨_, hc, by decide⟩)

def newSide (path : List Char) : List Char := quotePatchPath ("b/".toList ++ path)

def bothSides (path : List Char) : List Char :=
  quotePatchPath ("a/".toList ++ path) ++ ' ' :: newSide path

/-- The count of the hunk and what follows it. -/
def hunkTail (content : List Char) : List Char :=
  (toString (contentLines content).length).toList ++ " @@".toList

/-- The lines of the hunk; a content without lines has an empty one. -/
def bodyLines (content : List Char) : List (List Char) :=
  if contentLines content = [] then [[]] else (contentLines content).map ('+' :: ·)

def sectionRecords (path content : List Char) : List (List Char) :=
  ["diff --git ".toList ++ bothSides path, "new file mode 100644".toList, "--- /dev/null".toList,
    "+++ ".toList ++ newSide path, "@@ -0,0 +1,".toList ++ hunkTail content] ++ bodyLines content

theorem join_newline {pieces : List (List Char)} (hpieces : pieces ≠ []) :
    join ['\n'] pieces ++ ['\n'] = Records.text pieces := by
  induction pieces with
  | nil => exact absurd rfl hpieces
  | cons first rest ih =>
    cases rest with
    | nil => simp [join, Records.text]
    | cons second others =>
      rw [Records.text_cons, ← ih (cons_ne_nil _ _), join, join,
        intercalate_cons_cons]
      simp

theorem text_header (git a b mode old new hunk count close body : List Char) :
    git ++ a ++ ' ' :: b ++ '\n' :: mode ++ '\n' :: old ++ '\n' :: new ++ b ++ '\n' ::
      hunk ++ count ++ close ++ '\n' :: body ++ ['\n'] =
    Records.text [git ++ (a ++ ' ' :: b), mode, old, new ++ b, hunk ++ (count ++ close)] ++
      (body ++ ['\n']) := by
  simp [Records.text]

theorem untrackedPatch_eq (path content : List Char) :
    untrackedPatch path content = Records.text (sectionRecords path content) := by
  have hbody : join ['\n'] ((contentLines content).map ('+' :: ·)) ++ ['\n'] =
      Records.text (bodyLines content) := by
    rw [bodyLines]
    split
    next hnone => rw [hnone]; rfl
    next hsome => exact join_newline (fun hnil => hsome (map_eq_nil_iff.mp hnil))
  rw [sectionRecords, Records.text_append, ← hbody]
  exact text_header _ _ _ _ _ _ _ _ _ _

theorem lines_untrackedPatch (path content : List Char) :
    lines (untrackedPatch path content) =
      ["diff --git ".toList ++ bothSides path, "new file mode 100644".toList,
        "--- /dev/null".toList, "+++ ".toList ++ newSide path,
        "@@ -0,0 +1,".toList ++ hunkTail content] ++ (bodyLines content).map stripReturn := by
  have hside : ∀ c ∈ newSide path, c ≠ '\n' ∧ c ≠ '\r' := fun c hc => quotePatchPath_printable hc
  have hsides : ∀ c ∈ bothSides path, c ≠ '\n' ∧ c ≠ '\r' := by
    intro c hc
    rcases mem_append.mp hc with hold | hnew
    · exact quotePatchPath_printable hold
    · rcases mem_cons.mp hnew with rfl | hnew
      · decide
      · exact hside c hnew
  have hcount : ∀ c ∈ hunkTail content, c ≠ '\n' ∧ c ≠ '\r' := by
    intro c hc
    rcases mem_append.mp hc with hdigit | hclose
    · have hdigit : c.isDigit = true :=
        Nat.isDigit_of_mem_toDigits (by decide) (by decide) (Nat.toList_repr ▸ hdigit)
      constructor
      · rintro rfl
        cases hdigit
      · rintro rfl
        cases hdigit
    · exact printable_of_all (by decide) hclose
  have hprintable : ∀ (start rest : List Char), (∀ c ∈ start, c ≠ '\n' ∧ c ≠ '\r') →
      (∀ c ∈ rest, c ≠ '\n' ∧ c ≠ '\r') → '\n' ∉ start ++ rest ∧ '\r' ∉ start ++ rest := by
    intro start rest hstart hrest
    have hall : ∀ c ∈ start ++ rest, c ≠ '\n' ∧ c ≠ '\r' :=
      fun c hc => (mem_append.mp hc).elim (hstart c) (hrest c)
    exact ⟨fun hc => (hall _ hc).1 rfl, fun hc => (hall _ hc).2 rfl⟩
  have hgit := hprintable "diff --git ".toList (bothSides path)
    (fun _ => printable_of_all (by decide)) hsides
  have hnew := hprintable "+++ ".toList (newSide path)
    (fun _ => printable_of_all (by decide)) hside
  have hhunk := hprintable "@@ -0,0 +1,".toList (hunkTail content)
    (fun _ => printable_of_all (by decide)) hcount
  have hbody : ∀ line ∈ bodyLines content, '\n' ∉ line := by
    intro line hline
    rw [bodyLines] at hline
    split at hline
    · obtain rfl := mem_singleton.mp hline
      exact not_mem_nil
    · obtain ⟨text, htext, rfl⟩ := mem_map.mp hline
      rw [mem_cons, not_or]
      exact ⟨by decide, newline_notMem_contentLines htext⟩
  rw [untrackedPatch_eq, Records.lines_text, sectionRecords, map_append]
  · congr 1
    rw [map_cons, map_cons, map_cons, map_cons, map_cons, map_nil,
      stripReturn_of_notMem hgit.2, stripReturn_of_notMem hnew.2,
      stripReturn_of_notMem hhunk.2]
    rfl
  · intro line hline
    rcases mem_append.mp hline with hheader | hline
    · simp only [mem_cons, not_mem_nil, or_false] at hheader
      rcases hheader with rfl | rfl | rfl | rfl | rfl
      · exact hgit.1
      · decide
      · decide
      · exact hnew.1
      · exact hhunk.1
    · exact hbody line hline

end Writing

section Reading

variable {state : ParseState} {before : List FileDiff} {file : FileDiff} {raw : List Char}

theorem modifyLast_concat {α : Type} (change : α → α) (front : List α) (last : α) :
    modifyLast change (front ++ [last]) = front ++ [change last] := by
  induction front with
  | nil => rfl
  | cons first rest ih =>
    cases rest with
    | nil => rfl
    | cons second others => exact congrArg (first :: ·) ih

theorem onLast_concat (hfiles : state.files = before ++ [file]) (change : FileDiff → FileDiff) :
    state.onLast change = { state with files := before ++ [change file] } := by
  rw [ParseState.onLast, hfiles, modifyLast_concat]

/-- The section that a first line opens. -/
def openSection (rest : List Char) : FileDiff :=
  let (old, new) := parseGitPaths rest
  { path := new, oldPath := if old = new then none else some old }

theorem parseLine_git (state : ParseState) (rest : List Char) :
    parseLine state ("diff --git ".toList ++ rest) =
      { state with files := state.files ++ [openSection rest], inHunk := false } := by
  rw [parseLine, stripPrefix_append]
  rfl

theorem parseLine_header (hfiles : state.files = before ++ [file]) (hout : state.inHunk = false)
    (hgit : stripPrefix "diff --git ".toList raw = none)
    (hhunk : "@@".toList.isPrefixOf raw = false) :
    parseLine state raw = { state with files := before ++ [readHeader file raw] } := by
  have hne : state.files ≠ [] := by simp [hfiles]
  rw [parseLine, hgit]
  simp only [hne, hhunk, hout, if_false, Bool.false_eq_true, onLast_concat hfiles]

theorem foldl_headers (raws : List (List Char))
    (hraws : ∀ raw ∈ raws, stripPrefix "diff --git ".toList raw = none ∧
      "@@".toList.isPrefixOf raw = false)
    (hfiles : state.files = before ++ [file]) (hout : state.inHunk = false) :
    raws.foldl parseLine state = { state with files := before ++ [raws.foldl readHeader file] } := by
  induction raws generalizing state file with
  | nil => rw [foldl_nil, foldl_nil, ← hfiles]
  | cons raw raws ih =>
    have hfirst := hraws raw mem_cons_self
    rw [foldl_cons, foldl_cons, parseLine_header hfiles hout hfirst.1 hfirst.2]
    exact ih (fun other hother => hraws other (mem_cons_of_mem _ hother)) rfl hout

theorem parseLine_hunk (hfiles : state.files = before ++ [file]) {oldNo newNo : UInt32}
    (hgit : stripPrefix "diff --git ".toList raw = none)
    (hhunk : "@@".toList.isPrefixOf raw = true)
    (hheader : parseHunkHeader raw = some (oldNo, newNo)) :
    parseLine state raw =
      { files := before ++ [{ file with hunks := file.hunks ++ [⟨raw, []⟩] }], inHunk := true,
        oldNo, newNo } := by
  have hne : state.files ≠ [] := by simp [hfiles]
  rw [parseLine, hgit]
  simp only [hne, hhunk, hheader, if_false, if_true, onLast_concat hfiles]

theorem parseLine_body (hfiles : state.files = before ++ [file]) (hin : state.inHunk = true)
    (hgit : stripPrefix "diff --git ".toList raw = none)
    (hhunk : "@@".toList.isPrefixOf raw = false) {line : DiffLine} {oldNo newNo : UInt32}
    (hline : readHunkLine state.oldNo state.newNo raw = some (line, oldNo, newNo)) :
    parseLine state raw = { files := before ++ [file.push line], inHunk := true, oldNo, newNo } := by
  have hne : state.files ≠ [] := by simp [hfiles]
  rw [parseLine, hgit]
  simp only [hne, hhunk, hin, hline, if_false, if_true, Bool.false_eq_true, onLast_concat hfiles]

def addedLines (newNo : UInt32) : List (List Char) → List DiffLine
  | [] => []
  | text :: texts => ⟨.add, none, some newNo, text⟩ :: addedLines (newNo + 1) texts

theorem foldl_added (texts : List (List Char)) (before : List FileDiff) (file : FileDiff)
    (oldNo newNo : UInt32) :
    ∃ newNo', (texts.map ('+' :: ·)).foldl parseLine
      { files := before ++ [file], inHunk := true, oldNo, newNo } =
        { files := before ++ [(addedLines newNo texts).foldl FileDiff.push file], inHunk := true,
          oldNo, newNo := newNo' } := by
  induction texts generalizing file newNo with
  | nil => exact ⟨newNo, rfl⟩
  | cons text texts ih =>
    have hline : parseLine { files := before ++ [file], inHunk := true, oldNo, newNo }
        ('+' :: text) =
        { files := before ++ [file.push ⟨.add, none, some newNo, text⟩], inHunk := true,
          oldNo, newNo := newNo + 1 } :=
      parseLine_body rfl rfl rfl rfl rfl
    rw [map_cons, foldl_cons, hline]
    exact ih _ _

/-- The lines that the parser makes of a content. -/
def sectionLines (content : List Char) : List DiffLine :=
  if contentLines content = [] then [⟨.context, some 0, some 1, []⟩]
  else addedLines 1 ((contentLines content).map stripReturn)

/-- The lines of header between the paths and the hunk. -/
def headerLines (path : List Char) : List (List Char) :=
  ["new file mode 100644".toList, "--- /dev/null".toList, "+++ ".toList ++ newSide path]

def sectionHeader (path content : List Char) : FileDiff :=
  let file := (headerLines path).foldl readHeader (openSection (bothSides path))
  { file with hunks := file.hunks ++ [⟨"@@ -0,0 +1,".toList ++ hunkTail content, []⟩] }

def sectionFile (path content : List Char) : FileDiff :=
  (sectionLines content).foldl FileDiff.push (sectionHeader path content)

theorem foldl_bodyLines (content : List Char) (before : List FileDiff) (file : FileDiff) :
    (((bodyLines content).map stripReturn).foldl parseLine
      { files := before ++ [file], inHunk := true, oldNo := 0, newNo := 1 }).files =
        before ++ [(sectionLines content).foldl FileDiff.push file] := by
  rw [bodyLines, sectionLines]
  split
  · have hline : parseLine { files := before ++ [file], inHunk := true, oldNo := 0, newNo := 1 } [] =
        { files := before ++ [file.push ⟨.context, some 0, some 1, []⟩], inHunk := true,
          oldNo := 1, newNo := 2 } := parseLine_body rfl rfl rfl rfl rfl
    rw [map_singleton, foldl_cons, foldl_nil]
    exact congrArg ParseState.files hline
  · have hplus : ((contentLines content).map ('+' :: ·)).map stripReturn =
        ((contentLines content).map stripReturn).map ('+' :: ·) := by
      rw [map_map, map_map]
      exact map_congr_left fun line _ => stripReturn_cons (by decide) line
    obtain ⟨newNo, hfold⟩ :=
      foldl_added ((contentLines content).map stripReturn) before file 0 1
    rw [hplus, hfold]

theorem parseHunkHeader_section (tail : List Char) :
    parseHunkHeader ("@@ -0,0 +1,".toList ++ tail) = some (0, 1) := rfl

theorem foldl_section (state : ParseState) (path content : List Char) :
    ((lines (untrackedPatch path content)).foldl parseLine state).files =
      state.files ++ [sectionFile path content] := by
  have hheaders : ∀ raw ∈ headerLines path, stripPrefix "diff --git ".toList raw = none ∧
      "@@".toList.isPrefixOf raw = false := by
    simpa only [headerLines, forall_mem_cons] using
      ⟨⟨rfl, rfl⟩, ⟨rfl, rfl⟩, ⟨rfl, rfl⟩, fun _ h => absurd h not_mem_nil⟩
  have hlines : lines (untrackedPatch path content) =
      ("diff --git ".toList ++ bothSides path) :: (headerLines path ++
        ("@@ -0,0 +1,".toList ++ hunkTail content) :: (bodyLines content).map stripReturn) :=
    lines_untrackedPatch path content
  rw [hlines, foldl_cons, parseLine_git, foldl_append, foldl_headers _ hheaders rfl rfl,
    foldl_cons, parseLine_hunk rfl rfl rfl (parseHunkHeader_section _), foldl_bodyLines]
  rfl

end Reading

section Paths

variable {path : List Char}

theorem splitBeforeLast_of_notMem {c : Char} {pattern text : List Char} (htext : c ∉ text) :
    splitBeforeLast (c :: pattern) text = none := by
  induction text with
  | nil => exact if_neg (cons_ne_nil _ _)
  | cons d rest ih =>
    rw [mem_cons, not_or] at htext
    rw [splitBeforeLast, ih htext.2]
    simp [htext.1]

theorem splitBeforeLast_append {c : Char} {pattern after : List Char} (before : List Char)
    (hafter : c ∉ after) (hpattern : pattern.isPrefixOf after = true) :
    splitBeforeLast (c :: pattern) (before ++ c :: after) = some (before, c :: after) := by
  induction before with
  | nil =>
    rw [nil_append, splitBeforeLast, splitBeforeLast_of_notMem hafter]
    simp [hpattern]
  | cons d before ih =>
    rw [cons_append, splitBeforeLast, ih]

theorem not_whitespace_of_plain {text : List Char} (htext : text.any needsQuote = false) :
    ∀ c ∈ text, isWhitespace c = false := by
  intro c hc
  have hquote := any_eq_false.mp htext c hc
  simp only [needsQuote, decide_eq_true_eq, not_or] at hquote
  exact eq_false_of_ne_true hquote.1

theorem trim_of_plain {text : List Char} (htext : text.any needsQuote = false) :
    trim text = text :=
  trim_eq_self (fun c hc => not_whitespace_of_plain htext c (mem_of_mem_head? hc))
    fun c hc => not_whitespace_of_plain htext c (mem_of_getLast? hc)

theorem unquote_of_plain {text : List Char} (htext : text.any needsQuote = false) :
    unquote text = text := by
  have hhead : text.head? ≠ some '"' := by
    intro hhead
    exact any_eq_false.mp htext '"' (mem_of_mem_head? hhead) (by decide)
  rw [unquote, trim_of_plain htext]
  exact if_neg fun h => hhead h.2.1

theorem side_plain (hpath : path.any needsQuote = false) (side : Char)
    (hside : needsQuote side = false) : (side :: '/' :: path).any needsQuote = false := by
  simp only [any_cons, hside, hpath, Bool.or_false]
  decide

theorem parseGitPaths_of_plain (hpath : path.any needsQuote = false) :
    parseGitPaths (bothSides path) = (path, path) := by
  have hold := side_plain hpath 'a' (by decide)
  have hnew := side_plain hpath 'b' (by decide)
  have hsides : bothSides path = ('a' :: '/' :: path) ++ ' ' :: 'b' :: '/' :: path := by
    rw [bothSides, newSide, quotePatchPath, quotePatchPath]
    exact congrArg₂ (fun old new => old ++ ' ' :: new) (if_neg (by simpa using hold))
      (if_neg (by simpa using hnew))
  have hspace : ' ' ∉ 'b' :: '/' :: path := by
    intro hmem
    have hplain := not_whitespace_of_plain hnew ' ' hmem
    cases hplain
  have hsplit : splitBeforeLast " b/".toList (bothSides path) =
      some ('a' :: '/' :: path, ' ' :: 'b' :: '/' :: path) := by
    rw [hsides]
    exact splitBeforeLast_append _ hspace rfl
  rw [parseGitPaths, hsplit]
  show (stripGitPrefix (unquote _), stripGitPrefix (unquote _)) = _
  rw [unquote_of_plain hold, tail_cons, unquote_of_plain hnew]
  rfl

theorem newSide_quoted (hpath : path.any needsQuote = true) :
    newSide path = jsonString ("b/".toList ++ path) := by
  refine if_pos ?_
  rw [any_append, hpath, Bool.or_true]

theorem newSide_plain (hpath : path.any needsQuote = false) : newSide path = 'b' :: '/' :: path :=
  if_neg (by simpa using side_plain hpath 'b' (by decide))

theorem trim_newSide (path : List Char) : trim (newSide path) = newSide path := by
  cases hpath : path.any needsQuote with
  | true =>
    rw [newSide_quoted hpath, jsonString]
    refine trim_eq_self (fun c hc => ?_) fun c hc => ?_
    · cases hc
      decide
    · rw [getLast?_concat] at hc
      cases hc
      decide
  | false =>
    rw [newSide_plain hpath]
    exact trim_of_plain (side_plain hpath 'b' (by decide))

theorem newSide_ne_null (path : List Char) : newSide path ≠ "/dev/null".toList := by
  cases hpath : path.any needsQuote with
  | true =>
    rw [newSide_quoted hpath, jsonString]
    exact fun h => absurd (List.cons.inj h).1 (by decide)
  | false =>
    rw [newSide_plain hpath]
    exact fun h => absurd (List.cons.inj h).1 (by decide)

/-- What the lines of header say of a new file: the path of the last one, unless the first line
gave two paths. -/
theorem foldl_readHeader (path : List Char) (file : FileDiff) :
    (headerLines path).foldl readHeader file = { file with
      status := .added
      path := if file.oldPath = none then stripGitPrefix (newSide path) else file.path } := by
  have hnew : ∀ opened : FileDiff, readHeader opened ("+++ ".toList ++ newSide path) =
      if trim (newSide path) = "/dev/null".toList then { opened with status := .deleted }
      else if opened.oldPath = none then
        { opened with path := stripGitPrefix (trim (newSide path)) }
      else opened := fun _ => rfl
  rw [headerLines, foldl_cons, foldl_cons, foldl_cons, foldl_nil, hnew,
    trim_newSide, if_neg (newSide_ne_null path)]
  split
  next hnone =>
    have hnone : file.oldPath = none := hnone
    rw [if_pos hnone]
    rfl
  next hsome =>
    have hsome : file.oldPath ≠ none := hsome
    rw [if_neg hsome]
    rfl

theorem escapeChar_length (c : Char) : 1 ≤ (escapeChar c).length := by
  rw [escapeChar]
  split_ifs <;> simp

theorem le_length_flatMap_escapeChar (text : List Char) :
    text.length ≤ (text.flatMap escapeChar).length := by
  induction text with
  | nil => exact Nat.le_refl _
  | cons c rest ih =>
    rw [flatMap_cons, length_append, length_cons]
    have hc := escapeChar_length c
    omega

theorem stripGitPrefix_quoted (hpath : path.any needsQuote = true) :
    stripGitPrefix (newSide path) ≠ path := by
  have hsame : stripGitPrefix (jsonString ("b/".toList ++ path)) =
      jsonString ("b/".toList ++ path) := rfl
  rw [newSide_quoted hpath, hsame]
  intro heq
  have hlength := congrArg List.length heq
  have hescaped := le_length_flatMap_escapeChar ("b/".toList ++ path)
  rw [jsonString, length_append, length_cons] at hlength
  rw [length_append] at hescaped
  omega

end Paths

section Lines

theorem foldl_push (lines : List DiffLine) {file : FileDiff} {hunk : Hunk}
    (hhunks : file.hunks = [hunk]) :
    (lines.foldl FileDiff.push file).path = file.path ∧
      (lines.foldl FileDiff.push file).oldPath = file.oldPath ∧
      (lines.foldl FileDiff.push file).status = file.status ∧
      (lines.foldl FileDiff.push file).lines = hunk.lines ++ lines ∧
      (lines.foldl FileDiff.push file).additions =
        file.additions + UInt32.ofNat (lines.countP (·.kind = .add)) := by
  induction lines generalizing file hunk with
  | nil => simp [FileDiff.lines, hhunks]
  | cons line lines ih =>
    have hpushed : (file.push line).hunks = [hunk.push line] := by
      simp [FileDiff.push, hhunks, modifyLast]
    have hadditions : (file.push line).additions =
        if line.kind = .add then file.additions + 1 else file.additions := by
      simp [FileDiff.push, hhunks]
    have hrest : (file.push line).path = file.path ∧ (file.push line).oldPath = file.oldPath ∧
        (file.push line).status = file.status := by
      simp [FileDiff.push, hhunks]
    obtain ⟨hpath, hold, hstatus, hlines, hcount⟩ := ih hpushed
    rw [foldl_cons]
    refine ⟨hpath.trans hrest.1, hold.trans hrest.2.1, hstatus.trans hrest.2.2, ?_, ?_⟩
    · rw [hlines, Hunk.push, append_assoc, singleton_append]
    · rw [hcount, hadditions, countP_cons]
      by_cases hadd : line.kind = .add
      · simp only [hadd, if_true, decide_true]
        rw [UInt32.ofNat_add, UInt32.add_assoc, UInt32.add_comm 1]
        rfl
      · simp [hadd]

theorem countP_addedLines (newNo : UInt32) (texts : List (List Char)) :
    (addedLines newNo texts).countP (·.kind = .add) = texts.length := by
  induction texts generalizing newNo with
  | nil => rfl
  | cons text texts ih => rw [addedLines, countP_cons, ih]; rfl

/-- The lines are those texts as additions, numbered from some number on, up to the carriage
return that ends a text. -/
def AddedFrom : Nat → List DiffLine → List (List Char) → Prop
  | _, [], [] => True
  | number, line :: lines, text :: texts =>
    line.kind = .add ∧ line.oldNo = none ∧ line.newNo.map (·.toNat) = some number ∧
      line.text = stripReturn text ∧ AddedFrom (number + 1) lines texts
  | _, _, _ => False

theorem addedFrom_addedLines (number : Nat) (texts : List (List Char)) :
    AddedFrom number (addedLines (UInt32.ofNat number) (texts.map stripReturn)) texts ↔
      texts = [] ∨ number + texts.length ≤ UInt32.size := by
  induction texts generalizing number with
  | nil => simp [addedLines, AddedFrom]
  | cons text texts ih =>
    have hnext : UInt32.ofNat number + 1 = UInt32.ofNat (number + 1) := by
      rw [UInt32.ofNat_add]
      rfl
    have hnumber : (UInt32.ofNat number).toNat = number ↔ number < UInt32.size := by
      rw [UInt32.toNat_ofNat']
      exact ⟨fun h => h ▸ Nat.mod_lt _ (by decide), Nat.mod_eq_of_lt⟩
    rw [map_cons, addedLines, AddedFrom, hnext, ih]
    simp only [true_and, Option.map_some, Option.some.injEq, hnumber, length_cons,
      reduceCtorEq, false_or]
    cases texts with
    | nil => simp only [true_or, and_true, length_nil]; omega
    | cons second others => simp only [reduceCtorEq, false_or, length_cons]; omega

theorem join_concat {pieces : List (List Char)} (hpieces : pieces ≠ []) (last : List Char) :
    ['\n'].intercalate (pieces ++ [last]) = ['\n'].intercalate pieces ++ '\n' :: last := by
  induction pieces with
  | nil => exact absurd rfl hpieces
  | cons first rest ih =>
    cases rest with
    | nil => simp
    | cons second others =>
      rw [cons_append, intercalate_cons_of_ne_nil (by simp), ih (cons_ne_nil _ _),
        intercalate_cons_cons]
      simp

theorem getLast?_splitOn {content : List Char} (hcontent : content ≠ []) :
    (content.splitOn '\n').getLast? = some [] ↔ content.getLast? = some '\n' := by
  constructor
  · intro hlast
    obtain ⟨front, hfront⟩ := getLast?_eq_some_iff.mp hlast
    have hjoin : ['\n'].intercalate (front ++ [[]]) = content := by
      rw [← hfront, intercalate_splitOn]
    cases front with
    | nil => exact absurd hjoin.symm hcontent
    | cons first rest =>
      rw [join_concat (cons_ne_nil _ _)] at hjoin
      rw [← hjoin, getLast?_concat]
  · intro hlast
    obtain ⟨front, rfl⟩ := getLast?_eq_some_iff.mp hlast
    rw [splitOn_append_cons_self]
    exact getLast?_concat

theorem reportedAdditions_eq (content : List Char) :
    reportedAdditions content = UInt32.ofNat (contentLines content).length := by
  rw [reportedAdditions, contentLines]
  split
  next hnone => rw [hnone]; rfl
  next hsome =>
    by_cases hlast : content.getLast? = some '\n'
    · rw [if_pos hlast, if_pos ((getLast?_splitOn hsome).mpr hlast), length_dropLast]
    · rw [if_neg hlast, if_neg (fun h => hlast ((getLast?_splitOn hsome).mp h)), Nat.sub_zero]

theorem contentLines_eq_nil {content : List Char} : contentLines content = [] ↔ content = [] := by
  constructor
  · intro hnone
    rw [contentLines] at hnone
    split at hnone
    next hlast =>
      obtain ⟨front, hfront⟩ := getLast?_eq_some_iff.mp hlast
      rw [hfront, dropLast_concat] at hnone
      have hjoin : ['\n'].intercalate (content.splitOn '\n') = content :=
        intercalate_splitOn '\n'
      rw [← hjoin, hfront, hnone]
      rfl
    · exact absurd hnone (splitOn_ne_nil _ _)
  · rintro rfl
    rfl

end Lines

section Agreement

/-- The section of an untracked file as the claims of the engine about it have it. -/
structure AddsFile (path content : List Char) (file : FileDiff) : Prop where
  status : file.status = .added
  path : file.path = path
  oldPath : file.oldPath = none
  additions : file.additions = reportedAdditions content
  lines : AddedFrom 1 file.lines (contentLines content)

/-- The parser reads the section of a file as the engine reports the file. -/
def Agrees (path content : List Char) : Prop :=
  ∃ file, parsePatch (untrackedPatch path content) = [file] ∧ AddsFile path content file

theorem parsePatch_untrackedPatch (path content : List Char) :
    parsePatch (untrackedPatch path content) = [sectionFile path content] :=
  foldl_section {} path content

theorem agrees_iff_addsFile {path content : List Char} :
    Agrees path content ↔ AddsFile path content (sectionFile path content) := by
  rw [Agrees, parsePatch_untrackedPatch]
  constructor
  · rintro ⟨file, hfile, hadds⟩
    exact singleton_inj.mp hfile ▸ hadds
  · exact fun hadds => ⟨_, rfl, hadds⟩

theorem sectionHeader_eq (path content : List Char) :
    sectionHeader path content = { openSection (bothSides path) with
      status := .added
      path := if (openSection (bothSides path)).oldPath = none then stripGitPrefix (newSide path)
        else (openSection (bothSides path)).path
      hunks := [⟨"@@ -0,0 +1,".toList ++ hunkTail content, []⟩] } := by
  rw [sectionHeader, foldl_readHeader]
  rfl

theorem sectionFile_spec (path content : List Char) :
    (sectionFile path content).path = (sectionHeader path content).path ∧
      (sectionFile path content).oldPath = (openSection (bothSides path)).oldPath ∧
      (sectionFile path content).status = .added ∧
      (sectionFile path content).lines = sectionLines content ∧
      (sectionFile path content).additions = reportedAdditions content := by
  have hhunks : (sectionHeader path content).hunks =
      [⟨"@@ -0,0 +1,".toList ++ hunkTail content, []⟩] := by rw [sectionHeader_eq]
  obtain ⟨hpath, hold, hstatus, hlines, hadditions⟩ := foldl_push (sectionLines content) hhunks
  refine ⟨hpath, hold.trans (by rw [sectionHeader_eq]), hstatus.trans (by rw [sectionHeader_eq]),
    hlines, hadditions.trans ?_⟩
  have hzero : (sectionHeader path content).additions = 0 := by
    rw [sectionHeader_eq]
    rfl
  rw [hzero, UInt32.zero_add, reportedAdditions_eq, sectionLines]
  split
  next hnone => rw [hnone]; rfl
  · rw [countP_addedLines, length_map]

/-- The condition under which the two sides agree. -/
structure Plain (path content : List Char) : Prop where
  unquoted : path.any needsQuote = false
  nonempty : content ≠ []
  numbered : (contentLines content).length < UInt32.size

theorem addsFile_iff_plain (path content : List Char) :
    AddsFile path content (sectionFile path content) ↔ Plain path content := by
  obtain ⟨hpath, hold, hstatus, hlines, hadditions⟩ := sectionFile_spec path content
  have hheader := sectionHeader_eq path content
  constructor
  · intro hadds
    have hnone : (openSection (bothSides path)).oldPath = none := hold.symm.trans hadds.oldPath
    have hread : stripGitPrefix (newSide path) = path := by
      have hsame := hpath.symm.trans hadds.path
      rw [hheader] at hsame
      exact (if_pos hnone).symm.trans hsame
    have hfrom := hadds.lines
    rw [hlines, sectionLines] at hfrom
    split at hfrom
    next hempty =>
      rw [hempty] at hfrom
      cases hfrom
    next hsome =>
      refine ⟨?_, fun hnil => hsome (contentLines_eq_nil.2 hnil), ?_⟩
      · refine eq_false_of_ne_true fun hquoted => ?_
        exact stripGitPrefix_quoted hquoted hread
      · have hfits := ((addedFrom_addedLines 1 _).mp hfrom).resolve_left hsome
        omega
  · rintro ⟨hunquoted, hnonempty, hnumbered⟩
    have hopen : openSection (bothSides path) = { path, oldPath := none } := by
      rw [openSection, parseGitPaths_of_plain hunquoted]
      simp
    have hsome : contentLines content ≠ [] := fun hnil => hnonempty (contentLines_eq_nil.1 hnil)
    refine ⟨hstatus, hpath.trans ?_, hold.trans (by rw [hopen]), hadditions, ?_⟩
    · rw [hheader, hopen, newSide_plain hunquoted]
      rfl
    · rw [hlines, sectionLines, if_neg hsome]
      exact (addedFrom_addedLines 1 _).mpr (Or.inr (by omega))

/-- A patch text to which sections can be added. -/
def Complete (patch : List Char) : Prop := patch = [] ∨ patch.getLast? = some '\n'

theorem parsePatch_append {earlier : List Char} (hearlier : Complete earlier)
    (path content : List Char) :
    parsePatch (earlier ++ untrackedPatch path content) =
      parsePatch earlier ++ [sectionFile path content] := by
  have hlines : lines (earlier ++ untrackedPatch path content) =
      lines earlier ++ lines (untrackedPatch path content) := by
    rcases hearlier with rfl | hlast
    · rfl
    · obtain ⟨front, rfl⟩ := getLast?_eq_some_iff.mp hlast
      rw [append_assoc]
      exact lines_append_newline front _
  rw [parsePatch, hlines, foldl_append, foldl_section]
  rfl

theorem complete_append (earlier path content : List Char) :
    Complete (earlier ++ untrackedPatch path content) := by
  have hend : ∃ front, untrackedPatch path content = front ++ ['\n'] := ⟨_, rfl⟩
  obtain ⟨front, hfront⟩ := hend
  rw [hfront, ← append_assoc]
  exact Or.inr getLast?_concat

theorem parsePatch_sections {earlier : List Char} (hearlier : Complete earlier)
    (sections : List (List Char × List Char)) :
    parsePatch (earlier ++ sections.flatMap fun added => untrackedPatch added.1 added.2) =
      parsePatch earlier ++ sections.flatMap fun added => parsePatch (untrackedPatch added.1 added.2) := by
  induction sections generalizing earlier with
  | nil => rw [flatMap_nil, flatMap_nil, append_nil, append_nil]
  | cons added sections ih =>
    rw [flatMap_cons, flatMap_cons, ← append_assoc,
      ih (complete_append earlier added.1 added.2), parsePatch_append hearlier,
      parsePatch_untrackedPatch, append_assoc]

/-- The parser agrees with the engine on the files whose path needs no quotes and whose content
has lines, as many as can be numbered; and earlier sections are always left alone. -/
theorem untracked_agrees_iff (path content : List Char) :
    (Agrees path content ↔ Plain path content) ∧
      ∀ earlier (sections : List (List Char × List Char)), Complete earlier →
        parsePatch (earlier ++ sections.flatMap fun added => untrackedPatch added.1 added.2) =
          parsePatch earlier ++
            sections.flatMap fun added => parsePatch (untrackedPatch added.1 added.2) :=
  ⟨agrees_iff_addsFile.trans (addsFile_iff_plain path content),
    fun _ sections hearlier => parsePatch_sections hearlier sections⟩

/-- A path with a space is read with its quotes, and an empty file with a line. -/
theorem spaced_path_disagrees :
    ¬ ∀ path content : List Char, '\n' ∉ path → '\x00' ∉ content → Agrees path content := by
  intro hall
  obtain ⟨file, hfile, hadds⟩ := hall ['a', ' ', 'b'] ['x', '\n'] (by decide) (by decide)
  have hquoted : (parsePatch (untrackedPatch ['a', ' ', 'b'] ['x', '\n'])).map FileDiff.path =
      [['"', 'b', '/', 'a', ' ', 'b', '"']] := by decide +kernel
  rw [hfile, map_singleton, hadds.path] at hquoted
  exact absurd hquoted (by decide)

end Agreement

end Keel.Patch
