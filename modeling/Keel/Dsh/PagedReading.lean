import Keel.Dsh.ObservationPolicy
import Keel.Foundation.Records

/-! # Reading a file page by page

A read returns a window of the lines of a file and a footer that names the line to
continue at. A window that starts at a line of the file holds at least that line, since
one line cut to the default length fits the default byte cap, and it holds consecutive
lines. Reading on from the footer therefore shows every line once and ends.
-/

namespace Keel.Fs

open List Utf8 Text Option

def readLimit : Nat := 2000

/-- Default cap on the characters of a line. -/
def readMaxLineLength : Nat := 2000

/-- Default byte cap on the selected lines of one call. -/
def readMaxBytes : Nat := 50 * 1024

/-! ## The rendered window -/

structure FileReadOutcome where
  offset : Nat
  lines : List ReadFileLine
  totalLines : Nat
  truncatedByBytes : Bool

def lastShown (offset : Nat) (lines : List ReadFileLine) : Nat :=
  match lines.getLast? with
  | some line => line.number
  | none => offset - 1

/-- What a read says under its lines. -/
inductive Footer where
  | capped (offset endLine : Nat)
  | showing (offset endLine totalLines : Nat)
  | endOfFile (totalLines : Nat)

def Footer.continuation : Footer → Option Nat
  | .capped _ endLine => some (endLine + 1)
  | .showing _ endLine _ => some (endLine + 1)
  | .endOfFile _ => none

def Footer.text : Footer → String
  | .capped offset endLine =>
    "(Output capped. Showing lines " ++ toString offset ++ "-" ++ toString endLine ++
      ". Use offset=" ++ toString (endLine + 1) ++ " to continue.)"
  | .showing offset endLine totalLines =>
    "(Showing lines " ++ toString offset ++ "-" ++ toString endLine ++ " of " ++
      toString totalLines ++ ". Use offset=" ++ toString (endLine + 1) ++ " to continue.)"
  | .endOfFile totalLines => "(End of file - total " ++ toString totalLines ++ " lines)"

def FileReadOutcome.footer (outcome : FileReadOutcome) : Footer :=
  let endLine := lastShown outcome.offset outcome.lines
  if outcome.truncatedByBytes then .capped outcome.offset endLine
  else if endLine < outcome.totalLines then .showing outcome.offset endLine outcome.totalLines
  else .endOfFile outcome.totalLines

def formatReadOutput (displayPath : String) (outcome : FileReadOutcome) : String :=
  let footer := outcome.footer.text
  let numbered := outcome.lines.map fun line =>
    toString line.number ++ ": " ++ String.ofList line.text
  let body := if outcome.lines = [] then footer
    else "\n".intercalate numbered ++ "\n\n" ++ footer
  "<path>" ++ displayPath ++ "</path>\n<type>file</type>\n<content>\n" ++ body ++ "\n</content>"

/-- The outcome the render of a read builds from the stored result. It works out again
whether the byte cap cut the window, from the limit as the arguments spell it: `none`
when they leave it out or spell it with a fraction. -/
def renderedOutcome (limitArg : Option Nat) (offset : Nat) (window : WindowResult) :
    FileReadOutcome where
  offset := offset
  lines := window.lines
  totalLines := window.totalLines
  truncatedByBytes := decide (window.lines.length < limitArg.getD readLimit) &&
    decide (lastShown offset window.lines < window.totalLines)

def renderRead (displayPath : String) (limitArg : Option Nat) (offset : Nat)
    (window : WindowResult) : String :=
  formatReadOutput displayPath (renderedOutcome limitArg offset window)

theorem renderRead_eq (displayPath : String) (limitArg : Option Nat) (offset : Nat)
    (window : WindowResult) : ∃ before, renderRead displayPath limitArg offset window =
      before ++ (renderedOutcome limitArg offset window).footer.text ++ "\n</content>" := by
  rw [renderRead, formatReadOutput]
  split
  · exact ⟨_, rfl⟩
  · simp only [← String.append_assoc]
    exact ⟨_, rfl⟩

/-! ## The lines of a text -/

/-- The parts of the text are its lines: none holds a newline, and a newline ends each of
them but the last, which may go without one if it is not empty. -/
def IsLines (text : List Char) (parts : List (List Char)) : Prop :=
  ∃ records tail, (∀ record ∈ records, '\n' ∉ record) ∧ '\n' ∉ tail ∧
    text = Records.text records ++ tail ∧ parts = records ++ if tail = [] then [] else [tail]

theorem exists_records (text : List Char) :
    ∃ records tail, (∀ record ∈ records, '\n' ∉ record) ∧ '\n' ∉ tail ∧
      text = Records.text records ++ tail := by
  induction text with
  | nil => exact ⟨[], [], by simp, by simp, rfl⟩
  | cons c rest ih =>
    obtain ⟨records, tail, hrecords, htail, rfl⟩ := ih
    by_cases hc : c = '\n'
    · subst hc
      exact ⟨[] :: records, tail, by simpa using hrecords, htail, rfl⟩
    · cases records with
      | nil => exact ⟨[], c :: tail, by simp, by simp [htail, Ne.symm hc], rfl⟩
      | cons record records =>
        rw [forall_mem_cons] at hrecords
        refine ⟨(c :: record) :: records, tail, ?_, htail, rfl⟩
        rw [forall_mem_cons]
        exact ⟨by simp [hrecords.1, Ne.symm hc], hrecords.2⟩

theorem isLines_windowParts (text : List Char) : IsLines text (windowParts text) := by
  obtain ⟨records, tail, hrecords, htail, rfl⟩ := exists_records text
  refine ⟨records, tail, hrecords, htail, rfl, ?_⟩
  simp only [windowParts, Records.splitOn_text_append hrecords htail, getLast?_concat,
    dropLast_concat, some.injEq]
  cases tail with
  | nil =>
    cases records with
    | nil => rfl
    | cons record records => simp [Records.text_cons]
  | cons c tail => simp

/-! ## What a window holds -/

/-- The lines as a read shows them, numbered from one. -/
def shownLines (maxLineLength : Nat) (parts : List (List Char)) : List ReadFileLine :=
  parts.mapIdx fun index raw => ⟨index + 1, truncateLine (stripReturn raw) maxLineLength⟩

theorem shownLines_concat (maxLineLength : Nat) (parts : List (List Char)) (raw : List Char) :
    shownLines maxLineLength (parts ++ [raw]) = shownLines maxLineLength parts ++
      [⟨parts.length + 1, truncateLine (stripReturn raw) maxLineLength⟩] := by
  simp [shownLines, mapIdx_append]

@[simp] theorem length_shownLines (maxLineLength : Nat) (parts : List (List Char)) :
    (shownLines maxLineLength parts).length = parts.length := by
  simp [shownLines]

/-- Every line as it is shown fits the byte cap. -/
def Fits (maxLineLength maxBytes : Nat) : Prop :=
  ∀ line, byteLength (truncateLine line maxLineLength) ≤ maxBytes

/-- A scan of these parts: consecutive lines from the offset on, and as many of them as
the limit asks for unless the byte cap cut them off. -/
structure Scanned (request : ReadWindow) (parts : List (List Char)) (scan : WindowScan) : Prop where
  total : scan.totalLines = parts.length
  lines : scan.lines <+: (shownLines request.maxLineLength parts).drop (request.offset - 1)
  filled : scan.truncatedByBytes = false →
    scan.lines.length = min request.limit (parts.length - (request.offset - 1))
  cut : scan.truncatedByBytes = true → scan.lines ≠ [] ∧ scan.lines.length < request.limit ∧
    scan.lines.length < parts.length - (request.offset - 1)
  fresh : scan.lines = [] → scan.outputBytes = 0

theorem Scanned.scanLine {request : ReadWindow} {parts : List (List Char)} {scan : WindowScan}
    (hfits : Fits request.maxLineLength request.maxBytes) (h : Scanned request parts scan)
    (raw : List Char) : Scanned request (parts ++ [raw]) (scanLine request scan raw) := by
  have hgrown : scan.lines <+:
      (shownLines request.maxLineLength (parts ++ [raw])).drop (request.offset - 1) := by
    rw [shownLines_concat, drop_append]
    exact h.lines.trans (prefix_append _ _)
  have htotal : scan.totalLines + 1 = (parts ++ [raw]).length := by
    rw [h.total, length_append, length_singleton]
  -- The first line shown always fits.
  have hfirst : scan.lines = [] → scan.outputBytes +
      (byteLength (truncateLine (stripReturn raw) request.maxLineLength) +
        if scan.lines = [] then 0 else 1) ≤ request.maxBytes := by
    intro hempty
    rw [if_pos hempty, h.fresh hempty, Nat.zero_add, Nat.add_zero]
    exact hfits (stripReturn raw)
  simp only [Fs.scanLine]
  generalize hbytes : byteLength _ + (if scan.lines = [] then 0 else 1) = bytes at hfirst ⊢
  split
  next hskip =>
    refine ⟨htotal, hgrown, ?_, ?_, h.fresh⟩
    · intro (huncut : scan.truncatedByBytes = false)
      have hfilled := h.filled huncut
      simp only [huncut, Bool.false_eq_true, false_or, h.total] at hskip
      simp only [length_append, length_singleton]
      omega
    · intro hcut
      obtain ⟨hshown, hlimit, hless⟩ := h.cut hcut
      exact ⟨hshown, hlimit, Nat.lt_of_lt_of_le hless
        (Nat.sub_le_sub_right (by simp) _)⟩
  next hkeep =>
    rw [not_or, not_or, Bool.not_eq_true, h.total] at hkeep
    obtain ⟨huncut, hoffset, hlimit⟩ := hkeep
    have hfilled := h.filled huncut
    split
    next hover =>
      refine ⟨htotal, hgrown, nofun, fun _ => ⟨?_, Nat.lt_of_not_le hlimit, ?_⟩, h.fresh⟩
      · exact fun hempty => absurd (hfirst hempty) (Nat.not_le_of_lt hover)
      · simp only [length_append, length_singleton]
        omega
    next hroom =>
      -- The window is not full, so it holds every line from the offset on.
      have hall : scan.lines =
          (shownLines request.maxLineLength parts).drop (request.offset - 1) := by
        refine h.lines.eq_of_length ?_
        rw [length_drop, length_shownLines]
        omega
      refine ⟨htotal, ?_, ?_, fun hcut => ?_, fun hempty => ?_⟩
      · rw [shownLines_concat, drop_append_of_le_length, ← hall, h.total]
        rw [length_shownLines]
        omega
      · intro
        simp only [length_append, length_singleton]
        omega
      · exact absurd hcut (by simp [huncut])
      · exact absurd hempty (by simp)

variable {request : ReadWindow} {parts : List (List Char)} {window : WindowResult}

theorem scanned_foldl
    (hfits : Fits request.maxLineLength request.maxBytes) (parts : List (List Char)) :
    Scanned request parts (parts.foldl (scanLine request) ⟨⟨[], 0, false⟩, 0⟩) := by
  induction parts using List.reverseRecOn with
  | nil => exact ⟨rfl, List.nil_prefix, fun _ => by simp, nofun, fun _ => rfl⟩
  | append_singleton parts raw ih =>
    rw [foldl_concat]
    exact ih.scanLine hfits raw

/-- What a read from a line of the file answers with: some lines, the first of them this
one, and the file behind them only if the limit or the byte cap has cut the window. -/
structure Page (request : ReadWindow) (parts : List (List Char)) (window : WindowResult) :
    Prop where
  total : window.totalLines = parts.length
  lines : window.lines = ((shownLines request.maxLineLength parts).drop
    (request.offset - 1)).take window.lines.length
  short : window.lines.length ≤ parts.length - (request.offset - 1)
  first : request.offset ≤ parts.length → window.lines ≠ []
  cut : window.truncatedByBytes = true ↔ window.lines.length < request.limit ∧
    window.lines.length < parts.length - (request.offset - 1)

/-- A read from a line of the file, or from the first of an empty one, does not fail. -/
theorem buildWindow_ok {text : List Char} {request : ReadWindow} {displayPath : String}
    (hfits : Fits request.maxLineLength request.maxBytes) (hlimit : 1 ≤ request.limit)
    (hpositive : 1 ≤ request.offset)
    (hoffset : request.offset ≤ max 1 (windowParts text).length) :
    ∃ window, buildWindow text request displayPath = .ok window ∧
      Page request (windowParts text) window := by
  have hscan := scanned_foldl hfits (windowParts text)
  have hlength : ((windowParts text).foldl (scanLine request) ⟨⟨[], 0, false⟩, 0⟩).lines.length ≤
      (windowParts text).length - (request.offset - 1) := by
    have hle := hscan.lines.length_le
    rwa [length_drop, length_shownLines] at hle
  refine ⟨_, if_neg ?_, hscan.total, prefix_iff_eq_take.1 hscan.lines, hlength, ?_, ?_⟩
  · rintro ⟨-, hpast, hstart⟩
    rw [hscan.total] at hpast hstart
    exact hstart ⟨by omega, by omega⟩
  · intro hinside hempty
    cases hcut : ((windowParts text).foldl (scanLine request)
        ⟨⟨[], 0, false⟩, 0⟩).truncatedByBytes with
    | true => exact (hscan.cut hcut).1 hempty
    | false =>
      have hfilled := hscan.filled hcut
      rw [hempty, length_nil] at hfilled
      omega
  · cases hcut : ((windowParts text).foldl (scanLine request)
        ⟨⟨[], 0, false⟩, 0⟩).truncatedByBytes with
    | true => exact iff_of_true rfl (hscan.cut hcut).2
    | false =>
      have hfilled := hscan.filled hcut
      simp only [Bool.false_eq_true, false_iff]
      omega

/-! ## The footer -/

theorem getElem?_shownLines (maxLineLength : Nat) (parts : List (List Char)) (index : Nat) :
    (shownLines maxLineLength parts)[index]? = parts[index]?.map fun raw =>
      ⟨index + 1, truncateLine (stripReturn raw) maxLineLength⟩ :=
  getElem?_mapIdx

theorem map_number_shownLines (maxLineLength : Nat) (parts : List (List Char)) :
    (shownLines maxLineLength parts).map ReadFileLine.number = List.range' 1 parts.length := by
  induction parts using List.reverseRecOn with
  | nil => rfl
  | append_singleton parts raw ih =>
    rw [shownLines_concat, map_append, ih, length_append, length_singleton,
      range'_1_concat, Nat.add_comm 1]
    rfl

section
variable (hpage : Page request parts window)
include hpage

theorem Page.lastShown_eq :
    lastShown request.offset window.lines = request.offset - 1 + window.lines.length := by
  cases hlast : window.lines.getLast? with
  | none =>
    rw [lastShown, hlast, getLast?_eq_none_iff.1 hlast]
    rfl
  | some line =>
    have hpos : 0 < window.lines.length := length_pos_of_mem (mem_of_getLast? hlast)
    have hat : (shownLines request.maxLineLength parts)[
        request.offset - 1 + (window.lines.length - 1)]? = some line := by
      rw [getLast?_eq_getElem?, congrArg (·[window.lines.length - 1]?) hpage.lines,
        getElem?_take_of_lt (by omega), getElem?_drop] at hlast
      exact hlast
    rw [getElem?_shownLines, map_eq_some_iff] at hat
    obtain ⟨raw, -, rfl⟩ := hat
    rw [lastShown, hlast]
    change request.offset - 1 + (window.lines.length - 1) + 1 = _
    omega

theorem renderedOutcome_truncatedByBytes (hpositive : 1 ≤ request.offset) :
    (renderedOutcome (some request.limit) request.offset window).truncatedByBytes =
      window.truncatedByBytes := by
  rw [Bool.eq_iff_iff, hpage.cut]
  simp only [renderedOutcome, getD_some, Bool.and_eq_true, decide_eq_true_eq,
    hpage.lastShown_eq, hpage.total]
  omega

/-- The footer names the line behind the window, and the end of the file exactly when the
window reaches it. -/
theorem footer_renderedOutcome (limitArg : Option Nat) :
    if request.offset - 1 + window.lines.length < parts.length then
      (renderedOutcome limitArg request.offset window).footer.continuation =
        some (request.offset - 1 + window.lines.length + 1)
    else (renderedOutcome limitArg request.offset window).footer = .endOfFile parts.length := by
  simp only [FileReadOutcome.footer, renderedOutcome, hpage.lastShown_eq, hpage.total,
    Bool.and_eq_true, decide_eq_true_eq]
  split
  next hmore =>
    split
    · rfl
    · rfl
  next hend => rw [if_neg fun hcut => hend hcut.2]

end

/-! ## Reading on -/

/-- The limit of one read: what the parsed arguments let through, and how they spell it. -/
structure PageRequest where
  limit : Nat
  limitArg : Option Nat
  positive : 1 ≤ limit
  capped : limit ≤ readLimit

/-- A reader that starts at the first line and goes on where the footer says. -/
inductive Reader where
  | reading (lines : List ReadFileLine) (offset : Nat)
  | finished (lines : List ReadFileLine) (totalLines : Nat)
  | failed (error : FsError)
deriving DecidableEq

def readPage (text : List Char) (displayPath : String) (request : PageRequest) :
    Reader → Reader
  | .reading lines offset =>
    match buildWindow text ⟨offset, request.limit, readMaxLineLength, readMaxBytes⟩
        displayPath with
    | .error error => .failed error
    | .ok window =>
      match (renderedOutcome request.limitArg offset window).footer with
      | .endOfFile totalLines => .finished (lines ++ window.lines) totalLines
      | .capped _ endLine | .showing _ endLine _ =>
        .reading (lines ++ window.lines) (endLine + 1)
  | reader => reader

def readPages (text : List Char) (displayPath : String) (requests : Nat → PageRequest) :
    Nat → Reader
  | 0 => .reading [] 1
  | calls + 1 =>
    readPage text displayPath (requests calls) (readPages text displayPath requests calls)

/-- A line of the default length, and what follows a longer one, fit the default cap. -/
theorem fits_default : Fits readMaxLineLength readMaxBytes := by
  intro line
  have hmark : ("... (line truncated to " ++ toString readMaxLineLength ++
      " chars)").toList.length = 34 := rfl
  have hlength : (truncateLine line readMaxLineLength).length ≤ 2034 := by
    rw [truncateLine]
    split
    next hlong =>
      rw [length_append, hmark, length_take]
      exact Nat.add_le_add_right (Nat.min_le_left _ _) _
    next hshort => exact (Nat.le_of_not_lt hshort).trans (by decide)
  calc byteLength (truncateLine line readMaxLineLength)
      ≤ 4 * (truncateLine line readMaxLineLength).length := byteLength_le _
    _ ≤ 4 * 2034 := Nat.mul_le_mul_left 4 hlength
    _ ≤ readMaxBytes := by decide

/-- Where a reader stands after some calls: it has read the lines before its offset, at
least one with each call, or all of them. -/
def Reader.Sound (parts : List (List Char)) (calls : Nat) : Reader → Prop
  | .reading lines offset => lines = (shownLines readMaxLineLength parts).take (offset - 1) ∧
      1 ≤ offset ∧ offset ≤ max 1 parts.length ∧ calls ≤ offset - 1
  | .finished lines totalLines =>
    lines = shownLines readMaxLineLength parts ∧ totalLines = parts.length
  | .failed _ => False

theorem Reader.Sound.readPage {text : List Char} {displayPath : String} {request : PageRequest}
    {reader : Reader} {calls : Nat} (h : reader.Sound (windowParts text) calls) :
    (readPage text displayPath request reader).Sound (windowParts text) (calls + 1) := by
  cases reader with
  | reading lines offset =>
    obtain ⟨rfl, hpositive, hoffset, hcalls⟩ := h
    obtain ⟨window, hwindow, hpage⟩ := @buildWindow_ok text
      ⟨offset, request.limit, readMaxLineLength, readMaxBytes⟩ displayPath fits_default
      request.positive hpositive hoffset
    have hjoined : (shownLines readMaxLineLength (windowParts text)).take (offset - 1) ++
        window.lines = (shownLines readMaxLineLength (windowParts text)).take
          (offset - 1 + window.lines.length) := by
      rw [take_add, ← hpage.lines]
    have hfooter := footer_renderedOutcome hpage request.limitArg
    simp only [Fs.readPage, hwindow]
    split at hfooter
    next hmore =>
      have hfirst : 0 < window.lines.length :=
        length_pos_iff.2 (hpage.first (by simp only at hmore ⊢; omega))
      have hnext : Reader.Sound (windowParts text) (calls + 1)
          (.reading ((shownLines readMaxLineLength (windowParts text)).take (offset - 1) ++
            window.lines) (offset - 1 + window.lines.length + 1)) :=
        ⟨hjoined, by omega, by simp only at hmore; omega, by omega⟩
      generalize (renderedOutcome request.limitArg offset window).footer = footer at hfooter ⊢
      cases footer with
      | capped offset endLine | showing offset endLine totalLines =>
        obtain rfl := Nat.succ.inj (Option.some.inj hfooter)
        exact hnext
      | endOfFile totalLines => exact absurd hfooter nofun
    next hend =>
      rw [hfooter]
      refine ⟨hjoined.trans (take_of_length_le ?_), rfl⟩
      rw [length_shownLines]
      exact Nat.le_of_not_lt hend
  | finished lines totalLines => exact h
  | failed error => exact h.elim

theorem sound_readPages (text : List Char) (displayPath : String)
    (requests : Nat → PageRequest) (calls : Nat) :
    (readPages text displayPath requests calls).Sound (windowParts text) calls := by
  induction calls with
  | zero => exact ⟨by simp, Nat.le_refl 1, Nat.le_max_left _ _, Nat.zero_le _⟩
  | succ calls ih => exact ih.readPage

/-- What a read shows of a line: all of it, or its beginning and a mark. -/
def ShownAs (line shown : List Char) : Prop :=
  if line.length ≤ readMaxLineLength then shown = line
  else shown = line.take readMaxLineLength ++ "... (line truncated to 2000 chars)".toList

theorem shownAs_truncateLine (line : List Char) :
    ShownAs line (truncateLine line readMaxLineLength) := by
  rw [ShownAs, truncateLine]
  split
  next hshort => rw [if_neg (Nat.not_lt_of_le hshort)]
  next hlong =>
    rw [if_pos (Nat.lt_of_not_le hlong)]
    rfl

/-- Reading on from the footers, with whatever limits, never fails, ends at the footer of
the end of the file after at most one call for each line and one for an empty text, and
shows each line of the text once and in order. -/
theorem paged_reading_complete (text : List Char) (displayPath : String)
    (requests : Nat → PageRequest) :
    (∀ calls error, readPages text displayPath requests calls ≠ .failed error) ∧
      ∃ parts lines, IsLines text parts ∧
        (∃ calls ≤ max 1 parts.length, readPages text displayPath requests calls =
          .finished lines parts.length) ∧
        lines.map ReadFileLine.number = List.range' 1 parts.length ∧
        List.Forall₂ (fun raw line => ShownAs (Text.stripReturn raw) line.text) parts lines := by
  have hsound := sound_readPages text displayPath requests
  refine ⟨fun calls error hfailed => ?_, windowParts text,
    shownLines readMaxLineLength (windowParts text), isLines_windowParts text, ?_, ?_, ?_⟩
  · have hat := hsound calls
    rw [hfailed] at hat
    exact hat
  · refine ⟨max 1 (windowParts text).length, Nat.le_refl _, ?_⟩
    have hat := hsound (max 1 (windowParts text).length)
    cases hreader : readPages text displayPath requests (max 1 (windowParts text).length) with
    | reading lines offset =>
      rw [hreader] at hat
      obtain ⟨-, -, hoffset, hcalls⟩ := hat
      omega
    | finished lines totalLines =>
      rw [hreader] at hat
      rw [hat.1, hat.2]
    | failed error =>
      rw [hreader] at hat
      exact hat.elim
  · exact map_number_shownLines _ _
  · rw [forall₂_iff_get]
    refine ⟨(length_shownLines _ _).symm, fun index hparts hlines => ?_⟩
    simp only [get_eq_getElem, shownLines, getElem_mapIdx]
    exact shownAs_truncateLine _

end Keel.Fs
