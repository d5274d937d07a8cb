import Keel.Dsh.FsEffects

/-! # What an edit leaves as it was

An edit reads its file with CRLF as LF, replaces what it matched and stores the result in
the ending style that dominates the head of the file. Everything between the matches is
kept up to its line endings, and those are kept where the file has one style only.
-/

namespace Keel.Fs

open List Text

section Cuts

/-- The pieces between the occurrences that are found from the left, each behind the one before. -/
inductive Cuts (needle : List Char) : List Char → List (List Char) → Prop
  | last {piece : List Char} (hnone : ¬ needle <:+: piece) : Cuts needle piece [piece]
  | found {piece rest : List Char} {pieces : List (List Char)}
      (hfirst : ∀ front, front ++ needle <+: piece ++ needle → front = piece)
      (hrest : Cuts needle rest pieces) : Cuts needle (piece ++ needle ++ rest) (piece :: pieces)

variable {needle content rest piece : List Char} {pieces : List (List Char)}

theorem Cuts.ne_nil (hcuts : Cuts needle content pieces) : pieces ≠ [] := by
  cases hcuts <;> simp

theorem Cuts.intercalate_eq (hcuts : Cuts needle content pieces) :
    needle.intercalate pieces = content := by
  induction hcuts with
  | last => simp
  | found _ hrest ih =>
    rw [intercalate_cons_of_ne_nil hrest.ne_nil, ih]

theorem countFrom_skip (skipped : Nat) (text : List Char) :
    countFrom needle skipped text = countFrom needle 0 (text.drop skipped) := by
  induction text generalizing skipped with
  | nil => cases skipped <;> rfl
  | cons c text ih =>
    cases skipped with
    | zero => rfl
    | succ skipped => exact ih skipped

theorem replaceFrom_skip (replacement : List Char) (skipped : Nat) (text : List Char) :
    replaceFrom needle replacement skipped text =
      replaceFrom needle replacement 0 (text.drop skipped) := by
  induction text generalizing skipped with
  | nil => cases skipped <;> rfl
  | cons c text ih =>
    cases skipped with
    | zero => rfl
    | succ skipped => exact ih skipped

theorem countFrom_append (hneedle : needle ≠ []) (rest : List Char) :
    countFrom needle 0 (needle ++ rest) = countFrom needle 0 rest + 1 := by
  obtain ⟨c, tail, rfl⟩ := exists_cons_of_ne_nil hneedle
  have hstarts : (c :: tail).isPrefixOf (c :: (tail ++ rest)) = true :=
    isPrefixOf_iff_prefix.2 (prefix_append (c :: tail) rest)
  rw [cons_append, countFrom, if_pos hstarts, countFrom_skip]
  simp

theorem replaceFrom_append (hneedle : needle ≠ []) (replacement rest : List Char) :
    replaceFrom needle replacement 0 (needle ++ rest) =
      replacement ++ replaceFrom needle replacement 0 rest := by
  obtain ⟨c, tail, rfl⟩ := exists_cons_of_ne_nil hneedle
  have hstarts : (c :: tail).isPrefixOf (c :: (tail ++ rest)) = true :=
    isPrefixOf_iff_prefix.2 (prefix_append (c :: tail) rest)
  rw [cons_append, replaceFrom, if_pos hstarts, replaceFrom_skip]
  simp

theorem Cuts.cons {c : Char} (hcuts : Cuts needle content (piece :: pieces))
    (hstarts : ¬ needle <+: c :: content) : Cuts needle (c :: content) ((c :: piece) :: pieces) := by
  cases hcuts with
  | last hnone =>
    refine .last fun hinfix => ?_
    rcases infix_cons_iff.1 hinfix with hstart | hlater
    · exact hstarts hstart
    · exact hnone hlater
  | @found _ rest _ hfirst hrest =>
    refine @Cuts.found _ (c :: piece) rest _ (fun front hfront => ?_) hrest
    cases front with
    | nil =>
      exact absurd (hfront.trans (by simp)) hstarts
    | cons d front =>
      obtain ⟨rfl, htail⟩ := cons_prefix_cons.1 hfront
      rw [hfirst front htail]

theorem exists_cuts (hneedle : needle ≠ []) (content : List Char) :
    ∃ pieces, Cuts needle content pieces ∧ pieces.length = countFrom needle 0 content + 1 ∧
      ∀ replacement, replaceFrom needle replacement 0 content = replacement.intercalate pieces := by
  induction hlength : content.length using Nat.strongRecOn generalizing content with
  | ind length ih =>
    by_cases hstarts : needle <+: content
    · obtain ⟨rest, rfl⟩ := hstarts
      have hshorter : rest.length < length := by
        have hpositive := length_pos_iff.2 hneedle
        rw [← hlength, length_append]
        omega
      obtain ⟨pieces, hcuts, hcount, hreplace⟩ := ih rest.length hshorter rest rfl
      refine ⟨[] :: pieces, ?_, ?_, fun replacement => ?_⟩
      · refine @Cuts.found _ [] rest pieces (fun front hfront => ?_) hcuts
        have hle := hfront.length_le
        rw [length_append, length_append, length_nil] at hle
        exact eq_nil_of_length_eq_zero (by omega)
      · rw [length_cons, hcount, countFrom_append hneedle]
      · rw [replaceFrom_append hneedle, hreplace, intercalate_cons_of_ne_nil hcuts.ne_nil]
        rfl
    · cases content with
      | nil =>
        refine ⟨[[]], .last fun hinfix => hneedle (infix_nil.1 hinfix), rfl, fun _ => ?_⟩
        simp [replaceFrom]
      | cons c content =>
        have hmiss : needle.isPrefixOf (c :: content) = false := by
          rwa [← Bool.not_eq_true, isPrefixOf_iff_prefix]
        obtain ⟨pieces, hcuts, hcount, hreplace⟩ :=
          ih content.length (by rw [← hlength]; exact Nat.lt_succ_self _) content rfl
        obtain ⟨piece, pieces, rfl⟩ := exists_cons_of_ne_nil hcuts.ne_nil
        refine ⟨(c :: piece) :: pieces, hcuts.cons hstarts, ?_, fun replacement => ?_⟩
        · rw [countFrom, hmiss]
          simpa using hcount
        · rw [replaceFrom, hmiss, intercalate_cons_cons_left, ← hreplace]
          rfl

end Cuts

section Endings

/-- Every line feed with a carriage return in front. -/
def expand (text : List Char) : List Char :=
  text.flatMap fun c => if c = '\n' then ['\r', '\n'] else [c]

theorem replaceFrom_newline (text : List Char) :
    replaceFrom ['\n'] ['\r', '\n'] 0 text = expand text := by
  induction text with
  | nil => rfl
  | cons c text ih =>
    rw [replaceFrom, expand, flatMap_cons, ← expand, ← ih]
    by_cases hc : c = '\n'
    · subst hc
      simp
    · rw [if_neg hc, if_neg (by simpa using fun h => hc h.symm)]
      rfl

theorem normalizeLineEndings_cons {c : Char} {text : List Char}
    (hpair : ¬ (c = '\r' ∧ text.head? = some '\n')) :
    normalizeLineEndings (c :: text) = c :: normalizeLineEndings text := by
  cases text with
  | nil => rfl
  | cons d text =>
    rw [normalizeLineEndings, replacePair, if_neg (by simpa using hpair)]
    rfl

theorem normalizeLineEndings_expand (text : List Char) :
    normalizeLineEndings (expand text) = text := by
  induction text with
  | nil => rfl
  | cons c text ih =>
    rw [expand, flatMap_cons, ← expand]
    by_cases hc : c = '\n'
    · subst hc
      rw [if_pos rfl, cons_append, cons_append, nil_append, normalizeLineEndings,
        replacePair, if_pos ⟨rfl, rfl⟩, ← normalizeLineEndings, ih]
    · rw [if_neg hc, singleton_append, normalizeLineEndings_cons, ih]
      -- an expanded text does not start with a bare line feed
      rintro ⟨-, hhead⟩
      cases text with
      | nil => cases hhead
      | cons d text =>
        rw [expand, flatMap_cons] at hhead
        split at hhead
        · cases hhead
        next hd => exact hd (by simpa using hhead)

theorem expand_intercalate (separator : List Char) (pieces : List (List Char)) :
    expand (separator.intercalate pieces) =
      (expand separator).intercalate (pieces.map expand) := by
  induction pieces with
  | nil => rfl
  | cons piece pieces ih =>
    cases pieces with
    | nil => simp
    | cons next pieces =>
      rw [intercalate_cons_cons, map_cons, map_cons, intercalate_cons_cons,
        ← map_cons, ← ih]
      simp [expand]

end Endings

section Edits

/-- A text without pairs in an ending style. -/
def styled : LineEndings → List Char → List Char
  | .lf, text => text
  | .crlf, text => expand text

/-- All the line endings of a file are of the style that is detected. -/
def Uniform (raw : List Char) : Prop :=
  restoreLineEndings (normalizeLineEndings raw) (detectLineEndings raw) = raw

theorem restoreLineEndings_crlf (text : List Char) :
    restoreLineEndings text .crlf = expand (normalizeLineEndings text) :=
  replaceFrom_newline _

theorem normalizeLineEndings_restore (text : List Char) (endings : LineEndings) :
    normalizeLineEndings (restoreLineEndings text endings) = normalizeLineEndings text := by
  cases endings with
  | lf => rfl
  | crlf => rw [restoreLineEndings_crlf, normalizeLineEndings_expand]

theorem styled_intercalate (endings : LineEndings) (separator : List Char)
    (pieces : List (List Char)) :
    styled endings (separator.intercalate pieces) =
      (styled endings separator).intercalate (pieces.map (styled endings)) := by
  cases endings with
  | lf => exact congrArg separator.intercalate (map_id pieces).symm
  | crlf => exact expand_intercalate separator pieces

theorem Uniform.eq_styled {raw : List Char} (huniform : Uniform raw) :
    raw = styled (detectLineEndings raw) (normalizeLineEndings raw) := by
  rw [Uniform] at huniform
  cases hendings : detectLineEndings raw with
  | lf =>
    rw [hendings] at huniform
    exact huniform.symm
  | crlf =>
    rw [hendings, restoreLineEndings_crlf] at huniform
    have htwice : normalizeLineEndings raw = normalizeLineEndings (normalizeLineEndings raw) := by
      conv_lhs => rw [← huniform, normalizeLineEndings_expand]
    rw [styled, htwice, huniform]

theorem applyLiteralEdit_ok {content oldString newString edited : List Char} {replaceAll : Bool}
    {displayPath : String} {count : Nat}
    (hedit : applyLiteralEdit content oldString newString replaceAll displayPath =
      .ok (edited, count)) :
    normalizeLineEndings oldString ≠ [] ∧
      1 ≤ countFrom (normalizeLineEndings oldString) 0 content ∧
      (replaceAll = false → countFrom (normalizeLineEndings oldString) 0 content = 1) ∧
      edited = replaceFrom (normalizeLineEndings oldString) (normalizeLineEndings newString) 0
        content := by
  simp only [applyLiteralEdit] at hedit
  split at hedit
  · cases hedit
  next hold =>
    rw [countOccurrences, if_neg hold] at hedit
    split at hedit
    · cases hedit
    next hsome =>
      split at hedit
      · cases hedit
      next hone =>
        cases hedit
        refine ⟨hold, by omega, fun hsingle => ?_, rfl⟩
        simp only [hsingle, Bool.not_false, Bool.true_and, decide_eq_true_eq] at hone
        omega

variable {io : Io} {disk after : Disk} {target : FsTarget}

/-- An edit replaces the matches it found, and stores the text between them as it was but for the
endings, and with those where the file has one style. -/
theorem editText_keeps_rest {author : CallId} {edit : FsEditRequest} {expected : Option FsVersion}
    {outcome : FsEditOutcome}
    (hedit : editText io disk target author edit expected = some (after, .ok outcome)) :
    ∃ node raw stored pieces, disk.current target.targetKey = some node ∧
      Utf8.decode node.bytes = some raw ∧
      after.current target.targetKey = some ⟨io.version, .file, Utf8.encode stored⟩ ∧
      Cuts (normalizeLineEndings edit.oldString) (normalizeLineEndings raw) pieces ∧
      2 ≤ pieces.length ∧ (edit.replaceAll = false → pieces.length = 2) ∧
      outcome.before = normalizeLineEndings raw ∧
      outcome.after = (normalizeLineEndings edit.newString).intercalate pieces ∧
      stored = restoreLineEndings outcome.after (detectLineEndings raw) ∧
      normalizeLineEndings stored = normalizeLineEndings outcome.after ∧
      (Uniform raw →
        (detectLineEndings raw = .crlf → normalizeLineEndings outcome.after = outcome.after) →
        raw = (styled (detectLineEndings raw) (normalizeLineEndings edit.oldString)).intercalate
            (pieces.map (styled (detectLineEndings raw))) ∧
          stored = (styled (detectLineEndings raw)
              (normalizeLineEndings edit.newString)).intercalate
            (pieces.map (styled (detectLineEndings raw)))) := by
  rcases editText_cases hedit with ⟨error, herror, -⟩ | ⟨plan, hplan, hplanned, -, hpublished⟩
  · cases herror
  · cases hplan
    obtain ⟨⟨node, hnode, -, hdecode⟩, hcontent, count, hliteral⟩ := hplanned
    obtain ⟨hold, hsome, hsingle, hedited⟩ := applyLiteralEdit_ok hliteral
    rw [hcontent] at hsome hsingle hedited
    obtain ⟨pieces, hcuts, hcount, hreplace⟩ := exists_cuts hold (normalizeLineEndings plan.raw)
    rw [hreplace] at hedited
    refine ⟨node, plan.raw, plan.stored, pieces, hnode, hdecode, hpublished.current, hcuts,
      by omega, fun hone => by rw [hcount, hsingle hone], hcontent, hedited, rfl,
      normalizeLineEndings_restore _ _, fun huniform hpairs => ⟨?_, ?_⟩⟩
    · rw [← styled_intercalate, hcuts.intercalate_eq]
      exact huniform.eq_styled
    · rw [← styled_intercalate, ← hedited, EditPlan.stored]
      cases hendings : detectLineEndings plan.raw with
      | lf => rfl
      | crlf => rw [restoreLineEndings_crlf, hpairs hendings, styled]

end Edits

section Mixed

/-- A text with some places replaced, every character outside of them as it was. -/
inductive Replaced (old new : List Char) : List Char → List Char → Prop
  | rest (text : List Char) : Replaced old new text text
  | place (front found : List Char) {rest after : List Char}
      (hfound : normalizeLineEndings found = old) (hrest : Replaced old new rest after) :
      Replaced old new (front ++ found ++ rest) (front ++ new ++ after)

def editedTarget : FsTarget := ⟨⟨"/w/a"⟩, "/w/a"⟩

def fileDisk (bytes : List UInt8) : Disk where
  store := ⟨fun key => if key = ⟨"/w/a"⟩ then some ⟨⟨"1"⟩, .file, bytes⟩ else none,
    [⟨⟨"/w/a"⟩, ⟨⟨"1"⟩, .file, bytes⟩, none⟩]⟩
  denied _ := none

def calmIo : Io where
  aborted := false
  resolved := .ok editedTarget
  read := none
  made := []
  createDirs := none
  stage := none
  publish := none
  dangling := none
  version := ⟨"2"⟩

/-- `b` becomes `c` in a file with two CRLF endings. -/
theorem editText_keeps_rest_crlf :
    ∃ after outcome, editText calmIo (fileDisk [97, 13, 10, 98, 13, 10]) editedTarget 0
        ⟨['b'], ['c'], false⟩ none = some (after, .ok outcome) ∧
      ∃ node raw stored pieces,
        (fileDisk [97, 13, 10, 98, 13, 10]).current editedTarget.targetKey = some node ∧
        Utf8.decode node.bytes = some raw ∧
        after.current editedTarget.targetKey = some ⟨⟨"2"⟩, .file, Utf8.encode stored⟩ ∧
        Cuts ['b'] (normalizeLineEndings raw) pieces ∧ pieces.length = 2 := by
  obtain ⟨after, outcome, hedit⟩ : ∃ after outcome, editText calmIo
      (fileDisk [97, 13, 10, 98, 13, 10]) editedTarget 0 ⟨['b'], ['c'], false⟩ none =
        some (after, .ok outcome) := ⟨_, _, rfl⟩
  obtain ⟨node, raw, stored, pieces, hnode, hraw, hstored, hcuts, -, hone, -⟩ :=
    editText_keeps_rest hedit
  exact ⟨after, outcome, hedit, node, raw, stored, pieces, hnode, hraw, hstored, hcuts, hone rfl⟩

theorem eq_singleton_of_normalize {found : List Char}
    (hfound : normalizeLineEndings found = ['b']) : found = ['b'] := by
  cases found with
  | nil => cases hfound
  | cons c found =>
    cases found with
    | nil => exact hfound
    | cons d found =>
      rw [normalizeLineEndings, replacePair] at hfound
      split at hfound
      · cases hfound
      · have hnone := (List.cons.inj hfound).2
        cases found with
        | nil => cases hnone
        | cons e found =>
          rw [replacePair] at hnone
          split at hnone <;> cases hnone

theorem Replaced.count_eq {raw stored : List Char} (hreplaced : Replaced ['b'] ['c'] raw stored) :
    stored.count '\r' = raw.count '\r' := by
  induction hreplaced with
  | rest => rfl
  | place front found hfound _ ih =>
    rw [eq_singleton_of_normalize hfound]
    simp [count_append, ih]

/-- The first ending of a mixed file becomes a bare line feed by an edit of the second line. -/
theorem edit_rewrites_ending :
    ¬ ∀ (io : Io) (disk after : Disk) (target : FsTarget) (author : CallId) (edit : FsEditRequest)
      (expected : Option FsVersion) (outcome : FsEditOutcome),
      editText io disk target author edit expected = some (after, .ok outcome) →
      ∃ node raw written stored, disk.current target.targetKey = some node ∧
        Utf8.decode node.bytes = some raw ∧ after.current target.targetKey = some written ∧
        Utf8.decode written.bytes = some stored ∧
        Replaced (normalizeLineEndings edit.oldString) edit.newString raw stored := by
  intro hall
  obtain ⟨after, outcome, hedit, hwritten⟩ : ∃ after outcome,
      editText calmIo (fileDisk [97, 13, 10, 98, 10]) editedTarget 0 ⟨['b'], ['c'], false⟩ none =
        some (after, .ok outcome) ∧
      after.current editedTarget.targetKey = some ⟨⟨"2"⟩, .file, [97, 10, 99, 10]⟩ :=
    ⟨_, _, rfl, rfl⟩
  obtain ⟨node, raw, written, stored, hnode, hraw, hafter, hstored, hreplaced⟩ :=
    hall _ _ after editedTarget 0 _ none outcome hedit
  obtain rfl : written = ⟨⟨"2"⟩, .file, [97, 10, 99, 10]⟩ :=
    Option.mem_unique hafter hwritten
  obtain rfl : node = ⟨⟨"1"⟩, .file, [97, 13, 10, 98, 10]⟩ := (Option.some.inj hnode).symm
  obtain rfl := Option.mem_unique hraw rfl
  obtain rfl := Option.mem_unique hstored rfl
  exact absurd hreplaced.count_eq (by decide)

end Mixed

end Keel.Fs
