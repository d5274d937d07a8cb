import Keel.Foundation.Utf8Lossy

/-! # Server-sent events of a model call

The response body of a model call is a stream of server-sent events, read in
whatever chunks the transport delivers. The decoder keeps three buffers between
chunks: bytes that are no text yet, the text of an unterminated line, and the data
lines of an event that no blank line has closed.

The reference reads the whole stream at once: it decodes the bytes, replacing what
is malformed, cuts the text into lines, the lines into events at blank lines, and
joins the data lines of each.
-/

namespace Keel.Dsh

open List Option Utf8 Text

def byteOrderMark : Char := '\uFEFF'

/-- `line.ends_with('\r')` and `pop`. -/
def popReturn (line : List Char) : List Char :=
  if line.getLast? = some '\r' then line.dropLast else line

structure SseDecoder where
  buffer : List Char := []
  dataLines : List (List Char) := []
  partialBytes : List UInt8 := []
  strippedBom : Bool := false

/-- What the lines of a buffer leave: the unterminated tail, the data lines of the
open event, and what was handed out on the way. -/
structure Drained where
  buffer : List Char
  dataLines : List (List Char)
  payloads : List (List Char) := []
  comments : List (List Char) := []

namespace Drained

def payload (text : List Char) (drained : Drained) : Drained :=
  { drained with payloads := text :: drained.payloads }

def comment (text : List Char) (drained : Drained) : Drained :=
  { drained with comments := text :: drained.comments }

end Drained

section Lines

/-- The value of a data line; `none` for any other field. -/
def dataValue (line : List Char) : Option (List Char) :=
  let (field, value) := match splitOnce ':' line with
    | some (field, value) => (field, stripChar ' ' value)
    | none => (line, [])
  if field = "data".toList then some value else none

/-- The loop over the complete lines of the buffer. -/
def drainLines (buffer : List Char) (dataLines : List (List Char)) : Drained :=
  match _hsplit : splitOnce '\n' buffer with
  | none => { buffer, dataLines }
  | some (piece, rest) =>
    let line := popReturn piece
    if line = [] then
      -- a blank line dispatches the assembled event, if it carried data
      if dataLines = [] then drainLines rest []
      else (drainLines rest []).payload (join ['\n'] dataLines)
    else if line.head? = some ':' then
      (drainLines rest dataLines).comment (stripChar ' ' line.tail)
    else match dataValue line with
      | some value => drainLines rest (dataLines ++ [value])
      | none => drainLines rest dataLines
termination_by buffer.length
decreasing_by
  all_goals
    obtain ⟨hbuffer, -⟩ := splitOnce_eq_some _hsplit
    simp only [hbuffer, length_append, length_cons]
    omega

end Lines

namespace SseDecoder

/-- The text of the buffer once the decoded bytes are added, and whether the start of
the stream is settled. -/
def addText (decoder : SseDecoder) (decoded : List Char) : List Char × Bool :=
  let buffer := decoder.buffer ++ decoded
  if decoder.strippedBom then (buffer, true)
  else
    let stripped := stripChar byteOrderMark buffer
    (stripped, !stripped.isEmpty)

def feed (decoder : SseDecoder) (bytes : List UInt8) : SseDecoder × Drained :=
  let pending := decoder.partialBytes ++ bytes
  let validUpTo := validUpTo pending
  let decoded := lossy (pending.take validUpTo)
  let (buffer, strippedBom) := decoder.addText decoded
  let drained := drainLines buffer decoder.dataLines
  ({ buffer := drained.buffer
     dataLines := drained.dataLines
     partialBytes := pending.drop validUpTo
     strippedBom }, drained)

/-- The payloads of a whole stream of chunks. -/
def payloads : SseDecoder → List (List UInt8) → List (List Char)
  | _, [] => []
  | decoder, bytes :: chunks =>
    (decoder.feed bytes).2.payloads ++ payloads (decoder.feed bytes).1 chunks

end SseDecoder

/-! ## The reference -/

namespace SseReference

/-- The lines of a text, each ended by a line feed or a carriage return and a line
feed; what follows the last line feed is no line. -/
def terminatedLines (text : List Char) : List (List Char) :=
  (text.splitOn '\n').dropLast.map popReturn

/-- The payload of an event with these data lines, if it has any. -/
def close (values : List (List Char)) : Option (List Char) :=
  match values with
  | [] => none
  | values => some (join ['\n'] values)

/-- The payload of the lines between two blank lines. -/
def event (lines : List (List Char)) : Option (List Char) := close (lines.filterMap dataValue)

/-- The payloads of a text: one for each group of lines that a blank line closes. -/
def eventsOf (lines : List (List Char)) : List (List Char) :=
  (lines.splitOn []).dropLast.filterMap event

def parse (bytes : List UInt8) : List (List Char) :=
  eventsOf (terminatedLines (stripChar byteOrderMark (lossy bytes)))

end SseReference

/-! ## Lines and events -/

namespace SseReference

def unterminated (text : List Char) : List Char := (text.splitOn '\n').getLast?.getD []

/-- The data lines of the event that is open after some lines. -/
def openFrom : List (List Char) → List (List Char) → List (List Char)
  | values, [] => values
  | values, line :: rest =>
    if line = [] then openFrom [] rest else openFrom (values ++ (dataValue line).toList) rest

/-- The payloads of some lines while an event with some data lines is open. -/
def eventsFrom : List (List Char) → List (List Char) → List (List Char)
  | _, [] => []
  | values, line :: rest =>
    if line = [] then (close values).toList ++ eventsFrom [] rest
    else eventsFrom (values ++ (dataValue line).toList) rest

section Text

@[simp] theorem terminatedLines_of_notMem {text : List Char} (htext : '\n' ∉ text) :
    terminatedLines text = [] := by
  rw [terminatedLines, splitOn_eq_singleton htext]
  rfl

@[simp] theorem unterminated_of_notMem {text : List Char} (htext : '\n' ∉ text) :
    unterminated text = text := by
  rw [unterminated, splitOn_eq_singleton htext]
  rfl

@[simp] theorem terminatedLines_line {piece : List Char} (hpiece : '\n' ∉ piece)
    (rest : List Char) :
    terminatedLines (piece ++ '\n' :: rest) = popReturn piece :: terminatedLines rest := by
  rw [terminatedLines, splitOn_append_cons_self_of_not_mem hpiece,
    dropLast_cons_of_ne_nil (splitOn_ne_nil _ _)]
  rfl

@[simp] theorem unterminated_line {piece : List Char} (hpiece : '\n' ∉ piece)
    (rest : List Char) : unterminated (piece ++ '\n' :: rest) = unterminated rest := by
  rw [unterminated, splitOn_append_cons_self_of_not_mem hpiece, getLast?_cons,
    unterminated]
  cases hlast : (rest.splitOn '\n').getLast? with
  | none => exact absurd (getLast?_eq_none_iff.mp hlast) (splitOn_ne_nil _ _)
  | some last => rfl

theorem line_induction {motive : List Char → Prop}
    (tail : ∀ text, '\n' ∉ text → motive text)
    (line : ∀ piece rest, '\n' ∉ piece → motive rest → motive (piece ++ '\n' :: rest))
    (text : List Char) : motive text := by
  induction hsize : text.length using Nat.strong_induction_on generalizing text with
  | _ size ih =>
    cases hsplit : splitOnce '\n' text with
    | none => exact tail text (splitOnce_eq_none.1 hsplit)
    | some parts =>
      obtain ⟨htext, hpiece⟩ := @Text.splitOnce_eq_some _ _ parts.1 parts.2 hsplit
      have hlength := congrArg List.length htext
      rw [length_append, length_cons] at hlength
      rw [htext]
      exact line _ _ hpiece (ih parts.2.length (by omega) _ rfl)

theorem terminatedLines_append (text more : List Char) :
    terminatedLines (text ++ more) =
      terminatedLines text ++ terminatedLines (unterminated text ++ more) := by
  induction text using line_induction with
  | tail text htext => simp [htext]
  | line piece rest hpiece ih => simp [hpiece, ih]

theorem unterminated_append (text more : List Char) :
    unterminated (text ++ more) = unterminated (unterminated text ++ more) := by
  induction text using line_induction with
  | tail text htext => simp [htext]
  | line piece rest hpiece ih => simp [hpiece, ih]

end Text

section Events

@[simp] theorem openFrom_append (values first second : List (List Char)) :
    openFrom values (first ++ second) = openFrom (openFrom values first) second := by
  induction first generalizing values with
  | nil => rfl
  | cons line rest ih =>
    rw [cons_append, openFrom, openFrom]
    split
    · exact ih []
    · exact ih _

@[simp] theorem eventsFrom_append (values first second : List (List Char)) :
    eventsFrom values (first ++ second) =
      eventsFrom values first ++ eventsFrom (openFrom values first) second := by
  induction first generalizing values with
  | nil => rfl
  | cons line rest ih =>
    rw [cons_append, openFrom, eventsFrom, eventsFrom]
    split
    · rw [ih [], append_assoc]
    · exact ih _

theorem eventsFrom_eq (values lines first : List (List Char)) (others : List (List (List Char)))
    (hgroups : lines.splitOn [] = first :: others) :
    eventsFrom values lines =
      if others = [] then []
      else (close (values ++ first.filterMap dataValue)).toList ++
        others.dropLast.filterMap event := by
  induction lines generalizing values first others with
  | nil =>
    obtain ⟨rfl, rfl⟩ := List.cons.inj hgroups
    rfl
  | cons line rest ih =>
    obtain ⟨group, groups, hrest⟩ := exists_cons_of_ne_nil (splitOn_ne_nil [] rest)
    rw [splitOn_cons_eq_if_modifyHead, hrest] at hgroups
    rw [eventsFrom]
    by_cases hline : line = []
    · rw [if_pos (beq_iff_eq.mpr hline)] at hgroups
      obtain ⟨rfl, rfl⟩ := List.cons.inj hgroups
      rw [if_pos hline, if_neg (cons_ne_nil _ _), ih [] group groups hrest,
        filterMap_nil, append_nil]
      by_cases hgroups : groups = []
      · subst hgroups
        rfl
      · rw [if_neg hgroups, dropLast_cons_of_ne_nil hgroups, filterMap_cons, event,
          nil_append]
        cases close (group.filterMap dataValue) <;> rfl
    · rw [if_neg (by simpa using hline), modifyHead_cons] at hgroups
      obtain ⟨rfl, rfl⟩ := List.cons.inj hgroups
      rw [if_neg hline, ih _ group groups hrest, filterMap_cons]
      cases dataValue line with
      | none => rw [toList_none, append_nil]
      | some value => rw [toList_some, append_assoc, singleton_append]

theorem eventsOf_eq (lines : List (List Char)) : eventsOf lines = eventsFrom [] lines := by
  obtain ⟨group, groups, hgroups⟩ := exists_cons_of_ne_nil (splitOn_ne_nil [] lines)
  rw [eventsOf, eventsFrom_eq [] lines group groups hgroups, hgroups, nil_append]
  by_cases hone : groups = []
  · subst hone
    rfl
  · rw [if_neg hone, dropLast_cons_of_ne_nil hone, filterMap_cons, event]
    cases close (group.filterMap dataValue) <;> rfl

end Events

end SseReference

/-! ## The decoder reads the text of its stream -/

section Drain

open SseReference

theorem dataValue_comment {line : List Char} (hline : line.head? = some ':') :
    dataValue line = none := by
  obtain ⟨rest, rfl⟩ := head?_eq_some_iff.mp hline
  have hsplit : splitOnce ':' (':' :: rest) = some ([], rest) :=
    splitOnce_append (not_mem_nil) rest
  rw [dataValue, hsplit]
  rfl

theorem drainLines_eq (buffer : List Char) (dataLines : List (List Char)) :
    (drainLines buffer dataLines).buffer = unterminated buffer ∧
      (drainLines buffer dataLines).dataLines = openFrom dataLines (terminatedLines buffer) ∧
      (drainLines buffer dataLines).payloads = eventsFrom dataLines (terminatedLines buffer) := by
  induction buffer using line_induction generalizing dataLines with
  | tail text htext =>
    have hsplit := splitOnce_eq_none.2 htext
    rw [terminatedLines_of_notMem htext, unterminated_of_notMem htext, drainLines]
    split
    · exact ⟨rfl, rfl, rfl⟩
    next hsome => rw [hsplit] at hsome; cases hsome
  | line piece rest hpiece ih =>
    have hsplit := splitOnce_append hpiece rest
    rw [terminatedLines_line hpiece, unterminated_line hpiece, openFrom, eventsFrom, drainLines]
    split
    next hnone => rw [hsplit] at hnone; cases hnone
    next piece' rest' hsome =>
      rw [hsplit, Option.some.injEq, Prod.mk.injEq] at hsome
      obtain ⟨rfl, rfl⟩ := hsome
      simp only
      split
      next hblank =>
        split
        next hempty =>
          subst hempty
          exact ih []
        next hdata =>
          obtain ⟨hbuffer, hopen, hevents⟩ := ih []
          refine ⟨hbuffer, hopen, ?_⟩
          cases dataLines with
          | nil => exact absurd rfl hdata
          | cons value values =>
            rw [Drained.payload]
            simp only [hevents, close, toList_some, singleton_append]
      next hline =>
        split
        next hcomment =>
          rw [dataValue_comment hcomment, toList_none, append_nil]
          exact ih dataLines
        · split
          next value hvalue =>
            rw [hvalue]
            exact ih _
          next hvalue =>
            rw [hvalue, toList_none, append_nil]
            exact ih dataLines

end Drain

section Stream

open SseReference

/-- The text that the decoder has made of some bytes. -/
def streamText (bytes : List UInt8) : List Char :=
  stripChar byteOrderMark (validText bytes)

/-- At most one leading byte-order mark. -/
def OneMark (bytes : List UInt8) : Prop :=
  ¬ encode [byteOrderMark, byteOrderMark] <+: bytes

instance (bytes : List UInt8) : Decidable (OneMark bytes) := inferInstanceAs (Decidable (¬ _))

variable {seen : List UInt8} {c : Char} {text : List Char} {decoder : SseDecoder}

theorem OneMark.of_append {rest : List UInt8} (hmark : OneMark (seen ++ rest)) : OneMark seen :=
  fun hprefix => hmark ( hprefix.trans (prefix_append seen rest))

theorem OneMark.not_prefix {bytes : List UInt8} (hmark : OneMark bytes) :
    ¬ [byteOrderMark, byteOrderMark] <+: validText bytes := by
  rintro ⟨rest, hrest⟩
  obtain ⟨last, hlast, -⟩ := exists_validText_rest bytes
  apply hmark
  rw [hlast, ← hrest, encode_append, append_assoc]
  exact prefix_append _ _

/-- The decoder's buffers after some bytes: the bytes that are no text yet, the
unterminated line of the text, and the data lines of its open event. -/
structure Reads (decoder : SseDecoder) (seen : List UInt8) : Prop where
  bytes : seen = encode (validText seen) ++ decoder.partialBytes
  settled : decoder.strippedBom = !(streamText seen).isEmpty
  buffer : decoder.buffer = unterminated (streamText seen)
  dataLines : decoder.dataLines = openFrom [] (terminatedLines (streamText seen))

theorem reads_new : Reads {} [] := ⟨rfl, rfl, rfl, rfl⟩

theorem stripChar_append (htext : text ≠ [])
    (more : List Char) : stripChar c (text ++ more) = stripChar c text ++ more := by
  cases text with
  | nil => exact absurd rfl htext
  | cons first rest =>
    rw [cons_append, stripChar, stripChar]
    split <;> rfl

theorem stripChar_eq_nil (htext : stripChar c text = []) : text = [] ∨ text = [c] := by
  cases text with
  | nil => exact Or.inl rfl
  | cons first rest =>
    rw [stripChar] at htext
    split at htext
    next hfirst => exact Or.inr (by rw [hfirst, htext])
    · cases htext

theorem stripChar_of_ne (htext : text.head? ≠ some c) : stripChar c text = text := by
  cases text with
  | nil => rfl
  | cons first rest =>
    rw [stripChar, if_neg]
    intro hfirst
    exact htext (congrArg some hfirst)

/-- What decoded text adds to the text of the stream, the mark at its start apart. -/
theorem addText_reads {chunk : List UInt8}
    (hreads : Reads decoder seen) (hmark : OneMark (seen ++ chunk)) :
    ∃ added, streamText (seen ++ chunk) = streamText seen ++ added ∧
      decoder.addText (validText (decoder.partialBytes ++ chunk)) =
        (decoder.buffer ++ added, !(streamText (seen ++ chunk)).isEmpty) := by
  have hvalid : validText (seen ++ chunk) =
      validText seen ++ validText (decoder.partialBytes ++ chunk) := by
    conv_lhs => rw [hreads.bytes, append_assoc, validText_encode_append]
  have hmarks := hmark.not_prefix
  rw [hvalid] at hmarks
  generalize validText (decoder.partialBytes ++ chunk) = decoded at hvalid hmarks
  rw [SseDecoder.addText, hreads.settled]
  by_cases hempty : streamText seen = []
  · have hbuffer : decoder.buffer = [] := by
      rw [hreads.buffer, hempty]
      rfl
    have hstrip : streamText (seen ++ chunk) = stripChar byteOrderMark decoded := by
      rw [streamText, hvalid]
      rcases stripChar_eq_nil hempty with hnone | hone
      · rw [hnone, nil_append]
      · rw [hone, singleton_append] at hmarks ⊢
        rw [stripChar, if_pos rfl, stripChar_of_ne]
        intro hhead
        obtain ⟨rest, rfl⟩ := head?_eq_some_iff.mp hhead
        exact hmarks ⟨rest, rfl⟩
    refine ⟨stripChar byteOrderMark decoded, by rw [hempty, hstrip, nil_append], ?_⟩
    rw [hbuffer, hempty, hstrip]
    rfl
  · have hnonempty : (streamText seen).isEmpty = false := by simpa using hempty
    have happend : streamText (seen ++ chunk) = streamText seen ++ decoded := by
      rw [streamText, hvalid, stripChar_append (fun hnil => hempty (by rw [streamText, hnil]; rfl))]
      rfl
    refine ⟨decoded, happend, ?_⟩
    rw [hnonempty, Bool.not_false, if_pos rfl, happend]
    simp [hempty]

/-- One chunk: the decoder reads on, and hands out the payloads that the longer text has
more than the shorter one. -/
theorem feed_reads {chunk : List UInt8}
    (hreads : Reads decoder seen) (hmark : OneMark (seen ++ chunk)) :
    Reads (decoder.feed chunk).1 (seen ++ chunk) ∧
      eventsOf (terminatedLines (streamText (seen ++ chunk))) =
        eventsOf (terminatedLines (streamText seen)) ++ (decoder.feed chunk).2.payloads := by
  obtain ⟨added, htext, hadded⟩ := addText_reads hreads hmark
  have hlines := terminatedLines_append (streamText seen) added
  have htail := unterminated_append (streamText seen) added
  rw [← htext, ← hreads.buffer] at hlines htail
  obtain ⟨hbuffer, hopen, hevents⟩ := drainLines_eq (decoder.buffer ++ added) decoder.dataLines
  have hdecoded : lossy ((decoder.partialBytes ++ chunk).take
      (validUpTo (decoder.partialBytes ++ chunk))) =
      validText (decoder.partialBytes ++ chunk) := by
    rw [take_validUpTo, lossy_encode]
  have hbytes : seen ++ chunk = encode (validText (seen ++ chunk)) ++
      (decoder.partialBytes ++ chunk).drop (validUpTo (decoder.partialBytes ++ chunk)) := by
    conv_rhs => rw [hreads.bytes, append_assoc, validText_encode_append,
      encode_append, append_assoc, ← take_validUpTo (decoder.partialBytes ++ chunk),
      take_append_drop, ← append_assoc, ← hreads.bytes]
  simp only [SseDecoder.feed, hdecoded, hadded]
  refine ⟨⟨hbytes, rfl, ?_, ?_⟩, ?_⟩
  · rw [hbuffer, htail]
  · rw [hopen, hlines, openFrom_append, ← hreads.dataLines]
  · rw [hevents, eventsOf_eq, eventsOf_eq, hlines, eventsFrom_append, ← hreads.dataLines]

theorem payloads_reads (chunks : List (List UInt8))
    (hreads : Reads decoder seen) (hmark : OneMark (seen ++ chunks.flatten)) :
    eventsOf (terminatedLines (streamText (seen ++ chunks.flatten))) =
      eventsOf (terminatedLines (streamText seen)) ++ decoder.payloads chunks := by
  induction chunks generalizing decoder seen with
  | nil => simp [SseDecoder.payloads]
  | cons chunk chunks ih =>
    rw [flatten_cons, ← append_assoc] at hmark ⊢
    obtain ⟨hnext, hevents⟩ := feed_reads hreads hmark.of_append
    rw [ih hnext hmark, hevents, SseDecoder.payloads, append_assoc]

/-- However a stream is cut, the payloads are those of its longest prefix that is a
text. -/
theorem payloads_eq (chunks : List (List UInt8)) (hmark : OneMark chunks.flatten) :
    SseDecoder.payloads {} chunks = eventsOf (terminatedLines (streamText chunks.flatten)) :=
  (payloads_reads chunks reads_new hmark).symm

end Stream

/-! ## What a malformed sequence costs -/

section Malformed

open SseReference

/-- Some line ends an event with data after the text before the first malformed
sequence: a blank line that lies after that text, with a data line between it and the
blank line before it. -/
def ClosesEventAfterMalformed (bytes : List UInt8) : Prop :=
  ∃ before after,
    terminatedLines (stripChar byteOrderMark (lossy bytes)) = before ++ [] :: after ∧
      (validText bytes).count '\n' ≤ before.length ∧
      ∃ line ∈ before.rtakeWhile (· ≠ []), (dataValue line).isSome = true

theorem length_terminatedLines (text : List Char) :
    (terminatedLines text).length = text.count '\n' := by
  induction text using line_induction with
  | tail text htext => simp [htext, count_eq_zero_of_not_mem htext]
  | line piece rest hpiece ih =>
    simp [hpiece, ih, count_append, count_eq_zero_of_not_mem hpiece]

theorem count_streamText (bytes : List UInt8) :
    (streamText bytes).count '\n' = (validText bytes).count '\n' := by
  rw [streamText]
  cases validText bytes with
  | nil => rfl
  | cons first rest =>
    rw [stripChar]
    split
    next hfirst =>
      subst hfirst
      exact (count_cons_of_ne (by decide)).symm
    · rfl

theorem openFrom_nil (lines : List (List Char)) :
    openFrom [] lines = (lines.rtakeWhile (· ≠ [])).filterMap dataValue := by
  induction lines using List.reverseRecOn with
  | nil => rfl
  | append_singleton lines line ih =>
    rw [openFrom_append, openFrom]
    by_cases hline : line = []
    · rw [if_pos hline, rtakeWhile_concat_neg _ _ _ (by simpa using hline)]
      rfl
    · rw [if_neg hline, rtakeWhile_concat_pos _ _ _ (by simpa using hline), ih,
        filterMap_append, openFrom]
      cases hvalue : dataValue line <;> simp [hvalue]

/-- Lines hand out nothing exactly when none of their blank lines has data to close. -/
theorem eventsFrom_eq_nil_iff (values lines : List (List Char)) :
    eventsFrom values lines = [] ↔
      ∀ before after, lines = before ++ [] :: after → openFrom values before = [] := by
  induction lines generalizing values with
  | nil => simp [eventsFrom]
  | cons line rest ih =>
    rw [eventsFrom]
    by_cases hline : line = []
    · subst hline
      rw [if_pos rfl, append_eq_nil_iff, ih []]
      constructor
      · rintro ⟨hclose, hrest⟩ before after hsplit
        cases before with
        | nil =>
          cases values with
          | nil => rfl
          | cons value values => cases hclose
        | cons first before =>
          obtain ⟨rfl, hrest'⟩ := List.cons.inj hsplit
          rw [openFrom, if_pos rfl]
          exact hrest before after hrest'
      · intro hall
        have hnone : values = [] := hall [] rest rfl
        refine ⟨by rw [hnone]; rfl, fun before after hsplit => ?_⟩
        have hopen := hall ([] :: before) after (by rw [hsplit]; rfl)
        rwa [openFrom, if_pos rfl] at hopen
    · rw [if_neg hline, ih]
      constructor
      · intro hrest before after hsplit
        cases before with
        | nil => exact absurd (List.cons.inj hsplit).1 hline
        | cons first before =>
          obtain ⟨rfl, hrest'⟩ := List.cons.inj hsplit
          rw [openFrom, if_neg hline]
          exact hrest before after hrest'
      · intro hall before after hsplit
        have hopen := hall (line :: before) after (by rw [hsplit]; rfl)
        rwa [openFrom, if_neg hline] at hopen

theorem exists_lossy_append (bytes : List UInt8) :
    ∃ others, stripChar byteOrderMark (lossy bytes) = streamText bytes ++ others := by
  obtain ⟨others, hlossy, hothers⟩ := lossy_eq_validText_append bytes
  refine ⟨others, ?_⟩
  rw [hlossy, streamText]
  by_cases hvalid : validText bytes = []
  · have hhead : others.head? ≠ some byteOrderMark := by
      intro hmark
      exact absurd (hothers _ hmark) (by decide)
    rw [hvalid, nil_append, stripChar_of_ne hhead]
    rfl
  · exact stripChar_append hvalid others

/-- The reference finds more than the decoder exactly when an event is closed after the
first malformed sequence. -/
theorem parse_eq_iff (bytes : List UInt8) :
    eventsOf (terminatedLines (streamText bytes)) = parse bytes ↔
      ¬ ClosesEventAfterMalformed bytes := by
  obtain ⟨others, hlossy⟩ := exists_lossy_append bytes
  have hlines := terminatedLines_append (streamText bytes) others
  have hcount : (terminatedLines (streamText bytes)).length =
      (validText bytes).count '\n' := by
    rw [length_terminatedLines, count_streamText]
  rw [parse, hlossy, ClosesEventAfterMalformed, hlossy, hlines, eventsOf_eq, eventsOf_eq,
    eventsFrom_append, self_eq_append_right, eventsFrom_eq_nil_iff, ← hcount]
  generalize terminatedLines (streamText bytes) = read
  generalize terminatedLines (unterminated (streamText bytes) ++ others) = unread
  constructor
  · rintro hnone ⟨before, after, hsplit, hlength, line, hline, hvalue⟩
    obtain ⟨between, rfl⟩ : read <+: before :=
      prefix_of_prefix_length_le (hsplit ▸ prefix_append read unread)
        (prefix_append before _) hlength
    rw [append_assoc, append_cancel_left_eq] at hsplit
    have hopen := hnone between after hsplit
    rw [← openFrom_append, openFrom_nil, filterMap_eq_nil_iff] at hopen
    rw [hopen line hline] at hvalue
    cases hvalue
  · intro hnone between after hsplit
    by_contra hopen
    apply hnone
    rw [← openFrom_append, openFrom_nil, filterMap_eq_nil_iff] at hopen
    push Not at hopen
    obtain ⟨line, hline, hvalue⟩ := hopen
    refine ⟨read ++ between, after, by rw [hsplit, append_assoc], by simp, line, hline, ?_⟩
    exact isSome_iff_ne_none.mpr hvalue

/-- However a stream with at most one leading byte-order mark is cut, the payloads are
the same; they are those of the reference exactly when no event is closed after the
first malformed sequence. -/
theorem feed_refines_reference_iff (bytes : List UInt8) (hmark : OneMark bytes) :
    (∀ chunks : List (List UInt8), chunks.flatten = bytes →
        SseDecoder.payloads {} chunks = SseDecoder.payloads {} [bytes]) ∧
      ((∀ chunks : List (List UInt8), chunks.flatten = bytes →
          SseDecoder.payloads {} chunks = parse bytes) ↔ ¬ ClosesEventAfterMalformed bytes) := by
  have hchunks : ∀ chunks : List (List UInt8), chunks.flatten = bytes →
      SseDecoder.payloads {} chunks = eventsOf (terminatedLines (streamText bytes)) := by
    rintro chunks rfl
    exact payloads_eq chunks hmark
  have hwhole := hchunks [bytes] (by simp)
  refine ⟨fun chunks hflatten => by rw [hchunks chunks hflatten, hwhole], ?_⟩
  rw [← parse_eq_iff]
  constructor
  · intro hall
    rw [← hwhole]
    exact hall [bytes] (by simp)
  · intro heq chunks hflatten
    rw [hchunks chunks hflatten, heq]

/-- An incomplete character at the end of the stream, itself in two chunks, costs nothing. -/
theorem feed_refines_reference_partial_tail :
    SseDecoder.payloads {} [Utf8.encode "data: a\n\n".toList ++ [0xE2], [0x82]] =
      parse (Utf8.encode "data: a\n\n".toList ++ [0xE2, 0x82]) := by
  refine (feed_refines_reference_iff (Utf8.encode "data: a\n\n".toList ++ [0xE2, 0x82])
    (by decide)).2.mpr ?_ _ (by decide)
  rw [← parse_eq_iff]
  decide

/-- A malformed byte in one event swallows it and the event after it. -/
theorem malformed_byte_swallows_events :
    ¬ ∀ chunks : List (List UInt8),
      chunks.flatten =
          Utf8.encode "data: ".toList ++ [0xFF] ++ Utf8.encode "\n\ndata: b\n\n".toList →
        SseDecoder.payloads {} chunks =
          parse (Utf8.encode "data: ".toList ++ [0xFF] ++
            Utf8.encode "\n\ndata: b\n\n".toList) := by
  intro hall
  have hwhole := hall [_] flatten_singleton
  rw [payloads_eq _ (by decide)] at hwhole
  revert hwhole
  decide

end Malformed

end Keel.Dsh
