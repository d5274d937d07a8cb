import Keel.Foundation.Utf8

/-! # Texts of records, one on a line

A log holds one record on each line and may end with an unfinished line. Both ways
of reading it, by lines without their terminators and by pieces that keep them,
give back the records and the unfinished line.

Values are printed as objects, and an unfinished object does not parse. A write of
several values that is cut at a character leaves the first of them on complete
lines, and behind them a part of the next one or all of it but its newline.
-/

namespace Records

open List Utf8 Text Option

def text (records : List (List Char)) : List Char := records.flatMap fun record => record ++ ['\n']

@[simp] theorem text_nil : text [] = [] := rfl

theorem text_cons (record : List Char) (records : List (List Char)) :
    text (record :: records) = record ++ '\n' :: text records := by
  simp [text]

@[simp] theorem text_append (first second : List (List Char)) :
    text (first ++ second) = text first ++ text second := by
  simp [text]

/-- The pieces of a text, each up to and including a newline. -/
def splitInclusive (whole : List Char) : List (List Char) :=
  let pieces := whole.splitOn '\n'
  let terminated := pieces.dropLast.map fun piece => piece ++ ['\n']
  match pieces.getLast? with
  | none | some [] => terminated
  | some last => terminated ++ [last]

variable {records : List (List Char)} {tail : List Char}

section
variable (hrecords : ∀ record ∈ records, '\n' ∉ record) (htail : '\n' ∉ tail)
include hrecords htail

theorem splitOn_text_append : (text records ++ tail).splitOn '\n' = records ++ [tail] := by
  induction records with
  | nil => exact splitOn_eq_singleton htail
  | cons record rest ih =>
    rw [forall_mem_cons] at hrecords
    rw [text_cons, append_assoc, cons_append,
      splitOn_append_cons_self_of_not_mem hrecords.1, ih hrecords.2, cons_append]

theorem splitInclusive_text_append : splitInclusive (text records ++ tail) =
      records.map (fun record => record ++ ['\n']) ++ if tail = [] then [] else [tail] := by
  simp only [splitInclusive, splitOn_text_append hrecords htail, dropLast_concat,
    getLast?_concat]
  cases tail with
  | nil | cons head rest => simp

end

/-- The lines of records are the records, each without a last carriage return. -/
theorem lines_text (hrecords : ∀ record ∈ records, '\n' ∉ record) :
    lines (text records) = records.map stripReturn := by
  have hsplit := splitOn_text_append hrecords (not_mem_nil (a := '\n'))
  rw [append_nil] at hsplit
  simp only [lines, hsplit, dropLast_concat, getLast?_concat]
  rfl

theorem lines_text_append
    (hrecords : ∀ record ∈ records, '\n' ∉ record ∧ record.getLast? ≠ some '\r')
    (htail : '\n' ∉ tail) :
    lines (text records ++ tail) = records ++ if tail = [] then [] else [tail] := by
  have hstrip : records.map (fun line => if line.getLast? = some '\r' then line.dropLast else line) =
      records := by
    refine (map_congr_left fun line hline => ?_).trans (map_id records)
    rw [if_neg (hrecords line hline).2, id]
  simp only [lines, splitOn_text_append (fun record h => (hrecords record h).1) htail,
    dropLast_concat, getLast?_concat, hstrip]
  cases tail with
  | nil | cons head rest => simp

/-- A printer of values and a parser of what it prints. -/
structure Codec (α : Type) where
  print : α → List Char
  parse : List Char → Option α

/-- The value is printed as an object on a single line that reads back, and no
beginning of that line does. -/
structure Codec.Prints {α : Type} (codec : Codec α) (value : α) : Prop where
  oneLine : '\n' ∉ codec.print value
  object : ∃ body, codec.print value = '{' :: (body ++ ['}'])
  reads : codec.parse (codec.print value) = some value
  torn : ∀ start, start <+: codec.print value → start ≠ codec.print value →
    codec.parse start = none

namespace Codec.Prints

variable {α : Type} {codec : Codec α} {value : α}

variable (hvalue : codec.Prints value)
include hvalue

theorem not_blank : (trim (codec.print value)).isEmpty = false := by
  obtain ⟨body, hbody⟩ := hvalue.object
  have hstart : trimStart (codec.print value) = codec.print value := by
    rw [hbody, trimStart, dropWhile_cons_of_neg (by decide)]
  have hend : trimEnd (codec.print value) = codec.print value := by
    rw [hbody, ← cons_append, trimEnd, rdropWhile_concat_neg _ _ _ (by decide)]
  rw [trim, hstart, hend, hbody]
  rfl

theorem getLast? : (codec.print value).getLast? = some '}' := by
  obtain ⟨body, hbody⟩ := hvalue.object
  rw [hbody, ← cons_append, getLast?_concat]

theorem ne_nil : codec.print value ≠ [] := by
  obtain ⟨body, hbody⟩ := hvalue.object
  rw [hbody]
  exact cons_ne_nil _ _

theorem record : '\n' ∉ codec.print value ∧ (codec.print value).getLast? ≠ some '\r' := by
  refine ⟨hvalue.oneLine, ?_⟩
  rw [hvalue.getLast?]
  decide

end Codec.Prints

section Table

variable {α : Type} [DecidableEq α] {table : List (α × List Char)}

/-- The codec of the values of a table, each with its text. -/
def Codec.ofTable (table : List (α × List Char)) : Codec α where
  print value := ((table.find? fun entry => entry.1 = value).map Prod.snd).getD []
  parse text := (table.find? fun entry => entry.2 = text).map Prod.fst

/-- Values and texts are told apart, and the texts are objects on a line that do not begin each
other. -/
def Objects (table : List (α × List Char)) : Prop :=
  (table.map Prod.fst).Nodup ∧ ∀ entry ∈ table,
    '\n' ∉ entry.2 ∧ entry.2 = '{' :: (entry.2.tail.dropLast ++ ['}']) ∧
      ∀ other ∈ table, other.2 <+: entry.2 → other = entry

instance : Decidable (Objects table) := inferInstanceAs (Decidable (_ ∧ _))

theorem find?_of_unique {β : Type} [DecidableEq β] (key : α × List Char → β)
    {entry : α × List Char} (hentry : entry ∈ table)
    (hunique : ∀ other ∈ table, key other = key entry → other = entry) :
    (table.find? fun other => key other = key entry) = some entry := by
  cases hfind : table.find? fun other => key other = key entry with
  | none => simpa using find?_eq_none.mp hfind entry hentry
  | some found =>
    have hsame := find?_some hfind
    rw [hunique found (mem_of_find?_eq_some hfind) (by simpa using hsame)]

theorem Codec.ofTable_prints (hobjects : Objects table) {entry : α × List Char}
    (hentry : entry ∈ table) : (Codec.ofTable table).Prints entry.1 := by
  obtain ⟨hvalues, htexts⟩ := hobjects
  obtain ⟨hline, hobject, hfree⟩ := htexts entry hentry
  have hprint : (Codec.ofTable table).print entry.1 = entry.2 := by
    have hfind := find?_of_unique Prod.fst hentry fun other hother hsame =>
      inj_on_of_nodup_map hvalues hother hentry hsame
    simp only [Codec.ofTable, hfind, map_some, getD_some]
  refine ⟨by rwa [hprint], ⟨_, by rw [hprint]; exact hobject⟩, ?_, ?_⟩
  · have hfind := find?_of_unique Prod.snd hentry fun other hother hsame =>
      hfree other hother (by rw [hsame])
    rw [hprint]
    simp only [Codec.ofTable, hfind, map_some]
  · intro start hstart hne
    rw [hprint] at hstart hne
    simp only [Codec.ofTable, map_eq_none_iff]
    refine find?_eq_none.mpr fun other hother hsame => hne ?_
    obtain rfl : other.2 = start := by simpa using hsame
    rw [hfree other hother hstart]

end Table

section Cut

variable {α : Type} {codec : Codec α}

/-- What a cut leaves behind the complete lines, and the value that can be read
there. -/
inductive Tail (codec : Codec α) : List Char → List α → Prop
  | none : Tail codec [] []
  | torn {value : α} {tail : List Char} (hprints : codec.Prints value)
      (htorn : tail <+: codec.print value) (hne : tail ≠ codec.print value) : Tail codec tail []
  | whole {value : α} (hprints : codec.Prints value) : Tail codec (codec.print value) [value]

/-- How many values are whole in the first `count` bytes of their lines. -/
def wholeCount (codec : Codec α) : List α → Nat → Nat
  | [], _ => 0
  | value :: rest, count =>
    let size := (encode (codec.print value)).length
    if size ≤ count then wholeCount codec rest (count - (size + 1)) + 1 else 0

theorem Tail.newline_notMem {tail : List Char} {rest : List α} (htail : Tail codec tail rest) :
    '\n' ∉ tail := by
  cases htail with
  | none => exact not_mem_nil
  | torn hprints htorn _ => exact fun hmem => hprints.oneLine (htorn.subset hmem)
  | whole hprints => exact hprints.oneLine

theorem Tail.eq_nil {tail : List Char} {rest : List α} (htail : Tail codec tail rest)
    (hnil : tail = []) : rest = [] := by
  cases htail with
  | none | torn => rfl
  | whole hprints => exact absurd hnil hprints.ne_nil

theorem wholeCount_zero {values : List α} (hvalues : ∀ value ∈ values, codec.Prints value) :
    wholeCount codec values 0 = 0 := by
  cases values with
  | nil => rfl
  | cons value rest =>
    have hne : encode (codec.print value) ≠ [] := by
      intro hnil
      exact (hvalues value mem_cons_self).ne_nil (encode_injective hnil)
    rw [wholeCount]
    exact if_neg (Nat.not_le.mpr (length_pos_iff.mpr hne))

theorem take_text_print {values : List α} (hvalues : ∀ value ∈ values, codec.Prints value)
    (kept : Nat) :
    ∃ complete tail rest, (text (values.map codec.print)).take kept =
        text (complete.map codec.print) ++ tail ∧ Tail codec tail rest ∧
      complete ++ rest = values.take (wholeCount codec values
        (encode ((text (values.map codec.print)).take kept)).length) := by
  induction values generalizing kept with
  | nil => exact ⟨[], [], [], by simp, .none, by simp⟩
  | cons value others ih =>
    obtain ⟨hvalue, hothers⟩ := forall_mem_cons.mp hvalues
    rw [map_cons, text_cons, wholeCount]
    rcases Nat.lt_trichotomy kept (codec.print value).length with hshort | hwhole | hlong
    · -- The cut is inside the first line.
      have hne : (codec.print value).take kept ≠ codec.print value := fun heq =>
        absurd ((take_eq_self_iff _).mp heq) (Nat.not_le_of_lt hshort)
      have hcount := length_encode_take_lt hshort
      rw [take_append_of_le_length (Nat.le_of_lt hshort)]
      refine ⟨[], _, [], rfl, .torn hvalue (List.take_prefix _ _) hne, ?_⟩
      rw [if_neg (Nat.not_le_of_lt hcount)]
      rfl
    · -- The first line lacks its newline.
      rw [hwhole, take_left]
      refine ⟨[], _, [value], rfl, .whole hvalue, ?_⟩
      rw [if_pos (Nat.le_refl _), Nat.sub_eq_zero_of_le (Nat.le_succ _), wholeCount_zero hothers]
      rfl
    · obtain ⟨more, rfl⟩ : ∃ more, kept = (codec.print value).length + (more + 1) :=
        ⟨kept - (codec.print value).length - 1, by omega⟩
      obtain ⟨complete, tail, rest, htext, htail, hkept⟩ := ih hothers more
      have hnewline : encode ['\n'] = [10] := by decide
      have htake : (codec.print value ++ '\n' :: text (others.map codec.print)).take
          ((codec.print value).length + (more + 1)) =
            codec.print value ++ ['\n'] ++ (text (others.map codec.print)).take more := by
        rw [take_length_add_append, take_succ_cons]
        simp
      have hsize : (encode (codec.print value ++ ['\n'] ++
          (text (others.map codec.print)).take more)).length =
            (encode (codec.print value)).length + 1 +
              (encode ((text (others.map codec.print)).take more)).length := by
        rw [encode_append, encode_append, hnewline, length_append,
          length_append, length_singleton]
      refine ⟨value :: complete, tail, rest, ?_, htail, ?_⟩
      · rw [htake, htext, map_cons, text_cons]
        simp
      · rw [htake, hsize, if_pos (by omega), Nat.add_sub_cancel_left, take_succ_cons, ← hkept]
        rfl

end Cut

end Records
