import Mathlib.Data.List.DropRight
import Mathlib.Data.List.Infix

/-! # Character-level string operations

The standard string operations of the implementation language, on lists of
Unicode scalar values: character classes, trimming, line and word splitting,
prefix tests and suffixes. Positions count characters.
-/

namespace Text

open List

/-- The Unicode category of control characters. -/
def isControl (c : Char) : Bool :=
  c.toNat ≤ 0x1f || (0x7f ≤ c.toNat && c.toNat ≤ 0x9f)

/-- The Unicode property `White_Space`. -/
def isWhitespace (c : Char) : Bool :=
  (0x09 ≤ c.toNat && c.toNat ≤ 0x0d) || c.toNat == 0x20 || c.toNat == 0x85 ||
    c.toNat == 0xa0 || c.toNat == 0x1680 || (0x2000 ≤ c.toNat && c.toNat ≤ 0x200a) ||
    c.toNat == 0x2028 || c.toNat == 0x2029 || c.toNat == 0x202f || c.toNat == 0x205f ||
    c.toNat == 0x3000

def isAsciiAlphanumeric (c : Char) : Bool :=
  (0x30 ≤ c.toNat && c.toNat ≤ 0x39) || (0x41 ≤ c.toNat && c.toNat ≤ 0x5a) ||
    (0x61 ≤ c.toNat && c.toNat ≤ 0x7a)

def toAsciiLowercase (c : Char) : Char :=
  if 0x41 ≤ c.toNat ∧ c.toNat ≤ 0x5a then Char.ofNat (c.toNat + 0x20) else c

/-- Nonempty maximal runs of non-whitespace characters. -/
def splitWhitespace (text : List Char) : List (List Char) :=
  (text.splitOnP isWhitespace).filter (fun word => !word.isEmpty)

def trimStart (text : List Char) : List Char := text.dropWhile isWhitespace

def trimEnd (text : List Char) : List Char := text.rdropWhile isWhitespace

def trim (text : List Char) : List Char := trimEnd (trimStart text)

/-- Lines without their terminators. A terminator is `\n` or `\r\n`; an
unterminated last line keeps a trailing `\r`, and an empty one is dropped. -/
def lines (text : List Char) : List (List Char) :=
  let pieces := text.splitOn '\n'
  let terminated := pieces.dropLast.map fun line =>
    if line.getLast? = some '\r' then line.dropLast else line
  match pieces.getLast? with
  | none | some [] => terminated
  | some last => terminated ++ [last]

def join (separator : List Char) (pieces : List (List Char)) : List Char :=
  separator.intercalate pieces

/-- `text` begins with `start`. -/
def startsWith (text start : String) : Bool := start.toList.isPrefixOf text.toList

/-- The characters of `text` after the first `count`. -/
def dropChars (count : Nat) (text : String) : String := String.ofList (text.toList.drop count)

theorem lines_append_newline (first second : List Char) :
    lines (first ++ '\n' :: second) = lines (first ++ ['\n']) ++ lines second := by
  have hsecond : second.splitOn '\n' ≠ [] := splitOn_ne_nil _ _
  have hlast : (first.splitOn '\n' ++ second.splitOn '\n').getLast? =
      (second.splitOn '\n').getLast? := getLast?_append_of_ne_nil _ hsecond
  have hempty : (first.splitOn '\n' ++ [].splitOn '\n').getLast? = some [] := by
    rw [getLast?_append_of_ne_nil _ (splitOn_ne_nil _ _)]
    rfl
  simp only [lines, splitOn_append_cons_self, hlast, hempty,
    dropLast_append_of_ne_nil hsecond,
    dropLast_append_of_ne_nil (splitOn_ne_nil '\n' []), map_append]
  have hnil : ([].splitOn '\n').dropLast = ([] : List (List Char)) := rfl
  rw [hnil, map_nil, append_nil]
  split
  · rfl
  · rfl
  · rw [append_assoc]

theorem append_dropChars {text start : String} (hstart : startsWith text start = true) :
    start ++ dropChars start.toList.length text = text := by
  obtain ⟨rest, hrest⟩ := isPrefixOf_iff_prefix.mp hstart
  apply String.toList_inj.mp
  rw [String.toList_append, dropChars, String.toList_ofList, ← hrest, drop_left]

theorem startsWith_append (start rest : String) : startsWith (start ++ rest) start = true := by
  rw [startsWith, isPrefixOf_iff_prefix, String.toList_append]
  exact prefix_append _ _

theorem startsWith_trans {first second third : String} (hfirst : startsWith first second = true)
    (hsecond : startsWith second third = true) : startsWith first third = true := by
  rw [startsWith, isPrefixOf_iff_prefix] at *
  exact hsecond.trans hfirst

/-- `str::strip_prefix` of one character. -/
def stripChar (c : Char) (text : List Char) : List Char :=
  match text with
  | first :: rest => if first = c then rest else text
  | [] => []

/-- `str::split_once` at a character. -/
def splitOnce (c : Char) (text : List Char) : Option (List Char × List Char) :=
  if c ∈ text then some (text.takeWhile (· ≠ c), (text.dropWhile (· ≠ c)).tail) else none

theorem splitOnce_eq_some {c : Char} {text before after : List Char}
    (hsplit : splitOnce c text = some (before, after)) :
    text = before ++ c :: after ∧ c ∉ before := by
  rw [splitOnce] at hsplit
  split at hsplit
  next hmem =>
    simp only [Option.some.injEq, Prod.mk.injEq] at hsplit
    obtain ⟨rfl, rfl⟩ := hsplit
    have hdrop : text.dropWhile (· ≠ c) ≠ [] := by
      intro hnil
      rw [dropWhile_eq_nil_iff] at hnil
      simpa using hnil c hmem
    refine ⟨?_, fun hc => by simpa using mem_takeWhile_imp hc⟩
    have hfirst : (text.dropWhile (· ≠ c)).head hdrop = c := by
      simpa using head_dropWhile_not (fun x => decide (x ≠ c)) hdrop
    have htail := cons_head_tail hdrop
    rw [hfirst] at htail
    rw [htail]
    exact takeWhile_append_dropWhile.symm
  · cases hsplit

theorem splitOnce_append {c : Char} {before : List Char} (hbefore : c ∉ before)
    (after : List Char) : splitOnce c (before ++ c :: after) = some (before, after) := by
  have hkeep : ∀ x ∈ before, decide (x ≠ c) = true := by
    intro x hx
    exact decide_eq_true fun heq => hbefore (heq ▸ hx)
  rw [splitOnce, if_pos (by simp), takeWhile_append_of_pos hkeep,
    dropWhile_append_of_pos hkeep]
  simp

/-- A line without the carriage return of its terminator. -/
def stripReturn (line : List Char) : List Char :=
  if line.getLast? = some '\r' then line.dropLast else line

theorem stripReturn_of_notMem {line : List Char} (hline : '\r' ∉ line) : stripReturn line = line :=
  if_neg fun hlast => hline (mem_of_getLast? hlast)

theorem stripReturn_cons {c : Char} (hc : c ≠ '\r') (line : List Char) :
    stripReturn (c :: line) = c :: stripReturn line := by
  cases line with
  | nil => exact if_neg (by simpa using hc)
  | cons d rest =>
    rw [stripReturn, stripReturn, getLast?_cons_cons]
    split
    · exact dropLast_cons_cons
    · rfl

theorem trim_eq_self {text : List Char} (hhead : ∀ c ∈ text.head?, isWhitespace c = false)
    (hlast : ∀ c ∈ text.getLast?, isWhitespace c = false) : trim text = text := by
  have hstart : trimStart text = text := by
    cases text with
    | nil => rfl
    | cons c rest => exact dropWhile_cons_of_neg (by rw [hhead c rfl]; decide)
  rw [trim, hstart, trimEnd, rdropWhile_eq_self_iff]
  intro hne
  rw [hlast _ (getLast?_eq_getLast_of_ne_nil hne)]
  decide

/-- `str::strip_prefix`. -/
def stripPrefix : List Char → List Char → Option (List Char)
  | [], text => some text
  | c :: start, d :: text => if c = d then stripPrefix start text else none
  | _ :: _, [] => none

theorem stripPrefix_append (start text : List Char) :
    stripPrefix start (start ++ text) = some text := by
  induction start with
  | nil => rfl
  | cons c start ih => rw [cons_append, stripPrefix, if_pos rfl, ih]

/-- A text cut before the last occurrence of a pattern, as `str::rfind` finds it. -/
def splitBeforeLast (pattern : List Char) : List Char → Option (List Char × List Char)
  | [] => if pattern = [] then some ([], []) else none
  | c :: rest =>
    match splitBeforeLast pattern rest with
    | some (before, found) => some (c :: before, found)
    | none => if pattern.isPrefixOf (c :: rest) then some ([], c :: rest) else none

/-- `str::replace` of a pair of characters by one. -/
def replacePair (first second replacement : Char) : List Char → List Char
  | [] => []
  | [c] => [c]
  | c :: d :: rest =>
    if c = first ∧ d = second then replacement :: replacePair first second replacement rest
    else c :: replacePair first second replacement (d :: rest)

/-- `str::parse::<u32>`. -/
def parseU32 (text : List Char) : Option UInt32 :=
  let digits := stripChar '+' text
  if digits ≠ [] ∧ digits.all Char.isDigit then
    let value := digits.foldl (fun value digit => value * 10 + (digit.toNat - '0'.toNat)) 0
    if value < UInt32.size then some (UInt32.ofNat value) else none
  else none

theorem splitOnce_eq_none {c : Char} {text : List Char} : splitOnce c text = none ↔ c ∉ text := by
  rw [splitOnce]
  split <;> simp [*]

end Text
