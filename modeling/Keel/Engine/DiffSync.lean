import Keel.Foundation.Text

/-! # Patches of untracked files

Git shows no diff of a file that it does not track. The engine writes the section itself,
as the addition of every line of the file.
-/

namespace Keel.Patch

def hexDigit (value : Nat) : Char :=
  if value < 10 then Char.ofNat ('0'.toNat + value) else Char.ofNat ('a'.toNat + (value - 10))

def escapeChar (c : Char) : List Char :=
  if c = '"' then ['\\', '"']
  else if c = '\\' then ['\\', '\\']
  else if c = '\x08' then ['\\', 'b']
  else if c = '\x0c' then ['\\', 'f']
  else if c = '\n' then ['\\', 'n']
  else if c = '\r' then ['\\', 'r']
  else if c = '\t' then ['\\', 't']
  else if c.toNat < 0x20 then
    ['\\', 'u', '0', '0', hexDigit (c.toNat / 16), hexDigit (c.toNat % 16)]
  else [c]

def jsonString (text : List Char) : List Char := '"' :: text.flatMap escapeChar ++ ['"']

def needsQuote (c : Char) : Bool := Text.isWhitespace c ∨ c = '"' ∨ c = '\\'

def quotePatchPath (path : List Char) : List Char :=
  if path.any needsQuote then jsonString path else path

/-- The pieces of a content between line feeds, less an empty last one. -/
def contentLines (content : List Char) : List (List Char) :=
  let pieces := content.splitOn '\n'
  if pieces.getLast? = some [] then pieces.dropLast else pieces

/-- A new-file hunk for an untracked file. -/
def untrackedPatch (path content : List Char) : List Char :=
  let lines := contentLines content
  let body := Text.join ['\n'] (lines.map ('+' :: ·))
  let a := quotePatchPath ("a/".toList ++ path)
  let b := quotePatchPath ("b/".toList ++ path)
  "diff --git ".toList ++ a ++ ' ' :: b ++ '\n' ::
    "new file mode 100644".toList ++ '\n' ::
    "--- /dev/null".toList ++ '\n' ::
    "+++ ".toList ++ b ++ '\n' ::
    "@@ -0,0 +1,".toList ++ (toString lines.length).toList ++ " @@".toList ++ '\n' ::
    body ++ ['\n']

/-- The additions that a capture reports for the file. -/
def reportedAdditions (content : List Char) : UInt32 :=
  if content = [] then 0
  else UInt32.ofNat ((content.splitOn '\n').length - if content.getLast? = some '\n' then 1 else 0)

end Keel.Patch
