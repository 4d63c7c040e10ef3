/-!
Inspection output, for readers of logs. Records are shown with their names and fields, texts
quoted, with the escapes that a reader needs to see what is there. A character that shows
nothing by itself is written as its code.
-/

namespace FreshDocs.Text

/-- Characters that show nothing by themselves: controls, separators, format characters and
marks that join what is before them. -/
def isHidden (c : Char) : Bool :=
  let code := c.toNat
  let within low high := low ≤ code && code ≤ high
  code < 0x20 || within 0x7F 0xA0 || code = 0xAD || within 0x300 0x36F || code = 0x61C ||
    code = 0x1680 || code = 0x180E || within 0x2000 0x200F || within 0x2028 0x202F ||
    within 0x205F 0x206F || within 0x20D0 0x20F0 || code = 0x3000 || within 0xE000 0xF8FF ||
    within 0xFE00 0xFE0F || within 0xFE20 0xFE2F || code = 0xFEFF || within 0xFFF0 0xFFFB ||
    within 0xE0000 0x10FFFF

def inspectChar (c quote : Char) : List Char :=
  if c = '\x00' then ['\\', '0']
  else if c = '\t' then ['\\', 't']
  else if c = '\r' then ['\\', 'r']
  else if c = '\n' then ['\\', 'n']
  else if c = '\\' then ['\\', '\\']
  else if c = quote then ['\\', quote]
  else if isHidden c then '\\' :: 'u' :: '\x7b' :: Nat.toDigits 16 c.toNat ++ ['\x7d']
  else [c]

def inspect (text : String) : String :=
  String.ofList ('"' :: text.toList.flatMap (inspectChar · '"') ++ ['"'])

/-- A character between single quotes. -/
def inspectQuotedChar (c : Char) : String :=
  String.ofList ('\'' :: inspectChar c '\'' ++ ['\''])

/-- A list of texts that are already in the form shown. -/
def inspectList (items : List String) : String :=
  "[" ++ String.intercalate ", " items ++ "]"

/-- A record with its name and fields; a record that keeps something to itself ends in `..`. -/
def inspectRecord (name : String) (fields : List (String × String)) (complete : Bool) : String :=
  let shown := fields.map fun (field, value) => field ++ ": " ++ value
  name ++ " \x7b " ++ String.intercalate ", " (shown ++ if complete then [] else [".."]) ++ " \x7d"

end FreshDocs.Text
