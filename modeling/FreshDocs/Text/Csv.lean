/-!
Tables as text: records on lines of their own, fields between commas. A field with a comma, a
quote or a line end is quoted, and a quote inside is written twice.
-/

namespace FreshDocs.Csv

def needsQuotes (field : List Char) : Bool :=
  field.any fun c => c = ',' || c = '"' || c = '\n' || c = '\r'

def doubled (c : Char) : List Char :=
  if c = '"' then ['"', '"'] else [c]

def field (text : String) : List Char :=
  let chars := text.toList
  if needsQuotes chars then '"' :: chars.flatMap doubled ++ ['"'] else chars

def fields : List String → List Char
  | [] => []
  | [last] => field last
  | first :: rest => field first ++ ',' :: fields rest

def record (texts : List String) : List Char :=
  fields texts ++ ['\n']

/-- A table of records, which have two or more fields. -/
def table (records : List (List String)) : String :=
  String.ofList (records.flatMap record)

end FreshDocs.Csv
