import FreshDocs.Path.Basic
/-!
The languages of source files, known by the extension of a file.
-/

namespace FreshDocs.Source

def languages : List (String × List String) :=
  [("rust", ["rs"]), ("typescript", ["ts", "tsx"]), ("javascript", ["js", "jsx", "mjs", "cjs"]),
   ("python", ["py"]), ("go", ["go"]), ("java", ["java"]), ("kotlin", ["kt"]), ("ruby", ["rb"]),
   ("c", ["c", "h"]), ("cpp", ["cc", "cpp", "hpp"]), ("csharp", ["cs"]), ("swift", ["swift"]),
   ("php", ["php"]), ("scala", ["scala"]), ("shell", ["sh"]), ("markdown", ["md"])]

def unknownLanguage : String := "other"

def languageOf? (path : Path) : Option String := do
  let extension ← path.extension?
  (languages.find? fun (_, extensions) => extensions.contains extension).map (·.1)

/-- Whether a file is source text, by its extension. -/
def isSource (path : Path) : Bool :=
  (languageOf? path).isSome

end FreshDocs.Source
