/-!
Cutting a text at every occurrence of a character, and putting the parts together again.
-/

namespace FreshDocs.Text

/-- The parts of a text between the occurrences of `separator`; there is always at least one. -/
def split (separator : Char) : List Char → List (List Char)
  | [] => [[]]
  | c :: rest =>
    if c = separator then [] :: split separator rest
    else
      match split separator rest with
      | [] => [[c]]
      | part :: parts => (c :: part) :: parts

def join (separator : List Char) : List (List Char) → List Char
  | [] => []
  | [part] => part
  | part :: parts => part ++ separator ++ join separator parts

theorem split_ne_nil (separator : Char) (text : List Char) : split separator text ≠ [] := by
  cases text with
  | nil => simp [split]
  | cons c rest =>
    simp only [split]
    split
    · simp
    · split <;> simp

theorem join_split (separator : Char) (text : List Char) :
    join [separator] (split separator text) = text := by
  induction text with
  | nil => rfl
  | cons c rest ih =>
    simp only [split]
    have := split_ne_nil separator rest
    split
    · next same =>
      subst same
      cases parts : split c rest with
      | nil => contradiction
      | cons part others => simp_all [join]
    · cases parts : split separator rest with
      | nil => contradiction
      | cons part others =>
        rw [parts] at ih
        cases others with
        | nil => simpa [join] using ih
        | cons next others => simpa [join] using ih

end FreshDocs.Text
