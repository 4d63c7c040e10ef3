import FreshDocs.Analyzer
import FreshDocs.Proofs.PathDescents
import FreshDocs.Proofs.SourceTallies

/-! The figures of a text are those of its lines. A text that is cut where a line ends has the lines of its two parts,
so all figures of the parts add up to those of the whole. Every line is blank, a comment or code. -/

namespace FreshDocs

namespace Text

/-- The text ends where a line does: it is empty, or a line feed comes last. -/
def EndsLine (text : List Char) : Prop :=
  text = [] ∨ text.getLast? = some '\n'

private theorem lines_feed (front back : List Char) :
    lines (front ++ '\n' :: back) = (split '\n' front).map stripReturn ++ lines back := by
  have filled := split_ne_nil '\n' back
  rw [lines, lines, split_append_separator, List.dropLast_append_of_ne_nil filled, List.getLast?_append_of_ne_nil _ filled,
    List.map_append, List.append_assoc]

/-- A line that ends before a cut takes nothing from what is behind it. -/
theorem lines_append {first : List Char} (ends : EndsLine first) (second : List Char) :
    lines (first ++ second) = lines first ++ lines second := by
  rcases ends with rfl | ends
  · rfl
  · obtain ⟨front, rfl⟩ := List.getLast?_eq_some_iff.mp ends
    have closed := lines_feed front []
    rw [show lines [] = [] from rfl, List.append_nil] at closed
    rw [closed, List.append_assoc, List.singleton_append, lines_feed]

end Text

namespace Source.Stats
open Text

/-- The third figures are those of the first two together, of files in one language. -/
structure Sums (first second total : Stats) : Prop where
  language : total.language = first.language ∧ total.language = second.language
  lines : total.lines = first.lines + second.lines
  blank : total.blank = first.blank + second.blank
  comments : total.comments = first.comments + second.comments
  code : total.code = first.code + second.code
  markers : Tally.Sums first.markers second.markers total.markers
  imports : total.imports = first.imports ++ second.imports

/-- Of the lines some are blank, some of the others are comments, and the rest is code. -/
structure Balanced (stats : Stats) : Prop where
  blank : stats.blank ≤ stats.lines
  comments : stats.comments ≤ stats.lines - stats.blank
  whole : stats.blank + stats.comments + stats.code = stats.lines

private theorem Balanced.of_le {stats : Stats} (blank : stats.blank ≤ stats.lines)
    (comments : stats.comments ≤ stats.lines - stats.blank) : stats.Balanced := by
  refine ⟨blank, comments, ?_⟩
  rw [code, Nat.min_eq_left comments]
  omega

section
variable (path : Path)

/-- Blank lines are those in which nothing is left when it is trimmed. -/
theorem blank_ofText (text : String) :
    (ofText path text).blank = (Text.lines text.toList).countP (trim · = []) := by
  have parted := (Text.lines text.toList).length_eq_countP_add_countP (trim · ≠ [])
  simp only [ofText, ← List.countP_eq_length_filter]
  rw [parted, Nat.add_sub_cancel_left]
  simp

theorem balanced_ofText (text : String) : (ofText path text).Balanced := by
  have kept := List.length_filter_le (trim · ≠ []) (Text.lines text.toList)
  have counted := ((Text.lines text.toList).filter (trim · ≠ [])).countP_le_length (p := (isComment <| trim ·))
  refine .of_le (Nat.sub_le _ _) ?_
  simp only [ofText]
  omega

/-- A text that is cut where a line ends has the figures of its parts together. -/
theorem ofText_append {first : String} (ends : EndsLine first.toList) (second : String) :
    Sums (ofText path first) (ofText path second) (ofText path (first ++ second)) := by
  have lines := lines_append ends second.toList
  have one := balanced_ofText path first
  have two := balanced_ofText path second
  have whole := balanced_ofText path (first ++ second)
  have all : (ofText path (first ++ second)).lines = (ofText path first).lines + (ofText path second).lines := by
    simp only [ofText, String.toList_append, lines, List.length_append]
  have blank : (ofText path (first ++ second)).blank = (ofText path first).blank + (ofText path second).blank := by
    simp only [blank_ofText, String.toList_append, lines, List.countP_append]
  have comments : (ofText path (first ++ second)).comments =
      (ofText path first).comments + (ofText path second).comments := by
    simp only [ofText, String.toList_append, lines, List.filter_append, List.countP_append]
  refine ⟨⟨rfl, rfl⟩, all, blank, comments, ?_, ?_, ?_⟩
  · -- What is left for code is fixed by the other figures.
    have first := one.whole
    have second := two.whole
    have total := whole.whole
    omega
  · simp only [ofText, String.toList_append, lines, List.filter_append, List.flatMap_append]
    exact Tally.ofNames_append _ _
  · simp only [ofText, String.toList_append, lines, List.filter_append, List.filterMap_append]

/-- What is found in a text that is cut where a line ends is what is found in its parts, all figures added up and
all that is taken in one after the other. In any text each line is blank, a comment or code, and no more lines are
blank or comments than there are. -/
theorem ofText_sums :
    (∀ first second : String, EndsLine first.toList →
      Sums (ofText path first) (ofText path second) (ofText path (first ++ second)) ∧
      (Finding.ofStats path (first ++ second)).dependencies =
        (Finding.ofStats path first).dependencies ++ (Finding.ofStats path second).dependencies) ∧
    ∀ text, (ofText path text).Balanced := by
  refine ⟨fun first second ends => ?_, balanced_ofText path⟩
  have sums := ofText_append path ends second
  refine ⟨sums, ?_⟩
  simp only [Finding.ofStats, dependencies, sums.imports, List.filterMap_append]

end

/-- A cut after a line that ends in two characters, before one that does not end. -/
theorem halves_sum :
    let first := "import { x } from './util';\r\n \t\r\n"
    let second := "// TODO: split\nconst a = 1; // FIXME"
    EndsLine first.toList ∧
      Sums (ofText ⟨"a.ts"⟩ first) (ofText ⟨"a.ts"⟩ second) (ofText ⟨"a.ts"⟩ (first ++ second)) :=
  ⟨.inr rfl, ((ofText_sums ⟨"a.ts"⟩).1 _ _ (.inr rfl)).1⟩

end Source.Stats
end FreshDocs
