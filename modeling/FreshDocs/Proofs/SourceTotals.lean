import FreshDocs.Analyzer
import FreshDocs.Proofs.SourceTallies

/-! What the figures of the files of a project add up to. The results may come in any order and from anyone: what is
no number counts as zero and a language that is not told as unknown. What an aggregate says of some files and of
others adds up to what it says of all of them. -/

namespace FreshDocs.Source.Totals
open Std

/-! ### Reading an aggregate -/

def tallyOf (aggregate : Json) (name : String) : Tally :=
  match aggregate.member? name with
  | some (.object members) => .ofList (members.map fun (name, count) => (name, count.natural?.getD 0))
  | _ => ∅

def read (aggregate : Json) : Totals :=
  { files := numberOf aggregate "files"
    lines := numberOf aggregate "lines"
    comments := numberOf aggregate "comments"
    languages := tallyOf aggregate "languages"
    markers := tallyOf aggregate "markers" }

private theorem numberOf_of_member {aggregate : Json} {name : String} {count : Nat}
    (found : aggregate.member? name = some (toJson count)) : numberOf aggregate name = count := by
  rw [numberOf, found, Option.bind_some, Tally.natural?_toJson, Option.getD_some]

private theorem tallyOf_of_member {aggregate : Json} {name : String} {tally : Tally}
    (found : aggregate.member? name = some (toJson tally)) : tallyOf aggregate name = tally := by
  have counts : (tally.toList.map fun entry => (entry.1, toJson entry.2)).map
      (fun member => (member.1, member.2.natural?.getD 0)) = tally.toList := by
    rw [List.map_map]
    exact List.map_id'' (fun entry => by simp [Tally.natural?_toJson]) _
  rw [tallyOf, found]
  exact (congrArg (ExtTreeMap.ofList ·) counts).trans tally.ofList_toList

/-- Nothing of the totals is lost in an aggregate. -/
theorem read_aggregate (root : Path) (totals : Totals) : read (totals.aggregate root) = totals := by
  have found (name : String) := Json.member?_record
    [("root", toJson root.key), ("files", toJson totals.files), ("lines", toJson totals.lines),
      ("comments", toJson totals.comments), ("languages", toJson totals.languages), ("markers", toJson totals.markers)] name
  have files := numberOf_of_member (found "files")
  have lines := numberOf_of_member (found "lines")
  have comments := numberOf_of_member (found "comments")
  have languages := tallyOf_of_member ((found "languages").trans (congrArg some totals.languages.canonical_toJson))
  have markers := tallyOf_of_member ((found "markers").trans (congrArg some totals.markers.canonical_toJson))
  simp only [read, aggregate, files, lines, comments, languages, markers]

/-! ### Adding results -/

instance : RightCommutative add where
  right_comm totals first second := by
    simp only [add, mk.injEq]
    exact ⟨trivial, Nat.add_right_comm _ _ _, Nat.add_right_comm _ _ _, Tally.add_comm _ _ _ _ _,
      Tally.addAll_comm _ _ _⟩

/-- The third totals are those of the first two together. -/
structure Sums (first second total : Totals) : Prop where
  files : total.files = first.files + second.files
  lines : total.lines = first.lines + second.lines
  comments : total.comments = first.comments + second.comments
  languages : Tally.Sums first.languages second.languages total.languages
  markers : Tally.Sums first.markers second.markers total.markers

theorem Sums.empty (totals : Totals) : Sums totals {} totals :=
  ⟨rfl, rfl, rfl, .empty _, .empty _⟩

theorem Sums.add {first second total : Totals} (sums : Sums first second total) (result : Json) :
    Sums first (second.add result) (total.add result) := by
  refine ⟨?_, ?_, ?_, sums.languages.add _ _, sums.markers.addAll _⟩
  · exact (congrArg (· + 1) sums.files).trans (Nat.add_assoc _ _ _)
  · exact (congrArg (· + _) sums.lines).trans (Nat.add_assoc _ _ _)
  · exact (congrArg (· + _) sums.comments).trans (Nat.add_assoc _ _ _)

private theorem ofResults_append (first second : List Json) :
    Sums (ofResults first) (ofResults second) (ofResults (first ++ second)) := by
  have carried (results : List Json) {before later total : Totals} (sums : Sums before later total) :
      Sums before (results.foldl Totals.add later) (results.foldl Totals.add total) := by
    induction results generalizing later total with
    | nil => exact sums
    | cons result rest ih => exact ih (sums.add result)
  rw [ofResults, ofResults, ofResults, List.foldl_append]
  exact carried second (.empty _)

/-- Each file counts once among all files, and once for its language. -/
theorem counts_ofResults (results : List Json) :
    (ofResults results).files = results.length ∧ (ofResults results).languages.total = results.length := by
  have counted (results : List Json) (totals : Totals) :
      (results.foldl add totals).files = totals.files + results.length ∧
        (results.foldl add totals).languages.total = totals.languages.total + results.length := by
    induction results generalizing totals with
    | nil => exact ⟨rfl, rfl⟩
    | cons result rest ih =>
      obtain ⟨files, languages⟩ := ih (totals.add result)
      have more : (totals.add result).languages.total = totals.languages.total + 1 := Tally.total_add _ _ _
      rw [List.foldl_cons, files, languages, more, List.length_cons]
      exact ⟨Nat.add_right_comm _ _ _, Nat.add_right_comm _ _ _⟩
  obtain ⟨files, languages⟩ := counted results {}
  rw [ofResults, files, languages, Tally.total_empty]
  exact ⟨Nat.zero_add _, Nat.zero_add _⟩

/-- Whatever results there are of the files of a project, their aggregate does not depend on their order, and those
of two lists add up, member by member, to that of both together. One file adds what its result tells. The numbers of
the languages add up to that of the files. An aggregate says no more than the totals that are read from it. -/
theorem aggregate_sums (root : Path) (first second : List Analysis) :
    let aggregate := Analyzer.stats.aggregate root
    (∀ shuffled, shuffled.Perm first → aggregate shuffled = aggregate first) ∧
    Sums (read (aggregate first)) (read (aggregate second)) (read (aggregate (first ++ second))) ∧
    (∀ analysis, read (aggregate [analysis]) =
      { files := 1, lines := numberOf analysis.result "lines", comments := numberOf analysis.result "comments"
        languages := .ofNames [languageOf analysis.result], markers := .addAll (markersOf analysis.result) ∅ }) ∧
    (read (aggregate first)).files = first.length ∧
    (read (aggregate first)).languages.total = first.length ∧
    (read (aggregate first)).aggregate root = aggregate first := by
  intro aggregate
  have told (analyses : List Analysis) : read (aggregate analyses) = ofResults (analyses.map (·.result)) :=
    read_aggregate root _
  obtain ⟨files, languages⟩ := counts_ofResults (first.map (·.result))
  rw [List.length_map] at files languages
  rw [told, told, told, List.map_append]
  refine ⟨fun shuffled same => ?_, ofResults_append _ _, fun analysis => ?_, files, languages, rfl⟩
  · have results : (shuffled.map (·.result)).Perm (first.map (·.result)) := same.map _
    exact congrArg (fun totals => totals.aggregate root) (results.foldl_eq (f := add) {})
  · rw [told]
    simp [ofResults, add, Tally.ofNames, Tally.addAll]

def oddly (result : Json) : Analysis :=
  .ofStamp { path := ⟨"odd"⟩, digest := .ofBytes .empty, size := 0, modified := .epoch } result []

/-- One file is counted as usual; of the other one neither the language nor a usable number is told. -/
theorem odd_sums :
    let plain := oddly (.object [("language", .string "rust"), ("lines", .integer 3), ("markers", .object [("TODO", .integer 2)])])
    let odd := oddly (.object [("lines", .integer (-1)), ("comments", .null), ("markers", .object [("TODO", .string "many")])])
    [odd, plain].Perm [plain, odd] ∧
      Analyzer.stats.aggregate ⟨"p"⟩ [odd, plain] = Analyzer.stats.aggregate ⟨"p"⟩ [plain, odd] :=
  ⟨.swap _ _ _, (aggregate_sums ⟨"p"⟩ [_, _] []).1 _ (.swap _ _ _)⟩

end FreshDocs.Source.Totals
