import ThreatModel.Graph
import ThreatModel.Project
import ThreatModel.Report.Calendar
import ThreatModel.Report.Table

/-!
# `Report` — a threat model as a document

The report has a heading, a line about the run, and eleven sections in a fixed order, each a table of the
records of one kind. A section without records says so instead of being left out.

## Contents

* `sourceLink` — how the provenance of a relation is shown.
* `tables` — the titles and tables of the sections.
* `render` — the whole document.
-/

namespace ThreatModel
namespace Report

/-- The file that a report is written to unless another one is named. -/
def defaultFileName : String := "ThreatModel.md"

/-- The place of a directive, as a link into the repository if its address is known. -/
def sourceLink (repositoryUrl : Option String) (source : Source) : String :=
  if source.filename = "" then ""
  else
    let line := toString source.line
    let label := source.filename ++ ":" ++ line
    match repositoryUrl with
    | none => label
    | some url =>
      let base := String.ofList (url.toList.reverse.dropWhile (· = '/')).reverse
      "[" ++ label ++ "](" ++ base ++ "/" ++ source.filename ++ "#L" ++ line ++ ")"

/-- The places of a component in the hierarchy. -/
def pathsText (paths : List (List String)) : String :=
  ", ".intercalate (paths.map fun segments => " / ".intercalate segments)

/-- The number of records of every kind. -/
def summary (g : Graph) : Table where
  header := ["Kind", "Count"]
  rows :=
    [("Components", g.registry.components.size), ("Controls", g.registry.controls.size),
      ("Threats", g.registry.threats.size), ("Mitigations", g.relations.mitigations.length),
      ("Exposures", g.relations.exposures.length), ("Acceptances", g.relations.acceptances.length),
      ("Transfers", g.relations.transfers.length), ("Connections", g.relations.connections.length),
      ("Reviews", g.relations.reviews.length), ("Tests", g.relations.tests.length)].map
        fun (kind, count) => [kind, toString count]

/-- The sections of the report: their titles and tables, in their order. -/
def tables (g : Graph) (repositoryUrl : Option String) : List (String × Table) :=
  let link := sourceLink repositoryUrl
  [("Summary", summary g),
    ("Components",
      ⟨["Component", "Path", "Description"],
        g.registry.components.values.map fun c => [c.name, pathsText c.paths, c.description]⟩),
    ("Threats",
      ⟨["Threat", "Description"], g.registry.threats.values.map fun t => [t.name, t.description]⟩),
    ("Controls",
      ⟨["Control", "Description"], g.registry.controls.values.map fun c => [c.name, c.description]⟩),
    ("Exposures",
      ⟨["Component", "Threat", "Details", "Source"],
        g.relations.exposures.map fun e => [e.component, e.threat, e.details, link e.source]⟩),
    ("Mitigations",
      ⟨["Component", "Threat", "Control", "Source"],
        g.relations.mitigations.map fun m => [m.component, m.threat, m.control, link m.source]⟩),
    ("Acceptances",
      ⟨["Threat", "Component", "Details", "Source"],
        g.relations.acceptances.map fun a => [a.threat, a.component, a.details, link a.source]⟩),
    ("Transfers",
      ⟨["Threat", "From", "To", "Details", "Source"],
        g.relations.transfers.map fun t =>
          [t.threat, t.sourceComponent, t.destinationComponent, t.details, link t.source]⟩),
    ("Connections",
      ⟨["Source", "Direction", "Destination", "Details", "Location"],
        g.relations.connections.map fun c =>
          [c.sourceComponent, c.direction.word, c.destinationComponent, c.details, link c.source]⟩),
    ("Reviews",
      ⟨["Component", "Details", "Source"],
        g.relations.reviews.map fun r => [r.component, r.details, link r.source]⟩),
    ("Tests",
      ⟨["Control", "Component", "Source"],
        g.relations.tests.map fun t => [t.control, t.component, link t.source]⟩)]

/-- A section: its title, then its table or the remark that it has no records. -/
def sectionText (title : String) (table : Table) : String :=
  "## " ++ title ++ "\n\n"
    ++ (if table.isEmpty then "_None._\n\n" else String.ofList table.render ++ "\n")

/-- What comes before the sections: the heading, the description if there is one, and the line about the
run. -/
def heading (g : Graph) (project : Project) (seconds : Int) : String :=
  "# " ++ project.name ++ " Threat Model\n\n"
    ++ (if project.description = "" then "" else project.description ++ "\n\n")
    ++ "Generated " ++ stamp seconds ++ " from run \x60" ++ g.runId ++ "\x60.\n\n"

/-- The report on a model, made at the given point in time. -/
def render (g : Graph) (project : Project) (seconds : Int) : String :=
  heading g project seconds
    ++ String.join ((tables g project.repositoryUrl).map fun (title, table) => sectionText title table)

end Report
end ThreatModel
