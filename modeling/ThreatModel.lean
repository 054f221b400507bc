import ThreatModel.Main
import ThreatModel.Project.Shape
import ThreatModel.Proofs.BlockOrder
import ThreatModel.Proofs.Comment.Lines
import ThreatModel.Proofs.Comment.Closing
import ThreatModel.Proofs.Comment.Partition
import ThreatModel.Proofs.Command.Start
import ThreatModel.Proofs.Directive.Written
import ThreatModel.Proofs.Directive.Decorated
import ThreatModel.Proofs.Directive.Place
import ThreatModel.Proofs.Directive.Stored
import ThreatModel.Proofs.FileTree.Directories
import ThreatModel.Proofs.FirstWrite
import ThreatModel.Proofs.History
import ThreatModel.Proofs.LineEnds
import ThreatModel.Proofs.LineOrder
import ThreatModel.Proofs.Project.RoundTrip
import ThreatModel.Proofs.Report.Sections
import ThreatModel.Proofs.Json.AnyOrder
import ThreatModel.Proofs.Json.Passed
import ThreatModel.Proofs.Json.Edited
import ThreatModel.Proofs.Document.Partial
import ThreatModel.Proofs.Document.Loosened
import ThreatModel.Proofs.Document.Deleted
import ThreatModel.Proofs.Run.Failure
import ThreatModel.Proofs.Run.Fresh
import ThreatModel.Proofs.Run.Merged
import ThreatModel.Proofs.Scan.Once
import ThreatModel.Proofs.Session
import ThreatModel.Proofs.Store.Interrupted
import ThreatModel.Proofs.Store.Outcome
import ThreatModel.Proofs.Store.RoundTrip
import ThreatModel.Proofs.Store.Tolerant
import ThreatModel.Proofs.Store.Torn
