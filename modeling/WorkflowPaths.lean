import WorkflowPaths.Command.Run
import WorkflowPaths.Files.Folder
import WorkflowPaths.Main
import WorkflowPaths.Proofs.Diagram.BranchEdges
import WorkflowPaths.Proofs.Diagram.SharedIds
import WorkflowPaths.Proofs.HiddenSignals
import WorkflowPaths.Proofs.Report
import WorkflowPaths.Proofs.Path.Limits
import WorkflowPaths.Proofs.Path.Rearrangement
import WorkflowPaths.Proofs.Draft.Registrations
import WorkflowPaths.Proofs.SourceOrder
import WorkflowPaths.Proofs.Draft.Acceptance
import WorkflowPaths.Proofs.Draft.Reordering
import WorkflowPaths.Proofs.Recording.References
import WorkflowPaths.Proofs.Recording.Registration
import WorkflowPaths.Proofs.Recording.Contents
import WorkflowPaths.Proofs.Recording.Flaws
import WorkflowPaths.Proofs.Recording.GuardOrder
import WorkflowPaths.Proofs.Documents
import WorkflowPaths.Proofs.Recording.Labels
import WorkflowPaths.Proofs.Diagram.Document
import WorkflowPaths.Proofs.Lines
import WorkflowPaths.Proofs.Diagram.Declaration
import WorkflowPaths.Proofs.Workflow.Closure
import WorkflowPaths.Proofs.Recording.NamedReferences
import WorkflowPaths.Proofs.Text.Words
