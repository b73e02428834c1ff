import CodeSweep.Codemod
import CodeSweep.Codemod.Run
import CodeSweep.Codemod.TextStep
import CodeSweep.CommandLine
import CodeSweep.CommandLine.Arguments
import CodeSweep.CommandLine.Help
import CodeSweep.Config
import CodeSweep.Data
import CodeSweep.Data.Decode
import CodeSweep.Data.Json
import CodeSweep.Data.Yaml
import CodeSweep.Data.Yaml.Cursor
import CodeSweep.Data.Yaml.Node
import CodeSweep.Data.Yaml.Scalar
import CodeSweep.Data.Yaml.Tag
import CodeSweep.Data.Yaml.Token
import CodeSweep.Diff.Block
import CodeSweep.Diff.Compact
import CodeSweep.Diff.Hunk
import CodeSweep.Diff.Render
import CodeSweep.Diff.Results
import CodeSweep.Diff.Script
import CodeSweep.Edit
import CodeSweep.Engine
import CodeSweep.Event
import CodeSweep.Fault
import CodeSweep.Git.Branch
import CodeSweep.Git.Prepare
import CodeSweep.Git.Repository
import CodeSweep.Glob
import CodeSweep.Hosting
import CodeSweep.Inspect
import CodeSweep.Language
import CodeSweep.Main
import CodeSweep.Ordered
import CodeSweep.Path
import CodeSweep.Proofs.Git.Behaviour
import CodeSweep.Proofs.Git.Coherence
import CodeSweep.Proofs.Git.Commands
import CodeSweep.Proofs.Git.Guarded
import CodeSweep.Proofs.Git.Listing
import CodeSweep.Proofs.Git.Operations
import CodeSweep.Proofs.Git.PushSafety
import CodeSweep.Proofs.Git.Reconcile
import CodeSweep.Proofs.Git.Run
import CodeSweep.Proofs.Git.WorkingCopy
import CodeSweep.Publish
import CodeSweep.Rehearsal
import CodeSweep.Session
import CodeSweep.Stage
import CodeSweep.Sweep
import CodeSweep.Template.Match
import CodeSweep.Template.Placeholder
import CodeSweep.Text.Blank
import CodeSweep.Text.Lines
import CodeSweep.Text.Offset
import CodeSweep.Text.Quoted
import CodeSweep.Text.Search
import CodeSweep.Text.WordChar
import CodeSweep.Workspace.Disk
import CodeSweep.Workspace.Listing
import CodeSweep.Workspace.Walk
import CodeSweep.Proofs.Stage.Agreement
import CodeSweep.Proofs.Codemod.PerFile
import CodeSweep.Proofs.Git.SideBySide
import CodeSweep.Proofs.Workspace.Naming
import CodeSweep.Proofs.Sweep.Passes
import CodeSweep.Proofs.Sweep.Publishing
import CodeSweep.Proofs.Workspace.Follow
import CodeSweep.Proofs.Workspace.WorkDir
import CodeSweep.Proofs.Workspace.Without
import CodeSweep.Proofs.Sweep.Bystander
import CodeSweep.Proofs.Sweep.Interference
import CodeSweep.Proofs.Git.Remembering
import CodeSweep.Proofs.Sweep.Turns
import CodeSweep.Proofs.Sweep.Rounds
import CodeSweep.Proofs.Sweep.StayingOut
import CodeSweep.Proofs.Sweep.Requests
import CodeSweep.Proofs.Sweep.Preview
import CodeSweep.Proofs.Codemod.SecondRun
import CodeSweep.Proofs.Stage.Record
import CodeSweep.Proofs.Workspace.Reach
import CodeSweep.Proofs.Sweep.Completeness
import CodeSweep.Proofs.Config.Separation
import CodeSweep.Proofs.Ordered
import CodeSweep.Proofs.Text.Offset
import CodeSweep.Proofs.Edit.Splicing
import CodeSweep.Proofs.Text.Search
import CodeSweep.Proofs.Template.Scan
import CodeSweep.Proofs.Template.Reading
import CodeSweep.Proofs.Template.Filling
import CodeSweep.Proofs.Stage.Placeholders
import CodeSweep.Proofs.Edit.Batches
import CodeSweep.Proofs.Stage.Parallel
import CodeSweep.Proofs.Stage.Composition
import CodeSweep.Proofs.Workspace.PathOrder
import CodeSweep.Proofs.Codemod.HandOver
import CodeSweep.Proofs.Codemod.Reporting
import CodeSweep.Proofs.Text.Ending
import CodeSweep.Proofs.Workspace.Homes
import CodeSweep.Proofs.Git.Silence
import CodeSweep.Proofs.Publish.Conclusion
import CodeSweep.Proofs.Publish.Pipeline
import CodeSweep.Proofs.Publish.Series
import CodeSweep.Text.Bytes
import CodeSweep.Proofs.Language
import CodeSweep.Proofs.Codemod.Parsing
import CodeSweep.Proofs.Git.Detached
import CodeSweep.Proofs.Sweep.Cloning
import CodeSweep.Proofs.Hosting.Slug
import CodeSweep.Proofs.Config.Checking
import CodeSweep.Proofs.Sweep.Checkouts
import CodeSweep.Proofs.Diff.Listing
import CodeSweep.Proofs.Diff.Hunks
import CodeSweep.Proofs.Diff.Faithful
import CodeSweep.Proofs.Diff.Colour
import CodeSweep.Proofs.Template.Grammar
import CodeSweep.Proofs.Template.Variables
import CodeSweep.Proofs.Stage.Substitution
import CodeSweep.Proofs.Workspace.Walking
import CodeSweep.Proofs.Stage.Substitution
import CodeSweep.Proofs.Workspace.Walking
