import DependencyScope.Session.Operation
import DependencyScope.CommandLine.Command
import DependencyScope.Main
import DependencyScope.Proofs.Version.Preorder
import DependencyScope.Proofs.Requirement.Grammar
import DependencyScope.Proofs.Requirement.Lexing
import DependencyScope.Proofs.Session.Keeps
import DependencyScope.Proofs.Session.Writes
import DependencyScope.Proofs.Namespace.Assign
import DependencyScope.Proofs.Namespace.Declare
import DependencyScope.Proofs.Store.Consistent
import DependencyScope.Proofs.Session.Run
import DependencyScope.Proofs.Session.SpecUse
import DependencyScope.Proofs.Session.Consistency
import DependencyScope.Proofs.Store.Containment
import DependencyScope.Proofs.Namespace.Held
import DependencyScope.Proofs.Namespace.Frame
import DependencyScope.Proofs.Namespace.Rollback
import DependencyScope.Proofs.Registry.Load
import DependencyScope.Proofs.Namespace.Ancestry
import DependencyScope.Proofs.Namespace.Replace
import DependencyScope.Proofs.Session.Tree
import DependencyScope.Proofs.Namespace.Narrow
import DependencyScope.Proofs.Requirement.Source
import DependencyScope.Proofs.Namespace.Inherit
import DependencyScope.Proofs.Registry.Artifact
import DependencyScope.Proofs.Registry.Tables
import DependencyScope.Proofs.Namespace.Bounded
import DependencyScope.Proofs.Registry.Inherit
import DependencyScope.Proofs.Requirement.Render
import DependencyScope.Proofs.Coordinate
import DependencyScope.Proofs.Registry.Legible
import DependencyScope.Proofs.Session.Outside
import DependencyScope.Proofs.Session.Undone
import DependencyScope.Proofs.Session.Copying
import DependencyScope.Proofs.Session.Kinds
import DependencyScope.Proofs.Store.Paths
import DependencyScope.Proofs.Session.Listed
import DependencyScope.Proofs.Session.Compound
import DependencyScope.Proofs.Session.Indexed
import DependencyScope.Proofs.Session.Addressed
import DependencyScope.Proofs.Session.Findable
import DependencyScope.Proofs.Session.Unobserved
import DependencyScope.Proofs.Session.Charted
import DependencyScope.Proofs.Session.Refusal
import DependencyScope.Proofs.Session.Partway
import DependencyScope.Proofs.Session.Noting
import DependencyScope.Proofs.Session.Telling
import DependencyScope.Proofs.Store.Values
import DependencyScope.Proofs.Session.Values
import DependencyScope.Proofs.Namespace.Resolve
import DependencyScope.Proofs.Session.Resolution
import DependencyScope.Proofs.Session.Registered
import DependencyScope.Proofs.Registry.Requested
import DependencyScope.Proofs.Namespace.Repeat
import DependencyScope.Proofs.Session.Repeated
import DependencyScope.Proofs.Store.Reports
import DependencyScope.Proofs.Session.Effect
import DependencyScope.Proofs.Name
import DependencyScope.Proofs.Requirement.Value
import DependencyScope.Proofs.Requirement.Intersect
import DependencyScope.Proofs.Requirement.Suggested
import DependencyScope.Proofs.Requirement.Spans
import DependencyScope.Proofs.Session.Groups
import DependencyScope.Proofs.Version.Spelling
