import ContractBuild.Build
import ContractBuild.Compiler.Native
import ContractBuild.Compiler.SingleSource
import ContractBuild.Once
import ContractBuild.Describe
import ContractBuild.Registry.Serve
import ContractBuild.Response.Terminal
import ContractBuild.Proofs.Registry.Transition
import ContractBuild.Proofs.Registry.Turns
import ContractBuild.Proofs.Registry.Loads
import ContractBuild.Proofs.Registry.Downloads
import ContractBuild.Proofs.Registry.Runs
import ContractBuild.Proofs.Link.InPlace
import ContractBuild.Proofs.Imports.Closure
import ContractBuild.Proofs.Link.Shift
import ContractBuild.Proofs.Artifact.Assembly
import ContractBuild.Proofs.Diagnostics.Rejection
import ContractBuild.Proofs.Imports.Passing
import ContractBuild.Proofs.Imports.Discovery
import ContractBuild.Proofs.Json.Written
import ContractBuild.Proofs.Request.Roundtrip
import ContractBuild.Proofs.Json.Decoded
import ContractBuild.Proofs.Response.Roundtrip
import ContractBuild.Proofs.Artifact.Roundtrip
import ContractBuild.Proofs.Files.Places
import ContractBuild.Proofs.Files.Directories
import ContractBuild.Proofs.Registry.CachePaths
import ContractBuild.Proofs.Registry.CacheFiles
import ContractBuild.Proofs.Registry.Attempts
import ContractBuild.Proofs.Registry.Staging
import ContractBuild.Proofs.Diagnostics.Triage
import ContractBuild.Proofs.Registry.Resolution
import ContractBuild.Proofs.Sources.Origin
import ContractBuild.Proofs.Build.Course
import ContractBuild.Proofs.Build.Modes
import ContractBuild.Proofs.Build.Provenance
import ContractBuild.Proofs.Registry.Insertion
import ContractBuild.Proofs.Build.Respelling
import ContractBuild.Proofs.Link.Overlap
import ContractBuild.Proofs.Registry.Announcements
import ContractBuild.Proofs.Imports.Lookups
import ContractBuild.Proofs.Artifact.TreeForms
import ContractBuild.Proofs.Registry.Visits
import ContractBuild.Proofs.Registry.Renewal
import ContractBuild.Proofs.Registry.Recovery
import ContractBuild.Proofs.Remapping
import ContractBuild.Proofs.Request.Scopes
import ContractBuild.Proofs.Imports.Rewording
import ContractBuild.Proofs.Sources.Names
import ContractBuild.Proofs.Link.Padding
import ContractBuild.Proofs.Registry.Neighbours
import ContractBuild.Proofs.Diagnostics.SyntaxErrors
import ContractBuild.Proofs.Request.Configured
import ContractBuild.Proofs.Imports.Patterns
import ContractBuild.Proofs.Registry.Installed
import ContractBuild.Proofs.Compiler.VersionOutput
