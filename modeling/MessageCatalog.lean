import MessageCatalog.Main
import MessageCatalog.Proofs.Draft
import MessageCatalog.Proofs.BadOpenings
import MessageCatalog.Proofs.CommentLayout
import MessageCatalog.Proofs.Extraction
import MessageCatalog.Proofs.SiteOutcome
import MessageCatalog.Proofs.CallMessage
import MessageCatalog.Proofs.Orphans
import MessageCatalog.Proofs.DuplicateKeys
import MessageCatalog.Proofs.Fallbacks
import MessageCatalog.Proofs.References
import MessageCatalog.Proofs.Bindings
import MessageCatalog.Proofs.Styles
import MessageCatalog.Proofs.Files
import MessageCatalog.Proofs.ScopeDiscipline
import MessageCatalog.Proofs.VarSites
import MessageCatalog.Proofs.CleanRun
import MessageCatalog.Proofs.Contexts
import MessageCatalog.Proofs.Carets
import MessageCatalog.Proofs.Renaming
import MessageCatalog.Proofs.RenamedValues
import MessageCatalog.Proofs.RenamedScopes
import MessageCatalog.Proofs.RenamedRun
import MessageCatalog.Proofs.Layout
import MessageCatalog.Proofs.CursorSpecs
import MessageCatalog.Proofs.TypeSpecs
import MessageCatalog.Proofs.SourceMaps
import MessageCatalog.Proofs.SideBySide
import MessageCatalog.Proofs.Fingerprints
import MessageCatalog.Proofs.Ids
import MessageCatalog.Proofs.Inputs
import MessageCatalog.Proofs.ExpressionSpecs
import MessageCatalog.Proofs.StatementSpecs
import MessageCatalog.Proofs.VisibleDefinitions
import MessageCatalog.Proofs.FunctionWrappers
import MessageCatalog.Proofs.AcceptedCalls
import MessageCatalog.Proofs.Scanning
import MessageCatalog.Proofs.FileRoles
import MessageCatalog.Proofs.MovedRoots
import MessageCatalog.Proofs.Concatenations
import MessageCatalog.Proofs.AssignmentDocs
import MessageCatalog.Proofs.Appending
import MessageCatalog.Proofs.IssueOrder
import MessageCatalog.Proofs.FilteredScan
import MessageCatalog.Proofs.ConfigSearch
import MessageCatalog.Proofs.Companions
import MessageCatalog.Proofs.ScopeHistory
import MessageCatalog.Proofs.Reports
import MessageCatalog.Proofs.DottedNames
