import StorageService.Results.Addressing
import StorageService.Results.Administration
import StorageService.Results.Anchoring
import StorageService.Results.Authorisation
import StorageService.Results.Concurrency
import StorageService.Results.Content
import StorageService.Results.Counters
import StorageService.Results.Coverage
import StorageService.Results.Events
import StorageService.Results.Flagging
import StorageService.Results.Granting
import StorageService.Results.Locking
import StorageService.Results.Orphans
import StorageService.Results.Relocation
import StorageService.Results.Retries
import StorageService.Results.Batches
import StorageService.Results.Accounting
import StorageService.Results.Sharing
import StorageService.Results.FolderDeletion
import StorageService.Results.Limits
import StorageService.Results.PrivateByDefault
import StorageService.Results.Summary
import StorageService.Results.UserUsage
import StorageService.Results.Verdict
import StorageService.Results.InPlace
import StorageService.Results.Paths
import StorageService.Results.Preview
import StorageService.Results.Remaining
import StorageService.Results.BulkDeletion
import StorageService.Results.Renaming
import StorageService.Foundation.Paging
import StorageService.Results.Pages
import StorageService.Results.Links
import StorageService.Webdav.Links
import StorageService.Results.Routes
import StorageService.Results.Tokens
import StorageService.Results.Secrecy
import StorageService.Results.Redaction
import StorageService.Foundation.Base64
import StorageService.Foundation.JsonText
import StorageService.Foundation.JsonScan
import StorageService.Actions.WebhookSigning
import StorageService.Results.Endpoints
import StorageService.Results.RuleEdits
import StorageService.Results.Jwks
import StorageService.Results.Retention
import StorageService.Results.Purging
import StorageService.Results.Ancestors
import StorageService.Results.JobCounters
import StorageService.Results.JobRuns
import StorageService.Results.CompanyRows
import StorageService.Results.CompanyFiles
import StorageService.Results.GrantMigration
import StorageService.Results.ErrorMessages
import StorageService.Results.WebhookSigning
import StorageService.Results.LockedRuns
import StorageService.Results.FileTree
import StorageService.Foundation.TwoRuns
import StorageService.Results.Tenants
