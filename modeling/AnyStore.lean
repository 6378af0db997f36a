import AnyStore.Lib.Transaction
import AnyStore.Lib.Forest
import AnyStore.Properties.Attempts
import AnyStore.Properties.Blobs
import AnyStore.Properties.Feed
import AnyStore.Properties.History
import AnyStore.Properties.Http
import AnyStore.Properties.IfMatch
import AnyStore.Properties.Retention
import AnyStore.Properties.Tree
import AnyStore.Properties.Sessions
import AnyStore.Properties.Conditional
import AnyStore.Properties.Queries
import AnyStore.Properties.Memory
import AnyStore.Properties.MemoryTree
import AnyStore.Properties.MemoryListing
import AnyStore.Properties.Assembly
import AnyStore.Properties.SignedUrls
import AnyStore.Properties.CosUrls
import AnyStore.Properties.Downloads
import AnyStore.Lib.Alone
import AnyStore.Properties.StaleWrites
import AnyStore.Properties.Paths
import AnyStore.Properties.ChangeIds
import AnyStore.Properties.Confinement
import AnyStore.Properties.Completion
import AnyStore.Properties.StorableMetadata
import AnyStore.Properties.Responses
import AnyStore.Properties.Children
import AnyStore.Properties.Deletes
import AnyStore.Properties.Content
import AnyStore.Properties.Resolve
import AnyStore.Properties.Maintenance
import AnyStore.Properties.Adapters
import AnyStore.Properties.Patches
import AnyStore.Properties.UploadIds
