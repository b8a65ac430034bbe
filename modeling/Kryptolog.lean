import Kryptolog.Library.Runs
import Kryptolog.Library.Tables
import Kryptolog.Library.Json
import Kryptolog.Library.Fallible
import Kryptolog.Server.Release
import Kryptolog.Server.ApprovedPayload
import Kryptolog.Server.RedactionNames
import Kryptolog.Server.EraseFates
import Kryptolog.Library.ReadCommitted
import Kryptolog.Server.DeletionRace
import Kryptolog.Server.RotationReplay
import Kryptolog.Server.StaleWraps
import Kryptolog.Server.RewrapBatches
import Kryptolog.Server.OwnerGrants
import Kryptolog.Server.EraseFinality
import Kryptolog.Server.SingleUse
import Kryptolog.Library.TrackedPoints
import Kryptolog.Server.TokenRevocation
import Kryptolog.Server.SocketRevocation
import Kryptolog.Library.Delimited
import Kryptolog.Library.Script
import Kryptolog.Server.UntypedBodies
import Kryptolog.Client.CanonicalJson
import Kryptolog.Client.CanonicalText
import Kryptolog.Client.SignedBodies
import Kryptolog.Client.BodyInjectivity
import Kryptolog.Client.Mirror
import Kryptolog.Server.MessageFrames
import Kryptolog.Server.Invites
import Kryptolog.Server.StorageQuota
import Kryptolog.Library.Tasks
import Kryptolog.Client.Account
import Kryptolog.Client.Backup
import Kryptolog.Client.AccountKeys
import Kryptolog.Client.Rewrap
import Kryptolog.Client.Messages
import Kryptolog.Client.Redactions
import Kryptolog.Client.MessageSessions
import Kryptolog.Client.SessionIsolation
import Kryptolog.Client.ReceivePaths
import Kryptolog.Client.DecryptedContent
import Kryptolog.Client.CreatorBadge
import Kryptolog.Client.FileLinks
import Kryptolog.Client.MultisigProof
import Kryptolog.Client.ProofAudit
import Kryptolog.Client.VaultService
import Kryptolog.Client.VaultEdits
import Kryptolog.Client.VaultLock
import Kryptolog.Extension.LockFinality
import Kryptolog.Extension.Durability
import Kryptolog.Extension.ImportPasswords
import Kryptolog.Extension.ContentScripts
import Kryptolog.Server.GroupRoles
import Kryptolog.Library.Ternary
import Kryptolog.Server.AccessForms
import Kryptolog.Server.GroupLimit
import Kryptolog.Server.Retention
import Kryptolog.Server.BadRows
import Kryptolog.Server.HistoryPages
import Kryptolog.Server.Listings
import Kryptolog.Server.BodyLimit
import Kryptolog.Server.PushSubscriptions
import Kryptolog.Client.Paging
import Kryptolog.Client.RotationChain
import Kryptolog.Client.FreshnessVerdicts
import Kryptolog.Client.Reassessment
import Kryptolog.Client.ManualDecrypts
import Kryptolog.Client.TrustedKeys
import Kryptolog.Server.ConversationClears
import Kryptolog.Server.Websocket
import Kryptolog.Server.UrlGuard
import Kryptolog.Client.SendKeys
import Kryptolog.Client.ShownConversation
import Kryptolog.Client.OpenedAsSealed
import Kryptolog.Client.FileChunks
import Kryptolog.Client.SignatureAgreement
import Kryptolog.Server.Spellings
import Kryptolog.Client.Spellings
import Kryptolog.Library.Pages
import Kryptolog.Library.Pointed
import Kryptolog.Client.AccountPointer
import Kryptolog.Client.VaultView
import Kryptolog.Client.PasswordPrompts
import Kryptolog.Extension.AccountPointer
import Kryptolog.Client.NewVaults
import Kryptolog.Extension.ApprovalWindows
import Kryptolog.Client.EraseLoop
import Kryptolog.Client.MessageSizes
import Kryptolog.Client.HybridKem
import Kryptolog.Client.DeviceTransfer
import Kryptolog.Extension.Firewall
import Kryptolog.Client.SessionEnvelopes
import Kryptolog.Client.KeyCustody
import Kryptolog.Extension.Strangers
import Kryptolog.Server.Authorship
