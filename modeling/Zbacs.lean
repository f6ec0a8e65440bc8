import Zbacs.Lib.Bytes
import Zbacs.Lib.Result
import Zbacs.Lib.Stream
import Zbacs.Lib.Pieces
import Zbacs.Lib.Crypto
import Zbacs.Lib.Cbor
import Zbacs.Lib.Fs
import Zbacs.Lib.Crash
import Zbacs.Lib.Run
import Zbacs.Lib.Hex
import Zbacs.Lib.Trace
import Zbacs.Lib.Threads
import Zbacs.Lib.Window
import Zbacs.Lib.Lines
import Zbacs.Lib.Json
import Zbacs.Lib.Script
import Zbacs.Lib.SwapPop
import Zbacs.Lib.OneTime
import Zbacs.Core.Types
import Zbacs.Core.Utf8
import Zbacs.Core.Wire
import Zbacs.Core.Primitives
import Zbacs.Core.Reference
import Zbacs.Core.Envelope
import Zbacs.Core.Header
import Zbacs.Core.Container
import Zbacs.Core.Path
import Zbacs.Core.Container.Name
import Zbacs.Core.Container.Padding
import Zbacs.Core.Container.Sealing
import Zbacs.Core.Container.Opening
import Zbacs.Core.Path.Theorems
import Zbacs.Core.Container.RoundTrip
import Zbacs.Core.Container.Integrity
import Zbacs.Core.Path.Limits
import Zbacs.Core.Path.Chain
import Zbacs.Core.Path.Versions
import Zbacs.Core.Header.Canonical
import Zbacs.Core.Path.Crash
import Zbacs.Session.State
import Zbacs.Session.Runs
import Zbacs.Session.Runs.Theorems
import Zbacs.Session.Runs.Endings
import Zbacs.Session.Runs.Window
import Zbacs.Session.Workspace
import Zbacs.Proto.Messages
import Zbacs.Proto.Wire
import Zbacs.Proto.Signing
import Zbacs.Relay.State
import Zbacs.Relay.Quota
import Zbacs.Relay.Routes
import Zbacs.Relay.Inboxes
import Zbacs.Relay.Replay
import Zbacs.Relay.Revokes
import Zbacs.Relay.Refusals
import Zbacs.Relay.Courses
import Zbacs.Relay.Puts
import Zbacs.Relay.Answers
import Zbacs.Relay.Stream
import Zbacs.Relay.Stream.Losses
import Zbacs.Relay.Stream.Subscribers
import Zbacs.Agent.Request
import Zbacs.Agent.RelayClient
import Zbacs.Agent.Failover
import Zbacs.Agent.Failover.Success
import Zbacs.Agent.Failover.Outages
import Zbacs.Agent.Request.Theorems
import Zbacs.Agent.Open
import Zbacs.Agent.Open.Theorems
import Zbacs.Agent.Open.Saving
import Zbacs.Agent.RunSession
import Zbacs.Agent.RunSession.Theorems
import Zbacs.Agent.Reference
import Zbacs.Agent.Binding
import Zbacs.Agent.Strict
import Zbacs.Agent.Request.Revoked
import Zbacs.Agent.RunSession.Wipe
import Zbacs.Agent.RunSession.Versions
import Zbacs.Agent.OpenFile
import Zbacs.Agent.OpenFile.Theorems
import Zbacs.Agent.OpenFile.Budget
import Zbacs.Agent.OpenFile.Reopen
import Zbacs.Agent.Ledger
import Zbacs.Agent.Ledger.Runs
import Zbacs.Agent.Ledger.Invariant
import Zbacs.Agent.Ledger.Revocation
import Zbacs.Agent.Approve
import Zbacs.Agent.Approve.Theorems
import Zbacs.Agent.Owner
import Zbacs.Agent.Owner.Notices
import Zbacs.Agent.Owner.Lockout
import Zbacs.Agent.Approve.Revocable
import Zbacs.Agent.Approve.Agreement
import Zbacs.Agent.Setup
import Zbacs.Agent.Setup.Steps
import Zbacs.Agent.Setup.Wire
import Zbacs.Agent.Setup.Keys
import Zbacs.Agent.Setup.Identity
import Zbacs.Agent.Setup.Refinement
import Zbacs.Agent.Sealing
import Zbacs.Agent.OwnerDevice
import Zbacs.Agent.OwnerDevice.Theorems
import Zbacs.Agent.OwnerDevice.Stranded
import Zbacs.Agent.Desk
import Zbacs.Agent.Desk.Theorems
import Zbacs.Agent.Desk.Versions
import Zbacs.Agent.Desk.Once
import Zbacs.Agent.Desk.Shown
import Zbacs.Agent.Polling
import Zbacs.Agent.Polling.Theorems
import Zbacs.Agent.Polling.Delivery
import Zbacs.Agent.Sessions
import Zbacs.Agent.Sessions.Theorems
import Zbacs.Agent.Sessions.Alone
import Zbacs.Agent.Sessions.Isolation
import Zbacs.Agent.SaveWatcher
import Zbacs.Agent.SaveWatcher.Reports
import Zbacs.Agent.Editing
import Zbacs.Agent.Editing.Saves
import Zbacs.Lib.Abi
import Zbacs.Contracts.FileRegistry
import Zbacs.Contracts.AccessPolicy
import Zbacs.Contracts.Chain
import Zbacs.Contracts.Chain.Grants
import Zbacs.Contracts.Chain.Versions
import Zbacs.Contracts.Chain.Files
import Zbacs.Contracts.Chain.Rivals
import Zbacs.Contracts.Calls
import Zbacs.Contracts.P256Validator
import Zbacs.Contracts.P256Validator.Keys
import Zbacs.Onchain.Client
import Zbacs.Onchain.Watcher
import Zbacs.Onchain.UserOperation
import Zbacs.Onchain.UserOperation.Submit
import Zbacs.Onchain.UserOperation.Failover
import Zbacs.Onchain.Watcher.Exact
import Zbacs.Onchain.Writer
import Zbacs.Onchain.Writer.Effects
import Zbacs.Onchain.Writer.Landing
import Zbacs.Onchain.Versions
import Zbacs.Agent.Deferred
import Zbacs.Agent.Deferred.Queue
import Zbacs.Agent.Deferred.Notices
import Zbacs.Agent.Merging
import Zbacs.Agent.AuditLog
import Zbacs.Agent.AuditLog.Torn
import Zbacs.Agent.AuditLog.Format
import Zbacs.Agent.Merging.Once
import Zbacs.Agent.Bursts
import Zbacs.Agent.Bursts.Windows
import Zbacs.Onchain.Offline
import Zbacs.Onchain.Offline.OneWay
import Zbacs.Onchain.Offline.Faithful
import Zbacs.Core.RecoveryCode
import Zbacs.Core.Backup
import Zbacs.Core.Container.Rounds
import Zbacs.Core.Container.Chunks
import Zbacs.Agent.Approve.Channels
import Zbacs.Agent.Open.Failures
import Zbacs.Contracts.Chain.Opens
import Zbacs.Session.Opens
import Zbacs.Session.Names
import Zbacs.Agent.Sealing.Names
import Zbacs.Lib.Disk
import Zbacs.Session.Wipe
import Zbacs.Session.Wipe.Theorems
import Zbacs.Session.Wipe.Removal
import Zbacs.Session.Wipe.Overwrites
import Zbacs.Session.Wipe.Frame
import Zbacs.Session.Wipe.Coarse
import Zbacs.Core.Backup.Integrity
import Zbacs.Auth.Otak
import Zbacs.Auth.Otak.OneTime
import Zbacs.Lib.Abi.Arrays
import Zbacs.Contracts.Dispatch
import Zbacs.Onchain.Account
import Zbacs.Onchain.Account.Execution
import Zbacs.Onchain.Account.Deploy
import Zbacs.Lib.Ecdsa
import Zbacs.Lib.Base64
import Zbacs.Lib.Json.Value
import Zbacs.Auth.WebAuthn
import Zbacs.Auth.Software
import Zbacs.Auth.Software.Verified
import Zbacs.Agent.UserOpSigner
import Zbacs.Agent.UserOpSigner.Validates
import Zbacs.Agent.UserOpSigner.Silent
import Zbacs.Agent.OwnerLink
import Zbacs.Agent.OwnerLink.Owner
import Zbacs.Agent.SealFile
import Zbacs.Agent.SealFile.Kept
import Zbacs.Agent.Sharing
import Zbacs.Agent.Sharing.Delivery
import Zbacs.Onchain.Writer.Statements
import Zbacs.Agent.PublicRecord
import Zbacs.Lib.Digits
import Zbacs.Auth.Windows
import Zbacs.Agent.Setup.Life
