import BackupHistory.Main
import BackupHistory.Publisher.Timeline
import BackupHistory.Proofs.Backend
import BackupHistory.Proofs.Ledger.Convergence
import BackupHistory.Proofs.Replay
import BackupHistory.Proofs.Tree.Watching
import BackupHistory.Proofs.Ledger.Report
import BackupHistory.Proofs.Publisher.Currency
import BackupHistory.Proofs.Ledger.Identity
import BackupHistory.Proofs.Ledger.Supersession
import BackupHistory.Proofs.Selection
import BackupHistory.Proofs.Resync
import BackupHistory.Proofs.Tree.InputOrder
import BackupHistory.Proofs.Tree.PlanViews
import BackupHistory.Proofs.Ledger.Redelivery
import BackupHistory.Proofs.Ledger.Listening
import BackupHistory.Proofs.Tree.Nodes
import BackupHistory.Proofs.Binary64
import BackupHistory.Proofs.Event
import BackupHistory.Proofs.Tree.Keys
import BackupHistory.Proofs.Ledger.Future
import BackupHistory.Proofs.Follower.Course
import BackupHistory.Proofs.Publisher.Coalescing
import BackupHistory.Proofs.Publisher.Sharing
import BackupHistory.Proofs.Tree.Drawing
import BackupHistory.Proofs.Flow.Summary
import BackupHistory.Proofs.Tree.Remembering
import BackupHistory.Proofs.Replay.Composing
import BackupHistory.Proofs.Operation.Layout
