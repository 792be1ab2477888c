import MaxSecu.Client.Update
import MaxSecu.Admin.Ceremonies
import MaxSecu.Admin.Setup
import MaxSecu.Admin.Subtree
import MaxSecu.Client.VersionMemory
import MaxSecu.Server.TieredStore
import MaxSecu.Server.TierResidency
import MaxSecu.Server.Throttling
import MaxSecu.Server.NonceUse
import MaxSecu.Server.RecoveryNonces
import MaxSecu.Server.Housekeeping
import MaxSecu.Server.SoonRevoked
import MaxSecu.Server.LoginKeys
import MaxSecu.Sink.ControlAgreement
import MaxSecu.App.BundleMembers
import MaxSecu.App.UploadCleanup
import MaxSecu.App.Revocations
import MaxSecu.App.KeyChanges
import MaxSecu.App.PinRuns
import MaxSecu.App.SharesOpen
import MaxSecu.App.PoolSafety
import MaxSecu.App.Registration
import MaxSecu.App.SessionSafety
import MaxSecu.App.CacheRuns
import MaxSecu.App.Downloads
import MaxSecu.App.RangeArithmetic
import MaxSecu.App.VideoLinks
import MaxSecu.Sink.GenesisCutoff
import MaxSecu.Server.FileOwnership
import MaxSecu.Server.BundleMixing
import MaxSecu.Server.BackupStamps
import MaxSecu.App.PinnedHosts
import MaxSecu.Server.Listing
import MaxSecu.Server.LostFile
import MaxSecu.Server.FinalizedContent
import MaxSecu.Server.AccessOracle
import MaxSecu.Server.TierDeletion
import MaxSecu.Admin.Recovery
import MaxSecu.App.UploadResumption
