import PriceOracle.SimplicityEnv
import PriceOracle.SimplicityStd
import PriceOracle.OutputCover
import PriceOracle.StormTreeCovenant
import PriceOracle.AuthCovenant
import PriceOracle.AuthPaths
import PriceOracle.AuthConservation
import PriceOracle.VoucherCovenant
import PriceOracle.MerkleFold
import PriceOracle.Sha256
import PriceOracle.Smt
import PriceOracle.SmtInvariant
import PriceOracle.StormTreeProofs
import PriceOracle.StormTree
import PriceOracle.StormTreeQuorum
import PriceOracle.Musig
import PriceOracle.Signing
import PriceOracle.TokenLedger
import PriceOracle.SigningSession
import PriceOracle.SigningCompletion
import PriceOracle.SigningSteps
import PriceOracle.SigningRun
import PriceOracle.SigningSafety
import PriceOracle.SigningIsolation
import PriceOracle.SigningMembers
import PriceOracle.SigningRound
import PriceOracle.SigningProgress
import PriceOracle.SigningLiveness
import PriceOracle.SigningChannels
import PriceOracle.SigningCalls
import PriceOracle.SigningCallsSafety
import PriceOracle.SigningCallsRun
import PriceOracle.Database
import PriceOracle.Table
import PriceOracle.Droplets
import PriceOracle.DropletStatements
import PriceOracle.DropletConservation
import PriceOracle.DropletLocks
import PriceOracle.LockProtection
import PriceOracle.SigningHashes
import PriceOracle.ExchangeHandler
import PriceOracle.ExchangeLock
import PriceOracle.VotingStore
import PriceOracle.VotingStatements
import PriceOracle.VotingExecutions
import PriceOracle.VotingExecution
import PriceOracle.FeeLocks
import PriceOracle.Postcard
import PriceOracle.VotingMessages
import PriceOracle.Runs
import PriceOracle.Voting
import PriceOracle.VotingNode
import PriceOracle.VotingHandlers
import PriceOracle.VotingProposals
import PriceOracle.VotingQuorum
import PriceOracle.MonitoredUtxos
import PriceOracle.MonitoredStatements
import PriceOracle.MonitoredLifecycle
import PriceOracle.Indexer
import PriceOracle.IndexerStatements
import PriceOracle.DropletsIsolation
import PriceOracle.StormState
import PriceOracle.StormReplay
import PriceOracle.StormNetwork
import PriceOracle.StormConnections
import PriceOracle.StormMigration
import PriceOracle.UserRequests
import PriceOracle.UserRequestLifecycle
import PriceOracle.PriceData
import PriceOracle.IssuanceRounds
import PriceOracle.IssuedRequests
import PriceOracle.Sha256Digest
import PriceOracle.CovenantHashing
import PriceOracle.JsonText
import PriceOracle.UserBatches
import PriceOracle.BatchSignatures
import PriceOracle.FairDivision
import PriceOracle.Psets
import PriceOracle.Burning
import PriceOracle.BurnGroups
import PriceOracle.BurnLayout
import PriceOracle.BurnValidator
import PriceOracle.ContractUtxos
import PriceOracle.BurnLeader
import PriceOracle.BurnSurvivors
import PriceOracle.BurnAgreement
import PriceOracle.VotingReshape
import PriceOracle.OpReturn
import PriceOracle.Markers
import PriceOracle.MarkerCodecs
import PriceOracle.Streams
import PriceOracle.StormMessages
import PriceOracle.VotingForms
import PriceOracle.PeerTableAuthority
import PriceOracle.MemberUpdates
import PriceOracle.Passes
import PriceOracle.UserReconciliation
import PriceOracle.VotingReconciliation
import PriceOracle.ReshapeValidator
import PriceOracle.Transactions
import PriceOracle.TreasuryScan
import PriceOracle.DepositAttribution
import PriceOracle.DropletRuns
import PriceOracle.ExchangeLayout
import PriceOracle.ExchangeAgreement
import PriceOracle.Assets
import PriceOracle.AssetAnnouncements
import PriceOracle.WriteMessages
import PriceOracle.OperatorAuth
import PriceOracle.RoundSearch
import PriceOracle.RoundLimits
import PriceOracle.RoundRetries
import PriceOracle.BurnQueue
import PriceOracle.BurnStarvation
import PriceOracle.Renewal
import PriceOracle.RenewalRecognition
import PriceOracle.RenewalAgreement
import PriceOracle.CovenantTransactions
import PriceOracle.AuthAcceptance
import PriceOracle.StormEyeSpends
import PriceOracle.SpendAcceptance
import PriceOracle.ReshapeCovenants
import PriceOracle.SdkValues
import PriceOracle.TickSpends
import PriceOracle.WordBytes
import PriceOracle.PriceInstructions
import PriceOracle.SignedPrices
import PriceOracle.PriceAgreement
import PriceOracle.ExchangeRecovery
import PriceOracle.RecoverySafety
import PriceOracle.AccountReserves
import PriceOracle.HalfEven
import PriceOracle.Ranks
import PriceOracle.PriceSources
import PriceOracle.MedianReducer
import PriceOracle.CrossPrices
import PriceOracle.CrossValues
import PriceOracle.SimpleRoutes
import PriceOracle.CrossRoutes
import PriceOracle.FeedStates
import PriceOracle.FeedSources
import PriceOracle.FeedAcceptance
import PriceOracle.LatestRows
import PriceOracle.PriceAttestations
import PriceOracle.AttestationRuns
import PriceOracle.AttestationsSupersede
import PriceOracle.OperatorSessions
import PriceOracle.SessionRuns
import PriceOracle.PendingQueues
import PriceOracle.RoundFilling
import PriceOracle.SmtCalls
import PriceOracle.StormEyeLanes
import PriceOracle.CoinValues
import PriceOracle.MapKeys
import PriceOracle.Loops
import PriceOracle.IssuanceMessages
import PriceOracle.IssuanceValidator
import PriceOracle.IssuanceChecks
import PriceOracle.IssuanceLayout
import PriceOracle.IssuanceSoundness
import PriceOracle.RoundTokens
import PriceOracle.IssuanceBuilder
import PriceOracle.IssuanceDraft
import PriceOracle.IssuanceBuilt
import PriceOracle.IssuanceAgreement
import PriceOracle.IssuanceLeader
import PriceOracle.IssuanceCoordinator
import PriceOracle.IssuanceRates
import PriceOracle.IssuedOutputs
import PriceOracle.IndexedRounds
import PriceOracle.ReshapeAgreement
import PriceOracle.LedgerIsolation
import PriceOracle.ExchangeBuilder
import PriceOracle.ExchangeSettlement
import PriceOracle.ExchangeCovenants
import PriceOracle.Rotations
import PriceOracle.LeaderRotation
import PriceOracle.ExchangeQueue
