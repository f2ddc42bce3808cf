import Fhevm.Foundation.Digraph
import Fhevm.Foundation.Dag
import Fhevm.Foundation.TaskSet
import Fhevm.Foundation.Toposort
import Fhevm.Foundation.Dataflow
import Fhevm.Foundation.HashMap
import Fhevm.Foundation.RowTasks
import Fhevm.Foundation.System
import Fhevm.Foundation.Table
import Fhevm.Foundation.Lease
import Fhevm.Foundation.Contract
import Fhevm.Foundation.TransientSet
import Fhevm.Foundation.BigEndian
import Fhevm.Foundation.Flagged
import Fhevm.Common.Types
import Fhevm.Common.Evm
import Fhevm.Common.NonceManagedProvider
import Fhevm.Common.NonceInvariant
import Fhevm.Common.NonceSlips
import Fhevm.Common.TfheOps
import Fhevm.Common.OperandTypes
import Fhevm.Scheduler.Types
import Fhevm.Scheduler.Rerandomise
import Fhevm.Scheduler.SymbolicEngine
import Fhevm.Scheduler.RerandomiseOrder
import Fhevm.Scheduler.Partition
import Fhevm.Scheduler.PartitionComponents
import Fhevm.Scheduler.Component
import Fhevm.Scheduler.ComponentGraph
import Fhevm.Scheduler.Finalize
import Fhevm.Scheduler.BuildComponents
import Fhevm.Scheduler.Batch
import Fhevm.Scheduler.BatchCycle
import Fhevm.Scheduler.PrunedHandles
import Fhevm.Scheduler.Outputs
import Fhevm.Scheduler.Execute
import Fhevm.Scheduler.Operations
import Fhevm.Scheduler.Schedule
import Fhevm.Scheduler.ScheduleState
import Fhevm.Scheduler.ScheduleInvariant
import Fhevm.Scheduler.Outcome
import Fhevm.Scheduler.Confluence
import Fhevm.Scheduler.Dispatch
import Fhevm.Scheduler.Strategies
import Fhevm.Scheduler.Computed
import Fhevm.Scheduler.Completed
import Fhevm.Worker.Database
import Fhevm.Worker.QueryForWork
import Fhevm.Worker.Upload
import Fhevm.Worker.Cycle
import Fhevm.Worker.MissingInputs
import Fhevm.Worker.UsedOutputs
import Fhevm.Worker.SortComputations
import Fhevm.Worker.SortedBatch
import Fhevm.Worker.PrunedHandles
import Fhevm.Gateway.KMSGeneration
import Fhevm.Gateway.KMSRequests
import Fhevm.Gateway.KMSConsensus
import Fhevm.Gateway.GeneratedKeys
import Fhevm.Gateway.MultichainACL
import Fhevm.Gateway.Bridge
import Fhevm.Gateway.Delegation
import Fhevm.Host.Handle
import Fhevm.Host.ACL
import Fhevm.Host.HCULimit
import Fhevm.Host.InputVerifier
import Fhevm.Host.FHEVMExecutor
import Fhevm.Host.Computation
import Fhevm.Host.HostChain
import Fhevm.Host.HCUInvariant
import Fhevm.Host.Permissions
import Fhevm.Host.Handles
import Fhevm.Host.HCUDepth
import Fhevm.Host.InputProofs
import Fhevm.Listener.TfheEvents
import Fhevm.Listener.Replay
import Fhevm.Listener.Evaluation
import Fhevm.Listener.Divisors
import Fhevm.Listener.RandomBits
import Fhevm.Listener.ScalarOperands
import Fhevm.Listener.CheckedOperands
import Fhevm.Foundation.Voting
import Fhevm.Foundation.Component
import Fhevm.Foundation.ForkTree
import Fhevm.Gateway.GatewayConfig
import Fhevm.Gateway.Thresholds
import Fhevm.Gateway.Registrations
import Fhevm.Gateway.Eip712
import Fhevm.Gateway.Ballot
import Fhevm.Gateway.Shared
import Fhevm.Gateway.InputVerification
import Fhevm.Gateway.ProofConsensus
import Fhevm.Gateway.CiphertextCommits
import Fhevm.Gateway.Allow
import Fhevm.Gateway.Materials
import Fhevm.Gateway.Decryption
import Fhevm.Gateway.DecryptionBallots
import Fhevm.Gateway.DecryptionConsensus
import Fhevm.Gateway.UserRequests
import Fhevm.Gateway.DelegationBallots
import Fhevm.Gateway.KMSBallots
import Fhevm.Gateway.Quorums
import Fhevm.Gateway.Gateway
import Fhevm.Gateway.Backed
import Fhevm.Gateway.Grants
import Fhevm.Gateway.LaterStates
import Fhevm.ZkProof.Verifier
import Fhevm.Sdk.Eip712
import Fhevm.Sdk.UserDecryptRequest
import Fhevm.Sdk.SignedRequests
import Fhevm.Gateway.RequestConditions
import Fhevm.Sdk.DecryptRequests
import Fhevm.Sdk.InputHandles
import Fhevm.Sdk.EncryptedInput
import Fhevm.Sdk.InputLimits
import Fhevm.Foundation.Utf8
import Fhevm.Foundation.Panics
import Fhevm.Sdk.DecryptedResult
import Fhevm.Sdk.DeserializedValues
import Fhevm.Foundation.Memo
import Fhevm.KmsConnector.BucketCache
import Fhevm.Sns.Resubmit
import Fhevm.Sns.HiddenRows
import Fhevm.Listener.Ingestion
import Fhevm.Listener.IngestionOrder
import Fhevm.Listener.LogIter
import Fhevm.Listener.ListenerRun
import Fhevm.Listener.Waiting
import Fhevm.Listener.CatchupCover
import Fhevm.Listener.CatchupPages
import Fhevm.Listener.CatchupStart
import Fhevm.Listener.SplitByBlock
import Fhevm.Listener.MissingAncestors
import Fhevm.Listener.NoEventLoss
import Fhevm.Listener.GrantedRows
import Fhevm.Listener.AncestorsDelivered
import Fhevm.Sdk.PublicVerification
import Fhevm.ZkProof.VerifyProofs
import Fhevm.ZkProof.VerifiedRequests
import Fhevm.ZkProof.ChainIds
import Fhevm.Sns.SnsWorker
import Fhevm.Sns.FormatRecorded
import Fhevm.Sns.NotLost
import Fhevm.Sns.TenantRows
import Fhevm.Sns.TenantsApart
import Fhevm.GwListener.TenantKeys
import Fhevm.GwListener.KeysTogether
import Fhevm.GwListener.AgreedDigests
import Fhevm.GwListener.GetLogs
import Fhevm.GwListener.NoGap
import Fhevm.KmsConnector.GwEvent
import Fhevm.KmsConnector.KmsRequests
import Fhevm.KmsConnector.CarriedFields
import Fhevm.KmsConnector.KmsResponses
import Fhevm.KmsConnector.Connector
import Fhevm.KmsConnector.Ownership
import Fhevm.KmsConnector.EmittedRequests
import Fhevm.KmsConnector.Retrieval
import Fhevm.KmsConnector.TxSender
import Fhevm.KmsConnector.Forwarded
import Fhevm.KmsConnector.OwnRows
import Fhevm.KmsConnector.GwListener
import Fhevm.KmsConnector.NeverMissed
import Fhevm.TransactionSender.AddCiphertext
import Fhevm.TransactionSender.Batches
import Fhevm.TransactionSender.RowEffects
import Fhevm.TransactionSender.SubmittedKeys
import Fhevm.TransactionSender.GrantedAllows
import Fhevm.Host.KMSVerifier
import Fhevm.Host.DecryptionProofs
import Fhevm.Host.SignerCounts
import Fhevm.Host.TransientStorage
import Fhevm.Host.SignerContexts
import Fhevm.Gateway.VerifiedProofs
import Fhevm.Host.PackedInputs
import Fhevm.Host.InputPath
import Fhevm.Host.Progress
import Fhevm.Host.ClearText
import Fhevm.LibrarySolidity.Operators
import Fhevm.LibrarySolidity.TemplateFHE
import Fhevm.LibrarySolidity.Meaning
import Fhevm.LibrarySolidity.Calls
import Fhevm.LibrarySolidity.Functions
import Fhevm.LibrarySolidity.Programs
import Fhevm.Scheduler.ExecutionGraph
import Fhevm.Scheduler.RowOrder
import Fhevm.LibrarySolidity.DecryptionRequests
import Fhevm.ProtocolContracts.Governance
import Fhevm.Foundation.Replace
import Fhevm.GwListener.SplitUrl
import Fhevm.Listener.DecryptedDatabase
