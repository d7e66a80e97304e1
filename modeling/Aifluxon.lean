import Aifluxon.Api.Allowed
import Aifluxon.Api.Backend
import Aifluxon.Api.Checkpoints
import Aifluxon.Api.EventForwarder
import Aifluxon.Api.EventJson
import Aifluxon.Api.ForwarderWakeups
import Aifluxon.Api.HostReads
import Aifluxon.Api.LaunchErrors
import Aifluxon.Api.Persistence
import Aifluxon.Api.RunResults
import Aifluxon.Api.RunTask
import Aifluxon.Api.SessionHistory
import Aifluxon.Api.TaskEnds
import Aifluxon.Auth.AccountIndex
import Aifluxon.Auth.Callback
import Aifluxon.Auth.Contracts
import Aifluxon.Auth.CredentialStore
import Aifluxon.Auth.FreshManager
import Aifluxon.Auth.IndexUpdates
import Aifluxon.Auth.Isolation
import Aifluxon.Auth.Keyring
import Aifluxon.Auth.KeyringCalls
import Aifluxon.Auth.KeyringMap
import Aifluxon.Auth.LegacyRetries
import Aifluxon.Auth.Logins
import Aifluxon.Auth.Manager
import Aifluxon.Auth.Migration
import Aifluxon.Auth.ParallelBearers
import Aifluxon.Auth.RegularCalls
import Aifluxon.Auth.Scopes
import Aifluxon.Auth.SecretChunks
import Aifluxon.Auth.Sessions
import Aifluxon.Auth.SharedRefresh
import Aifluxon.Auth.SignOuts
import Aifluxon.Auth.StoredLogins
import Aifluxon.Auth.Tokens
import Aifluxon.Auth.TornRefreshes
import Aifluxon.Auth.TornWrites
import Aifluxon.Auth.UnderWay
import Aifluxon.Auth.Vault
import Aifluxon.Auth.VaultErrors
import Aifluxon.Auth.VaultFormat
import Aifluxon.Auth.VaultWrites
import Aifluxon.Bindings.EventPayloads
import Aifluxon.Bindings.EventPump
import Aifluxon.Bindings.PythonInputs
import Aifluxon.Bindings.PythonPolicies
import Aifluxon.Bindings.PythonResults
import Aifluxon.Bindings.PythonStarts
import Aifluxon.Bindings.PythonTools
import Aifluxon.Bindings.ToolSchemas
import Aifluxon.Core.Encoding
import Aifluxon.Core.Entries
import Aifluxon.Core.Json
import Aifluxon.Core.Message
import Aifluxon.Core.Run
import Aifluxon.Core.Schema
import Aifluxon.Core.Uuid
import Aifluxon.Lib.BoundedQueue
import Aifluxon.Lib.Cooperation
import Aifluxon.Lib.HashMap
import Aifluxon.Lib.Incremental
import Aifluxon.Lib.Machine
import Aifluxon.Lib.OnceMap
import Aifluxon.Lib.Pairing
import Aifluxon.Lib.Procedure
import Aifluxon.Lib.Retrying
import Aifluxon.Lib.SealedLog
import Aifluxon.Lib.TagReading
import Aifluxon.Lib.TagScan
import Aifluxon.Lib.Wakeups
import Aifluxon.Lib.Worklist
import Aifluxon.Providers.Attempts
import Aifluxon.Providers.Bodies
import Aifluxon.Providers.BufferedResponses
import Aifluxon.Providers.CacheMarkers
import Aifluxon.Providers.CachePasses
import Aifluxon.Providers.ChatCompletions
import Aifluxon.Providers.ChatMessages
import Aifluxon.Providers.ChatTexts
import Aifluxon.Providers.Chunking
import Aifluxon.Providers.Cumulative
import Aifluxon.Providers.Decoding
import Aifluxon.Providers.Decorate
import Aifluxon.Providers.DecoratedBodies
import Aifluxon.Providers.Deliveries
import Aifluxon.Providers.Delta
import Aifluxon.Providers.DoneEvents
import Aifluxon.Providers.Effects
import Aifluxon.Providers.Efforts
import Aifluxon.Providers.ExtraContent
import Aifluxon.Providers.Families
import Aifluxon.Providers.Fragments
import Aifluxon.Providers.Gemini
import Aifluxon.Providers.HttpRequests
import Aifluxon.Providers.KeptIdentities
import Aifluxon.Providers.LawfulCalls
import Aifluxon.Providers.Lifecycle
import Aifluxon.Providers.MarkedThoughts
import Aifluxon.Providers.NextTurn
import Aifluxon.Providers.ProviderTurns
import Aifluxon.Providers.Reading
import Aifluxon.Providers.ReasoningOrder
import Aifluxon.Providers.Redaction
import Aifluxon.Providers.Redelivery
import Aifluxon.Providers.Reliability
import Aifluxon.Providers.Responses
import Aifluxon.Providers.SameTurn
import Aifluxon.Providers.SentEfforts
import Aifluxon.Providers.SentEvents
import Aifluxon.Providers.SessionBodies
import Aifluxon.Providers.Sizes
import Aifluxon.Providers.Sse
import Aifluxon.Providers.SseStart
import Aifluxon.Providers.StreamedText
import Aifluxon.Providers.Streaming
import Aifluxon.Providers.Summaries
import Aifluxon.Providers.ThinkTags
import Aifluxon.Providers.Thoughts
import Aifluxon.Providers.ToolDeltas
import Aifluxon.Providers.ToolEntries
import Aifluxon.Providers.ToolIdentity
import Aifluxon.Providers.ToolPairs
import Aifluxon.Providers.ToolRuns
import Aifluxon.Providers.ToolSlots
import Aifluxon.Providers.Truncation
import Aifluxon.Providers.Utf8
import Aifluxon.Providers.Utf8Chunks
import Aifluxon.Providers.Verdicts
import Aifluxon.Runtime.AgentStep
import Aifluxon.Runtime.Awaiting
import Aifluxon.Runtime.Batches
import Aifluxon.Runtime.Budget
import Aifluxon.Runtime.CancelTree
import Aifluxon.Runtime.CancellationToken
import Aifluxon.Runtime.Context
import Aifluxon.Runtime.Continuation
import Aifluxon.Runtime.Coordinator
import Aifluxon.Runtime.EventLog
import Aifluxon.Runtime.Finish
import Aifluxon.Runtime.Gate
import Aifluxon.Runtime.GateLaws
import Aifluxon.Runtime.HeldOperations
import Aifluxon.Runtime.JsonStore
import Aifluxon.Runtime.Lifecycle
import Aifluxon.Runtime.Objects
import Aifluxon.Runtime.Once
import Aifluxon.Runtime.OperationWaits
import Aifluxon.Runtime.Operations
import Aifluxon.Runtime.PlainLoop
import Aifluxon.Runtime.ProviderFiles
import Aifluxon.Runtime.Records
import Aifluxon.Runtime.Rounds
import Aifluxon.Runtime.RunRecord
import Aifluxon.Runtime.RunTable
import Aifluxon.Runtime.SaveErrors
import Aifluxon.Runtime.SessionCalls
import Aifluxon.Runtime.SessionRefinement
import Aifluxon.Runtime.Skills
import Aifluxon.Runtime.StaleSaves
import Aifluxon.Runtime.State
import Aifluxon.Runtime.TableCalls
import Aifluxon.Runtime.Tools
import Aifluxon.Runtime.Transcript
