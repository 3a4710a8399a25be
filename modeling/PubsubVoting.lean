import PubsubVoting.Chain.CoalescerBudget
import PubsubVoting.Chain.CoalescerRuns
import PubsubVoting.Checkpoint.Codec
import PubsubVoting.Checkpoint.Snapshot
import PubsubVoting.Client.Attribution
import PubsubVoting.Client.CatchUp
import PubsubVoting.Client.ChaseAdmission
import PubsubVoting.Client.Checks
import PubsubVoting.Client.ContestRules
import PubsubVoting.Client.Eligibility
import PubsubVoting.Client.FailedEncode
import PubsubVoting.Client.HeadReader
import PubsubVoting.Client.Heartbeat
import PubsubVoting.Client.Lifecycle
import PubsubVoting.Client.Publication
import PubsubVoting.Client.Ranking
import PubsubVoting.Client.RootPullerRuns
import PubsubVoting.Client.SignVote
import PubsubVoting.Client.SnapshotWrite
import PubsubVoting.Client.TallyRefresh
import PubsubVoting.Crdt.Convergence
import PubsubVoting.Rules.Asking
import PubsubVoting.Rules.BatchedRules
import PubsubVoting.Rules.CacheRuns
import PubsubVoting.Rules.MemoMany
import PubsubVoting.Rules.Nesting
import PubsubVoting.Rules.Penalize
import PubsubVoting.Rules.SoulboundMemo
import PubsubVoting.Schema.GateGrammar
import PubsubVoting.Storage.BrowserRaces
import PubsubVoting.Storage.NodeLru
import PubsubVoting.Tally.Names
import PubsubVoting.Transport.Announcer
import PubsubVoting.Transport.Chase
import PubsubVoting.Transport.ChaseOutcomes
import PubsubVoting.Transport.ChaseSlots
import PubsubVoting.Transport.FifoCaches
import PubsubVoting.Transport.GossipValidator
import PubsubVoting.Transport.Messages
import PubsubVoting.Transport.RateLimit
import PubsubVoting.Verify.Binding
import PubsubVoting.Verify.Malleability
import PubsubVoting.Verify.NameCache
import PubsubVoting.Verify.NamePreflight
