import StratumApps.JobDeclaratorServer.Solutions
import StratumApps.JobDeclaratorServer.Panics
import StratumApps.JobDeclaratorServer.Counters
import StratumApps.JobDeclaratorServer.Submissions
import StratumApps.JobDeclaratorServer.Rejections
import StratumApps.Pool.Shutdown
import StratumApps.Pool.CustomWork
import StratumApps.Pool.Exits
import StratumApps.Pool.Shares
import StratumApps.Pool.Opening
import StratumApps.Pool.Announcements
import StratumApps.Pool.Tasks
import StratumApps.Persistence.Composite
import StratumApps.Persistence.Wiring
import StratumApps.Tasks.Listener
import StratumApps.BitcoinCore.Tips
import StratumApps.BitcoinCore.Shutdown
import StratumApps.BitcoinCore.Staleness
import StratumApps.JobDeclaratorClient.Supervision
import StratumApps.JobDeclaratorClient.Tolerance
import StratumApps.JobDeclaratorClient.Translation
import StratumApps.JobDeclaratorClient.Pending
import StratumApps.JobDeclaratorClient.Tokens
import StratumApps.JobDeclaratorClient.Aggregates
import StratumApps.JobDeclaratorClient.Prefixes
import StratumApps.JobDeclaratorClient.Outputs
import StratumApps.JobDeclaratorClient.FirstJob
import StratumApps.JobDeclaratorClient.Sizes
import StratumApps.JobDeclaratorClient.Constraints
import StratumApps.Translator.Panics
import StratumApps.Translator.Mirror
import StratumApps.Translator.Shares
import StratumApps.Translator.Sv1.Routing
import StratumApps.Translator.Sv1.Tips
import StratumApps.Translator.Sv1.Headers
import StratumApps.Translator.Sv1.Handshake
import StratumApps.Translator.Sv1.Difficulty
import StratumApps.Lib.Deferral
import StratumApps.Translator.Sv1.Course
import StratumApps.Translator.Sv1.Requests
import StratumApps.Translator.Sv1.Shutdowns
import StratumApps.Translator.Sessions
import StratumApps.Negotiation.Exchange
import StratumApps.Negotiation.Enforcement
import StratumApps.Declaration.Exchange
import StratumApps.JobDeclaratorClient.Channels
import StratumApps.Translator.Sv1.Decisions
import StratumApps.Pool.Updates
import StratumApps.MiningDevice.Mining
import StratumApps.MiningDevice.Jobs
import StratumApps.Network.Reads
import StratumApps.Network.Writes
import StratumApps.Persistence.Durable
import StratumApps.JobDeclaratorClient.Activation
import StratumApps.Network.Delivery
import StratumApps.JobDeclaratorClient.Attribution
import StratumApps.Provision.Inquiries
import StratumApps.Declaration.Agreement
import StratumApps.Declaration.Blocks
import StratumApps.Pool.Refusals
