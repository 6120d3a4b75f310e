import DealFinder.Math.Dict
import DealFinder.Math.Machine
import DealFinder.Math.SlidingWindow
import DealFinder.Math.Rank
import DealFinder.Limits.Ratelimit
import DealFinder.Limits.Table
import DealFinder.Limits.Check
import DealFinder.Limits.Runs
import DealFinder.Limits.Bound
import DealFinder.Limits.RetryAfter
import DealFinder.Limits.Reference
import DealFinder.Auth.Jwks
import DealFinder.Auth.JwksSound
import DealFinder.Auth.Threads
import DealFinder.Auth.Budget
import DealFinder.Auth.Linear
import DealFinder.Math.Transaction
import DealFinder.Deploy.Migrate
import DealFinder.Deploy.MigrateAtomic
import DealFinder.Math.Text
import DealFinder.Math.PercentCoding
import DealFinder.Deploy.Secrets
import DealFinder.Deploy.LoginRole
import DealFinder.Deploy.Agreement
import DealFinder.Math.Grouping
import DealFinder.Math.UnionFind
import DealFinder.Math.Pattern
import DealFinder.Shop.Product
import DealFinder.Shop.Dedup
import DealFinder.Shop.Licensing
import DealFinder.Shop.Aggregate
import DealFinder.Math.Joined
import DealFinder.Shop.Score
import DealFinder.Shop.Search
import DealFinder.Shop.Features
import DealFinder.Shop.Unmixed
import DealFinder.Shop.Embedded
import DealFinder.Shop.Calls
import DealFinder.Shop.Enough
import DealFinder.Shop.Blind
import DealFinder.Shop.Breaker
import DealFinder.Deploy.Merges
import DealFinder.Deploy.LostUpdate
import DealFinder.Math.Noninterference
import DealFinder.Math.RowSecurity
import DealFinder.Store.Database
import DealFinder.Store.Pgstore
import DealFinder.Store.Userstore
import DealFinder.Store.Retention
import DealFinder.Store.Pool
import DealFinder.Store.Isolation
import DealFinder.Store.Changes
import DealFinder.Store.Expiry
import DealFinder.Store.Writes
import DealFinder.Store.Freshness
import DealFinder.Store.Vectors
import DealFinder.Store.Provenance
import DealFinder.Math.ReadCommitted
import DealFinder.Math.RelyGuarantee
import DealFinder.Store.Scripts
import DealFinder.Store.Caps
import DealFinder.Edge.Worker
import DealFinder.Edge.Tasks
import DealFinder.Edge.NoLeak
import DealFinder.Worker.Retrieval
import DealFinder.Math.Traverse
import DealFinder.Worker.Bm25
import DealFinder.Math.Leading
import DealFinder.Worker.Ndcg
import DealFinder.Worker.Suggestions
import DealFinder.Worker.TrapGate
import DealFinder.Worker.Notified
import DealFinder.Math.Lru
import DealFinder.Cache.Embeddings
import DealFinder.Cache.Ebay
import DealFinder.Math.ParentArray
import DealFinder.Shop.Components
import DealFinder.Shop.Objects
import DealFinder.Shop.Rounding
import DealFinder.Shop.Peers
import DealFinder.Shop.Trust
import DealFinder.Shop.Check
import DealFinder.Math.Regex
import DealFinder.Math.Reads
import DealFinder.Math.Substitution
import DealFinder.Math.Runs
import DealFinder.Rag.Language
import DealFinder.Rag.Items
import DealFinder.Rag.Prices
import DealFinder.Rag.Grounding
import DealFinder.Rag.Synthesis
import DealFinder.Rag.Faithful
import DealFinder.Rag.Lead
import DealFinder.Rag.Orchestrate
import DealFinder.Math.Retry
import DealFinder.Rag.Answer
import DealFinder.Rag.Agentic
import DealFinder.Feeds.Float
import DealFinder.Feeds.Json
import DealFinder.Feeds.Sources
import DealFinder.Feeds.Ebay
import DealFinder.Feeds.Lookup
import DealFinder.Feeds.Prices
import DealFinder.Math.Precedence
import DealFinder.Worker.Dominance
import DealFinder.Pipeline.Contract
import DealFinder.Pipeline.Dataset
import DealFinder.Math.Csv
import DealFinder.Pipeline.Deals
import DealFinder.Math.FirstLeast
import DealFinder.Pipeline.Catalog
import DealFinder.Pipeline.Ingest
import DealFinder.Feeds.JsonText
import DealFinder.Feeds.Nearest
import DealFinder.Math.Numeral
import DealFinder.Feeds.Decimal
import DealFinder.Feeds.JsonWrite
import DealFinder.Agent.Reply
import DealFinder.Math.FormText
import DealFinder.Edge.Key
import DealFinder.Math.UrlParts
import DealFinder.Edge.Forward
import DealFinder.Agent.Sql
import DealFinder.Agent.Question
import DealFinder.Agent.Meaning
import DealFinder.Math.EditDistance
import DealFinder.Safety.Typosquat
import DealFinder.Math.Packing
import DealFinder.Agent.Context
import DealFinder.Agent.Edges
import DealFinder.Safety.Abuse
import DealFinder.Safety.Redact
import DealFinder.Billing.Webhook
import DealFinder.Shop.Slug
import DealFinder.Math.LogSpread
import DealFinder.Ops.Drift
import DealFinder.Math.IpAddress
import DealFinder.Limits.ClientKey
import DealFinder.Math.Frames
import DealFinder.Pipeline.Stream
import DealFinder.Pipeline.Split
import DealFinder.Limits.Memory
import DealFinder.Limits.Remaining
import DealFinder.Limits.Rounded
import DealFinder.Math.Threads
import DealFinder.Serve.Once
import DealFinder.Agent.React
import DealFinder.Serve.Ready
import DealFinder.Serve.Accounts
import DealFinder.Serve.Unaware
import DealFinder.Serve.Accepted
import DealFinder.Math.LeastSquares
import DealFinder.Shop.LinearModel
import DealFinder.Agent.RunAgent
import DealFinder.Deploy.Commands
import DealFinder.Deploy.Startup
import DealFinder.Serve.Front
import DealFinder.Math.Html
import DealFinder.Lab.Cards
import DealFinder.Safety.DataSubjects
import DealFinder.Math.Net
import DealFinder.Cache.Semantic
import DealFinder.Shop.Enabled
import DealFinder.Math.Cascade
import DealFinder.Agent.Chat
import DealFinder.Ops.CostCheck
import DealFinder.Site.CheckPage
