import CiteVyn.Lib.Scan
import CiteVyn.Text.Python
import CiteVyn.Llm.Markers
import CiteVyn.Llm.Groups
import CiteVyn.Llm.Evidence
import CiteVyn.Llm.Validation
import CiteVyn.Answer.Citations
import CiteVyn.Answer.Orchestrator
import CiteVyn.Mcp.Clean
import CiteVyn.Lib.Cuts
import CiteVyn.Mcp.Frame
import CiteVyn.Mcp.Links
import CiteVyn.Lib.Locks
import CiteVyn.Lib.Runs
import CiteVyn.Services.IndexVersions
import CiteVyn.Worker.Parser
import CiteVyn.Worker.Runner
import CiteVyn.Worker.Drive
import CiteVyn.Worker.Corpus
import CiteVyn.Cache.Freshness
import CiteVyn.Billing.Entitlement
import CiteVyn.Lib.Threads
import CiteVyn.Billing.Webhook
import CiteVyn.Cost.Admission
import CiteVyn.Llm.Clients
import CiteVyn.Embeddings.Clients
import CiteVyn.Cost.Metered
import CiteVyn.Core.Logging
import CiteVyn.Auth.Identities
import CiteVyn.Auth.AuthSessions
import CiteVyn.Auth.OAuth
import CiteVyn.Auth.Ownership
import CiteVyn.Lib.Vouchers
import CiteVyn.Auth.StepUp
import CiteVyn.Access.Pow
import CiteVyn.Access.BotCheck
import CiteVyn.Lib.SlidingWindow
import CiteVyn.Core.RateLimit
import CiteVyn.Watch.Diff
import CiteVyn.Watch.Runner
import CiteVyn.Api.Shares
import CiteVyn.Lib.Claims
import CiteVyn.Services.Alerts
import CiteVyn.Services.Digest
import CiteVyn.Services.DigestCoverage
import CiteVyn.Access.Asking
import CiteVyn.Services.AccountDeletion
import CiteVyn.Access.Trial
import CiteVyn.Frontend.AuthStore
import CiteVyn.Frontend.Landing
import CiteVyn.Lib.Backtrack
import CiteVyn.Worker.ExactTerms
import CiteVyn.Worker.Ingestion
import CiteVyn.Text.CodePoints
import CiteVyn.Text.Json
import CiteVyn.Mcp.Server
import CiteVyn.Lib.Markup
import CiteVyn.Services.SharedAnswerPage
import CiteVyn.Frontend.AnswerFormat
import CiteVyn.Frontend.SharedMarkers
import CiteVyn.Guardrails.Domain
import CiteVyn.Frontend.CitevynAliases
import CiteVyn.Frontend.CitedNumbers
import CiteVyn.Lib.Rewrite
import CiteVyn.Llm.CodeModes
import CiteVyn.Llm.Expansion
import CiteVyn.Llm.Lookahead
import CiteVyn.Llm.Lookbehind
import CiteVyn.Llm.Rewording
import CiteVyn.Llm.PassOrder
import CiteVyn.Llm.Refusals
import CiteVyn.Lib.OrderBy
import CiteVyn.Services.IndexResolution
import CiteVyn.Services.PromotionHistory
import CiteVyn.Services.EvaluationRuns
import CiteVyn.Worker.PromotionEval
import CiteVyn.Worker.EvaluationPointer
import CiteVyn.Worker.PromotionEvidence
import CiteVyn.Retrieval.Degrade
import CiteVyn.Guardrails.Products
import CiteVyn.Answer.Memory
import CiteVyn.Answer.Routing
import CiteVyn.Watch.Changes
import CiteVyn.Access.Issued
import CiteVyn.Billing.StripeSignature
import CiteVyn.Access.Header
import CiteVyn.Services.PromotionGate
import CiteVyn.Lib.Marks
import CiteVyn.Mcp.Urls
import CiteVyn.Mcp.Markup
import CiteVyn.Llm.Blocks
import CiteVyn.Text.Decoded
import CiteVyn.Embeddings.Replies
import CiteVyn.Answer.CacheKey
import CiteVyn.Lib.Firsts
import CiteVyn.Retrieval.Merge
import CiteVyn.Retrieval.RoundRobin
import CiteVyn.Retrieval.Corpus
import CiteVyn.Retrieval.Exact
import CiteVyn.Lib.Like
import CiteVyn.Retrieval.Keyword
import CiteVyn.Retrieval.Evidence
import CiteVyn.Embeddings.Order
import CiteVyn.Lib.Phrases
import CiteVyn.Guardrails.Wordings
import CiteVyn.Guardrails.Named
import CiteVyn.Guardrails.Canonical
import CiteVyn.Answer.FollowUps
import CiteVyn.Core.Redaction
import CiteVyn.Frontend.AnswerSpans
import CiteVyn.Text.Dates
import CiteVyn.Worker.Fingerprint
import CiteVyn.Worker.TermRows
import CiteVyn.Access.DailyUsage
import CiteVyn.Llm.Reachable
import CiteVyn.Services.AboutPage
import CiteVyn.Services.AboutAnchors
import CiteVyn.Lib.OwnerLocks
import CiteVyn.Access.ApiKeys
import CiteVyn.Api.Watches
import CiteVyn.Watch.Fetch
import CiteVyn.Frontend.Toasts
import CiteVyn.Lib.Lines
import CiteVyn.Api.Export
import CiteVyn.Text.Hex
import CiteVyn.Services.Unsubscribe
import CiteVyn.Services.OptOut
import CiteVyn.Lib.Leases
import CiteVyn.Embeddings.QueryHealth
import CiteVyn.Api.Feedback
