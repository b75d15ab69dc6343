import FilmCatalog.Cache.Config
import FilmCatalog.Cache.Index
import FilmCatalog.Cache.Job
import FilmCatalog.Cache.Key
import FilmCatalog.Cache.Layer
import FilmCatalog.Cache.Memory
import FilmCatalog.Cache.Pool
import FilmCatalog.Cache.Posts
import FilmCatalog.Cache.Probe
import FilmCatalog.Cache.Similar
import FilmCatalog.Cache.System
import FilmCatalog.Catalog.Bench
import FilmCatalog.Catalog.Service
import FilmCatalog.CommandLine.Help
import FilmCatalog.CommandLine.Invocation
import FilmCatalog.CommandLine.Reading
import FilmCatalog.CommandLine.Run
import FilmCatalog.CommandLine.Synopsis
import FilmCatalog.Database.Command
import FilmCatalog.Database.Fault
import FilmCatalog.Database.Posts
import FilmCatalog.Database.Program
import FilmCatalog.Database.Row
import FilmCatalog.Database.Script
import FilmCatalog.Digest.Sha256
import FilmCatalog.Error
import FilmCatalog.Filter.Basic
import FilmCatalog.Filter.Build
import FilmCatalog.Filter.Similarity
import FilmCatalog.Json.Decoder
import FilmCatalog.Json.Document
import FilmCatalog.Json.Value
import FilmCatalog.Listing.Query
import FilmCatalog.Listing.Sql
import FilmCatalog.Main
import FilmCatalog.Number.Double
import FilmCatalog.Number.Layout
import FilmCatalog.Number.Numeral
import FilmCatalog.Number.Shortest
import FilmCatalog.Page.Meta
import FilmCatalog.Page.Url
import FilmCatalog.Post.Author
import FilmCatalog.Post.Basic
import FilmCatalog.Post.Codec
import FilmCatalog.Post.Patch
import FilmCatalog.Post.Submission
import FilmCatalog.Proofs.Cache.Accounting
import FilmCatalog.Proofs.Cache.Background
import FilmCatalog.Proofs.Cache.Books
import FilmCatalog.Proofs.Cache.Call
import FilmCatalog.Proofs.Cache.Counted
import FilmCatalog.Proofs.Cache.Counting
import FilmCatalog.Proofs.Cache.Coverage
import FilmCatalog.Proofs.Cache.Dated
import FilmCatalog.Proofs.Cache.Deadlock
import FilmCatalog.Proofs.Cache.Entry
import FilmCatalog.Proofs.Cache.Errand
import FilmCatalog.Proofs.Cache.Execution
import FilmCatalog.Proofs.Cache.Forgetting
import FilmCatalog.Proofs.Cache.Lapse
import FilmCatalog.Proofs.Cache.Leftover
import FilmCatalog.Proofs.Cache.Lifetime
import FilmCatalog.Proofs.Cache.Lineup
import FilmCatalog.Proofs.Cache.Mishap
import FilmCatalog.Proofs.Cache.Orphan
import FilmCatalog.Proofs.Cache.Overdue
import FilmCatalog.Proofs.Cache.ReadThrough
import FilmCatalog.Proofs.Cache.Recency
import FilmCatalog.Proofs.Cache.Remembering
import FilmCatalog.Proofs.Cache.Requests
import FilmCatalog.Proofs.Cache.Rest
import FilmCatalog.Proofs.Cache.SameRequests
import FilmCatalog.Proofs.Cache.Stripes
import FilmCatalog.Proofs.Cache.Warm
import FilmCatalog.Proofs.Catalog.Paging
import FilmCatalog.Proofs.Database.Creation
import FilmCatalog.Proofs.Database.Disclosure
import FilmCatalog.Proofs.Database.Patching
import FilmCatalog.Proofs.Database.ReadBack
import FilmCatalog.Proofs.Database.Resubmission
import FilmCatalog.Proofs.Database.Session
import FilmCatalog.Proofs.Database.Transaction
import FilmCatalog.Proofs.Filter.Acceptance
import FilmCatalog.Proofs.Filter.Constructed
import FilmCatalog.Proofs.Filter.Contents
import FilmCatalog.Proofs.Filter.Equivalence
import FilmCatalog.Proofs.Filter.Exclusion
import FilmCatalog.Proofs.Filter.Normal
import FilmCatalog.Proofs.Filter.Sets
import FilmCatalog.Proofs.Filter.Similarity
import FilmCatalog.Proofs.Json.Canonical
import FilmCatalog.Proofs.Json.Decoding
import FilmCatalog.Proofs.Json.DoubleText
import FilmCatalog.Proofs.Json.MemberOrder
import FilmCatalog.Proofs.Json.Numeral
import FilmCatalog.Proofs.Json.Reading
import FilmCatalog.Proofs.Json.Schema
import FilmCatalog.Proofs.Json.Stored
import FilmCatalog.Proofs.Listing.Answer
import FilmCatalog.Proofs.Listing.Decoding
import FilmCatalog.Proofs.Listing.Keyset
import FilmCatalog.Proofs.Listing.Page
import FilmCatalog.Proofs.Listing.Selection
import FilmCatalog.Proofs.Listing.TitleSearch
import FilmCatalog.Proofs.Listing.Walk
import FilmCatalog.Proofs.Number.Digits
import FilmCatalog.Proofs.Number.PlainText
import FilmCatalog.Proofs.Number.Shortest
import FilmCatalog.Proofs.Page.Address
import FilmCatalog.Proofs.Page.Query
import FilmCatalog.Proofs.Page.ShownAuthor
import FilmCatalog.Proofs.Post.Author
import FilmCatalog.Proofs.Settings.Resolved
import FilmCatalog.Proofs.Sql.Action
import FilmCatalog.Proofs.Sql.Assembly
import FilmCatalog.Proofs.Sql.Database
import FilmCatalog.Proofs.Sql.Dialect
import FilmCatalog.Proofs.Sql.Effect
import FilmCatalog.Proofs.Sql.Expression
import FilmCatalog.Proofs.Sql.Gathering
import FilmCatalog.Proofs.Sql.Placeholder
import FilmCatalog.Proofs.Sql.Select
import FilmCatalog.Proofs.Sql.Shape
import FilmCatalog.Proofs.Store.Ranking
import FilmCatalog.Proofs.Text.Trim
import FilmCatalog.Proofs.Text.Utf8
import FilmCatalog.Settings.Basic
import FilmCatalog.Settings.Draft
import FilmCatalog.Settings.Files
import FilmCatalog.Settings.Load
import FilmCatalog.Settings.Loose
import FilmCatalog.Settings.Tree
import FilmCatalog.Sql.Fragment
import FilmCatalog.Store.Basic
import FilmCatalog.Store.Ranked
import FilmCatalog.Store.Table
import FilmCatalog.Text.Blank
import FilmCatalog.Text.Hex
import FilmCatalog.Text.Plain
import FilmCatalog.Text.Utf8
