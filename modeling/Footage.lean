import Footage.Main
import Footage.Store.Dynamo.Backend
import Footage.Archive
import Footage.Proofs.Merge
import Footage.Proofs.Partitions
import Footage.Proofs.Boundary
import Footage.Proofs.Period
import Footage.Proofs.Follow
import Footage.Proofs.Alike
import Footage.Proofs.Requests
import Footage.Proofs.Isolation
import Footage.Proofs.Json.Numeral
import Footage.Proofs.Json.Spelling
import Footage.Proofs.Json.Lexing
import Footage.Proofs.Json.Reading
import Footage.Proofs.Json.Fields
import Footage.Proofs.Text.Base64Url
import Footage.Proofs.Token
import Footage.Proofs.Binding
import Footage.Proofs.Store.Reads
import Footage.Proofs.Store.Sweep
import Footage.Proofs.Store.Parts
import Footage.Proofs.Store.OrderedMap
import Footage.Proofs.Store.Dynamo.Decoding
import Footage.Proofs.Store.Dynamo.Wire
import Footage.Proofs.Store.Dynamo.Table
import Footage.Proofs.Store.Dynamo.Shelf
import Footage.Proofs.Store.Dynamo.Agreement
import Footage.Proofs.Store.Dynamo.Echo
import Footage.Proofs.Rollup.Items
import Footage.Proofs.Rollup.Save
import Footage.Proofs.Rollup.History
import Footage.Proofs.Rollup.Ledger
import Footage.Proofs.Rollup.Sound
import Footage.Proofs.Rollup.Events
import Footage.Proofs.Rollup.Order
import Footage.Proofs.Listing.Reads
import Footage.Proofs.Listing.Gather
import Footage.Proofs.Listing.Buckets
import Footage.Proofs.Listing.Page
import Footage.Proofs.Listing.Sound
import Footage.Proofs.Listing.Chain
import Footage.Proofs.Listing.Density
import Footage.Proofs.Listing.Guarded
import Footage.Proofs.Listing.Changing
import Footage.Proofs.Listing.Tokens
import Footage.Proofs.Listing.Outage
import Footage.Proofs.Listing.Full
import Footage.Proofs.Listing.Cuts
import Footage.Proofs.Listing.Regroup
import Footage.Proofs.Distribution
import Footage.Proofs.Archive.Items
import Footage.Proofs.Archive.Save
import Footage.Proofs.Archive.History
import Footage.Proofs.Archive.Reports
import Footage.Proofs.Archive.Listing
import Footage.Proofs.Archive.Promotion
import Footage.Proofs.Saves
import Footage.Proofs.Replay
import Footage.Proofs.Journal
import Footage.Proofs.Forms
