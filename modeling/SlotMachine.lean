import SlotMachine.Catalog.Binding
import SlotMachine.Catalog.Disposition
import SlotMachine.Catalog.Footprint
import SlotMachine.Catalog.History
import SlotMachine.Catalog.KeyLength
import SlotMachine.Catalog.Refund
import SlotMachine.Catalog.RefundSafety
import SlotMachine.Catalog.Register
import SlotMachine.Catalog.Registry
import SlotMachine.Catalog.Types
import SlotMachine.Catalog.Uniqueness
import SlotMachine.Chain.ActionLayer
import SlotMachine.Chain.CatLayer
import SlotMachine.Chain.Condition
import SlotMachine.Chain.Consensus
import SlotMachine.Chain.Encoding
import SlotMachine.Chain.Lineage
import SlotMachine.Chain.Maturity
import SlotMachine.Chain.TopLayer
import SlotMachine.Chialisp.Catalog
import SlotMachine.Chialisp.Coins
import SlotMachine.Chialisp.Expire
import SlotMachine.Chialisp.Include
import SlotMachine.Chialisp.Oracle
import SlotMachine.Chialisp.Pricing
import SlotMachine.Chialisp.Refund
import SlotMachine.Chialisp.Singleton
import SlotMachine.Chialisp.Xchandles
import SlotMachine.Cli.Amount
import SlotMachine.Cli.Deployment
import SlotMachine.Cli.Derivations
import SlotMachine.Cli.Outcome
import SlotMachine.Cli.RewardSlot
import SlotMachine.Clvm.Curry
import SlotMachine.Clvm.Extension
import SlotMachine.Clvm.Machine
import SlotMachine.Clvm.Program
import SlotMachine.Clvm.Sha256
import SlotMachine.Clvm.Transcript
import SlotMachine.Clvm.TreeHash
import SlotMachine.Clvm.Value
import SlotMachine.Datastore.Merkle
import SlotMachine.Ledger.Baton
import SlotMachine.Ledger.FixedPoint
import SlotMachine.Ledger.Journal
import SlotMachine.Ledger.Loop
import SlotMachine.Ledger.MerkleProof
import SlotMachine.Ledger.MerkleTree
import SlotMachine.Ledger.Paging
import SlotMachine.Ledger.Retention
import SlotMachine.Ledger.Rewriting
import SlotMachine.Ledger.Settlement
import SlotMachine.Ledger.SortedList
import SlotMachine.Ledger.Table
import SlotMachine.Ledger.Tiling
import SlotMachine.Ledger.Trail
import SlotMachine.Listener.ActionLog
import SlotMachine.Listener.AuctionPricing
import SlotMachine.Listener.BlockFollow
import SlotMachine.Listener.CatchUp
import SlotMachine.Listener.Cursor
import SlotMachine.Listener.Directory
import SlotMachine.Listener.Discovery
import SlotMachine.Listener.Expiring
import SlotMachine.Listener.Following
import SlotMachine.Listener.HandleGrammar
import SlotMachine.Listener.HandleStore
import SlotMachine.Listener.History
import SlotMachine.Listener.Listing
import SlotMachine.Listener.Mutation
import SlotMachine.Listener.PendingStore
import SlotMachine.Listener.PriceSchedule
import SlotMachine.Listener.Projection
import SlotMachine.Listener.RecordStore
import SlotMachine.Listener.ReferenceCounts
import SlotMachine.Listener.References
import SlotMachine.Listener.RegistrationStore
import SlotMachine.Listener.RegistryBatch
import SlotMachine.Listener.Reorg
import SlotMachine.Listener.Rollback
import SlotMachine.Listener.SingletonRollback
import SlotMachine.Listener.SingletonStore
import SlotMachine.Listener.Statistics
import SlotMachine.Onchain.Commitments
import SlotMachine.Onchain.Handles
import SlotMachine.Onchain.Payments
import SlotMachine.Onchain.Redemption
import SlotMachine.Onchain.Refinement
import SlotMachine.Onchain.Registry
import SlotMachine.Onchain.Schedule
import SlotMachine.Onchain.Slots
import SlotMachine.Onchain.Spends
import SlotMachine.Puzzles.CatMaker
import SlotMachine.Puzzles.DelegatedState
import SlotMachine.Puzzles.ExponentialPremium
import SlotMachine.Puzzles.FactorPricing
import SlotMachine.Puzzles.NftPack
import SlotMachine.Puzzles.Precommit
import SlotMachine.Puzzles.PremiumCurve
import SlotMachine.Puzzles.Slot
import SlotMachine.Puzzles.StateScheduler
import SlotMachine.Rue.Catalog
import SlotMachine.Rue.Coins
import SlotMachine.Rue.Library
import SlotMachine.Rue.Pricing
import SlotMachine.Rue.Refund
import SlotMachine.Rue.Singleton
import SlotMachine.Rue.Xchandles
import SlotMachine.Singleton.Action
import SlotMachine.Singleton.Conservation
import SlotMachine.Singleton.Continuity
import SlotMachine.Singleton.Contract
import SlotMachine.Singleton.Finalizer
import SlotMachine.Singleton.MerkleUtils
import SlotMachine.Singleton.Reserve
import SlotMachine.Sync.Catalog
import SlotMachine.Sync.CatalogMirror
import SlotMachine.Sync.CatalogTables
import SlotMachine.Sync.Database
import SlotMachine.Sync.Handles
import SlotMachine.Sync.Issued
import SlotMachine.Sync.Mirror
import SlotMachine.Sync.Progress
import SlotMachine.Sync.Resync
import SlotMachine.Sync.Walk
import SlotMachine.Sync.Xchandles
import SlotMachine.Verification.Offer
import SlotMachine.Verification.Puzzles
import SlotMachine.Xchandles.Binding
import SlotMachine.Xchandles.Disposition
import SlotMachine.Xchandles.Expiration
import SlotMachine.Xchandles.Expire
import SlotMachine.Xchandles.Extend
import SlotMachine.Xchandles.Footprint
import SlotMachine.Xchandles.Ownership
import SlotMachine.Xchandles.Precommit
import SlotMachine.Xchandles.Refund
import SlotMachine.Xchandles.RefundCompleteness
import SlotMachine.Xchandles.RefundSafety
import SlotMachine.Xchandles.Register
import SlotMachine.Xchandles.Registry
import SlotMachine.Xchandles.Timelock
import SlotMachine.Xchandles.Types
import SlotMachine.Xchandles.Uniqueness
import SlotMachine.Xchandles.Update
import SlotMachine.Xchandles.Usability
