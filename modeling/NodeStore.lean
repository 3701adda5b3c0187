import NodeStore.Assertion
import NodeStore.Cache.Layout
import NodeStore.Fixture
import NodeStore.Lmdb.Volume
import NodeStore.Protocol.Registry
import NodeStore.Rlp.Scan
import NodeStore.Rlp.Stream
import NodeStore.Settings.Document
import NodeStore.Source.Counted
import NodeStore.Source.Shared
import NodeStore.Source.Switched
import NodeStore.Proofs.Cache.Event
import NodeStore.Proofs.Cache.Effect
import NodeStore.Proofs.Cache.Transparency
import NodeStore.Proofs.Cache.Failure
import NodeStore.Proofs.Cache.Admission
import NodeStore.Proofs.Rlp.Grammar
import NodeStore.Proofs.Rlp.Recognition
import NodeStore.Proofs.Rlp.Encoding
import NodeStore.Proofs.Rlp.Malleability
import NodeStore.Proofs.Cache.Invariant
import NodeStore.Proofs.Cache.Trace
import NodeStore.Proofs.Cache.Balance
import NodeStore.Proofs.Rlp.Nodes
import NodeStore.Proofs.Rlp.Truncation
import NodeStore.Proofs.Cache.Isolation
import NodeStore.Proofs.Cache.Path
import NodeStore.Proofs.Cache.Oblivious
import NodeStore.Proofs.Lmdb.Interchange
import NodeStore.Proofs.Rlp.Shift
import NodeStore.Proofs.Rlp.Blame
import NodeStore.Proofs.Rlp.Streaming
import NodeStore.Proofs.Rlp.Safety
import NodeStore.Proofs.Rlp.Rendering
import NodeStore.Proofs.Rlp.Size
import NodeStore.Proofs.Cache.Headroom
import NodeStore.Proofs.Cache.Algebra
import NodeStore.Proofs.Cache.Rebound
import NodeStore.Proofs.Toml.Spelling
import NodeStore.Proofs.Toml.Space
import NodeStore.Proofs.Toml.Number
import NodeStore.Proofs.Toml.Quoted
import NodeStore.Proofs.Toml.Document
import NodeStore.Proofs.Toml.Outline
import NodeStore.Proofs.Settings.Document
import NodeStore.Proofs.Settings.Usable
import NodeStore.Proofs.Source.Shared
import NodeStore.Proofs.Protocol.Registry
import NodeStore.Proofs.Key
import NodeStore.Proofs.Error
import NodeStore.Proofs.Fixture
