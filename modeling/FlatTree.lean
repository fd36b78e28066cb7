import FlatTree.Markup.Load
import FlatTree.NodeTree.Table
import FlatTree.Proofs.Flat.ElementPositions
import FlatTree.Proofs.Flat.Expansion
import FlatTree.Proofs.Flat.Traversal
import FlatTree.Proofs.Markup.Preservation
import FlatTree.Proofs.Query.Outcome
import FlatTree.Proofs.Query.Session
import FlatTree.Proofs.Selector.Composition
import FlatTree.Proofs.Selector.FaultPlaces
import FlatTree.Proofs.Selector.NestingDepth
import FlatTree.Proofs.Selector.Placement
import FlatTree.Proofs.Store.Agreement
import FlatTree.Proofs.Store.DocumentRoot
import FlatTree.Proofs.Store.Fallback
import FlatTree.Proofs.Store.Flattening
import FlatTree.Proofs.Store.Listings
import FlatTree.Proofs.Store.Lookup
import FlatTree.Proofs.Store.Moves
import FlatTree.Proofs.Store.Nearest
import FlatTree.Proofs.Store.PlainMeaning
import FlatTree.Proofs.Store.PreviousElements
import FlatTree.Proofs.Store.Selection
import FlatTree.Proofs.Store.Termination
import FlatTree.Store.Outline
