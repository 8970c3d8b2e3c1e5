import SpokenArithmetic.Acceptance
import SpokenArithmetic.Grammar
import SpokenArithmetic.Main
import SpokenArithmetic.Proofs.Arity
import SpokenArithmetic.Proofs.Counting
import SpokenArithmetic.Proofs.Definitions
import SpokenArithmetic.Proofs.Derivation
import SpokenArithmetic.Proofs.FirstFault
import SpokenArithmetic.Proofs.FlatCount
import SpokenArithmetic.Proofs.Judgement
import SpokenArithmetic.Proofs.Matching
import SpokenArithmetic.Proofs.Spelling
import SpokenArithmetic.Proofs.Stage
import SpokenArithmetic.Proofs.Cutting
import SpokenArithmetic.Proofs.Placement
import SpokenArithmetic.Proofs.Soundness
import SpokenArithmetic.Proofs.Joining
import SpokenArithmetic.Proofs.Clustering
import SpokenArithmetic.Proofs.Ordering
import SpokenArithmetic.Proofs.Rebuilding
import SpokenArithmetic.Proofs.Composition
import SpokenArithmetic.Proofs.Checks
import SpokenArithmetic.Proofs.Image
import SpokenArithmetic.Proofs.Influence
import SpokenArithmetic.Proofs.SelfReference
import SpokenArithmetic.Proofs.Attribution
import SpokenArithmetic.Proofs.Growth
import SpokenArithmetic.Proofs.Loosening
import SpokenArithmetic.Proofs.Coverage
import SpokenArithmetic.Proofs.Wording
import SpokenArithmetic.Proofs.Decoding
import SpokenArithmetic.Proofs.Sense
import SpokenArithmetic.Proofs.Gaps
import SpokenArithmetic.Proofs.Clearing
import SpokenArithmetic.Proofs.Layout
import SpokenArithmetic.Proofs.Casing
import SpokenArithmetic.Proofs.Conservation
import SpokenArithmetic.Proofs.Overwriting
import SpokenArithmetic.Proofs.Merging
import SpokenArithmetic.Proofs.Keywords
import SpokenArithmetic.Proofs.Resolution
import SpokenArithmetic.Proofs.WholeWords
import SpokenArithmetic.Proofs.Lines
import SpokenArithmetic.Proofs.Numbering
import SpokenArithmetic.Proofs.RightRecursion
