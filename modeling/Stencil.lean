import Stencil.Config.Engine
import Stencil.Proofs.Arithmetic
import Stencil.Proofs.CharacterList
import Stencil.Proofs.Configuration
import Stencil.Proofs.Enclosed
import Stencil.Proofs.EngineCache
import Stencil.Proofs.ErrorDiscipline
import Stencil.Proofs.LineFeeds
import Stencil.Proofs.Loading
import Stencil.Proofs.LoopGivesBack
import Stencil.Proofs.LoopItems
import Stencil.Proofs.PlainText
import Stencil.Proofs.ReadBlocks
import Stencil.Proofs.ReadingEnds
import Stencil.Proofs.Registry
import Stencil.Proofs.Regroup
import Stencil.Proofs.Rewind
import Stencil.Proofs.Precedence
import Stencil.Proofs.Siblings
import Stencil.Proofs.SuffixChain
import Stencil.Proofs.UnreadRun
import Stencil.Proofs.Verbatim
import Stencil.Version
import Stencil.Proofs.Reaches
import Stencil.Proofs.Parts
import Stencil.Proofs.Conditions
import Stencil.Proofs.Parameters
import Stencil.Proofs.ByName
import Stencil.Proofs.RawFailures
import Stencil.Proofs.HostUses
import Stencil.Proofs.Callers
import Stencil.Proofs.GivenBlocks
import Stencil.Proofs.PassedOn
import Stencil.Proofs.ErrorTrace
import Stencil.Proofs.SymmetricEquality
import Stencil.Proofs.ElseIf
import Stencil.Proofs.Delimiters
import Stencil.Proofs.ReferencePlaces
import Stencil.Proofs.ReferenceLines
