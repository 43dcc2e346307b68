import BracketChain.Runs
import BracketChain.Program
import BracketChain.Orphans
import BracketChain.PublicDraw
import BracketChain.Consent
import BracketChain.Irrevocable
import BracketChain.Tree
import BracketChain.Justification
import BracketChain.Isolation
import BracketChain.Funding
import BracketChain.Disputes
import BracketChain.Reveals
import BracketChain.Feeds
import BracketChain.Confluence
import BracketChain.Prizes
import BracketChain.Consistency
import BracketChain.Backstop
import BracketChain.ChunkedStart
import BracketChain.Accounting
import BracketChain.Thresholds
import BracketChain.Stranded
import BracketChain.Donations
import BracketChain.Splits
import BracketChain.Byes
import BracketChain.OracleValue
import BracketChain.Attestations
import BracketChain.Reclaim
import BracketChain.Replay
import BracketChain.Balance
import BracketChain.Primitives
import BracketChain.Conservation
import BracketChain.Authority
import BracketChain.Playable
import BracketChain.Payable
import BracketChain.Completion
import BracketChain.Unwinding
import BracketChain.Rent
import BracketChain.Closing
import BracketChain.Surplus
