import Pipekeep.Laws.Supersession
import Pipekeep.Laws.Cancellation
import Pipekeep.Laws.Buffered
import Pipekeep.Laws.LiveExits
import Pipekeep.Laws.Retention
import Pipekeep.Laws.ReplayEnd
import Pipekeep.Laws.Honest
import Pipekeep.Laws.Slots
import Pipekeep.Laws.Tail
import Pipekeep.Laws.OuterInput
import Pipekeep.Laws.Hardened
import Pipekeep.Laws.Wire
import Pipekeep.Laws.Requests
import Pipekeep.Laws.Attempts
import Pipekeep.Laws.Wake
import Pipekeep.Laws.StdinFrames
import Pipekeep.Laws.RelayRuns
import Pipekeep.Laws.InputBuffer
import Pipekeep.Laws.Fairness
import Pipekeep.Laws.Expiry
import Pipekeep.Laws.Retries
import Pipekeep.Laws.ServerError
import Pipekeep.Laws.Startup
import Pipekeep.Laws.Receipts
import Pipekeep.Laws.Arms
import Pipekeep.Laws.Deadlines
import Pipekeep.Laws.OpeningLine
import Pipekeep.Laws.PassageFlow
import Pipekeep.Laws.Ordinary
import Pipekeep.Laws.Changed
import Pipekeep.Laws.Sending
