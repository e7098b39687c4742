import AtmController.Lib.Clocked
import AtmController.Lib.Slice
import AtmController.Lib.MoveToFront
import AtmController.Frontend.Cipher
import AtmController.Frontend.NoteAllocator
import AtmController.Frontend.Allocation
import AtmController.Frontend.AllocatorRuns
import AtmController.Frontend.Debouncer
import AtmController.Frontend.FilterLaw
import AtmController.Frontend.Registers
import AtmController.Frontend.StockSafety
import AtmController.Frontend.OfflineWithdrawals
import AtmController.Frontend.CacheUpdate
import AtmController.Frontend.CachedLimits
import AtmController.Frontend.Residents
import AtmController.Frontend.Configured
import AtmController.Frontend.Isolation
import AtmController.Frontend.AnswerTiming
import AtmController.Frontend.Rotation
import AtmController.Frontend.OwnBank
import AtmController.Frontend.Transaction
import AtmController.Frontend.Pulses
import AtmController.Backend.Wire
import AtmController.Backend.Reassembly
import AtmController.Backend.Database
import AtmController.Backend.Authentication
import AtmController.Backend.Loading
import AtmController.System.WireFormat
import AtmController.System.ShownRecord
import AtmController.System.Configuration
import AtmController.System.ReplyIntegrity
import AtmController.System.EmptySlot
import AtmController.System.OnlineTransaction
import AtmController.Backend.Balances
import AtmController.System.Keypad
import AtmController.Link.EndToEnd
import AtmController.Link.Borrowed
import AtmController.Link.Usage
import AtmController.System.Refinement
import AtmController.Backend.Process
import AtmController.System.Persistence
import AtmController.Frontend.Stays
import AtmController.Frontend.BackToReady
