import Chip8.Machine.Call
import Chip8.Main
import Chip8.OperationTable
import Chip8.State.Draft
import Chip8.Workbench
import Chip8.Proofs.Action
import Chip8.Proofs.Effect
import Chip8.Proofs.Cycle
import Chip8.Proofs.Step
import Chip8.Proofs.Reachable
import Chip8.Proofs.Integrity
import Chip8.Proofs.Faults
import Chip8.Proofs.Display
import Chip8.Proofs.KeyWait
import Chip8.Proofs.Halt
import Chip8.Proofs.Outcomes
import Chip8.Proofs.Wrapping
import Chip8.Proofs.Insulation
import Chip8.Proofs.Timers
import Chip8.Proofs.Reset
import Chip8.Proofs.CallStack
import Chip8.Proofs.Flow
import Chip8.Proofs.Turns
import Chip8.Proofs.Runs
import Chip8.Proofs.Listing
import Chip8.Proofs.Made
import Chip8.Proofs.Trace
import Chip8.Proofs.Image
import Chip8.Proofs.Untraced
import Chip8.Proofs.Footprint
import Chip8.Proofs.Arithmetic
import Chip8.Proofs.BlockTransfer
import Chip8.Proofs.Overlay
import Chip8.Proofs.Digits
import Chip8.Proofs.Ring
import Chip8.Proofs.Polling
import Chip8.Proofs.FaultRecords
import Chip8.Proofs.PendingWait
import Chip8.Proofs.Sprite
import Chip8.Proofs.Rounding
import Chip8.Proofs.Stalls
import Chip8.Proofs.ByteStore
import Chip8.Proofs.Loading
import Chip8.Proofs.Picture
import Chip8.Proofs.Unwritten
import Chip8.Proofs.Glyphs
import Chip8.Proofs.RandomBytes
import Chip8.Proofs.SourceText
import Chip8.Proofs.SourceLoading
import Chip8.Proofs.HeldKeys
import Chip8.Proofs.Lettering
import Chip8.Proofs.NewestFirst
import Chip8.Proofs.StillClock
import Chip8.Proofs.CommandReport
import Chip8.Proofs.Throttling
