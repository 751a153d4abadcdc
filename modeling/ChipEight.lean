import ChipEight.Machine
import ChipEight.Picture.Palette
import ChipEight.Proofs.Lemmas.Effect
import ChipEight.Settings.Load
import ChipEight.Proofs.Lemmas.Step
import ChipEight.Proofs.Faults
import ChipEight.Proofs.SingleSteps
import ChipEight.Proofs.Lemmas.Instr
import ChipEight.Proofs.Lemmas.MessagePack
import ChipEight.Proofs.Lemmas.Tensor
import ChipEight.Proofs.Lemmas.Snapshot
import ChipEight.Proofs.Reachable
import ChipEight.Proofs.HostCalls
import ChipEight.Proofs.Footprint
import ChipEight.Proofs.Lemmas.Aside
import ChipEight.Proofs.Dialects
import ChipEight.Proofs.Lemmas.Event
import ChipEight.Proofs.Inputs
import ChipEight.Proofs.Lemmas.CallStack
import ChipEight.Proofs.Subroutines
import ChipEight.Proofs.Draws
import ChipEight.Proofs.Restored
import ChipEight.Proofs.RandomNumbers
import ChipEight.Proofs.Lemmas.Screen
import ChipEight.Proofs.Sprites
import ChipEight.Proofs.Standstill
import ChipEight.Proofs.Transfers
import ChipEight.Proofs.Loading
import ChipEight.Proofs.Lemmas.Assembly
import ChipEight.Proofs.Histories
import ChipEight.Proofs.Progress
import ChipEight.Proofs.Overlays
import ChipEight.Proofs.Arithmetic
import ChipEight.Proofs.KeyWait
import ChipEight.Proofs.Keys
import ChipEight.Proofs.Lemmas.Numeral
import ChipEight.Proofs.Disassembly
import ChipEight.Proofs.Lemmas.Block
import ChipEight.Proofs.Pictures
import ChipEight.Proofs.Truncation
import ChipEight.Proofs.LogLines
import ChipEight.Proofs.Lemmas.Named
import ChipEight.Proofs.Lemmas.Overrides
import ChipEight.Proofs.Lemmas.Flags
import ChipEight.Proofs.Precedence
