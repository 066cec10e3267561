import Chip8.Main
import Chip8.Display.Host
import Chip8.Proofs.Decoding.Tables
import Chip8.Proofs.Decoding.Variants
import Chip8.Proofs.Decoding.Layers
import Chip8.Proofs.Decoding.Encoding
import Chip8.Proofs.Decoding.Assembler
import Chip8.Proofs.Text.Hex
import Chip8.Proofs.Text.Name
import Chip8.Proofs.CommandLine.Arguments
import Chip8.Proofs.CommandLine.Settings
import Chip8.Proofs.CommandLine.Outcome
import Chip8.Proofs.Display.Planes
import Chip8.Proofs.Memory.Access
import Chip8.Proofs.Machine.Operation
import Chip8.Proofs.Machine.WellFormed
import Chip8.Proofs.Machine.Registers
import Chip8.Proofs.Machine.Footprint
import Chip8.Proofs.Machine.Beat
import Chip8.Proofs.Machine.Steps
import Chip8.Proofs.Machine.Cycles
import Chip8.Proofs.Machine.Fetch
import Chip8.Proofs.Machine.Faults
import Chip8.Proofs.Machine.Loading
import Chip8.Proofs.Machine.Compatibility
import Chip8.Proofs.Machine.Independence
import Chip8.Proofs.Machine.Dialects
import Chip8.Proofs.Machine.Reset
import Chip8.Proofs.Machine.KeyWait
import Chip8.Proofs.Headless.Budget
import Chip8.Proofs.Headless.KeyWait
import Chip8.Proofs.Checked.Basic
import Chip8.Proofs.Checked.Memory
import Chip8.Proofs.Checked.Bitmap
import Chip8.Proofs.Checked.Display
import Chip8.Proofs.Checked.Drawing
import Chip8.Proofs.Checked.Execute
import Chip8.Proofs.Checked.Machine
import Chip8.Proofs.Machine.Beep
import Chip8.Proofs.Machine.Timers
import Chip8.Proofs.Machine.Records
import Chip8.Proofs.Display.Reach
import Chip8.Proofs.Machine.Features
import Chip8.Proofs.Display.Cells
import Chip8.Proofs.Display.Dump
import Chip8.Proofs.Display.Repaints
import Chip8.Proofs.Display.Drawing
import Chip8.Proofs.Display.Scrolls
import Chip8.Proofs.Display.ScrollAlgebra
import Chip8.Proofs.Display.Strokes
import Chip8.Proofs.Machine.RandomStream
import Chip8.Proofs.Machine.Dump
import Chip8.Proofs.Display.Resolutions
import Chip8.Proofs.Machine.Frames
import Chip8.Proofs.Machine.CallStack
import Chip8.Proofs.Display.Isolation
import Chip8.Proofs.Machine.Arithmetic
import Chip8.Proofs.Machine.Roms
import Chip8.Proofs.Machine.Transfers
import Chip8.Proofs.Machine.Collisions
