import MuF.WireFormat
import MuF.VM.Calls
import MuF.VM.Bounds
import MuF.VM.Interrupts
import MuF.VM.Compare
import MuF.VM.Power
import MuF.VM.Arrays
import MuF.VM.Steps
import MuF.Codegen.Framing
import MuF.Codegen.Gotos
import MuF.Codegen.Elements
import MuF.Codegen.Select
import MuF.Codegen.Promote
import MuF.Lang.Whole
import MuF.Lang.Optimised
import MuF.Lang.Sources
import MuF.Lang.Total
import MuF.Codegen.Overruns
import MuF.Base.Layout
import MuF.Lexer.Numerals
import MuF.Opt.Faults
import MuF.Dump.WellFormed
import MuF.Parser.History
