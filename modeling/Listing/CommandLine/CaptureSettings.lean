import Listing.CommandLine.Basic

namespace Listing.CommandLine.Capture

inductive Form where
  | tree
  | listing
deriving DecidableEq, Repr

inductive GraphForm where
  | dot
  | tree
  | mermaid
deriving DecidableEq, Repr

-- A setting that holds no value was given two dashes in the place of one.
structure Settings where
  source : String := ""
  -- a dash stands for the output channel
  output : Option String := some "-"
  form : Form := .tree
  graph : Option GraphForm := none
  -- the program to run; an empty name leaves the choice to the environment
  parser : Option String := none
  machine : Option String := some "generic"
  registers : String := ""
  lineOffset : Option Int := some Instruction.defaultOffset
  indent : Option Int := some 2
  printLabels : Bool := false
  isTraced : Bool := false
  isVerbose : Bool := false
deriving DecidableEq, Repr

open Options (Flag Grammar)

def grammar : Grammar Settings where
  flags :=
    [.help,
     .text ["--output", "-o"] fun w s => { s with output := w },
     .choice ["--format", "-f"] [("json", .tree), ("text", .listing)] 
       fun f s => { s with form := f.getD .listing },
     .choice ["--graph"] [("dot", .dot), ("json", .tree), ("mermaid", .mermaid)]
       fun f s => { s with graph := f },
     .optionalText ["--parser"] fun w s => { s with parser := some w },
     .text ["--target"] fun w s => { s with machine := w },
     .text ["--registers"] fun w s => { s with registers := w.getD "" },
     .integer ["--line-offset"] fun n s => { s with lineOffset := n },
     .integer ["--indent"] fun n s => { s with indent := n },
     .switch ["--print-labels"] fun s => { s with printLabels := true },
     .switch ["--trace"] fun s => { s with isTraced := true },
     .switch ["--verbose", "-v"] fun s => { s with isVerbose := true }]
  operand := some ("source", fun w s => { s with source := w })

def manual : Manual where
  program := "asm_capture"
  usage := lines
    ["usage: asm_capture [-h] [--output FILE] [--format \x7bjson,text\x7d] [--graph FMT]",
     "                   [--parser [EXE]] [--target NAME] [--registers FILE]",
     "                   [--line-offset N] [--indent N] [--print-labels] [--trace]",
     "                   [--verbose]",
     "                   source"]
  details := lines
    ["asm_capture – capture assembler events into an instruction IR",
     "",
     "positional arguments:",
     "  source                Event log (JSON Lines), or assembly file with --parser",
     "",
     "options:",
     "  -h, --help            show this help message and exit",
     "  --output FILE, -o FILE",
     "                        Output file (default: stdout)",
     "  --format \x7bjson,text\x7d, -f \x7bjson,text\x7d",
     "                        Output format (default: json)",
     "  --graph FMT           Emit the label reference graph instead of the stream:",
     "                        dot, json, or mermaid",
     "  --parser [EXE]        Treat SOURCE as assembly and run it through an",
     "                        external parser. Without EXE the ASM_CAPTURE_PARSER",
     "                        environment variable is used.",
     "  --target NAME         Built-in register table: aarch64, riscv, or generic",
     "                        (default)",
     "  --registers FILE      JSON register table overriding --target",
     "  --line-offset N       Subtracted from decoder-reported lines (default: 1)",
     "  --indent N            JSON indentation (default: 2)",
     "  --print-labels        Quote attached label names that are not bare",
     "                        identifiers",
     "  --trace               Echo each captured label / instruction to stderr",
     "  --verbose, -v         Enable verbose (DEBUG) logging"]

end Listing.CommandLine.Capture
