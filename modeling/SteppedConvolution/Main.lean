import SteppedConvolution.Fault.Message
import SteppedConvolution.Walkthrough

/-! # Command line

Print the worked examples.
-/

open SteppedConvolution

def main : IO UInt32 := do
  match Walkthrough.text with
  | .ok text =>
    IO.print text
    IO.println "All examples completed successfully!"
    pure 0
  | .error fault =>
    IO.eprintln fault.message
    pure 1
