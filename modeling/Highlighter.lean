import Highlighter.Main
import Highlighter.Proofs.Text.Encoding
import Highlighter.Proofs.Token.Cut
import Highlighter.Proofs.Token.Reading
import Highlighter.Proofs.Token.Stream
import Highlighter.Proofs.Token.Automaton
import Highlighter.Proofs.Token.Tiling
import Highlighter.Proofs.Token.Tokenization
import Highlighter.Proofs.Lexicon.Draft
import Highlighter.Proofs.Run.Highlighting
import Highlighter.Proofs.Run.WholeWords
import Highlighter.Proofs.Run.Append
import Highlighter.Proofs.Run.Gaps
import Highlighter.Proofs.Token.Pulls
import Highlighter.Proofs.Token.Split
import Highlighter.Token.Machine
import Highlighter.Proofs.Json.Spelling
import Highlighter.Proofs.Token.Machine
import Highlighter.Proofs.Json.Reading
import Highlighter.Proofs.Color.Codec
import Highlighter.Proofs.Theme.Document
import Highlighter.Proofs.Lexicon.Replay
import Highlighter.Proofs.Lexicon.Contents
import Highlighter.Proofs.Lexicon.Verdict
import Highlighter.Proofs.Lexicon.Admission
import Highlighter.Proofs.Theme.Specification
import Highlighter.Proofs.Theme.Reload
import Highlighter.Proofs.Display.Output
import Highlighter.Proofs.Theme.Likeness
import Highlighter.Proofs.Json.Meaning
import Highlighter.Proofs.Display.Records
import Highlighter.Proofs.Json.Grammar
import Highlighter.Proofs.Json.Acceptance
import Highlighter.Proofs.Theme.Meaning
import Highlighter.Proofs.Token.Boundaries
import Highlighter.Proofs.Display.Preview
import Highlighter.Proofs.Display.Sequences
import Highlighter.Proofs.Command.Outcome
import Highlighter.Proofs.Command.Arguments
import Highlighter.Proofs.Lexicon.Occurrence
import Highlighter.Proofs.Run.Coverage
import Highlighter.Display.Portions
import Highlighter.Proofs.Display.Portions
import Highlighter.Proofs.Text.Sequences
import Highlighter.Proofs.Text.Decoding
import Highlighter.Proofs.Command.Input
import Highlighter.Proofs.Token.Characters
import Highlighter.Color.Slices
import Highlighter.Proofs.Color.Notation
import Highlighter.Proofs.Theme.Names
