import XPathScan.Source.Metered
import XPathScan.Source.Script
import XPathScan.Source.Transcript
import XPathScan.Tokenize
import XPathScan.Proofs.Input
import XPathScan.Proofs.Input.Delivered
import XPathScan.Proofs.Input.ReadAhead
import XPathScan.Proofs.Input.Safety
import XPathScan.Proofs.Input.Search
import XPathScan.Proofs.Lexer.BufferSize
import XPathScan.Proofs.Lexer.Comments
import XPathScan.Proofs.Lexer.Flags
import XPathScan.Proofs.Lexer.Gaps
import XPathScan.Proofs.Lexer.Literals
import XPathScan.Proofs.Lexer.LongestMatch
import XPathScan.Proofs.Lexer.Lookahead
import XPathScan.Proofs.Lexer.Names
import XPathScan.Proofs.Lexer.Numbers
import XPathScan.Proofs.Lexer.Overflow
import XPathScan.Proofs.Lexer.Positions
import XPathScan.Proofs.Lexer.Printed
import XPathScan.Proofs.Lexer.Progress
import XPathScan.Proofs.Lexer.Recycling
import XPathScan.Proofs.Lexer.Safety
import XPathScan.Proofs.Lexer.Spelling
import XPathScan.Proofs.Lexer.Streamed
import XPathScan.Proofs.Lexer.Suppliers
import XPathScan.Proofs.Lexer.Tiling
import XPathScan.Proofs.Lexer.Totality
import XPathScan.Proofs.Lexer.Variables
import XPathScan.Proofs.Lexer.Versions
import XPathScan.Proofs.Lexer.Views
import XPathScan.Proofs.Lexicon.Growth
import XPathScan.Proofs.Lexicon.Shape
import XPathScan.Proofs.Reading.Versions
import XPathScan.Proofs.Source.Same
