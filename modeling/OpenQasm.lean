import OpenQasm.Disk.FileTree
import OpenQasm.Main
import OpenQasm.Proofs.Diagnostic.Finishing
import OpenQasm.Proofs.Grammar.Arena
import OpenQasm.Proofs.Grammar.CallDepth
import OpenQasm.Proofs.Grammar.Calibrations
import OpenQasm.Proofs.Grammar.Flat
import OpenQasm.Proofs.Grammar.Heights
import OpenQasm.Proofs.Grammar.Inclusions
import OpenQasm.Proofs.Grammar.Inherited
import OpenQasm.Proofs.Grammar.Literals
import OpenQasm.Proofs.Grammar.Lookahead
import OpenQasm.Proofs.Grammar.Notices
import OpenQasm.Proofs.Grammar.Overflow
import OpenQasm.Proofs.Grammar.Precedence
import OpenQasm.Proofs.Grammar.Suppression
import OpenQasm.Proofs.Grammar.Window
import OpenQasm.Proofs.Include.Postorder
import OpenQasm.Proofs.Literal.Record
import OpenQasm.Proofs.Program.Kinds
import OpenQasm.Proofs.Program.Outlines
import OpenQasm.Proofs.Program.Reach
import OpenQasm.Proofs.Source.Location
import OpenQasm.Proofs.Token.Respacing
import OpenQasm.Proofs.Tree.Truncation
