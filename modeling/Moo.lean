import Moo.Disk.FileTree
import Moo.Main
import Moo.Proofs.Compile
import Moo.Proofs.Dump
import Moo.Proofs.Faultless
import Moo.Proofs.Names.Abort
import Moo.Proofs.Names.Chains
import Moo.Proofs.Names.Declarations
import Moo.Proofs.Names.Fields
import Moo.Proofs.Names.Order
import Moo.Proofs.Names.Renaming
import Moo.Proofs.Names.Scopes
import Moo.Proofs.Printing
import Moo.Proofs.Printing.Annotation
import Moo.Proofs.Reading.Concatenation
import Moo.Proofs.Reading.Errors
import Moo.Proofs.Reading.Layout
import Moo.Proofs.Reading.Numbers
import Moo.Proofs.Reading.Soundness
import Moo.Proofs.Session.Afresh
import Moo.Proofs.Session.Pieces
import Moo.Proofs.Session.StructTypes
import Moo.Proofs.Table.History
import Moo.Roster
import Moo.Session
import Moo.Tree.Same
