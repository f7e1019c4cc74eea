import Asm32.Assembly
import Asm32.Listing
import Asm32.Disassembly
import Asm32.Tool.Assembler
import Asm32.Tool.Disassembler
import Asm32.Main
import Asm32.Proofs.Words
import Asm32.Proofs.BitOrder
import Asm32.Proofs.Decoding
import Asm32.Proofs.Packing
import Asm32.Proofs.Unpacking
import Asm32.Proofs.Requests
import Asm32.Proofs.Domains
import Asm32.Proofs.Encoding
import Asm32.Proofs.Resolution
import Asm32.Proofs.TwoPass
import Asm32.Proofs.Registration
import Asm32.Proofs.Displacement
import Asm32.Proofs.Numerals
import Asm32.Proofs.Operands
import Asm32.Proofs.Deferral
import Asm32.Proofs.Tokens
import Asm32.Proofs.Grammar
import Asm32.Proofs.SourceText
import Asm32.Proofs.Spelling
import Asm32.Proofs.Reassembly
import Asm32.Proofs.Entries
import Asm32.Proofs.Labels
import Asm32.Proofs.Events
import Asm32.Proofs.Independence
import Asm32.Proofs.LineEnds
import Asm32.Proofs.Composition
import Asm32.Proofs.Listings
import Asm32.Proofs.Binaries
import Asm32.Proofs.Dumps
import Asm32.Proofs.Images
import Asm32.Proofs.Traces
import Asm32.Proofs.Layout
import Asm32.Proofs.Relocation
import Asm32.Proofs.Reports
import Asm32.Proofs.References
