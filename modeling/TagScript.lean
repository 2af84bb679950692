import TagScript.Main
import TagScript.Session
import TagScript.Proofs.Console.AsciiCase
import TagScript.Proofs.Formula.Evaluation
import TagScript.Proofs.Interactive.Recognition
import TagScript.Proofs.Interactive.Traceless
import TagScript.Proofs.Machine.BubbleSort
import TagScript.Proofs.Machine.Exchange
import TagScript.Proofs.Machine.Footprint
import TagScript.Proofs.Machine.InPlace
import TagScript.Proofs.Machine.Inlining
import TagScript.Proofs.Machine.Involution
import TagScript.Proofs.Machine.Literal
import TagScript.Proofs.Machine.Mistakes
import TagScript.Proofs.Machine.RoundTrip
import TagScript.Proofs.Machine.Stripping
import TagScript.Proofs.Machine.Termination
import TagScript.Proofs.Machine.Vectors
import TagScript.Proofs.Numeral.Quotient
import TagScript.Proofs.Reading.Excerpt
import TagScript.Proofs.Reading.Furthest
import TagScript.Proofs.Reading.Listed
import TagScript.Proofs.Reading.Padding
import TagScript.Proofs.Reading.Precedence
import TagScript.Proofs.Reading.Progress
import TagScript.Proofs.Session.Joined
import TagScript.Proofs.Session.Tags
import TagScript.Proofs.Token.Names
