import AttributeGrammar.CommandLine.Run
import AttributeGrammar.Grammar.Editing
import AttributeGrammar.Main
import AttributeGrammar.OrderedMap.Register
import AttributeGrammar.Report.Format
import AttributeGrammar.Report.Log
import AttributeGrammar.Proofs.Grammar.Rule
import AttributeGrammar.Proofs.Grammar.Row
import AttributeGrammar.Proofs.Grammar.Draft
import AttributeGrammar.Proofs.Grammar.Reconciliation
import AttributeGrammar.Proofs.Verdict
import AttributeGrammar.Proofs.History
import AttributeGrammar.Proofs.Coherence
import AttributeGrammar.Proofs.Locality
import AttributeGrammar.Proofs.OrderIndependence
import AttributeGrammar.Proofs.Meaning
import AttributeGrammar.Proofs.Positions
import AttributeGrammar.Proofs.Termination
import AttributeGrammar.Proofs.Grammar.Concatenation
import AttributeGrammar.Proofs.Uniformity
import AttributeGrammar.Proofs.Forms
import AttributeGrammar.Proofs.CycleFlag
import AttributeGrammar.Proofs.Projection
import AttributeGrammar.Proofs.Pattern
import AttributeGrammar.Proofs.Nonterminals
import AttributeGrammar.Proofs.Printing
import AttributeGrammar.Proofs.RelationText
import AttributeGrammar.Proofs.SecondRun
import AttributeGrammar.Proofs.DependencyGraph
import AttributeGrammar.Proofs.Exploration
import AttributeGrammar.Proofs.Format
import AttributeGrammar.Proofs.ExitCode
import AttributeGrammar.Proofs.Register
