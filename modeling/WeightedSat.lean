import WeightedSat.Main
import WeightedSat.Random.SplitMix
import WeightedSat.Random.Counted
import WeightedSat.Random.WordCycle
import WeightedSat.Proofs.Anneal.Walk
import WeightedSat.Proofs.Standing
import WeightedSat.Proofs.Record.Feed
import WeightedSat.Proofs.Record.Calls
import WeightedSat.Proofs.Anneal.Loop
import WeightedSat.Proofs.Anneal.Course
import WeightedSat.Proofs.Anneal.Report
import WeightedSat.Proofs.Anneal.Itinerary
import WeightedSat.Proofs.Anneal.Best
import WeightedSat.Proofs.Anneal.Trace
import WeightedSat.Proofs.Anneal.Silence
import WeightedSat.Proofs.Comparison
import WeightedSat.Proofs.Anneal.Prolongation
import WeightedSat.Proofs.Anneal.Ending
import WeightedSat.Proofs.Anneal.Twin
import WeightedSat.Proofs.Anneal.Tautology
import WeightedSat.Proofs.Report.TraceText
import WeightedSat.Proofs.Session.History
import WeightedSat.Proofs.Session.Erasure
import WeightedSat.Proofs.Weights
import WeightedSat.Proofs.Anneal.Safety
import WeightedSat.Proofs.Energy
import WeightedSat.Proofs.Anneal.Scaling
import WeightedSat.Proofs.Unsatisfied
import WeightedSat.Proofs.Noise
import WeightedSat.Proofs.Construction
import WeightedSat.Proofs.Representation
import WeightedSat.Proofs.Mwcnf.Lines
import WeightedSat.Proofs.Mwcnf.RoundTrip
import WeightedSat.Proofs.Mwcnf.Answer
import WeightedSat.Proofs.Mwcnf.Sections
import WeightedSat.Proofs.Text.Words
import WeightedSat.Proofs.Mwcnf.Precedence
import WeightedSat.Proofs.Mwcnf.Capacity
import WeightedSat.Proofs.Mwcnf.Layout
import WeightedSat.Proofs.Mwcnf.Codes
import WeightedSat.Proofs.Repair
import WeightedSat.Proofs.Greedy
import WeightedSat.Proofs.Anneal.Levels
import WeightedSat.Proofs.Anneal.Descent
import WeightedSat.Proofs.Anneal.Counters
import WeightedSat.Proofs.FileTree
import WeightedSat.Proofs.Report.SpoolText
import WeightedSat.Proofs.Cli.Attempt
import WeightedSat.Proofs.Cli.Parts
import WeightedSat.Proofs.Session.Accord
import WeightedSat.Proofs.Cli.Outputs
import WeightedSat.Proofs.EnergyRange
import WeightedSat.Proofs.Anneal.Cooling
import WeightedSat.Proofs.Anneal.Tuning
import WeightedSat.Proofs.Double.Rounding
import WeightedSat.Proofs.Double.Units
import WeightedSat.Proofs.Anneal.Standstill
import WeightedSat.Proofs.Anneal.Single
import WeightedSat.Proofs.Report.SolutionText
import WeightedSat.Proofs.Report.SummaryText
import WeightedSat.Proofs.Decimal.Positional
import WeightedSat.Proofs.Decimal.ReadBack
import WeightedSat.Proofs.Report.TraceRows
import WeightedSat.Proofs.Double.Quotient
import WeightedSat.Proofs.Decimal.Nearest
