import CoEmbed.Scalar
import CoEmbed.Vec
import CoEmbed.Cholesky
import CoEmbed.Numeral
import CoEmbed.Key
import CoEmbed.Table
import CoEmbed.Distinct
import CoEmbed.Setting
import CoEmbed.Source
import CoEmbed.Machine
import CoEmbed.Machine.Standard
import CoEmbed.VectorInit
import CoEmbed.Tensor
import CoEmbed.Weights
import CoEmbed.Gram
import CoEmbed.Update
import CoEmbed.Sample
import CoEmbed.Objective
import CoEmbed.Ranking.Auc
import CoEmbed.Ranking.TopK
import CoEmbed.Ranking.CutOff
import CoEmbed.Negatives
import CoEmbed.Metric
import CoEmbed.StopRule
import CoEmbed.Counters
import CoEmbed.Sppmi
import CoEmbed.Config
import CoEmbed.Outcome
import CoEmbed.Model.Basic
import CoEmbed.Model.Sweep
import CoEmbed.Model.Loss
import CoEmbed.Model.Validation
import CoEmbed.Interactions
import CoEmbed.Recommender
import CoEmbed.Store
import CoEmbed.Command.Train
import CoEmbed.Command.Serve
import CoEmbed.Archive.Code
import CoEmbed.Archive.Recommender
import CoEmbed.Main
import CoEmbed.Proofs.Table
import CoEmbed.Proofs.Exact.Scalar
import CoEmbed.Proofs.Exact.Zeros
import CoEmbed.Proofs.Strangers
import CoEmbed.Proofs.Exact.Vec
import CoEmbed.Proofs.Exact.Cholesky
import CoEmbed.Proofs.Exact.Bowl
import CoEmbed.Proofs.Exact.Factors
import CoEmbed.Proofs.Exact.Update
import CoEmbed.Proofs.Outcome
import CoEmbed.Proofs.Faults
import CoEmbed.Proofs.Sweep
import CoEmbed.Proofs.Writes
import CoEmbed.Proofs.Aborted
import CoEmbed.Proofs.Run
import CoEmbed.Proofs.Acceptance
import CoEmbed.Proofs.Exact.Setting
import CoEmbed.Proofs.Exact.Order
import CoEmbed.Proofs.Exact.Solvable
import CoEmbed.Proofs.Objective.Point
import CoEmbed.Proofs.Objective.Closed
import CoEmbed.Proofs.Objective.Loss
import CoEmbed.Proofs.Objective.Blocks
import CoEmbed.Proofs.Objective.Descent
import CoEmbed.Proofs.Objective.Stationary
import CoEmbed.Proofs.Objective.Fit
import CoEmbed.Proofs.Refusals
import CoEmbed.Proofs.Stopping
import CoEmbed.Proofs.Validation
import CoEmbed.Proofs.Objective.History
import CoEmbed.Proofs.Trail
import CoEmbed.Proofs.Path
import CoEmbed.Proofs.HeldOut
import CoEmbed.Proofs.Operation
import CoEmbed.Proofs.Pruned
import CoEmbed.Proofs.Exact.Neighbors
import CoEmbed.Proofs.Listing
import CoEmbed.Proofs.Threshold
import CoEmbed.Proofs.Partition
import CoEmbed.Proofs.Assessment
import CoEmbed.Proofs.Refit
import CoEmbed.Proofs.Harvest
import CoEmbed.Proofs.Counting
import CoEmbed.Proofs.Census
import CoEmbed.Proofs.Floating.Line
import CoEmbed.Proofs.Floating.Ordered
import CoEmbed.Proofs.Floating.Rounding
import CoEmbed.Proofs.Floating.Operations
import CoEmbed.Proofs.Floating.Zeros
import CoEmbed.Proofs.Latest
import CoEmbed.Proofs.Unseen
import CoEmbed.Proofs.Sides
import CoEmbed.Proofs.Masked
import CoEmbed.Proofs.Minimum.Basic
import CoEmbed.Proofs.Minimum.Theta
import CoEmbed.Proofs.Minimum.Rows
import CoEmbed.Proofs.Minimum.Beta
import CoEmbed.Proofs.Minimum.Gamma
import CoEmbed.Proofs.Minimum.Biases
import CoEmbed.Proofs.Exact.Turn
import CoEmbed.Proofs.Offset
import CoEmbed.Proofs.Basis
import CoEmbed.Proofs.Artifacts
import CoEmbed.Proofs.Exact.Minors
import CoEmbed.Proofs.Exact.Solve
import CoEmbed.Proofs.Objective.Entries
import CoEmbed.Proofs.Reordered
import CoEmbed.Proofs.Shuffled
import CoEmbed.Proofs.Placeholders
import CoEmbed.Proofs.Exact.Share
import CoEmbed.Proofs.Floating.Share
import CoEmbed.Proofs.Comparison
import CoEmbed.Proofs.Best
import CoEmbed.Proofs.Cold
import CoEmbed.Proofs.Pages
import CoEmbed.Proofs.Exact.Finite
import CoEmbed.Proofs.Verdicts
import CoEmbed.Proofs.Conservation
import CoEmbed.Proofs.Exact.Shift
import CoEmbed.Proofs.Exact.Population
import CoEmbed.Proofs.Exact.Draw
import CoEmbed.Proofs.Floating.Draw
import CoEmbed.Proofs.Repeats
import CoEmbed.Proofs.Nested
import CoEmbed.Proofs.Ranking.Hits
import CoEmbed.Proofs.Ranking.Rounded
import CoEmbed.Proofs.Ranking.Gain
import CoEmbed.Proofs.Ranking.Range
import CoEmbed.Proofs.Ranking.Ideal
import CoEmbed.Proofs.Ranking.Agreement
import CoEmbed.Proofs.Ranking.Pairs
import CoEmbed.Proofs.Catalogue
import CoEmbed.Proofs.Filling
import CoEmbed.Proofs.Gram
