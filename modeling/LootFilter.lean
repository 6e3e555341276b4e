import LootFilter.Main
import LootFilter.Proofs.AssetIndex
import LootFilter.Proofs.Backup.Unsuffixed
import LootFilter.Proofs.Command.History
import LootFilter.Proofs.Evaluation.ByName
import LootFilter.Proofs.Evaluation.Progress
import LootFilter.Proofs.Evaluation.Reordered
import LootFilter.Proofs.Filter.Breaks
import LootFilter.Proofs.Filter.Layout
import LootFilter.Proofs.Filter.Numbering
import LootFilter.Proofs.Filter.Pipeline
import LootFilter.Proofs.Filter.Quoted
import LootFilter.Proofs.ItemClasses
import LootFilter.Proofs.Templates
import LootFilter.Proofs.Writer.CurrentNames
import LootFilter.Proofs.Writer.EffectsKept
import LootFilter.Proofs.Writer.EffectsOnce
import LootFilter.Proofs.Writer.FailStop
import LootFilter.Proofs.Writer.Matched
import LootFilter.Proofs.Writer.Order
import LootFilter.Proofs.Writer.ReadBack
import LootFilter.Proofs.Writer.Touched
