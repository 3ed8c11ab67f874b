import CallCircuit.Main
import CallCircuit.Proofs.Building
import CallCircuit.Proofs.Documents
import CallCircuit.Proofs.ExportOrder
import CallCircuit.Proofs.Guards
import CallCircuit.Proofs.Lifecycle
import CallCircuit.Proofs.OperationTexts
import CallCircuit.Proofs.Overflow
import CallCircuit.Proofs.Reordering
import CallCircuit.Proofs.ShownOperands
import CallCircuit.Proofs.SpelledTexts
import CallCircuit.Proofs.Subcommand
import CallCircuit.Proofs.Truncation
import CallCircuit.Proofs.UnitChecks
