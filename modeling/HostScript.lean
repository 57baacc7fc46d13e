import HostScript.Calculator.Task
import HostScript.Exec.Session
import HostScript.Proofs.Exec.Discipline
import HostScript.Proofs.Names.Scopes
import HostScript.Proofs.Names.Holder
import HostScript.Proofs.Object.Resources
import HostScript.Syntax.Dump
import HostScript.Syntax.Same
import HostScript.Workbench.Host
import HostScript.Proofs.Exec.Jumps
import HostScript.Proofs.Exec.Nesting
import HostScript.Proofs.Exec.Operands
import HostScript.Proofs.Exec.Restoration
import HostScript.Proofs.Exec.Confinement
import HostScript.Proofs.Exec.Independence
import HostScript.Proofs.Exec.Phases
import HostScript.Proofs.Exec.Messages
import HostScript.Proofs.Object.Containers
import HostScript.Proofs.Object.Wrapping
import HostScript.Proofs.Exec.Storage
import HostScript.Proofs.Object.Elements
import HostScript.Proofs.Exec.Wrapping
import HostScript.Proofs.Exec.Backtraces
import HostScript.Proofs.Exec.Limits
import HostScript.Proofs.Exec.Locality
import HostScript.Proofs.Exec.Raising
import HostScript.Proofs.Exec.Privacy
import HostScript.Proofs.Exec.Conformance
import HostScript.Proofs.Exec.Iterators
import HostScript.Proofs.Exec.Ranges
import HostScript.Object.Rendering
import HostScript.Proofs.Names.Registration
import HostScript.Proofs.Object.Rendering
import HostScript.Proofs.Exec.Assignments
import HostScript.Proofs.Operator.Unification
import HostScript.Proofs.Operator.Equality
import HostScript.Proofs.Numeral.Order
import HostScript.Proofs.Operator.Comparison
import HostScript.Proofs.Operator.Integers
import HostScript.Proofs.Exec.Switches
import HostScript.Proofs.Exec.Dispatch
import HostScript.Proofs.Exec.Chains
import HostScript.Proofs.Exec.Loops
import HostScript.Proofs.Calculator.Programs
import HostScript.Proofs.Calculator.Tasks
import HostScript.Proofs.Numeral.Integer
import HostScript.Proofs.Object.Maps
import HostScript.Proofs.Object.Keys
import HostScript.Proofs.Syntax.Placement
import HostScript.Proofs.Source.Position
