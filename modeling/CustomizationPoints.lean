import CustomizationPoints.Engine
import CustomizationPoints.Host.Rules
import CustomizationPoints.Namespace.Order
import CustomizationPoints.Registry.Ancestry
import CustomizationPoints.Registry.DirectAccess
import CustomizationPoints.Registry.Installation
import CustomizationPoints.Registry.Register
import CustomizationPoints.Proofs.PlainHost
import CustomizationPoints.Proofs.Association.BaseWalk
import CustomizationPoints.Proofs.Association.Closure
import CustomizationPoints.Proofs.Registry.Acceptance
import CustomizationPoints.Proofs.Registry.Run
import CustomizationPoints.Proofs.Registry.Forest
import CustomizationPoints.Proofs.Registry.Names
import CustomizationPoints.Proofs.Registry.Checked
import CustomizationPoints.Proofs.Registry.WellFormed
import CustomizationPoints.Proofs.Call.Chain
import CustomizationPoints.Proofs.Call.Outcome
import CustomizationPoints.Proofs.Call.Mirror
import CustomizationPoints.Proofs.Call.Renaming
import CustomizationPoints.Proofs.Call.Extension
import CustomizationPoints.Proofs.Call.Reentry
import CustomizationPoints.Proofs.Registry.Numbering
import CustomizationPoints.Proofs.Registry.Reordering
import CustomizationPoints.Proofs.Association.Questions
import CustomizationPoints.Proofs.Call.Inquiry
import CustomizationPoints.Proofs.Call.Questions
import CustomizationPoints.Proofs.Call.Conversion
import CustomizationPoints.Proofs.Call.Nothrow
import CustomizationPoints.Proofs.Call.ByName
import CustomizationPoints.Proofs.Registry.Erasure
import CustomizationPoints.Proofs.Call.Path
import CustomizationPoints.Proofs.Call.Ambiguity
import CustomizationPoints.Proofs.Call.Selection
import CustomizationPoints.Proofs.Call.Entries
import CustomizationPoints.Proofs.Association.Union
import CustomizationPoints.Proofs.Call.ResultType
import CustomizationPoints.Proofs.Call.Policies
import CustomizationPoints.Proofs.Call.Final
import CustomizationPoints.Proofs.Registry.AncestorOrder
import CustomizationPoints.Proofs.Registry.OverrideLists
import CustomizationPoints.Proofs.Registry.Growth
import CustomizationPoints.Proofs.Namespace.Paths
import CustomizationPoints.Proofs.Call.DisplayNames
import CustomizationPoints.Proofs.Call.Friends
