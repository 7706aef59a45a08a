import Shader.Proofs.AnnotationHistory
import Shader.Proofs.AnnotationOrder
import Shader.Proofs.ArrayLengthOrder
import Shader.Proofs.ArrayLengthTermination
import Shader.Proofs.BufferBlockFlags
import Shader.Proofs.ControlFlowConflicts
import Shader.Proofs.ControlFlowConstructs
import Shader.Proofs.ControlFlowIds
import Shader.Proofs.ControlFlowOrder
import Shader.Proofs.DecorationHistory
import Shader.Proofs.EntryPointHistory
import Shader.Proofs.ExecutionModes
import Shader.Proofs.FlagSetBank
import Shader.Proofs.GrowthCommutes
import Shader.Proofs.HeaderCodec
import Shader.Proofs.KindStability
import Shader.Proofs.ModuleVerdict
import Shader.Proofs.NoteOrder
import Shader.Proofs.Refusals
import Shader.Proofs.TypedAccess
