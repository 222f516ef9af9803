import LwiotFsm.SttIndex
import LwiotFsm.Engine
import LwiotFsm.Run
import LwiotFsm.Table
import LwiotFsm.Validation
import LwiotFsm.Hierarchy
import LwiotFsm.Execution
import LwiotFsm.Ledger
import LwiotFsm.Queue
import LwiotFsm.Copy
import LwiotFsm.Step
import LwiotFsm.Builders
import LwiotFsm.Invariant
import LwiotFsm.Completeness
import LwiotFsm.Safety
