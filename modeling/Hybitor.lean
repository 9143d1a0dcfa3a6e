import Hybitor.IR
import Hybitor.GetPC.Search
import Hybitor.GetPC.Termination
import Hybitor.GetPC.Paths
import Hybitor.GetPC.Levels
import Hybitor.GetPC.Results
import Hybitor.GetPC.PredOrder
import Hybitor.GetPC.Split
import Hybitor.GetPC.Frame
import Hybitor.RunOnFunction
import Hybitor.Pass
import Hybitor.Main
