import Kdtree.Accuracy
import Kdtree.Allocation
import Kdtree.Converters
import Kdtree.LoadSamples
import Kdtree.LostSamples
import Kdtree.Overruns
import Kdtree.ParallelTasks
import Kdtree.PrintedBoxes
import Kdtree.Programs
import Kdtree.Resave
import Kdtree.RobustSearch
import Kdtree.RowOrder
import Kdtree.SafeSearch
import Kdtree.SplitDimensions
