import Threaders.Common.BodyParsing
import Threaders.Common.Deserialization
import Threaders.Common.RoundTrip
import Threaders.Common.Segmentation
import Threaders.Common.SelectLoop
import Threaders.Hilolay.CpuTime
import Threaders.Hilolay.PreemptionSafety
import Threaders.Hilolay.RoundRobin
import Threaders.Hilolay.Statements
import Threaders.Muse.Agreement
import Threaders.Muse.Allocation
import Threaders.Muse.CarefulSessions
import Threaders.Muse.Free
import Threaders.Muse.Isolation
import Threaders.Muse.Layout
import Threaders.Muse.PageCount
import Threaders.Muse.PreviousBlock
import Threaders.Muse.ReadAfterWrite
import Threaders.Muse.Refusal
import Threaders.Muse.Truncation
import Threaders.Sac.AbsolutePaths
import Threaders.Sac.LongNames
import Threaders.Sac.Mkdir
import Threaders.Sac.RawPaths
import Threaders.Sac.ScanBounds
import Threaders.Suse.NewThreads
import Threaders.Suse.Programs
import Threaders.Suse.Selection
import Threaders.Suse.Semaphores
import Threaders.Suse.ShortestJobs
