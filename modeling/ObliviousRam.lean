import ObliviousRam.Prog
import ObliviousRam.Trace
import ObliviousRam.Connection
import ObliviousRam.Defs
import ObliviousRam.KeyedBag
import ObliviousRam.TreeStorage
import ObliviousRam.PathOram
import ObliviousRam.PathContents
import ObliviousRam.PathAccess
import ObliviousRam.PathFill
import ObliviousRam.PathMemory
import ObliviousRam.PathWriteBack
import ObliviousRam.PathDummy
import ObliviousRam.PathPadding
import ObliviousRam.PathFaults
import ObliviousRam.PathSimulation
import ObliviousRam.PathPresence
import ObliviousRam.PathPattern
import ObliviousRam.PathHiding
import ObliviousRam.PartitionOram
import ObliviousRam.PartitionAccess
import ObliviousRam.PartitionMemory
import ObliviousRam.PartitionEviction
import ObliviousRam.PathShape
import ObliviousRam.SqrtStorage
import ObliviousRam.SquareRootOram
import ObliviousRam.SquareRootMemory
import ObliviousRam.SqrtSimulation
import ObliviousRam.SqrtTags
import ObliviousRam.SqrtFaults
import ObliviousRam.SqrtLine
import ObliviousRam.SqrtBounds
import ObliviousRam.SqrtBuffer
import ObliviousRam.SqrtPattern
import ObliviousRam.LinearOram
import ObliviousRam.LinearMemory
import ObliviousRam.LinearPath
import ObliviousRam.PartitionStart
import ObliviousRam.PartitionRefinement
import ObliviousRam.OramGate
import ObliviousRam.OramServer
import ObliviousRam.ServerIsolation
import ObliviousRam.ServerThreads
import ObliviousRam.ServerSafety
import ObliviousRam.TreeGeometry
import ObliviousRam.KeyExchange
import ObliviousRam.Authentication
import ObliviousRam.AvlTree
import ObliviousRam.Delimited
import ObliviousRam.OdsCache
import ObliviousRam.LruCache
import ObliviousRam.TreeNodeText
import ObliviousRam.OdictController
import ObliviousRam.OdictAccess
import ObliviousRam.OdictTree
import ObliviousRam.OdictOperation
import ObliviousRam.OdictRun
import ObliviousRam.OdictMap
import ObliviousRam.OdictFinalize
import ObliviousRam.OdictLoss
import ObliviousRam.OdictPadding
import ObliviousRam.OdictRecall
import ObliviousRam.OdictMisses
import ObliviousRam.OdictCost
import ObliviousRam.RandomShuffle
import ObliviousRam.RandomPermutation
import ObliviousRam.SqrtRequests
import ObliviousRam.CLayout
import ObliviousRam.BlockBytes
import ObliviousRam.Compression
import ObliviousRam.PartitionFailures
import ObliviousRam.FromFile
import ObliviousRam.SqrtFromFile
import ObliviousRam.PathLoad
import ObliviousRam.SampledData
import ObliviousRam.StatusReport
import ObliviousRam.ConfigParse
import ObliviousRam.Mirror
import ObliviousRam.Service
import ObliviousRam.SharedServer
import ObliviousRam.SharedPath
import ObliviousRam.SharedSqrt
import ObliviousRam.SharedPartition
import ObliviousRam.LinearPattern
import ObliviousRam.SharedLinear
import ObliviousRam.OdictMirror
import ObliviousRam.OdictOverPath
import ObliviousRam.PathSecrecy
import ObliviousRam.Spending
import ObliviousRam.PathTraffic
import ObliviousRam.PartitionTraffic
import ObliviousRam.OdictSecrecy
import ObliviousRam.Contract
import ObliviousRam.FailingMemory
import ObliviousRam.LinearOutages
import ObliviousRam.PathOutages
import ObliviousRam.SqrtSecrecy
import ObliviousRam.LinearReplay
import ObliviousRam.SqrtReplay
import ObliviousRam.PathReplay
import ObliviousRam.OdictReplay
import ObliviousRam.PartitionReplay
