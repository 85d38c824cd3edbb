import Emas.Nvmain.EventOrder
import Emas.Nvmain.GlobalTime
import Emas.Nvmain.RefreshAccounting
import Emas.Nvmain.CommandLegality
import Emas.Nvmain.RequestConservation
import Emas.Nvmain.StandardRank
import Emas.Nvmain.Endurance
import Emas.Nvmain.MigrationProtocol
import Emas.Nvmain.RowTiming
import Emas.Nvmain.PrefetchBuffer
import Emas.Gem5.Stripes
import Emas.Gem5.LoadLocks
import Emas.Gem5.LoadOrder
import Emas.Gem5.Skewing
import Emas.Gem5.RegisterConservation
import Emas.Gem5.SnoopHolders
import Emas.Gem5.PacketOrder
import Emas.Ruby.TagIndex
import Emas.Ruby.StalledMessages
import Emas.Ruby.ProgramOrder
import Emas.Ruby.MIDMAWrites
import Emas.Gem5.RasRepair
import Emas.Nvmain.QueueNumbering
import Emas.Nvmain.NVMDataBlock
import Emas.Nvmain.HookChain
import Emas.Nvmain.TransactionTypes
import Emas.Nvmain.FlipPartitions
import Emas.Nvmain.CacheCommands
import Emas.Nvmain.FlipRestart
import Emas.Nvmain.BankRegisters
import Emas.Nvmain.WriteDrain
import Emas.Gem5.CacheMaintenance
import Emas.Gem5.WholeLineWrite
import Emas.Gem5.MSHRQueueOrder
import Emas.Gem5.BRRIP
import Emas.Gem5.TreePLRU
import Emas.Gem5.MSHRFlags
import Emas.Gem5.RangeSets
import Emas.Gem5.MultiCompressor
import Emas.Gem5.CompressedSizes
import Emas.Gem5.SelfCheck
import Emas.Gem5.BufferStreams
import Emas.Gem5.ChunkGenerator
import Emas.Gem5.VirtTransfers
import Emas.Gem5.FunctionalCoherence
import Emas.Gem5.RobSquash
import Emas.Gem5.StoreSet
import Emas.Ruby.DMASequencer
import Emas.Gem5.FpDiv
import Emas.Gem5.FpSqrt
import Emas.Nvmain.QueueRotation
import Emas.Nvmain.CellCounts
import Emas.Nvmain.InvertData
import Emas.Gem5.CowRefinement
import Emas.Gem5.PrunedHistory
import Emas.Gem5.FpMuladd
import Emas.Gem5.FpConversions
