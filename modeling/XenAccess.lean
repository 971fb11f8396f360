import XenAccess.Lib.Bits
import XenAccess.Lib.Paging
import XenAccess.Lib.Prog
import XenAccess.Lib.Lru
import XenAccess.Lib.BoundedMap
import XenAccess.Lib.Dll
import XenAccess.Lib.Recency
import XenAccess.Lib.Audit
import XenAccess.Model.Types
import XenAccess.Model.Memory
import XenAccess.Model.PageTable
import XenAccess.Model.Cache
import XenAccess.Model.CacheList
import XenAccess.Model.Symbols
import XenAccess.Model.PeParse
import XenAccess.Model.Programs
import XenAccess.Model.Access
import XenAccess.Model.Ledger
import XenAccess.Model.Init
import XenAccess.Walk.PageMap
import XenAccess.Walk.Pae
import XenAccess.Cache.Reference
import XenAccess.Cache.Sound
import XenAccess.Cache.Transparency
import XenAccess.Cache.Symbols
import XenAccess.Cache.SymbolAddress
import XenAccess.Cache.PidMap
import XenAccess.Cache.Protection
import XenAccess.Cache.Lists
import XenAccess.Cache.Recency
import XenAccess.Walk.Root
import XenAccess.Init.First
import XenAccess.Init.Linux
import XenAccess.Init.Windows
import XenAccess.Init.Prelude
import XenAccess.Init.Helper
import XenAccess.Init.Coherence
import XenAccess.Init.Lax
import XenAccess.Init.Strict
import XenAccess.Init.Prior
import XenAccess.Model.Image
import XenAccess.Maps.Frames
import XenAccess.Maps.Tables
import XenAccess.Maps.Walks
import XenAccess.Maps.Readers
import XenAccess.Maps.Release
import XenAccess.Maps.Bounds
import XenAccess.Maps.KernelPage
import XenAccess.Model.DirTable
import XenAccess.Model.BlockHash
import XenAccess.Model.Ext2
import XenAccess.Model.DiskMonitor
import XenAccess.Disk.Framing
import XenAccess.Disk.Hash
import XenAccess.Disk.Coverage
import XenAccess.Disk.Watches
import XenAccess.Disk.Directory
import XenAccess.Disk.Replay
import XenAccess.Lib.Orbit
import XenAccess.Model.DomainInfo
import XenAccess.Maps.Range
import XenAccess.Walk.Nopae
import XenAccess.Walk.Uninit
import XenAccess.Lib.Hierarchy
import XenAccess.Model.X8664
import XenAccess.Walk.X8664
import XenAccess.Process.Termination
import XenAccess.Process.Lookup
import XenAccess.Process.Listing
import XenAccess.Process.UnicodeNames
import XenAccess.Process.ModuleListing
import XenAccess.Process.ProcessListing
import XenAccess.Process.UserMemory
import XenAccess.Disk.Stacks
import XenAccess.Disk.Monitor
import XenAccess.Config.Numbers
import XenAccess.Init.ByName
import XenAccess.Pe.Exports
import XenAccess.Lib.Lexer
import XenAccess.Model.Config
import XenAccess.Config.Grammar
import XenAccess.Config.Isolation
import XenAccess.Config.Lexicon
import XenAccess.Config.Format
import XenAccess.Config.RoundTrip
import XenAccess.Maps.Agreement
import XenAccess.Maps.P2m
import XenAccess.Cache.Uniform
import XenAccess.Cache.Untouched
import XenAccess.Cache.ReadBack
import XenAccess.Cache.PidFailure
import XenAccess.Disk.Inodes
import XenAccess.Disk.LiveEntries
import XenAccess.Lib.Scan
import XenAccess.Model.DirScan
import XenAccess.Disk.Scans
import XenAccess.Disk.Superblock
import XenAccess.Disk.Paths
import XenAccess.Lib.Merge
import XenAccess.Disk.Differences
import XenAccess.Disk.StaleOps
import XenAccess.Disk.Capacity
import XenAccess.Disk.DataBlocks
import XenAccess.Maps.Dump
import XenAccess.Maps.DumpImage
import XenAccess.Maps.MountedMemory
import XenAccess.Maps.FileImage
import XenAccess.Maps.Physical
import XenAccess.Lib.Sweep
import XenAccess.Model.KernelPd
import XenAccess.Process.Sweeps
import XenAccess.Process.DumpedGuest
import XenAccess.Process.Eprocess
import XenAccess.Pe.KernelBase
import XenAccess.Config.Keys
import XenAccess.Lib.Text
import XenAccess.SystemMap.Rows
import XenAccess.SystemMap.Lookup
import XenAccess.Lib.Insertion
import XenAccess.Lib.BitCount
import XenAccess.Disk.Sorting
import XenAccess.Lib.Sll
import XenAccess.Model.PdSearch
import XenAccess.Process.PdScore
import XenAccess.Process.PdSearch
import XenAccess.Lib.Window
import XenAccess.Model.Pyxa
import XenAccess.Maps.PyxaReaders
import XenAccess.Lib.CBuffer
import XenAccess.SystemMap.Prediction
import XenAccess.Model.FindOffsets
import XenAccess.Config.OffsetFinder
import XenAccess.Disk.LogText
import XenAccess.Lib.Balance
import XenAccess.Maps.ProgramPages
import XenAccess.Maps.DumpPages
