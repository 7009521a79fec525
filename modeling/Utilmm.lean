import Utilmm.Core.Except
import Utilmm.Core.Multimap
import Utilmm.Core.Regexp
import Utilmm.Core.Chain
import Utilmm.Core.Dict
import Utilmm.Core.Trail
import Utilmm.Core.Runs
import Utilmm.Core.Keys
import Utilmm.Text
import Utilmm.ConfigFile.ConfigSet
import Utilmm.ConfigFile.Get
import Utilmm.CommandLine.CmdlineOption
import Utilmm.CommandLine.Parse
import Utilmm.CommandLine.Reading
import Utilmm.CommandLine.Simulation
import Utilmm.CommandLine.Correctness
import Utilmm.CommandLine.Distinct
import Utilmm.CommandLine.Contract
import Utilmm.CommandLine.Conversion
import Utilmm.ConfigFile.Lines
import Utilmm.ConfigFile.Grammar
import Utilmm.ConfigFile.Reader
import Utilmm.ConfigFile.Stream
import Utilmm.ConfigFile.Store
import Utilmm.ConfigFile.Correctness
import Utilmm.ConfigFile.Rendering
import Utilmm.ConfigFile.Trailing
import Utilmm.Hash.Table
import Utilmm.Hash.Chains
import Utilmm.Hash.Rehash
import Utilmm.Hash.Insertion
import Utilmm.Hash.Removal
import Utilmm.Hash.Copy
import Utilmm.Hash.Objects
import Utilmm.Hash.Iteration
import Utilmm.Hash.Hashing
import Utilmm.Hash.Placement
import Utilmm.Hash.Models
import Utilmm.Hash.Refinement
import Utilmm.Functional.CachedFn
import Utilmm.Singleton.Server
import Utilmm.Singleton.Clients
import Utilmm.Singleton.Nested
import Utilmm.Singleton.Deletion
import Utilmm.Singleton.Lifetime
import Utilmm.Smart.Pointer
import Utilmm.Smart.Memory
import Utilmm.Smart.RefCount
import Utilmm.Smart.Uniq
import Utilmm.Smart.OverTable
import Utilmm.Smart.OverTable.Simulation
import Utilmm.Smart.OverTable.Agreement
import Utilmm.Memory.DynamicPool
import Utilmm.System.Process
import Utilmm.Graph.IteratorSequence
import Utilmm.Graph.UndirectedGraph
import Utilmm.Graph.UndirectedDfs
import Utilmm.Graph.DfsVisits
import Utilmm.Graph.DfsForest
import Utilmm.System.Children
import Utilmm.Core.Groups
import Utilmm.Hash.Duplicates
import Utilmm.Hash.Ranges
import Utilmm.Hash.Returned
import Utilmm.ConfigFile.ValueLists
import Utilmm.CommandLine.Order
import Utilmm.CommandLine.Spelling
import Utilmm.CommandLine.Descriptions
import Utilmm.Core.Descriptors
import Utilmm.System.Redirection
import Utilmm.System.Ownership
import Utilmm.Graph.Classification
import Utilmm.Graph.Terminator
import Utilmm.ConfigFile.ShellExpand
import Utilmm.Core.Pieces
import Utilmm.StringTools.Split
import Utilmm.Core.CString
import Utilmm.System.UnixError
import Utilmm.System.Handshake
import Utilmm.Core.Bytes
import Utilmm.System.Endian
import Utilmm.Core.Ledger
import Utilmm.Memory.DynamicAuto
import Utilmm.Memory.ObjectPool
import Utilmm.System.AutoClose
import Utilmm.System.Tempfile
import Utilmm.System.SocketAddress
import Utilmm.ConfigFile.PkgconfigCalls
import Utilmm.AutoFlag
import Utilmm.ConfigSearch.ConfigurationFinder
import Utilmm.ConfigFile.Pkgconfig
import Utilmm.Types.Factory
import Utilmm.Core.Squeeze
import Utilmm.StringTools.CleanPath
import Utilmm.Hash.Jumps
import Utilmm.Core.Forest
import Utilmm.ConfigFile.Scan
import Utilmm.ConfigFile.Lifetime
import Utilmm.Core.Environ
import Utilmm.System.Image
import Utilmm.Hash.Accounting
import Utilmm.Plugin.Dll
import Utilmm.System.Socket
import Utilmm.Functional.IdGen
