import UcVfs.Framework.Ring
import UcVfs.Vfs.Clist
import UcVfs.Vfs.Types
import UcVfs.Framework.Interleaving
import UcVfs.Vfs.Mounts
import UcVfs.Vfs.Actions
import UcVfs.Vfs.Operations
import UcVfs.Vfs.Holdings
import UcVfs.Vfs.Ledgers
import UcVfs.Vfs.Contract
import UcVfs.Vfs.Calls
import UcVfs.Vfs.Obligations
import UcVfs.Vfs.Runs
import UcVfs.Vfs.Descriptors
import UcVfs.Vfs.Lifetimes
import UcVfs.Vfs.PinAccounting
import UcVfs.Framework.LastMax
import UcVfs.Vfs.MountList
import UcVfs.Vfs.Resolution
import UcVfs.Vfs.LifeCycle
import UcVfs.Fatfs.Printf
import UcVfs.Fatfs.Adapter
import UcVfs.Fatfs.PathNames
import UcVfs.Fatfs.PathOps
import UcVfs.Fatfs.FileStatus
import UcVfs.Fatfs.RootDir
import UcVfs.Fatfs.DirVolume
import UcVfs.Framework.Flags
import UcVfs.Littlefs.Open
import UcVfs.Spiffs.Open
import UcVfs.Filesystems.OpenFlags
import UcVfs.Fatfs.SharedDrive
import UcVfs.Fatfs.NumberedFiles
import UcVfs.Fatfs.TableNumbers
import UcVfs.Fatfs.PrivateVolume
import UcVfs.Fatfs.Serving
import UcVfs.Fatfs.Sharing
import UcVfs.Fatfs.VolumeCalls
import UcVfs.Fatfs.Isolation
import UcVfs.Vfs.DirHandles
import UcVfs.Vfs.MissingOperations
import UcVfs.Vfs.ConsistentCalls
import UcVfs.Devices.Ramdisk
import UcVfs.Devices.Callbacks
import UcVfs.Littlefs.Device
import UcVfs.Framework.Expansion
import UcVfs.Framework.Locks
import UcVfs.Littlefs.Adapter
import UcVfs.Vfs.Locking
import UcVfs.Vfs.Footprint
import UcVfs.Filesystems.LockBalance
import UcVfs.Littlefs.CacheBlocks
import UcVfs.Filesystems.Drivers
import UcVfs.Filesystems.StatExact
import UcVfs.Framework.Enumeration
import UcVfs.Vfs.Listing
import UcVfs.Fatfs.RootTable
import UcVfs.Spiffs.Lookup
import UcVfs.Littlefs.RootChain
import UcVfs.Filesystems.ListingExact
import UcVfs.Devices.FlatMemory
import UcVfs.Vfs.ClistSequence
import UcVfs.Vfs.Readline
import UcVfs.Fatfs.Timestamps
import UcVfs.Framework.Components
import UcVfs.Vfs.Normalize
import UcVfs.Vfs.NormalForm
import UcVfs.Littlefs.Buffers
import UcVfs.Framework.Scratch
import UcVfs.Filesystems.PathBuffers
import UcVfs.Vfs.Seeking
import UcVfs.Fatfs.ClusterSeek
import UcVfs.Littlefs.FileSeek
import UcVfs.Spiffs.FileSeek
import UcVfs.Filesystems.SeekExact
import UcVfs.Framework.LittleEndian
import UcVfs.Fatfs.Window
import UcVfs.Fatfs.FatTable
import UcVfs.Fatfs.ClusterChains
import UcVfs.Fatfs.DataArea
import UcVfs.Fatfs.FileData
import UcVfs.Fatfs.FileRead
import UcVfs.Fatfs.FileWrite
import UcVfs.Fatfs.FileMove
import UcVfs.Fatfs.FileSync
import UcVfs.Fatfs.FileOpen
import UcVfs.Fatfs.FileEntry
import UcVfs.Fatfs.OpenFiles
import UcVfs.Framework.Links
