import LibCfe.Theory.Transition
import LibCfe.Theory.Simulation
import LibCfe.Theory.Linearizable
import LibCfe.Theory.Pieces
import LibCfe.Theory.Ownership
import LibCfe.Theory.RwLock
import LibCfe.Theory.Ring
import LibCfe.Theory.Chain
import LibCfe.Theory.Round
import LibCfe.Theory.Keyed
import LibCfe.Theory.Pow2
import LibCfe.Cfe.Base
import LibCfe.Cfe.Atomic
import LibCfe.Cfe.List
import LibCfe.Cfe.Lists
import LibCfe.Cfe.Hlist
import LibCfe.Cfe.Ref
import LibCfe.Cfe.Utils
import LibCfe.Registry.Basic
import LibCfe.Registry.Kinds
import LibCfe.Registry.Concurrent
import LibCfe.Registry.Busy
import LibCfe.Registry.Owners
import LibCfe.Registry.Names
import LibCfe.Registry.FullNames
import LibCfe.Registry.Default
import LibCfe.Registry.Order
import LibCfe.Registry.Callbacks
import LibCfe.Registry.Pointer
import LibCfe.Registry.Sections
import LibCfe.Registry.Atomicity
import LibCfe.Registry.Progress
import LibCfe.Fs.World
import LibCfe.Fs.Header
import LibCfe.Fs.Filewriter
import LibCfe.Fs.Size
import LibCfe.Open.Create
import LibCfe.Open.References
import LibCfe.Open.Pieces
import LibCfe.Open.Threads
import LibCfe.Open.TearDown
import LibCfe.Open.Writers
import LibCfe.Open.Failures
import LibCfe.Open.Params
import LibCfe.Open.Mappings
import LibCfe.Open.Fallocate
import LibCfe.Open.Version
import LibCfe.Crypto.Evp
import LibCfe.Crypto.CipherCtx
import LibCfe.Crypto.Contexts
import LibCfe.Crypto.Key
import LibCfe.Crypto.Alloc
import LibCfe.Crypto.HashCtx
import LibCfe.Crypto.Input
import LibCfe.Crypto.Output
import LibCfe.Crypto.Pbkdf
import LibCfe.Crypto.Rand
import LibCfe.Crypto.Iv
import LibCfe.Crypto.RoundTrip
import LibCfe.Keystore.Basic
import LibCfe.Keystore.CoreFoundation
import LibCfe.Keystore.Darwin
import LibCfe.Keystore.Threads
import LibCfe.Keystore.Keyutils
import LibCfe.Keystore.Linux
import LibCfe.Keystore.Serials
import LibCfe.Keystore.LinuxThreads
import LibCfe.Load
