import MTower.Lib.Memory
import MTower.Lib.Loop
import MTower.Lib.Exec
import MTower.Lib.Heap
import MTower.Kernel.Param
import MTower.Kernel.Session
import MTower.Kernel.Rules
import MTower.Kernel.Table
import MTower.Kernel.Requests
import MTower.Client.Transport
import MTower.Client.Layout
import MTower.Client.Frame
import MTower.Kernel.Current
import MTower.Cryp.Objects
import MTower.Cryp.States
import MTower.Cryp.Rules
import MTower.Cryp.Lifetime
import MTower.Lib.Ownership
import MTower.Client.Operation
import MTower.Cryp.Ownership
import MTower.Kernel.Entry
import MTower.Client.Marshal
import MTower.Client.Invoke
import MTower.Client.Open
import MTower.Client.Outcome
import MTower.Lib.TailQueue
import MTower.Storage.Objects
import MTower.Storage.Rules
import MTower.Storage.Store
import MTower.Storage.Runs
import MTower.Storage.History
import MTower.Storage.Api
import MTower.Storage.Sharing
import MTower.Client.Results
import MTower.Kernel.Dispatch
import MTower.Cryp.Binary
import MTower.Cryp.Info
import MTower.Cryp.KeySize
import MTower.Cryp.Room
import MTower.Cryp.Secret
import MTower.Lib.BlockStream
import MTower.Oper.Allocation
import MTower.Oper.Buffer
import MTower.Oper.Feeding
import MTower.Oper.Orderly
import MTower.Lib.Digest
import MTower.Oper.Chunking
import MTower.Oper.Compare
import MTower.Oper.Lengths
import MTower.Cryp.CheckAttr
import MTower.Cryp.Decode
import MTower.Cryp.Encode
import MTower.Cryp.Entries
import MTower.Cryp.GetAttr
import MTower.Client.Lookup
import MTower.Hotp.Commands
import MTower.Hotp.Sequence
import MTower.Kernel.CopyIn
import MTower.Lib.BitString
import MTower.Lib.Words
import MTower.Wallet.Address
import MTower.Wallet.Bip32
import MTower.Wallet.Bip39
import MTower.Cryp.Apart
import MTower.Oper.Traces
import MTower.Cryp.Convert
import MTower.Tools.Image
import MTower.Arith.Aliases
import MTower.Lib.Fuel
import MTower.Arith.Egcd
import MTower.Arith.ExtendedGcd
import MTower.Cipher.Session
import MTower.Wallet.Commands
import MTower.Wallet.Restore
import MTower.Cryp.Balance
import MTower.Cryp.Session
import MTower.Lib.Chunks
import MTower.PortHeap.Blocks
import MTower.PortHeap.Links
import MTower.PortHeap.Tiling
import MTower.PortHeap.Calls
import MTower.PortHeap.Runs
import MTower.PortHeap.Clients
import MTower.Lib.Iterated
import MTower.Lib.Window
import MTower.Lib.WordBytes
import MTower.Sha2.Transform
import MTower.Sha2.Contexts
import MTower.Sha2.Messages
import MTower.Sha2.Hmac
import MTower.Sha2.Pbkdf2
import MTower.Wallet.Seed
import MTower.Lib.Limbs
import MTower.Curve.Bignum
import MTower.Curve.Modular
import MTower.Curve.Multiply
import MTower.Curve.Jacobian
import MTower.Curve.Group
