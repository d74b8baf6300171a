import EverPlayground.Math.Positional
import EverPlayground.Math.TwosComplement
import EverPlayground.Semantics.Mutation
import EverPlayground.Semantics.Cursor
import EverPlayground.Semantics.Attempts
import EverPlayground.Semantics.Store
import EverPlayground.Semantics.Trace
import EverPlayground.Semantics.Forward
import EverPlayground.Semantics.Worklist
import EverPlayground.Data.PrefixTree
import EverPlayground.Python.Int
import EverPlayground.Python.Literal
import EverPlayground.Python.Fraction
import EverPlayground.Python.Format
import EverPlayground.Python.Call
import EverPlayground.TonTypes.Cell
import EverPlayground.TonTypes.TlB
import EverPlayground.TonTypes.Interface
import EverPlayground.TonTypes.Reference
import EverPlayground.TonTypes.Hashmap
import EverPlayground.TonTypes.HashmapReference
import EverPlayground.Utils
import EverPlayground.Slice
import EverPlayground.Builder
import EverPlayground.Builder.Append
import EverPlayground.Builder.Run
import EverPlayground.Builder.Fits
import EverPlayground.Builder.Observe
import EverPlayground.Fields
import EverPlayground.Fields.Cuts
import EverPlayground.Dictionary
import EverPlayground.Dictionary.Run
import EverPlayground.StateInit
import EverPlayground.StateInit.Reuse
import EverPlayground.Currency
import EverPlayground.Currency.FromStr
import EverPlayground.Readers
import EverPlayground.Address
import EverPlayground.Address.Adnl
import EverPlayground.Address.Loaded
import EverPlayground.Address.Print
import EverPlayground.DumpCell
import EverPlayground.PyCell
import EverPlayground.PyCell.Routes
import EverPlayground.Slice.Print
import EverPlayground.Slice.Observe
import EverPlayground.UniqueCells
import EverPlayground.Libraries
import EverPlayground.HighloadWallet.Message
import EverPlayground.HighloadWallet.Orders
import EverPlayground.HighloadWallet.Collect
import EverPlayground.HighloadWallet.Run
import EverPlayground.ExternalMessage
import EverPlayground.HighloadWallet.Delivery
import EverPlayground.HighloadWallet.Main
import EverPlayground.TestGiver
import EverPlayground.ValidatorElectReq
import EverPlayground.TonVm.Interface
import EverPlayground.TonVm.Reference
import EverPlayground.Continuations
import EverPlayground.Continuations.Compare
import EverPlayground.Continuations.SaveList
import EverPlayground.Vm
import EverPlayground.Vm.Result
import EverPlayground.Vm.Runvm
