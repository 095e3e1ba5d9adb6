import BlackcoinMore.Primitives
import BlackcoinMore.ByteCodec
import BlackcoinMore.ExceptFold
import BlackcoinMore.Serialize
import BlackcoinMore.SerializeRoundTrip
import BlackcoinMore.ScriptOps
import BlackcoinMore.Sighash
import BlackcoinMore.SighashReference
import BlackcoinMore.Coins
import BlackcoinMore.Compressor
import BlackcoinMore.VarInt
import BlackcoinMore.CoinSerialize
import BlackcoinMore.KeyedFold
import BlackcoinMore.CoinsCache
import BlackcoinMore.CoinsCacheInvariant
import BlackcoinMore.CoinsCacheWrite
import BlackcoinMore.CoinsCacheRefinement
import BlackcoinMore.ChainParams
import BlackcoinMore.TxVerify
import BlackcoinMore.ArithUint256
import BlackcoinMore.Limbs
import BlackcoinMore.ArithCompact
import BlackcoinMore.ArithLoops
import BlackcoinMore.Merkle
import BlackcoinMore.PartialMerkle
import BlackcoinMore.BlockChecks
import BlackcoinMore.ConnectBlock
import BlackcoinMore.ConnectClock
import BlackcoinMore.BlockIndex
import BlackcoinMore.BlockProof
import BlackcoinMore.StakeKernel
import BlackcoinMore.SkipList
import BlackcoinMore.Pow
import BlackcoinMore.PowRetarget
import BlackcoinMore.ChainState
import BlackcoinMore.AcceptBlock
import BlackcoinMore.HeaderTime
import BlackcoinMore.Miner
import BlackcoinMore.BlockEncodings
import BlackcoinMore.Orphanage
import BlackcoinMore.OrphanageInvariant
import BlackcoinMore.OrphanageRuns
import BlackcoinMore.BlockKind
import BlackcoinMore.DisconnectBlock
import BlackcoinMore.DisconnectRoundTrip
import BlackcoinMore.ActivateChain
import BlackcoinMore.IndexSync
import BlackcoinMore.ReorgDepth
import BlackcoinMore.DifferenceFormatter
import BlackcoinMore.MerkleMutation
import BlackcoinMore.ScriptNum
import BlackcoinMore.Base58
import BlackcoinMore.Bech32
import BlackcoinMore.Base58RoundTrip
import BlackcoinMore.ConditionStack
import BlackcoinMore.MoneyStr
import BlackcoinMore.CoinSelection
import BlackcoinMore.BitList
import BlackcoinMore.CoinSelectionBnB
import BlackcoinMore.GolombRice
import BlackcoinMore.BlockFilter
import BlackcoinMore.Net
import BlackcoinMore.NetFrames
import BlackcoinMore.NetLink
import BlackcoinMore.MedianTime
import BlackcoinMore.VersionBitsRuns
import BlackcoinMore.ExceptSpec
import BlackcoinMore.Interpreter
import BlackcoinMore.InterpreterFrame
import BlackcoinMore.InterpreterRefinement
import BlackcoinMore.InterpreterSafety
