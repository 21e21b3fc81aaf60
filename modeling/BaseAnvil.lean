import BaseAnvil.Pool.QueueIndex
import BaseAnvil.Pool.Links
import BaseAnvil.Pool.Iterate
import BaseAnvil.Pool.Prune
import BaseAnvil.Pool.Removal
import BaseAnvil.Chain.Parallel
import BaseAnvil.Chain.Restore
import BaseAnvil.Chain.Clock
import BaseAnvil.Forks.Persistent
import BaseAnvil.Forks.Issued
import BaseAnvil.Forks.Isolation
import BaseAnvil.Cheats.PrankScope
import BaseAnvil.Cheats.ExpectCallSound
import BaseAnvil.Cheats.ExpectEmitOrder
import BaseAnvil.Fs.Confined
import BaseAnvil.Cheats.GasSnapshotSound
import BaseAnvil.Script.Summary
import BaseAnvil.Script.Prepared
import BaseAnvil.Cheats.DelegationValid
import BaseAnvil.Fuzz.ShrinkSound
import BaseAnvil.Fuzz.Replay
import BaseAnvil.Cast.Logs
import BaseAnvil.Primitives.Receipt
import BaseAnvil.Primitives.RequestBuilds
import BaseAnvil.Primitives.Conversion
import BaseAnvil.Linking.Nonce
import BaseAnvil.Linking.Create2
import BaseAnvil.Chain.Eviction
import BaseAnvil.Chain.Reload
import BaseAnvil.Chain.Solvency
import BaseAnvil.Chain.MinedOnce
import BaseAnvil.Chain.BlobGas
import BaseAnvil.Forks.Answered
import BaseAnvil.Chain.FeeRewards
import BaseAnvil.Cheats.ApproxEq
import BaseAnvil.Cast.Units
