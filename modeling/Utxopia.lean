import Utxopia.Bridge
import Utxopia.LightClient.Batching
import Utxopia.LightClient.Compact
import Utxopia.LightClient.Completeness
import Utxopia.LightClient.NextWork
import Utxopia.LightClient.Seeding
import Utxopia.LightClient.TxIndex
import Utxopia.Policy.Exits
import Utxopia.Policy.LockStep
import Utxopia.Pool.Addresses
import Utxopia.Pool.BtcLedger
import Utxopia.Pool.Committable
import Utxopia.Pool.CreditedOutput
import Utxopia.Pool.DepositCap
import Utxopia.Pool.FieldElements
import Utxopia.Pool.Governance
import Utxopia.Pool.Groth16
import Utxopia.Pool.Intents
import Utxopia.Pool.Isolation
import Utxopia.Pool.MintExtensions
import Utxopia.Pool.OneTransaction
import Utxopia.Pool.Payout
import Utxopia.Pool.PlacedNotes
import Utxopia.Pool.Prevouts
import Utxopia.Pool.RootHistory
import Utxopia.Pool.Secp256k1
import Utxopia.Pool.Separation
import Utxopia.Pool.SigMsg
import Utxopia.Pool.SpentCount
import Utxopia.Pool.TokenLimits
import Utxopia.Pool.TxScanner
import Utxopia.Pool.VerifyingKeys
