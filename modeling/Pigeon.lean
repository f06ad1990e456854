import Pigeon.SendOrder
import Pigeon.Streams
import Pigeon.Interop
import Pigeon.RecvOrder
import Pigeon.Rendezvous
import Pigeon.CeremonyClose
import Pigeon.CarrierSwap
import Pigeon.ListenerClose
import Pigeon.CIncoming
import Pigeon.LanUpgrade
import Pigeon.Ngtcp2Handles
import Pigeon.Ngtcp2Bytes
import Pigeon.BridgedStream
import Pigeon.RelayFront
import Pigeon.CwireNames
import Pigeon.ActivationRun
import Pigeon.ConfirmCode
import Pigeon.DatagramRecv
import Pigeon.PairingProtocol
import Pigeon.Base64Codec
import Pigeon.Routes
import Pigeon.FramedReaders
import Pigeon.UnionFormats
import Pigeon.NativeFormats
import Pigeon.NativeGreeting
import Pigeon.Ngtcp2Promotion
import Pigeon.Ngtcp2Slots
import Pigeon.Backchannel
import Pigeon.BackchannelAccept
import Pigeon.LanOffers
import Pigeon.TlaChannels
import Pigeon.EmptyStep
import Pigeon.Declarations
import Pigeon.CReturns
import Pigeon.Literals
import Pigeon.StateHierarchy
import Pigeon.TlaRoutes
import Pigeon.PongTimers
import Pigeon.PathSwitch
import Pigeon.Loopback
