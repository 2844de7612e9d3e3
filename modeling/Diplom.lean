import Diplom.Proof.Stream
import Diplom.Proof.Tokens
import Diplom.Proof.Refinement
import Diplom.Proof.Sessions
import Diplom.Proof.Attempt
import Diplom.Proof.Life
import Diplom.Proof.Frames
import Diplom.Proof.Written
import Diplom.Proof.RecvBuffer
import Diplom.Proof.Assertions
import Diplom.Proof.Interest
import Diplom.Proof.Callbacks
import Diplom.Proof.StaleEvents
import Diplom.Proof.Neighbours
import Diplom.Proof.Lock
import Diplom.Proof.Replay
import Diplom.Proof.GraphText
import Diplom.Proof.Parcels
import Diplom.Proof.Queues
import Diplom.Proof.Headers
import Diplom.Proof.LossTimers
import Diplom.Proof.Interfaces
import Diplom.Proof.Start
import Diplom.Proof.Hangup
import Diplom.Proof.Network
import Diplom.Proof.Silence
import Diplom.Proof.AsyncRun
import Diplom.Proof.Incoming
import Diplom.Proof.Times
import Diplom.Proof.Codecs
import Diplom.Proof.ConfigRuns
import Diplom.Proof.TransportLogs
import Diplom.Proof.LoopLock
import Diplom.Proof.Arrival
import Diplom.Proof.Delivery
import Diplom.Proof.PrintedLogs
import Diplom.Proof.Pictures
import Diplom.Proof.Player
import Diplom.Proof.Screen
