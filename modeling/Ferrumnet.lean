import Ferrumnet.Integrity
import Ferrumnet.Coverage
import Ferrumnet.FlowControl
import Ferrumnet.FinFinal
import Ferrumnet.Clipping
import Ferrumnet.SackBlocks
import Ferrumnet.FirstCopy
import Ferrumnet.WindowEdge
import Ferrumnet.Handshake
import Ferrumnet.SimultaneousOpen
import Ferrumnet.Corruption
import Ferrumnet.Paws
import Ferrumnet.HalfOpen
import Ferrumnet.LostAck
import Ferrumnet.SendSide
import Ferrumnet.GoBackN
import Ferrumnet.Vanished
import Ferrumnet.Silence
import Ferrumnet.RoundTrip
import Ferrumnet.Recount
import Ferrumnet.Outcome
import Ferrumnet.Payload
import Ferrumnet.Episodes
import Ferrumnet.Relapse
import Ferrumnet.Gate
import Ferrumnet.Owing
import Ferrumnet.Karn
import Ferrumnet.Checksum
import Ferrumnet.Envelope
import Ferrumnet.PathMtu
import Ferrumnet.SackRun
import Ferrumnet.Pipe
import Ferrumnet.NextSeg
import Ferrumnet.ReasmRun
import Ferrumnet.Views
import Ferrumnet.Setting
import Ferrumnet.Pacing
import Ferrumnet.Spin
import Ferrumnet.Lib.Keyed
import Ferrumnet.Runtime
import Ferrumnet.Futures
import Ferrumnet.Table
import Ferrumnet.Dispatch
import Ferrumnet.Wakeups
import Ferrumnet.Incarnations
import Ferrumnet.Announced
import Ferrumnet.Lib.Credit
import Ferrumnet.Driven
import Ferrumnet.AckDivision
import Ferrumnet.EcnRound
import Ferrumnet.Genome
import Ferrumnet.Lib.Straight
import Ferrumnet.Repairs
import Ferrumnet.Bbr
import Ferrumnet.MaxFilter
import Ferrumnet.Headroom
import Ferrumnet.Lib.FreeRunning
import Ferrumnet.Lib.Interleaving
import Ferrumnet.IoUring
import Ferrumnet.Ownership
import Ferrumnet.Submission
import Ferrumnet.Estimator
import Ferrumnet.Sockets
import Ferrumnet.EndOfStream
import Ferrumnet.Fifo
import Ferrumnet.Exchange
import Ferrumnet.Executor
import Ferrumnet.DualQueue
import Ferrumnet.Bmc
import Ferrumnet.Aimd
import Ferrumnet.Cegis
import Ferrumnet.BoardSweep
import Ferrumnet.Enumeration
import Ferrumnet.Rng
import Ferrumnet.FaultLink
import Ferrumnet.Noise
import Ferrumnet.Icmp
import Ferrumnet.Relabel
import Ferrumnet.SeqBlind
import Ferrumnet.RelabelTcb
import Ferrumnet.RelabelOut
import Ferrumnet.Renumber
import Ferrumnet.Bottleneck
import Ferrumnet.Adversary
import Ferrumnet.Search
