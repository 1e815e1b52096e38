import MinotaurRobot.Lib.Ring
import MinotaurRobot.Lib.Framing
import MinotaurRobot.Lib.Pieces
import MinotaurRobot.Lib.Cells
import MinotaurRobot.Lib.Runs
import MinotaurRobot.Lib.Widening
import MinotaurRobot.Lib.StructFormat
import MinotaurRobot.Lib.Marked
import MinotaurRobot.Lib.TripleBuffer
import MinotaurRobot.Lib.WeakOrder
import MinotaurRobot.Lib.Counter
import MinotaurRobot.Lib.Backlog
import MinotaurRobot.Lib.While
import MinotaurRobot.Lib.Sections
import MinotaurRobot.Lib.Window
import MinotaurRobot.Lib.BoundedQueue
import MinotaurRobot.Lib.Argmax
import MinotaurRobot.Lib.Incremental
import MinotaurRobot.Lib.LeastSquares
import MinotaurRobot.Lib.Fourier
import MinotaurRobot.Lib.Bitmap
import MinotaurRobot.Mcu.Buffer
import MinotaurRobot.Mcu.Fifo
import MinotaurRobot.Mcu.Encoder
import MinotaurRobot.Mcu.State
import MinotaurRobot.Mcu.MainLoop
import MinotaurRobot.Mcu.Responses
import MinotaurRobot.Mcu.IrBank
import MinotaurRobot.Mcu.Runs
import MinotaurRobot.Mcu.Inputs
import MinotaurRobot.Mcu.Avoidance
import MinotaurRobot.Mcu.Motors
import MinotaurRobot.Mcu.FuelGauge
import MinotaurRobot.Mcu.UartFifo
import MinotaurRobot.Mcu.PrintString
import MinotaurRobot.Mcu.TxWakeup
import MinotaurRobot.Mcu.EncoderResponse
import MinotaurRobot.Host.Packet
import MinotaurRobot.Host.SerialRing
import MinotaurRobot.Host.Recv
import MinotaurRobot.Host.Decode
import MinotaurRobot.Host.Reachable
import MinotaurRobot.Host.Checks
import MinotaurRobot.Host.Elapsed
import MinotaurRobot.Host.Steady
import MinotaurRobot.Host.Displacement
import MinotaurRobot.Host.Turns
import MinotaurRobot.Host.CommandQueue
import MinotaurRobot.Host.Schedule
import MinotaurRobot.Host.Cuts
import MinotaurRobot.Host.Unserved
import MinotaurRobot.Host.Battery
import MinotaurRobot.Host.SendPacket
import MinotaurRobot.Host.SentOrder
import MinotaurRobot.Link.Polls
import MinotaurRobot.Link.SensorFormat
import MinotaurRobot.Link.Downlink
import MinotaurRobot.Link.Resync
import MinotaurRobot.Link.Uplink
import MinotaurRobot.Link.Telemetry
import MinotaurRobot.Link.Shown
import MinotaurRobot.Cnc.MainCncWait
import MinotaurRobot.Cnc.Metrics
import MinotaurRobot.Cnc.Server
import MinotaurRobot.Cnc.Waiting
import MinotaurRobot.Cnc.Coalesce
import MinotaurRobot.Cnc.Segments
import MinotaurRobot.Cnc.Keys
import MinotaurRobot.Cnc.Messages
import MinotaurRobot.Cnc.Fleet
import MinotaurRobot.Camera.Kinect
import MinotaurRobot.Camera.DepthBuffers
import MinotaurRobot.Camera.VideoDump
import MinotaurRobot.Camera.Yuv
import MinotaurRobot.Camera.Source
import MinotaurRobot.Camera.Picture
import MinotaurRobot.Map.Point
import MinotaurRobot.Map.OpenCount
import MinotaurRobot.Map.Sectors
import MinotaurRobot.Map.MapFrame
import MinotaurRobot.Map.Wall
import MinotaurRobot.Map.Peaks
import MinotaurRobot.Map.Placement
import MinotaurRobot.Map.Blocks
import MinotaurRobot.Map.Votes
import MinotaurRobot.Web.Hybi07
import MinotaurRobot.Web.Hybi00
import MinotaurRobot.Web.Handshake
import MinotaurRobot.Web.Connection
import MinotaurRobot.Web.Sent
import MinotaurRobot.Web.Stream
import MinotaurRobot.Web.Session
import MinotaurRobot.Web.Browser
import MinotaurRobot.Web.Commands
import MinotaurRobot.Link.Drive
import MinotaurRobot.Link.Modes
