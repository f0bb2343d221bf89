import Ventilation.Lib.Machine
import Ventilation.Lib.Raster
import Ventilation.Lib.Picture
import Ventilation.Lib.Layers
import Ventilation.Lib.Buffer
import Ventilation.Lib.Fifo
import Ventilation.Lib.Crc
import Ventilation.Lib.CString
import Ventilation.Lib.Decimal
import Ventilation.Lib.Json
import Ventilation.Lib.JsonNumeral
import Ventilation.Lib.ShiftRegister
import Ventilation.Pico
import Ventilation.IPStack
import Ventilation.IPStackFifo
import Ventilation.IPStackFlow
import Ventilation.IPStackSessions
import Ventilation.IPStackPcb
import Ventilation.Countdown
import Ventilation.Modbus.Crc
import Ventilation.Modbus.Register
import Ventilation.Modbus.Controller
import Ventilation.Modbus.Alarm
import Ventilation.Modbus.Replies
import Ventilation.Modbus.WriteRegister
import Ventilation.Modbus.Protocol
import Ventilation.Modbus.Requests
import Ventilation.Modbus.RoundTrip
import Ventilation.Modbus.Acceptance
import Ventilation.LogHandler
import Ventilation.RecordCrc
import Ventilation.Credentials
import Ventilation.CredentialsRoundTrip
import Ventilation.CredentialsSafety
import Ventilation.LogRings
import Ventilation.LogRefinement
import Ventilation.LogPowerLoss
import Ventilation.Input
import Ventilation.Encoder
import Ventilation.Fan
import Ventilation.FanError
import Ventilation.FanControl
import Ventilation.CommHandler
import Ventilation.Settings
import Ventilation.ControlMessage
import Ventilation.Subscriptions
import Ventilation.MqttSession
import Ventilation.StatusLoop
import Ventilation.StatusLoopCommands
import Ventilation.StatusLoopReadings
import Ventilation.StatusLoopEncoder
import Ventilation.TextInput
import Ventilation.SetUp
import Ventilation.SetUpPress
import Ventilation.SetUpIndex
import Ventilation.SetUpPort
import Ventilation.Display.Font
import Ventilation.Display.MonoVlsb
import Ventilation.Display.Framebuf
import Ventilation.Display.Pixels
import Ventilation.Display.Drawing
import Ventilation.Display.Painting
import Ventilation.Display.Copying
import Ventilation.Lib.PyJson
import Ventilation.Lib.JsonWriter
import Ventilation.Lib.FloatText
import Ventilation.StatusMessage
import Ventilation.Server.Messages
import Ventilation.Server.Keywords
import Ventilation.Server.PushedLogs
import Ventilation.Server.Startup
import Ventilation.Server.Status
import Ventilation.Server.History
import Ventilation.Lib.Wire
import Ventilation.Lib.Topic
import Ventilation.Mqtt.Packet
import Ventilation.Mqtt.Publish
import Ventilation.Mqtt.Client
import Ventilation.Mqtt.Refinement
import Ventilation.Mqtt.Safety
import Ventilation.Mqtt.Network
import Ventilation.Mqtt.Topics
import Ventilation.Mqtt.Subscribe
import Ventilation.Mqtt.Connect
import Ventilation.Mqtt.Keepalive
import Ventilation.Mqtt.Handshake
import Ventilation.Mqtt.Loss
import Ventilation.Mqtt.Delivery
import Ventilation.Mqtt.Outgoing
import Ventilation.Downlink
import Ventilation.Uplink
import Ventilation.ClosedLoop
import Ventilation.Display.Layers
import Ventilation.Display.Menus
import Ventilation.Display.TextField
