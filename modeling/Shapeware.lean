import Shapeware.AwsFleetProv.Credentials
import Shapeware.AwsFleetProv.Deadlock
import Shapeware.AwsFleetProv.Files
import Shapeware.AwsFleetProv.Lifetime
import Shapeware.AwsFleetProv.Messages
import Shapeware.AwsFleetProv.Mismatch
import Shapeware.AwsFleetProv.Mkdir
import Shapeware.AwsFleetProv.Order
import Shapeware.AwsFleetProv.Provider
import Shapeware.AwsFleetProv.Reports
import Shapeware.AwsFleetProv.Responses
import Shapeware.AwsFleetProv.Retry
import Shapeware.AwsFleetProv.Service
import Shapeware.AwsFleetProv.Steps
import Shapeware.AwsFleetProv.Subscriptions
import Shapeware.CommandLineService.Console
import Shapeware.CommandLineService.Reading
import Shapeware.CommandLineService.Session
import Shapeware.CommandService.Commands
import Shapeware.Cxx
import Shapeware.CxxWait
import Shapeware.Examples.Echo
import Shapeware.Examples.MsgCmd
import Shapeware.Handlers
import Shapeware.Library.Alternation
import Shapeware.Library.Correlation
import Shapeware.Library.Directories
import Shapeware.Library.Effects
import Shapeware.Library.History
import Shapeware.Library.Inevitably
import Shapeware.Library.Levels
import Shapeware.Library.Lines
import Shapeware.Library.Mutexes
import Shapeware.Library.Runs
import Shapeware.MqMessage.Delivery
import Shapeware.MqMessage.Fifo
import Shapeware.MqMessage.Handles
import Shapeware.MqMessage.Progress
import Shapeware.MqMessage.Settling
import Shapeware.MqMessage.TaskQueue
import Shapeware.MqMessage.Transport
import Shapeware.MqMessage.Wakeup
import Shapeware.Mqtt.Completion
import Shapeware.Mqtt.Contexts
import Shapeware.Mqtt.Create
import Shapeware.Mqtt.DeliveryReports
import Shapeware.Mqtt.Disconnect
import Shapeware.Mqtt.Dispatch
import Shapeware.Mqtt.HandlerMap
import Shapeware.Mqtt.Imp
import Shapeware.Mqtt.Ledger
import Shapeware.Mqtt.Locks
import Shapeware.Mqtt.Matching
import Shapeware.Mqtt.Obsolete
import Shapeware.Mqtt.PublishLimit
import Shapeware.Mqtt.PublishOutcome
import Shapeware.Mqtt.Session
import Shapeware.Mqtt.Sessions
import Shapeware.Mqtt.Tokens
import Shapeware.Mqtt.Topics
import Shapeware.RestApi.GetFile
import Shapeware.TaskQueue2.Conservation
import Shapeware.TaskQueue2.Fifo
import Shapeware.TaskQueue2.Progress
import Shapeware.TaskQueue2.Queue
import Shapeware.TaskQueue2.Wakeup
import Shapeware.Websocket.Pairing
import Shapeware.Websocket.Payload
import Shapeware.Websocket.Recipients
import Shapeware.Websocket.Registry
import Shapeware.Websocket.Service
import Shapeware.Websocket.Serving
import Shapeware.Websocket.Stopping
import Shapeware.Websocket.Validate
import Shapeware.WebsocketClient.Client
import Shapeware.WebsocketClient.Connect
import Shapeware.WebsocketClient.Connection
import Shapeware.WebsocketClient.Deactivate
import Shapeware.WebsocketClient.Locks
import Shapeware.ZeroMq.Barriers
import Shapeware.ZeroMq.Handshake
import Shapeware.ZeroMq.Locks
import Shapeware.ZeroMq.NotStuck
import Shapeware.ZeroMq.Pair
import Shapeware.ZeroMq.Phases
import Shapeware.ZeroMq.Progress
import Shapeware.ZeroMq.Replies
import Shapeware.ZeroMq.SendMessage
import Shapeware.ZeroMq.Service
import Shapeware.ZeroMq.Shutdown
import Shapeware.ZeroMq.Sockets
import Shapeware.ZeroMq.WorkerRep
import Shapeware.ZeroMq.WorkerReq
