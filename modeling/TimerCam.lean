import TimerCam.Lib.Octets
import TimerCam.Lib.Base64
import TimerCam.Lib.UrlForm
import TimerCam.Lib.Multipart
import TimerCam.Lib.Calendar
import TimerCam.Lib.Uptime
import TimerCam.Lib.Lease
import TimerCam.Lib.History
import TimerCam.Lib.Polling
import TimerCam.Lib.Socket
import TimerCam.Lib.Mealy
import TimerCam.Lib.Wire
import TimerCam.Http.Body
import TimerCam.Http.Chunks
import TimerCam.Camera
import TimerCam.Wifi
import TimerCam.Stream.Handlers
import TimerCam.Stream.Sketch
import TimerCam.Stream.Reconnect
import TimerCam.Stream.Startup
import TimerCam.Stream.Guard
import TimerCam.Stream.Framing
import TimerCam.Stream.ShortWrites
import TimerCam.Lib.Builder
import TimerCam.Timelapse.Encode
import TimerCam.Timelapse.Upload
import TimerCam.Timelapse.Chunks
import TimerCam.Timelapse.Sketch
import TimerCam.Timelapse.Attempt
import TimerCam.Timelapse.Body
import TimerCam.Timelapse.Schedule
import TimerCam.Timelapse.Announce
import TimerCam.Timelapse.Timing
import TimerCam.Timelapse.Names
import TimerCam.Timelapse.Report
import TimerCam.Timelapse.Delivery
import TimerCam.Ownership
import TimerCam.Timelapse.Machine
import TimerCam.Http.Exchanges
import TimerCam.Http.WebSocket
import TimerCam.Http.Listening
import TimerCam.Http.Upgrade
import TimerCam.Http.Request
