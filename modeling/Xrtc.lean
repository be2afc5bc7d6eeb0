import Xrtc.Accepts
import Xrtc.BackpressureTight
import Xrtc.ComLog
import Xrtc.FailedSend
import Xrtc.GlogRun
import Xrtc.GoConfigSave
import Xrtc.GoConfigValue
import Xrtc.LockFreeRun
import Xrtc.LogFiles
import Xrtc.LogThread
import Xrtc.PushCall
import Xrtc.QueryOnce
import Xrtc.QueryRoom
import Xrtc.ReplyBlocks
import Xrtc.ShutdownWork
import Xrtc.SignalLog
import Xrtc.TableGrowth
