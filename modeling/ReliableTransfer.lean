import ReliableTransfer.Files.AppData
import ReliableTransfer.Files.Segmentation
import ReliableTransfer.Endpoints.WindowSetting
import ReliableTransfer.Parser.Rejection
import ReliableTransfer.Wire.HostOrder
import ReliableTransfer.Workers.Armed
import ReliableTransfer.Workers.Foreign
import ReliableTransfer.Workers.Faithful
import ReliableTransfer.Workers.SelectiveRepeatCC.Window
import ReliableTransfer.Socket.Receive
import ReliableTransfer.Workers.GoBackN.Overrun
import ReliableTransfer.Workers.SelectiveRepeat.AckOrder
import ReliableTransfer.Workers.SelectiveRepeat.Clocked
import ReliableTransfer.Workers.SelectiveRepeatCC.Bursts
import ReliableTransfer.Workers.SelectiveRepeatCC.Refusals
import ReliableTransfer.Workers.SelectiveRepeatCC.Schedule
import ReliableTransfer.Workers.StopWait.Waiting
import ReliableTransfer.Workers.Termination
import ReliableTransfer.Endpoints.Crossing
import ReliableTransfer.Endpoints.Programs
import ReliableTransfer.Endpoints.Requests
import ReliableTransfer.Endpoints.Resumption
import ReliableTransfer.Workers.Stalling
