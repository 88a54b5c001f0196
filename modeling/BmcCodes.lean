import BmcCodes.Adc.Addressing
import BmcCodes.Adc.Calibration
import BmcCodes.Adc.ChannelBits
import BmcCodes.Adc.ChannelRange
import BmcCodes.Adc.ClockRegister
import BmcCodes.Adc.Define
import BmcCodes.Adc.DivisorField
import BmcCodes.Adc.EnableBits
import BmcCodes.Adc.Original
import BmcCodes.Adc.Rewrite
import BmcCodes.Adc.Service
import BmcCodes.Adc.StubValues
import BmcCodes.Adc.Suite
import BmcCodes.Adc.Tdd
import BmcCodes.Adc.TddSimulation
import BmcCodes.BitParse.Alignment
import BmcCodes.BitParse.Arguments
import BmcCodes.BitParse.CommandLine
import BmcCodes.BitParse.Printer
import BmcCodes.BitParse.Segments
import BmcCodes.Ipmb.Agreement
import BmcCodes.Ipmb.Answers
import BmcCodes.Ipmb.I2cRaw
import BmcCodes.Ipmb.Programs
import BmcCodes.Ipmb.Protocol
import BmcCodes.Ipmb.RawTransfer
import BmcCodes.Ipmb.Scan
import BmcCodes.Lib.BigEndian
import BmcCodes.Lib.CInt
import BmcCodes.Lib.CString
import BmcCodes.Lib.Columns
import BmcCodes.Lib.Flags
import BmcCodes.Lib.Framing
import BmcCodes.Lib.LastWrite
import BmcCodes.Lib.Machine
import BmcCodes.Lib.Monitor
import BmcCodes.Lib.Network
import BmcCodes.Lib.Numeral
import BmcCodes.Lib.Script
import BmcCodes.Lib.SerialMemory
import BmcCodes.Lib.Update
import BmcCodes.Uart.LineSettings
import BmcCodes.Uart.Main
import BmcCodes.Uart.Receive
import BmcCodes.Uart.Termios
import BmcCodes.Uart.UartRaw
import BmcCodes.Uboot.Acknowledge
import BmcCodes.Uboot.AfterFailure
import BmcCodes.Uboot.AstI2c
import BmcCodes.Uboot.AttachedBus
import BmcCodes.Uboot.BusArgument
import BmcCodes.Uboot.BusRelease
import BmcCodes.Uboot.Commands
import BmcCodes.Uboot.Frames
import BmcCodes.Uboot.Handshake
import BmcCodes.Uboot.MemoryChips
import BmcCodes.Uboot.PinSetup
import BmcCodes.Uboot.Polling
import BmcCodes.Uboot.ReadBack
import BmcCodes.Uboot.RegisterRead
import BmcCodes.Uboot.SlaveReplies
import BmcCodes.Uboot.Steps
import BmcCodes.Uboot.Window
import BmcCodes.UnitTest.StringAssertion
import BmcCodes.UnitTest.Template
import BmcCodes.UnitTest.Verdict
