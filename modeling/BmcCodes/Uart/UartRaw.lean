import BmcCodes.Uart.Termios

/-!
# Setting up the line to the display

`set_opt` of `uart_raw.c` composes a `struct termios` from a speed, a number of data
bits, a letter for the parity and a number of stop bits, and installs it.  The results
of the two calls that can fail are parameters, and the file descriptor is left out.
-/

namespace BmcCodes.Uart.UartRaw

/-- A character constant. -/
def letter (c : Char) : Byte := BitVec.ofNat 8 c.toNat

/-- What the function does: it flushes the input, installs a termios, and reports
errors. -/
inductive Event where
  | tcflush
  | tcsetattr (t : Termios)
  | perror (text : String)
  deriving DecidableEq, Repr

variable (hdr : Header)

/-! ## The four switches -/

def setDataBits (nBits : Int) (newtio : Termios) : Termios :=
  if nBits = 7 then { newtio with cflag := newtio.cflag ||| hdr.cs7 }
  else if nBits = 8 then { newtio with cflag := newtio.cflag ||| hdr.cs8 }
  else newtio

def setParity (nEvent : Byte) (newtio : Termios) : Termios :=
  if nEvent = letter 'O' then
    { newtio with
      cflag := newtio.cflag ||| hdr.control .parenb ||| hdr.control .parodd
      iflag := newtio.iflag ||| (hdr.inpck ||| hdr.istrip) }
  else if nEvent = letter 'E' then
    { newtio with
      iflag := newtio.iflag ||| (hdr.inpck ||| hdr.istrip)
      cflag := (newtio.cflag ||| hdr.control .parenb) &&& ~~~hdr.control .parodd }
  else if nEvent = letter 'N' then
    { newtio with cflag := newtio.cflag &&& ~~~hdr.control .parenb }
  else newtio

/-- The constant that the speed switch selects. -/
def speedConstant (nSpeed : Int) : Word :=
  if nSpeed = 2400 then hdr.b2400
  else if nSpeed = 4800 then hdr.b4800
  else if nSpeed = 9600 then hdr.b9600
  else if nSpeed = 115200 then hdr.b115200
  else if nSpeed = 460800 then hdr.b460800
  else hdr.b9600

/-- The speed switch.  glibc stores the speed in the `CBAUD` bits of `c_cflag` as well;
that copy is left out. -/
def setSpeed (nSpeed : Int) (newtio : Termios) : Termios :=
  cfsetospeed (cfsetispeed newtio (speedConstant hdr nSpeed)) (speedConstant hdr nSpeed)

def setStopBits (nStop : Int) (newtio : Termios) : Termios :=
  if nStop = 1 then { newtio with cflag := newtio.cflag &&& ~~~hdr.control .cstopb }
  else if nStop = 2 then { newtio with cflag := newtio.cflag ||| hdr.control .cstopb }
  else newtio

/-! ## The function -/

/-- `newtio` before the switches. -/
def rawTermios : Termios :=
  let newtio := bzero hdr
  let newtio := { newtio with cflag := newtio.cflag ||| (hdr.control .clocal ||| hdr.control .cread) }
  let newtio := { newtio with cflag := newtio.cflag &&& ~~~hdr.control .csize }
  { newtio with lflag := newtio.lflag &&& ~~~hdr.icanon }

/-- `newtio` as it is installed. -/
def lineTermios (nSpeed nBits : Int) (nEvent : Byte) (nStop : Int) : Termios :=
  let newtio := setDataBits hdr nBits (rawTermios hdr)
  let newtio := setParity hdr nEvent newtio
  let newtio := setSpeed hdr nSpeed newtio
  let newtio := setStopBits hdr nStop newtio
  { newtio with cc := (newtio.cc.set hdr.vtime 5).set hdr.vmin 0 }

/-- `set_opt`. -/
def setOpt (tcgetattr : Int) (tcsetattr : Termios → Int) (nSpeed nBits : Int)
    (nEvent : Byte) (nStop : Int) : Int × List Event :=
  if tcgetattr ≠ 0 then (-1, [.perror "error:SetupSerial 3\n"])
  else
    let newtio := lineTermios hdr nSpeed nBits nEvent nStop
    if tcsetattr newtio ≠ 0 then
      (-1, [.tcflush, .tcsetattr newtio, .perror "com set error\n"])
    else (0, [.tcflush, .tcsetattr newtio])

/-- The termios structures that a run installs. -/
def installed (events : List Event) : List Termios :=
  events.filterMap fun
    | .tcsetattr t => some t
    | _ => none

end BmcCodes.Uart.UartRaw
