import BmcCodes.Lib.Flags
import BmcCodes.Uart.UartRaw

/-!
# The line settings that `set_opt` installs

The settings of a line are read back from the termios structure that `set_opt` passes to
`tcsetattr`.  The function never rejects a request: a speed it does not know becomes
9600, and a number of data bits, a parity letter or a number of stop bits that its
switches do not name leaves the field clear.  So the settings are the ones requested
exactly when each switch names its parameter.
-/

namespace BmcCodes.Uart

open BmcCodes.Lib

/-- The settings of a line: speed, data bits, parity (as a letter of `set_opt`) and stop
bits.  A speed or a size that the header does not name is `none`. -/
structure Settings where
  speed : Option Int
  bits : Option Int
  event : Byte
  stop : Int
  deriving DecidableEq, Repr

namespace UartRaw

section Decode

variable (hdr : Header)

/-- The speeds that the header names, by their constants. -/
def speeds : List (Word × Int) :=
  [(hdr.b2400, 2400), (hdr.b4800, 4800), (hdr.b9600, 9600), (hdr.b115200, 115200),
    (hdr.b460800, 460800)]

/-- The sizes of a character, by the content of `CSIZE`. -/
def sizes : List (Word × Int) :=
  [(hdr.cs5, 5), (hdr.cs6, 6), (hdr.cs7, 7), (hdr.cs8, 8)]

/-- The settings of a termios structure.  The two directions have one speed. -/
def settings (t : Termios) : Settings where
  speed := if t.ispeed = t.ospeed then (speeds hdr).lookup t.ispeed else none
  bits := (sizes hdr).lookup (t.cflag &&& hdr.control .csize)
  event := if t.cflag &&& hdr.control .parenb = 0#32 then letter 'N'
    else if t.cflag &&& hdr.control .parodd = 0#32 then letter 'E'
    else letter 'O'
  stop := if t.cflag &&& hdr.control .cstopb = 0#32 then 1 else 2

/-- The number of data bits, if any, that a clear `CSIZE` stands for. -/
def clearSize : Option Int := (sizes hdr).lookup 0#32

/-- The settings that a call asks for. -/
def requested (nSpeed nBits : Int) (nEvent : Byte) (nStop : Int) : Settings :=
  ⟨some nSpeed, some nBits, nEvent, nStop⟩

/-- The settings that a call gets. -/
def honoured (nSpeed nBits : Int) (nEvent : Byte) (nStop : Int) : Settings where
  speed := some (if nSpeed ∈ [2400, 4800, 9600, 115200, 460800] then nSpeed else 9600)
  bits := if nBits ∈ [7, 8] then some nBits else clearSize hdr
  event := if nEvent ∈ [letter 'O', letter 'E'] then nEvent else letter 'N'
  stop := if nStop = 2 then 2 else 1

end Decode

/-! ## The fields of `c_cflag`

Each switch writes its own masks, which are clear until then. -/

section Fields

variable (hdr : Header)

variable {t : Termios} {m : ControlMask}

theorem setDataBits_frame (nBits : Int) (hm : .csize ≠ m) :
    (setDataBits hdr nBits t).cflag &&& hdr.control m = t.cflag &&& hdr.control m := by
  have hsize : ∀ size, size &&& hdr.control .csize = size → size &&& hdr.control m = 0#32 := by
    intro size h
    rw [← h, BitVec.and_assoc, hdr.control_disjoint hm]
    exact BitVec.and_zero
  unfold setDataBits
  split
  · exact Flags.or_and_of_and_eq_zero (hsize _ (hdr.size_and_csize _ (by simp)))
  split
  · exact Flags.or_and_of_and_eq_zero (hsize _ (hdr.size_and_csize _ (by simp)))
  · rfl

theorem setParity_frame (nEvent : Byte) (hparenb : .parenb ≠ m) (hparodd : .parodd ≠ m) :
    (setParity hdr nEvent t).cflag &&& hdr.control m = t.cflag &&& hdr.control m := by
  have henable := hdr.control_disjoint hparenb
  have hodd := hdr.control_disjoint hparodd
  unfold setParity
  split
  · exact (Flags.or_and_of_and_eq_zero hodd).trans (Flags.or_and_of_and_eq_zero henable)
  split
  · exact (Flags.and_not_and_of_and_eq_zero hodd).trans (Flags.or_and_of_and_eq_zero henable)
  split
  · exact Flags.and_not_and_of_and_eq_zero henable
  · rfl

theorem setStopBits_frame (nStop : Int) (hm : .cstopb ≠ m) :
    (setStopBits hdr nStop t).cflag &&& hdr.control m = t.cflag &&& hdr.control m := by
  have hstop := hdr.control_disjoint hm
  unfold setStopBits
  split
  · exact Flags.and_not_and_of_and_eq_zero hstop
  split
  · exact Flags.or_and_of_and_eq_zero hstop
  · rfl

theorem setDataBits_csize (nBits : Int) (ht : t.cflag &&& hdr.control .csize = 0#32) :
    (setDataBits hdr nBits t).cflag &&& hdr.control .csize =
      if nBits = 7 then hdr.cs7 else if nBits = 8 then hdr.cs8 else 0#32 := by
  unfold setDataBits
  split
  · exact Flags.or_and_of_clear ht (hdr.size_and_csize _ (by simp))
  split
  · exact Flags.or_and_of_clear ht (hdr.size_and_csize _ (by simp))
  · exact ht

theorem setParity_parenb (nEvent : Byte) (ht : t.cflag &&& hdr.control .parenb = 0#32) :
    (setParity hdr nEvent t).cflag &&& hdr.control .parenb =
      if nEvent ∈ [letter 'O', letter 'E'] then hdr.control .parenb else 0#32 := by
  have hodd : hdr.control .parodd &&& hdr.control .parenb = 0#32 :=
    hdr.control_disjoint (by decide)
  unfold setParity
  split
  · next h =>
      rw [if_pos (by simp [h])]
      exact (Flags.or_and_of_and_eq_zero hodd).trans Flags.or_and_self
  split
  · next h =>
      rw [if_pos (by simp [h])]
      exact (Flags.and_not_and_of_and_eq_zero hodd).trans Flags.or_and_self
  next hO hE =>
    have hparity : nEvent ∉ [letter 'O', letter 'E'] := by simp [hO, hE]
    rw [if_neg hparity]
    split
    · exact Flags.and_not_and_self
    · exact ht

theorem setParity_parodd (nEvent : Byte) (ht : t.cflag &&& hdr.control .parodd = 0#32) :
    (setParity hdr nEvent t).cflag &&& hdr.control .parodd =
      if nEvent = letter 'O' then hdr.control .parodd else 0#32 := by
  unfold setParity
  split
  · exact Flags.or_and_self
  split
  · exact Flags.and_not_and_self
  split
  · exact (Flags.and_not_and_of_and_eq_zero (hdr.control_disjoint (by decide))).trans ht
  · exact ht

theorem setStopBits_cstopb (nStop : Int) (ht : t.cflag &&& hdr.control .cstopb = 0#32) :
    (setStopBits hdr nStop t).cflag &&& hdr.control .cstopb =
      if nStop = 2 then hdr.control .cstopb else 0#32 := by
  unfold setStopBits
  split
  · next h =>
      rw [if_neg (by omega)]
      exact Flags.and_not_and_self
  split
  · exact Flags.or_and_self
  · exact ht

/-- Before the switches, none of their masks has a bit in `c_cflag`. -/
theorem rawTermios_clear (hclocal : .clocal ≠ m) (hcread : .cread ≠ m) :
    (rawTermios hdr).cflag &&& hdr.control m = 0#32 := by
  have hflags : (0#32 ||| (hdr.control .clocal ||| hdr.control .cread)) &&&
      hdr.control m = 0#32 := by
    rw [BitVec.zero_or, Flags.or_and_of_and_eq_zero (hdr.control_disjoint hcread),
      hdr.control_disjoint hclocal]
  by_cases hcsize : .csize = m
  · subst hcsize
    exact Flags.and_not_and_self
  · exact (Flags.and_not_and_of_and_eq_zero (hdr.control_disjoint hcsize)).trans hflags

end Fields

/-! ## The termios structure -/

section Installed

variable (hdr : Header) (nSpeed nBits : Int) (nEvent : Byte) (nStop : Int)

theorem lineTermios_csize :
    (lineTermios hdr nSpeed nBits nEvent nStop).cflag &&& hdr.control .csize =
      if nBits = 7 then hdr.cs7 else if nBits = 8 then hdr.cs8 else 0#32 :=
  (setStopBits_frame hdr nStop (by decide)).trans
    ((setParity_frame hdr nEvent (by decide) (by decide)).trans
      (setDataBits_csize hdr nBits (rawTermios_clear hdr (by decide) (by decide))))

/-- Nothing is in the masks of the parity when its switch is reached. -/
theorem setDataBits_rawTermios_clear {m : ControlMask} (hcsize : .csize ≠ m)
    (hclocal : .clocal ≠ m) (hcread : .cread ≠ m) :
    (setDataBits hdr nBits (rawTermios hdr)).cflag &&& hdr.control m = 0#32 :=
  (setDataBits_frame hdr nBits hcsize).trans (rawTermios_clear hdr hclocal hcread)

theorem lineTermios_parenb :
    (lineTermios hdr nSpeed nBits nEvent nStop).cflag &&& hdr.control .parenb =
      if nEvent ∈ [letter 'O', letter 'E'] then hdr.control .parenb else 0#32 :=
  (setStopBits_frame hdr nStop (by decide)).trans (setParity_parenb hdr nEvent
    (setDataBits_rawTermios_clear hdr nBits (by decide) (by decide) (by decide)))

theorem lineTermios_parodd :
    (lineTermios hdr nSpeed nBits nEvent nStop).cflag &&& hdr.control .parodd =
      if nEvent = letter 'O' then hdr.control .parodd else 0#32 :=
  (setStopBits_frame hdr nStop (by decide)).trans (setParity_parodd hdr nEvent
    (setDataBits_rawTermios_clear hdr nBits (by decide) (by decide) (by decide)))

theorem lineTermios_cstopb :
    (lineTermios hdr nSpeed nBits nEvent nStop).cflag &&& hdr.control .cstopb =
      if nStop = 2 then hdr.control .cstopb else 0#32 :=
  setStopBits_cstopb hdr nStop ((setParity_frame hdr nEvent (by decide) (by decide)).trans
    (setDataBits_rawTermios_clear hdr nBits (by decide) (by decide) (by decide)))

/-- The stop bits and the control characters leave the speeds and `c_iflag` alone. -/
theorem lineTermios_speed :
    (lineTermios hdr nSpeed nBits nEvent nStop).ispeed = speedConstant hdr nSpeed ∧
      (lineTermios hdr nSpeed nBits nEvent nStop).ospeed = speedConstant hdr nSpeed := by
  unfold lineTermios setStopBits
  dsimp only
  split_ifs <;> exact ⟨rfl, rfl⟩

theorem lineTermios_iflag (hparity : nEvent ∉ [letter 'O', letter 'E']) :
    (lineTermios hdr nSpeed nBits nEvent nStop).iflag = 0#32 := by
  rw [List.mem_pair, not_or] at hparity
  unfold lineTermios setStopBits setSpeed setParity setDataBits
  dsimp only
  rw [if_neg hparity.1, if_neg hparity.2]
  split_ifs <;> rfl

theorem lookup_speedConstant :
    (speeds hdr).lookup (speedConstant hdr nSpeed) =
      some (if nSpeed ∈ [2400, 4800, 9600, 115200, 460800] then nSpeed else 9600) := by
  have hcodes : ((speeds hdr).map Prod.fst).Nodup := hdr.speeds_nodup
  apply Flags.lookup_of_mem hcodes
  unfold speedConstant speeds
  by_cases hmem : nSpeed ∈ [2400, 4800, 9600, 115200, 460800]
  · rw [if_pos hmem]
    simp only [List.mem_cons, List.not_mem_nil, or_false] at hmem
    rcases hmem with rfl | rfl | rfl | rfl | rfl <;> simp
  · rw [if_neg hmem]
    simp only [List.mem_cons, List.not_mem_nil, or_false, not_or] at hmem
    rw [if_neg hmem.1, if_neg hmem.2.1, if_neg hmem.2.2.1, if_neg hmem.2.2.2.1,
      if_neg hmem.2.2.2.2]
    simp

theorem lookup_size :
    (sizes hdr).lookup (if nBits = 7 then hdr.cs7 else if nBits = 8 then hdr.cs8 else 0#32) =
      if nBits ∈ [7, 8] then some nBits else clearSize hdr := by
  have hcodes : ((sizes hdr).map Prod.fst).Nodup := hdr.sizes_nodup
  by_cases h7 : nBits = 7
  · subst h7
    exact Flags.lookup_of_mem hcodes (by simp [sizes])
  by_cases h8 : nBits = 8
  · subst h8
    exact Flags.lookup_of_mem hcodes (by simp [sizes])
  · rw [if_neg h7, if_neg h8, if_neg (by simp [h7, h8]), clearSize]

theorem settings_lineTermios :
    settings hdr (lineTermios hdr nSpeed nBits nEvent nStop) =
      honoured hdr nSpeed nBits nEvent nStop := by
  obtain ⟨hispeed, hospeed⟩ := lineTermios_speed hdr nSpeed nBits nEvent nStop
  unfold settings honoured
  rw [hispeed, hospeed, if_pos rfl, lookup_speedConstant, lineTermios_csize, lookup_size,
    lineTermios_parenb, lineTermios_parodd, lineTermios_cstopb]
  congr 1
  · by_cases hO : nEvent = letter 'O'
    · subst hO
      simp [hdr.control_ne_zero]
    by_cases hE : nEvent = letter 'E'
    · subst hE
      simp [hdr.control_ne_zero, hO]
    · simp [hO, hE]
  · by_cases h2 : nStop = 2
    · rw [if_pos h2, if_pos h2, if_neg (hdr.control_ne_zero _)]
    · rw [if_neg h2, if_neg h2, if_pos rfl]

/-- The settings that a call gets are those it asks for if every switch names its
parameter. -/
theorem honoured_eq_requested_iff :
    honoured hdr nSpeed nBits nEvent nStop = requested nSpeed nBits nEvent nStop ↔
      nSpeed ∈ [2400, 4800, 9600, 115200, 460800] ∧
        (nBits ∈ [7, 8] ∨ clearSize hdr = some nBits) ∧
        nEvent ∈ [letter 'O', letter 'E', letter 'N'] ∧ nStop ∈ [1, 2] := by
  unfold honoured requested
  rw [Settings.mk.injEq]
  refine and_congr ?_ (and_congr ?_ (and_congr ?_ ?_))
  · split
    · next h => simp only [h]
    · next h =>
        rw [Option.some_inj]
        exact iff_of_false (fun h9600 => h (by simp [← h9600])) h
  · split
    · next h => simp only [h, true_or]
    · next h => simp only [h, false_or]
  · split
    · next h =>
        rw [List.mem_pair] at h
        rcases h with rfl | rfl <;> simp
    · next h =>
        rw [List.mem_pair, not_or] at h
        simp [h, eq_comm]
  · split
    · next h => simp [h]
    · next h => simp [h, eq_comm]

/-- **What a call of `set_opt` installs.**  It succeeds if both calls of the terminal
interface do, and has then installed one termios structure, whatever the request: its
speed is the one asked for or 9600, and a field whose parameter is not named stays
clear.  Input is not stripped without parity. -/
theorem setOpt_settings (tcgetattr : Int) (tcsetattr : Termios → Int) :
    let out := setOpt hdr tcgetattr tcsetattr nSpeed nBits nEvent nStop
    ∃ t, out.1 = (if tcgetattr = 0 ∧ tcsetattr t = 0 then 0 else -1) ∧
      installed out.2 = (if tcgetattr = 0 then [t] else []) ∧
      settings hdr t = honoured hdr nSpeed nBits nEvent nStop ∧
      (settings hdr t = requested nSpeed nBits nEvent nStop ↔
        nSpeed ∈ [2400, 4800, 9600, 115200, 460800] ∧
          (nBits ∈ [7, 8] ∨ clearSize hdr = some nBits) ∧
          nEvent ∈ [letter 'O', letter 'E', letter 'N'] ∧ nStop ∈ [1, 2]) ∧
      (nEvent ∉ [letter 'O', letter 'E'] → t.iflag &&& hdr.istrip = 0#32) := by
  intro out
  have hsettings := settings_lineTermios hdr nSpeed nBits nEvent nStop
  refine ⟨lineTermios hdr nSpeed nBits nEvent nStop, ?_, ?_, hsettings, ?_, ?_⟩
  · by_cases hget : tcgetattr = 0
    · by_cases hset : tcsetattr (lineTermios hdr nSpeed nBits nEvent nStop) = 0 <;>
        simp [out, setOpt, hget, hset]
    · simp [out, setOpt, hget]
  · by_cases hget : tcgetattr = 0
    · by_cases hset : tcsetattr (lineTermios hdr nSpeed nBits nEvent nStop) = 0 <;>
        simp [out, setOpt, installed, hget, hset]
    · simp [out, setOpt, installed, hget]
  · rw [hsettings, honoured_eq_requested_iff]
  · intro hparity
    rw [lineTermios_iflag hdr nSpeed nBits nEvent nStop hparity]
    exact BitVec.zero_and

end Installed

/-- The call of `main`. -/
example : settings Header.linux (lineTermios Header.linux 9600 8 (letter 'N') 1) =
    requested 9600 8 (letter 'N') 1 := by decide

/-- A call carries a request out, or rejects it: it fails without installing anything.
With eight data bits the input is not stripped. -/
def CarriesOutOrRejects (hdr : Header) (nSpeed nBits : Int) (nEvent : Byte) (nStop : Int) :
    Prop :=
  let out := setOpt hdr 0 (fun _ => 0) nSpeed nBits nEvent nStop
  (out.1 = 0 ∧ ∃ t, installed out.2 = [t] ∧
      settings hdr t = requested nSpeed nBits nEvent nStop ∧
      (nBits = 8 → t.iflag &&& hdr.istrip = 0#32)) ∨
    out.1 = -1 ∧ installed out.2 = []

/-- A speed of 19200 is not known: the call succeeds, and the line runs at 9600. -/
theorem speed_19200_becomes_9600 :
    ¬ CarriesOutOrRejects Header.linux 19200 8 (letter 'N') 1 := by
  intro h
  rcases h with ⟨_, t, hinstalled, hsettings, _⟩ | ⟨hret, _⟩
  · have ht : t = lineTermios Header.linux 19200 8 (letter 'N') 1 := by
      simpa [setOpt, installed] using hinstalled.symm
    rw [ht] at hsettings
    exact absurd hsettings (by decide)
  · exact absurd hret (by decide)

end UartRaw

end BmcCodes.Uart
