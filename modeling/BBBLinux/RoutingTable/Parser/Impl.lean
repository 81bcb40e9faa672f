import BBBLinux.CString.Strtok
import BBBLinux.RoutingTable.Types

/-!
This module contains `check_format_input_string`, which takes the command lines apart, and the checks
of their arguments.
-/

namespace RoutingTable

open CString

/--
The bytes that a call finds in memory without having written them: local variables without an
initial value and what lies behind its buffers.
-/
structure Locals where
  copyBuffer : Mem
  maskSize : Nat
  afterMaskCheck : Mem
  afterDestTest : Mem
  afterGatewayTest : Mem
  afterMsgInfo : Mem

def Locals.zero : Locals where
  copyBuffer := []
  maskSize := 0
  afterMaskCheck := []
  afterDestTest := []
  afterGatewayTest := []
  afterMsgInfo := []

def space : UInt8 := ' '.toUInt8
def dot : UInt8 := '.'.toUInt8
def newline : UInt8 := '\n'.toUInt8

def checkGroups (size : Nat) (copy : Mem) : Bool :=
  if strlen copy > size then
    false
  else
    countTokens dot (copy.length + 1) copy = 4

def checkDesIPValid (u : Locals) (dest : Mem) : Bool :=
  checkGroups destSize (bytes destSize dest ++ u.afterDestTest)

def checkGatewayValid (u : Locals) (gateway : Mem) : Bool :=
  checkGroups gatewSize (bytes gatewSize gateway ++ u.afterGatewayTest)

/--
The copy of the mask is not terminated, so `atoi` goes on behind it.
-/
def checkMaskValid (u : Locals) (mask : Mem) (size : Nat) : Bool :=
  let number := atoi (bytes size mask ++ u.afterMaskCheck)
  if number < 0 || number > 32 then false else true

def checkOIFValid (oif : Mem) : Bool :=
  if strlen oif > oifSize then false else true

def checkFormatMACAddress (mac : Mem) : Bool :=
  let group (i : Nat) : Bool :=
    if i % 3 ≠ 2 then isxdigit (mac.getD i 0) else mac.getD i 0 = ':'.toUInt8
  (List.range (macAddrLen - 1)).all group && mac.getD (macAddrLen - 1) 0 = newline

structure Parse where
  retVal : Bool
  maskSize : Nat
  copyBuffer : Mem
  data : Mem
  save : Mem

def copyArgument (p : Parse) (index : Nat) (token : Mem) : Parse :=
  match index with
  | 0 =>
    { p with
      data := memcpy p.data destinationOff token (strlen token + 1)
      copyBuffer := bytes macAddrLen token }
  | 1 =>
    let p := { p with maskSize := strlen token }
    if p.maskSize > 2 then
      { p with retVal := false }
    else
      { p with data := memcpy p.data maskOff token (strlen token + 1) }
  | 2 => { p with data := memcpy p.data gatewayIpOff token (strlen token + 1) }
  | 3 =>
    match strchr newline token with
    | none => { p with retVal := false }
    -- the last character of the token is not copied, it is taken to be the newline
    | some _ => { p with data := memcpy p.data oifOff token (strlen token - 1) }
  | _ => p

inductive Arguments where
  | read (p : Parse)
  | noSecond (p : Parse)

def readArguments (p : Parse) (index : Nat) : Nat → Arguments
  | 0 => .read p
  | count + 1 =>
    match strtok space p.save with
    | none =>
      if index = 1 then
        .noSecond p
      else
        readArguments { p with retVal := false } (index + 1) count
    | some (token, save) =>
      readArguments (copyArgument { p with save := save } index token) (index + 1) count

structure Parsed where
  retVal : Bool
  isRtMac : RtMac
  msgInfo : Msg
  macAddr : Mac
  deriving DecidableEq

def parseMac (opcode : Opcode) (p : Parse) (macAddr : Mac) : Parsed :=
  if checkFormatMACAddress p.copyBuffer = true then
    { retVal := true
      isRtMac := .isMac
      msgInfo := { opcode := opcode, data := p.data }
      macAddr := .ofChars p.copyBuffer }
  else
    { retVal := false
      isRtMac := .isMac
      msgInfo := { opcode := opcode, data := p.data }
      macAddr := macAddr }

def parseRoute (opcode : Opcode) (retVal : Bool) (p : Parse) (macAddr : Mac) : Parsed where
  retVal := retVal
  isRtMac := .isRt
  msgInfo := { opcode := opcode, data := p.data }
  macAddr := macAddr

def checkRoute (u : Locals) (p : Parse) : Bool :=
  p.retVal && checkDesIPValid u (p.data.drop destinationOff)
    && checkMaskValid u (p.data.drop maskOff) p.maskSize
    && checkGatewayValid u (p.data.drop gatewayIpOff)
    && checkOIFValid (p.data.drop oifOff)

def parseCreateUpdate (u : Locals) (opcode : Opcode) (p : Parse) (macAddr : Mac) : Parsed :=
  match readArguments p 0 4 with
  | .noSecond p => parseMac opcode p macAddr
  | .read p => parseRoute opcode (checkRoute u p) p macAddr

def checkKey (u : Locals) (p : Parse) : Bool :=
  p.retVal && checkDesIPValid u (p.data.drop destinationOff)
    && checkMaskValid u (p.data.drop maskOff) p.maskSize

def parseDelete (u : Locals) (p : Parse) (macAddr : Mac) : Parsed :=
  match readArguments p 0 2 with
  | .noSecond p => parseMac .delete p macAddr
  | .read p =>
    let p := if strtok space p.save = none then p else { p with retVal := false }
    parseRoute .delete (checkKey u p) p macAddr

def checkFormatInputString (u : Locals) (inputString : Mem) (msgInfo : Msg) (macAddr : Mac) :
    Parsed :=
  let p : Parse :=
    { retVal := true
      maskSize := u.maskSize
      copyBuffer := u.copyBuffer
      data := msgInfo.data
      save := inputString }
  match strtok space inputString with
  -- a blank line passes, with the message as it was
  | none => parseRoute msgInfo.opcode true p macAddr
  | some (token, save) =>
    let p := { p with save := save }
    let c := token.headD 0
    if c = 'C'.toUInt8 then
      parseCreateUpdate u .create p macAddr
    else if c = 'U'.toUInt8 then
      parseCreateUpdate u .update p macAddr
    else if c = 'D'.toUInt8 then
      parseDelete u p macAddr
    else if c = 'S'.toUInt8 then
      parseRoute .show true p macAddr
    else if c = 'F'.toUInt8 then
      parseRoute .flush true p macAddr
    else if c = 'Q'.toUInt8 then
      parseRoute .quit true p macAddr
    else
      parseRoute msgInfo.opcode false p macAddr

def Msg.calloc (u : Locals) : Msg where
  opcode := .create
  data := List.replicate (dataInfoSize + 1) 0 ++ u.afterMsgInfo

def parseLine (u : Locals) (line : Mem) : Parsed :=
  checkFormatInputString u line (.calloc u) .zero

end RoutingTable
