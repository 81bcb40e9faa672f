import BBBLinux.CString.Basic

/-!
This module contains the types of `Project/Routing_Table/types.h` and `common_mac.h`. A structure of
the source is kept as the bytes it consists of, since its strings may run from one field into the
next: `DataInfo` is `data_info_t`, `Mac` is `mac_table_struct` and `Msg` is `msg_t`.
-/

namespace RoutingTable

open CString

inductive Opcode where
  | create
  | update
  | delete
  | «show»
  | flush
  | quit
  deriving DecidableEq, Repr

def destSize : Nat := 16
def maskSize : Nat := 3
def gatewSize : Nat := 16
def oifSize : Nat := 16
def macAddrLen : Nat := 18
def ipAddrLen : Nat := 16
def bufferSize : Nat := 128
def maxClientsSupport : Nat := 32

-- the offsets of the fields of `data_info_t`
def destinationOff : Nat := 0
def maskOff : Nat := destinationOff + destSize
def gatewayIpOff : Nat := maskOff + maskSize
def oifOff : Nat := gatewayIpOff + gatewSize
def dataInfoSize : Nat := oifOff + oifSize

@[ext]
structure DataInfo where
  mem : Mem
  size : mem.length = dataInfoSize
  deriving DecidableEq

namespace DataInfo

def ofMem (m : Mem) : DataInfo where
  mem := bytes dataInfoSize m
  size := bytes_length

def destination (info : DataInfo) : Mem := info.mem.drop destinationOff
def mask (info : DataInfo) : Mem := info.mem.drop maskOff
def gatewayIp (info : DataInfo) : Mem := info.mem.drop gatewayIpOff
def oif (info : DataInfo) : Mem := info.mem.drop oifOff

end DataInfo

@[ext]
structure Mac where
  mac : Mem
  size : mac.length = macAddrLen
  -- the 17 characters of an address are copied over zeros
  nul : mac.drop (macAddrLen - 1) = [0]
  deriving DecidableEq

namespace Mac

def zero : Mac where
  mac := List.replicate macAddrLen 0
  size := by decide
  nul := by decide

def ofChars (src : Mem) : Mac where
  mac := bytes (macAddrLen - 1) src ++ [0]
  size := by simp [macAddrLen]
  nul := by
    rw [List.drop_append_of_le_length]
    . simp
    . simp

end Mac

structure Msg where
  opcode : Opcode
  -- the memory from `data` on, together with what follows the structure
  data : Mem
  deriving DecidableEq

inductive RtMac where
  | isRt
  | isMac
  deriving DecidableEq, Repr

end RoutingTable
