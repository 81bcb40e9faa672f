import BBBLinux.CString.Basic
import BBBLinux.Transition.Basic

/-!
This module contains the driver of the LED in `Character/misc_dev.c`: its `ioctl` call, the writes to the
device file and the timer that blinks.
-/

namespace MiscDev

open CString

def magicNo : UInt32 := 100

def configSize : UInt32 := 4
def pointerSize : UInt32 := 4

def ioc (dir : UInt32) : UInt32 :=
  dir <<< 30 ||| pointerSize <<< 16 ||| magicNo <<< 8 ||| configSize

def sendDataCmd : UInt32 := ioc 1
def getDataCmd : UInt32 := ioc 2

structure State where
  -- `app_config.times` of every block that was allocated
  times : List Int32
  gTimerData : Option Nat
  -- the blocks whose timer is running
  running : List Nat
  -- the static variable of `timer_function`
  count : Int32
  led : Bool
  deriving DecidableEq

def localData (buf : Mem) : Mem :=
  memcpy (List.replicate 128 0) 0 buf (min buf.length 128)

structure Reply where
  ret : Int
  -- what is copied to the user
  config : Option Int32
  deriving DecidableEq

namespace State

def start (led : Bool) : State where
  times := []
  gTimerData := none
  running := []
  count := 0
  led := led

/--
`fresh` is what `times` happens to be in the block that `kmalloc` returns, if it returns one.
-/
def kmalloc (s : State) (fresh : Option Int32) : State :=
  match fresh with
  | some times => { s with times := s.times ++ [times], gTimerData := some s.times.length }
  | none => { s with gTimerData := none }

-- no result: the kernel oopses on a null pointer
def miscIoctl (s : State) (cmd : UInt32) (arg : Int32) (fresh : Option Int32) :
    Option (Reply × State) :=
  let s := s.kmalloc fresh
  if cmd = sendDataCmd then
    s.gTimerData.map fun block =>
      ({ ret := 0, config := none }, { s with times := s.times.set block arg })
  else if cmd = getDataCmd then
    s.gTimerData.map fun block => ({ ret := 0, config := s.times[block]? }, s)
  else
    some ({ ret := -1, config := none }, s)

def miscWrite (s : State) (buf : Mem) : Option State :=
  let command := (localData buf).getD 0 0
  if command = '1'.toUInt8 then
    -- `timer_setup` and `add_timer`
    s.gTimerData.map fun block => { s with running := block :: s.running }
  else if command = '0'.toUInt8 then
    some { s with led := false }
  else
    some s

def timerFunction (s : State) (timer : Nat) : State :=
  let count := s.times.getD timer 0
  let s := { s with led := count % 2 = 0, count := count + 1 }
  if s.count < 20 then
    -- `mod_timer`
    { s with running := timer :: s.running }
  else
    s

def expire (s : State) (timer : Nat) : Option State :=
  if timer ∈ s.running then
    some ({ s with running := s.running.erase timer }.timerFunction timer)
  else
    none

end State

inductive Event where
  | ioctl (cmd : UInt32) (arg : Int32) (fresh : Option Int32)
  | write (buf : Mem)
  | expire (timer : Nat)

namespace State

def next (s : State) : Event → Option State
  | .ioctl cmd arg fresh => (s.miscIoctl cmd arg fresh).map Prod.snd
  | .write buf => s.miscWrite buf
  | .expire timer => s.expire timer

end State

def driver : TransitionSystem State Event :=
  .ofStep (fun s => ∃ led, s = .start led) State.next

end MiscDev
