import BBBLinux.RoutingTable.Parser.Words
import BBBLinux.RoutingTable.Table.Impl

/-!
This module contains the commands that the accepted lines stand for.
-/

namespace RoutingTable

open CString

def Opcode.isCommand : Opcode → Bool
  | .create | .update | .delete => true
  | .show | .flush | .quit => false

namespace Parsed

def opcode (parsed : Parsed) : Opcode :=
  parsed.msgInfo.opcode

def entry (parsed : Parsed) : Entry :=
  match parsed.isRtMac with
  | .isRt => .route (.ofMem parsed.msgInfo.data)
  | .isMac => .mac parsed.macAddr

def command (parsed : Parsed) : Option (Opcode × Entry) :=
  if parsed.retVal = true then some (parsed.opcode, parsed.entry) else none

end Parsed

section Opcodes

variable {u : Locals} {p : Parse} {ws : List Mem} {opcode : Opcode}

theorem opcode_parseMac : (parseMac opcode p .zero).opcode = opcode := by
  unfold parseMac
  split <;> rfl

theorem opcode_createUpdateWords : (createUpdateWords u opcode p ws).opcode = opcode := by
  unfold createUpdateWords
  split
  . apply opcode_parseMac
  . rfl

theorem opcode_deleteWords : (deleteWords u p ws).opcode = .delete := by
  unfold deleteWords
  split
  . apply opcode_parseMac
  . rfl

theorem opcode_parseLine (u v : Locals) (line : Mem) :
    (parseLine u line).opcode = (parseLine v line).opcode := by
  rw [parseLine_eq, parseLine_eq]
  cases words space (cstr line) with
  | nil => rfl
  | cons w ws =>
    cases letter w ws with
    | createUpdate opcode _ _ heq => rw [heq, heq, opcode_createUpdateWords, opcode_createUpdateWords]
    | delete _ heq => rw [heq, heq, opcode_deleteWords, opcode_deleteWords]
    | plain opcode _ _ heq =>
      rw [heq, heq]
      rfl
    | invalid _ heq =>
      rw [heq, heq]
      rfl

end Opcodes

def IsAddress (w : Mem) : Prop :=
  (words dot w).length = 4

instance (w : Mem) : Decidable (IsAddress w) :=
  inferInstanceAs (Decidable (_ = _))

def DataInfo.ofFields (destination mask gatewayIp oif : Mem) : DataInfo where
  mem := bytes destSize destination ++ (bytes maskSize mask ++ (bytes gatewSize gatewayIp
    ++ bytes oifSize oif))
  size := by simp [dataInfoSize, oifOff, gatewayIpOff, maskOff, destinationOff, destSize, maskSize,
    gatewSize, oifSize]

def layout (d m g o rest : Mem) : Mem :=
  bytes destSize d ++ (bytes maskSize m ++ (bytes gatewSize g ++ (bytes oifSize o ++ rest)))

section Fields

variable {u : Locals} {w d m g o rest : Mem} {k : Nat}

theorem calloc_data (u : Locals) : (Msg.calloc u).data = layout [] [] [] [] (0 :: u.afterMsgInfo) :=
  rfl

theorem memcpy_destination (h : strlen w < destSize) :
    memcpy (layout [] m g o rest) destinationOff w (strlen w + 1) = layout (cstr w) m g o rest := by
  unfold layout destinationOff
  rw [memcpy_append_left, memcpy_field h]
  simp only [bytes_length]
  omega

theorem memcpy_mask (h : strlen w < maskSize) :
    memcpy (layout d [] g o rest) maskOff w (strlen w + 1) = layout d (cstr w) g o rest := by
  unfold layout
  rw [memcpy_append_right (k := 0), memcpy_append_left, memcpy_field h]
  . simp only [bytes_length]
    omega
  . simp [maskOff, destinationOff]

theorem memcpy_gatewayIp (h : strlen w < gatewSize) :
    memcpy (layout d m [] o rest) gatewayIpOff w (strlen w + 1) = layout d m (cstr w) o rest := by
  unfold layout
  rw [memcpy_append_right (k := maskSize), memcpy_append_right (k := 0), memcpy_append_left,
    memcpy_field h]
  . simp only [bytes_length]
    omega
  . simp
  . simp [gatewayIpOff, maskOff, destinationOff]

theorem memcpy_oif (hw : 0 ∉ w) (h : w.length - 1 ≤ oifSize) :
    memcpy (layout d m g [] rest) oifOff w (strlen w - 1) = layout d m g w.dropLast rest := by
  have hlen : strlen w = w.length := by
    unfold strlen
    rw [cstr_of_notMem hw]
  have hbytes : bytes (strlen w - 1) w = w.dropLast := by
    rw [bytes_of_le_strlen (by omega), cstr_of_notMem hw, hlen, ← List.dropLast_eq_take]
  unfold layout
  rw [memcpy_append_right (k := maskSize + gatewSize), memcpy_append_right (k := gatewSize),
    memcpy_append_right (k := 0), memcpy_append_left, memcpy_bytes_nil]
  . rw [hbytes, bytes_of_length_le (m := w.dropLast), List.length_dropLast, hlen]
    rw [List.length_dropLast]
    exact h
  . simp only [bytes_length]
    omega
  . simp
  . simp
  . simp [oifOff, gatewayIpOff, maskOff, destinationOff, Nat.add_assoc]

theorem ofMem_layout (d m g o rest : Mem) :
    DataInfo.ofMem (layout d m g o rest) = .ofFields d m g o := by
  apply DataInfo.ext
  have hsize := (DataInfo.ofFields d m g o).size
  have hsplit : layout d m g o rest = (DataInfo.ofFields d m g o).mem ++ rest := by
    simp [layout, DataInfo.ofFields]
  simp only [DataInfo.ofMem]
  rw [hsplit, ← hsize, bytes_append]

theorem drop_maskOff : (layout d m g o rest).drop maskOff
    = bytes maskSize m ++ (bytes gatewSize g ++ (bytes oifSize o ++ rest)) := by
  unfold layout
  rw [List.drop_append_of_le_length]
  . rw [List.drop_of_length_le]
    . rfl
    . simp [maskOff, destinationOff]
  . simp [maskOff, destinationOff]

theorem drop_gatewayIpOff : (layout d m g o rest).drop gatewayIpOff
    = bytes gatewSize g ++ (bytes oifSize o ++ rest) := by
  have hoff : gatewayIpOff = maskOff + maskSize := rfl
  rw [hoff, ← List.drop_drop, drop_maskOff, List.drop_append_of_le_length]
  . rw [List.drop_of_length_le]
    . rfl
    . simp
  . simp

theorem drop_oifOff : (layout d m g o rest).drop oifOff = bytes oifSize o ++ rest := by
  have hoff : oifOff = gatewayIpOff + gatewSize := rfl
  rw [hoff, ← List.drop_drop, drop_gatewayIpOff, List.drop_append_of_le_length]
  . rw [List.drop_of_length_le]
    . rfl
    . simp
  . simp

theorem cstr_field (hw : 0 ∉ w) (h : w.length < k) : cstr (bytes k w ++ rest) = w := by
  rw [bytes_of_length_lt h, List.append_assoc, List.cons_append, cstr_append_zero hw]

theorem checkGroups_eq (hw : 0 ∉ w) (h : w.length < k) :
    checkGroups k (bytes k w ++ rest) = decide (IsAddress w) := by
  unfold checkGroups
  rw [countTokens_eq dot_ne_zero (Nat.lt_succ_self _)]
  unfold strlen
  rw [cstr_field hw h, if_neg (by omega)]
  rfl

end Fields

end RoutingTable
