import UvgTorrent.DataStructures.Hashmap
import UvgTorrent.DataStructures.Linkedlist
import UvgTorrent.Library.Buffer
import UvgTorrent.Library.MachineInt
import UvgTorrent.Utils.Split

/-!
# The magnet scanner

The loop of `Torrent_parse` over the text behind `magnet:?`.  The state
keeps the calls made so far, in order.  `Tracker_new` is a parameter: it
looks up a host and may stop the run.
-/

namespace UvgTorrent

open CProgram CText CArray MachineInt

variable {Tracker : Type}

inductive MagnetCall (Tracker : Type) where
  | hashmapSet (key value : CString) (size : Nat)
  | trackerNew (address : CString)
  | trackersAppend (tracker : Tracker)

structure MagnetScan (Tracker : Type) where
  hashmap : Hashmap (List UInt8)
  trackers : Linkedlist Tracker
  keyBuffer : Buffer
  valueBuffer : Buffer
  strPos : Nat
  key : Bool
  calls : List (MagnetCall Tracker)

/-- The size of `key_buffer` and of `value_buffer`. -/
def magnetBufferSize : Nat := 256

def magnetStart : MagnetScan Tracker where
  hashmap := hashmapNew
  trackers := linkedlistNew
  keyBuffer := .zeroed magnetBufferSize
  valueBuffer := .zeroed magnetBufferSize
  strPos := 0
  key := true
  calls := []

/-- The call at the end of a value and the `memset`s after it.  A failed
call is the `throw`. -/
def storeParameter (trackerNew : CString → Exec Tracker)
    (scan : MagnetScan Tracker) : Exec (ExitCode × MagnetScan Tracker) :=
  let cleared : MagnetScan Tracker := { scan with
    keyBuffer := scan.keyBuffer.clear
    valueBuffer := scan.valueBuffer.clear }
  -- `strcmp` stops at the first difference and needs no terminator here
  if (CString.ofBytes scan.keyBuffer.cells).bytes ≠ text "tr" then do
    let value ← readString scan.valueBuffer.cells
    let key ← readString scan.keyBuffer.cells
    let (code, hashmap) ←
      hashmapSet scan.hashmap (some key) (some value.bytes)
    let calls := scan.calls ++ [.hashmapSet key value value.strlen]
    match code with
    | .failure => pure (.failure, { scan with hashmap, calls })
    | .success => pure (.success, { cleared with hashmap, calls })
  else do
    let address ← readString scan.valueBuffer.cells
    let tracker ← trackerNew address
    let (code, trackers) := linkedlistAppend scan.trackers tracker
    let calls :=
      scan.calls ++ [.trackerNew address, .trackersAppend tracker]
    match code with
    | .failure => pure (.failure, { scan with trackers, calls })
    | .success => pure (.success, { cleared with trackers, calls })

/-- One round of the loop. -/
def scanStep (trackerNew : CString → Exec Tracker) (inputLen : Int)
    (i : Nat) (byte : UInt8) (scan : MagnetScan Tracker) :
    Exec (ExitCode × MagnetScan Tracker) :=
  if scan.key then
    if byte ≠ ch '=' ∧ scan.strPos < 256 ∧ (i : Int) < inputLen then
      pure (.success, { scan with
        keyBuffer := scan.keyBuffer.store scan.strPos byte
        strPos := scan.strPos + 1 })
    else
      pure (.success, { scan with
        keyBuffer :=
          if (i : Int) = inputLen then
            scan.keyBuffer.store scan.strPos byte
          else
            scan.keyBuffer
        key := false
        strPos := 0 })
  else
    if byte ≠ ch '&' ∧ scan.strPos < 256 ∧ (i : Int) < inputLen then
      pure (.success, { scan with
        valueBuffer := scan.valueBuffer.store scan.strPos byte
        strPos := scan.strPos + 1 })
    else
      storeParameter trackerNew { scan with
        valueBuffer :=
          if (i : Int) = inputLen then
            scan.valueBuffer.store scan.strPos byte
          else
            scan.valueBuffer
        key := true
        strPos := 0 }

/-- The loop from position `i`. -/
def scanLoop (trackerNew : CString → Exec Tracker) (inputLen : Int) :
    List UInt8 → Nat → MagnetScan Tracker →
      Exec (ExitCode × MagnetScan Tracker)
  | [], i, scan => do
      subscript i
      pure (.success, scan)
  | byte :: rest, i, scan => do
      subscript i
      let (code, scan) ← scanStep trackerNew inputLen i byte scan
      match code with
      | .failure => pure (.failure, scan)
      | .success => scanLoop trackerNew inputLen rest (i + 1) scan

/-- The scan of a file: the text begins behind eight bytes. -/
def scanMagnet (trackerNew : CString → Exec Tracker)
    (torrentContent : List UInt8) :
    Exec (ExitCode × MagnetScan Tracker) := do
  let subString ← readString ((torrentContent ++ [0]).drop 8)
  let inputLen := toInt32 (subString.strlen - 1)
  scanLoop trackerNew inputLen subString.bytes 0 magnetStart

end UvgTorrent
