/-
**Writing into the output file (`util.c`).**

The functions through which every handler writes: `insert_data` and `insert_image` put bytes at an
offset, `prepare_image` and `extend_file` set the length. Each opens the output file on its own. The
loops run `fuel` times at most, and every transfer moves a byte, so the size is fuel enough.

`insert_data` returns `-errno` after a short write also when the write has not failed, and `errno` may
then be `0`; `returnErrno` keeps that. On a block device `prepare_image` ignores errors.
-/

import Genimage.Image.Partition
import Genimage.Util.Errno
import Genimage.Util.Round
import Genimage.Util.Sys

namespace Genimage

open Library

/-- What `image_generate` left of a child: `child->size`, the output file, and the answers of
`map_file_extents` on it. -/
structure ChildOutput where
  size : UInt64
  contents : Option File
  mapped : UInt64 → Except Int (List Extent)

/-- `whole_file_exent` -/
def wholeFileExtent (size : UInt64) : List Extent := [⟨0, size⟩]

section Write

variable (os : Os)

/-- `is_block_device`: where `stat` fails the answer is no, and `errno` is set. -/
def isBlockDevice : Sys Bool := do
  let stat ← Sys.statOut os
  return stat.isSome && os.blockDevice

/-- `open_file`. The answer of `is_block_device` decides between `O_EXCL` and `O_CREAT`, which `openOut`
knows from the kind of the file. -/
def openFile (truncate : Bool) : Sys Unit := do
  let _ ← isBlockDevice os
  if (← Sys.openOut os truncate) < 0 then Sys.throwErrno

/-- `ret = -errno` at the end of a function: an `errno` of `0` is success. -/
def returnErrno : Sys Unit := do
  let world ← get
  if world.errno ≠ 0 then throw (-(world.errno : Int))

/-! ### `insert_data` and `extend_file` -/

/-- The loop of `insert_data`. -/
def insertLoop : Nat → List UInt8 → Sys Unit
  | 0, _ => return
  | fuel + 1, data =>
    if data = [] then return
    else do
      let now := min data.length 4096
      let written ← Sys.write os (data.take now)
      if written < now then returnErrno
      else insertLoop fuel (data.drop now)

/-- `insert_data` -/
def insertData (data : List UInt8) (offset : UInt64) : Sys Unit := do
  openFile os false
  if (← Sys.lseekSet os offset) < 0 then Sys.throwErrno
  else insertLoop os data.length data

/-- `extend_file` -/
def extendFile (size : UInt64) : Sys Unit := do
  openFile os false
  let offset ← Sys.lseekEnd os
  if offset < 0 then Sys.throwErrno
  else
    let offset := UInt64.ofInt offset
    if offset > size then throw einval
    else if offset = size then return
    else if (← Sys.ftruncate os size) = -1 then Sys.throwErrno

/-! ### `insert_image` -/

/-- The last loop of `write_bytes`. -/
def fillLoop (byte : UInt8) : Nat → UInt64 → UInt64 → Sys Unit
  | 0, _, _ => return
  | fuel + 1, size, offset =>
    if size = 0 then return
    else do
      let now := minSize size 4096
      let written ← Sys.pwrite os offset.toNat (List.replicate now.toNat byte)
      if written < 0 then Sys.throwErrno
      else fillLoop byte fuel (size - UInt64.ofInt written) (offset + UInt64.ofInt written)

/-- The last part of `write_bytes` for zeros: a hole, or the loop where there can be none. -/
def punchOrFill (size offset : UInt64) : Sys Unit := do
  if (← Sys.punchHole os offset.toNat size.toNat) = 0 then return
  else fillLoop os 0 size.toNat size offset

/-- `write_bytes` -/
def writeBytes (size offset : UInt64) (byte : UInt8) (sparse : Bool) : Sys Unit := do
  if size = 0 then return
  let some length ← Sys.statOut os | Sys.throwErrno
  if !os.blockDevice && byte = 0 && sparse then
    let length := UInt64.ofNat length
    if offset + size > length then
      if (← Sys.ftruncate os (offset + size)) < 0 then Sys.throwErrno
      -- The new bytes are zeros already.
      if toLongLong offset ≥ toLongLong length then return
      else punchOrFill os (length - offset) offset
    else punchOrFill os size offset
  else fillLoop os byte size.toNat size offset

/-- The variables of `insert_image` that move. -/
structure CopyLoop where
  size : UInt64
  offset : UInt64
  inPos : UInt64

/-- The variables behind `count` more bytes. -/
def CopyLoop.advance (loop : CopyLoop) (count : UInt64) : CopyLoop where
  size := loop.size - count
  offset := loop.offset + count
  inPos := loop.inPos + count

/-- The body of the loop that copies an extent; `none` stops it at the end of the input. -/
def copyStep (input : File) (stop : UInt64) (loop : CopyLoop) : Sys (Option CopyLoop) := do
  let now := minSize (minSize (stop - loop.inPos) 4096) loop.size
  let some data ← Sys.pread os input loop.inPos now.toNat | Sys.throwErrno
  if data = [] then return none
  let written ← Sys.pwrite os loop.offset.toNat data
  if written < data.length then
    if written < 0 then Sys.throwErrno else throw eio
  else return some (loop.advance (UInt64.ofInt written))

/-- The loop that copies an extent. -/
def copyLoop (input : File) (stop : UInt64) : Nat → CopyLoop → Sys CopyLoop
  | 0, loop => return loop
  | fuel + 1, loop =>
    if loop.inPos < stop ∧ loop.size > 0 then do
      match ← copyStep os input stop loop with
      | none => return loop
      | some loop => copyLoop input stop fuel loop
    else return loop

/-- The gap in front of an extent. -/
def skipGap (sparse : Bool) (start : UInt64) (loop : CopyLoop) : Sys CopyLoop := do
  if loop.inPos < start then
    let len := minSize (start - loop.inPos) loop.size
    writeBytes os len loop.offset 0 sparse
    return loop.advance len
  else return loop

/-- The body of the loop over the extents. -/
def copyExtent (input : File) (sparse : Bool) (loop : CopyLoop) (extent : Extent) :
    Sys CopyLoop := do
  if loop.size = 0 then return loop
  else
    let loop ← skipGap os sparse extent.start loop
    copyLoop os input extent.stop loop.size.toNat loop

/-- The part of `insert_image` that copies the child. -/
def copyImage (sub : ChildOutput) (sparse : Bool) (loop : CopyLoop) : Sys CopyLoop := do
  let some input ← Sys.openIn os sub.contents | Sys.throwErrno
  match sub.mapped (loop.size + loop.inPos) with
  | .error ret => throw ret
  | .ok extents => extents.foldlM (copyExtent os input sparse) loop

/-- Without a child nothing is copied: `goto fill`. -/
def copySub (sub : Option ChildOutput) (sparse : Bool) (loop : CopyLoop) : Sys CopyLoop :=
  match sub with
  | none => return loop
  | some sub => copyImage os sub sparse loop

/-- `insert_image` -/
def insertImage (sub : Option ChildOutput) (size offset imageoffset : UInt64) (byte : UInt8)
    (sparse : Bool) : Sys Unit := do
  openFile os false
  if (← Sys.lseekSet os offset) < 0 then Sys.throwErrno
  else
    let loop ← copySub os sub sparse ⟨size, offset, imageoffset⟩
    writeBytes os loop.size loop.offset byte sparse

/-! ### `prepare_image` -/

/-- `unlink` where a missing file is no error. -/
def removeFile : Sys Unit := do
  if (← Sys.unlink os) < 0 then
    let world ← get
    if world.errno ≠ Errno.noent.1 then Sys.throwErrno

/-- `prepare_image` -/
def prepareImage (size : UInt64) : Sys Unit := do
  if os.blockDevice then tryCatch (insertImage os none 2048 0 0 0 false) fun _ => return
  else if size = 0 then removeFile os
  else
    openFile os true
    if (← Sys.ftruncate os size) < 0 then Sys.throwErrno

end Write

/-- `is_block_device` leaves the file alone. -/
theorem isBlockDevice_ensures {os : Os} {fault : Prop} {world : World} :
    Effect.Ensures fault (isBlockDevice os) world fun _ next => next.file = world.file := by
  refine Sys.statOut_ensures.bind fun _ next ⟨kept, _⟩ => ?_
  rw [Effect.ensures_pure, kept]

end Genimage
