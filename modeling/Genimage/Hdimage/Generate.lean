/-
**Writing a disk image (`image-hd.c`).**

`hdimage_generate`. What the handlers of the children have left is a parameter: `outputs` gives the
size that the child has when its partition is written, its file and the extents of the file. The
partitions are written in list order, each with its extended boot record, and the tables last.
-/

import Genimage.Hdimage.GptFile
import Genimage.Util.CopySpecs

namespace Genimage

open Library Effect

section Generate

variable (os : Os) (outputs : String → ChildOutput)

/-- The number of bytes that `insert_image` is asked to write. -/
def insertSize (child : ChildOutput) (part : Partition) : UInt64 :=
  if part.fill then part.size else child.size - part.imageoffset

/-- The part of the loop body that writes the child. -/
def insertChild (child : ChildOutput) (part : Partition) : Sys Unit :=
  if child.size = 0 ∧ part.fill = false then return
  else if part.imageoffset > child.size then throw e2big
  else if child.size - part.imageoffset > part.size then throw e2big
  else insertImage os (some child) (insertSize child part) part.offset part.imageoffset 0 part.sparse

/-- The extended boot record, where there is one. -/
def insertEbr (layout : Layout) (part : Partition) (rest : List Partition) : Sys Unit :=
  if part.logical then
    hdimageInsertEbr os layout.hd (extendedOffset layout.partitions) part rest
  else return

/-- The body of the loop in `hdimage_generate`. -/
def generatePart (layout : Layout) (part : Partition) (rest : List Partition) : Sys Unit := do
  insertEbr os layout part rest
  match part.image with
  | none => return
  | some image => insertChild os (outputs image) part

/-- The loop in `hdimage_generate`. -/
def generateParts (layout : Layout) : List Partition → Sys Unit
  | [] => return
  | part :: rest => do
    generatePart os outputs layout part rest
    generateParts layout rest

/-- The tables behind the partitions. -/
def insertTables (layout : Layout) : Sys Unit :=
  if layout.hd.tableType = .none then return
  else if layout.hd.tableType.hasGpt then
    hdimageInsertGpt os layout.hd layout.size layout.partitions
  else hdimageInsertMbr os layout.hd layout.partitions

/-- The comparison of the output file with `hd->file_size`. -/
def checkFileSize (fileSize : UInt64) : Sys Unit := do
  if os.blockDevice then return
  else
    let some length ← Sys.statOut os | Sys.throwErrno
    if fileSize ≠ UInt64.ofNat length then throw einval

/-- `reload_partitions` -/
def reloadPartitions : Sys Unit := do
  if os.blockDevice then openFile os false

/-- `hdimage_generate` -/
def hdimageGenerate (layout : Layout) : Sys Unit := do
  prepareImage os layout.fileSize
  generateParts os outputs layout layout.partitions
  insertTables os layout
  if layout.hd.fill then extendFile os layout.size
  checkFileSize os layout.fileSize
  if layout.hd.tableType ≠ .none then reloadPartitions os

end Generate

end Genimage
