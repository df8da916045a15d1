/-
**What the handlers that write their file return.**

`image_generate` takes a return value of `0` for success, and `main` goes on with the images that use
the file. Here is what this rests on: the handlers for disk images, flash images, RAID members and
sparse images never stop early with `0`, whatever the system answers to their calls
(`FileHandler.generate_exit`). What they need of `map_file_extents` is `ChildOutput.Reported`.
-/

import Genimage.Flash.Setup
import Genimage.Hdimage.Generate
import Genimage.Mdraid.Generate
import Genimage.Sparse.Generate
import Genimage.Util.Reports

namespace Genimage

open Library Effect

section Hdimage

variable {os : Os} {failed : Prop} {hd : Hdimage} {layout : Layout} {size : UInt64}
  {outputs : String → ChildOutput}

theorem hdimageInsertMbr_reports (partitions : List Partition) :
    Reports failed (hdimageInsertMbr os hd partitions) := by
  unfold hdimageInsertMbr
  split
  next => exact reports_throw (by decide)
  next => exact insertData_reports _ _

theorem insertFrontMbr_reports (partitions : List Partition) :
    Reports failed (insertFrontMbr os hd size partitions) := by
  unfold insertFrontMbr
  split_ifs
  · exact hdimageInsertMbr_reports _
  · exact hdimageInsertMbr_reports _

theorem hdimageInsertGpt_reports (partitions : List Partition) :
    Reports failed (hdimageInsertGpt os hd size partitions) := by
  unfold hdimageInsertGpt
  split
  next => exact reports_throw (by decide)
  next =>
    refine (insertData_reports _ _).bind fun _ => (insertData_reports _ _).bind fun _ => ?_
    split
    next => exact insertFrontMbr_reports _
    next =>
      unfold insertBackup
      refine ((extendFile_reports _).bind fun _ => (insertData_reports _ _).bind fun _ =>
        insertData_reports _ _).bind fun _ => insertFrontMbr_reports _

theorem insertTables_reports : Reports failed (insertTables os layout) := by
  unfold insertTables
  split_ifs
  · exact reports_pure ()
  · exact hdimageInsertGpt_reports _
  · exact hdimageInsertMbr_reports _

theorem insertChild_reports {child : ChildOutput} (reported : child.Reported) (part : Partition) :
    Reports failed (insertChild os child part) := by
  unfold insertChild
  split_ifs
  · exact reports_pure ()
  · exact reports_throw (by decide)
  · exact reports_throw (by decide)
  · exact insertImage_reports (by simpa using reported) _ _ _ _ _

theorem generatePart_reports (reported : ∀ name, (outputs name).Reported) (part : Partition)
    (rest : List Partition) : Reports failed (generatePart os outputs layout part rest) := by
  have ebr : Reports failed (insertEbr os layout part rest) := by
    unfold insertEbr
    split_ifs
    · exact insertData_reports _ _
    · exact reports_pure ()
  refine ebr.bind fun _ => ?_
  cases part.image with
  | none => exact reports_pure ()
  | some image => exact insertChild_reports (reported image) part

theorem generateParts_reports (reported : ∀ name, (outputs name).Reported)
    (partitions : List Partition) :
    Reports failed (generateParts os outputs layout partitions) := by
  induction partitions generalizing failed with
  | nil => exact reports_pure ()
  | cons part rest ih => exact (generatePart_reports reported part rest).bind fun _ => ih

theorem checkFileSize_reports (fileSize : UInt64) : Reports failed (checkFileSize os fileSize) := by
  unfold checkFileSize
  split_ifs
  · exact reports_pure ()
  · refine statOut_answers.bind fun length => ?_
    cases length with
    | none => exact reports_throwErrno rfl
    | some length =>
      simp only
      split_ifs
      · exact reports_throw (by decide)
      · exact reports_pure ()

theorem hdimageGenerate_reports (reported : ∀ name, (outputs name).Reported) :
    Reports failed (hdimageGenerate os outputs layout) := by
  have closing : Reports False (do
      checkFileSize os layout.fileSize
      if layout.hd.tableType ≠ .none then reloadPartitions os) := by
    refine (checkFileSize_reports _).bind fun _ => ?_
    unfold reloadPartitions
    split_ifs
    · exact openFile_reports false
    · exact reports_pure ()
    · exact reports_pure ()
  refine (prepareImage_reports _).bind fun _ => (generateParts_reports reported _).bind fun _ =>
    insertTables_reports.bind fun _ => ?_
  by_cases fill : layout.hd.fill = true
  · simp only [if_pos fill]
    exact (extendFile_reports _).bind fun _ => closing
  · simp only [if_neg fill]
    exact closing

end Hdimage

section Flash

variable {os : Os} {failed : Prop} {imageGet : String → Option FlashChild}

theorem padTo_reports (stop target : UInt64) : Reports failed (padTo os stop target) := by
  unfold padTo
  split_ifs
  · exact insertImage_reports (by simp) _ _ _ _ _
  · exact reports_pure ()

theorem flashGenerate_reports (reported : ∀ name, ∀ child ∈ imageGet name, child.output.Reported)
    (image : FlashImage) : Reports failed (flashGenerate os imageGet image) := by
  have parts : ∀ (partitions : List Partition) (stop : UInt64),
      Reports False (partitions.foldlM (generateFlashPart os imageGet) stop) := by
    intro partitions
    induction partitions with
    | nil => exact reports_pure
    | cons part rest ih =>
      intro stop
      rw [List.foldlM_cons]
      refine Reports.bind ?_ fun stop => ih stop
      refine (padTo_reports _ _).bind fun _ => (insertImage_reports ?_ _ _ _ _ _).bind fun _ =>
        reports_pure _
      intro output member
      obtain ⟨child, found, rfl⟩ := Option.map_eq_some_iff.mp member
      obtain ⟨name, _, given⟩ := Option.bind_eq_some_iff.mp found
      exact reported name child given
  exact (prepareImage_reports _).bind fun _ => (parts _ _).bind fun stop => padTo_reports _ _

end Flash

section Mdraid

variable {os : Os} {failed : Prop}

theorem writeMember_reports {image : MdraidImage}
    (reported : ∀ data ∈ image.imgData, data.output.Reported) (sb : Superblock)
    (bsb : BitmapSuper) : Reports failed (writeMember os image sb bsb) := by
  have data : Reports False (writeDataImage os image) := by
    unfold writeDataImage
    split
    next => exact reports_pure ()
    next data given => exact insertImage_reports (by simpa using reported data given) _ _ _ _ _
  refine (prepareImage_reports _).bind fun _ => (insertData_reports _ _).bind fun _ => ?_
  refine Reports.bind ?_ fun _ => data
  unfold writeBitmap
  split_ifs
  · exact insertData_reports _ _
  · exact reports_pure ()

end Mdraid

section Sparse

variable {os : Os} {failed : Prop} {blockSize : UInt32}

theorem writeData_reports (data : List UInt8) : Reports failed (writeData os data) := by
  refine (write_answers data).bind fun written => ?_
  split_ifs with negative
  · exact reports_throwErrno negative
  · exact reports_throw (by decide)
  · exact reports_pure ()

theorem lseekEnd_reports : Reports failed (do if (← Sys.lseekEnd os) < 0 then Sys.throwErrno) := by
  refine lseekEnd_answers.bind fun ret => ?_
  split
  next negative => exact reports_throwErrno negative
  next => exact reports_pure ()

theorem flushHeader_reports (header : ChunkHeader) (offset : Int) :
    Reports failed (flushHeader os header offset) := by
  rw [flushHeader]
  by_cases none : header.chunkType = 0
  · rw [if_pos none]
    exact reports_pure ()
  rw [if_neg none]
  by_cases patch : offset ≥ 0
  · simp only [if_pos patch]
    refine (lseekSet_answers _).bind fun ret => ?_
    split_ifs with negative
    · exact (reports_throwErrno negative).bind fun _ => (writeData_reports _).bind fun _ =>
        lseekEnd_reports
    · exact (writeData_reports _).bind fun _ => lseekEnd_reports
  · simp only [if_neg patch]
    exact (writeData_reports _).bind fun _ => reports_pure ()

theorem beginChunk_reports (loop : BlockLoop) (header : ChunkHeader) :
    Reports failed (beginChunk os loop header) :=
  (flushHeader_reports _ _).bind fun _ => lseekCur_answers.bind fun _ =>
    (flushHeader_reports _ _).bind fun _ => reports_pure _

theorem addFill_reports (loop : BlockLoop) (block : List UInt8) :
    Reports failed (addFill os loop block) := by
  rw [addFill]
  split_ifs
  · exact (beginChunk_reports _ _).bind fun _ => (writeData_reports _).bind fun _ => reports_pure _
  · exact reports_pure _

theorem addRaw_reports (loop : BlockLoop) (block : List UInt8) :
    Reports failed (addRaw os blockSize loop block) := by
  rw [addRaw]
  split_ifs
  · exact (beginChunk_reports _ _).bind fun _ => (writeData_reports _).bind fun _ => reports_pure _
  · exact (writeData_reports _).bind fun _ => reports_pure _

theorem blockStep_reports (input : File) (loop : BlockLoop) :
    Reports failed (blockStep os blockSize input loop) := by
  refine (read_answers _ _ _).bind fun data => ?_
  cases data with
  | none => exact reports_throwErrno rfl
  | some data =>
    have written : ∀ (failed : Prop) loop block, Reports failed
        (if isFill block then addFill os loop block else addRaw os blockSize loop block) := by
      intro failed loop block
      split_ifs
      · exact addFill_reports loop block
      · exact addRaw_reports loop block
    simp only
    split
    next => exact (reports_throw (by decide)).bind fun _ => written False _ _
    next => exact written _ _ _

/-- The loop over the blocks, by induction on the fuel. -/
theorem blockLoop_reports (input : File) (fuel : Nat) (loop : BlockLoop) :
    Reports failed (blockLoop os blockSize input fuel loop) := by
  induction fuel generalizing loop failed with
  | zero => exact reports_pure loop
  | succ fuel ih =>
    rw [blockLoop]
    split_ifs
    · exact reports_pure loop
    · exact (blockStep_reports input loop).bind fun loop => ih loop

theorem skipTo_reports (loop : ExtentLoop) (stop : UInt64) :
    Reports failed (skipTo os blockSize loop stop) := by
  rw [skipTo]
  split_ifs
  · exact (flushHeader_reports _ _).bind fun _ => reports_pure _
  · exact reports_pure loop

theorem extentStep_reports (input : File) (loop : ExtentLoop) (extent : Extent) :
    Reports failed (extentStep os blockSize input loop extent) := by
  rw [extentStep]
  split_ifs
  · exact reports_pure loop
  refine (skipTo_reports _ _).bind fun loop => (lseekIn_answers _).bind fun ret => ?_
  have blocks : ∀ failed : Prop, Reports failed (do
      let pos ← Sys.lseekCur
      let inner ← blockLoop os blockSize input (extent.stop - extent.start).toNat {
        size := extent.stop - extent.start
        inPos := extent.start.toNat
        header := ⟨0, 0, 0⟩
        fillValue := 0
        pos := pos
        inputChunks := loop.inputChunks
        crc := loop.crc }
      flushHeader os inner.header inner.pos
      return ({
        block := (extent.stop - 1 + blockSize.toUInt64) / blockSize.toUInt64
        inputChunks := inner.inputChunks
        crc := inner.crc } : ExtentLoop)) := fun failed =>
    lseekCur_answers.bind fun _ => (blockLoop_reports _ _ _).bind fun _ =>
      (flushHeader_reports _ _).bind fun _ => reports_pure _
  split
  next negative => exact (reports_throwErrno negative).bind fun _ => blocks False
  next => exact blocks _

theorem androidSparseGenerate_reports {mapped : Except Int (List Extent)}
    (reported : mapped ≠ .error 0) (options : SparseOptions) (input : File) :
    Reports failed (androidSparseGenerate os options input mapped) := by
  have extents : Reports failed (inputExtents options (UInt64.ofNat input.length) mapped) := by
    unfold inputExtents
    split
    next => exact reports_pure _
    next =>
      split
      next => exact reports_pure _
      next ret => exact reports_throw fun zero => reported (by rw [zero])
  have steps : ∀ (extents : List Extent) (loop : ExtentLoop),
      Reports False (extents.foldlM (extentStep os options.blockSize input) loop) := by
    intro extents
    induction extents with
    | nil => exact reports_pure
    | cons extent rest ih =>
      intro loop
      rw [List.foldlM_cons]
      exact (extentStep_reports input loop extent).bind fun loop => ih loop
  have checksum : ∀ loop, Reports False (addChecksum os options loop) := by
    intro loop
    unfold addChecksum
    split
    next =>
      exact (flushHeader_reports _ _).bind fun _ => (writeData_reports _).bind fun _ => reports_pure _
    next => exact reports_pure _
  have header : ∀ header, Reports False (rewriteHeader os header) := by
    refine fun header => (lseekSet_answers _).bind fun ret => ?_
    split
    next negative => exact reports_throwErrno negative
    next => exact writeData_reports _
  refine extents.bind fun _ => (openFile_reports true).bind fun _ => (writeData_reports _).bind fun _ => ?_
  exact (steps _ _).bind fun loop => (skipTo_reports _ _).bind fun loop => (checksum _).bind fun _ =>
    header _

end Sparse

/-! ### The handlers -/

/-- The handlers that write their file themselves, and what they work on. -/
inductive FileHandler where
  | hdimage (outputs : String → ChildOutput) (layout : Layout)
  | flash (imageGet : String → Option FlashChild) (image : FlashImage)
  | mdraid (image : MdraidImage) (sb : Superblock) (bsb : BitmapSuper)
  | androidSparse (options : SparseOptions) (input : File) (mapped : Except Int (List Extent))

/-- `handler->generate` -/
def FileHandler.generate (os : Os) : FileHandler → Sys Unit
  | .hdimage outputs layout => hdimageGenerate os outputs layout
  | .flash imageGet image => flashGenerate os imageGet image
  | .mdraid image sb bsb => writeMember os image sb bsb
  | .androidSparse options input mapped => androidSparseGenerate os options input mapped

/-- **`map_file_extents`** answers with extents or with an error for every input file. -/
def FileHandler.Reported : FileHandler → Prop
  | .hdimage outputs _ => ∀ name, (outputs name).Reported
  | .flash imageGet _ => ∀ name, ∀ child ∈ imageGet name, child.output.Reported
  | .mdraid image _ _ => ∀ data ∈ image.imgData, data.output.Reported
  | .androidSparse _ _ mapped => mapped ≠ .error 0

/-- **No handler stops early with success**, whatever the system answers and wherever it starts. -/
theorem FileHandler.generate_exit (os : Os) (handler : FileHandler) (reported : handler.Reported)
    (world : World) :
    Effect.Ends (handler.generate os) world fun result _ => result ≠ .error 0 := by
  have reports : Reports False (handler.generate os) := by
    cases handler with
    | hdimage outputs layout => exact hdimageGenerate_reports reported
    | flash imageGet image => exact flashGenerate_reports reported image
    | mdraid image sb bsb => exact writeMember_reports reported sb bsb
    | androidSparse options input mapped => exact androidSparseGenerate_reports reported options input
  exact reports world False.elim

/-- The file header of a sparse image does not fit on the device. -/
def fullDevice : Os where
  reply call := if call = 2 then .fail .nospc else .full

theorem FileHandler.generate_exit_fullDevice :
    Effect.Ends ((FileHandler.androidSparse ⟨4096, true, false⟩ .empty (.ok [])).generate fullDevice)
      ⟨none, 0, 0, 0⟩ fun result _ => result ≠ .error 0 :=
  FileHandler.generate_exit fullDevice (.androidSparse ⟨4096, true, false⟩ .empty (.ok [])) nofun _

end Genimage
