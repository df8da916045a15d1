import Genimage.Flash.Contents
import Genimage.Flash.Layout
import Genimage.Hdimage.ChildSize
import Genimage.Hdimage.Bounds
import Genimage.Hdimage.Chs
import Genimage.Hdimage.Classify
import Genimage.Hdimage.EbrChain
import Genimage.Hdimage.ExtendedRange
import Genimage.Hdimage.GptEntries
import Genimage.Hdimage.GptPointers
import Genimage.Hdimage.GptRange
import Genimage.Hdimage.HoleSafety
import Genimage.Hdimage.Layout
import Genimage.Hdimage.Prediction
import Genimage.Hdimage.Readback
import Genimage.Hdimage.Reproducible
import Genimage.Hdimage.Sanity
import Genimage.Hdimage.Sectors
import Genimage.Hdimage.Tables
import Genimage.Image.Commands
import Genimage.Image.Divisions
import Genimage.Image.Environment
import Genimage.Image.FlashTypes
import Genimage.Image.Formats
import Genimage.Image.Holes
import Genimage.Image.Main
import Genimage.Image.Repeatable
import Genimage.Image.Subtrees
import Genimage.Image.Ubi
import Genimage.Image.VerityJson
import Genimage.Image.VeritySig
import Genimage.Mdraid.Bitmap
import Genimage.Mdraid.Mirrors
import Genimage.Mdraid.Roles
import Genimage.Sparse.Checksum
import Genimage.Util.ConfigOpts
import Genimage.Util.Crc32Bits
import Genimage.Util.DirSize
import Genimage.Util.InsertData
import Genimage.Util.InsertImage
import Genimage.Util.Random32
import Genimage.Util.UuidText
