/-
**Verity images (`image-verity.c`), and the run of `main` over the images.**

A `verity` image writes a root hash into the temporary directory, under a name made of its own; a
`verity-sig` image reads it under the name in its `image` option. `verityParse` and `veritySigParse`
enter what the images refer to; the `image` option of `verity-sig` is not among it.

`imagesOf` is the list that `main` builds: the image sections, then a `file` image for every name that
no section has. `runPasses` is its two loops. What the files hold is told by the calls of the generate
handlers: `rootHashWriter` is the verity image that has written a path last. Two paths are one file
when they are the same string.
-/

import Genimage.Image.Mountpoints
import Genimage.Image.Resolve

namespace Genimage

open Library Library.Walk

/-- The handler section of an image; an `other` one has a setup handler or not. -/
inductive HandlerSection where
  | verity (image extraargs : Option String)
  | veritySig (image cert key : Option String)
  | other (hasSetup : Bool)

/-- An image section. `partitions` has the `image` options of the `partition` sections, and for an
`other` handler the names that its parse function adds. -/
structure ImageSection where
  file : String
  temporary : Bool := false
  execPre : Bool := false
  execPost : Bool := false
  partitions : List (Option String) := []
  handler : HandlerSection

/-- A mandatory option that is missing. -/
inductive VerityError where
  | image
  | cert
  | key
deriving DecidableEq, Repr

/-- The message of `image_error`; the return value is `-EINVAL`. -/
def VerityError.text : VerityError → String
  | .image => "Mandatory 'image' option is missing!\n"
  | .cert => "Mandatory 'cert' option is missing!\n"
  | .key => "Mandatory 'key' option is missing!\n"

/-! ### The parse functions -/

/-- `pkcs11_prefix` -/
def pkcs11Prefix : String := "pkcs11:"

/-- The `strncmp` with the prefix finds a difference. -/
def isPkcs11 (option : String) : Bool :=
  pkcs11Prefix.toList = option.toList.take pkcs11Prefix.toList.length

/-- `verity_parse`: the images it refers to. -/
def verityParse (image : Option String) : Except VerityError (List (Option String)) :=
  match image with
  | none => .error .image
  | some data => .ok [some data]

/-- A certificate or a key is an image, unless it is in a token. -/
def tokenOrImage (option : String) : List (Option String) :=
  if isPkcs11 option then [] else [some option]

/-- `verity_sig_parse` -/
def veritySigParse (image cert key : Option String) :
    Except VerityError (List (Option String)) :=
  match image with
  | none => .error .image
  | some _ =>
    match cert with
    | none => .error .cert
    | some cert =>
      match key with
      | none => .error .key
      | some key => .ok (tokenOrImage cert ++ tokenOrImage key)

/-- The parse function of the handler. -/
def handlerParse : HandlerSection → Except VerityError (List (Option String))
  | .verity image _ => verityParse image
  | .veritySig image cert key => veritySigParse image cert key
  | .other _ => .ok []

/-- The handler has a setup function. -/
def HandlerSection.hasSetup : HandlerSection → Bool
  | .other hasSetup => hasSetup
  | _ => false

/-- The image of a section. -/
def parseImage (imagesec : ImageSection) : Except VerityError Image := do
  let added ← handlerParse imagesec.handler
  return {
    file := imagesec.file
    partitions := imagesec.partitions ++ added
    hasSetup := imagesec.handler.hasSetup
    execPre := imagesec.execPre
    execPost := imagesec.execPost }

/-- The implicit `file` image for a name that no image has. -/
def addImplicit (images : List Image) (name : String) : List Image :=
  if (imageGet images name).isSome then images else images ++ [{ file := name }]

/-- The loop that checks if each partition has an image. -/
def addImplicits (images : List Image) : List Image :=
  (images.flatMap fun image => image.partitions.filterMap id).foldl addImplicit images

/-- The list `images` behind these loops. -/
def imagesOf (sections : List ImageSection) : Except VerityError (List Image) := do
  return addImplicits (← sections.mapM parseImage)

/-! ### The run -/

section Run

variable (images : List Image) (outside : Outside (Fin images.length))

/-- The loops over `image_setup` and `image_generate`. -/
def runPasses : Option (Int × Marks images) :=
  match setupAll images outside (Marks.fresh images) with
  | none => none
  | some (ret, marks) => if ret ≠ 0 then some (ret, marks) else generateAll images outside marks

end Run

/-! ### The files -/

/-- The directories of a run. -/
structure Paths where
  tmppath : String
  imagepath : String

/-- `verity_tmp_path` -/
def verityTmpPath (paths : Paths) (verity suffix : String) : String :=
  paths.tmppath ++ "/" ++ sanitizePath verity ++ "." ++ suffix

/-- `imageoutfile` -/
def imageoutfile (paths : Paths) (imagesec : ImageSection) : String :=
  if imagesec.file.toList.head? = some '/' then imagesec.file
  else (if imagesec.temporary then paths.tmppath else paths.imagepath) ++ "/" ++ imagesec.file

section Files

variable (paths : Paths) (sections : List ImageSection) (images : List Image)

/-- The section of an image; an implicit image has none. -/
def sectionOf (image : Fin images.length) : Option ImageSection :=
  sections.find? (·.file = (images.get image).file)

/-- The image is a `verity` image. -/
def isVerity (image : Fin images.length) : Bool :=
  match (sectionOf sections images image).map ImageSection.handler with
  | some (.verity _ _) => true
  | _ => false

/-- **The generation of a verity image writes a path**: the root hash or the image. -/
def verityWrites (image : Fin images.length) (path : String) : Bool :=
  isVerity sections images image && ((sectionOf sections images image).elim false fun imagesec =>
    path = verityTmpPath paths imagesec.file "root-hash" ∨ path = imageoutfile paths imagesec)

/-- The `image` option of a `verity-sig` image. -/
def signedName (image : Fin images.length) : Option String :=
  match (sectionOf sections images image).map ImageSection.handler with
  | some (.veritySig name _ _) => name
  | _ => none

/-- The images whose generate handler has been called. -/
def generated {ι : Type} (log : List (Call ι)) : List ι :=
  log.filterMap fun event =>
    match event with
    | .generate image => some image
    | _ => none

/-- The verity image that has written a path last. -/
def rootHashWriter (log : List (Call (Fin images.length))) (path : String) :
    Option (Fin images.length) :=
  (generated log).reverse.find? fun image => verityWrites paths sections images image path

end Files

end Genimage
